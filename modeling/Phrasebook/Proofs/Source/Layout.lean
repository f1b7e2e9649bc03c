import Mathlib.Data.List.Forall2
import Phrasebook.Source.Draft

/-!
# The layout of a source

What a well-formed source looks like, said by the shape of the whole and not line
by line.  The significant lines of a source make up blocks.  A block is a header
and items below it; the items of a rule make up a `Forest`: alternatives of one
indentation, each with the list nested right below it, which is indented deeper.
`Forest.Laid` relates a forest to its lines, and `Block.Laid` and `Laid` do so for
blocks and whole sources.

A forest is also a description of rules (`Forest.rules`): the list itself and one
rule for each nested list, named after the alternative that owns it.
-/

namespace Phrasebook

/-! ## Lines -/

/-- A significant line: the spaces and tabs that it begins with, and what follows. -/
structure SourceLine where
  indentation : List Char
  content : List Char

namespace SourceLine

/-- The significant line that a line without its line feed is, if it is one. -/
def ofRaw? (raw : List Char) : Option SourceLine :=
  let line := Line.dropReturn raw
  let content := line.dropWhile Line.isIndent
  if content = [] ∨ content.head? = some '#' then none
  else some ⟨line.takeWhile Line.isIndent, content⟩

/-- A dash, and a space and a text after it, behind so many spaces.  A dash alone
has the empty text. -/
def IsItem (line : SourceLine) (level : Nat) (text : List Char) : Prop :=
  line.indentation = List.replicate level ' ' ∧
    (line.content = '-' :: ' ' :: text ∨ line.content = ['-'] ∧ text = [])

/-- The name of a block and a colon, with nothing but blanks after it and nothing
before it. -/
def IsHeader (line : SourceLine) (name : String) : Prop :=
  line.indentation = [] ∧ name.toList.head? ≠ some '-' ∧
    (name = preambleName ∨ isIdentifier name.toList = true) ∧
    ∃ blanks, line.content = name.toList ++ ':' :: blanks ∧ ∀ c ∈ blanks, Text.isBlank c = true

end SourceLine

/-- The significant lines of a source, in order. -/
def significantLines (source : String) : List SourceLine :=
  (Text.splitOn '\n' source.toList).filterMap SourceLine.ofRaw?

/-! ## Lists of alternatives -/

namespace Alternative

/-- A text is the weight of an alternative, if it has one, and its template. -/
def Reads (text : List Char) (a : Alternative) : Prop :=
  ∃ body skipped, cutWeight text = .ok (a.weight, body, skipped) ∧
    ∀ column, Template.parse column body = .ok a.template

/-- Whether a reference of an alternative stands for the list nested below it. -/
def hasSlot (a : Alternative) : Bool :=
  (Template.references a.template).any Reference.isNestedSlot

/-- An alternative whose references to the list nested below it have a name. -/
def bindNested (name : String) (a : Alternative) : Alternative :=
  { a with template := a.template.map (Segment.bindNested name) }

end Alternative

/-- Alternatives of one list, each with the list nested below it; an empty one is none. -/
inductive Forest where
  | nil
  | cons (alternative : Alternative) (nested rest : Forest)

namespace Forest

/-- The weights of the alternatives of a list. -/
def weights : Forest → List Float
  | nil => []
  | cons a _ rest => a.weight :: rest.weights

/-- The items of a list with a given indentation, and the lines below them. -/
inductive Laid : Nat → Forest → List SourceLine → Prop
  | nil (level : Nat) : Laid level nil []
  | plain {level : Nat} {line : SourceLine} {text : List Char} {a : Alternative} {rest : Forest}
      {more : List SourceLine} (hitem : line.IsItem level text) (hread : a.Reads text)
      (hslot : a.hasSlot = false) (hrest : Laid level rest more) :
      Laid level (cons a nil rest) (line :: more)
  | owner {level deeper : Nat} {line : SourceLine} {text : List Char} {a : Alternative}
      {nested rest : Forest} {below more : List SourceLine} (hitem : line.IsItem level text)
      (hread : a.Reads text) (hslot : a.hasSlot = true) (hdeeper : level < deeper)
      (hne : nested ≠ nil) (hnested : Laid deeper nested below)
      (hpos : 0 < Choice.total nested.weights) (hrest : Laid level rest more) :
      Laid level (cons a nested rest) (line :: (below ++ more))

/-- The alternatives of the list of a given name, the first of which has a given number. -/
def alternatives (owner : String) : Nat → Forest → List Alternative
  | _, nil => []
  | i, cons a _ rest => a.bindNested (nestedRuleName owner i) :: rest.alternatives owner (i + 1)

/-- The rule of a list, unless the list is empty. -/
def ownRule (owner : String) : Forest → List Rule
  | nil => []
  | cons a nested rest => [⟨owner, (cons a nested rest).alternatives owner 0⟩]

/-- The rules of the lists that are nested in a list, the innermost ones first; the
first alternative of the list has a given number. -/
def nestedRules : Forest → String → Nat → List Rule
  | nil, _, _ => []
  | cons _ nested rest, owner, i =>
    nested.nestedRules (nestedRuleName owner i) 0 ++ nested.ownRule (nestedRuleName owner i) ++
      rest.nestedRules owner (i + 1)

/-- The rules of a list and of all lists nested in it. -/
def rules (owner : String) (f : Forest) : List Rule :=
  f.nestedRules owner 0 ++ f.ownRule owner

end Forest

/-! ## Blocks -/

/-- A block of a source. -/
inductive Block where
  /-- The settings, by the texts of their entries. -/
  | preamble (entries : List (List Char))
  | rule (name : String) (list : Forest)

namespace Block

/-- The name in the header. -/
def name : Block → String
  | preamble _ => preambleName
  | rule name _ => name

/-- The entries of the preamble. -/
def entries : Block → List (List Char)
  | preamble entries => entries
  | rule _ _ => []

/-- The rules that a block stands for. -/
def rules : Block → List Rule
  | preamble _ => []
  | rule name list => list.rules name

/-- A block and its lines. -/
inductive Laid : Block → List SourceLine → Prop
  | preamble {header : SourceLine} {level : Nat} {entries : List (List Char)}
      {lines : List SourceLine} (hheader : header.IsHeader preambleName)
      (hentries : List.Forall₂ (fun text line => line.IsItem level text) entries lines) :
      Laid (preamble entries) (header :: lines)
  | rule {header : SourceLine} {name : String} {level : Nat} {list : Forest}
      {lines : List SourceLine} (hheader : header.IsHeader name) (hname : name ≠ preambleName)
      (hne : list ≠ .nil) (hlist : list.Laid level lines)
      (hpos : 0 < Choice.total list.weights) : Laid (rule name list) (header :: lines)

end Block

/-- Blocks of different names and their lines, one block after the other. -/
def Laid (blocks : List Block) (lines : List SourceLine) : Prop :=
  (blocks.map Block.name).Nodup ∧ ∃ parts, List.Forall₂ Block.Laid blocks parts ∧
    lines = parts.flatten

end Phrasebook
