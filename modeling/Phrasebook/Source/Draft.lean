import Phrasebook.Choice
import Phrasebook.Source.Alternative
import Phrasebook.Source.Line
import Phrasebook.Source.Setting

/-!
# Reading a source line by line

A source is a sequence of blocks, each a header followed by items.  Items of one list have the same
indentation, and a list nested below an item is indented deeper.  `Draft` is what is known after
some lines: the rules that are complete and the lists that are still open.  A list is closed, and
becomes a rule, when a line dedents out of it or a new block begins.

That an open list has an alternative, that only the outermost place can be a preamble or a header
without alternatives, and that there is always a list to go on with after a dedent is part of the
types.
-/

namespace Phrasebook

/-- An alternative of a list that is still open. -/
structure OpenAlternative where
  alternative : Alternative
  line : Nat
  column : Nat
  /-- The name of the list nested below it. -/
  nested : Option String := none

/-- A list of alternatives that is still open. -/
structure OpenList where
  name : String
  /-- The line of the header, or of the first item of a nested list. -/
  line : Nat
  /-- The indentation of the items. -/
  level : Nat
  newest : OpenAlternative
  /-- The alternatives before the newest one, in reversed order. -/
  older : List OpenAlternative

/-- Where an item would go. -/
inductive Place where
  /-- Before the first header. -/
  | outside
  /-- In the preamble, with the indentation of its entries once there is one. -/
  | preamble (level : Option Nat)
  /-- Below the header of a rule, before its first alternative. -/
  | header (name : String) (line : Nat)
  /-- In a list, nested in the lists that follow. -/
  | list (inner : OpenList) (outer : List OpenList)

/-- What is known after some lines of a source. -/
structure Draft where
  book : Book := {}
  /-- The headers so far. -/
  headers : NameSet := ∅
  place : Place := .outside

/-! ## Closing a list -/

/-- Whether a reference stands for the nested list. -/
def Reference.isNestedSlot (r : Reference) : Bool :=
  r.name == nestedName && !r.animated

/-- A reference to the nested list by its name. -/
def Segment.bindNested (name : String) : Segment → Segment
  | .literal s => .literal s
  | .reference r => .reference (if r.isNestedSlot then { r with name } else r)

/-- The alternative once its list is closed: its `_` placeholders refer to the list nested below it,
and there is such a list exactly when there is such a placeholder. -/
def OpenAlternative.finish (a : OpenAlternative) : Except ParseError Alternative :=
  let used := (Template.references a.alternative.template).any Reference.isNestedSlot
  match a.nested with
  | none =>
    if used then .error ⟨a.line, a.column, .missingNested⟩ else .ok a.alternative
  | some name =>
    if used then
      .ok { a.alternative with template := a.alternative.template.map (Segment.bindNested name) }
    else .error ⟨a.line, a.column, .unusedNested⟩

namespace OpenList

/-- The alternatives of a list, in order. -/
def alternatives (l : OpenList) : List OpenAlternative :=
  (l.newest :: l.older).reverse

/-- The rule that a list becomes. -/
def finish (l : OpenList) : Except ParseError Rule :=
  if 0 < Choice.total (l.alternatives.map (·.alternative.weight)) then
    (l.alternatives.mapM OpenAlternative.finish).map fun alternatives => ⟨l.name, alternatives⟩
  else .error ⟨l.line, 1, .noPositiveWeight l.name⟩

/-- A book with the rule that a list becomes. -/
def close (l : OpenList) (book : Book) : Except ParseError Book :=
  l.finish.map book.insert

/-- A list with one alternative more. -/
def push (l : OpenList) (a : OpenAlternative) : OpenList :=
  { l with newest := a, older := l.newest :: l.older }

/-- The name of the list nested below the newest alternative. -/
def nestedName (l : OpenList) : String :=
  nestedRuleName l.name l.older.length

/-- A list whose newest alternative owns a nested list. -/
def own (l : OpenList) : OpenList :=
  { l with newest := { l.newest with nested := some l.nestedName } }

end OpenList

/-- A book with the rules that nested lists become, the innermost one first. -/
def closeAll (book : Book) : List OpenList → Except ParseError Book
  | [] => .ok book
  | l :: outer => (l.close book).bind fun book => closeAll book outer

/-- A book with the rules of everything that is open. -/
def Place.close (book : Book) : Place → Except ParseError Book
  | .outside | .preamble _ => .ok book
  | .header name line => .error ⟨line, 1, .noAlternatives name⟩
  | .list inner outer => closeAll book (inner :: outer)

/-- Closes the lists that an indentation dedents out of; the outermost one is never closed. -/
def dedent (line indent : Nat) (book : Book) :
    OpenList → List OpenList → Except ParseError (Book × OpenList × List OpenList)
  | inner, [] =>
    if indent < inner.level then .error ⟨line, indent + 1, .inconsistentIndentation⟩
    else .ok (book, inner, [])
  | inner, next :: outer =>
    if indent < inner.level then
      (inner.close book).bind fun book => dedent line indent book next outer
    else .ok (book, inner, next :: outer)

/-! ## Adding a line -/

namespace Draft

/-- Columns from the indentation of an item to its text: a dash and a space. -/
def itemOffset : Nat := 3

/-- Reads the text of an item as an alternative. -/
def readAlternative (line indent : Nat) (text : List Char) : Except ParseError OpenAlternative :=
  (Alternative.parse line (indent + itemOffset) text).map fun alternative =>
    { alternative, line, column := indent + itemOffset }

/-- A draft with one entry of the preamble more. -/
def addEntry (d : Draft) (line indent : Nat) (text : List Char) : Except ParseError Draft :=
  match d.book.preamble.addEntry text with
  | .error fault => .error ⟨line, indent + itemOffset, .setting fault⟩
  | .ok preamble =>
    .ok { d with book := { d.book with preamble }, place := .preamble (some indent) }

/-- A draft with one item more in the lists that are open after dedenting. -/
def addToList (d : Draft) (line indent : Nat) (text : List Char) (inner : OpenList)
    (outer : List OpenList) : Except ParseError Draft :=
  if indent = inner.level then
    (readAlternative line indent text).map fun a =>
      { d with place := .list (inner.push a) outer }
  else if inner.newest.nested.isSome then
    .error ⟨line, indent + 1, .inconsistentIndentation⟩
  else
    (readAlternative line indent text).map fun a =>
      { d with place := .list ⟨inner.nestedName, line, indent, a, []⟩ (inner.own :: outer) }

/-- A draft with one item more. -/
def addItem (d : Draft) (line indent : Nat) (text : List Char) : Except ParseError Draft :=
  match d.place with
  | .outside => .error ⟨line, indent + 1, .outsideRule⟩
  | .preamble none => d.addEntry line indent text
  | .preamble (some level) =>
    if indent < level then .error ⟨line, indent + 1, .inconsistentIndentation⟩
    else if indent = level then d.addEntry line indent text
    else .error ⟨line, indent + 1, .nestedPreamble⟩
  | .header name headerLine =>
    (readAlternative line indent text).map fun a =>
      { d with place := .list ⟨name, headerLine, indent, a, []⟩ [] }
  | .list inner outer =>
    (dedent line indent d.book inner outer).bind fun (book, inner, outer) =>
      addToList { d with book } line indent text inner outer

/-- A draft with the header of a block more. -/
def addHeader (d : Draft) (line indent : Nat) (content : List Char) : Except ParseError Draft :=
  (headerName line indent content).bind fun name =>
    if d.headers.contains name then .error ⟨line, 1, .duplicateRule name⟩
    else
      (d.place.close d.book).map fun book =>
        { book, headers := d.headers.insert name
          place := if name = preambleName then .preamble none else .header name line }

/-- A draft with one line more. -/
def addLine (d : Draft) (number : Nat) (raw : List Char) : Except ParseError Draft :=
  (Line.read number raw).bind fun
    | none => .ok d
    | some (indent, .item text) => d.addItem number indent text
    | some (indent, .header content) => d.addHeader number indent content

/-- A draft with more lines, the first of which has a given number. -/
def addLines (d : Draft) (number : Nat) : List (List Char) → Except ParseError Draft
  | [] => .ok d
  | raw :: rest => (d.addLine number raw).bind fun d => d.addLines (number + 1) rest

end Draft

/-- Reads the source text of a book.  Imports and references stay as they are written. -/
def Book.parse (source : String) : Except ParseError Book :=
  (Draft.addLines {} 1 (Text.splitOn '\n' source.toList)).bind fun d => d.place.close d.book

end Phrasebook
