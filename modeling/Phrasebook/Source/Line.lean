import Phrasebook.Source.Fault
import Phrasebook.Text.Blank
import Phrasebook.Text.Split

/-!
# The lines of a source

A line is significant unless it is empty after its indentation or begins with `#` there.  A
significant line is an item, which begins with a dash, or else a header.
-/

namespace Phrasebook

/-- What a significant line holds, after its indentation. -/
inductive Line where
  /-- A line that begins with a dash and a space, with the text after them. -/
  | item (text : List Char)
  /-- Any other line. -/
  | header (text : List Char)
  deriving DecidableEq, Repr

namespace Line

/-- The characters that indent a line. -/
def isIndent (c : Char) : Bool :=
  c == ' ' || c == '\t'

/-- A line without the carriage return that ends it. -/
def dropReturn (raw : List Char) : List Char :=
  if raw.getLast? = some '\r' then raw.dropLast else raw

/-- What a line holds after its indentation; the number `indent` is that of its spaces. -/
def classify (number indent : Nat) (content : List Char) : Except ParseError Line :=
  match content with
  | ['-'] => .ok (.item [])
  | '-' :: ' ' :: text => .ok (.item text)
  | '-' :: _ => .error ⟨number, indent + 2, .missingSpace⟩
  | _ => .ok (.header content)

/-- The indentation of a line and what it holds, if it is significant. -/
def read (number : Nat) (raw : List Char) : Except ParseError (Option (Nat × Line)) :=
  let line := dropReturn raw
  let indentation := line.takeWhile isIndent
  let content := line.dropWhile isIndent
  if content = [] ∨ content.head? = some '#' then .ok none
  else if '\t' ∈ indentation then
    .error ⟨number, indentation.idxOf '\t' + 1, .tabIndentation⟩
  else
    (classify number indentation.length content).map fun l => some (indentation.length, l)

end Line

/-- The name in a header: what stands before the colon that ends the line. -/
def headerName (number indent : Nat) (content : List Char) : Except ParseError String :=
  let trimmed := Text.trimEnd content
  let name := trimmed.dropLast
  if 0 < indent then .error ⟨number, 1, .indentedHeader⟩
  else if trimmed.getLast? ≠ some ':' then .error ⟨number, 1, .unknownLine⟩
  else if name = preambleName.toList ∨ isIdentifier name then .ok (String.ofList name)
  else .error ⟨number, 1, .invalidRuleName (String.ofList name)⟩

end Phrasebook
