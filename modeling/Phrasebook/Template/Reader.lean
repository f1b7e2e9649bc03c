import Phrasebook.Book.Basic
import Phrasebook.Template.Fault
import Phrasebook.Template.Piece
import Phrasebook.Text.Blank

/-!
# Reading templates

A placeholder holds an optional `~` for an animated reference, the name of a rule, and optional
arguments `(name: value, …)`.  A value is quoted text, `$name`, or plain text.  A fault is reported
at the opening braces of the first placeholder that has one.
-/

namespace Phrasebook

/-- A fault and the column where it is reported. -/
structure Located (ε : Type) where
  column : Nat
  fault : ε
  deriving DecidableEq, Repr

/-- Reads a value, the blanks around it having been dropped. -/
def Value.parse (raw : List Char) : Except PlaceholderFault Value :=
  match raw with
  | '"' :: quoted =>
    match Quoting.read quoted with
    | none => .error .unclosedQuote
    | some (content, behind) =>
      let trailing := Text.trim behind
      if trailing = [] then .ok (.text (String.ofList content))
      else .error (.trailingQuote (String.ofList trailing))
  | '$' :: name =>
    if isQualifiedIdentifier name then .ok (.ref (String.ofList name))
    else .error (.invalidValueName (String.ofList name))
  | _ => .ok (.text (String.ofList raw))

/-- Reads one argument. -/
def Argument.parse (raw : List Char) : Except PlaceholderFault Argument :=
  let part := Text.trim raw
  if part = [] then .error .emptyArgument
  else
    match Text.cutAt ':' part with
    | none => .error (.unnamedArgument (String.ofList part))
    | some (before, after) =>
      let name := Text.trim before
      if isIdentifier name then
        (Value.parse (Text.trim after)).map fun value => ⟨String.ofList name, value, none⟩
      else .error (.invalidArgumentName (String.ofList name))

/-- Reads the arguments between two parentheses. -/
def Argument.parseAll (raw : List Char) : Except PlaceholderFault (List Argument) :=
  if Text.trim raw = [] then .ok []
  else (Quoting.splitOn ',' .bare raw).mapM Argument.parse

/-- The characters that a name in a placeholder runs over. -/
def isReferenceChar (c : Char) : Bool :=
  isNameChar c || c == qualifier

/-- Reads what follows the name of a reference. -/
def Reference.parseArguments (name : String) (rest : List Char) :
    Except PlaceholderFault (List Argument) :=
  match rest with
  | [] => .ok []
  | '(' :: body =>
    match Quoting.cutAt ')' .bare body with
    | none => .error (.unclosedArguments name)
    | some (args, behind) =>
      let trailing := Text.trim behind
      if trailing = [] then Argument.parseAll args
      else .error (.trailingArguments (String.ofList trailing))
  | _ => .error (.trailingName (String.ofList rest) name)

/-- Reads the body of a placeholder. -/
def Reference.parse (body : List Char) : Except PlaceholderFault Reference :=
  let (animated, content) :=
    match Text.trim body with
    | '~' :: rest => (true, Text.trimStart rest)
    | content => (false, content)
  let name := content.takeWhile isReferenceChar
  if name = [] then .error (.missingName (String.ofList body))
  else if name ≠ nestedName.toList ∧ isQualifiedIdentifier name = false then
    .error (.invalidName (String.ofList name))
  else
    (Reference.parseArguments (String.ofList name)
      (Text.trimStart (content.dropWhile isReferenceChar))).map fun args =>
        ⟨String.ofList name, args, animated, none⟩

/-- Whether two opening braces stand side by side. -/
def hasOpening : List Char → Bool
  | '{' :: '{' :: _ => true
  | _ :: rest => hasOpening rest
  | [] => false

/-- The segment that a piece stands for. -/
def Piece.toSegment : Piece → Except (Located PlaceholderFault) Segment
  | .text s => .ok (.literal (String.ofList s))
  | .unclosed column => .error ⟨column, .unclosed⟩
  | .slot column body =>
    if hasOpening body then .error ⟨column, .nested⟩
    else
      match Reference.parse body with
      | .ok r => .ok (.reference r)
      | .error fault => .error ⟨column, fault⟩

/-- Reads the text of a template that begins at `column`. -/
def Template.parse (column : Nat) (text : List Char) :
    Except (Located PlaceholderFault) Template :=
  (pieces column text).mapM Piece.toSegment

end Phrasebook
