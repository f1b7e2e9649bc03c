import Phrasebook.Decimal.Shortest
import Phrasebook.Ron.Value
import Phrasebook.Text.Printable

/-!
# Printing the object notation

Lists, maps and records have each element on a line of its own, indented by four spaces more than
the line of the brackets and followed by a comma; empty ones have nothing between their brackets.
-/

namespace Phrasebook.Ron

/-- A character between quotes. -/
def escapeChar (c : Char) : String :=
  if c = '\x00' then "\\0"
  else if c = '\t' then "\\t"
  else if c = '\n' then "\\n"
  else if c = '\r' then "\\r"
  else if c = '"' ∨ c = '\'' ∨ c = '\\' then "\\" ++ c.toString
  else if Text.isPrintable c then c.toString
  else "\\u\x7b" ++ String.ofList (Nat.toDigits 16 c.toNat) ++ "\x7d"

/-- A quoted text. -/
def quote (s : String) : String :=
  "\"" ++ String.join (s.toList.map escapeChar) ++ "\""

/-- A number, with a point if it is whole. -/
def numberText (x : Float) : String :=
  let text := Decimal.shortestText x
  if x.isFinite ∧ ¬ '.' ∈ text.toList then text ++ ".0" else text

/-- The indentation of a nesting depth. -/
def indentation (depth : Nat) : String :=
  String.ofList (List.replicate (4 * depth) ' ')

/-- Printed elements between two brackets, each on a line of its own. -/
def block (opening closing : String) (depth : Nat) (elements : List String) : String :=
  if elements.isEmpty then opening ++ closing
  else
    let line (s : String) := indentation (depth + 1) ++ s ++ ",\n"
    opening ++ "\n" ++ String.join (elements.map line) ++ indentation depth ++ closing

mutual

/-- A value whose first line is indented by `depth`. -/
def print (depth : Nat) : Ron → String
  | .unit => "()"
  | .bool b => if b then "true" else "false"
  | .natural n => toString n
  | .number x => numberText x
  | .char c => "'" ++ escapeChar c ++ "'"
  | .string s => quote s
  | .absent => "None"
  | .present v => "Some(" ++ print depth v ++ ")"
  | .list vs => block "[" "]" depth (printAll (depth + 1) vs)
  | .map entries => block "\x7b" "\x7d" depth (printEntries (depth + 1) entries)
  | .word s => s
  | .tuple name vs =>
    name.getD "" ++ "(" ++ String.intercalate ", " (printAll depth vs) ++ ")"
  | .record name fields => block (name.getD "" ++ "(") ")" depth (printFields (depth + 1) fields)

/-- The values of a list. -/
def printAll (depth : Nat) : List Ron → List String
  | [] => []
  | v :: rest => print depth v :: printAll depth rest

/-- The entries of a map. -/
def printEntries (depth : Nat) : List (Ron × Ron) → List String
  | [] => []
  | (key, v) :: rest =>
    (print depth key ++ ": " ++ print depth v) :: printEntries depth rest

/-- The fields of a record. -/
def printFields (depth : Nat) : List (String × Ron) → List String
  | [] => []
  | (name, v) :: rest => (name ++ ": " ++ print depth v) :: printFields depth rest

end

end Phrasebook.Ron
