import Phrasebook.Decimal.Numeral
import Phrasebook.Source.Fault
import Phrasebook.Template.Reader

/-!
# Reading an alternative

An alternative may begin with its weight in brackets.  Brackets that hold no number are ordinary
text, and a backslash before an opening bracket makes it ordinary text as well.
-/

namespace Phrasebook

/-- The weight at the beginning of a text, the text after it, and the number of characters between
the beginnings of the two.  The fault is the text of a number that is no weight. -/
def cutWeight (text : List Char) : Except (List Char) (Float × List Char × Nat) :=
  match text with
  | '\\' :: '[' :: _ => .ok (1, text.tail, 1)
  | '[' :: rest =>
    match Text.cutAt ']' rest with
    | none => .ok (1, text, 0)
    | some (raw, after) =>
      match Decimal.float? (Text.trim raw) with
      | none => .ok (1, text, 0)
      | some weight =>
        if weight.isFinite ∧ 0 ≤ weight then
          let body := match after with
            | ' ' :: body => body
            | _ => after
          .ok (weight, body, text.length - body.length)
        else .error (Text.trim raw)
  | _ => .ok (1, text, 0)

/-- Reads the text of an alternative that begins at a place. -/
def Alternative.parse (line column : Nat) (text : List Char) : Except ParseError Alternative :=
  match cutWeight text with
  | .error raw => .error ⟨line, column, .invalidWeight (String.ofList raw)⟩
  | .ok (weight, body, skipped) =>
    match Template.parse (column + skipped) body with
    | .error e => .error ⟨line, e.column, .placeholder e.fault⟩
    | .ok template => .ok ⟨weight, template⟩

end Phrasebook
