import Phrasebook.Decimal.Numeral
import Phrasebook.Decimal.Shortest
import Phrasebook.Expansion.Passage
import Phrasebook.Expansion.Run
import Phrasebook.Motion.Curve
import Phrasebook.Text.Blank

/-!
# Animated references

An animated reference names a curve and computes a number from the time.  Its arguments are numbers:
the two ends of the way, and the places after the point.  A `$name` argument must be bound, for an
animated reference expands no rule.
-/

namespace Phrasebook

/-- The text of an argument of an animated reference. -/
def Argument.boundText (a : Argument) (bindings : Bindings) : Except String String :=
  match a.value with
  | .text s => .ok s
  | .ref name =>
    let key := a.binding.getD name
    match bindings[key]? with
    | some p => .ok p.text
    | none => .error ("'$" ++ key ++ "' is not a bound argument")

/-- The number that a text denotes, the reason being given if it denotes none. -/
def finiteNumber (raw : String) : Except String Float :=
  match Decimal.float? (Text.trim raw.toList) with
  | some x => if x.isFinite then .ok x else .error ("'" ++ raw ++ "' is not a number")
  | none => .error ("'" ++ raw ++ "' is not a number")

namespace Reference

/-- The number passed as an argument, if there is such an argument. -/
def number (r : Reference) (name : String) (bindings : Bindings) :
    Except ExpandError (Option Float) :=
  match r.argument? name with
  | none => .ok none
  | some a =>
    match (a.boundText bindings).bind finiteNumber with
    | .ok x => .ok (some x)
    | .error reason => .error (.invalidArgument r.name name reason)

/-- The places after the point. -/
def places (r : Reference) (bindings : Bindings) : Except ExpandError Nat :=
  match r.number "decimals" bindings with
  | .error e => .error e
  | .ok none => .ok defaultPlaces
  | .ok (some x) =>
    match (List.range (maxPlaces + 1)).find? fun n => x == Float.ofNat n with
    | some n => .ok n
    | none =>
      .error <| .invalidArgument r.name "decimals" <|
        "expected a whole number from 0 to " ++ toString maxPlaces ++ ", got " ++
          Decimal.shortestText x

/-- The text of an animated reference at a time. -/
def animate (r : Reference) (bindings : Bindings) (time : Float) : Except ExpandError String :=
  match Curve.ofName? r.name with
  | none => .error (.unknownRule r.name)
  | some curve =>
    match r.number "from" bindings with
    | .error e => .error e
    | .ok first =>
      match r.number "to" bindings with
      | .error e => .error e
      | .ok last =>
        match r.places bindings with
        | .error e => .error e
        | .ok places =>
          .ok (numberText places
            (curve.interpolate Curve.sineArch (first.getD 0) (last.getD 1) time))

end Reference

end Phrasebook
