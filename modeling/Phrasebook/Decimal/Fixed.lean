import Phrasebook.Decimal.Binary

/-!
# Numbers with a fixed number of places

`Fixed.ofBinary` rounds a number to a given number of decimal places, a half going to the even
neighbour.  `Fixed.render` writes all places; `Fixed.reduce` drops the zeros that end the fraction
and the sign of a zero, without changing the number.
-/

namespace Phrasebook.Decimal

/-- The number `±units / 10^places`. -/
structure Fixed where
  negative : Bool
  units : Nat
  places : Nat
  deriving DecidableEq, Repr

/-- The natural number nearest to `num / den`; a half goes to the even neighbour. -/
def roundHalfEven (num den : Nat) : Nat :=
  let below := num / den
  let doubled := 2 * (num % den)
  if doubled < den then below
  else if den < doubled then below + 1
  else if below % 2 = 0 then below
  else below + 1

/-- The character of a decimal digit. -/
def digitChar (d : Nat) : Char :=
  Char.ofNat ('0'.toNat + d)

/-- The last `width` decimal digits of a number. -/
def lastDigits : Nat → Nat → List Char
  | 0, _ => []
  | width + 1, n => lastDigits width (n / 10) ++ [digitChar (n % 10)]

/-- The decimal digits of a number, without leading zeros. -/
def digits (n : Nat) : List Char :=
  Nat.toDigits 10 n

namespace Fixed

/-- A number rounded to `places` decimal places. -/
def ofBinary (b : Binary) (places : Nat) : Fixed :=
  let (num, den) := b.quotient
  ⟨b.negative, roundHalfEven (num * Nat.pow 10 places) den, places⟩

/-- The sign, the whole part, and a point with exactly `places` digits if there are any. -/
def render (f : Fixed) : List Char :=
  let sign := if f.negative then ['-'] else []
  let fraction := if f.places = 0 then [] else '.' :: lastDigits f.places f.units
  sign ++ digits (f.units / Nat.pow 10 f.places) ++ fraction

/-- The digits after the zeros that end a fraction of `places` digits are dropped. -/
def dropZeros : Nat → Nat → Nat × Nat
  | units, 0 => (units, 0)
  | units, places + 1 =>
    if units % 10 = 0 then dropZeros (units / 10) places else (units, places + 1)

/-- The same number without zeros at the end of the fraction; zero has no sign. -/
def reduce (f : Fixed) : Fixed :=
  let (units, places) := dropZeros f.units f.places
  ⟨f.negative && units != 0, units, places⟩

end Fixed

/-- The names of the floats that are no numbers. -/
def nonFiniteName (x : Float) : List Char :=
  if x.isNaN then "NaN".toList else if x < 0 then "-inf".toList else "inf".toList

/-- A float with exactly `places` decimal places. -/
def fixedText (places : Nat) (x : Float) : String :=
  String.ofList (if x.isFinite then (Fixed.ofBinary (.ofFloat x) places).render
    else nonFiniteName x)

end Phrasebook.Decimal
