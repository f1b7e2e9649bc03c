/-!
# Decimal numerals

Reading a number from text: an optional sign, then `inf`, `infinity` or `nan` in any case, or
decimal digits with an optional point and an optional exponent.  At least one digit must stand
before the exponent, on either side of the point.  The float is the one nearest to the numeral.
-/

namespace Phrasebook.Decimal

/-- What a numeral says: `±digits · 10^exponent`, an infinity, or no number at all. -/
inductive Numeral where
  | finite (negative : Bool) (digits : Nat) (exponent : Int)
  | infinity (negative : Bool)
  | nan
  deriving DecidableEq, Repr

/-- The number a digit character stands for. -/
def digitValue (c : Char) : Nat :=
  c.toNat - '0'.toNat

/-- The number a run of digits stands for. -/
def naturalOf (ds : List Char) : Nat :=
  ds.foldl (fun n c => 10 * n + digitValue c) 0

/-- An optional sign and the text after it. -/
def takeSign : List Char → Bool × List Char
  | '-' :: rest => (true, rest)
  | '+' :: rest => (false, rest)
  | cs => (false, cs)

/-- A run of digits that makes up a whole text. -/
def natural? (cs : List Char) : Option Nat :=
  if cs ≠ [] ∧ cs.all Char.isDigit then some (naturalOf cs) else none

/-- The exponent that ends a numeral; nothing at all stands for zero. -/
def exponent? : List Char → Option Int
  | [] => some 0
  | c :: rest =>
    if c = 'e' ∨ c = 'E' then
      let (negative, ds) := takeSign rest
      (natural? ds).map fun n => if negative then -(n : Int) else n
    else none

/-- A numeral without its sign. -/
def magnitude? (negative : Bool) (cs : List Char) : Option Numeral :=
  let word := cs.map Char.toLower
  if word = "inf".toList ∨ word = "infinity".toList then some (.infinity negative)
  else if word = "nan".toList then some .nan
  else
    let whole := cs.takeWhile Char.isDigit
    let (fraction, rest) :=
      match cs.dropWhile Char.isDigit with
      | '.' :: rest => (rest.takeWhile Char.isDigit, rest.dropWhile Char.isDigit)
      | rest => ([], rest)
    if whole = [] ∧ fraction = [] then none
    else
      (exponent? rest).map fun e =>
        .finite negative (naturalOf (whole ++ fraction)) (e - fraction.length)

/-- Reads a whole text as a numeral. -/
def Numeral.parse? (cs : List Char) : Option Numeral :=
  let (negative, rest) := takeSign cs
  magnitude? negative rest

/-- The float nearest to a numeral. -/
def Numeral.toFloat : Numeral → Float
  | .finite negative digits exponent =>
    let x := Float.ofScientific digits (exponent < 0) exponent.natAbs
    if negative then -x else x
  | .infinity negative => if negative then -1 / 0 else 1 / 0
  | .nan => 0 / 0

/-- The float a whole text denotes. -/
def float? (cs : List Char) : Option Float :=
  (Numeral.parse? cs).map Numeral.toFloat

/-- A natural number below `2^64`, with an optional plus sign, that makes up a whole text. -/
def word? (cs : List Char) : Option Nat :=
  let ds := match cs with
    | '+' :: rest => rest
    | _ => cs
  (natural? ds).filter (· < Nat.pow 2 64)

end Phrasebook.Decimal
