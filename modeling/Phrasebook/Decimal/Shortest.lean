import Phrasebook.Decimal.Fixed

/-!
# The shortest text of a number

Each float is the only one nearest to every real number of an interval around it, whose ends belong
to it when the significand is even.  The text of a float has the digits of the coarsest decimal grid
with a point in that interval: of the two grid points next to the float the one in the interval, of
two such points the nearer one, and of two equally near ones the upper one.
-/

namespace Phrasebook.Decimal

/-- The interval of a float and the float itself, in quarters of its last binary place. -/
structure Interval where
  low : Nat
  mid : Nat
  high : Nat
  /-- Whether the two ends belong to the interval. -/
  closed : Bool
  /-- The power of two of one quarter. -/
  power : Int
  deriving DecidableEq, Repr

/-- The reals that round to `b`; below a power of two the floats lie twice as close. -/
def Interval.around (b : Binary) : Interval where
  low := 4 * b.significand -
    (if b.significand = Nat.pow 2 52 ∧ Binary.minPower < b.power then 1 else 2)
  mid := 4 * b.significand
  high := 4 * b.significand + 2
  closed := b.significand % 2 = 0
  power := b.power - 2

/-- The point of the grid of step `10^exponent` that stands for the interval, as a multiple of the
step: `point * unit` is compared with `mid * scale`. -/
def Interval.gridPoint? (i : Interval) (exponent : Int) : Option Nat :=
  let unit := Nat.pow 10 exponent.toNat * Nat.pow 2 (-i.power).toNat
  let scale := Nat.pow 2 i.power.toNat * Nat.pow 10 (-exponent).toNat
  let inside (p : Nat) : Bool :=
    (i.low * scale < p * unit && p * unit < i.high * scale) ||
      (i.closed && (p * unit == i.low * scale || p * unit == i.high * scale))
  let below := i.mid * scale / unit
  let above := below + 1
  if inside below && !(inside above && above * unit - i.mid * scale ≤ i.mid * scale - below * unit)
  then some below
  else if inside above then some above
  else none

/-- The coarsest grid with a point in the interval, `steps` grids from `exponent` downwards. -/
def Interval.coarsest (i : Interval) : Nat → Int → Nat × Int
  | 0, exponent => (i.mid, exponent)
  | steps + 1, exponent =>
    match i.gridPoint? exponent with
    | some point => (point, exponent)
    | none => i.coarsest steps (exponent - 1)

/-- Digits and power of ten of the shortest decimal that rounds to a positive `b`.  The first grid
tried is coarser than `b`, and the twentieth after it is finer than the floats around `b`. -/
def shortest (b : Binary) : Nat × Int :=
  let size : Int := b.significand.log2 + 1 + b.power
  (Interval.around b).coarsest 24 (size * 30103 / 100000 + 2)

/-- The number `digits · 10^exponent` in positional notation. -/
def positional (ds : Nat) (exponent : Int) : List Char :=
  if 0 ≤ exponent then digits ds ++ List.replicate exponent.toNat '0'
  else Fixed.render ⟨false, ds, (-exponent).toNat⟩

/-- The shortest positional text that reads back as a given float. -/
def shortestText (x : Float) : String :=
  if x.isFinite then
    let b := Binary.ofFloat x
    let sign := if b.negative then ['-'] else []
    let text := if b.significand = 0 then ['0'] else
      let (ds, exponent) := shortest b
      positional ds exponent
    String.ofList (sign ++ text)
  else String.ofList (nonFiniteName x)

end Phrasebook.Decimal
