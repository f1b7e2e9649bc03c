import Phrasebook.Decimal.Fixed

/-!
# Curves

A curve maps the time of a cycle to progress, and `interpolate` moves along it from one number to
another.  All curves but the arch are made of ring operations and comparisons, so they run on any
kind of number; the arch is half a wave of the sine and is a parameter.
-/

namespace Phrasebook

/-- How a number moves from its first value to its last. -/
inductive Curve where
  | linear
  | easeIn
  | easeOut
  | easeInOut
  /-- Up, and down again within one cycle. -/
  | arch
  deriving DecidableEq, Repr

namespace Curve

/-- The names of the curves. -/
def table : List (String × Curve) :=
  [("linear", .linear), ("lerp", .linear), ("ease_in", .easeIn), ("ease_out", .easeOut),
    ("ease_in_out", .easeInOut), ("ease", .easeInOut), ("bounce", .arch)]

/-- The curve of a given name. -/
def ofName? (name : String) : Option Curve :=
  (table.find? fun entry => entry.1 == name).map (·.2)

section

variable {K : Type} [Add K] [Sub K] [Mul K] [Div K] [Neg K] [LT K] [DecidableLT K] [∀ n, OfNat K n]

/-- A time brought into `[0, 1]`. -/
def clamp (t : K) : K :=
  if t < 0 then 0 else if 1 < t then 1 else t

/-- Progress at a time in `[0, 1]`. -/
def progress (wave : K → K) (c : Curve) (t : K) : K :=
  match c with
  | linear => t
  | easeIn => t * t
  | easeOut => t * (2 - t)
  | easeInOut =>
    if t < 1 / 2 then 2 * t * t else 1 - (-2 * t + 2) * (-2 * t + 2) / 2
  | arch => wave t

/-- Progress at any time. -/
def apply (wave : K → K) (c : Curve) (t : K) : K :=
  c.progress wave (clamp t)

/-- The number reached at a time on the way between two numbers. -/
def interpolate (wave : K → K) (c : Curve) (first last t : K) : K :=
  first + (last - first) * c.apply wave t

end

/-- Half a wave of the sine. -/
def sineArch (t : Float) : Float :=
  (3.141592653589793 * t).sin

end Curve

/-! ## Numbers in the text of a book -/

/-- Places after the point unless a reference asks for another number. -/
def defaultPlaces : Nat := 2

/-- The most places after the point. -/
def maxPlaces : Nat := 12

/-- A number with at most `places` digits after the point and no zero at the end of them. -/
def numberText (places : Nat) (x : Float) : String :=
  String.ofList <|
    if x.isFinite then
      (Decimal.Fixed.ofBinary (.ofFloat x) (min places maxPlaces)).reduce.render
    else Decimal.nonFiniteName x

end Phrasebook
