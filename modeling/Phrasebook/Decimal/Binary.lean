/-!
# The exact value of a float

A finite float is `±significand · 2^power` with natural `significand`.  The texts of numbers are
computed from these three parts in exact arithmetic.
-/

namespace Phrasebook.Decimal

/-- The number `±significand · 2^power`. -/
structure Binary where
  negative : Bool
  significand : Nat
  power : Int
  deriving DecidableEq, Repr

namespace Binary

/-- The least power of two among the floats, that of the subnormal ones. -/
def minPower : Int := -1074

/-- The parts of a finite float, read off its bits. -/
def ofFloat (x : Float) : Binary :=
  let bits := x.toBits.toNat
  let exponent : Nat := bits / Nat.pow 2 52 % Nat.pow 2 11
  let fraction := bits % Nat.pow 2 52
  let negative := bits / Nat.pow 2 63 = 1
  if exponent = 0 then ⟨negative, fraction, minPower⟩
  else ⟨negative, Nat.pow 2 52 + fraction, minPower + (exponent - 1 : Nat)⟩

/-- The absolute value as a quotient of naturals. -/
def quotient (b : Binary) : Nat × Nat :=
  (b.significand * Nat.pow 2 b.power.toNat, Nat.pow 2 (-b.power).toNat)

end Binary

end Phrasebook.Decimal
