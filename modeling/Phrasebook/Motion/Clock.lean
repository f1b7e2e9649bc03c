import Phrasebook.Book.Basic

/-!
# The playback clock

The seconds since playback began are counted in cycles, and the animation says which time in `[0,
1)` belongs to a number of cycles.  The clock needs a kind of number that can be split into a whole
part and a remainder.
-/

namespace Phrasebook

/-- Numbers with a whole part and a remainder, both of the sign of the number divided. -/
class Divisible (K : Type) where
  /-- The whole part of a number, toward zero. -/
  whole : K → K
  /-- What is left of a number after taking away a multiple of two. -/
  remainderTwo : K → K

namespace Clock

variable {K : Type} [Add K] [Sub K] [Mul K] [Div K] [LT K] [LE K] [DecidableLT K] [DecidableLE K]
  [∀ n, OfNat K n] [Divisible K]

/-- The largest time of a bouncing cycle, one step of a float of that size below one. -/
def latest : K := 4503599627370495 / 4503599627370496

/-- The time at a number of cycles; none once a cycle that does not repeat is over. -/
def time (a : Animation) (cycles : K) : Option K :=
  match a with
  | .loop => some (cycles - Divisible.whole cycles)
  | .once => if cycles < 1 then some cycles else none
  | .bounce =>
    let phase := Divisible.remainderTwo cycles
    let t := if phase < 1 then phase else 2 - phase
    some (if t ≤ latest then t else latest)

/-- The time of the frame shown some seconds after playback began. -/
def frameTime (a : Animation) (duration elapsed : K) : Option K :=
  time a ((if 0 < elapsed then elapsed else 0) / duration)

end Clock

/-- The whole part of a float. -/
def wholePart (x : Float) : Float :=
  if x < 0 then x.ceil else x.floor

/-- A remainder of zero has the sign of the number divided. -/
instance : Divisible Float where
  whole := wholePart
  remainderTwo x :=
    let r := x - 2 * wholePart (x / 2)
    if r == 0 then 0 * x else r

instance : Divisible Rat where
  whole x := (x.num.tdiv x.den : Int)
  remainderTwo x := x - 2 * ((x / 2).num.tdiv (x / 2).den : Int)

/-- The time of the frame of a book shown some seconds after playback began. -/
def Preamble.frameTime (p : Preamble) (elapsed : Float) : Option Float :=
  Clock.frameTime p.animation p.duration elapsed

end Phrasebook
