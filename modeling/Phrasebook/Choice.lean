/-!
# Weighted choice

A draw `u` in `[0, 1)` picks one of several alternatives by their weights: the first one whose
running sum of weights exceeds `u` times the total.  The definitions run on any kind of number; the
library uses them on floats.
-/

namespace Phrasebook.Choice

variable {K : Type} [Add K] [Mul K] [LT K] [OfNat K 0] [DecidableLT K]

/-- The sum of the weights, added up in order. -/
def total (weights : List K) : K :=
  weights.foldl (· + ·) 0

/-- The index of the first weight at which the running sum, so far `sum`, exceeds a mark. -/
def firstPast (mark : K) : K → List K → Option Nat
  | _, [] => none
  | sum, w :: rest => if mark < sum + w then some 0 else (firstPast mark (sum + w) rest).map (· + 1)

/-- The index of the last positive weight. -/
def lastPositive : List K → Option Nat
  | [] => none
  | w :: rest =>
    match lastPositive rest with
    | some i => some (i + 1)
    | none => if 0 < w then some 0 else none

/-- The alternative that a draw picks; none if the weights have no positive sum.  When rounding puts
the mark at the very top of the range, the last alternative that can be picked at all is. -/
def pick (weights : List K) (u : K) : Option Nat :=
  if 0 < total weights then
    (firstPast (u * total weights) 0 weights).or (lastPositive weights)
  else none

omit [Mul K] [OfNat K 0] in
theorem firstPast_lt_length {mark sum : K} {weights : List K} {i : Nat}
    (h : firstPast mark sum weights = some i) : i < weights.length := by
  induction weights generalizing sum i with
  | nil => cases h
  | cons w rest ih =>
      rw [firstPast] at h
      split at h
      · obtain rfl : 0 = i := Option.some.inj h
        exact Nat.succ_pos _
      · obtain ⟨j, hj, rfl⟩ := Option.map_eq_some_iff.mp h
        exact Nat.succ_lt_succ (ih hj)

omit [Add K] [Mul K] in
theorem lastPositive_lt_length {weights : List K} {i : Nat}
    (h : lastPositive weights = some i) : i < weights.length := by
  induction weights generalizing i with
  | nil => cases h
  | cons w rest ih =>
      rw [lastPositive] at h
      split at h
      · next j hj =>
          obtain rfl : j + 1 = i := Option.some.inj h
          exact Nat.succ_lt_succ (ih hj)
      · split at h
        · obtain rfl : 0 = i := Option.some.inj h
          exact Nat.succ_pos _
        · cases h

theorem pick_lt_length {weights : List K} {u : K} {i : Nat} (h : pick weights u = some i) :
    i < weights.length := by
  rw [pick] at h
  split at h
  · rcases Option.or_eq_some_iff.mp h with hfirst | ⟨-, hlast⟩
    · exact firstPast_lt_length hfirst
    · exact lastPositive_lt_length hlast
  · cases h

end Phrasebook.Choice
