import Mathlib
import Phrasebook.Choice
import Phrasebook.Stream.Draw

/-!
# Choices have positive weight

A choice takes the first alternative at which the running sum of the weights
exceeds the mark.  The sum before it does not, so the weight of the alternative
cannot be zero: adding a zero to a float changes nothing.  This needs a mark that
is not negative, which a draw times a positive total is.

If one weight only is positive, then whatever is drawn, no other alternative is
chosen (`pick_eq_of_unique`).
-/

namespace Phrasebook.Choice

open Float.Model (UnpackedFloat)
open Float.Model.Format (binary64)
open Float.Model.UnpackedFloat (Sign unpackSign_packComponents)

/-! ## Comparisons -/

theorem float_lt_iff {x y : Float} :
    x < y ↔ x.toModel.unpack.compare y.toModel.unpack = some .lt := by
  change Float.lt x y = true ↔ _
  unfold Float.lt
  rw [decide_eq_true_iff]
  change UnpackedFloat.lt _ _ = true ↔ _
  rw [UnpackedFloat.lt, beq_iff_eq]

theorem float_le_iff {x y : Float} :
    x ≤ y ↔ (x.toModel.unpack.compare y.toModel.unpack).any (·.isLE) = true := by
  change Float.le x y = true ↔ _
  unfold Float.le
  rw [decide_eq_true_iff]
  rfl

theorem unpack_zero : (0 : Float).toModel.unpack = .zero .positive := rfl

/-- A weight that is not positive is zero. -/
theorem unpack_of_not_pos {w : Float} (hle : 0 ≤ w) (hpos : ¬ 0 < w) :
    ∃ s, w.toModel.unpack = .zero s := by
  rw [float_le_iff, unpack_zero] at hle
  rw [float_lt_iff, unpack_zero] at hpos
  cases hw : w.toModel.unpack with
  | infinity s => cases s <;> simp_all [UnpackedFloat.compare]
  | notANumber => simp_all [UnpackedFloat.compare]
  | zero s => exact ⟨s, rfl⟩
  | finite s m e h => cases s <;> simp_all [UnpackedFloat.compare]

theorem compare_zero_right (x : UnpackedFloat) (s s' : Sign) :
    x.compare (.zero s) = x.compare (.zero s') := by
  cases x with
  | infinity t => cases t <;> rfl
  | notANumber => rfl
  | zero t => rfl
  | finite t m e h => cases t <;> rfl

/-! ## Sums with a zero -/

theorem unpack_add (x y : Float) :
    (x + y).toModel = Float.Model.pack (UnpackedFloat.add binary64 x.toModel.unpack
      y.toModel.unpack) := rfl

/-- A sum with a zero is the other summand, but for the sign of a zero. -/
theorem add_zero_cases (x : UnpackedFloat) (s : Sign) :
    UnpackedFloat.add binary64 x (.zero s) = x ∨
      ∃ t t', x = .zero t ∧ UnpackedFloat.add binary64 x (.zero s) = .zero t' := by
  cases x with
  | zero t =>
      refine Or.inr ⟨t, ?_⟩
      rw [UnpackedFloat.add]
      split
      · exact ⟨t, rfl, rfl⟩
      · exact ⟨.positive, rfl, rfl⟩
  | infinity t => exact Or.inl rfl
  | notANumber => exact Or.inl rfl
  | finite t m e h => exact Or.inl rfl

/-- Unpacking a float and packing it again gives it back. -/
theorem model_pack_unpack (f : Float.Model) : Float.Model.pack f.unpack = f := by
  obtain ⟨bits, hbits⟩ := f
  unfold Float.Model.pack Float.Model.unpack
  congr
  rw [UnpackedFloat.pack_unpack_of_valid hbits]

theorem unpack_pack_zero (s : Sign) : (Float.Model.pack (.zero s)).unpack = .zero s := by
  cases s <;> rfl

/-- What is less than a sum with a zero is less than the other summand. -/
theorem lt_of_lt_add {mark sum w : Float} (hle : 0 ≤ w) (hpos : ¬ 0 < w)
    (hlt : mark < sum + w) : mark < sum := by
  obtain ⟨s, hw⟩ := unpack_of_not_pos hle hpos
  rw [float_lt_iff, unpack_add, hw] at hlt
  rw [float_lt_iff]
  rcases add_zero_cases sum.toModel.unpack s with hsame | ⟨t, t', hsum, hzero⟩
  · rwa [hsame, model_pack_unpack] at hlt
  · rw [hzero, unpack_pack_zero] at hlt
    rw [hsum, compare_zero_right _ t t', hlt]

/-! ## Floats that are not negative -/

/-- Neither below zero nor of a sign that arithmetic could carry over. -/
def NotNegative : UnpackedFloat → Prop
  | .infinity .negative => False
  | .finite .negative _ _ _ => False
  | _ => True

theorem notNegative_iff {x : Float} : NotNegative x.toModel.unpack ↔ ¬ x < 0 := by
  rw [float_lt_iff, unpack_zero]
  cases x.toModel.unpack with
  | infinity s => cases s <;> simp [NotNegative, UnpackedFloat.compare]
  | notANumber => simp [NotNegative, UnpackedFloat.compare]
  | zero s => simp [NotNegative, UnpackedFloat.compare]
  | finite s m e h => cases s <;> simp [NotNegative, UnpackedFloat.compare]

theorem notNegative_unpack {b : BitVec binary64.numBits}
    (hsign : UnpackedFloat.unpackSign b = 0#1) :
    NotNegative (UnpackedFloat.unpack binary64 b) := by
  unfold UnpackedFloat.unpack
  simp only [hsign]
  repeat' split
  all_goals trivial

theorem notNegative_unpack_pack {x : UnpackedFloat} (hx : NotNegative x) :
    NotNegative (Float.Model.pack x).unpack := by
  cases x with
  | infinity s =>
      cases s with
      | negative => exact hx.elim
      | positive => exact notNegative_unpack (unpackSign_packComponents .positive _ _)
  | notANumber => exact notNegative_unpack (unpackSign_packComponents .positive _ _)
  | zero s => rw [unpack_pack_zero]; trivial
  | finite s m e h =>
      cases s with
      | negative => exact hx.elim
      | positive =>
          refine notNegative_unpack ?_
          change UnpackedFloat.unpackSign (UnpackedFloat.pack binary64 _) = 0#1
          rw [UnpackedFloat.pack]
          dsimp only
          split
          · exact unpackSign_packComponents .positive _ _
          · split <;> exact unpackSign_packComponents .positive _ _

theorem notNegative_roundWithAccuracy (m : Nat) (e : Int) (accuracy : UnpackedFloat.Accuracy) :
    NotNegative (UnpackedFloat.roundWithAccuracy binary64 .positive m e accuracy) := by
  unfold UnpackedFloat.roundWithAccuracy
  dsimp only
  split <;> trivial

theorem notNegative_mul {x y : UnpackedFloat} (hx : NotNegative x) (hy : NotNegative y) :
    NotNegative (UnpackedFloat.mul binary64 x y) := by
  rcases x with (_ | _) | _ | _ | ⟨_ | _, m, e, h⟩ <;>
    rcases y with (_ | _) | _ | _ | ⟨_ | _, m', e', h'⟩ <;>
    first
      | exact hx.elim
      | exact hy.elim
      | exact notNegative_roundWithAccuracy _ _ _
      | trivial

theorem notNegative_div {x y : UnpackedFloat} (hx : NotNegative x) (hy : NotNegative y)
    (hzero : ∀ s, y ≠ .zero s) : NotNegative (UnpackedFloat.div binary64 x y) := by
  rcases x with (_ | _) | _ | _ | ⟨_ | _, m, e, h⟩ <;>
    rcases y with (_ | _) | _ | s | ⟨_ | _, m', e', h'⟩ <;>
    first
      | exact hx.elim
      | exact hy.elim
      | exact (hzero s rfl).elim
      | exact notNegative_roundWithAccuracy _ _ _
      | trivial

theorem notNegative_ofNat (n : Nat) : NotNegative (UnpackedFloat.ofNat binary64 n) := by
  unfold UnpackedFloat.ofNat UnpackedFloat.ofInt UnpackedFloat.normalize
  split
  · next h => exact absurd (Int.compare_eq_lt.mp h) (by omega)
  · trivial
  · exact notNegative_roundWithAccuracy _ _ _

theorem notNegative_of_pos {x : Float} (hx : 0 < x) : NotNegative x.toModel.unpack := by
  rw [float_lt_iff, unpack_zero] at hx
  cases hunpack : x.toModel.unpack with
  | infinity s => cases s <;> simp_all [NotNegative, UnpackedFloat.compare]
  | notANumber => trivial
  | zero s => trivial
  | finite s m e h => cases s <;> simp_all [NotNegative, UnpackedFloat.compare]

/-- The mark of a draw is not negative. -/
theorem not_mul_neg {u t : Float} (hu : ¬ u < 0) (ht : 0 < t) : ¬ u * t < 0 := by
  rw [← notNegative_iff] at hu ⊢
  have hproduct := notNegative_mul hu (notNegative_of_pos ht)
  exact notNegative_unpack_pack hproduct

/-! ## Picks -/

/-- The alternative of an index has positive weight. -/
def PositiveAt (weights : List Float) (i : Nat) : Prop :=
  ∃ w, weights[i]? = some w ∧ 0 < w

theorem PositiveAt.cons {weights : List Float} {i : Nat} (h : PositiveAt weights i) (w : Float) :
    PositiveAt (w :: weights) (i + 1) := h

theorem positiveAt_of_firstPast {mark : Float} {weights : List Float}
    (hweights : ∀ w ∈ weights, 0 ≤ w) {sum : Float} (hsum : ¬ mark < sum) {i : Nat}
    (h : firstPast mark sum weights = some i) : PositiveAt weights i := by
  -- The mark is never below the sum so far, so only a weight that adds to it goes past it.
  induction weights generalizing sum i with
  | nil => cases h
  | cons w rest ih =>
      rw [firstPast] at h
      split at h
      · next hlt =>
          obtain rfl : 0 = i := Option.some.inj h
          refine ⟨w, rfl, ?_⟩
          by_contra hpos
          exact hsum (lt_of_lt_add (hweights w List.mem_cons_self) hpos hlt)
      · next hnlt =>
          obtain ⟨j, hj, rfl⟩ := Option.map_eq_some_iff.mp h
          have hrest : ∀ v ∈ rest, 0 ≤ v := fun v hv => hweights v (List.mem_cons_of_mem w hv)
          exact (ih hrest hnlt hj).cons w

theorem positiveAt_of_lastPositive {weights : List Float} {i : Nat}
    (h : lastPositive weights = some i) : PositiveAt weights i := by
  induction weights generalizing i with
  | nil => cases h
  | cons w rest ih =>
      rw [lastPositive] at h
      split at h
      · next j hj =>
          obtain rfl : j + 1 = i := Option.some.inj h
          exact (ih hj).cons w
      · split at h
        · next hpos =>
            obtain rfl : 0 = i := Option.some.inj h
            exact ⟨w, rfl, hpos⟩
        · cases h

theorem lastPositive_ne_none {weights : List Float} {i : Nat} (h : PositiveAt weights i) :
    lastPositive weights ≠ none := by
  induction weights generalizing i with
  | nil => obtain ⟨w, hw, -⟩ := h; cases hw
  | cons w rest ih =>
      rw [lastPositive]
      cases hrest : lastPositive rest with
      | some j => exact Option.some_ne_none _
      | none =>
          cases i with
          | zero =>
              obtain ⟨v, hv, hpos⟩ := h
              obtain rfl : w = v := Option.some.inj hv
              simp [hpos]
          | succ i => exact absurd hrest (ih h)

/-- What is picked has positive weight. -/
theorem positiveAt_of_pick {weights : List Float} (hweights : ∀ w ∈ weights, 0 ≤ w) {u : Float}
    (hu : ¬ u < 0) {i : Nat} (h : pick weights u = some i) : PositiveAt weights i := by
  rw [pick] at h
  split at h
  · next htotal =>
      rcases Option.or_eq_some_iff.mp h with hfirst | ⟨-, hlast⟩
      · exact positiveAt_of_firstPast hweights (not_mul_neg hu htotal) hfirst
      · exact positiveAt_of_lastPositive hlast
  · cases h

/-- Weights that add up to a positive sum are not all zero. -/
theorem exists_pos_of_total {weights : List Float} (hweights : ∀ w ∈ weights, 0 ≤ w)
    (htotal : 0 < total weights) : ∃ w ∈ weights, 0 < w := by
  have hzero : ¬ (0 : Float) < 0 := by decide
  have hsum : ∀ (ws : List Float) (sum : Float), (∀ w ∈ ws, 0 ≤ w) → 0 < ws.foldl (· + ·) sum →
      (∃ w ∈ ws, 0 < w) ∨ 0 < sum := by
    intro ws
    induction ws with
    | nil => exact fun sum _ hpos => Or.inr hpos
    | cons w rest ih =>
        intro sum hle hpos
        obtain ⟨hw, hrest⟩ := List.forall_mem_cons.mp hle
        by_cases hfirst : 0 < w
        · exact Or.inl ⟨w, List.mem_cons_self, hfirst⟩
        · rcases ih (sum + w) hrest hpos with ⟨v, hv, hvpos⟩ | hadd
          · exact Or.inl ⟨v, List.mem_cons_of_mem w hv, hvpos⟩
          · exact Or.inr (lt_of_lt_add hw hfirst hadd)
  exact (hsum weights 0 hweights htotal).resolve_right hzero

theorem exists_positiveAt {weights : List Float} (hweights : ∀ w ∈ weights, 0 ≤ w)
    (htotal : 0 < total weights) : ∃ i, PositiveAt weights i := by
  obtain ⟨w, hw, hpos⟩ := exists_pos_of_total hweights htotal
  obtain ⟨i, hi⟩ := List.mem_iff_getElem?.mp hw
  exact ⟨i, w, hi, hpos⟩

theorem pick_ne_none {weights : List Float} (htotal : 0 < total weights) {i : Nat}
    (h : PositiveAt weights i) (u : Float) : pick weights u ≠ none := by
  rw [pick, if_pos htotal]
  intro hnone
  exact lastPositive_ne_none h (Option.or_eq_none_iff.mp hnone).2

/-- If only one weight is positive, the draw does not matter. -/
theorem pick_eq_of_unique {weights : List Float} (hweights : ∀ w ∈ weights, 0 ≤ w)
    (hunique : ∃! i, PositiveAt weights i) {u u' : Float} (hu : ¬ u < 0) (hu' : ¬ u' < 0) :
    pick weights u = pick weights u' := by
  obtain ⟨i, hi, honly⟩ := hunique
  by_cases htotal : 0 < total weights
  · have hpick : ∀ v : Float, ¬ v < 0 → pick weights v = some i := by
      intro v hv
      obtain ⟨j, hj⟩ := Option.ne_none_iff_exists'.mp (pick_ne_none htotal hi v)
      rw [hj, honly j (positiveAt_of_pick hweights hv hj)]
    rw [hpick u hu, hpick u' hu']
  · rw [pick, pick, if_neg htotal, if_neg htotal]

end Choice

/-- A draw is not negative. -/
theorem Stream.not_unit_neg (s : Stream) : ¬ s.unit < 0 := by
  rw [← Choice.notNegative_iff]
  refine Choice.notNegative_unpack_pack (Choice.notNegative_div ?_ ?_ ?_)
  · exact Choice.notNegative_unpack_pack (Choice.notNegative_ofNat _)
  · trivial
  · intro s h
    cases h

end Phrasebook
