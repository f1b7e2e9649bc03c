import Mathlib.Algebra.BigOperators.Group.List.Basic
import Mathlib.Algebra.Order.Field.Basic
import Mathlib.Algebra.Order.Ring.Rat
import Mathlib.Order.Interval.Set.Defs
import Mathlib.Tactic.Linarith
import Phrasebook.Expansion.Basic

/-!
# Shares of a weighted choice

What is said here of choices is exact: weights and draws are numbers of an ordered field, and no sum
is rounded.  A draw `u` in `[0, 1)` marks a point of the way from zero to the total, and the choice
is the first alternative that ends beyond the mark.  The way is walked up to the total at least, so
such an alternative exists, and the one found first makes a step forward: its weight is positive,
even if other weights are negative.

Without negative weights the way never turns back.  Then the alternatives lie side by side, and each
is picked for the draws in an interval as long as its part of the total (`Choice.pick_shares`).
-/

namespace Phrasebook

namespace Choice

/-! ## Prefix sums -/

section Sums

variable {K : Type} [Field K]

/-- The sum of the first so many weights. -/
def prefixSum (weights : List K) (count : Nat) : K :=
  (weights.take count).sum

theorem total_eq_sum (weights : List K) : total weights = weights.sum := by
  rw [total, List.sum_eq_foldl]

@[simp] theorem prefixSum_zero (weights : List K) : prefixSum weights 0 = 0 := rfl

theorem prefixSum_length (weights : List K) : prefixSum weights weights.length = weights.sum := by
  rw [prefixSum, List.take_length]

theorem prefixSum_cons (w : K) (rest : List K) (i : Nat) :
    prefixSum (w :: rest) (i + 1) = w + prefixSum rest i := by
  rw [prefixSum, List.take_succ_cons, List.sum_cons, prefixSum]

/-- A weight is what it adds to the sum of the weights before it. -/
theorem prefixSum_succ {weights : List K} {i : Nat} (hi : i < weights.length) :
    prefixSum weights (i + 1) = prefixSum weights i + weights[i] := by
  rw [prefixSum, prefixSum, List.sum_take_succ weights i hi]

end Sums

variable {K : Type} [Field K] [LinearOrder K] [IsStrictOrderedRing K] {weights : List K}

theorem prefixSum_le_of_le (hweights : ∀ w ∈ weights, 0 ≤ w) {i j : Nat} (hij : i ≤ j)
    (hj : j ≤ weights.length) : prefixSum weights i ≤ prefixSum weights j := by
  induction j, hij using Nat.le_induction with
  | base => exact le_refl _
  | succ j hij ih =>
      have hstep : 0 ≤ weights[j] := hweights _ (List.getElem_mem hj)
      calc prefixSum weights i ≤ prefixSum weights j := ih (by omega)
        _ ≤ prefixSum weights j + weights[j] := by linarith
        _ = prefixSum weights (j + 1) := (prefixSum_succ hj).symm

/-! ## The first alternative past a mark -/

omit [IsStrictOrderedRing K] in
/-- The search finds the first index at which the prefix sum exceeds the mark. -/
theorem firstPast_eq_some_iff {mark sum : K} {i : Nat} :
    firstPast mark sum weights = some i ↔
      i < weights.length ∧ mark < sum + prefixSum weights (i + 1) ∧
        ∀ j < i, sum + prefixSum weights (j + 1) ≤ mark := by
  induction weights generalizing sum i with
  | nil => simp [firstPast]
  | cons w rest ih =>
      rw [firstPast]
      by_cases hpast : mark < sum + w
      · rw [if_pos hpast]
        cases i with
        | zero => simp [prefixSum_cons, hpast]
        | succ i =>
            have hfirst : ¬ ∀ j < i + 1, sum + prefixSum (w :: rest) (j + 1) ≤ mark := by
              intro h
              have hzero := h 0 (Nat.succ_pos i)
              rw [prefixSum_cons, prefixSum_zero, add_zero] at hzero
              exact absurd hpast (not_lt.mpr hzero)
            exact iff_of_false (by simp) fun h => hfirst h.2.2
      · rw [if_neg hpast]
        cases i with
        | zero => simp [prefixSum_cons, hpast]
        | succ i =>
            have hbefore : (∀ j < i + 1, sum + prefixSum (w :: rest) (j + 1) ≤ mark) ↔
                ∀ j < i, sum + w + prefixSum rest (j + 1) ≤ mark := by
              constructor
              · intro h j hj
                have hnext := h (j + 1) (Nat.succ_lt_succ hj)
                rwa [prefixSum_cons, ← add_assoc] at hnext
              · intro h j hj
                rw [prefixSum_cons, ← add_assoc]
                cases j with
                | zero => rw [prefixSum_zero, add_zero]; exact not_lt.mp hpast
                | succ j => exact h j (Nat.lt_of_succ_lt_succ hj)
            have hrest : firstPast mark (sum + w) rest = some i ↔ _ := ih
            rw [hbefore, prefixSum_cons, ← add_assoc, List.length_cons, Nat.succ_lt_succ_iff,
              ← hrest]
            simp

omit [IsStrictOrderedRing K] in
/-- A mark below the total is passed. -/
theorem firstPast_ne_none {mark sum : K} (hmark : mark < sum + weights.sum) (hsum : sum ≤ mark) :
    firstPast mark sum weights ≠ none := by
  induction weights generalizing sum with
  | nil =>
      rw [List.sum_nil, add_zero] at hmark
      exact absurd hmark (not_lt.mpr hsum)
  | cons w rest ih =>
      rw [firstPast]
      by_cases hpast : mark < sum + w
      · simp [hpast]
      · rw [if_neg hpast]
        rw [List.sum_cons, ← add_assoc] at hmark
        simpa using ih hmark (not_lt.mp hpast)

/-- What is first past a mark that is not negative has a positive weight. -/
theorem pos_of_firstPast {mark : K} (hmark : 0 ≤ mark) {i : Nat}
    (h : firstPast mark 0 weights = some i) : ∃ hi : i < weights.length, 0 < weights[i] := by
  obtain ⟨hi, hpast, hbefore⟩ := firstPast_eq_some_iff.mp h
  rw [zero_add, prefixSum_succ hi] at hpast
  have hreached : prefixSum weights i ≤ mark := by
    cases i with
    | zero => simpa using hmark
    | succ j => simpa using hbefore j (Nat.lt_succ_self j)
  exact ⟨hi, by linarith⟩

/-! ## Draws -/

section Draw

variable {u : K}

theorem pick_eq_firstPast (hpos : 0 < weights.sum) (hzero : 0 ≤ u) (hone : u < 1) :
    ∃ i, firstPast (u * weights.sum) 0 weights = some i ∧ pick weights u = some i := by
  have hmark : 0 ≤ u * weights.sum := mul_nonneg hzero hpos.le
  have hbelow : u * weights.sum < 0 + weights.sum := by
    rw [zero_add]
    exact mul_lt_of_lt_one_left hpos hone
  obtain ⟨i, hi⟩ := Option.ne_none_iff_exists'.mp (firstPast_ne_none hbelow hmark)
  refine ⟨i, hi, ?_⟩
  rw [pick, total_eq_sum, if_pos hpos, hi, Option.some_or]

theorem pick_eq_none_iff (hzero : 0 ≤ u) (hone : u < 1) :
    pick weights u = none ↔ ¬ 0 < weights.sum := by
  constructor
  · intro hnone hpos
    obtain ⟨i, -, hi⟩ := pick_eq_firstPast hpos hzero hone
    rw [hnone] at hi
    cases hi
  · intro hpos
    rw [pick, total_eq_sum, if_neg hpos]

/-- Without negative weights, what is picked is known by the two prefix sums around the mark. -/
theorem pick_eq_some_iff (hweights : ∀ w ∈ weights, 0 ≤ w) (hpos : 0 < weights.sum)
    (hzero : 0 ≤ u) (hone : u < 1) {i : Nat} (hi : i < weights.length) :
    pick weights u = some i ↔
      prefixSum weights i ≤ u * weights.sum ∧ u * weights.sum < prefixSum weights (i + 1) := by
  obtain ⟨k, hfirst, hpick⟩ := pick_eq_firstPast hpos hzero hone
  have hmark : 0 ≤ u * weights.sum := mul_nonneg hzero hpos.le
  have hiff : firstPast (u * weights.sum) 0 weights = some i ↔ _ := firstPast_eq_some_iff
  rw [hpick, ← hfirst, hiff]
  simp only [zero_add]
  constructor
  · rintro ⟨-, hpast, hbefore⟩
    refine ⟨?_, hpast⟩
    cases i with
    | zero => simpa using hmark
    | succ j => exact hbefore j (Nat.lt_succ_self j)
  · rintro ⟨hreached, hpast⟩
    refine ⟨hi, hpast, fun j hj => ?_⟩
    exact (prefixSum_le_of_le hweights hj hi.le).trans hreached

/-- Without negative weights, an alternative is picked by the draws between its prefix sums. -/
theorem setOf_pick_eq_some (hweights : ∀ w ∈ weights, 0 ≤ w) (hpos : 0 < weights.sum) {i : Nat}
    (hi : i < weights.length) :
    {u ∈ Set.Ico (0 : K) 1 | pick weights u = some i} =
      Set.Ico (prefixSum weights i / weights.sum) (prefixSum weights (i + 1) / weights.sum) := by
  ext u
  simp only [Set.mem_ofPred_eq, Set.mem_Ico, div_le_iff₀ hpos, lt_div_iff₀ hpos]
  constructor
  · rintro ⟨⟨hzero, hone⟩, hpick⟩
    exact (pick_eq_some_iff hweights hpos hzero hone hi).mp hpick
  · rintro ⟨hreached, hpast⟩
    have hstart : 0 ≤ prefixSum weights i := prefixSum_le_of_le hweights (Nat.zero_le i) hi.le
    have hend : prefixSum weights (i + 1) ≤ weights.sum := by
      rw [← prefixSum_length weights]
      exact prefixSum_le_of_le hweights hi (le_refl _)
    have hzero : 0 ≤ u := nonneg_of_mul_nonneg_left (hstart.trans hreached) hpos
    have hone : u < 1 := by
      refine lt_of_mul_lt_mul_right ?_ hpos.le
      rw [one_mul]
      exact hpast.trans_le hend
    exact ⟨⟨hzero, hone⟩, (pick_eq_some_iff hweights hpos hzero hone hi).mpr ⟨hreached, hpast⟩⟩

end Draw

end Choice

/-! ## Rules -/

namespace Scene

variable {scene : Scene} {expand : Expander} {depth : Nat} {held : Bindings} {site : Site}
  {name : String} {r : Rule}

/-- A rule of which nothing can be chosen fails. -/
theorem rule_of_choose_eq_none (hr : scene.book.rule? name = some r)
    (hchoose : scene.choose (site.rule name) r = none) :
    scene.rule expand depth held site name =
      (Run.visit ⟨(site.rule name).trail, depth, name, none⟩).bind fun _ =>
        .fail (.emptyRule r.name) := by
  unfold rule
  rw [hr]
  dsimp only
  rw [hchoose]

/-- A rule is expanded from the alternative that is chosen of it. -/
theorem rule_of_choose_eq_some (hr : scene.book.rule? name = some r) {i : Nat} {a : Alternative}
    (hchoose : scene.choose (site.rule name) r = some i) (ha : r.alternatives[i]? = some a) :
    scene.rule expand depth held site name =
      (Run.visit ⟨(site.rule name).trail, depth, name, some i⟩).bind fun _ =>
        scene.segments expand held (site.rule name) i 0 a.template := by
  unfold rule
  rw [hr]
  dsimp only
  rw [hchoose]
  dsimp only
  rw [ha]

end Scene

/-! ## The main statement -/

/-- A draw in `[0, 1)` picks nothing exactly when the total of the weights is not positive.  Else it
picks the first alternative whose prefix sum exceeds the draw times the total; this alternative has
a positive weight, and the search never ends without one.  A rule whose choice is such a pick fails
as empty in the first case, and is expanded from what was picked in the second.  If no weight is
negative, each alternative is picked by the draws between the prefix sums before and after it, taken
as parts of the total: by a part of the draws that is its part of the total, and by none if its
weight is zero. -/
theorem Choice.pick_shares (weights : List ℚ) :
    (∀ u ∈ Set.Ico (0 : ℚ) 1,
      (pick weights u = none ↔ ¬ 0 < weights.sum) ∧
      (0 < weights.sum → ∃ i, ∃ hi : i < weights.length,
        pick weights u = some i ∧ u * weights.sum < prefixSum weights (i + 1) ∧
          (∀ j < i, ¬ u * weights.sum < prefixSum weights (j + 1)) ∧ 0 < weights[i] ∧
            firstPast (u * total weights) 0 weights = some i) ∧
      ∀ (scene : Scene) (expand : Scene.Expander) (depth : Nat) (held : Bindings) (site : Site)
        (name : String) (r : Rule), scene.book.rule? name = some r →
        r.alternatives.length = weights.length →
        scene.choose (site.rule name) r = pick weights u →
        let visit (chosen : Option Nat) := Run.visit ⟨(site.rule name).trail, depth, name, chosen⟩
        let x := scene.rule expand depth held site name
        (¬ 0 < weights.sum → x = (visit none).bind fun _ => .fail (.emptyRule r.name)) ∧
        (0 < weights.sum → ∃ i a, pick weights u = some i ∧ r.alternatives[i]? = some a ∧
          x = (visit (some i)).bind fun _ =>
            scene.segments expand held (site.rule name) i 0 a.template)) ∧
    ((∀ w ∈ weights, 0 ≤ w) → 0 < weights.sum → ∀ i (hi : i < weights.length),
      {u ∈ Set.Ico (0 : ℚ) 1 | pick weights u = some i} =
          Set.Ico (prefixSum weights i / weights.sum) (prefixSum weights (i + 1) / weights.sum) ∧
        prefixSum weights (i + 1) / weights.sum - prefixSum weights i / weights.sum =
          weights[i] / weights.sum ∧
        (weights[i] = 0 → ∀ u ∈ Set.Ico (0 : ℚ) 1, pick weights u ≠ some i)) := by
  constructor
  · rintro u ⟨hzero, hone⟩
    have hfound : 0 < weights.sum → ∃ i, ∃ hi : i < weights.length,
        pick weights u = some i ∧ u * weights.sum < prefixSum weights (i + 1) ∧
          (∀ j < i, ¬ u * weights.sum < prefixSum weights (j + 1)) ∧ 0 < weights[i] ∧
            firstPast (u * total weights) 0 weights = some i := by
      intro hpos
      obtain ⟨i, hfirst, hpick⟩ := pick_eq_firstPast hpos hzero hone
      obtain ⟨hi, hpast, hbefore⟩ := firstPast_eq_some_iff.mp hfirst
      obtain ⟨_, hweight⟩ := pos_of_firstPast (mul_nonneg hzero hpos.le) hfirst
      rw [zero_add] at hpast
      refine ⟨i, hi, hpick, hpast, fun j hj => ?_, hweight, by rw [total_eq_sum, hfirst]⟩
      have hj := hbefore j hj
      rw [zero_add] at hj
      exact not_lt.mpr hj
    refine ⟨pick_eq_none_iff hzero hone, hfound, ?_⟩
    intro scene expand depth held site name r hr hlength hchoose visit x
    constructor
    · intro hpos
      rw [(pick_eq_none_iff hzero hone).mpr hpos] at hchoose
      exact Scene.rule_of_choose_eq_none hr hchoose
    · intro hpos
      obtain ⟨i, hi, hpick, -⟩ := hfound hpos
      have hlt : i < r.alternatives.length := hlength ▸ hi
      have ha : r.alternatives[i]? = some r.alternatives[i] := List.getElem?_eq_getElem hlt
      exact ⟨i, _, hpick, ha, Scene.rule_of_choose_eq_some hr (hchoose.trans hpick) ha⟩
  · intro hweights hpos i hi
    have hshare : prefixSum weights (i + 1) / weights.sum - prefixSum weights i / weights.sum =
        weights[i] / weights.sum := by
      rw [← sub_div, prefixSum_succ hi, add_sub_cancel_left]
    have hpicks := setOf_pick_eq_some hweights hpos hi
    refine ⟨hpicks, hshare, fun hweight u hu hpick => ?_⟩
    have hmem : u ∈ {u ∈ Set.Ico (0 : ℚ) 1 | pick weights u = some i} := ⟨hu, hpick⟩
    rw [hpicks, prefixSum_succ hi, hweight, add_zero, Set.Ico_self] at hmem
    exact hmem

/-- Three tones of which the second is never picked: half way up is in the share of the third. -/
theorem Choice.pick_shares_tones :
    let weights : List ℚ := [1, 0, 3]
    let tones : Rule :=
      ⟨"tone", [⟨1, [.literal "low"]⟩, ⟨0, [.literal "middle"]⟩, ⟨3, [.literal "high"]⟩]⟩
    let scene : Scene := ⟨Book.insertAll {} [tones], 64, 0, fun _ _ => pick weights (1 / 2)⟩
    let site : Site := .root (Stream.ofSeed ⟨[7], by simp⟩)
    (1 / 2 : ℚ) ∈ Set.Ico (0 : ℚ) 1 ∧ 0 < weights.sum ∧ (∀ w ∈ weights, 0 ≤ w) ∧
      scene.book.rule? "tone" = some tones ∧ pick weights (1 / 2) = some 2 ∧
      (∃ i a, pick weights (1 / 2) = some i ∧ tones.alternatives[i]? = some a ∧
        scene.rule (scene.expandWithin 64) 0 ∅ site "tone" =
          (Run.visit ⟨(site.rule "tone").trail, 0, "tone", some i⟩).bind fun _ =>
            scene.segments (scene.expandWithin 64) ∅ (site.rule "tone") i 0 a.template) ∧
      {u ∈ Set.Ico (0 : ℚ) 1 | pick weights u = some 2} = Set.Ico (1 / 4) 1 ∧
      ∀ u ∈ Set.Ico (0 : ℚ) 1, pick weights u ≠ some 1 := by
  intro weights tones scene site
  have hhalf : (1 / 2 : ℚ) ∈ Set.Ico (0 : ℚ) 1 := by constructor <;> norm_num
  have hsum : weights.sum = 4 := by norm_num [weights]
  have hpos : 0 < weights.sum := by rw [hsum]; norm_num
  have hweights : ∀ w ∈ weights, 0 ≤ w := by simp [weights]
  have hrule : scene.book.rule? "tone" = some tones := by
    simp [scene, tones, Book.insertAll, Book.rule?_insert]
  obtain ⟨hdraw, hparts⟩ := pick_shares weights
  have hexpands := ((hdraw _ hhalf).2.2 scene (scene.expandWithin 64) 0 ∅ site "tone" tones hrule
    rfl rfl).2 hpos
  have hthird := (hparts hweights hpos 2 (by decide)).1
  have hstart : prefixSum weights 2 / weights.sum = 1 / 4 := by
    rw [hsum]; norm_num [prefixSum, weights]
  have hend : prefixSum weights 3 / weights.sum = 1 := by
    rw [hsum]; norm_num [prefixSum, weights]
  rw [hstart, hend] at hthird
  have hpick : (1 / 2 : ℚ) ∈ {u ∈ Set.Ico (0 : ℚ) 1 | pick weights u = some 2} := by
    rw [hthird]
    constructor <;> norm_num
  exact ⟨hhalf, hpos, hweights, hrule, hpick.2, hexpands, hthird,
    (hparts hweights hpos 1 (by decide)).2.2 rfl⟩

end Phrasebook
