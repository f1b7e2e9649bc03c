import Mathlib.Algebra.Order.Ring.Rat
import Mathlib.Order.Interval.Set.UnorderedInterval
import Mathlib.Tactic.Linarith
import Mathlib.Tactic.NormNum
import Mathlib.Tactic.Ring
import Phrasebook.Motion.Curve

/-!
# Curves stay between their ends

The curves but the arch are read over the rational numbers here, so nothing is rounded.

Each of them goes from zero to one and never back.  For the curve of two pieces this is
shown of each piece, and then both are compared with one half, where they meet
(`easeInOut_le_half`, `half_le_easeInOut`).  A time is first brought into `[0, 1]`, which
keeps the order of times, and a curve is then moved and stretched to go from one number to
another: the order of the two only decides which way it goes (`interpolate_stays_between`).
-/

namespace Phrasebook.Curve

variable {wave : ℚ → ℚ} {c : Curve} {s t : ℚ}

/-! ## Times -/

theorem clamp_eq (t : ℚ) : clamp t = max 0 (min t 1) := by
  unfold clamp
  split
  · next hneg => rw [min_eq_left (by linarith), max_eq_left hneg.le]
  · next hneg =>
      split
      · next hone => rw [min_eq_right hone.le, max_eq_right zero_le_one]
      · next hone => rw [min_eq_left (not_lt.mp hone), max_eq_right (not_lt.mp hneg)]

theorem clamp_mem (t : ℚ) : 0 ≤ clamp t ∧ clamp t ≤ 1 := by
  rw [clamp_eq]
  exact ⟨le_max_left _ _, max_le zero_le_one (min_le_right t 1)⟩

theorem clamp_mono : Monotone (clamp : ℚ → ℚ) := by
  intro s t hst
  rw [clamp_eq, clamp_eq]
  exact max_le_max_left 0 (min_le_min_right 1 hst)

theorem clamp_of_nonpos (ht : t ≤ 0) : clamp t = 0 := by
  rw [clamp_eq, min_eq_left (by linarith), max_eq_left ht]

theorem clamp_of_one_le (ht : 1 ≤ t) : clamp t = 1 := by
  rw [clamp_eq, min_eq_right ht, max_eq_right zero_le_one]

theorem clamp_of_mem (hzero : 0 ≤ t) (hone : t ≤ 1) : clamp t = t := by
  rw [clamp_eq, min_eq_left hone, max_eq_right hzero]

/-! ## The curve of two pieces -/

theorem easeInOut_eq (wave : ℚ → ℚ) (t : ℚ) :
    progress wave easeInOut t = if t < 1 / 2 then 2 * t ^ 2 else 1 - 2 * (1 - t) ^ 2 := by
  unfold progress
  dsimp only
  split <;> ring

theorem easeInOut_le_half (hzero : 0 ≤ t) (hhalf : t ≤ 1 / 2) :
    progress wave easeInOut t ≤ 1 / 2 := by
  rw [easeInOut_eq]
  split
  · nlinarith
  · next hlate =>
      obtain rfl : t = 1 / 2 := le_antisymm hhalf (not_lt.mp hlate)
      norm_num

theorem half_le_easeInOut (hhalf : 1 / 2 ≤ t) (hone : t ≤ 1) :
    1 / 2 ≤ progress wave easeInOut t := by
  rw [easeInOut_eq, if_neg (not_lt.mpr hhalf)]
  nlinarith

/-! ## Progress -/

theorem progress_zero (wave : ℚ → ℚ) (hc : c ≠ arch) : progress wave c 0 = 0 := by
  cases c with
  | arch => exact absurd rfl hc
  | _ => norm_num [progress]

theorem progress_one (wave : ℚ → ℚ) (hc : c ≠ arch) : progress wave c 1 = 1 := by
  cases c with
  | arch => exact absurd rfl hc
  | _ => norm_num [progress]

/-- A curve never goes back. -/
theorem progress_le_progress (hc : c ≠ arch) (hzero : 0 ≤ s) (hst : s ≤ t) (hone : t ≤ 1) :
    progress wave c s ≤ progress wave c t := by
  cases c with
  | linear => exact hst
  | easeIn =>
      show s * s ≤ t * t
      nlinarith
  | easeOut =>
      show s * (2 - s) ≤ t * (2 - t)
      nlinarith
  | easeInOut =>
      rcases lt_or_ge t (1 / 2) with ht | ht
      · rw [easeInOut_eq, easeInOut_eq, if_pos ht, if_pos (by linarith)]
        nlinarith
      · rcases lt_or_ge s (1 / 2) with hs | hs
        · calc progress wave easeInOut s ≤ 1 / 2 := easeInOut_le_half hzero hs.le
            _ ≤ progress wave easeInOut t := half_le_easeInOut ht hone
        · rw [easeInOut_eq, easeInOut_eq, if_neg (not_lt.mpr ht), if_neg (not_lt.mpr hs)]
          nlinarith
  | arch => exact absurd rfl hc

theorem easeIn_add_easeOut (wave : ℚ → ℚ) (t : ℚ) :
    progress wave easeIn t + progress wave easeOut (1 - t) = 1 := by
  show t * t + (1 - t) * (2 - (1 - t)) = 1
  ring

/-- The two pieces are reflections of each other at the point where they meet. -/
theorem easeInOut_add_easeInOut (wave : ℚ → ℚ) (t : ℚ) :
    progress wave easeInOut t + progress wave easeInOut (1 - t) = 1 := by
  rw [easeInOut_eq, easeInOut_eq]
  rcases lt_trichotomy t (1 / 2) with ht | rfl | ht
  · rw [if_pos ht, if_neg (by linarith)]
    ring
  · norm_num
  · rw [if_neg (by linarith), if_pos (by linarith)]
    ring

/-! ## Any time -/

theorem apply_of_nonpos (hc : c ≠ arch) (ht : t ≤ 0) : c.apply wave t = 0 := by
  rw [apply, clamp_of_nonpos ht, progress_zero wave hc]

theorem apply_of_one_le (hc : c ≠ arch) (ht : 1 ≤ t) : c.apply wave t = 1 := by
  rw [apply, clamp_of_one_le ht, progress_one wave hc]

theorem apply_mono (wave : ℚ → ℚ) (hc : c ≠ arch) : Monotone (c.apply wave) := by
  intro s t hst
  exact progress_le_progress hc (clamp_mem s).1 (clamp_mono hst) (clamp_mem t).2

theorem apply_mem (wave : ℚ → ℚ) (hc : c ≠ arch) (t : ℚ) :
    0 ≤ c.apply wave t ∧ c.apply wave t ≤ 1 := by
  obtain ⟨hzero, hone⟩ := clamp_mem t
  constructor
  · rw [← progress_zero wave hc]
    exact progress_le_progress hc le_rfl hzero hone
  · rw [← progress_one wave hc]
    exact progress_le_progress hc hzero hone le_rfl

theorem apply_of_mem (hzero : 0 ≤ t) (hone : t ≤ 1) : c.apply wave t = c.progress wave t := by
  rw [apply, clamp_of_mem hzero hone]

/-! ## From one number to another -/

theorem interpolate_mono (hc : c ≠ arch) {first last : ℚ} (h : first ≤ last) :
    Monotone (c.interpolate wave first last) := by
  intro s t hst
  have hstep := mul_le_mul_of_nonneg_left (apply_mono wave hc hst) (sub_nonneg.mpr h)
  exact add_le_add_right hstep first

theorem interpolate_anti (hc : c ≠ arch) {first last : ℚ} (h : last ≤ first) :
    Antitone (c.interpolate wave first last) := by
  intro s t hst
  have hstep := mul_le_mul_of_nonpos_left (apply_mono wave hc hst) (sub_nonpos.mpr h)
  exact add_le_add_right hstep first

theorem interpolate_of_nonpos (hc : c ≠ arch) (first last : ℚ) (ht : t ≤ 0) :
    c.interpolate wave first last t = first := by
  rw [interpolate, apply_of_nonpos hc ht]
  ring

theorem interpolate_of_one_le (hc : c ≠ arch) (first last : ℚ) (ht : 1 ≤ t) :
    c.interpolate wave first last t = last := by
  rw [interpolate, apply_of_one_le hc ht]
  ring

theorem interpolate_mem (hc : c ≠ arch) (first last t : ℚ) :
    c.interpolate wave first last t ∈ Set.uIcc first last := by
  obtain ⟨hzero, hone⟩ := apply_mem wave hc t
  rcases le_total first last with h | h
  · rw [Set.uIcc_of_le h, Set.mem_Icc, interpolate]
    constructor <;> nlinarith
  · rw [Set.uIcc_of_ge h, Set.mem_Icc, interpolate]
    constructor <;> nlinarith

/-! ## The main statement -/

/-- Every curve but the arch is at zero up to the time zero and at one from the time one on, never
goes back and so stays in `[0, 1]`; the slow start and the slow end are reflections of each other,
and the curve with both is its own reflection.  So the way between two numbers, whichever is the
greater one, goes from the one to the other without turning back or leaving what lies between them,
and reaches both exactly. -/
theorem interpolate_stays_between (wave : ℚ → ℚ) :
    (∀ c, c ≠ arch →
      (∀ t ≤ 0, c.apply wave t = 0) ∧ (∀ t, 1 ≤ t → c.apply wave t = 1) ∧
      (∀ t, 0 ≤ c.apply wave t ∧ c.apply wave t ≤ 1) ∧ Monotone (c.apply wave)) ∧
    (∀ t, 0 ≤ t → t ≤ 1 →
      easeIn.apply wave t + easeOut.apply wave (1 - t) = 1 ∧
      easeInOut.apply wave t + easeInOut.apply wave (1 - t) = 1) ∧
    ∀ c, c ≠ arch → ∀ first last : ℚ,
      (first ≤ last → Monotone (c.interpolate wave first last)) ∧
      (last ≤ first → Antitone (c.interpolate wave first last)) ∧
      (∀ t, c.interpolate wave first last t ∈ Set.uIcc first last) ∧
      (∀ t ≤ 0, c.interpolate wave first last t = first) ∧
      ∀ t, 1 ≤ t → c.interpolate wave first last t = last := by
  refine ⟨fun c hc => ?_, fun t hzero hone => ?_, fun c hc first last => ?_⟩
  · exact ⟨fun t => apply_of_nonpos hc, fun t => apply_of_one_le hc, apply_mem wave hc,
      apply_mono wave hc⟩
  · have hback : 0 ≤ 1 - t ∧ 1 - t ≤ 1 := by constructor <;> linarith
    rw [apply_of_mem hzero hone, apply_of_mem hzero hone, apply_of_mem hback.1 hback.2,
      apply_of_mem hback.1 hback.2]
    exact ⟨easeIn_add_easeOut wave t, easeInOut_add_easeInOut wave t⟩
  · exact ⟨interpolate_mono hc, interpolate_anti hc, interpolate_mem hc first last,
      fun t => interpolate_of_nonpos hc first last, fun t => interpolate_of_one_le hc first last⟩

/-- From seven down to minus two along the curve of two pieces, past the point where they meet. -/
theorem interpolate_stays_between_down :
    easeInOut ≠ arch ∧ (-2 : ℚ) ≤ 7 ∧ (3 / 8 : ℚ) ≤ 5 / 8 ∧
      easeInOut.interpolate id (7 : ℚ) (-2) (5 / 8) ≤ easeInOut.interpolate id 7 (-2) (3 / 8) ∧
      easeInOut.interpolate id (7 : ℚ) (-2) (5 / 8) ∈ Set.uIcc (7 : ℚ) (-2) ∧
      easeInOut.apply id (3 / 8 : ℚ) + easeInOut.apply id (5 / 8) = 1 := by
  have hc : easeInOut ≠ arch := by decide
  have hdown : (-2 : ℚ) ≤ 7 := by norm_num
  have htimes : (3 / 8 : ℚ) ≤ 5 / 8 := by norm_num
  obtain ⟨-, hreflect, hways⟩ := interpolate_stays_between id
  obtain ⟨-, hback, hbetween, -, -⟩ := hways easeInOut hc 7 (-2)
  have hsum := (hreflect (3 / 8) (by norm_num) (by norm_num)).2
  norm_num at hsum
  exact ⟨hc, hdown, htimes, hback hdown htimes, hbetween _, hsum⟩

end Phrasebook.Curve
