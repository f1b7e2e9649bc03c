import Mathlib.Algebra.Order.Group.MinMax
import Mathlib.Data.Rat.Floor
import Mathlib.Tactic.FieldSimp
import Mathlib.Tactic.Linarith
import Mathlib.Tactic.NormNum
import Mathlib.Tactic.Ring
import Phrasebook.Motion.Clock

/-!
# What the clock shows

The clock is read over the rational numbers here, so nothing is rounded.

The time of a bouncing cycle is a triangle wave: how far the number of cycles is from the
nearest even number (`swing_le`, `exists_swing_eq`), cut off just below one.  Each
property of a bouncing cycle is read off this distance.  It changes by no more than the
number of cycles does, and it is the same for two numbers that lie at equal distances on
the two sides of a whole number, because a reflection at a whole number takes even numbers
to even numbers.
-/

namespace Phrasebook.Clock

/-! ## Cycles -/

/-- The number of cycles in some seconds; before the start it is zero. -/
def cycles (duration elapsed : ℚ) : ℚ :=
  max elapsed 0 / duration

/-- How far a number of cycles is from the nearest even number. -/
def swing (c : ℚ) : ℚ :=
  min (c - 2 * ⌊c / 2⌋) (2 - (c - 2 * ⌊c / 2⌋))

variable {c c' d e e' x t : ℚ}

theorem cycles_nonneg (hd : 0 < d) (e : ℚ) : 0 ≤ cycles d e :=
  div_nonneg (le_max_right e 0) hd.le

theorem cycles_of_nonpos (he : e ≤ 0) : cycles d e = 0 := by
  rw [cycles, max_eq_right he, zero_div]

theorem cycles_of_nonneg (he : 0 ≤ e) : cycles d e = e / d := by
  rw [cycles, max_eq_left he]

theorem cycles_add_mul (hd : 0 < d) (he : 0 ≤ e) (n : ℕ) :
    cycles d (e + n * d) = cycles d e + n := by
  have hlater : 0 ≤ e + n * d := by positivity
  rw [cycles_of_nonneg hlater, cycles_of_nonneg he, add_div, mul_div_cancel_right₀ _ hd.ne']

theorem cycles_lt_one_iff (hd : 0 < d) : cycles d e < 1 ↔ e < d := by
  rw [cycles, div_lt_one hd, max_lt_iff]
  exact and_iff_left hd

/-- A clamp at zero brings two numbers of seconds no further apart. -/
theorem abs_cycles_sub_le (hd : 0 < d) (e e' : ℚ) :
    |cycles d e - cycles d e'| ≤ |e - e'| / d := by
  rw [cycles, cycles, ← sub_div, abs_div, abs_of_pos hd]
  exact div_le_div_of_nonneg_right (abs_max_sub_max_le_abs e e' 0) hd.le

/-! ## The triangle wave -/

/-- What is left of a number of cycles after taking away pairs of cycles. -/
theorem rest_mem (c : ℚ) : 0 ≤ c - 2 * ⌊c / 2⌋ ∧ c - 2 * ⌊c / 2⌋ < 2 := by
  have hbelow : (⌊c / 2⌋ : ℚ) ≤ c / 2 := Int.floor_le (c / 2)
  have habove : c / 2 < ⌊c / 2⌋ + 1 := Int.lt_floor_add_one (c / 2)
  constructor <;> linarith

theorem swing_nonneg (c : ℚ) : 0 ≤ swing c := by
  obtain ⟨hbelow, habove⟩ := rest_mem c
  exact le_min hbelow (by linarith)

/-- No even number is nearer than the swing. -/
theorem swing_le (c : ℚ) (m : ℤ) : swing c ≤ |c - 2 * m| := by
  obtain ⟨hbelow, habove⟩ := rest_mem c
  rcases le_or_gt m ⌊c / 2⌋ with hm | hm
  · have hm' : (m : ℚ) ≤ ⌊c / 2⌋ := by exact_mod_cast hm
    calc swing c ≤ c - 2 * ⌊c / 2⌋ := min_le_left _ _
      _ ≤ c - 2 * m := by linarith
      _ ≤ |c - 2 * m| := le_abs_self _
  · have hm' : (⌊c / 2⌋ : ℚ) + 1 ≤ m := by exact_mod_cast hm
    calc swing c ≤ 2 - (c - 2 * ⌊c / 2⌋) := min_le_right _ _
      _ ≤ -(c - 2 * m) := by linarith
      _ ≤ |c - 2 * m| := neg_le_abs _

/-- Some even number is as near as the swing. -/
theorem exists_swing_eq (c : ℚ) : ∃ m : ℤ, swing c = |c - 2 * m| := by
  obtain ⟨hbelow, habove⟩ := rest_mem c
  rcases min_choice (c - 2 * ⌊c / 2⌋) (2 - (c - 2 * ⌊c / 2⌋)) with hmin | hmin
  · exact ⟨⌊c / 2⌋, by rw [swing, hmin, abs_of_nonneg hbelow]⟩
  · refine ⟨⌊c / 2⌋ + 1, ?_⟩
    rw [swing, hmin, abs_of_neg (by push_cast; linarith)]
    push_cast
    ring

theorem swing_le_swing_add (c c' : ℚ) : swing c ≤ swing c' + |c - c'| := by
  obtain ⟨m, hm⟩ := exists_swing_eq c'
  calc swing c ≤ |c - 2 * m| := swing_le c m
    _ = |(c' - 2 * m) + (c - c')| := by congr 1; ring
    _ ≤ |c' - 2 * m| + |c - c'| := abs_add_le _ _
    _ = swing c' + |c - c'| := by rw [hm]

theorem abs_swing_sub_le (c c' : ℚ) : |swing c - swing c'| ≤ |c - c'| := by
  rw [abs_sub_le_iff]
  constructor
  · linarith [swing_le_swing_add c c']
  · linarith [swing_le_swing_add c' c, abs_sub_comm c c']

/-- A reflection at a whole number keeps the distance from the even numbers. -/
theorem swing_reflect (k : ℤ) (x : ℚ) : swing (k + x) = swing (k - x) := by
  have hle : ∀ y : ℚ, swing (k + y) ≤ swing (k - y) := by
    intro y
    obtain ⟨m, hm⟩ := exists_swing_eq (k - y)
    calc swing (k + y) ≤ |k + y - 2 * (k - m : ℤ)| := swing_le _ _
      _ = |-(k - y - 2 * m)| := by congr 1; push_cast; ring
      _ = swing (k - y) := by rw [abs_neg, hm]
  refine le_antisymm (hle x) ?_
  have hback := hle (-x)
  rwa [sub_neg_eq_add, ← sub_eq_add_neg] at hback

theorem swing_add_even (c : ℚ) (n : ℤ) : swing (c + 2 * n) = swing c := by
  have hfloor : ⌊(c + 2 * n) / 2⌋ = ⌊c / 2⌋ + n := by
    rw [← Int.floor_add_intCast]
    congr 1
    ring
  have hrest : c + 2 * n - 2 * ⌊(c + 2 * n) / 2⌋ = c - 2 * ⌊c / 2⌋ := by
    rw [hfloor]
    push_cast
    ring
  rw [swing, swing, hrest]

theorem swing_eq_zero_iff : swing c = 0 ↔ ∃ m : ℤ, c = 2 * m := by
  constructor
  · intro hzero
    obtain ⟨m, hm⟩ := exists_swing_eq c
    exact ⟨m, sub_eq_zero.mp (abs_eq_zero.mp (hm ▸ hzero))⟩
  · rintro ⟨m, rfl⟩
    refine le_antisymm ?_ (swing_nonneg _)
    simpa using swing_le (2 * m) m

theorem swing_of_lt_one (hzero : 0 ≤ c) (hone : c < 1) : swing c = c := by
  have hfloor : ⌊c / 2⌋ = 0 := by
    rw [Int.floor_eq_zero_iff]
    constructor <;> linarith
  rw [swing, hfloor]
  simp only [Int.cast_zero, mul_zero, sub_zero]
  exact min_eq_left (by linarith)

/-! ## Times -/

theorem whole_eq_floor (hc : 0 ≤ c) : Divisible.whole c = (⌊c⌋ : ℚ) := by
  have hnum : 0 ≤ c.num := Rat.num_nonneg.mpr hc
  show ((c.num.tdiv c.den : ℤ) : ℚ) = _
  rw [Int.tdiv_eq_ediv_of_nonneg hnum, Rat.floor_def']

theorem remainderTwo_eq (hc : 0 ≤ c) : Divisible.remainderTwo c = c - 2 * (⌊c / 2⌋ : ℚ) := by
  have hhalf : 0 ≤ c / 2 := by positivity
  show c - 2 * Divisible.whole (c / 2) = _
  rw [whole_eq_floor hhalf]

theorem time_loop (hc : 0 ≤ c) : time .loop c = some (Int.fract c) := by
  rw [time, whole_eq_floor hc, Int.self_sub_floor]

theorem latest_eq : (latest : ℚ) = 1 - 1 / 2 ^ 52 := by
  norm_num [latest]

theorem time_bounce (hc : 0 ≤ c) : time .bounce c = some (min (swing c) (1 - 1 / 2 ^ 52)) := by
  have hswing : (if Divisible.remainderTwo c < 1 then Divisible.remainderTwo c
      else 2 - Divisible.remainderTwo c) = swing c := by
    rw [remainderTwo_eq hc, swing]
    split
    · next hearly => exact (min_eq_left (by linarith)).symm
    · next hlate => exact (min_eq_right (by linarith)).symm
  rw [time, hswing, ← latest_eq, min_def]

theorem frameTime_eq (a : Animation) (d e : ℚ) : frameTime a d e = time a (cycles d e) := by
  have hclamp : (if 0 < e then e else 0) = max e 0 := by
    split
    · next he => exact (max_eq_left he.le).symm
    · next he => exact (max_eq_right (not_lt.mp he)).symm
  rw [frameTime, hclamp, cycles]

theorem frameTime_loop (hd : 0 < d) (e : ℚ) :
    frameTime .loop d e = some (Int.fract (cycles d e)) := by
  rw [frameTime_eq, time_loop (cycles_nonneg hd e)]

theorem frameTime_once (d e : ℚ) :
    frameTime .once d e = if cycles d e < 1 then some (cycles d e) else none :=
  frameTime_eq .once d e

theorem frameTime_bounce (hd : 0 < d) (e : ℚ) :
    frameTime .bounce d e = some (min (swing (cycles d e)) (1 - 1 / 2 ^ 52)) := by
  rw [frameTime_eq, time_bounce (cycles_nonneg hd e)]

theorem frameTime_eq_none_iff (hd : 0 < d) (a : Animation) :
    frameTime a d e = none ↔ a = .once ∧ d ≤ e := by
  cases a with
  | bounce => simp [frameTime_bounce hd]
  | loop => simp [frameTime_loop hd]
  | once => simp [frameTime_once, cycles_lt_one_iff hd]

theorem frameTime_mem (hd : 0 < d) {a : Animation} (h : frameTime a d e = some t) :
    0 ≤ t ∧ t < 1 := by
  cases a with
  | bounce =>
      rw [frameTime_bounce hd] at h
      obtain rfl := Option.some.inj h
      refine ⟨le_min (swing_nonneg _) (by norm_num), ?_⟩
      calc min (swing (cycles d e)) (1 - 1 / 2 ^ 52) ≤ 1 - 1 / 2 ^ 52 := min_le_right _ _
        _ < 1 := by norm_num
  | loop =>
      rw [frameTime_loop hd] at h
      obtain rfl := Option.some.inj h
      exact ⟨Int.fract_nonneg _, Int.fract_lt_one _⟩
  | once =>
      rw [frameTime_once] at h
      split at h
      · next hone =>
          obtain rfl := Option.some.inj h
          exact ⟨cycles_nonneg hd e, hone⟩
      · cases h

/-! ## Periods -/

/-- The periods of a looping cycle are the multiples of its length. -/
theorem frameTime_loop_periodic_iff (hd : 0 < d) {p : ℚ} (hp : 0 ≤ p) :
    (∀ e, 0 ≤ e → frameTime .loop d (e + p) = frameTime .loop d e) ↔ ∃ n : ℕ, p = n * d := by
  constructor
  · intro hperiod
    have hstart := hperiod 0 le_rfl
    rw [zero_add, frameTime_loop hd, frameTime_loop hd, cycles_of_nonneg hp,
      cycles_of_nonpos le_rfl, Int.fract_zero] at hstart
    obtain ⟨n, hn⟩ := Int.fract_eq_zero_iff.mp (Option.some.inj hstart)
    have hnonneg : 0 ≤ n := by
      have : (0 : ℚ) ≤ n := hn ▸ div_nonneg hp hd.le
      exact_mod_cast this
    obtain ⟨n, rfl⟩ := Int.eq_ofNat_of_zero_le hnonneg
    refine ⟨n, ?_⟩
    rw [← div_eq_iff hd.ne', ← hn]
    rfl
  · rintro ⟨n, rfl⟩ e he
    rw [frameTime_loop hd, frameTime_loop hd, cycles_add_mul hd he, Int.fract_add_natCast]

/-- The periods of a bouncing cycle are the multiples of twice its length. -/
theorem frameTime_bounce_periodic_iff (hd : 0 < d) {p : ℚ} (hp : 0 ≤ p) :
    (∀ e, 0 ≤ e → frameTime .bounce d (e + p) = frameTime .bounce d e) ↔
      ∃ n : ℕ, p = n * (2 * d) := by
  constructor
  · intro hperiod
    -- The time is zero at the start, so it is zero after a period, and no cut hides a zero.
    have hstart := hperiod 0 le_rfl
    have hzero : swing 0 = 0 := swing_eq_zero_iff.mpr ⟨0, by simp⟩
    have htop : (0 : ℚ) < 1 - 1 / 2 ^ 52 := by norm_num
    rw [zero_add, frameTime_bounce hd, frameTime_bounce hd, cycles_of_nonneg hp,
      cycles_of_nonpos le_rfl, hzero, min_eq_left htop.le] at hstart
    have hswing : swing (p / d) = 0 := by
      rcases min_choice (swing (p / d)) (1 - 1 / 2 ^ 52) with hmin | hmin
      · rw [← hmin]
        exact Option.some.inj hstart
      · rw [hmin] at hstart
        exact absurd (Option.some.inj hstart) htop.ne'
    obtain ⟨n, hn⟩ := swing_eq_zero_iff.mp hswing
    have hnonneg : 0 ≤ n := by
      have : (0 : ℚ) ≤ 2 * n := hn ▸ div_nonneg hp hd.le
      exact_mod_cast nonneg_of_mul_nonneg_right this two_pos
    obtain ⟨n, rfl⟩ := Int.eq_ofNat_of_zero_le hnonneg
    refine ⟨n, ?_⟩
    rw [div_eq_iff hd.ne'] at hn
    rw [hn]
    push_cast
    ring
  · rintro ⟨n, rfl⟩ e he
    have hcycles : cycles d (e + n * (2 * d)) = cycles d e + 2 * (n : ℤ) := by
      have hmul := cycles_add_mul hd he (2 * n)
      push_cast at hmul ⊢
      rw [← hmul]
      congr 1
      ring
    rw [frameTime_bounce hd, frameTime_bounce hd, hcycles, swing_add_even]

/-- A bouncing cycle runs back the way it came at each turning point. -/
theorem frameTime_bounce_reflect (hd : 0 < d) (k : ℕ) (hx : 0 ≤ x) (hxk : x ≤ k * d) :
    frameTime .bounce d (k * d + x) = frameTime .bounce d (k * d - x) := by
  have hafter : cycles d (k * d + x) = (k : ℤ) + x / d := by
    rw [cycles_of_nonneg (by positivity), add_div, mul_div_cancel_right₀ _ hd.ne']
    rfl
  have hbefore : cycles d (k * d - x) = (k : ℤ) - x / d := by
    rw [cycles_of_nonneg (by linarith), sub_div, mul_div_cancel_right₀ _ hd.ne']
    rfl
  rw [frameTime_bounce hd, frameTime_bounce hd, hafter, hbefore, swing_reflect]

/-- A bouncing cycle goes no faster than once through its length. -/
theorem abs_bounce_sub_le (hd : 0 < d) (e e' : ℚ) :
    |min (swing (cycles d e)) (1 - 1 / 2 ^ 52) - min (swing (cycles d e')) (1 - 1 / 2 ^ 52)| ≤
      |e - e'| / d :=
  calc _ ≤ |swing (cycles d e) - swing (cycles d e')| := abs_inf_sub_inf_le_abs _ _ _
    _ ≤ |cycles d e - cycles d e'| := abs_swing_sub_le _ _
    _ ≤ |e - e'| / d := abs_cycles_sub_le hd e e'

/-! ## The main statement -/

/-- The clock of cycles of `d` seconds.  Seconds before the start count as none.  Only a cycle that
does not repeat ever ends, and it does so after `d` seconds; the times shown lie in `[0, 1)`.  A
looping cycle has the period `d`, a bouncing one `2 * d`, and neither a smaller one; a bouncing
cycle is symmetric about its turning points and never jumps.  In the first `d` seconds the time is
the part of them that is over, but a bouncing cycle stops just below one. -/
theorem frameTime_proper {d : ℚ} (hd : 0 < d) :
    (∀ a e, e ≤ 0 → frameTime a d e = frameTime a d 0) ∧
    (∀ a e, frameTime a d e = none ↔ a = .once ∧ d ≤ e) ∧
    (∀ a e t, frameTime a d e = some t → 0 ≤ t ∧ t < 1) ∧
    (∀ p, 0 ≤ p → ((∀ e, 0 ≤ e → frameTime .loop d (e + p) = frameTime .loop d e) ↔
      ∃ n : ℕ, p = n * d)) ∧
    (∀ p, 0 ≤ p → ((∀ e, 0 ≤ e → frameTime .bounce d (e + p) = frameTime .bounce d e) ↔
      ∃ n : ℕ, p = n * (2 * d))) ∧
    (∀ (k : ℕ) (x : ℚ), 0 ≤ x → x ≤ k * d →
      frameTime .bounce d (k * d + x) = frameTime .bounce d (k * d - x)) ∧
    (∀ e e', ∃ t t', frameTime .bounce d e = some t ∧ frameTime .bounce d e' = some t' ∧
      |t - t'| ≤ |e - e'| / d) ∧
    ∀ e, e < d → ∃ t, t = max e 0 / d ∧ frameTime .loop d e = some t ∧
      frameTime .once d e = some t ∧ (frameTime .bounce d e = some t ↔ t ≤ 1 - 1 / 2 ^ 52) := by
  refine ⟨fun a e he => ?_, fun a e => frameTime_eq_none_iff hd a, fun a e t => frameTime_mem hd,
    fun p => frameTime_loop_periodic_iff hd, fun p => frameTime_bounce_periodic_iff hd,
    fun k x => frameTime_bounce_reflect hd k, fun e e' => ?_, fun e he => ?_⟩
  · rw [frameTime_eq, frameTime_eq, cycles_of_nonpos he, cycles_of_nonpos le_rfl]
  · exact ⟨_, _, frameTime_bounce hd e, frameTime_bounce hd e', abs_bounce_sub_le hd e e'⟩
  · have hzero : 0 ≤ cycles d e := cycles_nonneg hd e
    have hone : cycles d e < 1 := (cycles_lt_one_iff hd).mpr he
    refine ⟨cycles d e, rfl, ?_, ?_, ?_⟩
    · rw [frameTime_loop hd, Int.fract_eq_self.mpr ⟨hzero, hone⟩]
    · rw [frameTime_once, if_pos hone]
    · rw [frameTime_bounce hd, swing_of_lt_one hzero hone, Option.some_inj, min_eq_left_iff]

/-- Cycles of half a second: a time at the top, two at equal distances from the third turning
point, and the end of a cycle that does not repeat. -/
theorem frameTime_proper_half :
    (0 : ℚ) < 1 / 2 ∧ frameTime .once (1 / 2 : ℚ) (1 / 2) = none ∧
      frameTime .bounce (1 / 2 : ℚ) (1 / 2) = some (1 - 1 / 2 ^ 52) ∧
      frameTime .bounce (1 / 2 : ℚ) (3 * (1 / 2) + 1 / 8) =
        frameTime .bounce (1 / 2 : ℚ) (3 * (1 / 2) - 1 / 8) := by
  have hd : (0 : ℚ) < 1 / 2 := by norm_num
  obtain ⟨-, hnone, -, -, -, hreflect, -, -⟩ := frameTime_proper hd
  refine ⟨hd, (hnone .once (1 / 2)).mpr ⟨rfl, le_rfl⟩, by decide +kernel, ?_⟩
  exact_mod_cast hreflect 3 (1 / 8) (by norm_num) (by norm_num)

end Phrasebook.Clock
