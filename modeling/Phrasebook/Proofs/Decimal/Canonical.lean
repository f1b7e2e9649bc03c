import Phrasebook.Decimal.Numeral
import Phrasebook.Motion.Curve
import Phrasebook.Proofs.Decimal.Rounding

/-!
# One text for each number

The text of a number with a fixed number of places is read back as this number, by the reader of
numerals (`Fixed.denoted?_render`).  Dropping zeros at the end of the fraction, and the sign of a
zero, changes neither the number (`Fixed.value_reduce`) nor the digits before the point
(`Fixed.whole_reduce`), and leaves the only form of the number to which this cannot be done again
(`Fixed.Reduced.eq_of_value_eq`).

The same can be done to the text: trimming characters at its end gives the text of the reduced form
(`Fixed.trimmed_render`).  So what is written for a float depends on the number that it is rounded
to and on nothing else (`numberText_canonical`).
-/

namespace Phrasebook.Decimal

/-! ## Digits -/

theorem naturalOf_concat (ds : List Char) (c : Char) :
    naturalOf (ds ++ [c]) = 10 * naturalOf ds + digitValue c :=
  List.foldl_concat _ _ _ _

theorem naturalOf_digits (n : Nat) : naturalOf (digits n) = n :=
  Nat.ofDigitChars_ten_toDigits

theorem isDigit_of_mem_digits {n : Nat} {c : Char} (h : c ∈ digits n) : c.isDigit = true :=
  Nat.isDigit_of_mem_toDigits (by decide) (by decide) h

theorem digits_ne_nil (n : Nat) : digits n ≠ [] :=
  Nat.toDigits_ne_nil

theorem digitChar_spec {d : Nat} (h : d < 10) :
    (digitChar d).isDigit = true ∧ digitValue (digitChar d) = d := by
  interval_cases d <;> decide

theorem digitChar_ne_zero {d : Nat} (h : d < 10) (hne : d ≠ 0) : digitChar d ≠ '0' := by
  intro hzero
  have hvalue := (digitChar_spec h).2
  rw [hzero] at hvalue
  exact hne hvalue.symm

theorem isDigit_of_mem_lastDigits {width n : Nat} {c : Char} (h : c ∈ lastDigits width n) :
    c.isDigit = true := by
  induction width generalizing n with
  | zero => cases h
  | succ width ih =>
      rcases List.mem_append.mp h with h | h
      · exact ih h
      · rw [List.mem_singleton.mp h]
        exact (digitChar_spec (Nat.mod_lt n (by decide))).1

theorem length_lastDigits (width n : Nat) : (lastDigits width n).length = width := by
  induction width generalizing n with
  | zero => rfl
  | succ width ih => rw [lastDigits, List.length_append, ih, List.length_singleton]

theorem naturalOf_append_lastDigits (ds : List Char) (width n : Nat) :
    naturalOf (ds ++ lastDigits width n) = 10 ^ width * naturalOf ds + n % 10 ^ width := by
  induction width generalizing n with
  | zero => simp [lastDigits, Nat.mod_one]
  | succ width ih =>
      rw [lastDigits, ← List.append_assoc, naturalOf_concat, ih,
        (digitChar_spec (Nat.mod_lt n (by decide))).2, Nat.pow_succ', Nat.mod_mul]
      ring

/-! ## Reading back -/

/-- The number that a numeral denotes, if it denotes one. -/
def Numeral.value? : Numeral → Option ℚ
  | .finite negative ds exponent => some (signed negative (ds * 10 ^ exponent))
  | _ => none

/-- The number that a text denotes, if it denotes one. -/
def denoted? (cs : List Char) : Option ℚ :=
  (Numeral.parse? cs).bind Numeral.value?

theorem toLower_of_isDigit {c : Char} (h : c.isDigit = true) : c.toLower = c := by
  obtain ⟨-, hhigh⟩ : 48 ≤ c.toNat ∧ c.toNat ≤ 57 := by
    simpa [Char.isDigit, UInt32.le_iff_toNat_le] using h
  rw [Char.toLower, dif_neg]
  rintro ⟨hlow, -⟩
  have : 65 ≤ c.toNat := hlow
  omega

/-- What begins with a digit is none of the words that stand for a number. -/
theorem map_toLower_ne {cs word : List Char} (hcs : ∃ c ∈ cs.head?, c.isDigit = true)
    (hword : ∃ d ∈ word.head?, d.isDigit = false) : cs.map Char.toLower ≠ word := by
  rintro rfl
  obtain ⟨c, hc, hdigit⟩ := hcs
  obtain ⟨d, hd, hletter⟩ := hword
  rw [List.head?_map, hc, Option.map_some, toLower_of_isDigit hdigit] at hd
  obtain rfl : c = d := Option.some.inj hd
  rw [hdigit] at hletter
  cases hletter

/-- Digits are read as a numeral, with a point and more digits behind them or without. -/
theorem magnitude?_append {whole rest fraction : List Char} (hne : whole ≠ [])
    (hwhole : ∀ c ∈ whole, c.isDigit = true) (hfraction : ∀ c ∈ fraction, c.isDigit = true)
    (hrest : rest = [] ∧ fraction = [] ∨ rest = '.' :: fraction) (negative : Bool) :
    magnitude? negative (whole ++ rest) =
      some (.finite negative (naturalOf (whole ++ fraction)) (-fraction.length)) := by
  have hfirst : ∃ c ∈ (whole ++ rest).head?, c.isDigit = true := by
    obtain ⟨c, cs, rfl⟩ := List.exists_cons_of_ne_nil hne
    exact ⟨c, rfl, hwhole c List.mem_cons_self⟩
  have hinf : (whole ++ rest).map Char.toLower ≠ "inf".toList :=
    map_toLower_ne hfirst ⟨'i', rfl, rfl⟩
  have hinfinity : (whole ++ rest).map Char.toLower ≠ "infinity".toList :=
    map_toLower_ne hfirst ⟨'i', rfl, rfl⟩
  have hnan : (whole ++ rest).map Char.toLower ≠ "nan".toList :=
    map_toLower_ne hfirst ⟨'n', rfl, rfl⟩
  unfold magnitude?
  dsimp only
  rw [if_neg (not_or.mpr ⟨hinf, hinfinity⟩), if_neg hnan,
    List.takeWhile_append_of_pos hwhole, List.dropWhile_append_of_pos hwhole]
  rcases hrest with ⟨rfl, rfl⟩ | rfl
  · simp [exponent?, hne]
  · have htake : fraction.takeWhile Char.isDigit = fraction :=
      List.takeWhile_eq_self_iff.mpr hfraction
    have hdrop : fraction.dropWhile Char.isDigit = [] := List.dropWhile_eq_nil_iff.mpr hfraction
    rw [List.takeWhile_cons_of_neg (by decide), List.dropWhile_cons_of_neg (by decide)]
    simp [htake, hdrop, exponent?, hne]

/-- The zeros that end a fraction are dropped, and the point if it is left at the end, and the sign
of what is then a zero. -/
def trimmed (cs : List Char) : List Char :=
  let short := if '.' ∈ cs then (cs.rdropWhile (· == '0')).rdropWhile (· == '.') else cs
  if short = ['-', '0'] then ['0'] else short

/-- The text of a number without needless characters: no point and no zero of a fraction at the end,
and no sign of a zero. -/
structure Canonical (cs : List Char) : Prop where
  point : cs.getLast? ≠ some '.'
  zero : '.' ∈ cs → cs.getLast? ≠ some '0'
  sign : cs ≠ ['-', '0']

namespace Fixed

variable {f g : Fixed}

/-- The sign and the digits before the point. -/
def whole (f : Fixed) : List Char :=
  (if f.negative then ['-'] else []) ++ digits (f.units / 10 ^ f.places)

/-- The point and the digits after it, if there are any. -/
def fraction (f : Fixed) : List Char :=
  if f.places = 0 then [] else '.' :: lastDigits f.places f.units

theorem render_eq (f : Fixed) : f.render = f.whole ++ f.fraction := rfl

theorem takeSign_render (f : Fixed) :
    takeSign f.render = (f.negative, digits (f.units / 10 ^ f.places) ++ f.fraction) := by
  rw [render_eq, whole]
  cases f.negative with
  | true => rfl
  | false =>
      obtain ⟨c, cs, hdigits⟩ :=
        List.exists_cons_of_ne_nil (digits_ne_nil (f.units / 10 ^ f.places))
      have hc : c.isDigit = true := isDigit_of_mem_digits (hdigits ▸ List.mem_cons_self)
      rw [hdigits]
      show takeSign (c :: _) = _
      unfold takeSign
      split
      · next heq =>
        obtain ⟨rfl, -⟩ := List.cons.inj heq
        cases hc
      · next heq =>
        obtain ⟨rfl, -⟩ := List.cons.inj heq
        cases hc
      · rfl

/-- A number is read back from its digits. -/
theorem parse?_render (f : Fixed) :
    Numeral.parse? f.render = some (.finite f.negative f.units (-f.places)) := by
  have hfraction : f.fraction = [] ∧ lastDigits f.places f.units = [] ∨
      f.fraction = '.' :: lastDigits f.places f.units := by
    unfold fraction
    split
    · next hplaces => exact Or.inl ⟨rfl, by rw [hplaces]; rfl⟩
    · exact Or.inr rfl
  have hread := magnitude?_append (digits_ne_nil (f.units / 10 ^ f.places))
    (fun c => isDigit_of_mem_digits) (fun c => isDigit_of_mem_lastDigits) hfraction f.negative
  rw [naturalOf_append_lastDigits, naturalOf_digits, Nat.div_add_mod, length_lastDigits] at hread
  rw [Numeral.parse?, takeSign_render]
  exact hread

theorem of_render_eq_minus_zero (h : f.render = ['-', '0']) :
    f.negative = true ∧ f.units = 0 ∧ f.places = 0 := by
  have hparse := parse?_render f
  rw [h, show Numeral.parse? ['-', '0'] = some (.finite true 0 0) by decide] at hparse
  obtain ⟨hsign, hunits, hplaces⟩ : f.negative = true ∧ 0 = f.units ∧ f.places = 0 := by
    simpa using hparse
  exact ⟨hsign, hunits.symm, hplaces⟩

/-- The text of a number denotes it. -/
theorem denoted?_render (f : Fixed) : denoted? f.render = some f.value := by
  rw [denoted?, parse?_render, Option.bind_some, Numeral.value?, value, zpow_neg, zpow_natCast,
    div_eq_mul_inv]

/-! ## Without needless zeros -/

/-- A number whose fraction does not end in a zero, and which is no zero with a sign. -/
structure Reduced (f : Fixed) : Prop where
  digit : f.places = 0 ∨ f.units % 10 ≠ 0
  sign : f.negative = true → f.units ≠ 0

/-- What is dropped is a power of ten, and nothing more could be dropped. -/
theorem dropZeros_spec (units places : Nat) :
    ∃ dropped, places = (dropZeros units places).2 + dropped ∧
      units = (dropZeros units places).1 * 10 ^ dropped ∧
      ((dropZeros units places).2 = 0 ∨ (dropZeros units places).1 % 10 ≠ 0) := by
  fun_induction dropZeros units places
  case case1 units => exact ⟨0, rfl, by simp, Or.inl rfl⟩
  case case2 units places hzero ih =>
    obtain ⟨dropped, hplaces, hunits, hlast⟩ := ih
    refine ⟨dropped + 1, by omega, ?_, hlast⟩
    calc units = units / 10 * 10 := by omega
      _ = (dropZeros (units / 10) places).1 * 10 ^ dropped * 10 := by rw [← hunits]
      _ = (dropZeros (units / 10) places).1 * 10 ^ (dropped + 1) := by rw [Nat.pow_succ, mul_assoc]
  case case3 units places hdigit => exact ⟨0, rfl, by simp, Or.inr hdigit⟩

theorem reduce_spec (f : Fixed) :
    ∃ dropped, f.places = f.reduce.places + dropped ∧ f.units = f.reduce.units * 10 ^ dropped ∧
      (f.reduce.places = 0 ∨ f.reduce.units % 10 ≠ 0) :=
  dropZeros_spec f.units f.places

theorem negative_reduce (f : Fixed) :
    f.reduce.negative = (f.negative && f.reduce.units != 0) := rfl

theorem reduced_reduce (f : Fixed) : f.reduce.Reduced := by
  obtain ⟨-, -, -, hlast⟩ := f.reduce_spec
  refine ⟨hlast, fun hsign => ?_⟩
  rw [negative_reduce, Bool.and_eq_true] at hsign
  exact bne_iff_ne.mp hsign.2

theorem value_reduce (f : Fixed) : f.reduce.value = f.value := by
  obtain ⟨dropped, hplaces, hunits, -⟩ := f.reduce_spec
  have hquotient : (f.units : ℚ) / 10 ^ f.places = f.reduce.units / 10 ^ f.reduce.places := by
    rw [hunits, hplaces]
    push_cast
    rw [pow_add, mul_div_mul_right _ _ (by positivity)]
  rw [value, value, hquotient, negative_reduce]
  -- Only a zero loses its sign.
  by_cases hzero : f.reduce.units = 0
  · rw [hzero]
    simp
  · rw [bne_iff_ne.mpr hzero, Bool.and_true]

theorem Reduced.negative_iff (hf : f.Reduced) : f.negative = true ↔ f.value < 0 := by
  have hnonneg : (0 : ℚ) ≤ f.units / 10 ^ f.places := by positivity
  cases hsign : f.negative with
  | false =>
      rw [value, hsign]
      simpa [signed] using hnonneg
  | true =>
      have hunits : (0 : ℚ) < f.units := Nat.cast_pos.mpr (Nat.pos_of_ne_zero (hf.sign hsign))
      have hpos : (0 : ℚ) < f.units / 10 ^ f.places := by positivity
      rw [value, hsign]
      simpa [signed] using hpos

/-- A reduced number has no more places than another form of it. -/
theorem Reduced.places_le (hg : g.Reduced)
    (h : f.units * 10 ^ g.places = g.units * 10 ^ f.places) : g.places ≤ f.places := by
  by_contra hmore
  obtain ⟨more, hplaces⟩ : ∃ more, g.places = f.places + (more + 1) :=
    ⟨g.places - f.places - 1, by omega⟩
  have hunits : f.units * 10 ^ (more + 1) = g.units := by
    rw [hplaces, pow_add, mul_comm (10 ^ f.places), ← mul_assoc] at h
    exact Nat.eq_of_mul_eq_mul_right (by positivity) h
  rcases hg.digit with hnone | hlast
  · omega
  · rw [← hunits, Nat.pow_succ, ← mul_assoc, Nat.mul_mod_left] at hlast
    exact hlast rfl

/-- A number has only one reduced form. -/
theorem Reduced.eq_of_value_eq (hf : f.Reduced) (hg : g.Reduced) (h : f.value = g.value) :
    f = g := by
  have hunits : f.units * 10 ^ g.places = g.units * 10 ^ f.places := by
    have habs : (f.units : ℚ) / 10 ^ f.places = g.units / 10 ^ g.places := by
      have habs := congrArg abs h
      rwa [value, value, abs_signed, abs_signed, abs_of_nonneg (by positivity),
        abs_of_nonneg (by positivity)] at habs
    rw [div_eq_div_iff (by positivity) (by positivity)] at habs
    exact_mod_cast habs
  have hplaces : f.places = g.places :=
    le_antisymm (hf.places_le hunits.symm) (hg.places_le hunits)
  have hnegative : f.negative = g.negative := by
    rw [Bool.eq_iff_iff, hf.negative_iff, hg.negative_iff, h]
  obtain ⟨negative, units, places⟩ := f
  obtain ⟨negative', units', places'⟩ := g
  obtain rfl : negative = negative' := hnegative
  obtain rfl : places = places' := hplaces
  obtain rfl : units = units' := Nat.eq_of_mul_eq_mul_right (by positivity) hunits
  rfl

/-! ## Trimming the text -/

theorem point_not_mem_whole (f : Fixed) : '.' ∉ f.whole := by
  intro hpoint
  rcases List.mem_append.mp hpoint with hsign | hdigits
  · split at hsign <;> simp at hsign
  · exact absurd (isDigit_of_mem_digits hdigits) (by decide)

/-- The zeros at the end of a fraction, and the point of a fraction of zeros. -/
theorem rdropWhile_fraction {lead : List Char} (hlead : '.' ∉ lead) (units places : Nat) :
    ((lead ++ '.' :: lastDigits places units).rdropWhile (· == '0')).rdropWhile (· == '.') =
      lead ++ fraction ⟨false, (dropZeros units places).1, (dropZeros units places).2⟩ := by
  fun_induction dropZeros units places
  case case1 units =>
    rw [lastDigits, List.rdropWhile_concat_neg _ _ _ (by decide),
      List.rdropWhile_concat_pos _ _ _ (by decide), fraction, if_pos rfl, List.append_nil,
      List.rdropWhile_eq_self_iff]
    intro hne hpoint
    exact hlead (beq_iff_eq.mp hpoint ▸ List.getLast_mem hne)
  case case2 units places hzero ih =>
    rw [lastDigits, hzero, ← List.cons_append, ← List.append_assoc,
      List.rdropWhile_concat_pos _ _ _ (by decide), ih]
  case case3 units places hdigit =>
    have hlt : units % 10 < 10 := Nat.mod_lt units (by decide)
    have hzero : ¬(digitChar (units % 10) == '0') = true :=
      fun h => digitChar_ne_zero hlt hdigit (beq_iff_eq.mp h)
    have hpoint : ¬(digitChar (units % 10) == '.') = true := by
      intro h
      have hchar := (digitChar_spec hlt).1
      rw [beq_iff_eq.mp h] at hchar
      cases hchar
    rw [fraction, if_neg (Nat.succ_ne_zero places)]
    dsimp only
    rw [lastDigits, ← List.cons_append, ← List.append_assoc,
      List.rdropWhile_concat_neg (· == '0') _ _ hzero,
      List.rdropWhile_concat_neg (· == '.') _ _ hpoint]

/-- Dropping zeros of the fraction leaves the digits before the point as they are. -/
theorem whole_reduce (f : Fixed) : whole { f.reduce with negative := f.negative } = f.whole := by
  obtain ⟨dropped, hplaces, hunits, -⟩ := f.reduce_spec
  rw [whole, whole, hunits, hplaces, pow_add, Nat.mul_div_mul_right _ _ (by positivity)]

theorem short_render (f : Fixed) :
    (if '.' ∈ f.render then (f.render.rdropWhile (· == '0')).rdropWhile (· == '.')
      else f.render) = render { f.reduce with negative := f.negative } := by
  rw [render_eq { f.reduce with negative := f.negative }, whole_reduce, render_eq, fraction]
  split
  · next hplaces =>
      have hreduce : f.reduce.places = 0 := by
        rw [reduce, hplaces, dropZeros]
      rw [List.append_nil, if_neg f.point_not_mem_whole, fraction, if_pos hreduce, List.append_nil]
  · have hpoint : '.' ∈ f.whole ++ '.' :: lastDigits f.places f.units := by simp
    rw [if_pos hpoint, rdropWhile_fraction f.point_not_mem_whole]
    rfl

/-- Trimming the text of a number gives the text of its reduced form. -/
theorem trimmed_render (f : Fixed) : trimmed f.render = f.reduce.render := by
  obtain ⟨-, -, -, hlast⟩ := f.reduce_spec
  have hnegative := f.negative_reduce
  rw [trimmed, short_render]
  generalize f.reduce = g at *
  obtain ⟨negative, units, places⟩ := g
  dsimp only at hlast hnegative ⊢
  split
  · next hminus =>
      obtain ⟨-, rfl, rfl⟩ := of_render_eq_minus_zero hminus
      obtain rfl : negative = false := by simpa using hnegative
      rfl
  · next hminus =>
      have hkept : negative = f.negative := by
        cases hsign : f.negative with
        | false => rw [hnegative, hsign, Bool.false_and]
        | true =>
            rw [hnegative, hsign, Bool.true_and, bne_iff_ne]
            rintro rfl
            obtain rfl : places = 0 := hlast.resolve_right (by simp)
            exact hminus (by rw [hsign]; rfl)
      rw [hkept]

/-! ## The shape of what is left -/

theorem exists_getLast?_render (f : Fixed) :
    ∃ c, f.render.getLast? = some c ∧ c.isDigit = true ∧
      (f.places ≠ 0 → c = digitChar (f.units % 10)) := by
  rw [render_eq, fraction]
  split
  · next hplaces =>
      have hdigits := digits_ne_nil (f.units / 10 ^ f.places)
      refine ⟨_, ?_, isDigit_of_mem_digits (List.getLast_mem hdigits), absurd hplaces⟩
      rw [List.append_nil, whole, List.getLast?_append_of_ne_nil _ hdigits,
        List.getLast?_eq_some_getLast hdigits]
  · next hplaces =>
      obtain ⟨places, heq⟩ := Nat.exists_eq_succ_of_ne_zero hplaces
      refine ⟨_, ?_, (digitChar_spec (Nat.mod_lt f.units (by decide))).1, fun _ => rfl⟩
      rw [heq, Nat.succ_eq_add_one, lastDigits, ← List.cons_append, ← List.append_assoc,
        List.getLast?_concat]

theorem Reduced.canonical_render (hf : f.Reduced) : Canonical f.render := by
  obtain ⟨c, hlast, hdigit, hchar⟩ := f.exists_getLast?_render
  refine ⟨?_, fun hpoint hzero => ?_, fun hminus => ?_⟩
  · rw [hlast]
    rintro ⟨⟩
    cases hdigit
  · have hplaces : f.places ≠ 0 := by
      intro hplaces
      rw [render_eq, fraction, if_pos hplaces, List.append_nil] at hpoint
      exact f.point_not_mem_whole hpoint
    have hlt : f.units % 10 < 10 := Nat.mod_lt f.units (by decide)
    apply digitChar_ne_zero hlt (hf.digit.resolve_left hplaces)
    rw [← hchar hplaces]
    exact Option.some.inj (hlast.symm.trans hzero)
  · obtain ⟨hsign, hunits, -⟩ := of_render_eq_minus_zero hminus
    exact hf.sign hsign hunits

/-- A whole number without places. -/
def ofInt (k : ℤ) : Fixed :=
  ⟨decide (k < 0), k.natAbs, 0⟩

theorem reduced_ofInt (k : ℤ) : (ofInt k).Reduced where
  digit := Or.inl rfl
  sign hk := Int.natAbs_ne_zero.mpr (of_decide_eq_true hk).ne

theorem value_ofInt (k : ℤ) : (ofInt k).value = k := by
  cases k with
  | ofNat n => simp [ofInt, value, signed]
  | negSucc n => simp [ofInt, value, signed, Int.negSucc_lt_zero]

theorem render_ofInt (k : ℤ) : String.ofList (ofInt k).render = toString k := by
  have hrender : (ofInt k).render = (if k < 0 then ['-'] else []) ++ digits k.natAbs := by
    simp [render_eq, whole, fraction, ofInt]
  rw [hrender]
  cases k with
  | ofNat n => exact congrArg String.ofList (List.nil_append _)
  | negSucc n =>
      rw [if_pos (Int.negSucc_lt_zero n), String.ofList_append]
      rfl

/-- The text of a reduced whole number is that of an integer. -/
theorem Reduced.render_eq_toString (hf : f.Reduced) {k : ℤ} (h : f.value = k) :
    String.ofList f.render = toString k := by
  rw [hf.eq_of_value_eq (reduced_ofInt k) (h.trans (value_ofInt k).symm), render_ofInt]

end Fixed

end Decimal

open Decimal

/-- The number that a float is rounded to before it is written. -/
def rounded (places : Nat) (x : Float) : ℚ :=
  (Fixed.ofBinary (.ofFloat x) (min places maxPlaces)).value

/-- The text of a float is its text with a fixed number of places, trimmed. -/
theorem numberText_eq_trimmed (places : Nat) (x : Float) :
    numberText places x =
      String.ofList (trimmed (fixedText (min places maxPlaces) x).toList) := by
  unfold numberText fixedText
  rw [String.toList_ofList]
  split
  · rw [Fixed.trimmed_render]
  · unfold nonFiniteName
    split
    · rfl
    · split <;> rfl

theorem toList_numberText {x : Float} (hx : x.isFinite = true) (places : Nat) :
    (numberText places x).toList =
      (Fixed.ofBinary (.ofFloat x) (min places maxPlaces)).reduce.render := by
  rw [numberText, if_pos hx, String.toList_ofList]

/-- The number of a float rounded to some places is the one nearest to the float, and the text with
these places denotes it.  Trimmed, the text denotes the same number.  It is canonical, whole numbers
are written as integers, and so two floats have the same text exactly if they are rounded to the
same number. -/
theorem numberText_canonical {x : Float} (hx : x.isFinite = true) (places : Nat) :
    (|rounded places x - exactValue x| ≤ 1 / 2 / 10 ^ min places maxPlaces ∧
      denoted? (fixedText (min places maxPlaces) x).toList = some (rounded places x)) ∧
    numberText places x =
      String.ofList (trimmed (fixedText (min places maxPlaces) x).toList) ∧
    denoted? (numberText places x).toList = some (rounded places x) ∧
    Canonical (numberText places x).toList ∧
    (∀ k : ℤ, rounded places x = k → numberText places x = toString k) ∧
    ∀ y : Float, y.isFinite = true → ∀ places',
      (numberText places x = numberText places' y ↔ rounded places x = rounded places' y) := by
  have hdenoted : ∀ {z : Float}, z.isFinite = true → ∀ places,
      denoted? (numberText places z).toList = some (rounded places z) := by
    intro z hz places
    rw [toList_numberText hz, Fixed.denoted?_render, Fixed.value_reduce, rounded]
  refine ⟨⟨?_, ?_⟩, numberText_eq_trimmed places x, hdenoted hx places, ?_, fun k hk => ?_,
    fun y hy places' => ⟨fun htext => ?_, fun hvalue => ?_⟩⟩
  · rw [← Binary.value_ofFloat hx]
    exact (Fixed.ofBinary_nearest _ _).1
  · rw [fixedText, if_pos hx, String.toList_ofList, Fixed.denoted?_render, rounded]
  · rw [toList_numberText hx]
    exact (Fixed.reduced_reduce _).canonical_render
  · rw [numberText, if_pos hx]
    exact (Fixed.reduced_reduce _).render_eq_toString ((Fixed.value_reduce _).trans hk)
  · have hdenotedy := hdenoted hy places'
    rw [← htext, hdenoted hx] at hdenotedy
    exact Option.some.inj hdenotedy
  · have hreduced := (Fixed.reduced_reduce _).eq_of_value_eq (Fixed.reduced_reduce _)
      ((Fixed.value_reduce _).trans (hvalue.trans (Fixed.value_reduce _).symm))
    rw [numberText, numberText, if_pos hx, if_pos hy, hreduced]

/-- Less than a hundred by too little to show. -/
theorem numberText_canonical_hundred :
    (99.996 : Float).isFinite = true ∧ (100 : Float).isFinite = true ∧
      rounded 2 99.996 = (100 : ℤ) ∧ numberText 2 99.996 = toString (100 : ℤ) ∧
      Canonical (numberText 2 99.996).toList ∧
      (numberText 2 99.996 = numberText 0 100 ↔ rounded 2 99.996 = rounded 0 100) := by
  have hx : (99.996 : Float).isFinite = true := by decide
  have hy : (100 : Float).isFinite = true := by decide
  have hfixed : Fixed.ofBinary (.ofFloat 99.996) (min 2 maxPlaces) = ⟨false, 10000, 2⟩ := by
    decide
  have hrounded : rounded 2 99.996 = (100 : ℤ) := by
    rw [rounded, hfixed, Fixed.value, signed]
    norm_num
  obtain ⟨-, -, -, hcanonical, hwhole, hsame⟩ := numberText_canonical hx 2
  exact ⟨hx, hy, hrounded, hwhole 100 hrounded, hcanonical, hsame 100 hy 0⟩

/-- Nothing but a sign is left of a number that is too small to show, and the sign goes as well. -/
example : numberText 2 (-0.0001) = "0" := by decide

end Phrasebook
