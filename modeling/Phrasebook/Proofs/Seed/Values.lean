import Mathlib.Algebra.BigOperators.Intervals
import Mathlib.Data.List.Induction
import Mathlib.Tactic.Ring
import Phrasebook.Proofs.Outcome
import Phrasebook.Proofs.Seed.Tokens

/-!
# One token for each number

The digits of a seed and its value determine each other: writing down the value of a list of digits
gives the list (`digitsOf_valueFrom`), and reading the digits of a number gives the number
(`valueFrom_digitsOf`).  Both follow the recursion that takes the last digit off.

The values of the tokens of one length lie next to each other, in the order of the tokens, right
after those of the shorter tokens.  They begin with `leastValue`, which is the value of the token of
zeros; so a length and a bound for the value say the same (`length_le_iff`), and values are compared
as tokens are, by length and then by letters (`value_lt_iff`).

The main statement (`codec_bijective`) puts this together for the values that are given out, and
shows that no number on the way to them needs more than 128 bits.
-/

namespace Phrasebook.Seed

/-! ## Digits and values -/

theorem valueFrom_concat (before : Nat) (ds : List (Fin 36)) (d : Fin 36) :
    valueFrom before (ds ++ [d]) = 36 * valueFrom before ds + (d + 1) := by
  induction ds generalizing before with
  | nil => rfl
  | cons e rest ih => exact ih _

/-- The digits of a number have its value. -/
theorem valueFrom_digitsOf (n : Nat) (after : List (Fin 36)) :
    valueFrom 0 (digitsOf n after) = valueFrom n after := by
  induction n, after using digitsOf.induct with
  | case1 after => simp [digitsOf]
  | case2 n after hn ih =>
      have hdigit : (digit (n - 1)).val = (n - 1) % 36 := rfl
      have hsplit : 36 * ((n - 1) / 36) + ((digit (n - 1)).val + 1) = n := by omega
      rw [digitsOf, if_neg hn, ih, valueFrom, hsplit]

/-- The value of digits is written down with these digits. -/
theorem digitsOf_valueFrom (ds after : List (Fin 36)) :
    digitsOf (valueFrom 0 ds) after = ds ++ after := by
  induction ds using List.reverseRecOn generalizing after with
  | nil => simp [valueFrom, digitsOf]
  | append_singleton ds d ih =>
      have hdiv : (36 * valueFrom 0 ds + (d.val + 1) - 1) / 36 = valueFrom 0 ds := by omega
      have hmod : digit (36 * valueFrom 0 ds + (d.val + 1) - 1) = d := by
        apply Fin.ext
        change (36 * valueFrom 0 ds + (d.val + 1) - 1) % 36 = d.val
        omega
      rw [valueFrom_concat, digitsOf, if_neg (by omega), hdiv, hmod, ih, List.append_assoc,
        List.singleton_append]

theorem value_pos (s : Seed) : 0 < s.value := by
  have hdigits := digitsOf_valueFrom s.digits []
  rw [List.append_nil] at hdigits
  refine Nat.pos_of_ne_zero fun hzero => s.ne_nil ?_
  rw [← hdigits]
  change digitsOf s.value [] = []
  rw [hzero, digitsOf, if_pos rfl]

theorem encode_eq_ok_iff {n : Nat} {s : Seed} : encode n = .ok s ↔ s.value = n := by
  have hdigits : digitsOf n [] = s.digits ↔ s.value = n := by
    constructor
    · intro h
      rw [value, ← h, valueFrom_digitsOf]
      rfl
    · rintro rfl
      rw [value, digitsOf_valueFrom, List.append_nil]
  rw [← hdigits]
  unfold encode
  obtain ⟨digits, hne⟩ := s
  cases digitsOf n [] with
  | nil => simpa using hne.symm
  | cons d rest => simp

theorem encode_value (s : Seed) : encode s.value = .ok s :=
  encode_eq_ok_iff.mpr rfl

theorem value_injective : Function.Injective value := by
  intro s u h
  have hencode : encode s.value = .ok u := h ▸ encode_value u
  exact Except.ok.inj ((encode_value s).symm.trans hencode)

/-- Each positive number is the value of a seed. -/
theorem exists_value_eq {n : Nat} (hn : 0 < n) : ∃ s : Seed, s.value = n := by
  cases hencode : encode n with
  | ok s => exact ⟨s, encode_eq_ok_iff.mp hencode⟩
  | error e =>
      have hvalue : valueFrom 0 (digitsOf n []) = n := valueFrom_digitsOf n []
      unfold encode at hencode
      cases hdigits : digitsOf n [] with
      | nil =>
          rw [hdigits] at hvalue
          exact absurd hvalue hn.ne
      | cons d rest =>
          rw [hdigits] at hencode
          cases hencode

/-! ## Lengths -/

/-- The value of the token of so many zeros. -/
def leastValue : Nat → Nat
  | 0 => 0
  | length + 1 => 36 * leastValue length + 1

theorem leastValue_mono : Monotone leastValue := by
  refine monotone_nat_of_le_succ fun length => ?_
  rw [leastValue]
  omega

theorem leastValue_succ (length : Nat) :
    leastValue (length + 1) = leastValue length + 36 ^ length := by
  induction length with
  | zero => rfl
  | succ length ih =>
      calc leastValue (length + 1 + 1)
          = 36 * (leastValue length + 36 ^ length) + 1 := by rw [leastValue, ih]
        _ = leastValue (length + 1) + 36 ^ (length + 1) := by rw [leastValue, pow_succ]; ring

/-- How many tokens of up to so many characters there are. -/
def tokenCount (length : Nat) : Nat :=
  ∑ k ∈ Finset.Icc 1 length, 36 ^ k

/-- The tokens of up to a length have as many values as there are such tokens. -/
theorem tokenCount_add_one (length : Nat) : tokenCount length + 1 = leastValue (length + 1) := by
  induction length with
  | zero => rfl
  | succ length ih =>
      calc tokenCount (length + 1) + 1
          = (tokenCount length + 1) + 36 ^ (length + 1) := by
            rw [tokenCount, tokenCount, Finset.sum_Icc_succ_top (by omega)]
            ring
        _ = leastValue (length + 1 + 1) := by rw [ih, ← leastValue_succ]

theorem leastValue_le (ds : List (Fin 36)) : leastValue ds.length ≤ valueFrom 0 ds := by
  induction ds using List.reverseRecOn with
  | nil => exact Nat.le_refl 0
  | append_singleton ds d ih =>
      rw [valueFrom_concat, List.length_append, List.length_singleton, leastValue]
      omega

theorem lt_leastValue (ds : List (Fin 36)) : valueFrom 0 ds < leastValue (ds.length + 1) := by
  induction ds using List.reverseRecOn with
  | nil => exact Nat.zero_lt_one
  | append_singleton ds d ih =>
      rw [valueFrom_concat, List.length_append, List.length_singleton, leastValue]
      omega

theorem length_le_iff {s : Seed} {length : Nat} :
    s.digits.length ≤ length ↔ s.value < leastValue (length + 1) := by
  constructor
  · intro h
    exact (lt_leastValue s.digits).trans_le (leastValue_mono (Nat.succ_le_succ h))
  · intro h
    by_contra hlonger
    have hle : leastValue (length + 1) ≤ s.value :=
      (leastValue_mono (Nat.succ_le_of_lt (not_le.mp hlonger))).trans (leastValue_le s.digits)
    exact absurd h (not_lt.mpr hle)

/-- On the way to the value of a token that is not too long, no step leaves 128 bits. -/
theorem step_lt_of_length_le {before after : List (Fin 36)} {d : Fin 36}
    (h : (before ++ d :: after).length ≤ maxDecodeLength) :
    36 * valueFrom 0 before + (d.val + 1) < 2 ^ 128 := by
  have hlength : (before ++ [d]).length + 1 ≤ maxDecodeLength + 1 := by
    rw [List.length_append, List.length_cons] at h
    rw [List.length_append, List.length_singleton]
    omega
  calc 36 * valueFrom 0 before + (d.val + 1)
      = valueFrom 0 (before ++ [d]) := (valueFrom_concat 0 before d).symm
    _ < leastValue ((before ++ [d]).length + 1) := lt_leastValue _
    _ ≤ leastValue (maxDecodeLength + 1) := leastValue_mono hlength
    _ < 2 ^ 128 := by decide

/-! ## Order -/

/-- Digits of one length are in the order of their values. -/
theorem valueFrom_lt_iff {ds es : List (Fin 36)} (h : ds.length = es.length)
    {before before' : Nat} :
    valueFrom before ds < valueFrom before' es ↔
      before < before' ∨ before = before' ∧ ds < es := by
  induction ds generalizing es before before' with
  | nil =>
      obtain rfl : es = [] := List.length_eq_zero_iff.mp h.symm
      simp [valueFrom]
  | cons d rest ih =>
      cases es with
      | nil => cases h
      | cons e more =>
          have hlead : 36 * before + (d.val + 1) < 36 * before' + (e.val + 1) ↔
              before < before' ∨ before = before' ∧ d < e := by
            rw [Fin.lt_def]
            omega
          have hequal : 36 * before + (d.val + 1) = 36 * before' + (e.val + 1) ↔
              before = before' ∧ d = e := by
            rw [Fin.ext_iff]
            omega
          rw [valueFrom, valueFrom, ih (Nat.succ.inj h), List.cons_lt_cons_iff, hlead, hequal]
          tauto

/-- Values are compared as tokens are: a shorter one comes first, and of one length the one that
comes first in the alphabet. -/
theorem value_lt_iff {s u : Seed} :
    s.value < u.value ↔
      s.token.length < u.token.length ∨
        s.token.length = u.token.length ∧ s.token < u.token := by
  rw [token_lt_iff, length_token, length_token]
  rcases lt_trichotomy s.digits.length u.digits.length with hlt | heq | hgt
  · have hvalue : s.value < u.value :=
      (length_le_iff.mp (Nat.le_refl s.digits.length)).trans_le
        ((leastValue_mono hlt).trans (leastValue_le u.digits))
    simp [hlt, hvalue]
  · rw [value, value, valueFrom_lt_iff heq]
    simp [heq]
  · have hvalue : u.value < s.value :=
      (length_le_iff.mp (Nat.le_refl u.digits.length)).trans_le
        ((leastValue_mono hgt).trans (leastValue_le s.digits))
    simp [hgt.not_gt, hgt.ne', hvalue.not_gt]

/-! ## The main statement -/

theorem decode_eq_ok_iff {s : Seed} {n : Nat} :
    decode s = .ok n ↔ s.token.length ≤ maxDecodeLength ∧ s.value = n := by
  rw [length_token, decode]
  split
  · next hlong => simp [hlong]
  · next hshort => simp [not_lt.mp hshort]

/-- Each number up to the number of tokens of up to 24 characters is written as one of them, whose
value it is; the value of each of them lies there, is found without leaving 128 bits, and is written
as the token; and each greater number of 128 bits is written as a token of 25 characters, which is
refused as too long.  Values have the order of the tokens. -/
theorem codec_bijective :
    (∀ n, 1 ≤ n → n ≤ tokenCount 24 → ∃ s, encode n = .ok s ∧ s.token.length ≤ 24 ∧
      parse s.token = .ok s ∧ (parse s.token).bind decode = .ok n) ∧
    (∀ text s, parse text = .ok s → s.token.length ≤ 24 →
      ∃ n, (parse text).bind decode = .ok n ∧ 1 ≤ n ∧ n ≤ tokenCount 24 ∧ encode n = .ok s ∧
        ∀ before d after, s.digits = before ++ d :: after →
          36 * valueFrom 0 before + (d.val + 1) < 2 ^ 128) ∧
    (∀ n, tokenCount 24 < n → n < 2 ^ 128 → ∃ s, encode n = .ok s ∧ s.token.length = 25 ∧
      parse s.token = .ok s ∧ (parse s.token).bind decode = .error (.tooLong s.token)) ∧
    ∀ s u m n, decode s = .ok m → decode u = .ok n →
      (m < n ↔ s.token.length < u.token.length ∨
        s.token.length = u.token.length ∧ s.token < u.token) ∧
      (s = u ↔ m = n) := by
  have hshort : ∀ s : Seed, s.token.length ≤ 24 ↔ s.value ≤ tokenCount 24 := by
    intro s
    rw [length_token, length_le_iff, ← tokenCount_add_one, Nat.lt_succ_iff]
  refine ⟨fun n hn hle => ?_, fun text s hparse hlength => ?_, fun n hlarge hword => ?_,
    fun s u m n hm hn => ?_⟩
  · obtain ⟨s, rfl⟩ := exists_value_eq hn
    have hlength := (hshort s).mpr hle
    refine ⟨s, encode_value s, hlength, parse_token s, ?_⟩
    rw [parse_token]
    exact decode_eq_ok_iff.mpr ⟨hlength, rfl⟩
  · refine ⟨s.value, ?_, s.value_pos, (hshort s).mp hlength, encode_value s, ?_⟩
    · rw [hparse]
      exact decode_eq_ok_iff.mpr ⟨hlength, rfl⟩
    · intro before d after hdigits
      rw [length_token, hdigits] at hlength
      exact step_lt_of_length_le hlength
  · obtain ⟨s, rfl⟩ := exists_value_eq ((Nat.zero_le (tokenCount 24)).trans_lt hlarge)
    have hlong : ¬ s.token.length ≤ 24 := fun h => absurd ((hshort s).mp h) (not_le.mpr hlarge)
    have hnext : s.token.length ≤ 25 := by
      rw [length_token, length_le_iff]
      exact hword.trans (by decide)
    refine ⟨s, encode_value s, by omega, parse_token s, ?_⟩
    rw [parse_token]
    change decode s = _
    rw [decode, if_pos (by rw [← length_token]; exact not_le.mp hlong)]
  · obtain ⟨-, rfl⟩ := decode_eq_ok_iff.mp hm
    obtain ⟨-, rfl⟩ := decode_eq_ok_iff.mp hn
    exact ⟨value_lt_iff, value_injective.eq_iff.symm⟩

/-- The last token of two characters and the first one that is too long. -/
theorem codec_bijective_edges :
    let zz : Seed := ⟨[35, 35], by simp⟩
    let next := tokenCount 24 + 1
    parse " Zz\n" = .ok zz ∧ zz.token.length ≤ 24 ∧
      (∃ n, (parse " Zz\n").bind decode = .ok n ∧ 1 ≤ n ∧ n ≤ tokenCount 24 ∧
        encode n = .ok zz) ∧
      next < 2 ^ 128 ∧
      ∃ s, encode next = .ok s ∧ s.token.length = 25 ∧ decode s = .error (.tooLong s.token) := by
  intro zz next
  have hparse : parse " Zz\n" = .ok zz := parse_eq_ok_iff.mpr (by decide)
  have hlength : zz.token.length ≤ 24 := by decide
  have hword : next < 2 ^ 128 := by
    change tokenCount 24 + 1 < 2 ^ 128
    rw [tokenCount_add_one]
    decide
  obtain ⟨-, htexts, hlarge, -⟩ := codec_bijective
  obtain ⟨n, hdecode, hpos, hle, hencode, -⟩ := htexts " Zz\n" zz hparse hlength
  obtain ⟨s, hs, hlong, hread, hrefused⟩ := hlarge next (Nat.lt_succ_self _) hword
  rw [hread] at hrefused
  exact ⟨hparse, hlength, ⟨n, hdecode, hpos, hle, hencode⟩, hword, s, hs, hlong, hrefused⟩

end Phrasebook.Seed
