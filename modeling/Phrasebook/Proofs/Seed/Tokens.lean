import Mathlib.Data.Char
import Mathlib.Data.List.TakeWhile
import Mathlib.Data.String.Basic
import Mathlib.Order.Fin.Basic
import Mathlib.Tactic.IntervalCases
import Phrasebook.Seed

/-!
# Tokens are read back

A text is a seed if it becomes a token once the blanks around it and the case of its letters are
put aside, and the seed is the one of this token (`parse_eq_ok_iff`).  So each token is its own
normal form (`parse_token`).

The characters of the alphabet stand in counting order, so tokens of one length are in the order of
their digits (`token_lt_iff`).
-/

namespace Phrasebook

/-- A text without blanks is not trimmed. -/
theorem Text.trim_eq_self {cs : List Char} (h : ∀ c ∈ cs, isBlank c = false) : trim cs = cs := by
  have hkeeps : ∀ ds : List Char, (∀ c ∈ ds, isBlank c = false) → ds.dropWhile isBlank = ds := by
    intro ds hds
    rw [List.dropWhile_eq_self_iff]
    intro hne
    rw [hds _ (List.getElem_mem hne)]
    exact Bool.false_ne_true
  have hreversed : ∀ c ∈ cs.reverse, isBlank c = false := fun c hc => h c (List.mem_reverse.mp hc)
  rw [trim, trimStart, trimEnd, hkeeps cs h, hkeeps cs.reverse hreversed, List.reverse_reverse]

namespace Seed

/-! ## Characters -/

theorem isBlank_charOf (d : Fin 36) : Text.isBlank (charOf d) = false := by
  revert d
  decide

theorem toLower_charOf (d : Fin 36) : (charOf d).toLower = charOf d := by
  revert d
  decide

theorem charOf_strictMono : StrictMono charOf :=
  Fin.strictMono_iff_lt_succ.mpr (by decide)

theorem digitOf?_eq_some_iff {c : Char} {d : Fin 36} : digitOf? c = some d ↔ charOf d = c := by
  constructor
  · intro h
    have hc : Char.ofNat c.toNat = c := Char.ofNat_toNat c
    -- Only the characters of the two ranges have an index.
    unfold digitOf? at h
    split at h
    · next hrange =>
        obtain ⟨hlow, hhigh⟩ : 48 ≤ c.toNat ∧ c.toNat ≤ 57 := hrange
        obtain rfl := Option.some.inj h
        generalize c.toNat = n at *
        subst hc
        interval_cases n <;> rfl
    · split at h
      · next hrange =>
          obtain ⟨hlow, hhigh⟩ : 97 ≤ c.toNat ∧ c.toNat ≤ 122 := hrange
          obtain rfl := Option.some.inj h
          generalize c.toNat = n at *
          subst hc
          interval_cases n <;> rfl
      · cases h
  · rintro rfl
    exact digitOf?_charOf d

theorem digitsFrom_eq_ok_iff {position : Nat} {cs : List Char} {ds : List (Fin 36)} :
    digitsFrom position cs = .ok ds ↔ ds.map charOf = cs := by
  induction cs generalizing position ds with
  | nil => cases ds <;> simp [digitsFrom]
  | cons c rest ih =>
      rw [digitsFrom]
      cases hdigit : digitOf? c with
      | none =>
          refine ⟨fun h => (nomatch h), fun h => ?_⟩
          obtain ⟨d, ds', -, hd, -⟩ := List.map_eq_cons_iff.mp h
          rw [digitOf?_eq_some_iff.mpr hd] at hdigit
          cases hdigit
      | some d =>
          have hd : charOf d = c := digitOf?_eq_some_iff.mp hdigit
          dsimp only
          constructor
          · intro h
            cases hrest : digitsFrom (position + 1) rest with
            | error e =>
                rw [hrest] at h
                cases h
            | ok more =>
                rw [hrest] at h
                obtain rfl := Except.ok.inj h
                rw [List.map_cons, hd, ih.mp hrest]
          · intro h
            obtain ⟨d', ds', rfl, hd', hrest⟩ := List.map_eq_cons_iff.mp h
            obtain rfl : d' = d := charOf_strictMono.injective (hd'.trans hd.symm)
            rw [ih.mpr hrest]
            rfl

/-! ## Tokens -/

@[simp] theorem toList_token (s : Seed) : s.token.toList = s.digits.map charOf :=
  String.toList_ofList

@[simp] theorem length_token (s : Seed) : s.token.length = s.digits.length := by
  rw [← String.length_toList, toList_token, List.length_map]

theorem ext_digits {s u : Seed} (h : s.digits = u.digits) : s = u := by
  cases s
  cases u
  subst h
  rfl

theorem token_injective : Function.Injective token := by
  intro s u h
  have hchars : s.digits.map charOf = u.digits.map charOf := by
    rw [← toList_token, ← toList_token, h]
  exact ext_digits (List.map_injective_iff.mpr charOf_strictMono.injective hchars)

/-- A text is read as the seed whose token it is, up to blanks around it and the case of letters. -/
theorem parse_eq_ok_iff {text : String} {s : Seed} :
    parse text = .ok s ↔ s.token.toList = (Text.trim text.toList).map Char.toLower := by
  obtain ⟨digits, hne⟩ := s
  rw [toList_token]
  unfold parse
  generalize (Text.trim text.toList).map Char.toLower = cs
  dsimp only
  by_cases hcs : cs = []
  · subst hcs
    simp [hne]
  · have hread : digitsFrom 0 cs = .ok digits ↔ digits.map charOf = cs := digitsFrom_eq_ok_iff
    rw [if_neg hcs, ← hread]
    cases hdigits : digitsFrom 0 cs with
    | error e => simp
    | ok ds =>
        cases ds with
        | nil => simpa using hne.symm
        | cons d rest => simp

/-- A token is its own normal form. -/
theorem parse_token (s : Seed) : parse s.token = .ok s := by
  have htrim : Text.trim s.token.toList = s.token.toList := by
    refine Text.trim_eq_self fun c hc => ?_
    obtain ⟨d, -, rfl⟩ := List.mem_map.mp (s.toList_token ▸ hc)
    exact isBlank_charOf d
  have hlower : s.token.toList.map Char.toLower = s.token.toList := by
    rw [toList_token, List.map_map]
    exact List.map_congr_left fun d _ => toLower_charOf d
  rw [parse_eq_ok_iff, htrim, hlower]

theorem map_charOf_lt_iff {ds es : List (Fin 36)} : ds.map charOf < es.map charOf ↔ ds < es := by
  induction ds generalizing es with
  | nil => cases es <;> simp
  | cons d rest ih =>
      cases es with
      | nil => simp
      | cons e more =>
          rw [List.map_cons, List.map_cons, List.cons_lt_cons_iff, List.cons_lt_cons_iff, ih,
            charOf_strictMono.lt_iff_lt, charOf_strictMono.injective.eq_iff]

theorem token_lt_iff {s u : Seed} : s.token < u.token ↔ s.digits < u.digits := by
  rw [String.lt_iff_toList_lt, toList_token, toList_token, map_charOf_lt_iff]

end Seed

end Phrasebook
