import Mathlib.Data.Nat.Digits.Defs
import Phrasebook.Proofs.Seed.Values

/-!
# Steps count by one

Both steps work on digits, so they count tokens of any length: a run of last digits turns over and
carries to the digit before it, or past the first digit, where the token becomes longer or shorter.
`value_countUp` and `value_countDown` follow that run; the value of the token, read as a numeral in
base 36 with digits from 1 to 36, changes by exactly one.

As a value has one token only, each step undoes the other, and only the first token has nothing
before it.  A walk of many steps is at the value that its start, its steps forth and its successful
steps back add up to (`value_walk`).
-/

namespace Phrasebook.Seed

/-- The digits as numbers from 1 to 36, in writing order. -/
def numbers (s : Seed) : List Nat :=
  s.digits.map fun d => d.val + 1

theorem value_eq_ofDigits (s : Seed) : s.value = Nat.ofDigits 36 s.numbers.reverse := by
  have hdigits : ∀ ds : List (Fin 36),
      valueFrom 0 ds = Nat.ofDigits 36 (ds.map fun d => d.val + 1).reverse := by
    intro ds
    induction ds using List.reverseRecOn with
    | nil => rfl
    | append_singleton ds d ih =>
        rw [valueFrom_concat, ih, List.map_append, List.reverse_append, List.map_singleton,
          List.reverse_singleton, List.singleton_append, Nat.ofDigits_cons]
        exact Nat.add_comm _ _
  exact hdigits s.digits

theorem mem_numbers {s : Seed} {n : Nat} (h : n ∈ s.numbers) : 1 ≤ n ∧ n ≤ 36 := by
  obtain ⟨d, -, rfl⟩ := List.mem_map.mp h
  omega

/-! ## Counting up -/

/-- The digits are those of a token from its end. -/
theorem value_countUp (ds : List (Fin 36)) :
    valueFrom 0 (countUp ds).reverse = valueFrom 0 ds.reverse + 1 := by
  induction ds with
  | nil => rfl
  | cons d rest ih =>
      rw [countUp, List.reverse_cons, valueFrom_concat]
      split
      · next hlast =>
          -- The last digit turns over, and the carry counts for 36.
          subst hlast
          rw [List.reverse_cons, valueFrom_concat, ih]
          change 36 * (valueFrom 0 rest.reverse + 1) + (0 + 1) =
            36 * valueFrom 0 rest.reverse + (35 + 1) + 1
          omega
      · next hmore =>
          have hraised : (d + 1).val = d.val + 1 := Fin.val_add_one_of_lt' (by omega)
          rw [List.reverse_cons, valueFrom_concat, hraised]
          omega

theorem value_next (s : Seed) : s.next.value = s.value + 1 := by
  have h := value_countUp s.digits.reverse
  rwa [List.reverse_reverse] at h

/-! ## Counting down -/

theorem val_sub_one {d : Fin 36} (h : d ≠ 0) : (d - 1).val + 1 = d.val := by
  rw [Fin.val_sub_one_of_ne_zero h]
  exact Nat.sub_add_cancel (Nat.pos_of_ne_zero fun hzero => h (Fin.ext hzero))

/-- The digits are those of a token from its end; those of the first token leave none. -/
theorem value_countDown {ds : List (Fin 36)} (h : ds ≠ []) :
    valueFrom 0 (countDown ds).reverse + 1 = valueFrom 0 ds.reverse := by
  induction ds using countDown.induct with
  | case1 => exact absurd rfl h
  | case2 => rfl
  | case3 d hpos =>
      have hvalue := val_sub_one hpos
      rw [countDown, if_neg hpos, List.reverse_singleton, List.reverse_singleton, valueFrom,
        valueFrom, valueFrom, valueFrom]
      omega
  | case4 rest hrest ih =>
      -- The last digit turns over, and what is borrowed counts for 36.
      have hborrowed := ih hrest
      rw [countDown.eq_3 0 rest hrest, if_pos rfl, List.reverse_cons, List.reverse_cons,
        valueFrom_concat, valueFrom_concat, ← hborrowed]
      change 36 * valueFrom 0 (countDown rest).reverse + (35 + 1) + 1 =
        36 * (valueFrom 0 (countDown rest).reverse + 1) + (0 + 1)
      omega
  | case5 d rest hrest hpos =>
      have hvalue := val_sub_one hpos
      rw [countDown.eq_3 d rest hrest, if_neg hpos, List.reverse_cons, List.reverse_cons,
        valueFrom_concat, valueFrom_concat]
      omega

theorem prev_eq_ok_iff {s u : Seed} : s.prev = .ok u ↔ u.value + 1 = s.value := by
  have hreverse : s.digits.reverse ≠ [] := by simpa using s.ne_nil
  have hdown := value_countDown hreverse
  rw [List.reverse_reverse] at hdown
  change _ = s.value at hdown
  unfold prev
  generalize (countDown s.digits.reverse).reverse = ds at hdown
  cases ds with
  | nil =>
      refine ⟨fun h => (nomatch h), fun h => ?_⟩
      have hpos : 0 < u.value := u.value_pos
      have hone : 0 + 1 = s.value := hdown
      omega
  | cons d rest =>
      constructor
      · intro h
        obtain rfl := Except.ok.inj h
        exact hdown
      · intro h
        have hvalue : u.value = value ⟨d :: rest, List.cons_ne_nil d rest⟩ :=
          Nat.succ.inj (h.trans hdown.symm)
        rw [value_injective hvalue]

/-! ## The first token -/

/-- The first token in counting order. -/
def first : Seed := ⟨[digit 0], List.cons_ne_nil (digit 0) []⟩

theorem token_eq_zero_iff {s : Seed} : s.token = "0" ↔ s.value = 1 := by
  have htoken : first.token = "0" := rfl
  have hvalue : first.value = 1 := rfl
  rw [← htoken, ← hvalue, token_injective.eq_iff, value_injective.eq_iff]

theorem prev_first : first.prev = .error (.noPredecessor "0") := rfl

theorem exists_prev {s : Seed} (h : s.token ≠ "0") : ∃ u, s.prev = .ok u := by
  have hpos : 0 < s.value := s.value_pos
  have hne : s.value ≠ 1 := fun hone => h (token_eq_zero_iff.mpr hone)
  obtain ⟨u, hu⟩ := exists_value_eq (n := s.value - 1) (by omega)
  exact ⟨u, prev_eq_ok_iff.mpr (by omega)⟩

theorem prev_of_token_eq_zero {s : Seed} (h : s.token = "0") :
    s.prev = .error (.noPredecessor "0") := by
  obtain rfl : s = first := token_injective h
  exact prev_first

/-! ## Walks -/

/-- One step of a walk. -/
inductive Move where
  | next
  | prev
  deriving DecidableEq

/-- Where a walk leads; a step back that fails leaves the seed as it is. -/
def walk (s : Seed) : List Move → Seed
  | [] => s
  | .next :: rest => walk s.next rest
  | .prev :: rest =>
    match s.prev with
    | .ok u => walk u rest
    | .error _ => walk s rest

/-- How many steps back of a walk succeed. -/
def movesBack (s : Seed) : List Move → Nat
  | [] => 0
  | .next :: rest => movesBack s.next rest
  | .prev :: rest =>
    match s.prev with
    | .ok u => movesBack u rest + 1
    | .error _ => movesBack s rest

theorem value_walk (s : Seed) (moves : List Move) :
    (s.walk moves).value + s.movesBack moves = s.value + moves.count .next := by
  induction moves generalizing s with
  | nil => rfl
  | cons m rest ih =>
      cases m with
      | next =>
          have hrest := ih s.next
          rw [value_next] at hrest
          rw [walk, movesBack, List.count_cons_self]
          omega
      | prev =>
          rw [walk, movesBack, List.count_cons_of_ne (by decide)]
          cases hprev : s.prev with
          | ok u =>
              have hrest := ih u
              have hvalue := prev_eq_ok_iff.mp hprev
              dsimp only
              omega
          | error e => exact ih s

/-! ## The main statement -/

/-- For a text that is read as a seed, of any length: a step forth leads to the token whose value is
one more; a step back fails for the token `0` alone, and else leads to the token whose value is one
less.  Each step undoes the other, and a walk leads to the value that its steps add up to.  A value
has one token only, and all digits are from 1 to 36. -/
theorem stepping_exact {text : String} {s : Seed} (h : parse text = .ok s) :
    let V := fun u : Seed => Nat.ofDigits 36 u.numbers.reverse
    (∀ u u', V u = V u' ↔ u = u') ∧
    (∃ u, (parse text).map next = .ok u ∧ parse u.token = .ok u ∧ V u = V s + 1) ∧
    ((∃ e, (parse text).bind prev = .error e) ↔ s.token = "0") ∧
    (s.token = "0" → (parse text).bind prev = .error (.noPredecessor "0")) ∧
    (s.token ≠ "0" →
      ∃ u, (parse text).bind prev = .ok u ∧ parse u.token = .ok u ∧ V u + 1 = V s) ∧
    (s.next.prev = .ok s ∧ ∀ u, s.prev = .ok u → u.next = s) ∧
    (∀ moves, V (s.walk moves) + s.movesBack moves = V s + moves.count .next) ∧
    ∀ moves, parse (s.walk moves).token = .ok (s.walk moves) ∧
      ∀ n ∈ (s.walk moves).numbers, 1 ≤ n ∧ n ≤ 36 := by
  intro V
  have hV : V = value := funext fun u => u.value_eq_ofDigits.symm
  have hnext : (parse text).map next = .ok s.next := by rw [h]; rfl
  have hprev : (parse text).bind prev = s.prev := by rw [h]; rfl
  rw [hV, hnext, hprev]
  refine ⟨fun u u' => value_injective.eq_iff, ⟨s.next, rfl, parse_token _, s.value_next⟩,
    ⟨fun ⟨e, he⟩ => ?_, fun hzero => ⟨_, prev_of_token_eq_zero hzero⟩⟩, prev_of_token_eq_zero,
    fun hne => ?_, ⟨prev_eq_ok_iff.mpr s.value_next.symm, fun u hu => ?_⟩, s.value_walk,
    fun moves => ⟨parse_token _, fun n hn => mem_numbers hn⟩⟩
  · by_contra hne
    obtain ⟨u, hu⟩ := exists_prev hne
    cases he.symm.trans hu
  · obtain ⟨u, hu⟩ := exists_prev hne
    exact ⟨u, hu, parse_token u, prev_eq_ok_iff.mp hu⟩
  · exact value_injective (u.value_next.trans (prev_eq_ok_iff.mp hu))

/-- Both digits turn over, and more steps back than forth end before the start. -/
theorem stepping_exact_turn :
    let zz : Seed := ⟨[35, 35], by simp⟩
    let V := fun u : Seed => Nat.ofDigits 36 u.numbers.reverse
    let moves : List Move := [.next, .next, .prev, .prev, .prev]
    parse " Zz\n" = .ok zz ∧ zz.next.token = "000" ∧ zz.next.prev = .ok zz ∧ zz.token ≠ "0" ∧
      (∃ u, (parse " Zz\n").bind prev = .ok u ∧ parse u.token = .ok u ∧ V u + 1 = V zz) ∧
      V (zz.walk moves) + zz.movesBack moves = V zz + moves.count .next := by
  intro zz V moves
  have hparse : parse " Zz\n" = .ok zz := parse_eq_ok_iff.mpr (by decide)
  have hne : zz.token ≠ "0" := by decide
  obtain ⟨-, -, -, -, hprev, ⟨hundo, -⟩, hwalk, -⟩ := stepping_exact hparse
  exact ⟨hparse, rfl, hundo, hne, hprev hne, hwalk moves⟩

end Phrasebook.Seed
