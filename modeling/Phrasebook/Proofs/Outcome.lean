import Mathlib.Data.List.Forall2
import Phrasebook.Expansion.Run

/-!
# Taking successes apart

Readers and expansions are sequences of steps that may fail.  A sequence succeeds
exactly when each of its steps does; here this is said once for `Except`, for a
step on each member of a list, and for runs.
-/

namespace Phrasebook

section Except

variable {ε α β : Type}

theorem Except.map_eq_ok_iff {x : Except ε α} {f : α → β} {b : β} :
    x.map f = .ok b ↔ ∃ a, x = .ok a ∧ f a = b := by
  cases x <;> simp [Except.map]

theorem Except.map_eq_error_iff {x : Except ε α} {f : α → β} {e : ε} :
    x.map f = .error e ↔ x = .error e := by
  cases x <;> simp [Except.map]

theorem Except.bind_eq_ok_iff {x : Except ε α} {f : α → Except ε β} {b : β} :
    x.bind f = .ok b ↔ ∃ a, x = .ok a ∧ f a = .ok b := by
  cases x <;> simp [Except.bind]

theorem Except.mapError_eq_ok_iff {ε' : Type} {x : Except ε α} {f : ε → ε'} {a : α} :
    x.mapError f = .ok a ↔ x = .ok a := by
  cases x <;> simp [Except.mapError]

/-- A step on each member of a list succeeds when it succeeds on each. -/
theorem Except.mapM_eq_ok_iff {f : α → Except ε β} {as : List α} {bs : List β} :
    as.mapM f = .ok bs ↔ List.Forall₂ (fun a b => f a = .ok b) as bs := by
  induction as generalizing bs with
  | nil =>
      rw [List.mapM_nil, List.forall₂_nil_left_iff]
      exact ⟨fun h => (Except.ok.inj h).symm, fun h => h ▸ rfl⟩
  | cons a as ih =>
      rw [List.mapM_cons, List.forall₂_cons_left_iff]
      constructor
      · intro h
        obtain ⟨b, hb, hrest⟩ := Except.bind_eq_ok_iff.mp h
        obtain ⟨bs', hbs', hnil⟩ := Except.bind_eq_ok_iff.mp hrest
        exact ⟨b, bs', hb, ih.mp hbs', (Except.ok.inj hnil).symm⟩
      · rintro ⟨b, bs', hb, hbs', rfl⟩
        refine Except.bind_eq_ok_iff.mpr ⟨b, hb, ?_⟩
        exact Except.bind_eq_ok_iff.mpr ⟨bs', ih.mpr hbs', rfl⟩

/-- Each value comes from a member of the list. -/
theorem Except.exists_of_mem_mapM {f : α → Except ε β} {as : List α} {bs : List β}
    (h : as.mapM f = .ok bs) {b : β} (hb : b ∈ bs) : ∃ a ∈ as, f a = .ok b := by
  have hsteps := Except.mapM_eq_ok_iff.mp h
  induction hsteps with
  | nil => cases hb
  | @cons a b' rest rest' hfirst hrest ih =>
      rcases List.mem_cons.mp hb with rfl | hb
      · exact ⟨a, List.mem_cons_self, hfirst⟩
      · obtain ⟨a', ha', hvalue⟩ := ih (Except.mapM_eq_ok_iff.mpr hrest) hb
        exact ⟨a', List.mem_cons_of_mem a ha', hvalue⟩

/-- A step on each member of a list fails at the first member on which it does. -/
theorem Except.mapM_cons_eq_error_iff {f : α → Except ε β} {a : α} {as : List α} {e : ε} :
    (a :: as).mapM f = .error e ↔
      f a = .error e ∨ ∃ b, f a = .ok b ∧ as.mapM f = .error e := by
  rw [List.mapM_cons]
  cases f a with
  | error e' => simp [bind, Except.bind]
  | ok b => cases as.mapM f <;> simp [bind, Except.bind, pure, Except.pure]

/-- A failure is that of a member of the list. -/
theorem Except.exists_of_mapM_eq_error {f : α → Except ε β} {as : List α} {e : ε}
    (h : as.mapM f = .error e) : ∃ a ∈ as, f a = .error e := by
  induction as with
  | nil => cases h
  | cons a as ih =>
      rcases Except.mapM_cons_eq_error_iff.mp h with hfirst | ⟨b, -, hrest⟩
      · exact ⟨a, List.mem_cons_self, hfirst⟩
      · obtain ⟨a', ha', he⟩ := ih hrest
        exact ⟨a', List.mem_cons_of_mem a ha', he⟩

/-- A success is known by its value. -/
theorem Except.eq_ok_getD {x : Except ε α} (h : x.toOption.isSome = true) (default : α) :
    x = .ok (x.toOption.getD default) := by
  cases x with
  | error e => cases h
  | ok a => rfl

/-- The error of a failure. -/
def Except.error? : Except ε α → Option ε
  | .error e => some e
  | .ok _ => none

theorem Except.eq_error_of_error? {x : Except ε α} {e : ε} (h : Except.error? x = some e) :
    x = .error e := by
  cases x with
  | error e' => exact congrArg _ (Option.some.inj h)
  | ok a => cases h

/-- What is known of how a step ends: `E` of a failure and `P` of a value. -/
def Ends (E : ε → Prop) (P : α → Prop) : Except ε α → Prop
  | .error e => E e
  | .ok a => P a

variable {E : ε → Prop} {P : α → Prop} {Q : β → Prop}

theorem Ends.bind {x : Except ε α} {f : α → Except ε β} (hx : Ends E P x)
    (hf : ∀ a, P a → Ends E Q (f a)) : Ends E Q (x.bind f) := by
  cases x with
  | error e => exact hx
  | ok a => exact hf a hx

theorem Ends.map {x : Except ε α} {f : α → β} (hx : Ends E P x) (hf : ∀ a, P a → Q (f a)) :
    Ends E Q (x.map f) := by
  cases x with
  | error e => exact hx
  | ok a => exact hf a hx

/-- A step on each member of a list ends as one of these steps does. -/
theorem ends_mapM {f : α → Except ε β} {as : List α} (h : ∀ a ∈ as, Ends E Q (f a)) :
    Ends E (fun bs => ∀ b ∈ bs, Q b) (as.mapM f) := by
  cases hsteps : as.mapM f with
  | error e =>
      obtain ⟨a, ha, he⟩ := Except.exists_of_mapM_eq_error hsteps
      have hend := h a ha
      rwa [he] at hend
  | ok bs =>
      intro b hb
      obtain ⟨a, ha, hvalue⟩ := Except.exists_of_mem_mapM hsteps hb
      have hend := h a ha
      rwa [hvalue] at hend

end Except

namespace Run

variable {α β : Type}

theorem result_bind_eq_ok_iff {x : Run α} {f : α → Run β} {b : β} :
    (x.bind f).result = .ok b ↔ ∃ a, x.result = .ok a ∧ (f a).result = .ok b := by
  unfold bind
  cases x.result <;> simp

theorem result_map_eq_ok_iff {x : Run α} {f : α → β} {b : β} :
    (x.map f).result = .ok b ↔ ∃ a, x.result = .ok a ∧ f a = b :=
  Except.map_eq_ok_iff

theorem result_bind_eq_error_iff {x : Run α} {f : α → Run β} {e : ExpandError} :
    (x.bind f).result = .error e ↔
      x.result = .error e ∨ ∃ a, x.result = .ok a ∧ (f a).result = .error e := by
  unfold bind
  cases x.result <;> simp

theorem result_map_eq_error_iff {x : Run α} {f : α → β} {e : ExpandError} :
    (x.map f).result = .error e ↔ x.result = .error e := by
  unfold map
  cases x.result <;> simp [Except.map]

theorem map_id (x : Run α) : x.map id = x := by
  simp [map]

end Run

end Phrasebook
