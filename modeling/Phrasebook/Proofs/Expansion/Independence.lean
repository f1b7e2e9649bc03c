import Phrasebook.Proofs.Expansion.Parallel

/-!
# Text and time have no part in choices

What an expansion chooses depends on the weights, the references and their places,
and the names that are bound.  It does not depend on literal texts, on the values
of arguments, or on the time (`Book.choices_independent_of_text_and_time`).  An
animated reference may refuse a value that another run accepts, so one run can
stop early; up to there it made the same choices.  Two frames of one book differ
only in text that was computed from the time.
-/

namespace Phrasebook

/-- The choices of a run, in order: the path to the stream that each was drawn from,
the rule, and the alternative. -/
def Run.choices {α : Type} (x : Run α) : List (Path × String × Nat) :=
  x.visits.filterMap fun v => v.chosen.map fun i => (v.path, v.rule, i)

namespace Run.Parallel

variable {α β : Type} {R : α → β → Prop} {x : Run α} {y : Run β}

theorem symm (h : Parallel R x y) : Parallel (fun b a => R a b) y x := by
  unfold Parallel at *
  cases hx : x.result <;> cases hy : y.result <;> simp_all [or_comm]

theorem choices_eq (h : Parallel R x y) {a : α} {b : β} (hx : x.result = .ok a)
    (hy : y.result = .ok b) : x.choices = y.choices ∧ R a b := by
  obtain ⟨hvisits, hrel⟩ : x.visits = y.visits ∧ R a b := by simpa [Parallel, hx, hy] using h
  exact ⟨by rw [choices, hvisits, choices], hrel⟩

/-- The choices of the run that fails come first in the other one's. -/
theorem choices_prefix_of_error (h : Parallel R x y) {e : ExpandError} {b : β}
    (hx : x.result = .error e) (hy : y.result = .ok b) : x.choices <+: y.choices := by
  have hvisits : x.visits <+: y.visits := by simpa [Parallel, hx, hy] using h
  exact hvisits.filterMap _

theorem choices_prefix (h : Parallel R x y) :
    x.choices <+: y.choices ∨ y.choices <+: x.choices := by
  cases hx : x.result with
  | ok a =>
      cases hy : y.result with
      | ok b => exact Or.inl ((h.choices_eq hx hy).1 ▸ List.prefix_refl _)
      | error e => exact Or.inr (h.symm.choices_prefix_of_error hy hx)
  | error e =>
      cases hy : y.result with
      | ok b => exact Or.inl (h.choices_prefix_of_error hx hy)
      | error e' =>
          have hvisits : x.visits <+: y.visits ∨ y.visits <+: x.visits := by
            simpa [Parallel, hx, hy] using h
          exact hvisits.imp (fun hle => hle.filterMap _) (fun hle => hle.filterMap _)

end Run.Parallel

/-- The references of a template whose first segment has a given index, with the
indices of their segments. -/
def Template.slotsFrom : Nat → Template → List (Nat × Reference)
  | _, [] => []
  | i, .literal _ :: rest => slotsFrom (i + 1) rest
  | i, .reference r :: rest => (i, r) :: slotsFrom (i + 1) rest

/-- The references of a template with the indices of their segments. -/
def Template.slots (t : Template) : List (Nat × Reference) :=
  slotsFrom 0 t

/-- Two rules with the same weights and the same references at the same places. -/
structure Rule.SameShape (r r' : Rule) : Prop where
  weights : r.weights = r'.weights
  slots : r.alternatives.map (Template.slots ·.template) =
    r'.alternatives.map (Template.slots ·.template)

/-- Two books whose rules have the same names and differ in literal texts only. -/
def Book.SameShape (b b' : Book) : Prop :=
  ∀ name, Option.Rel Rule.SameShape (b.rule? name) (b'.rule? name)

/-! ## Templates with the same slots -/

/-- Passages about which nothing is said. -/
def Passage.Any (_ _ : Passage) : Prop := True

theorem Passage.Any.congruence : Passage.Congruence Passage.Any :=
  ⟨trivial, fun _ _ => trivial, fun _ => trivial, fun _ _ => trivial⟩

private theorem alike_of_slotsFrom_nil {t' : Template} :
    ∀ (i j : Nat), [] = Template.slotsFrom j t' → Template.Alike Passage.Any i [] j t' := by
  induction t' with
  | nil => intro i j _; exact .nil i j
  | cons segment rest ih =>
      intro i j h
      cases segment with
      | literal s => exact .right trivial (ih i (j + 1) h)
      | reference r => cases h

private theorem alike_of_slotsFrom_cons {t t' : Template} {r : Reference} {i : Nat}
    (ih : ∀ j u, Template.slotsFrom (i + 1) t = Template.slotsFrom j u →
      Template.Alike Passage.Any (i + 1) t j u) :
    ∀ j, (i, r) :: Template.slotsFrom (i + 1) t = Template.slotsFrom j t' →
      Template.Alike Passage.Any i (.reference r :: t) j t' := by
  induction t' with
  | nil => intro j h; cases h
  | cons segment rest ih' =>
      intro j h
      cases segment with
      | literal s => exact .right trivial (ih' (j + 1) h)
      | reference r' =>
          obtain ⟨⟨rfl, rfl⟩, hrest⟩ := List.cons.inj h |>.imp_left Prod.mk.inj
          exact .reference (ih (i + 1) rest hrest)

/-- Templates with the same references at the same places are alike. -/
theorem Template.alike_of_slotsFrom {t : Template} :
    ∀ {i j : Nat} {t' : Template}, slotsFrom i t = slotsFrom j t' →
      Alike Passage.Any i t j t' := by
  induction t with
  | nil => intro i j t' h; exact alike_of_slotsFrom_nil i j h
  | cons segment rest ih =>
      intro i j t' h
      cases segment with
      | literal s => exact .left trivial (ih h)
      | reference r => exact alike_of_slotsFrom_cons (fun j u hu => ih hu) j h

theorem Rule.SameShape.alike {r r' : Rule} (h : r.SameShape r') :
    Rule.Alike Passage.Any r r' := by
  refine ⟨h.weights, ?_⟩
  have hslots := List.forall₂_eq_eq_eq.symm ▸ h.slots
  rw [List.forall₂_map_left_iff, List.forall₂_map_right_iff] at hslots
  exact hslots.imp fun a a' ha => Template.alike_of_slotsFrom ha

/-! ## Still text -/

@[simp] theorem Passage.still_append (p q : Passage) : still (p ++ q) = still p ++ still q := by
  simp [still, String.join_append]

theorem Passage.still_congruence :
    Passage.Congruence fun p p' => Passage.still p = Passage.still p' where
  nil := rfl
  append hp hq := by rw [still_append, still_append, hp, hq]
  plain _ := rfl
  moving _ _ := rfl

theorem Template.Alike.refl {R : Passage → Passage → Prop} (hR : Passage.Congruence R)
    (t : Template) (i : Nat) : Alike R i t i t := by
  induction t generalizing i with
  | nil => exact .nil i i
  | cons segment rest ih =>
      cases segment with
      | literal s => exact .both (hR.plain s) (ih (i + 1))
      | reference r => exact .reference (ih (i + 1))

theorem Rule.Alike.refl {R : Passage → Passage → Prop} (hR : Passage.Congruence R) (r : Rule) :
    Rule.Alike R r r :=
  ⟨rfl, List.forall₂_same.mpr fun a _ => Template.Alike.refl hR a.template 0⟩

theorem Bindings.Alike.refl {R : Passage → Passage → Prop} (hR : ∀ p, R p p)
    (held : Bindings) :
    Bindings.Alike R held held := by
  intro name
  cases held[name]? with
  | none => exact .none
  | some p => exact .some (hR p)

/-! ## Scenes of one draw -/

theorem Book.drawnChoice_congr (site : Site) {r r' : Rule} (h : r.weights = r'.weights) :
    drawnChoice site r = drawnChoice site r' := by
  unfold drawnChoice
  rw [h]

/-- Two frames of one book, at any two times. -/
theorem Book.scene_alike_self {R : Passage → Passage → Prop} (hR : Passage.Congruence R)
    (b : Book) (maxDepth : Nat) (time time' : Float) :
    Scene.Alike R (b.scene maxDepth time) (b.scene maxDepth time') where
  limit := rfl
  choose site _ _ h := Book.drawnChoice_congr site h
  rules name := by
    change Option.Rel _ (b.rule? name) (b.rule? name)
    cases b.rule? name with
    | none => exact .none
    | some r => exact .some (Rule.Alike.refl hR r)

/-- Frames of two books that differ in literal texts. -/
theorem Book.SameShape.scene_alike {b b' : Book} (h : b.SameShape b') (maxDepth : Nat)
    (time time' : Float) :
    Scene.Alike Passage.Any (b.scene maxDepth time) (b'.scene maxDepth time') where
  limit := rfl
  choose site _ _ h := Book.drawnChoice_congr site h
  rules name := by
    have hrule := h name
    change Option.Rel _ (b.rule? name) (b'.rule? name)
    generalize b.rule? name = r?, b'.rule? name = r?' at hrule
    cases hrule with
    | none => exact .none
    | some hshape => exact .some hshape.alike

theorem Bindings.alike_of_mem_iff {held held' : Bindings}
    (h : ∀ name, name ∈ held ↔ name ∈ held') : Bindings.Alike Passage.Any held held' := by
  intro name
  have hname := h name
  rw [Std.ExtTreeMap.mem_iff_isSome_getElem?, Std.ExtTreeMap.mem_iff_isSome_getElem?] at hname
  generalize held[name]? = p, held'[name]? = p' at hname ⊢
  cases p with
  | none =>
      cases p' with
      | none => exact .none
      | some _ => simp at hname
  | some _ =>
      cases p' with
      | none => simp at hname
      | some _ => exact .some trivial

/-! ## The main statement -/

/-- The choices of an expansion, in order, are the same in two books that differ in
literal texts only, whatever the values of the arguments and the two times; if one of
the two expansions fails, its choices are the first ones of the other.  Two frames of
one book with the same arguments are equal but for text computed from the time. -/
theorem Book.choices_independent_of_text_and_time {b b' : Book} {args args' : Bindings}
    (hshape : b.SameShape b') (hargs : ∀ name, name ∈ args ↔ name ∈ args')
    (root : String) (stream : Stream) (maxDepth : Nat) (time time' : Float) :
    let x := (b.scene maxDepth time).expand args stream root
    let y := (b'.scene maxDepth time').expand args' stream root
    (∀ p p', x.result = .ok p → y.result = .ok p' →
      x.choices = y.choices ∧ (b = b' → args = args' → p.still = p'.still)) ∧
    (∀ p e, x.result = .ok p → y.result = .error e → y.choices <+: x.choices) ∧
    (∀ e p, x.result = .error e → y.result = .ok p → x.choices <+: y.choices) ∧
    (x.choices <+: y.choices ∨ y.choices <+: x.choices) := by
  intro x y
  have hparallel : Run.Parallel Passage.Any x y :=
    Scene.expand_parallel Passage.Any.congruence (hshape.scene_alike maxDepth time time')
      (Bindings.alike_of_mem_iff hargs) stream root
  have hstill : b = b' → args = args' →
      Run.Parallel (fun p p' => Passage.still p = Passage.still p') x y := by
    rintro rfl rfl
    exact Scene.expand_parallel Passage.still_congruence
      (Book.scene_alike_self Passage.still_congruence b maxDepth time time')
      (Bindings.Alike.refl (fun p => Eq.refl p.still) args) stream root
  refine ⟨fun p p' hx hy => ⟨(hparallel.choices_eq hx hy).1, ?_⟩,
    fun p e hx hy => hparallel.symm.choices_prefix_of_error hy hx,
    fun e p hx hy => hparallel.choices_prefix_of_error hx hy, hparallel.choices_prefix⟩
  intro hb hargs
  exact ((hstill hb hargs).choices_eq hx hy).2

/-- Two greetings with different words and different names bound, at two times. -/
theorem Book.choices_independent_of_text_and_time_greeting :
    let growth : Segment := .reference { name := "lerp", animated := true }
    let greeting (word : String) : Book := insertAll {}
      [⟨"root", [⟨1, [.literal word, .reference { name := "who" }, growth]⟩, ⟨2, []⟩]⟩]
    let args (name : String) : Bindings := Bindings.ofTexts [("who", name)]
    let stream := Stream.ofSeed ⟨[7], by simp⟩
    let x := ((greeting "Dear ").scene 64 0).expand (args "Ada") stream "root"
    let y := ((greeting "Hello ").scene 64 1).expand (args "Bob") stream "root"
    (greeting "Dear ").SameShape (greeting "Hello ") ∧
      (∀ name, name ∈ args "Ada" ↔ name ∈ args "Bob") ∧
      (∀ p p', x.result = .ok p → y.result = .ok p' → x.choices = y.choices) ∧
      (x.choices <+: y.choices ∨ y.choices <+: x.choices) := by
  intro growth greeting args stream x y
  have hshape : (greeting "Dear ").SameShape (greeting "Hello ") := by
    intro name
    simp only [greeting, insertAll, List.foldl_cons, List.foldl_nil, Book.rule?_insert]
    split
    · exact .some ⟨rfl, rfl⟩
    · simp [rule?]
  have hargs : ∀ name, name ∈ args "Ada" ↔ name ∈ args "Bob" := by
    intro name
    simp [args, Bindings.ofTexts]
  have hmain := choices_independent_of_text_and_time hshape hargs "root" stream 64 0 1
  exact ⟨hshape, hargs, fun p p' hx hy => (hmain.1 p p' hx hy).1, hmain.2.2.2⟩

end Phrasebook
