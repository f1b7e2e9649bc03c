import Phrasebook.Expansion.Basic

/-!
# Comparing two expansions

Two expansions are compared construct by construct: their arguments, their references, their
templates and their rules.  What a comparison says of two runs differs from one theorem to the next:
that one run is cut off before the other, or that it succeeds if the other does.  But the way from
the parts to the whole is always the same, and uses that what is compared goes through sequences.
`Run.Comparison` collects this, and the lemmas of `Scene` lift any such comparison from the
references of a rule to the rule.
-/

namespace Phrasebook

/-- A way to compare two runs, given how their values are compared.  A run compares with itself, and
runs that go on from values that compare do so if what follows does. -/
structure Run.Comparison where
  Holds : {α β : Type} → (α → β → Prop) → Run α → Run β → Prop
  refl : ∀ {α : Type} (x : Run α), Holds Eq x x
  pure : ∀ {α β : Type} {R : α → β → Prop} {a : α} {b : β}, R a b →
    Holds R (Run.pure a) (Run.pure b)
  bind : ∀ {α β γ δ : Type} {R : α → β → Prop} {S : γ → δ → Prop} {x : Run α} {y : Run β}
    {f : α → Run γ} {g : β → Run δ}, Holds R x y → (∀ a b, R a b → Holds S (f a) (g b)) →
      Holds S (x.bind f) (y.bind g)

namespace Run

theorem bind_pure_comp {α β : Type} (f : α → β) (x : Run α) :
    (x.bind fun a => .pure (f a)) = x.map f := by
  unfold bind map
  cases x.result <;> simp [pure, Except.map]

namespace Comparison

variable (C : Comparison) {α β γ δ : Type} {R : α → β → Prop} {S : γ → δ → Prop}

theorem map {x : Run α} {y : Run β} {f : α → γ} {g : β → δ} (h : C.Holds R x y)
    (hnext : ∀ a b, R a b → S (f a) (g b)) : C.Holds S (x.map f) (y.map g) := by
  rw [← bind_pure_comp, ← bind_pure_comp]
  exact C.bind h fun a b hab => C.pure (hnext a b hab)

/-- Two runs that fail alike compare whatever is said of values. -/
theorem fail (e : ExpandError) : C.Holds R (Run.fail e) (Run.fail e) := by
  have hnothing : C.Holds Eq (Run.fail e : Run Empty) (Run.fail e) := C.refl _
  exact C.bind (f := fun a => a.elim) (g := fun b => b.elim) hnothing fun a => a.elim

end Comparison

end Run

/-! ## Expansions -/

/-- A relation between passages that does not depend on how they are put together. -/
structure Passage.Compatible (R : Passage → Passage → Prop) : Prop where
  nil : R [] []
  append : ∀ {p p' q q'}, R p p' → R q q' → R (p ++ q) (p' ++ q')
  plain : ∀ s, R (.plain s) (.plain s)

theorem Passage.compatible_eq : Compatible Eq where
  nil := rfl
  append hp hq := by rw [hp, hq]
  plain _ := rfl

namespace Scene

variable {C : Run.Comparison} {R : Passage → Passage → Prop} {H : Bindings → Bindings → Prop}
  {scene scene' : Scene} {expand expand' : Expander} {held held' : Bindings} {site : Site}

/-- The argument that is bound to a key, or else an expansion of a rule. -/
def boundOr (expand : Expander) (held : Bindings) (site : Site) (key name : String) : Run Passage :=
  match held[key]? with
  | some p => .pure p
  | none => expand held site name

theorem argumentValue_compare (hR : Passage.Compatible R) {a : Argument}
    (hbound : ∀ name, a.value = .ref name →
      C.Holds R (boundOr expand held site (a.binding.getD name) name)
        (boundOr expand' held' site (a.binding.getD name) name)) :
    C.Holds R (argumentValue expand held site a) (argumentValue expand' held' site a) := by
  unfold argumentValue
  cases hvalue : a.value with
  | text s => exact C.pure (hR.plain s)
  | ref name => exact hbound name hvalue

/-- Arguments that compare one by one lead to bindings that do. -/
theorem passArguments_compare
    (hinsert : ∀ passed passed' name p p', H passed passed' → R p p' →
      H (passed.insert name p) (passed'.insert name p'))
    {args : List Argument}
    (hargs : ∀ index, ∀ a ∈ args, C.Holds R (argumentValue expand held (site.argument index) a)
      (argumentValue expand' held' (site.argument index) a)) :
    ∀ (index : Nat) {passed passed' : Bindings}, H passed passed' →
      C.Holds H (passArguments expand held site index passed args)
        (passArguments expand' held' site index passed' args) := by
  induction args with
  | nil => exact fun index passed passed' hpassed => C.pure hpassed
  | cons a rest ih =>
      intro index passed passed' hpassed
      have hfirst := hargs index a List.mem_cons_self
      have hrest := ih fun k b hb => hargs k b (List.mem_cons_of_mem a hb)
      refine C.bind hfirst fun p p' hp => ?_
      exact hrest (index + 1) (hinsert passed passed' a.name p p' hpassed hp)

/-- A reference compares if its number does, or the argument or rule that it stands for, or else the
arguments that it passes and the rule that it passes them to. -/
theorem reference_compare (hR : Passage.Compatible R)
    (hinsert : ∀ passed passed' name p p', H passed passed' → R p p' →
      H (passed.insert name p) (passed'.insert name p'))
    (hheld : H held held') {r : Reference}
    (hnumber : r.animated = true →
      C.Holds R (.ofExcept ((r.animate held scene.time).map .moving))
        (.ofExcept ((r.animate held' scene'.time).map .moving)))
    (hbare : r.animated = false → C.Holds R (boundOr expand held site r.bindingKey r.name)
      (boundOr expand' held' site r.bindingKey r.name))
    (hargs : r.animated = false → ∀ index, ∀ a ∈ r.args, ∀ name, a.value = .ref name →
      C.Holds R (boundOr expand held (site.argument index) (a.binding.getD name) name)
        (boundOr expand' held' (site.argument index) (a.binding.getD name) name))
    (hpassed : r.animated = false → r.args ≠ [] → ∀ passed passed', H passed passed' →
      C.Holds R (expand passed site r.name) (expand' passed' site r.name)) :
    C.Holds R (scene.reference expand held site r) (scene'.reference expand' held' site r) := by
  unfold reference
  cases hanimated : r.animated with
  | true =>
      rw [if_pos rfl, if_pos rfl]
      exact hnumber hanimated
  | false =>
      rw [if_neg Bool.false_ne_true, if_neg Bool.false_ne_true]
      by_cases hempty : r.args = []
      · rw [if_pos (List.isEmpty_iff.mpr hempty), if_pos (List.isEmpty_iff.mpr hempty)]
        exact hbare hanimated
      · rw [if_neg (mt List.isEmpty_iff.mp hempty), if_neg (mt List.isEmpty_iff.mp hempty)]
        have hvalues : ∀ index, ∀ a ∈ r.args,
            C.Holds R (argumentValue expand held (site.argument index) a)
              (argumentValue expand' held' (site.argument index) a) :=
          fun index a ha => argumentValue_compare hR (hargs hanimated index a ha)
        exact C.bind (passArguments_compare hinsert hvalues 0 hheld) (hpassed hanimated hempty)

/-- A template whose references compare does so as a whole. -/
theorem segments_compare (hR : Passage.Compatible R) (alternative : Nat) {t : Template}
    (hreferences : ∀ index, ∀ r ∈ Template.references t,
      C.Holds R (scene.reference expand held (site.segment alternative index) r)
        (scene'.reference expand' held' (site.segment alternative index) r)) :
    ∀ index, C.Holds R (scene.segments expand held site alternative index t)
      (scene'.segments expand' held' site alternative index t) := by
  induction t with
  | nil => exact fun index => C.pure hR.nil
  | cons segment rest ih =>
      intro index
      cases segment with
      | literal s =>
          simp only [segments]
          exact C.map (ih hreferences (index + 1)) fun p p' hp => hR.append (hR.plain s) hp
      | reference r =>
          simp only [segments]
          have hrest := ih fun k r' hr' => hreferences k r' (List.mem_cons_of_mem r hr')
          refine C.bind (hreferences index r List.mem_cons_self) fun p p' hp => ?_
          exact C.map (hrest (index + 1)) fun q q' hq => hR.append hp hq

/-- A rule that is the same in two scenes compares if the template that is chosen does. -/
theorem rule_compare {name : String} (hrule : scene'.book.rule? name = scene.book.rule? name)
    (hchoose : scene'.choose = scene.choose)
    (hsegments : ∀ r a i, scene.book.rule? name = some r → a ∈ r.alternatives →
      C.Holds R (scene.segments expand held (site.rule name) i 0 a.template)
        (scene'.segments expand' held' (site.rule name) i 0 a.template)) (depth : Nat) :
    C.Holds R (scene.rule expand depth held site name)
      (scene'.rule expand' depth held' site name) := by
  unfold rule
  rw [hrule, hchoose]
  cases hr : scene.book.rule? name with
  | none => exact C.bind (C.refl _) fun _ _ _ => C.fail _
  | some r =>
      dsimp only
      cases scene.choose (site.rule name) r with
      | none => exact C.bind (C.refl _) fun _ _ _ => C.fail _
      | some i =>
          dsimp only
          cases ha : r.alternatives[i]? with
          | none => exact C.bind (C.refl _) fun _ _ _ => C.fail _
          | some a =>
              have hmem : a ∈ r.alternatives := List.mem_of_getElem? ha
              exact C.bind (C.refl _) fun _ _ _ => hsegments r a i hr hmem

end Scene

end Phrasebook
