import Mathlib.Data.List.Forall2
import Phrasebook.Expansion.Basic
import Phrasebook.Proofs.Outcome

/-!
# Two runs side by side

Two expansions that draw from the same streams make the same visits as long as
both go on, and the record of one that fails early is the beginning of the other
record.  `Run.Parallel` says so of two runs whose values are related, and is kept
by sequencing (`Run.Parallel.bind`).  `Scene.expandWithin_parallel` lifts it to
whole expansions in two scenes whose books look alike: it is enough that related
literals stand at the same places and that a choice looks at weights only.

The relation between passages is a parameter.  Relating everything compares the
choices of books with different texts; relating passages with the same still text
compares two frames of one book.
-/

namespace Phrasebook

/-! ## Runs -/

/-- Two runs side by side: both visit the same rules when both succeed, and the
record of one that fails is the beginning of the other one's. -/
def Run.Parallel {α β : Type} (R : α → β → Prop) (x : Run α) (y : Run β) : Prop :=
  match x.result, y.result with
  | .ok a, .ok b => x.visits = y.visits ∧ R a b
  | .ok _, .error _ => y.visits <+: x.visits
  | .error _, .ok _ => x.visits <+: y.visits
  | .error _, .error _ => x.visits <+: y.visits ∨ y.visits <+: x.visits

namespace Run.Parallel

variable {α β γ δ : Type} {R : α → β → Prop} {S : γ → δ → Prop}

theorem pure {a : α} {b : β} (h : R a b) : Parallel R (Run.pure a) (Run.pure b) :=
  ⟨rfl, h⟩

theorem fail (e e' : ExpandError) : Parallel R (Run.fail e) (Run.fail e') :=
  Or.inl (List.prefix_refl _)

/-- Runs without a record are parallel when their values are related. -/
theorem ofExcept {r : Except ExpandError α} {s : Except ExpandError β}
    (h : ∀ a b, r = .ok a → s = .ok b → R a b) :
    Parallel R (Run.ofExcept r) (Run.ofExcept s) := by
  cases r with
  | error e =>
      cases s with
      | error e' => exact Or.inl (List.prefix_refl _)
      | ok b => exact List.prefix_refl _
  | ok a =>
      cases s with
      | error e' => exact List.prefix_refl _
      | ok b => exact ⟨rfl, h a b rfl rfl⟩

/-- A visit that both runs make can be put in front. -/
theorem visit_bind (v : Visit) {f : Unit → Run γ} {g : Unit → Run δ}
    (h : Parallel S (f ()) (g ())) :
    Parallel S ((Run.visit v).bind f) ((Run.visit v).bind g) := by
  unfold Parallel at h ⊢
  simp only [Run.bind, Run.visit]
  cases hf : (f ()).result <;> cases hg : (g ()).result <;> simp_all

/-- Parallel runs that go on in parallel. -/
theorem bind {x : Run α} {y : Run β} {f : α → Run γ} {g : β → Run δ}
    (h : Parallel R x y) (hnext : ∀ a b, R a b → Parallel S (f a) (g b)) :
    Parallel S (x.bind f) (y.bind g) := by
  unfold Parallel Run.bind at *
  -- A run that fails stays as it is, and the other one only gets longer.
  cases hx : x.result with
  | error e =>
      cases hy : y.result with
      | error e' => simpa [hx, hy] using h
      | ok b =>
          have hle : x.visits <+: y.visits ++ (g b).visits :=
            (by simpa [hx, hy] using h : x.visits <+: y.visits).trans (List.prefix_append _ _)
          cases hg : (g b).result with
          | error e' => exact Or.inl hle
          | ok d => exact hle
  | ok a =>
      cases hy : y.result with
      | error e' =>
          have hle : y.visits <+: x.visits ++ (f a).visits :=
            (by simpa [hx, hy] using h : y.visits <+: x.visits).trans (List.prefix_append _ _)
          cases hf : (f a).result with
          | error e => exact Or.inr hle
          | ok c => exact hle
      | ok b =>
          obtain ⟨hvisits, hrel⟩ : x.visits = y.visits ∧ R a b := by simpa [hx, hy] using h
          have hrest := hnext a b hrel
          cases hf : (f a).result <;> cases hg : (g b).result <;>
            simp_all [List.prefix_append_right_inj]

theorem map {x : Run α} {y : Run β} {f : α → γ} {g : β → δ} (h : Parallel R x y)
    (hnext : ∀ a b, R a b → S (f a) (g b)) : Parallel S (x.map f) (y.map g) := by
  unfold Parallel Run.map at *
  cases hx : x.result <;> cases hy : y.result <;> simp_all [Except.map]

end Run.Parallel

/-! ## Scenes -/

/-- A relation between passages that does not depend on how they are put together
and does not look at text computed from the time. -/
structure Passage.Congruence (R : Passage → Passage → Prop) : Prop where
  nil : R [] []
  append : ∀ {p p' q q'}, R p p' → R q q' → R (p ++ q) (p' ++ q')
  plain : ∀ s, R (.plain s) (.plain s)
  moving : ∀ s s', R (.moving s) (.moving s')

/-- Arguments of the same names with related values. -/
def Bindings.Alike (R : Passage → Passage → Prop) (held held' : Bindings) : Prop :=
  ∀ name : String, Option.Rel R held[name]? held'[name]?

/-- Two templates, or what is left of them from segments of given indices on, with
the same references at the same places and related literals.  A literal may stand
alone where its text is related to none. -/
inductive Template.Alike (R : Passage → Passage → Prop) : Nat → Template → Nat → Template → Prop
  | nil (i j : Nat) : Alike R i [] j []
  | left {i j : Nat} {s : String} {t t' : Template} (hs : R (.plain s) [])
      (h : Alike R (i + 1) t j t') : Alike R i (.literal s :: t) j t'
  | right {i j : Nat} {s : String} {t t' : Template} (hs : R [] (.plain s))
      (h : Alike R i t (j + 1) t') : Alike R i t j (.literal s :: t')
  | both {i j : Nat} {s s' : String} {t t' : Template} (hs : R (.plain s) (.plain s'))
      (h : Alike R (i + 1) t (j + 1) t') : Alike R i (.literal s :: t) j (.literal s' :: t')
  | reference {i : Nat} {r : Reference} {t t' : Template}
      (h : Alike R (i + 1) t (i + 1) t') : Alike R i (.reference r :: t) i (.reference r :: t')

/-- Two rules with the same weights and similar templates. -/
structure Rule.Alike (R : Passage → Passage → Prop) (r r' : Rule) : Prop where
  weights : r.weights = r'.weights
  templates : List.Forall₂ (fun a a' => Template.Alike R 0 a.template 0 a'.template)
    r.alternatives r'.alternatives

/-- Two scenes that differ in literals and in the time. -/
structure Scene.Alike (R : Passage → Passage → Prop) (scene scene' : Scene) : Prop where
  limit : scene.limit = scene'.limit
  rules : ∀ name, Option.Rel (Rule.Alike R) (scene.book.rule? name) (scene'.book.rule? name)
  choose : ∀ site r r', r.weights = r'.weights → scene.choose site r = scene'.choose site r'

theorem Bindings.Alike.insert {R : Passage → Passage → Prop} {held held' : Bindings}
    (hheld : Bindings.Alike R held held') (name : String) {p p' : Passage} (h : R p p') :
    Bindings.Alike R (held.insert name p) (held'.insert name p') := by
  intro key
  rw [Std.ExtTreeMap.getElem?_insert, Std.ExtTreeMap.getElem?_insert]
  split
  · exact .some h
  · exact hheld key

namespace Scene

variable {R : Passage → Passage → Prop}

/-- Two ways to expand rules that run in parallel from the same places. -/
def Expander.Parallel (R : Passage → Passage → Prop) (expand expand' : Expander) : Prop :=
  ∀ held held', Bindings.Alike R held held' → ∀ site name,
    Run.Parallel R (expand held site name) (expand' held' site name)

variable {expand expand' : Expander} {held held' : Bindings}

theorem argumentValue_parallel (hR : Passage.Congruence R)
    (hexpand : Expander.Parallel R expand expand') (hheld : Bindings.Alike R held held')
    (site : Site) (a : Argument) :
    Run.Parallel R (argumentValue expand held site a) (argumentValue expand' held' site a) := by
  unfold argumentValue
  cases a.value with
  | text s => exact .pure (hR.plain s)
  | ref name =>
      have hbound := hheld (a.binding.getD name)
      dsimp only
      generalize held[a.binding.getD name]? = p, held'[a.binding.getD name]? = p' at hbound
      cases hbound with
      | none => exact hexpand held held' hheld site name
      | some h => exact .pure h

theorem passArguments_parallel (hR : Passage.Congruence R)
    (hexpand : Expander.Parallel R expand expand') (hheld : Bindings.Alike R held held')
    (site : Site) (args : List Argument) :
    ∀ (index : Nat) (passed passed' : Bindings), Bindings.Alike R passed passed' →
      Run.Parallel (Bindings.Alike R) (passArguments expand held site index passed args)
        (passArguments expand' held' site index passed' args) := by
  induction args with
  | nil => intro index passed passed' hpassed; exact .pure hpassed
  | cons a rest ih =>
      intro index passed passed' hpassed
      refine .bind (argumentValue_parallel hR hexpand hheld (site.argument index) a) ?_
      intro p p' hp
      exact ih (index + 1) _ _ (hpassed.insert a.name hp)

theorem reference_parallel {scene scene' : Scene} (hR : Passage.Congruence R)
    (hexpand : Expander.Parallel R expand expand') (hheld : Bindings.Alike R held held')
    (site : Site) (r : Reference) :
    Run.Parallel R (scene.reference expand held site r)
      (scene'.reference expand' held' site r) := by
  unfold reference
  split
  · refine .ofExcept fun p p' hp hp' => ?_
    obtain ⟨s, -, rfl⟩ := Except.map_eq_ok_iff.mp hp
    obtain ⟨s', -, rfl⟩ := Except.map_eq_ok_iff.mp hp'
    exact hR.moving s s'
  · split
    · have hbound := hheld r.bindingKey
      generalize held[r.bindingKey]? = p, held'[r.bindingKey]? = p' at hbound
      cases hbound with
      | none => exact hexpand held held' hheld site r.name
      | some h => exact .pure h
    · refine .bind (passArguments_parallel hR hexpand hheld site r.args 0 held held' hheld) ?_
      intro passed passed' hpassed
      exact hexpand passed passed' hpassed site r.name

theorem segments_parallel {scene scene' : Scene} (hR : Passage.Congruence R)
    (hexpand : Expander.Parallel R expand expand') (hheld : Bindings.Alike R held held')
    (site : Site) (alternative : Nat) {i j : Nat} {t t' : Template}
    (halike : Template.Alike R i t j t') :
    Run.Parallel R (scene.segments expand held site alternative i t)
      (scene'.segments expand' held' site alternative j t') := by
  induction halike with
  | nil i j => exact .pure hR.nil
  | left hs _ ih =>
      rw [segments, ← Run.map_id (scene'.segments expand' held' site alternative _ _)]
      exact ih.map fun p p' hp => hR.append hs hp
  | right hs _ ih =>
      rw [segments, ← Run.map_id (scene.segments expand held site alternative _ _)]
      exact ih.map fun p p' hp => hR.append hs hp
  | both hs _ ih =>
      simp only [segments]
      exact ih.map fun p p' hp => hR.append hs hp
  | reference _ ih =>
      simp only [segments]
      refine .bind (reference_parallel hR hexpand hheld _ _) ?_
      intro p p' hp
      exact ih.map fun q q' hq => hR.append hp hq

private theorem getElem?_of_forall₂ {α : Type} {P : α → α → Prop} {as bs : List α}
    (h : List.Forall₂ P as bs) (i : Nat) :
    (as[i]? = none ∧ bs[i]? = none) ∨ ∃ a b, as[i]? = some a ∧ bs[i]? = some b ∧ P a b := by
  induction h generalizing i with
  | nil => simp
  | cons hhead _ ih =>
      cases i with
      | zero => exact Or.inr ⟨_, _, rfl, rfl, hhead⟩
      | succ i => exact ih i

theorem rule_parallel {scene scene' : Scene} (hR : Passage.Congruence R)
    (hscene : Scene.Alike R scene scene') (hexpand : Expander.Parallel R expand expand')
    (hheld : Bindings.Alike R held held') (depth : Nat) (site : Site) (name : String) :
    Run.Parallel R (scene.rule expand depth held site name)
      (scene'.rule expand' depth held' site name) := by
  unfold rule
  have hrule := hscene.rules name
  generalize scene.book.rule? name = r?, scene'.book.rule? name = r?' at hrule
  cases hrule with
  | none => exact .visit_bind _ (.fail _ _)
  | @some r r' halike =>
      dsimp only
      rw [← hscene.choose (site.rule name) r r' halike.weights]
      cases scene.choose (site.rule name) r with
      | none => exact .visit_bind _ (.fail _ _)
      | some i =>
          dsimp only
          obtain ⟨hnone, hnone'⟩ | ⟨a, a', hsome, hsome', htemplate⟩ :=
            getElem?_of_forall₂ halike.templates i
          · simp only [hnone, hnone']
            exact .visit_bind _ (.fail _ _)
          · simp only [hsome, hsome']
            exact .visit_bind _ (segments_parallel hR hexpand hheld _ i htemplate)

/-- Expansions in two scenes that look alike run in parallel. -/
theorem expandWithin_parallel {scene scene' : Scene} (hR : Passage.Congruence R)
    (hscene : Scene.Alike R scene scene') (left : Nat) :
    Expander.Parallel R (scene.expandWithin left) (scene'.expandWithin left) := by
  induction left with
  | zero =>
      intro held held' hheld site name
      exact .fail _ _
  | succ left ih =>
      intro held held' hheld site name
      simp only [expandWithin, ← hscene.limit]
      exact rule_parallel hR hscene ih hheld _ site name

theorem expand_parallel {scene scene' : Scene} (hR : Passage.Congruence R)
    (hscene : Scene.Alike R scene scene') (hheld : Bindings.Alike R held held')
    (stream : Stream) (name : String) :
    Run.Parallel R (scene.expand held stream name) (scene'.expand held' stream name) := by
  unfold expand
  rw [← hscene.limit]
  exact expandWithin_parallel hR hscene _ held held' hheld (.root stream) name

end Scene

end Phrasebook
