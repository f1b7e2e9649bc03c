import Phrasebook.Proofs.Expansion.Independence
import Phrasebook.Proofs.Expansion.Routes

/-!
# Edits are local

An edit leads from one book to another one, whatever it does to the rules.  An expansion meets the
edit if it looks up a rule that is not the same in both books, or is in one of them only.

* An expansion that does not meet the edit is the same run in both books (`Run.Kept`), at any place
  and with any arguments.
* What is chosen somewhere depends on the path to it and on the weights there
  (`Scene.chosen_of_mem_visits`), so an edit elsewhere does not change it.
* The two outputs agree but for the stretches that rules met by the edit were expanded to, and the
  numbers that were computed from such stretches (`Passage.AgreeUpTo`).

The first and the last are each shown construct by construct, and then by induction on the nesting
that is left.
-/

namespace Phrasebook

/-! ## Runs that do not meet an edit -/

/-- Whether all rules that a run looks up are the same in two books, or in neither of them. -/
def Run.Avoids {α : Type} (b b' : Book) (x : Run α) : Prop :=
  ∀ v ∈ x.visits, b'.rule? v.rule = b.rule? v.rule

/-- A run and what stands in its place after an edit: the same run, if it does not meet the edit. -/
def Run.Kept {α : Type} (b b' : Book) (x y : Run α) : Prop :=
  x.Avoids b b' → y = x

namespace Run.Kept

variable {α β : Type} {b b' : Book}

theorem refl (x : Run α) : Kept b b' x x :=
  fun _ => rfl

theorem bind {x y : Run α} {f g : α → Run β} (h : Kept b b' x y)
    (hnext : ∀ a, Kept b b' (f a) (g a)) : Kept b b' (x.bind f) (y.bind g) := by
  intro havoids
  unfold Run.bind at havoids ⊢
  cases hx : x.result with
  | error e =>
      rw [hx] at havoids
      have hsame : y = x := h havoids
      rw [hsame, hx]
  | ok a =>
      rw [hx] at havoids
      have hsame : y = x := h fun v hv => havoids v (List.mem_append_left _ hv)
      have hrest : g a = f a := hnext a fun v hv => havoids v (List.mem_append_right _ hv)
      rw [hsame, hx]
      dsimp only
      rw [hrest]

theorem map {x y : Run α} (h : Kept b b' x y) (f : α → β) :
    Kept b b' (x.map f) (y.map f) := by
  intro havoids
  have hsame : y = x := h havoids
  rw [hsame]

end Run.Kept

namespace Scene

/-- The scene of the same expansions in another book. -/
def inBook (scene : Scene) (b : Book) : Scene :=
  { scene with book := b }

@[simp] theorem inBook_book (scene : Scene) (b : Book) : (scene.inBook b).book = b := rfl

@[simp] theorem inBook_choose (scene : Scene) (b : Book) :
    (scene.inBook b).choose = scene.choose := rfl

section Kept

variable {scene : Scene} {b' : Book} {expand expand' : Expander}

/-- A way to expand rules and what stands in its place after an edit. -/
def Expander.Kept (b b' : Book) (expand expand' : Expander) : Prop :=
  ∀ held site name, Run.Kept b b' (expand held site name) (expand' held site name)

theorem argumentValue_kept (hexpand : Expander.Kept scene.book b' expand expand')
    (held : Bindings) (site : Site) (a : Argument) :
    Run.Kept scene.book b' (argumentValue expand held site a)
      (argumentValue expand' held site a) := by
  unfold argumentValue
  cases a.value with
  | text s => exact .refl _
  | ref name =>
      dsimp only
      cases held[a.binding.getD name]? with
      | some p => exact .refl _
      | none => exact hexpand held site name

theorem passArguments_kept (hexpand : Expander.Kept scene.book b' expand expand')
    (held : Bindings) (site : Site) (args : List Argument) :
    ∀ (index : Nat) (passed : Bindings),
      Run.Kept scene.book b' (passArguments expand held site index passed args)
        (passArguments expand' held site index passed args) := by
  induction args with
  | nil => intro index passed; exact .refl _
  | cons a rest ih =>
      intro index passed
      refine .bind (argumentValue_kept hexpand held (site.argument index) a) fun p => ?_
      exact ih (index + 1) (passed.insert a.name p)

theorem reference_kept (hexpand : Expander.Kept scene.book b' expand expand')
    (held : Bindings) (site : Site) (r : Reference) :
    Run.Kept scene.book b' (scene.reference expand held site r)
      ((scene.inBook b').reference expand' held site r) := by
  unfold reference
  split
  · exact .refl _
  · split
    · cases held[r.bindingKey]? with
      | some p => exact .refl _
      | none => exact hexpand held site r.name
    · refine .bind (passArguments_kept hexpand held site r.args 0 held) fun passed => ?_
      exact hexpand passed site r.name

theorem segments_kept (hexpand : Expander.Kept scene.book b' expand expand')
    (held : Bindings) (site : Site) (alternative : Nat) (t : Template) :
    ∀ index, Run.Kept scene.book b' (scene.segments expand held site alternative index t)
      ((scene.inBook b').segments expand' held site alternative index t) := by
  induction t with
  | nil => intro index; exact .refl _
  | cons segment rest ih =>
      intro index
      cases segment with
      | literal s =>
          simp only [segments]
          exact (ih (index + 1)).map _
      | reference r =>
          simp only [segments]
          refine .bind (reference_kept hexpand held _ r) fun p => ?_
          exact (ih (index + 1)).map _

/-- The rule itself is the first that is looked up. -/
theorem exists_visit_of_rule (scene : Scene) (expand : Expander) (depth : Nat) (held : Bindings)
    (site : Site) (name : String) :
    ∃ v ∈ (scene.rule expand depth held site name).visits, v.rule = name := by
  unfold rule
  cases scene.book.rule? name with
  | none => exact ⟨_, List.mem_cons_self, rfl⟩
  | some r =>
      dsimp only
      cases scene.choose (site.rule name) r with
      | none => exact ⟨_, List.mem_cons_self, rfl⟩
      | some i =>
          dsimp only
          cases r.alternatives[i]? with
          | none => exact ⟨_, List.mem_cons_self, rfl⟩
          | some a => exact ⟨_, List.mem_cons_self, rfl⟩

theorem rule_kept (hexpand : Expander.Kept scene.book b' expand expand') (depth : Nat)
    (held : Bindings) (site : Site) (name : String) :
    Run.Kept scene.book b' (scene.rule expand depth held site name)
      ((scene.inBook b').rule expand' depth held site name) := by
  by_cases hname : b'.rule? name = scene.book.rule? name
  · unfold rule
    rw [inBook_book, inBook_choose, hname]
    cases scene.book.rule? name with
    | none => exact .refl _
    | some r =>
        dsimp only
        cases scene.choose (site.rule name) r with
        | none => exact .refl _
        | some i =>
            dsimp only
            cases r.alternatives[i]? with
            | none => exact .refl _
            | some a =>
                exact .bind (.refl _) fun _ => segments_kept hexpand held _ i a.template 0
  · intro havoids
    obtain ⟨v, hv, hrule⟩ := exists_visit_of_rule scene expand depth held site name
    exact absurd (hrule ▸ havoids v hv) hname

theorem expandWithin_kept (scene : Scene) (b' : Book) (left : Nat) :
    Expander.Kept scene.book b' (scene.expandWithin left)
      ((scene.inBook b').expandWithin left) := by
  induction left with
  | zero => intro held site name; exact .refl _
  | succ left ih => intro held site name; exact rule_kept ih _ held site name

end Kept

end Scene

/-! ## Choices -/

/-- What is chosen at a path depends on the root stream and the weights there. -/
theorem Book.chosen_of_mem_visits {b : Book} {maxDepth : Nat} {time : Float} {args : Bindings}
    {stream : Stream} {root : String} {v : Visit}
    (hv : v ∈ ((b.scene maxDepth time).expand args stream root).visits) {r : Rule}
    (hr : b.rule? v.rule = some r) :
    v.chosen = Choice.pick r.weights (stream.descend v.path).unit := by
  obtain ⟨ρ, -, hat⟩ := ((b.scene maxDepth time).expand_explores args stream root).visited v hv
  have hpath : v.path = ρ.path := hat.path_eq
  have hchosen : v.chosen = drawnChoice ((Site.root stream).descend ρ.path) r :=
    (hat.chosen r hr).trans (drawnChoice_filter _ r)
  rw [hchosen, hpath]
  rfl

/-- The path to a choice tells the rule. -/
theorem Scene.rule_eq_of_path_eq {scene scene' : Scene} {args args' : Bindings}
    {stream stream' : Stream} {root root' : String} {v w : Visit}
    (hv : v ∈ (scene.expand args stream root).visits)
    (hw : w ∈ (scene'.expand args' stream' root').visits) (h : v.path = w.path) :
    v.rule = w.rule := by
  obtain ⟨ρ, -, hat⟩ := (scene.expand_explores args stream root).visited v hv
  obtain ⟨σ, -, hat'⟩ := (scene'.expand_explores args' stream' root').visited w hw
  have hpath : ρ.path = σ.path := by
    have hρ : v.path = ρ.path := hat.path_eq
    have hσ : w.path = σ.path := hat'.path_eq
    rw [← hρ, ← hσ, h]
  rw [hat.rule, hat'.rule, Route.path_injective hpath]

/-! ## Outputs that agree up to an edit -/

/-- Two passages, in runs that make the visits `vs` in the book of a scene and `vs'` in another
one, that agree but for stretches that the edit between the books has a part in. -/
inductive Scene.AgreeUpTo (scene : Scene) (b' : Book) (vs vs' : List Visit) :
    Passage → Passage → Prop
  | nil : AgreeUpTo scene b' vs vs' [] []
  | span (s : Span) {p p' : Passage} (h : AgreeUpTo scene b' vs vs' p p') :
    AgreeUpTo scene b' vs vs' (s :: p) (s :: p')
  /-- A rule that is not the same in both books was expanded to the stretches at one place. -/
  | rule {left : Nat} {held held' : Bindings} {site : Site} {name : String} {q q' p p' : Passage}
      (hedit : b'.rule? name ≠ scene.book.rule? name)
      (hvs : (scene.expandWithin left held site name).visits ⊆ vs)
      (hvs' : ((scene.inBook b').expandWithin left held' site name).visits ⊆ vs')
      (hq : (scene.expandWithin left held site name).result = .ok q)
      (hq' : ((scene.inBook b').expandWithin left held' site name).result = .ok q')
      (h : AgreeUpTo scene b' vs vs' p p') : AgreeUpTo scene b' vs vs' (q ++ p) (q' ++ p')
  /-- The stretches were computed from an argument whose texts agree up to the edit only. -/
  | number {r : Reference} {held held' : Bindings} {a : Argument} {key s s' : String}
      {q q' p p' : Passage} (ha : a ∈ r.args) (hkey : a.bindingKey? = some key)
      (hq : held[key]? = some q) (hq' : held'[key]? = some q') (hne : q.text ≠ q'.text)
      (hvalue : AgreeUpTo scene b' vs vs' q q') (hs : r.animate held scene.time = .ok s)
      (hs' : r.animate held' scene.time = .ok s') (h : AgreeUpTo scene b' vs vs' p p') :
    AgreeUpTo scene b' vs vs' (.moving s ++ p) (.moving s' ++ p')

namespace Scene.AgreeUpTo

variable {scene : Scene} {b' : Book} {vs vs' : List Visit}

theorem refl (p : Passage) : AgreeUpTo scene b' vs vs' p p := by
  induction p with
  | nil => exact .nil
  | cons s rest ih => exact .span s ih

theorem append {p p' q q' : Passage} (h : AgreeUpTo scene b' vs vs' p p')
    (hq : AgreeUpTo scene b' vs vs' q q') : AgreeUpTo scene b' vs vs' (p ++ q) (p' ++ q') := by
  induction h with
  | nil => exact hq
  | span s _ ih => exact .span s ih
  | rule hedit hvs hvs' hp hp' _ ih =>
      rw [List.append_assoc, List.append_assoc]
      exact .rule hedit hvs hvs' hp hp' ih
  | number ha hkey hp hp' hne hvalue hs hs' _ _ ih =>
      rw [List.append_assoc, List.append_assoc]
      exact .number ha hkey hp hp' hne hvalue hs hs' ih

end Scene.AgreeUpTo

/-- Two runs whose values are related if both succeed, having made visits of given lists. -/
def Run.Compared {α β : Type} (vs vs' : List Visit) (R : α → β → Prop) (x : Run α) (y : Run β) :
    Prop :=
  x.visits ⊆ vs → y.visits ⊆ vs' → ∀ a b, x.result = .ok a → y.result = .ok b → R a b

namespace Run.Compared

variable {α β γ δ : Type} {vs vs' : List Visit} {R : α → β → Prop} {S : γ → δ → Prop}

theorem pure {a : α} {b : β} (h : R a b) : Compared vs vs' R (Run.pure a) (Run.pure b) := by
  intro _ _ a' b' ha hb
  obtain rfl := Except.ok.inj ha
  obtain rfl := Except.ok.inj hb
  exact h

theorem of_error {x : Run α} {y : Run β} {e : ExpandError} (h : x.result = .error e) :
    Compared vs vs' R x y := by
  intro _ _ a _ ha
  cases h.symm.trans ha

theorem bind {x : Run α} {y : Run β} {f : α → Run γ} {g : β → Run δ}
    (h : Compared vs vs' R x y) (hnext : ∀ a b, R a b → Compared vs vs' S (f a) (g b)) :
    Compared vs vs' S (x.bind f) (y.bind g) := by
  intro hvs hvs' c d hc hd
  obtain ⟨a, ha, hfa⟩ := result_bind_eq_ok_iff.mp hc
  obtain ⟨b, hb, hgb⟩ := result_bind_eq_ok_iff.mp hd
  simp only [Run.bind, ha] at hvs
  simp only [Run.bind, hb] at hvs'
  rw [List.append_subset] at hvs hvs'
  exact hnext a b (h hvs.1 hvs'.1 a b ha hb) hvs.2 hvs'.2 c d hfa hgb

theorem map {x : Run α} {y : Run β} {f : α → γ} {g : β → δ} (h : Compared vs vs' R x y)
    (hnext : ∀ a b, R a b → S (f a) (g b)) : Compared vs vs' S (x.map f) (y.map g) := by
  intro hvs hvs' c d hc hd
  obtain ⟨a, ha, rfl⟩ := result_map_eq_ok_iff.mp hc
  obtain ⟨b, hb, rfl⟩ := result_map_eq_ok_iff.mp hd
  exact hnext a b (h hvs hvs' a b ha hb)

end Run.Compared

/-! ### Numbers -/

section Numbers

variable {held held' : Bindings}

theorem Reference.number_congr {r : Reference}
    (h : ∀ a ∈ r.args, a.boundText held = a.boundText held') (name : String) :
    r.number name held = r.number name held' := by
  unfold number
  cases hfound : r.argument? name with
  | none => rfl
  | some a =>
      have ha : a ∈ r.args := List.mem_reverse.mp (List.mem_of_find?_eq_some hfound)
      dsimp only
      rw [h a ha]

/-- An animated reference reads nothing but the texts of its arguments. -/
theorem Reference.animate_congr {r : Reference}
    (h : ∀ a ∈ r.args, a.boundText held = a.boundText held') (time : Float) :
    r.animate held time = r.animate held' time := by
  unfold animate places
  rw [number_congr h "from", number_congr h "to", number_congr h "decimals"]

theorem Argument.exists_of_boundText_ne {R : Passage → Passage → Prop} {a : Argument}
    (hheld : Bindings.Alike R held held') (h : a.boundText held ≠ a.boundText held') :
    ∃ key q q', a.bindingKey? = some key ∧ held[key]? = some q ∧ held'[key]? = some q' ∧
      R q q' ∧ q.text ≠ q'.text := by
  unfold boundText at h
  cases hvalue : a.value with
  | text s => simp [hvalue] at h
  | ref name =>
      have hbound := hheld (a.binding.getD name)
      rw [hvalue] at h
      dsimp only at h
      cases hp : held[a.binding.getD name]? with
      | none =>
          rw [hp] at hbound h
          cases hp' : held'[a.binding.getD name]? with
          | none => simp [hp'] at h
          | some q' => rw [hp'] at hbound; cases hbound
      | some q =>
          rw [hp] at hbound h
          cases hp' : held'[a.binding.getD name]? with
          | none => rw [hp'] at hbound; cases hbound
          | some q' =>
              rw [hp'] at hbound h
              cases hbound with
              | some hR =>
                  refine ⟨a.binding.getD name, q, q', ?_, hp, hp', hR, ?_⟩
                  · rw [bindingKey?, hvalue]
                  · exact fun htext => h (congrArg Except.ok htext)

end Numbers

/-! ### Expansions -/

namespace Scene

section Compared

variable {scene : Scene} {b' : Book} {vs vs' : List Visit} {expand expand' : Expander}
  {held held' : Bindings}

/-- Two ways to expand rules to passages that agree up to the edit. -/
def Expander.Compared (scene : Scene) (b' : Book) (vs vs' : List Visit)
    (expand expand' : Expander) : Prop :=
  ∀ held held', Bindings.Alike (scene.AgreeUpTo b' vs vs') held held' → ∀ site name,
    Run.Compared vs vs' (scene.AgreeUpTo b' vs vs') (expand held site name)
      (expand' held' site name)

theorem argumentValue_compared (hexpand : Expander.Compared scene b' vs vs' expand expand')
    (hheld : Bindings.Alike (scene.AgreeUpTo b' vs vs') held held') (site : Site) (a : Argument) :
    Run.Compared vs vs' (scene.AgreeUpTo b' vs vs') (argumentValue expand held site a)
      (argumentValue expand' held' site a) := by
  unfold argumentValue
  cases a.value with
  | text s => exact .pure (.refl _)
  | ref name =>
      have hbound := hheld (a.binding.getD name)
      dsimp only
      generalize held[a.binding.getD name]? = p, held'[a.binding.getD name]? = p' at hbound
      cases hbound with
      | none => exact hexpand held held' hheld site name
      | some h => exact .pure h

theorem passArguments_compared (hexpand : Expander.Compared scene b' vs vs' expand expand')
    (hheld : Bindings.Alike (scene.AgreeUpTo b' vs vs') held held') (site : Site)
    (args : List Argument) :
    ∀ (index : Nat) (passed passed' : Bindings),
      Bindings.Alike (scene.AgreeUpTo b' vs vs') passed passed' →
      Run.Compared vs vs' (Bindings.Alike (scene.AgreeUpTo b' vs vs'))
        (passArguments expand held site index passed args)
        (passArguments expand' held' site index passed' args) := by
  induction args with
  | nil => intro index passed passed' hpassed; exact .pure hpassed
  | cons a rest ih =>
      intro index passed passed' hpassed
      refine .bind (argumentValue_compared hexpand hheld (site.argument index) a) ?_
      intro p p' hp
      exact ih (index + 1) _ _ (hpassed.insert a.name hp)

/-- A number differs only if it is computed from an argument that does. -/
theorem animate_compared (hheld : Bindings.Alike (scene.AgreeUpTo b' vs vs') held held')
    (r : Reference) :
    Run.Compared vs vs' (scene.AgreeUpTo b' vs vs')
      (.ofExcept ((r.animate held scene.time).map .moving))
      (.ofExcept ((r.animate held' scene.time).map .moving)) := by
  intro _ _ p p' hp hp'
  obtain ⟨s, hs, rfl⟩ := Except.map_eq_ok_iff.mp hp
  obtain ⟨s', hs', rfl⟩ := Except.map_eq_ok_iff.mp hp'
  by_cases htexts : ∀ a ∈ r.args, a.boundText held = a.boundText held'
  · rw [Reference.animate_congr htexts, hs'] at hs
    obtain rfl := Except.ok.inj hs
    exact .refl _
  · push Not at htexts
    obtain ⟨a, ha, htext⟩ := htexts
    obtain ⟨key, q, q', hkey, hq, hq', hvalue, hne⟩ := Argument.exists_of_boundText_ne hheld htext
    exact .number ha hkey hq hq' hne hvalue hs hs' .nil

theorem reference_compared (hexpand : Expander.Compared scene b' vs vs' expand expand')
    (hheld : Bindings.Alike (scene.AgreeUpTo b' vs vs') held held') (site : Site)
    (r : Reference) :
    Run.Compared vs vs' (scene.AgreeUpTo b' vs vs') (scene.reference expand held site r)
      ((scene.inBook b').reference expand' held' site r) := by
  unfold reference
  split
  · exact animate_compared hheld r
  · split
    · have hbound := hheld r.bindingKey
      generalize held[r.bindingKey]? = p, held'[r.bindingKey]? = p' at hbound
      cases hbound with
      | none => exact hexpand held held' hheld site r.name
      | some h => exact .pure h
    · refine .bind (passArguments_compared hexpand hheld site r.args 0 held held' hheld) ?_
      intro passed passed' hpassed
      exact hexpand passed passed' hpassed site r.name

theorem segments_compared (hexpand : Expander.Compared scene b' vs vs' expand expand')
    (hheld : Bindings.Alike (scene.AgreeUpTo b' vs vs') held held') (site : Site)
    (alternative : Nat) (t : Template) :
    ∀ index, Run.Compared vs vs' (scene.AgreeUpTo b' vs vs')
      (scene.segments expand held site alternative index t)
      ((scene.inBook b').segments expand' held' site alternative index t) := by
  induction t with
  | nil => intro index; exact .pure .nil
  | cons segment rest ih =>
      intro index
      cases segment with
      | literal s =>
          simp only [segments]
          exact (ih (index + 1)).map fun p p' hp => .append (.refl _) hp
      | reference r =>
          simp only [segments]
          refine .bind (reference_compared hexpand hheld _ r) fun p p' hp => ?_
          exact (ih (index + 1)).map fun q q' hq => hp.append hq

/-- A rule that is the same in both books is expanded from the same alternative. -/
theorem rule_compared (hexpand : Expander.Compared scene b' vs vs' expand expand')
    (hheld : Bindings.Alike (scene.AgreeUpTo b' vs vs') held held') (depth : Nat) (site : Site)
    {name : String} (hname : b'.rule? name = scene.book.rule? name) :
    Run.Compared vs vs' (scene.AgreeUpTo b' vs vs') (scene.rule expand depth held site name)
      ((scene.inBook b').rule expand' depth held' site name) := by
  unfold rule
  rw [inBook_book, inBook_choose, hname]
  cases scene.book.rule? name with
  | none => exact .of_error rfl
  | some r =>
      dsimp only
      cases scene.choose (site.rule name) r with
      | none => exact .of_error rfl
      | some i =>
          dsimp only
          cases r.alternatives[i]? with
          | none => exact .of_error rfl
          | some a =>
              exact .bind (R := fun _ _ => True) (fun _ _ _ _ _ _ => trivial)
                fun _ _ _ => segments_compared hexpand hheld _ i a.template 0

theorem expandWithin_compared (scene : Scene) (b' : Book) (vs vs' : List Visit) (left : Nat) :
    Expander.Compared scene b' vs vs' (scene.expandWithin left)
      ((scene.inBook b').expandWithin left) := by
  induction left with
  | zero => intro held held' _ site name; exact .of_error rfl
  | succ left ih =>
      intro held held' hheld site name
      by_cases hname : b'.rule? name = scene.book.rule? name
      · exact rule_compared ih hheld _ site hname
      · intro hvs hvs' q q' hq hq'
        have hstretch := AgreeUpTo.rule hname hvs hvs' hq hq' .nil
        rwa [List.append_nil, List.append_nil] at hstretch

theorem expand_compared (scene : Scene) (b' : Book) (args : Bindings) (stream : Stream)
    (root : String) {p p' : Passage} (hp : (scene.expand args stream root).result = .ok p)
    (hp' : ((scene.inBook b').expand args stream root).result = .ok p') :
    scene.AgreeUpTo b' (scene.expand args stream root).visits
      ((scene.inBook b').expand args stream root).visits p p' :=
  expandWithin_compared scene b' _ _ _ args args (Bindings.Alike.refl .refl args) (.root stream)
    root (List.Subset.refl _) (List.Subset.refl _) p p' hp hp'

end Compared

end Scene

/-! ## The main statement -/

/-- For any two books, however one was edited into the other.  An expansion that looks up only rules
that are the same, or missing, in both comes to the same in both, and so does each part of an
expansion, wherever it stands.  Where two expansions with one root stream choose at the same path,
they choose from the same rule, and the same alternative if the weights there are the same.  Two
outputs for the same root, arguments, stream, time and limit agree but for the stretches that the
edit has a part in. -/
theorem Book.edits_local (b b' : Book) :
    (∀ (args : Bindings) (stream : Stream) (root : String) (maxDepth : Nat) (time : Float),
      let x := (b.scene maxDepth time).expand args stream root
      (∀ v ∈ x.visits, b'.rule? v.rule = b.rule? v.rule) →
        (b'.scene maxDepth time).expand args stream root = x) ∧
    (∀ (left : Nat) (held : Bindings) (site : Site) (name : String) (maxDepth : Nat) (time : Float),
      let part := (b.scene maxDepth time).expandWithin left held site name
      (∀ v ∈ part.visits, b'.rule? v.rule = b.rule? v.rule) →
        (b'.scene maxDepth time).expandWithin left held site name = part) ∧
    (∀ (stream : Stream) (args args' : Bindings) (root root' : String) (maxDepth maxDepth' : Nat)
      (time time' : Float),
      let x := (b.scene maxDepth time).expand args stream root
      let y := (b'.scene maxDepth' time').expand args' stream root'
      ∀ v ∈ x.visits, ∀ w ∈ y.visits, v.path = w.path → v.rule = w.rule ∧
        ∀ r r', b.rule? v.rule = some r → b'.rule? w.rule = some r' → r.weights = r'.weights →
          v.chosen = w.chosen) ∧
    ∀ (args : Bindings) (stream : Stream) (root : String) (maxDepth : Nat) (time : Float),
      let x := (b.scene maxDepth time).expand args stream root
      let y := (b'.scene maxDepth time).expand args stream root
      ∀ p p', x.result = .ok p → y.result = .ok p' →
        (b.scene maxDepth time).AgreeUpTo b' x.visits y.visits p p' := by
  refine ⟨fun args stream root maxDepth time => ?_, fun left held site name maxDepth time => ?_,
    fun stream args args' root root' maxDepth maxDepth' time time' => ?_,
    fun args stream root maxDepth time => ?_⟩
  · exact Scene.expandWithin_kept (b.scene maxDepth time) b' _ args (.root stream) root
  · exact Scene.expandWithin_kept (b.scene maxDepth time) b' left held site name
  · intro x y v hv w hw hpath
    refine ⟨Scene.rule_eq_of_path_eq hv hw hpath, fun r r' hr hr' hweights => ?_⟩
    rw [chosen_of_mem_visits hv hr, chosen_of_mem_visits hw hr', hweights, hpath]
  · intro x y p p' hp hp'
    exact Scene.expand_compared (b.scene maxDepth time) b' args stream root hp hp'

/-- The end of a letter is rewritten and a rule that was missing is added; the name in the letter
stays as it is. -/
theorem Book.edits_local_letter :
    let letter : Rule :=
      ⟨"root", [⟨1, [.reference { name := "who" }, .reference { name := "end" }]⟩]⟩
    let who : Rule := ⟨"who", [⟨1, [.literal "Ada"]⟩, ⟨2, [.literal "Bob"]⟩]⟩
    let b := insertAll {} [letter, who, ⟨"end", [⟨1, [.literal "Yours"]⟩]⟩]
    let b' := insertAll b [⟨"end", [⟨3, []⟩, ⟨1, [.literal "Love"]⟩]⟩, ⟨"new", []⟩]
    let stream := Stream.ofSeed ⟨[7], by simp⟩
    let x := (b.scene 64 0).expand ∅ stream "who"
    (∀ v ∈ x.visits, b'.rule? v.rule = b.rule? v.rule) ∧
      (b'.scene 64 0).expand ∅ stream "who" = x := by
  intro letter who b b' stream x
  have hwho : b.rule? "who" = some who := by simp [b, insertAll, rule?_insert, letter, who]
  have hsame : b'.rule? "who" = b.rule? "who" := by simp [b', insertAll, rule?_insert]
  -- There is nothing to refer to below this rule.
  have hleads : ∀ site name ρ, (b.scene 64 0).Leads site name ρ → name = "who" → ρ.rule = name := by
    intro site name ρ h hname
    cases h with
    | last => rfl
    | hop hrefers _ =>
        obtain ⟨r, a, ref, hr, -, ha, href, -⟩ := hrefers
        rw [hname] at hr
        obtain rfl := Option.some.inj (hr.symm.trans hwho)
        have hliteral : ∀ a ∈ who.alternatives, ∀ ref, .reference ref ∉ a.template := by
          simp [who]
        exact absurd (List.mem_of_getElem? href) (hliteral a (List.mem_of_getElem? ha) ref)
  have hvisits : ∀ v ∈ x.visits, b'.rule? v.rule = b.rule? v.rule := by
    intro v hv
    obtain ⟨ρ, -, hat⟩ := ((b.scene 64 0).expand_explores ∅ stream "who").visited v hv
    rw [hat.rule, hleads _ _ ρ hat.leads rfl, hsame]
  exact ⟨hvisits, (edits_local b b').1 ∅ stream "who" 64 0 hvisits⟩

end Phrasebook
