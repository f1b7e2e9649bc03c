import Phrasebook.Expansion.Basic

/-!
# No two choices share a stream

A rule is reached along a route: from each rule through the alternative that was chosen there, a
segment of it, and perhaps an argument of the reference in this segment, to the next rule.  The path
to the stream that a choice is drawn from spells out the route, and a route can be read back from
its path (`Route.path_injective`), whatever the rules are called: the steps of an argument are
followed by the name of a rule, and the same two steps as a rule and its alternative by the index of
a segment.

An expansion takes each route at most once, since what it does one after the other lies below
different segments, or below different arguments of one reference.  So all its choices are drawn
from streams at different paths, up to the failure if it fails (`Book.choice_paths_nodup`).
-/

namespace Phrasebook

/-! ## Routes -/

/-- The way from a rule to one that is expanded right below it. -/
structure Hop where
  rule : String
  alternative : Nat
  segment : Nat
  /-- The index of the argument whose value is expanded, if it is not the rule referred to. -/
  argument : Option Nat
  deriving DecidableEq, Repr

/-- The way to a rule from the one where an expansion begins. -/
inductive Route where
  | last (rule : String)
  | hop (h : Hop) (rest : Route)
  deriving DecidableEq, Repr

/-- The steps of a hop. -/
def Hop.path (h : Hop) : Path :=
  .name h.rule :: .index h.alternative :: .index h.segment ::
    match h.argument with
    | none => []
    | some k => [.name "$arg", .index k]

namespace Route

/-- The rule at the end of a route. -/
def rule : Route → String
  | last name => name
  | hop _ rest => rest.rule

/-- The steps of a route. -/
def path : Route → Path
  | last name => [.name name]
  | hop h rest => h.path ++ rest.path

/-- Whether a route goes on below its first rule, by a hop with a property. -/
def Via (P : Hop → Prop) : Route → Prop
  | last _ => False
  | hop h _ => P h

theorem Via.mono {P Q : Hop → Prop} (h : ∀ hop, P hop → Q hop) {ρ : Route} (hρ : ρ.Via P) :
    ρ.Via Q := by
  cases ρ with
  | last name => exact hρ
  | hop first rest => exact h first hρ

theorem Via.not_via {P Q : Hop → Prop} (h : ∀ hop, P hop → ¬ Q hop) {ρ : Route} (hρ : ρ.Via P) :
    ¬ ρ.Via Q := by
  cases ρ with
  | last name => exact hρ.elim
  | hop first rest => exact h first hρ

/-- The third step of a route is an index, if there is one. -/
theorem path_ne_argument (ρ σ : Route) (name : String) (k : Nat) :
    ρ.path ≠ .name name :: .index k :: σ.path := by
  cases ρ with
  | last n => simp [path]
  | hop h rest => cases σ <;> simp [path, Hop.path]

theorem path_injective {ρ σ : Route} (h : ρ.path = σ.path) : ρ = σ := by
  induction ρ generalizing σ with
  | last name =>
      cases σ with
      | last name' => simpa [path] using h
      | hop first' rest' => simp [path, Hop.path] at h
  | hop first rest ih =>
      cases σ with
      | last name' => simp [path, Hop.path] at h
      | hop first' rest' =>
          obtain ⟨rule, i, j, argument⟩ := first
          obtain ⟨rule', i', j', argument'⟩ := first'
          simp only [path, Hop.path, List.cons_append, List.cons.injEq, Step.name.injEq,
            Step.index.injEq] at h
          obtain ⟨rfl, rfl, rfl, htail⟩ := h
          -- An argument on one side only would make a route go on like an argument.
          cases argument with
          | none =>
              cases argument' with
              | none => rw [ih htail]
              | some k' => exact absurd htail (path_ne_argument rest rest' _ k')
          | some k =>
              cases argument' with
              | none => exact absurd htail.symm (path_ne_argument rest' rest _ k)
              | some k' =>
                  obtain ⟨hk, hrest⟩ := List.cons.inj (List.cons.inj htail).2
                  rw [ih hrest, Step.index.inj hk]

end Route

/-! ## Where routes lead -/

theorem Site.descend_descend (s : Site) (p q : Path) :
    (s.descend p).descend q = s.descend (p ++ q) := by
  simp [descend, Stream.descend_append]

/-- The rule that a reference expands, or the one that its argument of an index expands. -/
def Reference.Expands (r : Reference) : Option Nat → String → Prop
  | none, name => r.name = name
  | some k, name => ∃ a, r.args[k]? = some a ∧ a.value = .ref name

namespace Scene

/-- Whether a hop leads from a rule to the rule of a name: it goes through the alternative that is
chosen, and the reference in its segment may expand that rule. -/
def Refers (scene : Scene) (site : Site) (h : Hop) (name : String) : Prop :=
  ∃ rule a r, scene.book.rule? h.rule = some rule ∧
    scene.choose (site.rule h.rule) rule = some h.alternative ∧
    rule.alternatives[h.alternative]? = some a ∧ a.template[h.segment]? = some (.reference r) ∧
    r.animated = false ∧ r.Expands h.argument name

/-- The routes that can be taken from a place where the rule of a name is expanded. -/
inductive Leads (scene : Scene) : Site → String → Route → Prop
  | last (site : Site) (name : String) : Leads scene site name (.last name)
  | hop {site : Site} {h : Hop} {name : String} {rest : Route} (hrefers : scene.Refers site h name)
      (hrest : Leads scene (site.descend h.path) name rest) : Leads scene site h.rule (.hop h rest)

/-- A visit at the end of a route, with the choice that is drawn from the stream there. -/
structure VisitsAt (scene : Scene) (site : Site) (start : String) (v : Visit) (ρ : Route) :
    Prop where
  leads : scene.Leads site start ρ
  trail : v.trail = (site.descend ρ.path).trail
  rule : v.rule = ρ.rule
  chosen : ∀ r, scene.book.rule? v.rule = some r →
    v.chosen = (scene.choose (site.descend ρ.path) r).filter fun i => r.alternatives[i]?.isSome

theorem VisitsAt.path_eq {scene : Scene} {site : Site} {start : String} {v : Visit} {ρ : Route}
    (h : scene.VisitsAt site start v ρ) : v.path = site.path ++ ρ.path := by
  rw [Visit.path, h.trail, ← Site.path_descend]
  rfl

theorem VisitsAt.hop {scene : Scene} {site : Site} {h : Hop} {name : String} {v : Visit}
    {rest : Route} (hrefers : scene.Refers site h name)
    (hrest : scene.VisitsAt (site.descend h.path) name v rest) :
    scene.VisitsAt site h.rule v (.hop h rest) where
  leads := .hop hrefers hrest.leads
  trail := by rw [hrest.trail, Site.descend_descend, Route.path]
  rule := hrest.rule
  chosen r hr := by rw [hrest.chosen r hr, Site.descend_descend, Route.path]

end Scene

/-! ## Runs that take each route once -/

/-- A run that begins with the rule `start` at a place: all it visits lies at the end of routes with
a property, and it is at no place twice. -/
structure Run.Explores {α : Type} (scene : Scene) (site : Site) (start : String)
    (P : Route → Prop) (x : Run α) : Prop where
  nodup : (x.visits.map Visit.path).Nodup
  visited : ∀ v ∈ x.visits, ∃ ρ, P ρ ∧ scene.VisitsAt site start v ρ

namespace Run.Explores

variable {α β : Type} {scene : Scene} {site : Site} {start : String} {P Q : Route → Prop}

theorem of_visits_eq_nil {x : Run α} (h : x.visits = []) : Explores scene site start P x where
  nodup := by simp [h]
  visited := by simp [h]

theorem mono {x : Run α} (hx : Explores scene site start P x) (h : ∀ ρ, P ρ → Q ρ) :
    Explores scene site start Q x where
  nodup := hx.nodup
  visited v hv := by
    obtain ⟨ρ, hρ, hat⟩ := hx.visited v hv
    exact ⟨ρ, h ρ hρ, hat⟩

theorem visit {v : Visit} {ρ : Route} (hv : scene.VisitsAt site start v ρ) :
    Explores scene site start (· = ρ) (Run.visit v) where
  nodup := by simp [Run.visit]
  visited w hw := by
    obtain rfl : w = v := List.mem_singleton.mp hw
    exact ⟨ρ, rfl, hv⟩

theorem map {x : Run α} (hx : Explores scene site start P x) (f : α → β) :
    Explores scene site start P (x.map f) :=
  ⟨hx.nodup, hx.visited⟩

theorem bind {x : Run α} {f : α → Run β} (hx : Explores scene site start P x)
    (hf : ∀ a, Explores scene site start Q (f a)) (hdisjoint : ∀ ρ, P ρ → ¬ Q ρ) :
    Explores scene site start (fun ρ => P ρ ∨ Q ρ) (x.bind f) := by
  unfold Run.bind
  cases x.result with
  | error e =>
      have hvisited : Explores scene site start (fun ρ => P ρ ∨ Q ρ) x :=
        hx.mono fun ρ hρ => Or.inl hρ
      exact ⟨hvisited.nodup, hvisited.visited⟩
  | ok a =>
      constructor
      · change ((x.visits ++ (f a).visits).map Visit.path).Nodup
        rw [List.map_append, List.nodup_append]
        refine ⟨hx.nodup, (hf a).nodup, ?_⟩
        intro p hp q hq heq
        obtain ⟨v, hv, rfl⟩ := List.mem_map.mp hp
        obtain ⟨w, hw, rfl⟩ := List.mem_map.mp hq
        obtain ⟨ρ, hρ, hvat⟩ := hx.visited v hv
        obtain ⟨σ, hσ, hwat⟩ := (hf a).visited w hw
        rw [hvat.path_eq, hwat.path_eq] at heq
        have hsame : ρ = σ := Route.path_injective (List.append_cancel_left heq)
        exact hdisjoint ρ hρ (hsame ▸ hσ)
      · intro v hv
        rcases List.mem_append.mp hv with hv | hv
        · obtain ⟨ρ, hρ, hat⟩ := hx.visited v hv
          exact ⟨ρ, Or.inl hρ, hat⟩
        · obtain ⟨ρ, hρ, hat⟩ := (hf a).visited v hv
          exact ⟨ρ, Or.inr hρ, hat⟩

/-- What is explored below a hop, seen from the rule that the hop starts at. -/
theorem below {x : Run α} {h : Hop} {name : String} (hrefers : scene.Refers site h name)
    (hx : Explores scene (site.descend h.path) name P x) :
    Explores scene site h.rule (Route.Via (· = h)) x where
  nodup := hx.nodup
  visited v hv := by
    obtain ⟨ρ, -, hat⟩ := hx.visited v hv
    exact ⟨.hop h ρ, rfl, hat.hop hrefers⟩

end Run.Explores

/-! ## Expansions -/

namespace Scene

/-- A way to expand rules that takes each route once. -/
def Expander.Explores (scene : Scene) (expand : Expander) : Prop :=
  ∀ bindings site name, Run.Explores scene site name (fun _ => True) (expand bindings site name)

section Reference

variable {scene : Scene} {expand : Expander} {site : Site} {name : String} {i j : Nat}
  {r : Reference}

/-- An argument is expanded below the hop with its index. -/
theorem argumentValue_explores (hexpand : Expander.Explores scene expand)
    (hrefers : ∀ k next, r.Expands k next → scene.Refers site ⟨name, i, j, k⟩ next)
    (bindings : Bindings) {k : Nat} {a : Argument} (ha : r.args[k]? = some a) :
    Run.Explores scene site name (Route.Via (· = ⟨name, i, j, some k⟩))
      (argumentValue expand bindings (((site.rule name).segment i j).argument k) a) := by
  have hsite : ((site.rule name).segment i j).argument k =
      site.descend (Hop.path ⟨name, i, j, some k⟩) := by
    simp [Site.rule, Site.segment, Site.argument, Site.descend_descend, Hop.path]
  unfold argumentValue
  cases hvalue : a.value with
  | text s => exact .of_visits_eq_nil rfl
  | ref next =>
      dsimp only
      cases bindings[a.binding.getD next]? with
      | some p => exact .of_visits_eq_nil rfl
      | none =>
          have hnext : scene.Refers site ⟨name, i, j, some k⟩ next :=
            hrefers (some k) next ⟨a, ha, hvalue⟩
          rw [hsite]
          exact .below hnext (hexpand bindings _ next)

theorem passArguments_explores (hexpand : Expander.Explores scene expand)
    (hrefers : ∀ k next, r.Expands k next → scene.Refers site ⟨name, i, j, k⟩ next)
    (bindings : Bindings) (args : List Argument) :
    ∀ (k : Nat) (held : Bindings), r.args.drop k = args →
      Run.Explores scene site name
        (Route.Via fun h => h.segment = j ∧ ∃ k', k ≤ k' ∧ h.argument = some k')
        (passArguments expand bindings ((site.rule name).segment i j) k held args) := by
  induction args with
  | nil => intro k held _; exact .of_visits_eq_nil rfl
  | cons a rest ih =>
      intro k held hargs
      have ha : r.args[k]? = some a := by
        rw [← Nat.add_zero k, ← List.getElem?_drop, hargs]
        rfl
      have hrest : r.args.drop (k + 1) = rest := by
        rw [← List.tail_drop, hargs]
        rfl
      have hfirst := argumentValue_explores hexpand hrefers bindings ha
      have hothers := fun p : Passage => ih (k + 1) (held.insert a.name p) hrest
      refine (hfirst.bind hothers ?_).mono ?_
      · rintro ρ hρ
        refine Route.Via.not_via ?_ hρ
        rintro hop rfl ⟨-, k', hle, hk'⟩
        obtain rfl : k = k' := Option.some.inj hk'
        omega
      · rintro ρ (hρ | hρ)
        · refine hρ.mono ?_
          rintro hop rfl
          exact ⟨rfl, k, Nat.le_refl k, rfl⟩
        · refine hρ.mono ?_
          rintro hop ⟨hsegment, k', hle, hk'⟩
          exact ⟨hsegment, k', by omega, hk'⟩

/-- A reference is expanded below the hops through its segment. -/
theorem reference_explores (hexpand : Expander.Explores scene expand)
    (hrefers : r.animated = false →
      ∀ k next, r.Expands k next → scene.Refers site ⟨name, i, j, k⟩ next)
    (bindings : Bindings) :
    Run.Explores scene site name (Route.Via fun h => h.segment = j)
      (scene.reference expand bindings ((site.rule name).segment i j) r) := by
  have hsite : (site.rule name).segment i j = site.descend (Hop.path ⟨name, i, j, none⟩) := by
    simp [Site.rule, Site.segment, Site.descend_descend, Hop.path]
  unfold reference
  split
  · exact .of_visits_eq_nil rfl
  · next hanimated =>
      have hrefers := hrefers (Bool.not_eq_true _ ▸ hanimated)
      have hrule : ∀ held, Run.Explores scene site name (Route.Via (· = ⟨name, i, j, none⟩))
          (expand held ((site.rule name).segment i j) r.name) := by
        intro held
        rw [hsite]
        exact .below (hrefers none r.name rfl) (hexpand held _ r.name)
      split
      · cases bindings[r.bindingKey]? with
        | some p => exact .of_visits_eq_nil rfl
        | none =>
            refine (hrule bindings).mono fun ρ hρ => hρ.mono ?_
            rintro hop rfl
            rfl
      · have hargs := passArguments_explores hexpand hrefers bindings r.args 0 bindings rfl
        refine (hargs.bind hrule ?_).mono ?_
        · rintro ρ hρ
          refine Route.Via.not_via ?_ hρ
          rintro hop ⟨-, k, -, hk⟩ rfl
          cases hk
        · rintro ρ (hρ | hρ)
          · exact hρ.mono fun hop hhop => hhop.1
          · refine hρ.mono ?_
            rintro hop rfl
            rfl

end Reference

section Rule

variable {scene : Scene} {expand : Expander} {site : Site} {name : String}

/-- The rest of a template is expanded below the hops through its segments. -/
theorem segments_explores (hexpand : Expander.Explores scene expand) {rule : Rule}
    {i : Nat} {a : Alternative} (hrule : scene.book.rule? name = some rule)
    (hchoose : scene.choose (site.rule name) rule = some i)
    (ha : rule.alternatives[i]? = some a) (bindings : Bindings) (t : Template) :
    ∀ j, a.template.drop j = t →
      Run.Explores scene site name (Route.Via fun h => j ≤ h.segment)
        (scene.segments expand bindings (site.rule name) i j t) := by
  induction t with
  | nil => intro j _; exact .of_visits_eq_nil rfl
  | cons segment rest ih =>
      intro j ht
      have hsegment : a.template[j]? = some segment := by
        rw [← Nat.add_zero j, ← List.getElem?_drop, ht]
        rfl
      have hrest : a.template.drop (j + 1) = rest := by
        rw [← List.tail_drop, ht]
        rfl
      have hothers := ih (j + 1) hrest
      cases segment with
      | literal s =>
          rw [segments]
          refine (hothers.map _).mono fun ρ hρ => hρ.mono ?_
          intro hop hle
          omega
      | reference r =>
          have hrefers : r.animated = false →
              ∀ k next, r.Expands k next → scene.Refers site ⟨name, i, j, k⟩ next :=
            fun hanimated k next hnext =>
              ⟨rule, a, r, hrule, hchoose, ha, hsegment, hanimated, hnext⟩
          have hfirst := reference_explores hexpand hrefers bindings
          rw [segments]
          refine (hfirst.bind (fun p => hothers.map (p ++ ·)) ?_).mono ?_
          · rintro ρ hρ
            refine Route.Via.not_via ?_ hρ
            intro hop heq hle
            omega
          · rintro ρ (hρ | hρ)
            · exact hρ.mono fun hop heq => Nat.le_of_eq heq.symm
            · refine hρ.mono fun hop hle => ?_
              omega

theorem rule_explores (hexpand : Expander.Explores scene expand) (depth : Nat)
    (bindings : Bindings) (site : Site) (name : String) :
    Run.Explores scene site name (fun _ => True)
      (scene.rule expand depth bindings site name) := by
  -- The visit itself comes first, and all others lie at the end of longer routes.
  have hvisit : ∀ (chosen : Option Nat) {α : Type} (rest : Run α),
      (∀ r, scene.book.rule? name = some r →
        chosen = (scene.choose (site.rule name) r).filter fun i => r.alternatives[i]?.isSome) →
      Run.Explores scene site name (Route.Via fun _ => True) rest →
      Run.Explores scene site name (fun _ => True)
        ((Run.visit ⟨(site.rule name).trail, depth, name, chosen⟩).bind fun _ => rest) := by
    intro chosen α rest hchosen hrest
    have hat : scene.VisitsAt site name ⟨(site.rule name).trail, depth, name, chosen⟩
        (.last name) :=
      ⟨.last site name, rfl, rfl, hchosen⟩
    refine ((Run.Explores.visit hat).bind (fun _ => hrest) ?_).mono fun ρ _ => trivial
    rintro ρ rfl hvia
    exact hvia
  unfold rule
  cases hrule : scene.book.rule? name with
  | none =>
      refine hvisit none _ (fun r hr => ?_) (.of_visits_eq_nil rfl)
      rw [hrule] at hr
      cases hr
  | some r =>
      dsimp only
      cases hchoose : scene.choose (site.rule name) r with
      | none =>
          refine hvisit none _ (fun r' hr' => ?_) (.of_visits_eq_nil rfl)
          obtain rfl : r = r' := Option.some.inj (hrule.symm.trans hr')
          rw [hchoose]
          rfl
      | some i =>
          dsimp only
          cases ha : r.alternatives[i]? with
          | none =>
              refine hvisit none _ (fun r' hr' => ?_) (.of_visits_eq_nil rfl)
              obtain rfl : r = r' := Option.some.inj (hrule.symm.trans hr')
              rw [hchoose, Option.filter, ha]
              rfl
          | some a =>
              have hsegments := segments_explores hexpand hrule hchoose ha bindings a.template 0 rfl
              refine hvisit (some i) _ (fun r' hr' => ?_) ?_
              · obtain rfl : r = r' := Option.some.inj (hrule.symm.trans hr')
                rw [hchoose, Option.filter, ha]
                rfl
              · exact hsegments.mono fun ρ hρ => hρ.mono fun _ _ => trivial

end Rule

theorem expandWithin_explores (scene : Scene) (left : Nat) :
    Expander.Explores scene (scene.expandWithin left) := by
  induction left with
  | zero => intro bindings site name; exact .of_visits_eq_nil rfl
  | succ left ih => intro bindings site name; exact rule_explores ih _ bindings site name

theorem expand_explores (scene : Scene) (bindings : Bindings) (stream : Stream) (name : String) :
    Run.Explores scene (.root stream) name (fun _ => True) (scene.expand bindings stream name) :=
  expandWithin_explores scene _ bindings (.root stream) name

end Scene

/-! ## The main statement -/

theorem drawnChoice_filter (site : Site) (r : Rule) :
    (drawnChoice site r).filter (fun i => r.alternatives[i]?.isSome) = drawnChoice site r := by
  cases hpick : drawnChoice site r with
  | none => rfl
  | some i =>
      have hlt : i < r.weights.length := Choice.pick_lt_length hpick
      have hlt' : i < r.alternatives.length := by simpa [Rule.weights] using hlt
      simp [hlt']

/-- All rules that an expansion visits are chosen from streams at different paths, before a failure
too.  The path of each spells out a route that leads to the rule and is the path of no other route,
and the choice is drawn from the stream at this path. -/
theorem Book.choice_paths_nodup (b : Book) (root : String) (args : Bindings) (seed : Seed)
    (time : Float) (maxDepth : Nat) :
    let scene := b.scene maxDepth time
    let stream := Stream.ofSeed seed
    let x := scene.expand args stream root
    (x.visits.map Visit.path).Nodup ∧
      ∀ v ∈ x.visits, ∃ ρ : Route, scene.Leads (.root stream) root ρ ∧ v.rule = ρ.rule ∧
        v.path = ρ.path ∧ (∀ σ : Route, v.path = σ.path → σ = ρ) ∧
        ∀ r, b.rule? v.rule = some r →
          v.chosen = Choice.pick r.weights (stream.descend v.path).unit := by
  intro scene stream x
  have hexplores := scene.expand_explores args stream root
  refine ⟨hexplores.nodup, fun v hv => ?_⟩
  obtain ⟨ρ, -, hat⟩ := hexplores.visited v hv
  have hpath : v.path = ρ.path := hat.path_eq
  refine ⟨ρ, hat.leads, hat.rule, hpath, fun σ hσ => ?_, fun r hr => ?_⟩
  · exact Route.path_injective (hσ.symm.trans hpath)
  · have hchosen : v.chosen = drawnChoice ((Site.root stream).descend ρ.path) r :=
      (hat.chosen r hr).trans (drawnChoice_filter _ r)
    rw [hchosen, hpath]
    rfl

end Phrasebook
