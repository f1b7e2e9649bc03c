import Phrasebook.Proofs.Expansion.Comparison
import Phrasebook.Proofs.Expansion.Routes
import Phrasebook.Proofs.Outcome

/-!
# The nesting limit

The limit has no other effect than to cut an expansion off.  With a lower limit an expansion makes
the same visits as with a higher one, until it fails because of the limit or comes to the same end
(`Run.CutOff`); this is the comparison that is lifted through the constructs.

How deep a rule is nested can be read off the route to it: a hop for each reference on the way,
whether it is bare, passes arguments, or is the `$name` value of one.  No route that is taken has
more hops than the limit allows (`Book.limit_cuts_off`), whatever cycles there are.
-/

namespace Phrasebook

/-! ## Runs that are cut off -/

/-- A run with a lower limit and one with a higher limit: the first one is cut off, or both make the
same visits and come to the same end. -/
inductive Run.CutOff {α β : Type} (limit : Nat) (R : α → β → Prop) (x : Run α) (y : Run β) : Prop
  | cut {rule : String} (hx : x.result = .error (.recursionLimit rule limit))
      (hvisits : x.visits <+: y.visits)
  | value {a : α} {b : β} (hx : x.result = .ok a) (hy : y.result = .ok b) (h : R a b)
      (hvisits : x.visits = y.visits)
  | error {e : ExpandError} (hx : x.result = .error e) (hy : y.result = .error e)
      (hvisits : x.visits = y.visits)

namespace Run.CutOff

variable {α β γ δ : Type} {limit : Nat} {R : α → β → Prop} {S : γ → δ → Prop}

theorem refl (x : Run α) : CutOff limit Eq x x := by
  cases hx : x.result with
  | error e => exact .error hx hx rfl
  | ok a => exact .value hx hx rfl rfl

theorem bind {x : Run α} {y : Run β} {f : α → Run γ} {g : β → Run δ} (h : CutOff limit R x y)
    (hnext : ∀ a b, R a b → CutOff limit S (f a) (g b)) :
    CutOff limit S (x.bind f) (y.bind g) := by
  unfold Run.bind
  cases h with
  | cut hx hvisits =>
      rw [hx]
      refine .cut rfl ?_
      cases y.result with
      | error e => exact hvisits
      | ok b => exact hvisits.trans (List.prefix_append _ _)
  | error hx hy hvisits =>
      rw [hx, hy]
      exact .error rfl rfl hvisits
  | @value a b hx hy hab hvisits =>
      rw [hx, hy]
      dsimp only
      rw [hvisits]
      cases hnext a b hab with
      | cut hf hmore => exact .cut hf ((List.prefix_append_right_inj _).mpr hmore)
      | value hf hg hcd hmore => exact .value hf hg hcd (by rw [hmore])
      | error hf hg hmore => exact .error hf hg (by rw [hmore])

/-- A run that is not cut off is the other one. -/
theorem cut_or_eq {x y : Run α} (h : CutOff limit Eq x y) :
    (∃ rule, x.result = .error (.recursionLimit rule limit) ∧ x.visits <+: y.visits) ∨ x = y := by
  obtain ⟨visits, result⟩ := x
  obtain ⟨visits', result'⟩ := y
  cases h with
  | @cut rule hx hvisits => exact Or.inl ⟨rule, hx, hvisits⟩
  | value hx hy hab hvisits => exact Or.inr (by simp_all)
  | error hx hy hvisits => exact Or.inr (by simp_all)

/-- Being cut off, as a comparison. -/
def comparison (limit : Nat) : Run.Comparison where
  Holds := CutOff limit
  refl := refl
  pure h := .value rfl rfl h rfl
  bind h hnext := h.bind hnext

end Run.CutOff

/-! ## Two limits -/

namespace Scene

/-- The scene of the same expansions with another limit. -/
def withLimit (scene : Scene) (limit : Nat) : Scene :=
  { scene with limit }

section Limits

variable {scene : Scene} {limit : Nat} {expand expand' : Expander}

/-- A way to expand rules that is cut off, and one that goes further. -/
def Expander.CutOff (limit : Nat) (expand expand' : Expander) : Prop :=
  ∀ held site name, Run.CutOff limit Eq (expand held site name) (expand' held site name)

theorem boundOr_cutOff (hexpand : Expander.CutOff limit expand expand') (held : Bindings)
    (site : Site) (key name : String) :
    Run.CutOff limit Eq (boundOr expand held site key name)
      (boundOr expand' held site key name) := by
  unfold boundOr
  cases held[key]? with
  | some p => exact .refl _
  | none => exact hexpand held site name

theorem reference_cutOff (hexpand : Expander.CutOff scene.limit expand expand') (held : Bindings)
    (site : Site) (r : Reference) :
    Run.CutOff scene.limit Eq (scene.reference expand held site r)
      ((scene.withLimit limit).reference expand' held site r) := by
  refine reference_compare (C := Run.CutOff.comparison scene.limit) (H := Eq)
    Passage.compatible_eq ?_ rfl ?_ ?_ ?_ ?_
  · rintro passed _ name p _ rfl rfl
    rfl
  · exact fun _ => .refl _
  · exact fun _ => boundOr_cutOff hexpand held site _ _
  · exact fun _ index a _ name _ => boundOr_cutOff hexpand held (site.argument index) _ _
  · rintro - - passed _ rfl
    exact hexpand passed site r.name

/-- The limit of a scene only cuts its expansions off, if the other limit leaves as much room
below. -/
theorem expandWithin_cutOff (scene : Scene) (hle : scene.limit ≤ limit) {left : Nat}
    (hleft : left ≤ scene.limit + 1) :
    Expander.CutOff scene.limit (scene.expandWithin left)
      ((scene.withLimit limit).expandWithin (left + (limit - scene.limit))) := by
  induction left with
  | zero =>
      intro held site name
      exact .cut rfl (List.nil_prefix)
  | succ left ih =>
      intro held site name
      have hdepth : limit - (left + (limit - scene.limit)) = scene.limit - left := by omega
      have hbelow := ih (by omega)
      rw [Nat.succ_add]
      simp only [expandWithin, show (scene.withLimit limit).limit = limit from rfl, hdepth]
      have hrule : (scene.withLimit limit).book.rule? name = scene.book.rule? name := rfl
      have hchoose : (scene.withLimit limit).choose = scene.choose := rfl
      refine rule_compare (C := Run.CutOff.comparison scene.limit) hrule hchoose ?_ _
      intro r a i _ _
      exact segments_compare Passage.compatible_eq i
        (fun index ref _ => reference_cutOff hbelow held _ ref) 0

end Limits

/-! ## How deep a rule is nested -/

end Scene

theorem Run.mem_visits_bind {α β : Type} {x : Run α} {f : α → Run β} {v : Visit}
    (h : v ∈ (x.bind f).visits) : v ∈ x.visits ∨ ∃ a, v ∈ (f a).visits := by
  unfold bind at h
  cases hx : x.result with
  | error e =>
      rw [hx] at h
      exact Or.inl h
  | ok a =>
      rw [hx] at h
      exact (List.mem_append.mp h).imp_right fun hmore => ⟨a, hmore⟩

/-- The number of references on a route. -/
def Route.hops : Route → Nat
  | last _ => 0
  | hop _ rest => rest.hops + 1

namespace Scene

section Nesting

variable {scene : Scene} {expand : Expander} {held : Bindings} {site : Site} {v : Visit}

/-- What is visited for an argument is visited by expanding a rule there. -/
theorem exists_of_mem_argumentValue {a : Argument}
    (h : v ∈ (argumentValue expand held site a).visits) :
    ∃ name, v ∈ (expand held site name).visits := by
  unfold argumentValue at h
  split at h
  · cases h
  · next name _ =>
      split at h
      · cases h
      · exact ⟨name, h⟩

theorem exists_of_mem_passArguments {args : List Argument} {index : Nat} {passed : Bindings}
    (h : v ∈ (passArguments expand held site index passed args).visits) :
    ∃ k name, v ∈ (expand held (site.argument k) name).visits := by
  induction args generalizing index passed with
  | nil => cases h
  | cons a rest ih =>
      rcases Run.mem_visits_bind h with hfirst | ⟨p, hrest⟩
      · exact ⟨index, exists_of_mem_argumentValue hfirst⟩
      · exact ih hrest

/-- What is visited for a reference in a segment lies below a hop through this segment. -/
theorem exists_of_mem_reference {name : String} {i j : Nat} {r : Reference}
    (h : v ∈ (scene.reference expand held ((site.rule name).segment i j) r).visits) :
    ∃ k held' next, v ∈ (expand held' (site.descend (Hop.path ⟨name, i, j, k⟩)) next).visits := by
  have hsegment : (site.rule name).segment i j = site.descend (Hop.path ⟨name, i, j, none⟩) := by
    simp [Site.rule, Site.segment, Site.descend_descend, Hop.path]
  have hargument : ∀ k, ((site.rule name).segment i j).argument k =
      site.descend (Hop.path ⟨name, i, j, some k⟩) := by
    intro k
    simp [Site.rule, Site.segment, Site.argument, Site.descend_descend, Hop.path]
  unfold reference at h
  split at h
  · cases h
  · split at h
    · split at h
      · cases h
      · exact ⟨none, held, r.name, hsegment ▸ h⟩
    · rcases Run.mem_visits_bind h with hargs | ⟨passed, hmore⟩
      · obtain ⟨k, next, hvalue⟩ := exists_of_mem_passArguments hargs
        exact ⟨some k, held, next, hargument k ▸ hvalue⟩
      · exact ⟨none, passed, r.name, hsegment ▸ hmore⟩

theorem exists_of_mem_segments {name : String} {i : Nat} {t : Template} :
    ∀ {j : Nat}, v ∈ (scene.segments expand held (site.rule name) i j t).visits →
      ∃ hop : Hop, ∃ held' next, v ∈ (expand held' (site.descend hop.path) next).visits := by
  induction t with
  | nil => intro j h; cases h
  | cons segment rest ih =>
      intro j h
      cases segment with
      | literal s => exact ih h
      | reference r =>
          rcases Run.mem_visits_bind h with hfirst | ⟨p, hmore⟩
          · obtain ⟨k, held', next, hvisit⟩ := exists_of_mem_reference hfirst
            exact ⟨⟨name, i, j, k⟩, held', next, hvisit⟩
          · exact ih hmore

/-- What is visited for a rule is the rule itself, or lies below a hop. -/
theorem mem_visits_rule {depth : Nat} {name : String}
    (h : v ∈ (scene.rule expand depth held site name).visits) :
    (v.depth = depth ∧ v.trail = (site.descend (Route.last name).path).trail) ∨
      ∃ hop : Hop, ∃ held' next, v ∈ (expand held' (site.descend hop.path) next).visits := by
  have hvisit : ∀ (chosen : Option Nat) {α : Type} (rest : Run α),
      v ∈ ((Run.visit ⟨(site.rule name).trail, depth, name, chosen⟩).bind fun _ => rest).visits →
      (v.depth = depth ∧ v.trail = (site.descend (Route.last name).path).trail) ∨
        v ∈ rest.visits := by
    intro chosen α rest hmem
    rcases Run.mem_visits_bind hmem with hself | ⟨-, hmore⟩
    · obtain rfl := List.mem_singleton.mp hself
      exact Or.inl ⟨rfl, rfl⟩
    · exact Or.inr hmore
  unfold rule at h
  cases hr : scene.book.rule? name with
  | none =>
      rw [hr] at h
      exact (hvisit none _ h).imp_right fun hmore => nomatch hmore
  | some r =>
      rw [hr] at h
      dsimp only at h
      cases hi : scene.choose (site.rule name) r with
      | none =>
          rw [hi] at h
          exact (hvisit none _ h).imp_right fun hmore => nomatch hmore
      | some i =>
          rw [hi] at h
          dsimp only at h
          cases ha : r.alternatives[i]? with
          | none =>
              rw [ha] at h
              exact (hvisit none _ h).imp_right fun hmore => nomatch hmore
          | some a =>
              rw [ha] at h
              exact (hvisit (some i) _ h).imp_right exists_of_mem_segments

/-- Each rule that is visited lies at the end of a route, and is nested as deep as the route has
hops, counted from the depth that the expansion began at.  It is no deeper than the limit. -/
theorem exists_route_of_mem_expandWithin {left : Nat} (hleft : left ≤ scene.limit + 1)
    (h : v ∈ (scene.expandWithin left held site name).visits) :
    ∃ ρ : Route, v.trail = (site.descend ρ.path).trail ∧ v.depth + left = scene.limit + 1 + ρ.hops ∧
      v.depth ≤ scene.limit := by
  induction left generalizing held site name with
  | zero => cases h
  | succ left ih =>
      rcases mem_visits_rule h with ⟨hdepth, htrail⟩ | ⟨hop, held', next, hbelow⟩
      · refine ⟨.last name, htrail, ?_, ?_⟩
        · rw [hdepth, Route.hops]
          omega
        · omega
      · obtain ⟨ρ, htrail, hdepth, hlimit⟩ := ih (by omega) hbelow
        refine ⟨.hop hop ρ, ?_, ?_, hlimit⟩
        · rw [htrail, Site.descend_descend, Route.path]
        · rw [Route.hops]
          omega

end Nesting

/-- An expansion of a scene is that of another one with a higher limit, unless it is cut off. -/
theorem expand_cut_or_eq (scene : Scene) {limit : Nat} (hle : scene.limit ≤ limit)
    (args : Bindings) (stream : Stream) (root : String) :
    let x := scene.expand args stream root
    let y := (scene.withLimit limit).expand args stream root
    (∃ rule, x.result = .error (.recursionLimit rule scene.limit) ∧ x.visits <+: y.visits) ∨
      x = y := by
  have hcut :=
    expandWithin_cutOff scene hle (Nat.le_refl (scene.limit + 1)) args (.root stream) root
  have hroom : scene.limit + 1 + (limit - scene.limit) = limit + 1 := by omega
  rw [hroom] at hcut
  exact hcut.cut_or_eq

end Scene

/-! ## The main statement -/

/-- A limit up to the greatest one cuts an expansion off with an error that names this limit, or has
no effect on it; what is visited before the cut is what a higher limit lets it visit.  Every rule
that is visited is the end of a route that has as many hops as the rule has references above it, and
not more than the limit.  Any limit above the greatest one acts as the greatest one. -/
theorem Book.limit_cuts_off (b : Book) (root : String) (args : Bindings) (stream : Stream)
    (time : Float) :
    (∀ limit limit' : Nat, limit ≤ limit' → limit' ≤ 256 →
      let x := (b.scene limit time).expand args stream root
      let y := (b.scene limit' time).expand args stream root
      (∃ rule, x.result = .error (.recursionLimit rule limit) ∧ x.visits <+: y.visits) ∨ x = y) ∧
    (∀ limit : Nat, ∀ v ∈ ((b.scene limit time).expand args stream root).visits, ∃ ρ : Route,
      (b.scene limit time).Leads (.root stream) root ρ ∧ v.rule = ρ.rule ∧ v.path = ρ.path ∧
        v.depth = ρ.hops ∧ ρ.hops ≤ min limit 256) ∧
    ∀ limit : Nat, 256 ≤ limit →
      (b.scene limit time).expand args stream root =
        (b.scene 256 time).expand args stream root := by
  refine ⟨fun limit limit' hle hmax => ?_, fun limit v hv => ?_, fun limit hmax => ?_⟩
  · have hlimit : (b.scene limit time).limit = limit := Nat.min_eq_left (Nat.le_trans hle hmax)
    have hscene : (b.scene limit time).withLimit limit' = b.scene limit' time := by
      have hlimit' : min limit' maxDepthLimit = limit' := Nat.min_eq_left hmax
      simp only [Scene.withLimit, scene, hlimit']
    have hcut := (b.scene limit time).expand_cut_or_eq (hlimit ▸ hle) args stream root
    rwa [hscene, hlimit] at hcut
  · obtain ⟨σ, -, hat⟩ := ((b.scene limit time).expand_explores args stream root).visited v hv
    obtain ⟨ρ, htrail, hdepth, hlimit⟩ :=
      Scene.exists_route_of_mem_expandWithin (Nat.le_refl _) hv
    have hpath : v.path = ρ.path := by
      rw [Visit.path, htrail]
      exact Site.path_descend (.root stream) ρ.path
    have hsame : σ = ρ := Route.path_injective (hat.path_eq.symm.trans hpath)
    subst hsame
    have hhops : v.depth = σ.hops := by omega
    exact ⟨σ, hat.leads, hat.rule, hpath, hhops, hhops ▸ hlimit⟩
  · have hlimit : min limit maxDepthLimit = min 256 maxDepthLimit := by
      rw [maxDepthLimit, Nat.min_eq_right hmax, Nat.min_self]
    have hscene : b.scene limit time = b.scene 256 time := by
      simp only [scene, hlimit]
    rw [hscene]

/-- A rule that only refers to itself, with two limits. -/
theorem Book.limit_cuts_off_loop :
    let again : Template := [.literal "again ", .reference { name := "root" }]
    let b : Book := insertAll {} [⟨"root", [⟨1, again⟩]⟩]
    let stream := Stream.ofSeed ⟨[7], by simp⟩
    let x := (b.scene 3 0).expand ∅ stream "root"
    let y := (b.scene 5 0).expand ∅ stream "root"
    3 ≤ 5 ∧ 5 ≤ 256 ∧
      ((∃ rule, x.result = .error (.recursionLimit rule 3) ∧ x.visits <+: y.visits) ∨ x = y) := by
  intro again b stream x y
  exact ⟨by decide, by decide,
    (limit_cuts_off b "root" ∅ stream 0).1 3 5 (by decide) (by decide)⟩

end Phrasebook
