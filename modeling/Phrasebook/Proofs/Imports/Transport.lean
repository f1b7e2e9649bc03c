import Mathlib.Data.List.Nodup
import Phrasebook.Expansion.Basic
import Phrasebook.Proofs.Choice.Positive
import Phrasebook.Proofs.Imports.Obtained

/-!
# An imported book keeps its meaning

A book that is merged into another one under an alias is renamed, but its arguments
are not.  So an expansion there makes the same steps as one in the book itself: the
rules that it looks up have the alias in front of their names, and the arguments that
it looks for have the names that they always had.  `Scene.expandWithin_renames` says
so for all places that are reached in the same way (`Reached`), provided that the
same alternatives are chosen there, and provided that the importing book does not
define a name that the imported one leaves undefined.

With one alternative of positive weight in each rule there is no choice, so then the
two books agree for every seed.
-/

namespace Phrasebook

/-! ## Errors -/

/-- An error with another name for the rule that was being expanded.  The names of
rules that do not exist and of curves stay as they are. -/
def ExpandError.renamed (rename : String → String) : ExpandError → ExpandError
  | .unknownRule name => .unknownRule name
  | .recursionLimit rule limit => .recursionLimit (rename rule) limit
  | .emptyRule rule => .emptyRule (rename rule)
  | .invalidArgument rule name reason => .invalidArgument rule name reason

/-- Two runs with the same result, but for the names of rules in errors. -/
def Run.Renames {α : Type} (rename : String → String) (x y : Run α) : Prop :=
  y.result = x.result.mapError (ExpandError.renamed rename)

namespace Run.Renames

variable {α β : Type} {rename : String → String}

theorem pure (a : α) : Renames rename (Run.pure a) (Run.pure a) := rfl

theorem bind {x y : Run α} {f g : α → Run β} (h : Renames rename x y)
    (hnext : ∀ a, Renames rename (f a) (g a)) : Renames rename (x.bind f) (y.bind g) := by
  unfold Renames Run.bind at *
  rw [h]
  cases x.result with
  | error e => rfl
  | ok a => exact hnext a

theorem visit_bind {v w : Visit} {f g : Unit → Run α} (h : Renames rename (f ()) (g ())) :
    Renames rename ((Run.visit v).bind f) ((Run.visit w).bind g) := h

theorem map {x y : Run α} (h : Renames rename x y) (f : α → β) :
    Renames rename (x.map f) (y.map f) := by
  unfold Renames Run.map at *
  rw [h]
  cases x.result <;> rfl

end Run.Renames

/-! ## The two books -/

namespace Book

/-- The name under which an importing book knows what a book calls `name`. -/
def nameUnder (b : Book) (aliasName name : String) : String :=
  if b.defines name then qualify aliasName name else name

/-- Whether expanding a rule of a book may look a name up. -/
def Mentions (b : Book) (name : String) : Prop :=
  ∃ owner rule r, b.rule? owner = some rule ∧ r ∈ rule.references ∧ r.animated = false ∧
    name ∈ r.name :: r.argumentTargets

/-- A book that has the rules of another one under an alias and gives no meaning to
names that the other one mentions without defining them. -/
structure Hosts (host : Book) (aliasName : String) (b : Book) : Prop where
  rules : ∀ r ∈ b.under aliasName, host.rule? r.name = some r
  undefined : ∀ name, b.Mentions name → b.defines name = false → host.defines name = false

theorem rule?_eq_none_of_defines {b : Book} {name : String} (h : b.defines name = false) :
    b.rule? name = none := by
  rw [defines, Std.ExtTreeMap.contains_eq_isSome_getElem?] at h
  exact Option.isNone_iff_eq_none.mp (by rw [← Option.not_isSome, rule?, h]; rfl)

variable {host b : Book} {aliasName : String}

/-- The rule of an imported book in the importing one. -/
theorem Hosts.rule? (hhost : host.Hosts aliasName b) (hb : b.Obtained) {name : String} {r : Rule}
    (hr : b.rule? name = some r) :
    host.rule? (qualify aliasName name) = some (r.qualified b.defines aliasName) := by
  have hmem : r.qualified b.defines aliasName ∈ b.under aliasName :=
    List.mem_map.mpr ⟨r, mem_ruleList.mpr ⟨name, hr⟩, rfl⟩
  have hrule := hhost.rules _ hmem
  rwa [show (r.qualified b.defines aliasName).name = qualify aliasName r.name from rfl,
    hb.named hr] at hrule

end Book

/-! ## References and arguments -/

section Qualified

variable {b : Book} {aliasName : String}

theorem Argument.qualified_name (a : Argument) :
    (a.qualified b.defines aliasName).name = a.name := by
  unfold qualified
  split <;> rfl

/-- An argument is looked for under the same name. -/
theorem qualifyName_snd_getD (name : String) (binding : Option String) :
    (qualifyName b.defines aliasName name binding).2.getD
      (qualifyName b.defines aliasName name binding).1 = binding.getD name := by
  unfold qualifyName
  split <;> rfl

theorem qualifyName_fst (name : String) (binding : Option String) :
    (qualifyName b.defines aliasName name binding).1 = b.nameUnder aliasName name := by
  unfold qualifyName Book.nameUnder
  split <;> rfl

/-- What an argument names has the name that the importing book knows it by. -/
theorem Reference.argumentTargets_qualified (r : Reference) :
    (r.qualified b.defines aliasName).argumentTargets =
      r.argumentTargets.map (b.nameUnder aliasName) := by
  unfold argumentTargets qualified
  dsimp only
  rw [List.filterMap_map, List.map_filterMap]
  congr 1
  funext a
  obtain ⟨name, value, binding⟩ := a
  cases value with
  | text s => rfl
  | ref target => simp [Argument.qualified, qualifyName_fst]

theorem Reference.qualified_name (r : Reference) :
    (r.qualified b.defines aliasName).name =
      if r.animated then r.name else b.nameUnder aliasName r.name := by
  cases hanimated : r.animated <;> simp [qualified, hanimated, qualifyName_fst]

/-- A reference is looked for under the same name. -/
theorem Reference.bindingKey_qualified (r : Reference) :
    (r.qualified b.defines aliasName).bindingKey = r.bindingKey := by
  cases hanimated : r.animated <;> simp [qualified, bindingKey, hanimated, qualifyName_snd_getD]

theorem Argument.boundText_qualified (a : Argument) (held : Bindings) :
    (a.qualified b.defines aliasName).boundText held = a.boundText held := by
  obtain ⟨name, value, binding⟩ := a
  cases value with
  | text s => rfl
  | ref target =>
      unfold boundText qualified
      dsimp only
      rw [qualifyName_snd_getD]

theorem Reference.argument?_qualified (r : Reference) (name : String) :
    (r.qualified b.defines aliasName).argument? name =
      (r.argument? name).map (Argument.qualified b.defines aliasName) := by
  unfold argument? qualified
  rw [← List.map_reverse, List.find?_map]
  congr 2
  funext a
  simp [Function.comp, Argument.qualified_name]

theorem Reference.number_qualified {r : Reference} (hanimated : r.animated = true) (name : String)
    (held : Bindings) :
    (r.qualified b.defines aliasName).number name held = r.number name held := by
  have hname : (r.qualified b.defines aliasName).name = r.name := by
    simp [qualified_name, hanimated]
  unfold number
  rw [argument?_qualified, hname]
  cases r.argument? name with
  | none => rfl
  | some a => simp only [Option.map_some, Argument.boundText_qualified]

/-- An animated reference shows the same number. -/
theorem Reference.animate_qualified {r : Reference} (hanimated : r.animated = true)
    (held : Bindings) (time : Float) :
    (r.qualified b.defines aliasName).animate held time = r.animate held time := by
  have hname : (r.qualified b.defines aliasName).name = r.name := by
    simp [qualified_name, hanimated]
  simp only [animate, places, number_qualified hanimated, hname]

end Qualified

theorem Reference.error_of_number {r : Reference} {name : String} {held : Bindings}
    {e : ExpandError} (h : r.number name held = .error e) :
    ∃ reason, e = .invalidArgument r.name name reason := by
  unfold number at h
  split at h
  · cases h
  · split at h
    · cases h
    · cases h
      exact ⟨_, rfl⟩

theorem Reference.error_of_places {r : Reference} {held : Bindings} {e : ExpandError}
    (h : r.places held = .error e) : ∃ reason, e = .invalidArgument r.name "decimals" reason := by
  unfold places at h
  split at h
  · next hnumber =>
      obtain rfl := Except.error.inj h
      exact error_of_number hnumber
  · cases h
  · split at h
    · cases h
    · cases h
      exact ⟨_, rfl⟩

/-- The errors of an animated reference are about its curve and its arguments. -/
theorem Reference.error_of_animate {r : Reference} {held : Bindings} {time : Float}
    {e : ExpandError} (h : r.animate held time = .error e) :
    (e = .unknownRule r.name ∧ Curve.ofName? r.name = none) ∨
      ∃ name reason, e = .invalidArgument r.name name reason := by
  unfold animate at h
  split at h
  · next hcurve => exact Or.inl ⟨(Except.error.inj h).symm, hcurve⟩
  · refine Or.inr ?_
    split at h
    · next hfirst =>
        obtain rfl := Except.error.inj h
        exact ⟨_, error_of_number hfirst⟩
    · split at h
      · next hlast =>
          obtain rfl := Except.error.inj h
          exact ⟨_, error_of_number hlast⟩
      · split at h
        · next hplaces =>
            obtain rfl := Except.error.inj h
            exact ⟨_, error_of_places hplaces⟩
        · cases h

/-! ## Places that correspond -/

/-- The steps to a place in a book and to the same place in a book that imports it,
the last step first. -/
inductive Reached (aliasName : String) : List Step → List Step → Prop
  | root : Reached aliasName [] []
  | rule {trail trail' : List Step} (h : Reached aliasName trail trail') (name : String) :
      Reached aliasName (.name name :: trail) (.name (qualify aliasName name) :: trail')
  | segment {trail trail' : List Step} (h : Reached aliasName trail trail')
      (alternative segment : Nat) :
      Reached aliasName (.index segment :: .index alternative :: trail)
        (.index segment :: .index alternative :: trail')
  | argument {trail trail' : List Step} (h : Reached aliasName trail trail') (index : Nat) :
      Reached aliasName (.index index :: .name "$arg" :: trail)
        (.index index :: .name "$arg" :: trail')

/-- Two scenes at one time: in a book and in another one that imports it.  At places
that correspond the same alternative is chosen. -/
structure Scene.Hosts (scene' : Scene) (aliasName : String) (scene : Scene) : Prop where
  book : scene'.book.Hosts aliasName scene.book
  limit : scene'.limit = scene.limit
  time : scene'.time = scene.time
  choose : ∀ (site site' : Site) (name : String) (r : Rule), Reached aliasName site.trail
    site'.trail → scene.book.rule? name = some r →
      scene'.choose site' (r.qualified scene.book.defines aliasName) = scene.choose site r

namespace Scene

variable {scene scene' : Scene} {aliasName : String}

/-- A name whose meaning is the same in the two books. -/
def Settled (scene scene' : Scene) (name : String) : Prop :=
  scene.book.defines name = false → scene'.book.defines name = false

/-- Two ways to expand rules that agree at places that correspond. -/
def Expander.Renames (scene scene' : Scene) (aliasName : String) (expand expand' : Expander) :
    Prop :=
  ∀ held site site' name, Reached aliasName site.trail site'.trail → Settled scene scene' name →
    Run.Renames (scene.book.nameUnder aliasName) (expand held site name)
      (expand' held site' (scene.book.nameUnder aliasName name))

section

variable {expand expand' : Expander} {site site' : Site} {held : Bindings}

theorem argumentValue_renames (hexpand : Expander.Renames scene scene' aliasName expand expand')
    (hsite : Reached aliasName site.trail site'.trail) (a : Argument)
    (hsettled : ∀ name, a.value = .ref name → Settled scene scene' name) :
    Run.Renames (scene.book.nameUnder aliasName) (argumentValue expand held site a)
      (argumentValue expand' held site' (a.qualified scene.book.defines aliasName)) := by
  obtain ⟨name, value, binding⟩ := a
  cases value with
  | text s => exact .pure _
  | ref target =>
      unfold argumentValue Argument.qualified
      dsimp only
      rw [qualifyName_snd_getD, qualifyName_fst]
      cases held[binding.getD target]? with
      | some p => exact .pure p
      | none => exact hexpand held site site' target hsite (hsettled target rfl)

theorem passArguments_renames (hexpand : Expander.Renames scene scene' aliasName expand expand')
    (hsite : Reached aliasName site.trail site'.trail) (args : List Argument)
    (hsettled : ∀ a ∈ args, ∀ name, a.value = .ref name → Settled scene scene' name) :
    ∀ (index : Nat) (passed : Bindings),
      Run.Renames (scene.book.nameUnder aliasName)
        (passArguments expand held site index passed args)
        (passArguments expand' held site' index passed
          (args.map (Argument.qualified scene.book.defines aliasName))) := by
  induction args with
  | nil => intro index passed; exact .pure passed
  | cons a rest ih =>
      intro index passed
      obtain ⟨hfirst, hrest⟩ := List.forall_mem_cons.mp hsettled
      refine .bind (argumentValue_renames hexpand (hsite.argument index) a hfirst) fun p => ?_
      rw [Argument.qualified_name]
      exact ih hrest (index + 1) _

theorem reference_renames (hscene : scene'.Hosts aliasName scene)
    (hexpand : Expander.Renames scene scene' aliasName expand expand')
    (hsite : Reached aliasName site.trail site'.trail) (r : Reference)
    (hsettled : r.animated = false → ∀ name ∈ r.name :: r.argumentTargets,
      Settled scene scene' name) :
    Run.Renames (scene.book.nameUnder aliasName) (scene.reference expand held site r)
      (scene'.reference expand' held site' (r.qualified scene.book.defines aliasName)) := by
  have hanimated : (r.qualified scene.book.defines aliasName).animated = r.animated := rfl
  have hempty : (r.qualified scene.book.defines aliasName).args.isEmpty = r.args.isEmpty := by
    simp [Reference.qualified]
  unfold reference
  rw [hanimated, hempty]
  -- The curve of an animated reference is not renamed, and nothing is expanded for it.
  cases hmoving : r.animated with
  | true =>
      rw [if_pos rfl, if_pos rfl, Reference.animate_qualified hmoving, hscene.time]
      cases hresult : r.animate held scene.time with
      | ok s => exact .pure _
      | error e =>
          rcases Reference.error_of_animate hresult with ⟨rfl, -⟩ | ⟨name, reason, rfl⟩ <;> rfl
  | false =>
      have hname : (r.qualified scene.book.defines aliasName).name =
          scene.book.nameUnder aliasName r.name := by
        simp [Reference.qualified_name, hmoving]
      obtain ⟨htarget, hargs⟩ := List.forall_mem_cons.mp (hsettled hmoving)
      rw [if_neg Bool.false_ne_true, if_neg Bool.false_ne_true, hname, r.bindingKey_qualified]
      split
      · cases held[r.bindingKey]? with
        | some p => exact .pure p
        | none => exact hexpand held site site' r.name hsite htarget
      · refine .bind (passArguments_renames hexpand hsite r.args ?_ 0 held) fun passed => ?_
        · intro a ha name hvalue
          refine hargs name (List.mem_filterMap.mpr ⟨a, ha, ?_⟩)
          rw [hvalue]
        · exact hexpand passed site site' r.name hsite htarget

theorem segments_renames (hscene : scene'.Hosts aliasName scene)
    (hexpand : Expander.Renames scene scene' aliasName expand expand')
    (hsite : Reached aliasName site.trail site'.trail) (alternative : Nat) (t : Template)
    (hsettled : ∀ r ∈ Template.references t, r.animated = false →
      ∀ name ∈ r.name :: r.argumentTargets, Settled scene scene' name) (index : Nat) :
    Run.Renames (scene.book.nameUnder aliasName)
      (scene.segments expand held site alternative index t)
      (scene'.segments expand' held site' alternative index
        (t.map (Segment.qualified scene.book.defines aliasName))) := by
  induction t generalizing index with
  | nil => exact .pure []
  | cons segment rest ih =>
      cases segment with
      | literal s => exact (ih hsettled (index + 1)).map _
      | reference r =>
          obtain ⟨hfirst, hrest⟩ := List.forall_mem_cons.mp hsettled
          refine .bind (reference_renames hscene hexpand (hsite.segment alternative index) r hfirst)
            fun p => ?_
          exact (ih hrest (index + 1)).map _

theorem rule_renames (hscene : scene'.Hosts aliasName scene) (hb : scene.book.Obtained)
    (hexpand : Expander.Renames scene scene' aliasName expand expand') (depth : Nat)
    (hsite : Reached aliasName site.trail site'.trail) (name : String)
    (hsettled : Settled scene scene' name) :
    Run.Renames (scene.book.nameUnder aliasName) (scene.rule expand depth held site name)
      (scene'.rule expand' depth held site' (scene.book.nameUnder aliasName name)) := by
  unfold rule
  cases hrule : scene.book.rule? name with
  | none =>
      -- A name without a rule stays as it is, and the importing book has no rule for it.
      have hundefined : scene.book.defines name = false := by
        rw [← Bool.not_eq_true, Book.defines_iff]
        rintro ⟨r, hr⟩
        rw [hrule] at hr
        cases hr
      have hname : scene.book.nameUnder aliasName name = name := by
        simp [Book.nameUnder, hundefined]
      rw [hname, Book.rule?_eq_none_of_defines (hsettled hundefined)]
      rfl
  | some r =>
      have hdefined : scene.book.defines name = true := Book.defines_iff.mpr ⟨r, hrule⟩
      have hname : scene.book.nameUnder aliasName name = qualify aliasName name := by
        simp [Book.nameUnder, hdefined]
      have hempty : ∀ v w : Visit, Run.Renames (scene.book.nameUnder aliasName)
          ((Run.visit v).bind fun _ => (Run.fail (.emptyRule r.name) : Run Passage))
          ((Run.visit w).bind fun _ =>
            Run.fail (.emptyRule (r.qualified scene.book.defines aliasName).name)) := by
        intro v w
        refine .visit_bind ?_
        unfold Run.Renames Run.fail
        simp only [Except.mapError, ExpandError.renamed, hb.named hrule, hname, Rule.qualified]
      rw [hname, hscene.book.rule? hb hrule]
      dsimp only
      rw [hscene.choose (site.rule name) (site'.rule (qualify aliasName name)) name r
        (hsite.rule name) hrule]
      cases scene.choose (site.rule name) r with
      | none => exact hempty _ _
      | some i =>
          dsimp only
          rw [show (r.qualified scene.book.defines aliasName).alternatives[i]? =
            r.alternatives[i]?.map (Alternative.qualified scene.book.defines aliasName) from
              List.getElem?_map]
          cases halternative : r.alternatives[i]? with
          | none => exact hempty _ _
          | some a =>
              have hsettled' : ∀ ref ∈ Template.references a.template, ref.animated = false →
                  ∀ target ∈ ref.name :: ref.argumentTargets, Settled scene scene' target := by
                intro ref href hstill target htarget
                have hmem : ref ∈ r.references :=
                  List.mem_flatMap.mpr ⟨a, List.mem_of_getElem? halternative, href⟩
                apply hscene.book.undefined target
                exact ⟨name, r, ref, hrule, hmem, hstill, htarget⟩
              exact .visit_bind (segments_renames hscene hexpand (hsite.rule name) i a.template
                hsettled' 0)

end

/-- An expansion in the importing book is that in the imported one. -/
theorem expandWithin_renames (hscene : scene'.Hosts aliasName scene) (hb : scene.book.Obtained)
    (left : Nat) :
    Expander.Renames scene scene' aliasName (scene.expandWithin left)
      (scene'.expandWithin left) := by
  induction left with
  | zero =>
      intro held site site' name hsite hsettled
      simp only [expandWithin, hscene.limit]
      rfl
  | succ left ih =>
      intro held site site' name hsite hsettled
      simp only [expandWithin, hscene.limit]
      exact rule_renames hscene hb ih _ hsite name hsettled

end Scene

/-! ## Merging makes a host -/

namespace Book

theorem qualify_injective {aliasName name name' : String}
    (h : qualify aliasName name = qualify aliasName name') : name = name' := by
  have hlist := congrArg String.toList h
  simp only [qualify, String.toList_append] at hlist
  exact String.toList_injective (List.append_cancel_left (List.append_cancel_left hlist))

section Named

variable {b : Book} (hnamed : ∀ name r, b.rule? name = some r → r.name = name)
include hnamed

theorem names_ruleList : b.ruleList.map Rule.name = b.names := by
  rw [ruleList, names, ← Std.ExtTreeMap.map_fst_toList_eq_keys, List.map_map]
  refine List.map_congr_left fun entry hentry => ?_
  exact hnamed _ _ (Std.ExtTreeMap.mem_toList_iff_getElem?_eq_some.mp hentry)

theorem names_under (aliasName : String) :
    (b.under aliasName).map Rule.name = b.names.map (qualify aliasName) := by
  rw [← names_ruleList hnamed, under, List.map_map, List.map_map]
  rfl

theorem names_under_nodup (aliasName : String) : ((b.under aliasName).map Rule.name).Nodup := by
  rw [names_under hnamed]
  exact List.Nodup.map (fun _ _ h => qualify_injective h) Std.ExtTreeMap.nodup_keys

end Named

/-- A book with the rules of another one under an alias is a host of it, unless it
gives a meaning to a name that the other one leaves undefined. -/
theorem Obtained.hosts {b : Book} (hb : b.Obtained) (book : Book) (aliasName : String)
    (hundefined : ∀ name, b.Mentions name → b.defines name = false →
      (book.insertAll (b.under aliasName)).defines name = false) :
    (book.insertAll (b.under aliasName)).Hosts aliasName b where
  undefined := hundefined
  rules r hr := by
    have hnames := names_under_nodup (fun _ _ => hb.named) aliasName
    exact (rule?_insertAll_iff hnames book r.name r).mpr (Or.inl ⟨hr, rfl⟩)

/-! ## The main statement -/

/-- An expansion of a rule in an importing book has the same outcome as in the imported
one if the same alternatives are chosen at places that correspond, and errors name
the same rules with the alias in front.  If each rule of the imported book has one
alternative that can be chosen, what is generated is the same for every seed. -/
theorem expand_under_alias {b host : Book} {aliasName : String} (hb : b.Obtained)
    (hhost : host.Hosts aliasName b) :
    (∀ (pick pick' : Site → Rule → Option Nat),
      (∀ site site' name r, Reached aliasName site.trail site'.trail → b.rule? name = some r →
        pick' site' (r.qualified b.defines aliasName) = pick site r) →
      ∀ (limit : Nat) (time : Float) (args : Bindings) (stream stream' : Stream) (name : String),
        b.defines name = true →
        (Scene.expand ⟨host, limit, time, pick'⟩ args stream' (qualify aliasName name)).result =
          (Scene.expand ⟨b, limit, time, pick⟩ args stream name).result.mapError
            (ExpandError.renamed (b.nameUnder aliasName))) ∧
    ((∀ name r, b.rule? name = some r → ∃! i, Choice.PositiveAt r.weights i) →
      ∀ (maxDepth : Nat) (args : Bindings) (seed : Seed) (time : Float) (name : String),
        b.defines name = true →
        host.generate maxDepth (qualify aliasName name) args seed time =
          (b.generate maxDepth name args seed time).mapError
            (ExpandError.renamed (b.nameUnder aliasName))) := by
  have hexpand : ∀ (scene scene' : Scene), scene.book = b → scene'.Hosts aliasName scene →
      ∀ (args : Bindings) (stream stream' : Stream) (name : String), b.defines name = true →
        (scene'.expand args stream' (qualify aliasName name)).result =
          (scene.expand args stream name).result.mapError
            (ExpandError.renamed (b.nameUnder aliasName)) := by
    rintro scene scene' rfl hscene args stream stream' name hname
    have hsettled : Scene.Settled scene scene' name := fun hundefined => by
      rw [hname] at hundefined
      cases hundefined
    have hrenames := Scene.expandWithin_renames hscene hb (scene.limit + 1) args (.root stream)
      (.root stream') name .root hsettled
    rw [show scene.book.nameUnder aliasName name = qualify aliasName name by
      simp [nameUnder, hname]] at hrenames
    unfold Scene.expand
    rw [hscene.limit]
    exact hrenames
  constructor
  · intro pick pick' hpick limit time args stream stream' name hname
    exact hexpand ⟨b, limit, time, pick⟩ ⟨host, limit, time, pick'⟩ rfl
      ⟨hhost, rfl, rfl, hpick⟩ args stream stream' name hname
  · intro hunique maxDepth args seed time name hname
    -- The two draws differ, but with one positive weight every draw picks the same.
    have hscene : (host.scene maxDepth time).Hosts aliasName (b.scene maxDepth time) := by
      refine ⟨hhost, rfl, rfl, fun site site' owner r _ hr => ?_⟩
      have hweights : (r.qualified b.defines aliasName).weights = r.weights := by
        simp [Rule.weights, Rule.qualified, Alternative.qualified, Function.comp_def]
      change drawnChoice site' (r.qualified b.defines aliasName) = drawnChoice site r
      rw [drawnChoice, hweights]
      exact Choice.pick_eq_of_unique (hb.zero_le_weights hr) (hunique owner r hr)
        site'.stream.not_unit_neg site.stream.not_unit_neg
    unfold generate
    rw [hexpand (b.scene maxDepth time) (host.scene maxDepth time) rfl hscene args
      (Stream.ofSeed seed) (Stream.ofSeed seed) name hname]
    cases ((b.scene maxDepth time).expand args (Stream.ofSeed seed) name).result <;> rfl

/-- A library of cards: `name` and `who` are arguments in it and `title` is a rule. -/
theorem expand_under_alias_card :
    let source :=
      "card:\n- {{ title }} {{ name }}\ntitle:\n- Dr.\nnote:\n- {{ card(name: $who) }}\n"
    let b : Book := (Book.parse source).toOption.getD {}
    let host : Book := insertAll {} (b.under "lib")
    host.Hosts "lib" b ∧ b.defines "note" = true ∧ b.defines "who" = false ∧
      ∀ (seed : Seed) (name : String),
        host.generate 64 "lib.note" (Bindings.ofTexts [("who", name)]) seed 0 =
          (b.generate 64 "note" (Bindings.ofTexts [("who", name)]) seed 0).mapError
            (ExpandError.renamed (b.nameUnder "lib")) := by
  intro source b host
  have hb : b.Obtained := .parsed (Except.eq_ok_getD (x := Book.parse source) (by decide) {})
  have hhost : host.Hosts "lib" b := by
    refine hb.hosts {} "lib" ?_
    have hfree : ∀ rule ∈ b.ruleList, ∀ r ∈ rule.references, ∀ name ∈ r.name :: r.argumentTargets,
        b.defines name = false → host.defines name = false := by decide
    rintro name ⟨owner, rule, r, hrule, hr, -, hname⟩ hundefined
    exact hfree rule (mem_ruleList.mpr ⟨owner, hrule⟩) r hr name hname hundefined
  have hunique : ∀ name r, b.rule? name = some r → ∃! i, Choice.PositiveAt r.weights i := by
    have hone : ∀ r ∈ b.ruleList, r.weights.length = 1 ∧ ∀ w ∈ r.weights, 0 < w := by decide
    intro name r hr
    obtain ⟨hlength, hpos⟩ := hone r (mem_ruleList.mpr ⟨name, hr⟩)
    obtain ⟨w, hw⟩ := List.length_eq_one_iff.mp hlength
    refine ⟨0, ⟨w, by simp [hw], hpos w (by simp [hw])⟩, ?_⟩
    rintro i ⟨v, hv, -⟩
    rw [hw] at hv
    simpa using (List.getElem?_eq_some_iff.mp hv).1
  refine ⟨hhost, by decide, by decide, fun seed name => ?_⟩
  exact (expand_under_alias hb hhost).2 hunique 64 (Bindings.ofTexts [("who", name)]) seed 0 "note"
    (by decide)

end Book

end Phrasebook
