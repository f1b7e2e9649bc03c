import Mathlib.Data.Nat.Find
import Phrasebook.Expansion.Basic
import Phrasebook.Proofs.Choice.Positive
import Phrasebook.Proofs.Lint.Fixpoint

/-!
# Which rules can finish

A reference needs no rule if its name is bound, and an argument is looked for under
the name that was written first.  `Book.FinishesWithin` says which rules have an
expansion of bounded depth when everything is bound that some reference passes as an
argument.  An expansion that succeeds shows that its rule is one of them
(`finishesWithin_of_expandWithin`), and each of them can be expanded if the right
alternatives are chosen (`exists_choice_of_finishesWithin`).

The linter asks whether the name of the rule is bound, not the name that was written.
The two are the same in a book that is read.  In a book with imports they can differ,
and then a rule may be reported that does finish; `Book.KeysAgree` rules this out.
-/

namespace Phrasebook

/-! ## Finishing -/

/-- The rules that have to be expanded for a reference when all names of `bound` are
bound. -/
def Reference.needs (bound : NameSet) (r : Reference) : List String :=
  if r.animated then []
  else
    (r.args.filterMap fun a =>
      match a.value with
      | .text _ => none
      | .ref name => if bound.contains (a.binding.getD name) then none else some name) ++
    if r.args.isEmpty && bound.contains r.bindingKey then [] else [r.name]

/-- The rule of a name can be expanded with fewer than so many nested references, if
all names that are passed as arguments somewhere are bound. -/
def Book.FinishesWithin (b : Book) : Nat → String → Prop
  | 0, _ => False
  | left + 1, name =>
    ∃ r, b.rule? name = some r ∧ ∃ a ∈ r.alternatives, 0 < a.weight ∧
      ∀ ref ∈ Template.references a.template, ∀ needed ∈ ref.needs b.argumentNames,
        b.FinishesWithin left needed

theorem Book.FinishesWithin.mono {b : Book} {left more : Nat} {name : String}
    (h : b.FinishesWithin left name) (hle : left ≤ more) : b.FinishesWithin more name := by
  induction left generalizing more name with
  | zero => exact h.elim
  | succ left ih =>
      obtain ⟨r, hr, a, ha, hweight, hneeds⟩ := h
      cases more with
      | zero => omega
      | succ more =>
          exact ⟨r, hr, a, ha, hweight, fun ref href needed hneeded =>
            ih (hneeds ref href needed hneeded) (by omega)⟩

theorem Book.mem_argumentNames {b : Book} {name : String} {r : Rule} (hr : b.rule? name = some r)
    {ref : Reference} (href : ref ∈ r.references) {a : Argument} (ha : a ∈ ref.args) :
    a.name ∈ b.argumentNames := by
  rw [argumentNames, NameSet.ofList, Std.ExtTreeSet.mem_ofList, List.contains_iff_mem]
  refine List.mem_flatMap.mpr ⟨r, mem_ruleList.mpr ⟨name, hr⟩, ?_⟩
  exact List.mem_flatMap.mpr ⟨ref, href, List.mem_map.mpr ⟨a, ha, rfl⟩⟩

/-- Without arguments no name is excused. -/
theorem Book.argumentNames_eq_empty {b : Book}
    (hargs : ∀ name r, b.rule? name = some r → ∀ ref ∈ r.references, ref.args = []) :
    b.argumentNames = ∅ := by
  refine Std.ExtTreeSet.ext_mem fun name => ⟨fun hname => ?_, fun hname => ?_⟩
  · rw [argumentNames, NameSet.ofList, Std.ExtTreeSet.mem_ofList, List.contains_iff_mem] at hname
    obtain ⟨r, hr, hname⟩ := List.mem_flatMap.mp hname
    obtain ⟨ref, href, hname⟩ := List.mem_flatMap.mp hname
    obtain ⟨owner, howner⟩ := mem_ruleList.mp hr
    simp [hargs owner r howner ref href] at hname
  · exact absurd hname Std.ExtTreeSet.not_mem_empty

/-! ## Expansions that succeed -/

namespace Scene

variable {F : String → Prop} {bound : NameSet} {expand : Expander} {held : Bindings} {site : Site}

/-- Arguments bound by names of a set only. -/
def Within (bound : NameSet) (held : Bindings) : Prop :=
  ∀ name, name ∈ held → name ∈ bound

theorem Within.insert (hheld : Within bound held) {name : String} (hname : name ∈ bound)
    (p : Passage) : Within bound (held.insert name p) := by
  intro key hkey
  rw [Std.ExtTreeMap.mem_insert, Std.compare_eq_iff_eq] at hkey
  rcases hkey with rfl | hkey
  · exact hname
  · exact hheld key hkey

theorem Within.mem_of_getElem? (hheld : Within bound held) {key : String} {p : Passage}
    (hp : held[key]? = some p) : key ∈ bound := by
  apply hheld key
  rw [Std.ExtTreeMap.mem_iff_isSome_getElem?, hp]
  rfl

/-- An expander that succeeds only on names with a property. -/
def Expander.Shows (F : String → Prop) (bound : NameSet) (expand : Expander) : Prop :=
  ∀ held site name p, Within bound held → (expand held site name).result = .ok p → F name

theorem shows_of_argumentValue (hexpand : expand.Shows F bound) (hheld : Within bound held)
    {a : Argument} {p : Passage} (hvalue : (argumentValue expand held site a).result = .ok p)
    {name : String} (hname : a.value = .ref name) (hkey : a.binding.getD name ∉ bound) :
    F name := by
  unfold argumentValue at hvalue
  rw [hname] at hvalue
  dsimp only at hvalue
  split at hvalue
  · next p' hp => exact absurd (hheld.mem_of_getElem? hp) hkey
  · exact hexpand held site name p hheld hvalue

theorem shows_of_passArguments (hexpand : expand.Shows F bound) (hheld : Within bound held)
    {args : List Argument} (hargs : ∀ a ∈ args, a.name ∈ bound) :
    ∀ {index : Nat} {passed passed' : Bindings}, Within bound passed →
      (passArguments expand held site index passed args).result = .ok passed' →
        Within bound passed' ∧ ∀ a ∈ args, ∀ name, a.value = .ref name →
          a.binding.getD name ∉ bound → F name := by
  induction args with
  | nil =>
      intro index passed passed' hpassed hresult
      obtain rfl := Except.ok.inj hresult
      exact ⟨hpassed, by simp⟩
  | cons a rest ih =>
      intro index passed passed' hpassed hresult
      obtain ⟨hfirst, hrest⟩ := List.forall_mem_cons.mp hargs
      obtain ⟨p, hvalue, hmore⟩ := Run.result_bind_eq_ok_iff.mp hresult
      obtain ⟨hpassed', hshows⟩ := ih hrest (hpassed.insert hfirst p) hmore
      refine ⟨hpassed', List.forall_mem_cons.mpr ⟨fun name hname hkey => ?_, hshows⟩⟩
      exact shows_of_argumentValue hexpand hheld hvalue hname hkey

theorem shows_of_reference {scene : Scene} (hexpand : expand.Shows F bound)
    (hheld : Within bound held) {r : Reference} (hargs : ∀ a ∈ r.args, a.name ∈ bound)
    {p : Passage} (hresult : (scene.reference expand held site r).result = .ok p) :
    ∀ name ∈ r.needs bound, F name := by
  unfold reference at hresult
  unfold Reference.needs
  split at hresult
  · next hanimated => simp [hanimated]
  · next hstill =>
      rw [if_neg hstill]
      split at hresult
      · next hempty =>
          have hnil : r.args = [] := List.isEmpty_iff.mp hempty
          rw [hnil, List.filterMap_nil, List.nil_append, List.isEmpty_nil, Bool.true_and]
          split at hresult
          · next p' hp =>
              have hkey : r.bindingKey ∈ bound := hheld.mem_of_getElem? hp
              rw [if_pos (Std.ExtTreeSet.contains_iff_mem.mpr hkey)]
              simp
          · split
            · simp
            · exact List.forall_mem_singleton.mpr (hexpand held site r.name p hheld hresult)
      · next hne =>
          obtain ⟨passed, hpassed, hmore⟩ := Run.result_bind_eq_ok_iff.mp hresult
          obtain ⟨hwithin, hshows⟩ := shows_of_passArguments hexpand hheld hargs hheld hpassed
          intro name hname
          rcases List.mem_append.mp hname with hname | hname
          · obtain ⟨a, ha, hneeded⟩ := List.mem_filterMap.mp hname
            split at hneeded
            · cases hneeded
            · next target hvalue =>
                split at hneeded
                · cases hneeded
                · next hkey =>
                    obtain rfl := Option.some.inj hneeded
                    exact hshows a ha target hvalue fun h =>
                      hkey (Std.ExtTreeSet.contains_iff_mem.mpr h)
          · rw [if_neg (by simp [hne])] at hname
            rw [List.mem_singleton.mp hname]
            exact hexpand passed site r.name p hwithin hmore

theorem shows_of_segments {scene : Scene} (hexpand : expand.Shows F bound)
    (hheld : Within bound held) {alternative : Nat} {t : Template}
    (hargs : ∀ ref ∈ Template.references t, ∀ a ∈ ref.args, a.name ∈ bound) :
    ∀ {index : Nat} {p : Passage},
      (scene.segments expand held site alternative index t).result = .ok p →
        ∀ ref ∈ Template.references t, ∀ name ∈ ref.needs bound, F name := by
  induction t with
  | nil => simp [Template.references]
  | cons segment rest ih =>
      intro index p hresult
      cases segment with
      | literal s =>
          obtain ⟨q, hq, -⟩ := Run.result_map_eq_ok_iff.mp hresult
          exact ih hargs hq
      | reference r =>
          obtain ⟨hfirst, hrest⟩ := List.forall_mem_cons.mp hargs
          obtain ⟨q, hreference, hmore⟩ := Run.result_bind_eq_ok_iff.mp hresult
          obtain ⟨q', hq', -⟩ := Run.result_map_eq_ok_iff.mp hmore
          exact List.forall_mem_cons.mpr
            ⟨shows_of_reference hexpand hheld hfirst hreference, ih hrest hq'⟩

/-- Choices of alternatives of positive weight only. -/
def ChoosesPositive (scene : Scene) : Prop :=
  ∀ site name r i, scene.book.rule? name = some r → scene.choose site r = some i →
    Choice.PositiveAt r.weights i

/-- An expansion that succeeds shows that its rule can finish. -/
theorem finishesWithin_of_expandWithin {scene : Scene} (hchoose : scene.ChoosesPositive)
    (left : Nat) :
    (scene.expandWithin left).Shows (scene.book.FinishesWithin left)
      scene.book.argumentNames := by
  -- The expander with one reference less shows that what the alternative needs finishes.
  induction left with
  | zero =>
      intro held site name p hheld hresult
      cases hresult
  | succ left ih =>
      intro held site name p hheld hresult
      unfold expandWithin rule at hresult
      dsimp only at hresult
      split at hresult
      · cases hresult
      · next r hr =>
          split at hresult
          · cases hresult
          · next i hi =>
              split at hresult
              · cases hresult
              · next a ha =>
                  obtain ⟨-, -, hsegments⟩ := Run.result_bind_eq_ok_iff.mp hresult
                  have hmem : a ∈ r.alternatives := List.mem_of_getElem? ha
                  obtain ⟨w, hw, hpos⟩ := hchoose _ name r i hr hi
                  have hweight : a.weight = w := by
                    rw [Rule.weights, List.getElem?_map, ha] at hw
                    exact Option.some.inj hw
                  refine ⟨r, hr, a, hmem, hweight ▸ hpos, ?_⟩
                  refine shows_of_segments ih hheld (fun ref href arg harg => ?_) hsegments
                  exact Book.mem_argumentNames hr
                    (List.mem_flatMap.mpr ⟨a, hmem, href⟩) harg

end Scene

/-! ## Choices that succeed -/

/-- An error that an animated reference of a book causes. -/
def ExpandError.OfAnimation (b : Book) (e : ExpandError) : Prop :=
  ∃ name r ref held time, b.rule? name = some r ∧ ref ∈ Rule.references r ∧
    ref.animated = true ∧ Reference.animate ref held time = .error e

/-- There is a choice of alternatives by which every rule that can finish does so as
early as it can. -/
theorem Book.exists_pick (b : Book) (name : String) :
    ∃ i : Nat, ∀ left, b.FinishesWithin left name →
      ∃ r a less, b.rule? name = some r ∧ r.alternatives[i]? = some a ∧ 0 < a.weight ∧ less < left ∧
        ∀ ref ∈ Template.references a.template, ∀ needed ∈ ref.needs b.argumentNames,
          b.FinishesWithin less needed := by
  classical
  -- The alternative by which the rule finishes with the least depth serves for all depths.
  by_cases hfinishes : ∃ left, b.FinishesWithin left name
  · cases hleast : Nat.find hfinishes with
    | zero =>
        have hzero := Nat.find_spec hfinishes
        rw [hleast] at hzero
        exact hzero.elim
    | succ less =>
        have hless := Nat.find_spec hfinishes
        rw [hleast] at hless
        obtain ⟨r, hr, a, ha, hweight, hneeds⟩ := hless
        obtain ⟨i, hi⟩ := List.mem_iff_getElem?.mp ha
        refine ⟨i, fun left hleft => ⟨r, a, less, hr, hi, hweight, ?_, hneeds⟩⟩
        have hleast' : Nat.find hfinishes ≤ left := Nat.find_min' hfinishes hleft
        omega
  · exact ⟨0, fun left hleft => absurd ⟨left, hleft⟩ hfinishes⟩

namespace Scene

variable {F : String → Prop} {bound : NameSet} {expand : Expander} {held : Bindings} {site : Site}

/-- At least the names of a set are bound. -/
def Covers (bound : NameSet) (held : Bindings) : Prop :=
  ∀ name ∈ bound, name ∈ held

theorem Covers.insert (hheld : Covers bound held) (name : String) (p : Passage) :
    Covers bound (held.insert name p) :=
  fun key hkey => Std.ExtTreeMap.mem_insert.mpr (Or.inr (hheld key hkey))

theorem Covers.not_mem_of_getElem? (hheld : Covers bound held) {key : String}
    (hnone : held[key]? = none) : key ∉ bound := by
  intro hkey
  have hmem := Std.ExtTreeMap.mem_iff_isSome_getElem?.mp (hheld key hkey)
  rw [hnone] at hmem
  cases hmem

/-- An expander that fails on names with a property for one kind of reason only. -/
def Expander.FailsBy (E : ExpandError → Prop) (F : String → Prop) (bound : NameSet)
    (expand : Expander) : Prop :=
  ∀ held site name e, Covers bound held → F name → (expand held site name).result = .error e → E e

variable {E : ExpandError → Prop}

theorem argumentValue_failsBy (hexpand : expand.FailsBy E F bound) (hheld : Covers bound held)
    {a : Argument}
    (hneeds : ∀ name, a.value = .ref name → a.binding.getD name ∉ bound → F name)
    {e : ExpandError} (hresult : (argumentValue expand held site a).result = .error e) : E e := by
  unfold argumentValue at hresult
  split at hresult
  · cases hresult
  · next name hname =>
      split at hresult
      · cases hresult
      · next hnone =>
          have hfinishes : F name := hneeds name hname (hheld.not_mem_of_getElem? hnone)
          exact hexpand held site name e hheld hfinishes hresult

theorem passArguments_failsBy (hexpand : expand.FailsBy E F bound) (hheld : Covers bound held)
    {args : List Argument}
    (hneeds : ∀ a ∈ args, ∀ name, a.value = .ref name → a.binding.getD name ∉ bound → F name) :
    ∀ {index : Nat} {passed : Bindings}, Covers bound passed →
      (∀ e, (passArguments expand held site index passed args).result = .error e → E e) ∧
        ∀ passed', (passArguments expand held site index passed args).result = .ok passed' →
          Covers bound passed' := by
  induction args with
  | nil =>
      intro index passed hpassed
      constructor
      · intro e he
        cases he
      · intro passed' hresult
        exact Except.ok.inj hresult ▸ hpassed
  | cons a rest ih =>
      intro index passed hpassed
      obtain ⟨hfirst, hrest⟩ := List.forall_mem_cons.mp hneeds
      constructor
      · intro e he
        rcases Run.result_bind_eq_error_iff.mp he with hvalue | ⟨p, -, hmore⟩
        · exact argumentValue_failsBy hexpand hheld hfirst hvalue
        · exact (ih hrest (hpassed.insert a.name p)).1 e hmore
      · intro passed' hresult
        obtain ⟨p, -, hmore⟩ := Run.result_bind_eq_ok_iff.mp hresult
        exact (ih hrest (hpassed.insert a.name p)).2 passed' hmore

theorem reference_failsBy {scene : Scene} (hexpand : expand.FailsBy E F bound)
    (hheld : Covers bound held) {r : Reference} (hneeds : ∀ name ∈ r.needs bound, F name)
    (hanimated : r.animated = true → ∀ e, r.animate held scene.time = .error e → E e)
    {e : ExpandError} (hresult : (scene.reference expand held site r).result = .error e) : E e := by
  unfold reference at hresult
  unfold Reference.needs at hneeds
  split at hresult
  · next hmoving =>
      cases hanimate : r.animate held scene.time with
      | ok s => rw [hanimate] at hresult; cases hresult
      | error e' =>
          rw [hanimate] at hresult
          obtain rfl := Except.error.inj hresult
          exact hanimated hmoving _ hanimate
  · next hstill =>
      rw [if_neg hstill] at hneeds
      obtain ⟨hvalues, htarget⟩ := List.forall_mem_append.mp hneeds
      split at hresult
      · next hempty =>
          rw [hempty, Bool.true_and] at htarget
          split at hresult
          · cases hresult
          · next hnone =>
              have hkey : r.bindingKey ∉ bound := hheld.not_mem_of_getElem? hnone
              rw [if_neg fun h => hkey (Std.ExtTreeSet.contains_iff_mem.mp h)] at htarget
              exact hexpand held site r.name e hheld (htarget r.name List.mem_cons_self) hresult
      · next hne =>
          rw [if_neg (by simp [hne])] at htarget
          have hargs : ∀ a ∈ r.args, ∀ name, a.value = .ref name →
              a.binding.getD name ∉ bound → F name := by
            intro a ha name hname hkey
            refine hvalues name (List.mem_filterMap.mpr ⟨a, ha, ?_⟩)
            rw [hname]
            exact if_neg fun h => hkey (Std.ExtTreeSet.contains_iff_mem.mp h)
          have ⟨hfail, hcovers⟩ :
              (∀ e, (passArguments expand held site 0 held r.args).result = .error e → E e) ∧
                ∀ passed, (passArguments expand held site 0 held r.args).result = .ok passed →
                  Covers bound passed := passArguments_failsBy hexpand hheld hargs hheld
          rcases Run.result_bind_eq_error_iff.mp hresult with hpass | ⟨passed, hpassed, hmore⟩
          · exact hfail e hpass
          · exact hexpand passed site r.name e (hcovers passed hpassed)
              (htarget r.name List.mem_cons_self) hmore

theorem segments_failsBy {scene : Scene} (hexpand : expand.FailsBy E F bound)
    (hheld : Covers bound held) {alternative : Nat} {t : Template}
    (hneeds : ∀ ref ∈ Template.references t, ∀ name ∈ ref.needs bound, F name)
    (hanimated : ∀ ref ∈ Template.references t, ref.animated = true →
      ∀ e, ref.animate held scene.time = .error e → E e) :
    ∀ {index : Nat} {e : ExpandError},
      (scene.segments expand held site alternative index t).result = .error e → E e := by
  induction t with
  | nil => exact fun hresult => nomatch hresult
  | cons segment rest ih =>
      intro index e hresult
      cases segment with
      | literal s => exact ih hneeds hanimated (Run.result_map_eq_error_iff.mp hresult)
      | reference r =>
          obtain ⟨hfirst, hrest⟩ := List.forall_mem_cons.mp hneeds
          obtain ⟨hfirst', hrest'⟩ := List.forall_mem_cons.mp hanimated
          rcases Run.result_bind_eq_error_iff.mp hresult with hreference | ⟨p, -, hmore⟩
          · exact reference_failsBy hexpand hheld hfirst hfirst' hreference
          · exact ih hrest hrest' (Run.result_map_eq_error_iff.mp hmore)

end Scene

/-- A choice of alternatives can be changed so that each rule that can finish does so, unless an
animated reference fails. -/
theorem Book.exists_choice_extending {b : Book} (hb : b.Obtained) (other : Rule → Option Nat)
    (hother : ∀ name r i, b.rule? name = some r → other r = some i →
      Choice.PositiveAt r.weights i) :
    ∃ pick : Rule → Option Nat,
      (∀ name r i, b.rule? name = some r → pick r = some i → Choice.PositiveAt r.weights i) ∧
      (∀ r, pick r = none → other r = none) ∧
        ∀ (limit : Nat) (time : Float) (left : Nat),
          (Scene.expandWithin ⟨b, limit, time, fun _ r => pick r⟩ left).FailsBy
            (ExpandError.OfAnimation b) (b.FinishesWithin left) b.argumentNames := by
  classical
  choose best hbest using b.exists_pick
  refine ⟨fun r => if ∃ left, b.FinishesWithin left r.name then some (best r.name) else other r,
    ?_, ?_, ?_⟩
  · intro name r i hr hi
    dsimp only at hi
    split at hi
    · next hfinishes =>
        obtain rfl := Option.some.inj hi
        obtain ⟨left, hleft⟩ := hfinishes
        obtain ⟨r', a, less, hr', ha, hweight, -, -⟩ := hbest r.name left hleft
        rw [hb.named hr, hr] at hr'
        obtain rfl := Option.some.inj hr'
        exact ⟨a.weight, by rw [Rule.weights, List.getElem?_map, ha]; rfl, hweight⟩
    · exact hother name r i hr hi
  · intro r hnone
    dsimp only at hnone
    split at hnone
    · cases hnone
    · exact hnone
  · intro limit time left
    -- The alternative that is picked needs only rules that finish with less depth.
    induction left with
    | zero => exact fun held site name e _ hfinishes => hfinishes.elim
    | succ left ih =>
        intro held site name e hheld hfinishes hresult
        obtain ⟨r, a, less, hr, ha, -, hless, hneeds⟩ := hbest name (left + 1) hfinishes
        have hpick : ∃ left, b.FinishesWithin left r.name :=
          ⟨left + 1, by rwa [hb.named hr]⟩
        unfold Scene.expandWithin Scene.rule at hresult
        dsimp only at hresult
        rw [hr] at hresult
        dsimp only at hresult
        rw [if_pos hpick] at hresult
        dsimp only at hresult
        rw [hb.named hr, ha] at hresult
        refine Scene.segments_failsBy ih hheld (fun ref href needed hneeded => ?_)
          (fun ref href hmoving e he => ?_) hresult
        · exact (hneeds ref href needed hneeded).mono (by omega)
        · exact ⟨name, r, ref, held, time, hr,
            List.mem_flatMap.mpr ⟨a, List.mem_of_getElem? ha, href⟩, hmoving, he⟩

/-- A rule that can finish does so, if the right alternatives are chosen, unless an
animated reference fails. -/
theorem Book.exists_choice_of_finishesWithin {b : Book} (hb : b.Obtained) :
    ∃ pick : Rule → Option Nat,
      (∀ name r i, b.rule? name = some r → pick r = some i → Choice.PositiveAt r.weights i) ∧
        ∀ (limit : Nat) (time : Float) (left : Nat),
          (Scene.expandWithin ⟨b, limit, time, fun _ r => pick r⟩ left).FailsBy
            (ExpandError.OfAnimation b) (b.FinishesWithin left) b.argumentNames := by
  obtain ⟨pick, hpositive, -, hfails⟩ := exists_choice_extending hb (fun _ => none) (by simp)
  exact ⟨pick, hpositive, hfails⟩

end Phrasebook
