import Mathlib.Data.Finset.Card
import Mathlib.Logic.Relation
import Phrasebook.Proofs.Expansion.Edits
import Phrasebook.Proofs.Lint.Fixpoint

/-!
# The rules that are reached

The linter warns of a rule exactly if no chain of references leads to it from the root
(`Book.neverReached_exact`).  It goes from the root in rounds, each over the names that the names
met in the round before refer to, and what no round meets is what has no chain
(`mem_releaseAll_iff`).  A search that keeps the names still to be followed on a stack comes to the
same, in whatever order it takes them off (`Searches.mem_iff`).  It ends although a name may stand
on the stack several times and chains may run in circles, since each name is followed only once
(`exists_searches`).

Whatever an expansion looks up lies at the end of a chain, for the route to it is one
(`Scene.Leads.reaches`).  So a rule that is never reached has no part in any expansion of the root.
-/

namespace Phrasebook

open Relation

/-! ## Searching in rounds -/

section Rounds

variable {leads : String → List String} {name : String}

/-- One pass in which any name may leave: those that it goes over leave, and no others. -/
theorem mem_release_iff (names : List String) (kept : NameSet) (name : String) :
    (name ∈ (release (fun _ _ => true) names kept).1 ↔ name ∈ kept ∧ name ∉ names) ∧
      (name ∈ (release (fun _ _ => true) names kept).2 ↔ name ∈ kept ∧ name ∈ names) := by
  induction names generalizing kept with
  | nil => simp [release]
  | cons first rest ih =>
      rw [release]
      by_cases hfirst : first ∈ kept
      · obtain ⟨hleft, hgone⟩ := ih (kept.erase first)
        simp only [Std.ExtTreeSet.contains_iff_mem.mpr hfirst, Bool.and_self, if_true, hleft,
          List.mem_cons, hgone, Std.ExtTreeSet.mem_erase]
        by_cases hname : first = name
        · subst hname
          simp [hfirst]
        · simp [hname, Ne.symm hname]
      · obtain ⟨hleft, hgone⟩ := ih kept
        have hcontains : kept.contains first = false :=
          Bool.eq_false_iff.mpr (mt Std.ExtTreeSet.contains_iff_mem.mp hfirst)
        have hne : name ∈ kept → name ≠ first := fun hname heq => hfirst (heq ▸ hname)
        simp only [hcontains, Bool.false_and, Bool.false_eq_true, if_false, hleft, hgone,
          List.mem_cons]
        tauto

variable {rounds : Nat} {waiting : List String} {kept : NameSet}

/-- With enough rounds, what begins the search is met, and so is what a met name leads to. -/
theorem not_mem_releaseRounds_of_leads (hsize : kept.size ≤ rounds) :
    (∀ name ∈ waiting, name ∉ releaseRounds (fun _ _ => true) leads rounds waiting kept) ∧
      ∀ name ∈ kept, name ∉ releaseRounds (fun _ _ => true) leads rounds waiting kept →
        ∀ next ∈ leads name,
          next ∉ releaseRounds (fun _ _ => true) leads rounds waiting kept := by
  induction rounds generalizing waiting kept with
  | zero =>
      have hempty : kept = ∅ := Std.ExtTreeSet.eq_empty_iff_size_eq_zero.mpr (by omega)
      simp [releaseRounds, hempty]
  | succ rounds ih =>
      have hcount := size_release (fun _ _ => true) waiting kept
      have hpass := mem_release_iff waiting kept
      rw [releaseRounds]
      rcases hrelease : release (fun _ _ => true) waiting kept with ⟨left, gone⟩
      rw [hrelease] at hcount hpass
      cases gone with
      | nil =>
          -- Nothing that was waiting is left to be met, so all that is not met was waiting.
          refine ⟨fun name hname hleft => ((hpass name).1.mp hleft).2 hname, ?_⟩
          intro name hname hmet
          have hwaiting : name ∈ waiting := by
            by_contra hnot
            exact hmet ((hpass name).1.mpr ⟨hname, hnot⟩)
          exact absurd ((hpass name).2.mpr ⟨hname, hwaiting⟩) List.not_mem_nil
      | cons first rest =>
          have hless : left.size ≤ rounds := by
            change left.size + (rest.length + 1) = kept.size at hcount
            omega
          obtain ⟨hstart, hleads⟩ := @ih ((first :: rest).flatMap leads) left hless
          constructor
          · intro name hname hfinal
            exact ((hpass name).1.mp (mem_of_mem_releaseRounds hfinal)).2 hname
          · intro name hname hmet next hnext
            by_cases hwaiting : name ∈ waiting
            · have hgone : name ∈ first :: rest := (hpass name).2.mpr ⟨hname, hwaiting⟩
              exact hstart next (List.mem_flatMap.mpr ⟨name, hgone, hnext⟩)
            · exact hleads name ((hpass name).1.mpr ⟨hname, hwaiting⟩) hmet next hnext

/-- What holds of the names that begin the search, and of what a name leads to if it holds of the
name, holds of all names that are met. -/
theorem releaseRounds_met {P : String → Prop} (hstart : ∀ name ∈ waiting, P name)
    (hleads : ∀ name ∈ kept, P name → ∀ next ∈ leads name, P next) :
    ∀ name ∈ kept, name ∉ releaseRounds (fun _ _ => true) leads rounds waiting kept → P name := by
  induction rounds generalizing waiting kept with
  | zero => exact fun name hname hmet => absurd hname hmet
  | succ rounds ih =>
      intro name hname hmet
      have hpass := mem_release_iff waiting kept
      by_cases hwaiting : name ∈ waiting
      · exact hstart name hwaiting
      · rw [releaseRounds] at hmet
        rcases hrelease : release (fun _ _ => true) waiting kept with ⟨left, gone⟩
        rw [hrelease] at hmet hpass
        have hleft : name ∈ left := (hpass name).1.mpr ⟨hname, hwaiting⟩
        cases gone with
        | nil => exact absurd hleft hmet
        | cons first rest =>
            refine ih (fun next hnext => ?_) (fun other hother => ?_) name hleft hmet
            · obtain ⟨met, hmem, hstep⟩ := List.mem_flatMap.mp hnext
              obtain ⟨hkept, hbegins⟩ := (hpass met).2.mp hmem
              exact hleads met hkept (hstart met hbegins) next hstep
            · exact hleads other ((hpass other).1.mp hother).1

/-- The names of a set that a search leaves are those that no chain of its names leads to. -/
theorem mem_releaseAll_iff :
    name ∈ releaseAll (fun _ _ => true) leads waiting kept ↔
      name ∈ kept ∧ ¬∃ start ∈ waiting,
        ReflTransGen (fun name next => name ∈ kept ∧ next ∈ leads name) start name := by
  constructor
  · intro hfinal
    refine ⟨mem_of_mem_releaseRounds hfinal, ?_⟩
    rintro ⟨start, hstart, hchain⟩
    have hsearch : (∀ name ∈ waiting, name ∉ releaseAll (fun _ _ => true) leads waiting kept) ∧ _ :=
      not_mem_releaseRounds_of_leads (Nat.le_refl kept.size)
    obtain ⟨hbegins, hleads⟩ := hsearch
    have hmet : ∀ other, ReflTransGen (fun name next => name ∈ kept ∧ next ∈ leads name) start
        other → other ∉ releaseAll (fun _ _ => true) leads waiting kept := by
      intro other hother
      induction hother with
      | refl => exact hbegins start hstart
      | tail _ hstep ih => exact hleads _ hstep.1 ih _ hstep.2
    exact hmet name hchain hfinal
  · rintro ⟨hname, hnone⟩
    by_contra hmet
    apply hnone
    refine releaseRounds_met (P := fun name => ∃ start ∈ waiting,
      ReflTransGen (fun name next => name ∈ kept ∧ next ∈ leads name) start name) ?_ ?_ name
      hname hmet
    · exact fun start hstart => ⟨start, hstart, .refl⟩
    · rintro other hother ⟨start, hstart, hchain⟩ next hnext
      exact ⟨start, hstart, hchain.tail ⟨hother, hnext⟩⟩

end Rounds

/-! ## Searching with a stack -/

/-- A search that follows names taken off a stack, from the names seen before to those seen in the
end.  A name that was seen is dropped; one that was not puts the unseen names that it leads to on
the stack, wherever they go there. -/
inductive Searches (leads : String → List String) : List String → NameSet → NameSet → Prop
  | done (seen : NameSet) : Searches leads [] seen seen
  | drop {name : String} {rest : List String} {seen final : NameSet} (hseen : name ∈ seen)
      (hrest : Searches leads rest seen final) : Searches leads (name :: rest) seen final
  | follow {name : String} {rest stack : List String} {seen final : NameSet} (hnew : name ∉ seen)
      (hstack : stack.Perm
        ((leads name).filter (fun next => !(seen.insert name).contains next) ++ rest))
      (hmore : Searches leads stack (seen.insert name) final) :
      Searches leads (name :: rest) seen final

section Stack

variable {leads : String → List String} {stack : List String} {seen final : NameSet}

theorem mem_insert_iff {seen : NameSet} {first name : String} :
    name ∈ seen.insert first ↔ name = first ∨ name ∈ seen := by
  rw [Std.ExtTreeSet.mem_insert, Std.compare_eq_iff_eq, eq_comm]

/-- All that stands on the stack is seen in the end, and so is what a seen name leads to. -/
theorem Searches.closed (h : Searches leads stack seen final) :
    (∀ name ∈ seen, name ∈ final) ∧ (∀ name ∈ stack, name ∈ final) ∧
      ∀ name ∈ final, name ∉ seen → ∀ next ∈ leads name, next ∈ final := by
  induction h with
  | done seen => exact ⟨fun _ hname => hname, by simp, fun _ hname hnew => absurd hname hnew⟩
  | drop hseen _ ih =>
      obtain ⟨hkeeps, hstack, hleads⟩ := ih
      exact ⟨hkeeps, List.forall_mem_cons.mpr ⟨hkeeps _ hseen, hstack⟩, hleads⟩
  | @follow first rest stack seen final hnew hperm _ ih =>
      obtain ⟨hkeeps, hstack, hleads⟩ := ih
      have hfirst : first ∈ final := hkeeps first (mem_insert_iff.mpr (.inl rfl))
      refine ⟨fun name hname => hkeeps name (mem_insert_iff.mpr (.inr hname)),
        List.forall_mem_cons.mpr ⟨hfirst, fun name hname => ?_⟩, fun name hname hunseen => ?_⟩
      · exact hstack name (hperm.mem_iff.mpr (List.mem_append_right _ hname))
      · by_cases hsame : name = first
        · subst hsame
          intro next hnext
          by_cases hbefore : next ∈ seen.insert name
          · exact hkeeps next hbefore
          · refine hstack next (hperm.mem_iff.mpr (List.mem_append_left _ ?_))
            have hcontains : (seen.insert name).contains next = false :=
              Bool.eq_false_iff.mpr (mt Std.ExtTreeSet.contains_iff_mem.mp hbefore)
            exact List.mem_filter.mpr ⟨hnext, by rw [hcontains]; rfl⟩
        · exact hleads name hname fun hmem =>
            (mem_insert_iff.mp hmem).elim hsame hunseen

/-- What holds of the stack, and of what a name leads to if it holds of the name, holds of all names
that are seen on the way. -/
theorem Searches.induction {P : String → Prop} (h : Searches leads stack seen final)
    (hstack : ∀ name ∈ stack, P name) (hleads : ∀ name, P name → ∀ next ∈ leads name, P next) :
    ∀ name ∈ final, name ∉ seen → P name := by
  induction h with
  | done seen => exact fun name hname hnew => absurd hname hnew
  | drop _ _ ih => exact ih (List.forall_mem_cons.mp hstack).2
  | @follow first rest stack seen final _ hperm _ ih =>
      obtain ⟨hfirst, hrest⟩ := List.forall_mem_cons.mp hstack
      have hmore : ∀ name ∈ stack, P name := by
        intro name hname
        rcases List.mem_append.mp (hperm.mem_iff.mp hname) with hnext | hname
        · exact hleads first hfirst name (List.mem_filter.mp hnext).1
        · exact hrest name hname
      intro name hname hunseen
      by_cases hsame : name = first
      · rw [hsame]
        exact hfirst
      · exact ih hmore name hname fun hmem => (mem_insert_iff.mp hmem).elim hsame hunseen

/-- In whatever order names are taken off, a search sees those that a chain leads to. -/
theorem Searches.mem_iff (h : Searches leads stack ∅ final) (name : String) :
    name ∈ final ↔
      ∃ start ∈ stack, ReflTransGen (fun name next => next ∈ leads name) start name := by
  have hnone : ∀ other : String, other ∉ (∅ : NameSet) := fun _ => Std.ExtTreeSet.not_mem_empty
  constructor
  · intro hname
    refine h.induction (P := fun name => ∃ start ∈ stack,
      ReflTransGen (fun name next => next ∈ leads name) start name) ?_ ?_ name hname (hnone name)
    · exact fun start hstart => ⟨start, hstart, .refl⟩
    · rintro other ⟨start, hstart, hchain⟩ next hnext
      exact ⟨start, hstart, hchain.tail hnext⟩
  · rintro ⟨start, hstart, hchain⟩
    obtain ⟨-, hstack, hleads⟩ := h.closed
    induction hchain with
    | refl => exact hstack start hstart
    | @tail other next _ hstep ih => exact hleads other ih (hnone other) next hstep

/-- A name that is followed is one less that is still to be seen. -/
theorem card_unseen_lt {names : Finset String} {name : String} (hname : name ∈ names)
    (hnew : name ∉ seen) :
    (names.filter (· ∉ seen.insert name)).card < (names.filter (· ∉ seen)).card := by
  have hsubset : names.filter (· ∉ seen.insert name) ⊆ names.filter (· ∉ seen) := by
    intro other hother
    obtain ⟨hmem, hunseen⟩ := Finset.mem_filter.mp hother
    exact Finset.mem_filter.mpr ⟨hmem, fun h => hunseen (mem_insert_iff.mpr (.inr h))⟩
  refine Finset.card_lt_card ((Finset.ssubset_iff_of_subset hsubset).mpr ⟨name, ?_, ?_⟩)
  · exact Finset.mem_filter.mpr ⟨hname, hnew⟩
  · simp

/-- If all names belong to a finite set, every search comes to an end. -/
theorem exists_searches (names : Finset String)
    (hleads : ∀ name, ∀ next ∈ leads name, next ∈ names) (stack : List String) (seen : NameSet)
    (hstack : ∀ name ∈ stack, name ∈ names) : ∃ final, Searches leads stack seen final := by
  -- Following a name leaves fewer to be seen, and dropping one shortens the stack.
  induction hsize : (names.filter (· ∉ seen)).card using Nat.strong_induction_on
    generalizing stack seen with
  | _ size ih =>
      induction stack with
      | nil => exact ⟨seen, .done seen⟩
      | cons name rest ihrest =>
          obtain ⟨hname, hrest⟩ := List.forall_mem_cons.mp hstack
          by_cases hseen : name ∈ seen
          · obtain ⟨final, hfinal⟩ := ihrest hrest
            exact ⟨final, .drop hseen hfinal⟩
          · have hless : (names.filter (· ∉ seen.insert name)).card < size :=
              (card_unseen_lt hname hseen).trans_eq hsize
            have hmore : ∀ next ∈ (leads name).filter
                (fun next => !(seen.insert name).contains next) ++ rest, next ∈ names := by
              intro next hnext
              rcases List.mem_append.mp hnext with hnext | hnext
              · exact hleads name next (List.mem_filter.mp hnext).1
              · exact hrest next hnext
            obtain ⟨final, hfinal⟩ := ih _ hless _ (seen.insert name) hmore rfl
            exact ⟨final, .follow hseen (List.Perm.refl _) hfinal⟩

end Stack

/-! ## Chains of references -/

namespace Book

/-- Whether a rule refers to a name: a placeholder of one of its alternatives, whatever the weight
of that one, has the name or passes it as a `$name` value.  Animated placeholders count too. -/
def RefersTo (b : Book) (owner target : String) : Prop :=
  ∃ rule a r, b.rule? owner = some rule ∧ a ∈ rule.alternatives ∧
    .reference r ∈ a.template ∧
      (r.name = target ∨ ∃ arg ∈ r.args, arg.value = .ref target)

/-- Whether a chain of references leads from one name to another one. -/
def Reaches (b : Book) : String → String → Prop :=
  ReflTransGen b.RefersTo

/-- The rules that the rule of a name refers to. -/
def rulesReferredTo (b : Book) (name : String) : List String :=
  (b.targetsOf name).filter b.defines

variable {b : Book} {owner target : String}

theorem RefersTo.defines (h : b.RefersTo owner target) : b.defines owner = true := by
  obtain ⟨rule, -, -, hrule, -⟩ := h
  exact defines_iff.mpr ⟨rule, hrule⟩

/-- What the linter looks at is what a rule refers to. -/
theorem mem_targetsOf_iff : target ∈ b.targetsOf owner ↔ b.RefersTo owner target := by
  unfold targetsOf RefersTo
  cases b.rule? owner with
  | none => simp
  | some rule =>
      simp only [Rule.targets, Rule.references, List.mem_flatMap, List.mem_cons,
        Template.mem_references_iff, Reference.mem_argumentTargets_iff]
      constructor
      · rintro ⟨r, ⟨a, ha, hr⟩, htarget⟩
        exact ⟨rule, a, r, rfl, ha, hr, htarget.imp_left Eq.symm⟩
      · rintro ⟨_, a, r, heq, ha, hr, htarget⟩
        obtain rfl := Option.some.inj heq
        exact ⟨r, ⟨a, ha, hr⟩, htarget.imp_left Eq.symm⟩

/-- A chain to a rule goes through rules only. -/
theorem reaches_iff_of_defines {root name : String} (hname : b.defines name = true) :
    b.Reaches root name ↔
      ReflTransGen (fun name next => next ∈ b.rulesReferredTo name) root name := by
  constructor
  · intro hchain
    induction hchain with
    | refl => exact .refl
    | @tail middle last hmiddle hstep ih =>
        refine (ih hstep.defines).tail ?_
        exact List.mem_filter.mpr ⟨mem_targetsOf_iff.mpr hstep, hname⟩
  · intro hchain
    refine ReflTransGen.mono (fun middle last hstep => ?_) root name hchain
    exact mem_targetsOf_iff.mp (List.mem_filter.mp hstep).1

/-- The names that the linter leaves unreached are the rules that no chain leads to. -/
theorem mem_unreached_iff {root name : String} :
    name ∈ b.unreached root ↔ b.defines name = true ∧ ¬b.Reaches root name := by
  have hsteps : (fun name next => name ∈ b.nameSet ∧ next ∈ b.targetsOf name) = b.RefersTo := by
    funext name next
    rw [mem_nameSet, mem_names, mem_targetsOf_iff]
    exact propext ⟨fun h => h.2, fun h => ⟨h.defines, h⟩⟩
  rw [unreached, mem_releaseAll_iff, hsteps, mem_nameSet, mem_names]
  simp [Reaches]

/-- These are the rules of which a report says that they are never reached. -/
theorem neverReached_mem_lint_iff {root name : String} :
    Finding.neverReached name root ∈ b.lint root ↔
      b.defines root = true ∧ name ∈ b.unreached root := by
  have hmap : Finding.neverReached name root ∈
      (b.unreached root).toList.map (Finding.neverReached · root) ↔ name ∈ b.unreached root := by
    simp
  rw [lint, List.mem_append, List.mem_append, List.mem_append]
  constructor
  · rintro (((h | h) | h) | h)
    · split at h <;> simp at h
    · obtain ⟨r, -, hr⟩ := List.mem_flatMap.mp h
      exact (isLocal_of_mem_checkRule hr).elim
    · simp at h
    · split at h
      · next hroot => exact ⟨hroot, hmap.mp h⟩
      · cases h
  · rintro ⟨hroot, hname⟩
    exact .inr (by rw [if_pos hroot]; exact hmap.mpr hname)

end Book

/-! ## Routes are chains -/

/-- The rule at the end of a route is one that a chain of references leads to. -/
theorem Scene.Leads.reaches {scene : Scene} {site : Site} {name : String} {ρ : Route}
    (h : scene.Leads site name ρ) : scene.book.Reaches name ρ.rule := by
  induction h with
  | last site name => exact .refl
  | @hop site hop name rest hrefers _ ih =>
      obtain ⟨rule, a, r, hrule, -, ha, hr, -, hexpands⟩ := hrefers
      have hname : r.name = name ∨ ∃ arg ∈ r.args, arg.value = .ref name := by
        cases hargument : hop.argument with
        | none => exact .inl (by rwa [hargument] at hexpands)
        | some k =>
            rw [hargument] at hexpands
            obtain ⟨arg, harg, hvalue⟩ := hexpands
            exact .inr ⟨arg, List.mem_of_getElem? harg, hvalue⟩
      have hstep : scene.book.RefersTo hop.rule name :=
        ⟨rule, a, r, hrule, List.mem_of_getElem? ha, List.mem_of_getElem? hr, hname⟩
      exact ih.head hstep

/-- An expansion looks up only what a chain of references leads to. -/
theorem Scene.reaches_of_mem_visits {scene : Scene} {args : Bindings} {stream : Stream}
    {root : String} {v : Visit} (hv : v ∈ (scene.expand args stream root).visits) :
    scene.book.Reaches root v.rule := by
  obtain ⟨ρ, -, hat⟩ := (scene.expand_explores args stream root).visited v hv
  rw [hat.rule]
  exact hat.leads.reaches

/-! ## The main statement -/

namespace Book

/-- The linter warns of exactly the rules that no chain of references leads to from the root; they
are those that a search with a stack does not come by, and every such search ends.  No expansion of
the root looks up a rule that is warned of, and whatever is put in its place changes no text and no
error. -/
theorem neverReached_exact (b : Book) {root : String} (hroot : b.defines root = true) :
    (∀ name, Finding.neverReached name root ∈ b.lint root ↔
      b.defines name = true ∧ ¬b.Reaches root name) ∧
    (∃ final, Searches b.rulesReferredTo [root] ∅ final) ∧
    (∀ final, Searches b.rulesReferredTo [root] ∅ final → ∀ name,
      Finding.neverReached name root ∈ b.lint root ↔ b.defines name = true ∧ name ∉ final) ∧
    ∀ name, Finding.neverReached name root ∈ b.lint root →
      ∀ (maxDepth : Nat) (args : Bindings) (seed : Seed) (time : Float),
        (∀ v ∈ ((b.scene maxDepth time).expand args (Stream.ofSeed seed) root).visits,
          v.rule ≠ name) ∧
        ∀ b' : Book, (∀ other, other ≠ name → b'.rule? other = b.rule? other) →
          b'.generate maxDepth root args seed time = b.generate maxDepth root args seed time := by
  have hreport : ∀ name, Finding.neverReached name root ∈ b.lint root ↔
      b.defines name = true ∧ ¬b.Reaches root name := by
    intro name
    rw [neverReached_mem_lint_iff, mem_unreached_iff, and_iff_right hroot]
  refine ⟨hreport, ?_, fun final hfinal name => ?_, fun name hname maxDepth args seed time => ?_⟩
  · refine exists_searches b.names.toFinset (fun name next hnext => ?_) [root] ∅ ?_
    · exact List.mem_toFinset.mpr (mem_names.mpr (List.mem_filter.mp hnext).2)
    · simpa using mem_names.mpr hroot
  · rw [hreport]
    refine and_congr_right fun hdefined => not_congr ?_
    rw [reaches_iff_of_defines hdefined, hfinal.mem_iff]
    simp
  · have hvisits : ∀ v ∈ ((b.scene maxDepth time).expand args (Stream.ofSeed seed) root).visits,
        v.rule ≠ name := by
      rintro v hv rfl
      exact ((hreport _).mp hname).2 (Scene.reaches_of_mem_visits hv)
    refine ⟨hvisits, fun b' hsame => ?_⟩
    have hrun : (b'.scene maxDepth time).expand args (Stream.ofSeed seed) root =
        (b.scene maxDepth time).expand args (Stream.ofSeed seed) root :=
      Scene.expandWithin_kept (b.scene maxDepth time) b' _ args (.root (Stream.ofSeed seed)) root
        fun v hv => hsame v.rule (hvisits v hv)
    rw [generate, generate, hrun]

/-- A rule that refers to the root and to itself is not reached by that; one that only a `$name`
value of an animated placeholder names, in an alternative that is never chosen, is. -/
theorem neverReached_exact_spare :
    let source := "root:\n- {{ card(name: $who) }}\n- [0] {{ ~ease(from: $span) }}\ncard:\n" ++
      "- {{ root }}\nwho:\n- Ada\nspan:\n- 1\nspare:\n- {{ root }} {{ spare }}\n"
    let b : Book := (Book.parse source).toOption.getD {}
    b.defines "root" = true ∧ ¬b.Reaches "root" "spare" ∧ b.Reaches "root" "span" ∧
      ∀ (maxDepth : Nat) (args : Bindings) (seed : Seed) (time : Float),
        ∀ v ∈ ((b.scene maxDepth time).expand args (Stream.ofSeed seed) "root").visits,
          v.rule ≠ "spare" := by
  intro source b
  have hroot : b.defines "root" = true := by decide +kernel
  have hspan : b.defines "span" = true := by decide +kernel
  obtain ⟨hreport, -, -, hunseen⟩ := neverReached_exact b hroot
  have hfound : Finding.neverReached "spare" "root" ∈ b.lint "root" := by decide +kernel
  have hfree : Finding.neverReached "span" "root" ∉ b.lint "root" := by decide +kernel
  refine ⟨hroot, ((hreport "spare").mp hfound).2, ?_, fun maxDepth args seed time => ?_⟩
  · by_contra hnone
    exact hfree ((hreport "span").mpr ⟨hspan, hnone⟩)
  · exact (hunseen "spare" hfound maxDepth args seed time).1

end Book

end Phrasebook
