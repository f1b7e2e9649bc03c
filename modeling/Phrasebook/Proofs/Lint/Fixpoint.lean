import Phrasebook.Lint.Check
import Phrasebook.Proofs.Imports.Obtained

/-!
# No rule is left that may leave

`releaseAll` looks again only at names that something which left has freed.  If these
are all the names that may leave on its account, then no name of the final set may
leave it: the set is a fixpoint (`mayLeave_releaseAll`).  For the rules that never
finish this means that none of them has an alternative that can finish, given the
others (`Book.not_ruleFinishes_of_unfinished`).
-/

namespace Phrasebook

/-! ## Releasing -/

section Release

variable {mayLeave : NameSet → String → Bool} {frees : String → List String}

/-- A name that starts to be free to leave when another one leaves is among those that
are looked at again. -/
def Complete (mayLeave : NameSet → String → Bool) (frees : String → List String) : Prop :=
  ∀ (kept : NameSet) (gone name : String), mayLeave kept name = false →
    mayLeave (kept.erase gone) name = true → name ∈ frees gone

/-- After a pass, a name that may leave was freed in the pass, or it was not looked at
and could leave before. -/
theorem mayLeave_of_release (hcomplete : Complete mayLeave frees) {names : List String}
    {kept : NameSet} {name : String} (hname : name ∈ (release mayLeave names kept).1)
    (hleave : mayLeave (release mayLeave names kept).1 name = true) :
    name ∈ (release mayLeave names kept).2.flatMap frees ∨
      (name ∉ names ∧ mayLeave kept name = true) := by
  -- If the first name leaves, a name that may leave only now is one that it frees.
  induction names generalizing kept with
  | nil => exact Or.inr ⟨List.not_mem_nil, hleave⟩
  | cons first rest ih =>
      rw [release] at hname hleave ⊢
      split at hname
      · next hgone =>
          rw [if_pos hgone] at hleave ⊢
          have hne : name ≠ first := by
            rintro rfl
            have hmem := mem_of_mem_release hname
            simp at hmem
          rcases ih hname hleave with hfreed | ⟨hrest, hbefore⟩
          · exact Or.inl (List.mem_append_right _ hfreed)
          · cases hfirst : mayLeave kept name with
            | true => exact Or.inr ⟨by simp [hne, hrest], rfl⟩
            | false =>
                have hfreed : name ∈ frees first := hcomplete kept first name hfirst hbefore
                exact Or.inl (List.mem_append_left _ hfreed)
      · next hstays =>
          rw [if_neg hstays] at hleave ⊢
          rcases ih hname hleave with hfreed | ⟨hrest, hbefore⟩
          · exact Or.inl hfreed
          · refine Or.inr ⟨?_, hbefore⟩
            rw [List.mem_cons, not_or]
            refine ⟨?_, hrest⟩
            rintro rfl
            have hmem : name ∈ kept := mem_of_mem_release hname
            simp [Std.ExtTreeSet.contains_iff_mem.mpr hmem, hbefore] at hstays

/-- What holds of a set as long as only names leave it that may leave holds after a pass. -/
theorem release_induction {P : NameSet → Prop}
    (hleave : ∀ kept name, P kept → name ∈ kept → mayLeave kept name = true → P (kept.erase name))
    (names : List String) {kept : NameSet} (h : P kept) : P (release mayLeave names kept).1 := by
  induction names generalizing kept with
  | nil => exact h
  | cons first rest ih =>
      rw [release]
      by_cases hfirst : (kept.contains first && mayLeave kept first) = true
      · rw [if_pos hfirst]
        obtain ⟨hmem, hmay⟩ := Bool.and_eq_true_iff.mp hfirst
        exact ih (hleave kept first h (Std.ExtTreeSet.contains_iff_mem.mp hmem) hmay)
      · rw [if_neg hfirst]
        exact ih h

theorem releaseRounds_induction {P : NameSet → Prop}
    (hleave : ∀ kept name, P kept → name ∈ kept → mayLeave kept name = true → P (kept.erase name))
    (rounds : Nat) (waiting : List String) {kept : NameSet} (h : P kept) :
    P (releaseRounds mayLeave frees rounds waiting kept) := by
  induction rounds generalizing waiting kept with
  | zero => exact h
  | succ rounds ih =>
      have hpass := release_induction hleave waiting h
      rw [releaseRounds]
      split
      · next hrelease => rwa [hrelease] at hpass
      · next hrelease => exact ih _ (by rwa [hrelease] at hpass)

/-- What holds of a set as long as only names leave it that may leave holds of the final set. -/
theorem releaseAll_induction {P : NameSet → Prop}
    (hleave : ∀ kept name, P kept → name ∈ kept → mayLeave kept name = true → P (kept.erase name))
    (waiting : List String) {kept : NameSet} (h : P kept) :
    P (releaseAll mayLeave frees waiting kept) :=
  releaseRounds_induction hleave kept.size waiting h

/-- With as many rounds as names, the last round finds nothing that may leave. -/
theorem mayLeave_releaseRounds (hcomplete : Complete mayLeave frees) {rounds : Nat}
    {waiting : List String} {kept : NameSet} (hsize : kept.size ≤ rounds)
    (hwaiting : ∀ name ∈ kept, mayLeave kept name = true → name ∈ waiting) :
    ∀ name ∈ releaseRounds mayLeave frees rounds waiting kept,
      mayLeave (releaseRounds mayLeave frees rounds waiting kept) name = false := by
  -- A round in which nothing leaves is the last one; any other leaves fewer names.
  induction rounds generalizing waiting kept with
  | zero =>
      intro name hname
      have hempty : kept = ∅ := Std.ExtTreeSet.eq_empty_iff_size_eq_zero.mpr (by omega)
      rw [releaseRounds, hempty] at hname
      exact absurd hname Std.ExtTreeSet.not_mem_empty
  | succ rounds ih =>
      have hpass : ∀ name ∈ (release mayLeave waiting kept).1,
          mayLeave (release mayLeave waiting kept).1 name = true →
            name ∈ (release mayLeave waiting kept).2.flatMap frees := by
        intro name hname hleave
        rcases mayLeave_of_release hcomplete hname hleave with hfreed | ⟨hnot, hbefore⟩
        · exact hfreed
        · exact absurd (hwaiting name (mem_of_mem_release hname) hbefore) hnot
      have hcount := size_release mayLeave waiting kept
      rw [releaseRounds]
      rcases hrelease : release mayLeave waiting kept with ⟨left, gone⟩
      rw [hrelease] at hpass hcount
      cases gone with
      | nil =>
          intro name hname
          rw [← Bool.not_eq_true]
          intro hleave
          exact List.not_mem_nil (hpass name hname hleave)
      | cons first rest =>
          rw [List.length_cons] at hcount
          have hleft : left.size ≤ rounds := by
            change left.size + (rest.length + 1) = kept.size at hcount
            omega
          exact ih hleft hpass

/-- No name of the final set may leave it. -/
theorem mayLeave_releaseAll (hcomplete : Complete mayLeave frees) {waiting : List String}
    {kept : NameSet} (hwaiting : ∀ name ∈ kept, name ∈ waiting) :
    ∀ name ∈ releaseAll mayLeave frees waiting kept,
      mayLeave (releaseAll mayLeave frees waiting kept) name = false :=
  mayLeave_releaseRounds hcomplete (Nat.le_refl _) fun name hname _ => hwaiting name hname

end Release

/-- Whether a finding is about a reference or a weight of one rule. -/
def Finding.IsLocal : Finding → Prop
  | .undefinedReference .. | .undefinedArgument .. | .zeroWeight .. => True
  | .noRoot _ | .neverFinishes _ | .neverReached .. => False

/-! ## Rules that refer to a name -/

namespace Book

private theorem getElem?_foldl_users (owner : String) (targets : List String)
    (m : NameMap (List String)) (name : String) :
    ∀ user, user ∈ (targets.foldl (fun m target => m.insert target (owner :: m[target]?.getD []))
        m)[name]?.getD [] ↔ (user = owner ∧ name ∈ targets) ∨ user ∈ m[name]?.getD [] := by
  induction targets generalizing m with
  | nil => simp
  | cons target rest ih =>
      intro user
      rw [List.foldl_cons, ih, Std.ExtTreeMap.getElem?_insert]
      by_cases htarget : target = name
      · subst htarget
        simp only [Std.compare_self, if_true, Option.getD_some, List.mem_cons, true_or, and_true]
        tauto
      · rw [if_neg (by simpa [Std.compare_eq_iff_eq] using htarget)]
        simp [Ne.symm htarget]

/-- The users of a name are the rules that refer to it. -/
theorem mem_users {b : Book} {name user : String} :
    user ∈ b.users[name]?.getD [] ↔ ∃ r ∈ b.ruleList, r.name = user ∧ name ∈ r.targets := by
  have hfold : ∀ (rs : List Rule) (m : NameMap (List String)),
      user ∈ (rs.foldl (fun m r => r.targets.foldl (fun m target =>
        m.insert target (r.name :: m[target]?.getD [])) m) m)[name]?.getD [] ↔
          (∃ r ∈ rs, r.name = user ∧ name ∈ r.targets) ∨ user ∈ m[name]?.getD [] := by
    intro rs
    induction rs with
    | nil => simp
    | cons r rest ih =>
        intro m
        rw [List.foldl_cons, ih, getElem?_foldl_users, List.exists_mem_cons_iff, eq_comm,
          or_assoc, or_left_comm]
  rw [users, hfold]
  simp

/-! ## Rules that never finish -/

theorem settles_erase {bound kept : NameSet} {gone name : String} (hne : gone ≠ name) :
    settles bound (kept.erase gone) name = settles bound kept name := by
  unfold settles
  rw [Std.ExtTreeSet.contains_erase, (Std.compare_eq_iff_eq.not.mpr hne |> bne_iff_ne.mpr)]
  rw [Bool.true_and]

/-- Whether an alternative can finish depends on the names that it refers to. -/
theorem canFinish_erase {bound kept : NameSet} {gone : String} {a : Alternative}
    (hfree : ∀ r ∈ Template.references a.template, gone ∉ r.name :: r.argumentTargets) :
    canFinish bound (kept.erase gone) a = canFinish bound kept a := by
  unfold canFinish
  congr 1
  rw [Bool.eq_iff_iff, List.all_eq_true, List.all_eq_true]
  refine forall₂_congr fun r hr => ?_
  have hne : ∀ name ∈ r.name :: r.argumentTargets, gone ≠ name := by
    rintro name hname rfl
    exact hfree r hr hname
  obtain ⟨hname, hargs⟩ := List.forall_mem_cons.mp hne
  have hall : r.argumentTargets.all (settles bound (kept.erase gone)) =
      r.argumentTargets.all (settles bound kept) := by
    rw [Bool.eq_iff_iff, List.all_eq_true, List.all_eq_true]
    exact forall₂_congr fun target htarget => by rw [settles_erase (hargs target htarget)]
  rw [settles_erase hname, hall]

/-- The users of a name are all rules that can begin to finish because of it. -/
theorem complete_users {b : Book} (hb : b.Obtained) (bound : NameSet) :
    Complete (b.ruleFinishes bound) fun name => b.users[name]?.getD [] := by
  intro kept gone name hbefore hafter
  unfold ruleFinishes at hbefore hafter
  cases hr : b.rule? name with
  | none => rw [hr] at hafter; cases hafter
  | some r =>
      rw [hr] at hbefore hafter
      rw [mem_users]
      refine ⟨r, mem_ruleList.mpr ⟨name, hr⟩, hb.named hr, ?_⟩
      by_contra hfree
      have hsame : ∀ a ∈ r.alternatives, canFinish bound (kept.erase gone) a =
          canFinish bound kept a := by
        intro a ha
        refine canFinish_erase fun ref href hmem => hfree ?_
        exact List.mem_flatMap.mpr ⟨ref, List.mem_flatMap.mpr ⟨a, ha, href⟩, hmem⟩
      obtain ⟨a, ha, hfinish⟩ := List.any_eq_true.mp hafter
      rw [hsame a ha] at hfinish
      have hany : r.alternatives.any (canFinish bound kept) = true :=
        List.any_eq_true.mpr ⟨a, ha, hfinish⟩
      exact Bool.noConfusion (hany.symm.trans hbefore)

theorem mem_nameSet {b : Book} {name : String} : name ∈ b.nameSet ↔ name ∈ b.names := by
  rw [nameSet, NameSet.ofList, Std.ExtTreeSet.mem_ofList, List.contains_iff_mem]

/-- A rule that is said never to finish has no alternative that can finish if the
others do not. -/
theorem not_ruleFinishes_of_unfinished {b : Book} (hb : b.Obtained) {name : String}
    (hname : name ∈ b.unfinished) :
    b.ruleFinishes b.argumentNames b.unfinished name = false :=
  mayLeave_releaseAll (complete_users hb b.argumentNames) (fun _ h => mem_nameSet.mp h) name hname

/-- A finding about a rule on its own is about a reference or a weight. -/
theorem isLocal_of_mem_checkRule {b : Book} {bound : NameSet} {r : Rule} {f : Finding}
    (h : f ∈ b.checkRule bound r) : f.IsLocal := by
  rcases List.mem_append.mp h with h | h
  · obtain ⟨ref, -, hfinding⟩ := List.mem_flatMap.mp h
    unfold checkReference at hfinding
    split at hfinding
    · cases hfinding
    · rcases List.mem_append.mp hfinding with hname | htarget
      · split at hname
        · cases hname
        · rw [List.mem_singleton.mp hname]
          trivial
      · obtain ⟨target, -, rfl⟩ := List.mem_map.mp htarget
        trivial
  · obtain ⟨⟨weight, i⟩, -, hfinding⟩ := List.mem_filterMap.mp h
    dsimp only at hfinding
    split at hfinding
    · obtain rfl := Option.some.inj hfinding
      trivial
    · cases hfinding

/-- These are the rules of which a report says that they never finish. -/
theorem neverFinishes_mem_lint_iff {b : Book} {root name : String} :
    Finding.neverFinishes name ∈ b.lint root ↔ name ∈ b.unfinished := by
  have hmap : Finding.neverFinishes name ∈ b.unfinished.toList.map Finding.neverFinishes ↔
      name ∈ b.unfinished := by simp
  rw [lint, List.mem_append, List.mem_append, List.mem_append, hmap]
  constructor
  · rintro (((h | h) | h) | h)
    · split at h <;> simp at h
    · obtain ⟨r, -, hr⟩ := List.mem_flatMap.mp h
      exact (isLocal_of_mem_checkRule hr).elim
    · exact h
    · split at h <;> simp at h
  · exact fun h => Or.inl (Or.inr h)

end Book

end Phrasebook
