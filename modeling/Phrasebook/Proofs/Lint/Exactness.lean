import Phrasebook.Proofs.Imports.WellFormed
import Phrasebook.Proofs.Lint.Verdict

/-!
# The verdict is exact in a closed book

In a book without arguments, where each reference names a rule or a curve (`Book.Closed`), nothing
is excused, and the linter reports exactly the rules that no choice of alternatives lets finish.
One direction is `not_mem_unfinished_of_finishesWithin`.  For the other one, the names that have
left the set of unfinished rules are counted: a rule leaves it on account of rules that left before,
so it finishes with no more nested references than rules left before it
(`Closed.finishesWithin_of_not_mem`).

A rule may leave in the same sweep as one that it counts on, so how fast the set shrinks depends on
the order in which the rules are visited.  What is left in the end does not (`sweeps_iff`): the
final set cannot lose a name, and a set that cannot lose a name is never cut into.
-/

namespace Phrasebook

/-! ## Sweeps in any order -/

/-- Sweeps over the same names, each in an order of its own, until one in which no name leaves. -/
inductive Sweeps (mayLeave : NameSet → String → Bool) (names : List String) :
    NameSet → NameSet → Prop
  | last {order : List String} {kept : NameSet} (horder : order.Perm names)
      (hstays : (release mayLeave order kept).2 = []) : Sweeps mayLeave names kept kept
  | next {order : List String} {kept final : NameSet} (horder : order.Perm names)
      (hleaves : (release mayLeave order kept).2 ≠ [])
      (hmore : Sweeps mayLeave names (release mayLeave order kept).1 final) :
      Sweeps mayLeave names kept final

section Sweeps

variable {mayLeave : NameSet → String → Bool} {frees : String → List String}

/-- A name that may leave a set may leave each part of it. -/
def Hereditary (mayLeave : NameSet → String → Bool) : Prop :=
  ∀ (kept more : NameSet) (name : String), (∀ other ∈ kept, other ∈ more) →
    mayLeave more name = true → mayLeave kept name = true

/-- No name of the set may leave it. -/
def Stable (mayLeave : NameSet → String → Bool) (kept : NameSet) : Prop :=
  ∀ name ∈ kept, mayLeave kept name = false

/-- When a name leaves a set, it was not in a stable part of it. -/
theorem Stable.subset_erase {stable : NameSet} (hstable : Stable mayLeave stable)
    (hless : Hereditary mayLeave) (kept : NameSet) (gone : String)
    (hsub : ∀ name ∈ stable, name ∈ kept) (hmay : mayLeave kept gone = true) :
    ∀ name ∈ stable, name ∈ kept.erase gone := by
  intro name hname
  have hne : gone ≠ name := by
    rintro rfl
    have hmay' : mayLeave stable gone = true := hless stable kept gone hsub hmay
    simp [hstable gone hname] at hmay'
  rw [Std.ExtTreeSet.mem_erase]
  exact ⟨Std.compare_eq_iff_eq.not.mpr hne, hsub name hname⟩

/-- A sweep in which no name leaves finds none that may leave. -/
theorem mayLeave_of_release_eq_nil {order : List String} {kept : NameSet}
    (h : (release mayLeave order kept).2 = []) :
    ∀ name ∈ order, name ∈ kept → mayLeave kept name = false := by
  induction order with
  | nil => simp
  | cons first rest ih =>
      rw [release] at h
      split at h
      · cases h
      · next hstays =>
          refine List.forall_mem_cons.mpr ⟨fun hmem => ?_, ih h⟩
          simpa [Std.ExtTreeSet.contains_iff_mem.mpr hmem] using hstays

theorem Sweeps.subset {names : List String} {kept final stable : NameSet}
    (h : Sweeps mayLeave names kept final) (hless : Hereditary mayLeave)
    (hstable : Stable mayLeave stable) (hsub : ∀ name ∈ stable, name ∈ kept) :
    ∀ name ∈ stable, name ∈ final := by
  induction h with
  | last => exact hsub
  | next _ _ _ ih =>
      apply ih
      refine release_induction (P := fun kept => ∀ name ∈ stable, name ∈ kept) ?_ _ hsub
      exact fun kept gone hsub _ hmay => hstable.subset_erase hless kept gone hsub hmay

theorem Sweeps.stable {names : List String} {kept final : NameSet}
    (h : Sweeps mayLeave names kept final) (hnames : ∀ name ∈ kept, name ∈ names) :
    Stable mayLeave final ∧ ∀ name ∈ final, name ∈ kept := by
  induction h with
  | last horder hstays =>
      refine ⟨fun name hname => ?_, fun _ hname => hname⟩
      exact mayLeave_of_release_eq_nil hstays name (horder.mem_iff.mpr (hnames name hname)) hname
  | next _ _ _ ih =>
      obtain ⟨hstable, hsub⟩ := ih fun name hname => hnames name (mem_of_mem_release hname)
      exact ⟨hstable, fun name hname => mem_of_mem_release (hsub name hname)⟩

/-- Sweeps come to an end. -/
theorem exists_sweeps (mayLeave : NameSet → String → Bool) (names : List String)
    (kept : NameSet) : ∃ final, Sweeps mayLeave names kept final := by
  induction hsize : kept.size using Nat.strong_induction_on generalizing kept with
  | _ size ih =>
      by_cases hgone : (release mayLeave names kept).2 = []
      · exact ⟨kept, .last (List.Perm.refl names) hgone⟩
      · have hcount := size_release mayLeave names kept
        have hpos : 0 < (release mayLeave names kept).2.length := List.length_pos_iff.mpr hgone
        obtain ⟨final, hfinal⟩ := ih _ (by omega) (release mayLeave names kept).1 rfl
        exact ⟨final, .next (List.Perm.refl names) hgone hfinal⟩

/-- In whatever order names are visited, the same ones are kept in the end. -/
theorem sweeps_iff (hless : Hereditary mayLeave) (hcomplete : Complete mayLeave frees)
    {names : List String} {kept : NameSet} (hnames : ∀ name ∈ kept, name ∈ names)
    (final : NameSet) :
    Sweeps mayLeave names kept final ↔ final = releaseAll mayLeave frees names kept := by
  have hstable : Stable mayLeave (releaseAll mayLeave frees names kept) :=
    mayLeave_releaseAll hcomplete hnames
  have hunique : ∀ final, Sweeps mayLeave names kept final →
      final = releaseAll mayLeave frees names kept := by
    intro final hsweeps
    obtain ⟨hfinal, hsub⟩ := hsweeps.stable hnames
    refine Std.ExtTreeSet.ext_mem fun name => ⟨?_, ?_⟩
    · refine releaseAll_induction (P := fun kept => ∀ name ∈ final, name ∈ kept) ?_ names hsub name
      exact fun kept gone hsub _ hmay => hfinal.subset_erase hless kept gone hsub hmay
    · exact hsweeps.subset hless hstable (fun _ hname => mem_of_mem_releaseRounds hname) name
  refine ⟨hunique final, ?_⟩
  rintro rfl
  obtain ⟨final, hfinal⟩ := exists_sweeps mayLeave names kept
  exact hunique final hfinal ▸ hfinal

end Sweeps

namespace Book

theorem settles_of_subset {bound kept more : NameSet} (hsub : ∀ name ∈ kept, name ∈ more)
    {name : String} (h : settles bound more name = true) : settles bound kept name = true := by
  unfold settles at h ⊢
  simp only [Bool.or_eq_true, Bool.not_eq_true', ← Bool.not_eq_true,
    Std.ExtTreeSet.contains_iff_mem] at h ⊢
  exact h.imp_right fun hfree hmem => hfree (hsub name hmem)

theorem ruleFinishes_hereditary (b : Book) (bound : NameSet) :
    Hereditary (b.ruleFinishes bound) := by
  intro kept more name hsub h
  unfold ruleFinishes at h ⊢
  cases hr : b.rule? name with
  | none => simp [hr] at h
  | some r =>
      rw [hr] at h
      obtain ⟨a, ha, hfinish⟩ := List.any_eq_true.mp h
      refine List.any_eq_true.mpr ⟨a, ha, ?_⟩
      simp only [canFinish, Bool.and_eq_true, List.all_eq_true, Bool.or_eq_true] at hfinish ⊢
      refine ⟨hfinish.1, fun ref href => (hfinish.2 ref href).imp_right fun hsettled => ?_⟩
      exact ⟨settles_of_subset hsub hsettled.1,
        fun target htarget => settles_of_subset hsub (hsettled.2 target htarget)⟩

/-! ## Closed books -/

/-- A book that passes no arguments and refers to its own rules and to known curves only. -/
structure Closed (b : Book) : Prop where
  args : ∀ name r, b.rule? name = some r → ∀ ref ∈ r.references, ref.args = []
  rules : ∀ name r, b.rule? name = some r → ∀ ref ∈ r.references, ref.animated = false →
    b.defines ref.name = true
  curves : ∀ name r, b.rule? name = some r → ∀ ref ∈ r.references, ref.animated = true →
    (Curve.ofName? ref.name).isSome = true

/-- Each rule that has left a set finishes with no more nested references than rules have left. -/
def Counted (b : Book) (kept : NameSet) : Prop :=
  kept.size ≤ b.rules.size ∧ ∀ name, b.defines name = true → name ∉ kept →
    b.FinishesWithin (b.rules.size - kept.size) name

/-- A choice of an alternative of positive weight wherever a rule of the book is expanded. -/
def Picks (b : Book) (choose : Site → Rule → Option Nat) : Prop :=
  ∀ site name r, b.rule? name = some r → ∃ i, choose site r = some i ∧
    Choice.PositiveAt r.weights i

end Book

/-- An animated reference without arguments shows a number if its curve is known. -/
theorem Reference.exists_animate {r : Reference} (hargs : r.args = [])
    (hcurve : (Curve.ofName? r.name).isSome = true) (held : Bindings) (time : Float) :
    ∃ s, r.animate held time = .ok s := by
  have hnumber : ∀ name, r.number name held = .ok none := by
    intro name
    simp [number, argument?, hargs]
  obtain ⟨curve, hname⟩ := Option.isSome_iff_exists.mp hcurve
  simp [animate, places, hnumber, hname]

namespace Book.Closed

variable {b : Book} (hclosed : b.Closed)
include hclosed

theorem keysAgree : b.KeysAgree := by
  intro name r hr ref href _
  rw [argumentNames_eq_empty hclosed.args]
  refine ⟨fun _ hkey => absurd hkey Std.ExtTreeSet.not_mem_empty, ?_⟩
  simp [hclosed.args name r hr ref href]

theorem not_ofAnimation (e : ExpandError) : ¬ e.OfAnimation b := by
  rintro ⟨name, r, ref, held, time, hr, href, hanimated, he⟩
  obtain ⟨s, hs⟩ := Reference.exists_animate (hclosed.args name r hr ref href)
    (hclosed.curves name r hr ref href hanimated) held time
  cases he.symm.trans hs

/-- A rule needs the rules of its references. -/
theorem needs_eq {name : String} {r : Rule} (hr : b.rule? name = some r) {ref : Reference}
    (href : ref ∈ r.references) :
    ref.needs b.argumentNames = if ref.animated then [] else [ref.name] := by
  have hempty : ∀ key, b.argumentNames.contains key = false := by
    intro key
    rw [argumentNames_eq_empty hclosed.args]
    exact Std.ExtTreeSet.contains_empty
  simp [Reference.needs, hclosed.args name r hr ref href, hempty]

theorem not_mem_of_settles {kept : NameSet} {name : String}
    (h : settles b.argumentNames kept name = true) : name ∉ kept := by
  rw [argumentNames_eq_empty hclosed.args, settles, Std.ExtTreeSet.contains_empty, Bool.false_or,
    Bool.not_eq_true', ← Bool.not_eq_true, Std.ExtTreeSet.contains_iff_mem] at h
  exact h

/-- A rule that may leave a set needs one more nested reference than the rules that left before. -/
theorem finishesWithin_of_ruleFinishes {kept : NameSet} {left : Nat}
    (hleft : ∀ name, b.defines name = true → name ∉ kept → b.FinishesWithin left name)
    {name : String} (h : b.ruleFinishes b.argumentNames kept name = true) :
    b.FinishesWithin (left + 1) name := by
  unfold ruleFinishes at h
  cases hr : b.rule? name with
  | none => simp [hr] at h
  | some r =>
      rw [hr] at h
      obtain ⟨a, ha, hfinish⟩ := List.any_eq_true.mp h
      simp only [canFinish, Bool.and_eq_true, List.all_eq_true, Bool.or_eq_true,
        decide_eq_true_eq] at hfinish
      obtain ⟨hweight, hsettled⟩ := hfinish
      refine ⟨r, hr, a, ha, hweight, fun ref href needed hneeded => ?_⟩
      have hmem : ref ∈ r.references := List.mem_flatMap.mpr ⟨a, ha, href⟩
      rw [hclosed.needs_eq hr hmem] at hneeded
      by_cases hanimated : ref.animated = true
      · simp [hanimated] at hneeded
      · rw [if_neg hanimated, List.mem_singleton] at hneeded
        obtain ⟨hself, -⟩ := (hsettled ref href).resolve_left hanimated
        rw [hneeded]
        exact hleft ref.name (hclosed.rules name r hr ref hmem (by simpa using hanimated))
          (hclosed.not_mem_of_settles hself)

end Book.Closed

namespace Book

/-- At the beginning all rules are in the set. -/
theorem counted_nameSet (b : Book) : b.Counted b.nameSet := by
  have hle : b.nameSet.size ≤ b.names.length := Std.ExtTreeSet.size_ofList_le
  rw [length_names] at hle
  refine ⟨hle, fun name hname hnot => ?_⟩
  exact absurd (mem_nameSet.mpr (mem_names.mpr hname)) hnot

/-- When a rule leaves the set, there is one more that has left. -/
theorem Closed.counted_erase {b : Book} (hclosed : b.Closed) {kept : NameSet} {gone : String}
    (hcounted : b.Counted kept) (hmem : gone ∈ kept)
    (hmay : b.ruleFinishes b.argumentNames kept gone = true) : b.Counted (kept.erase gone) := by
  obtain ⟨hle, hleft⟩ := hcounted
  have hsize : (kept.erase gone).size = kept.size - 1 := by
    rw [Std.ExtTreeSet.size_erase, if_pos (Std.ExtTreeSet.contains_iff_mem.mpr hmem)]
  have hpos : kept.size ≠ 0 := by
    intro hzero
    rw [← Std.ExtTreeSet.eq_empty_iff_size_eq_zero] at hzero
    exact Std.ExtTreeSet.not_mem_empty (hzero ▸ hmem)
  refine ⟨by omega, fun name hname hnot => ?_⟩
  by_cases hsame : gone = name
  · subst hsame
    exact (hclosed.finishesWithin_of_ruleFinishes hleft hmay).mono (by omega)
  · have hnot' : name ∉ kept := by
      intro hkept
      exact hnot (Std.ExtTreeSet.mem_erase.mpr ⟨Std.compare_eq_iff_eq.not.mpr hsame, hkept⟩)
    exact (hleft name hname hnot').mono (by omega)

/-- A rule that is not reported finishes with no more nested references than there are rules. -/
theorem Closed.finishesWithin_of_not_mem {b : Book} (hclosed : b.Closed) {name : String}
    (hname : b.defines name = true) (hnot : name ∉ b.unfinished) :
    b.FinishesWithin b.rules.size name := by
  have hcounted : b.Counted b.unfinished := by
    refine releaseAll_induction (P := b.Counted) ?_ b.names b.counted_nameSet
    exact fun kept gone hcounted hmem hmay => hclosed.counted_erase hcounted hmem hmay
  exact (hcounted.2 name hname hnot).mono (Nat.sub_le _ _)

/-- A choice of alternatives by which each rule that is not reported finishes. -/
theorem Closed.exists_picks {b : Book} (hclosed : b.Closed) (hb : b.Obtained) :
    ∃ choose, b.Picks choose ∧ ∀ left name, b.FinishesWithin left name →
      ∀ limit time stream, ∃ p,
        ((Scene.mk b limit time choose).expandWithin left ∅ (.root stream) name).result = .ok p := by
  have hpositive : ∀ name r i, b.rule? name = some r → Choice.lastPositive r.weights = some i →
      Choice.PositiveAt r.weights i := fun _ _ _ _ hi => Choice.positiveAt_of_lastPositive hi
  obtain ⟨pick, hpick, htotal, hfails⟩ := exists_choice_extending hb _ hpositive
  refine ⟨fun _ r => pick r, fun site name r hr => ?_,
    fun left name hfinishes limit time stream => ?_⟩
  · have hrule := hb.wellFormed.rules name r hr
    obtain ⟨j, hj⟩ := Choice.exists_positiveAt hrule.zero_le_weights hrule.total_pos
    have hne : pick r ≠ none := fun hnone => Choice.lastPositive_ne_none hj (htotal r hnone)
    obtain ⟨i, hi⟩ := Option.ne_none_iff_exists'.mp hne
    exact ⟨i, hi, hpick name r i hr hi⟩
  · have hcovers : Scene.Covers b.argumentNames ∅ := by
      rw [argumentNames_eq_empty hclosed.args]
      exact fun key hkey => absurd hkey Std.ExtTreeSet.not_mem_empty
    cases hresult : ((Scene.mk b limit time fun _ r => pick r).expandWithin left ∅ (.root stream)
        name).result with
    | ok p => exact ⟨p, rfl⟩
    | error e =>
        have he := hfails limit time left ∅ (.root stream) name e hcovers hfinishes hresult
        exact absurd he (hclosed.not_ofAnimation e)

/-- A rule that is not reported finishes with some choice. -/
theorem Closed.exists_expand {b : Book} (hclosed : b.Closed) (hb : b.Obtained) {name : String}
    (hname : b.defines name = true) (hnot : name ∉ b.unfinished) :
    ∃ choose, b.Picks choose ∧ ∃ limit < b.rules.size, ∀ time stream, ∃ p,
      ((Scene.mk b limit time choose).expand ∅ stream name).result = .ok p := by
  have hfinishes : b.FinishesWithin b.rules.size name :=
    hclosed.finishesWithin_of_not_mem hname hnot
  obtain ⟨choose, hpicks, hresult⟩ := hclosed.exists_picks hb
  cases hsize : b.rules.size with
  | zero =>
      rw [hsize] at hfinishes
      exact hfinishes.elim
  | succ less =>
      rw [hsize] at hfinishes
      exact ⟨choose, hpicks, less, by omega, hresult (less + 1) name hfinishes less⟩

/-- A rule that finishes with some choice is not reported. -/
theorem Closed.not_mem_unfinished_of_expand {b : Book} (hclosed : b.Closed) (hb : b.Obtained)
    {choose : Site → Rule → Option Nat} (hpicks : b.Picks choose) {limit : Nat} {time : Float}
    {stream : Stream} {name : String} {p : Passage}
    (hresult : ((Scene.mk b limit time choose).expand ∅ stream name).result = .ok p) :
    name ∉ b.unfinished := by
  have hpositive : (Scene.mk b limit time choose).ChoosesPositive := by
    intro site owner r i hr hi
    obtain ⟨j, hj, hpos⟩ := hpicks site owner r hr
    obtain rfl := Option.some.inj (hi.symm.trans hj)
    exact hpos
  have hwithin : Scene.Within b.argumentNames ∅ :=
    fun key hkey => absurd hkey Std.ExtTreeMap.not_mem_empty
  exact not_mem_unfinished_of_finishesWithin hb hclosed.keysAgree <|
    Scene.finishesWithin_of_expandWithin hpositive (limit + 1) ∅ (.root stream) name p hwithin
      hresult

/-- In a closed book the linter reports a rule exactly if no choice of alternatives lets it finish,
however many references may be nested.  If it is not reported, then with some choice fewer nested
references than there are rules are enough.  In which order the linter visits the rules makes no
difference. -/
theorem neverFinishes_exact {b : Book} (hb : b.Obtained) (hclosed : b.Closed) :
    (∀ name, b.defines name = true → ∀ root,
      (Finding.neverFinishes name ∈ b.lint root ↔
        ∀ choose, b.Picks choose → ∀ limit time stream p,
          ((Scene.mk b limit time choose).expand ∅ stream name).result ≠ .ok p) ∧
      (Finding.neverFinishes name ∉ b.lint root →
        ∃ choose, b.Picks choose ∧ ∃ limit < b.rules.size, ∀ time stream, ∃ p,
          ((Scene.mk b limit time choose).expand ∅ stream name).result = .ok p)) ∧
    (∃ final, Sweeps (b.ruleFinishes b.argumentNames) b.names b.nameSet final) ∧
    ∀ final, Sweeps (b.ruleFinishes b.argumentNames) b.names b.nameSet final →
      ∀ name root, Finding.neverFinishes name ∈ b.lint root ↔ name ∈ final := by
  have hnames : ∀ name ∈ b.nameSet, name ∈ b.names := fun _ hname => mem_nameSet.mp hname
  have hsweeps := sweeps_iff (b.ruleFinishes_hereditary b.argumentNames)
    (complete_users hb b.argumentNames) hnames
  refine ⟨fun name hname root => ?_, ⟨b.unfinished, (hsweeps _).mpr rfl⟩, fun final hfinal => ?_⟩
  · rw [neverFinishes_mem_lint_iff]
    refine ⟨⟨fun hmem choose hpicks limit time stream p hresult => ?_, fun hfails => ?_⟩,
      hclosed.exists_expand hb hname⟩
    · exact hclosed.not_mem_unfinished_of_expand hb hpicks hresult hmem
    · by_contra hnot
      obtain ⟨choose, hpicks, limit, -, hresult⟩ := hclosed.exists_expand hb hname hnot
      obtain ⟨p, hp⟩ := hresult 0 (.ofSeed ⟨[0], by simp⟩)
      exact hfails choose hpicks limit 0 _ p hp
  · intro name root
    rw [neverFinishes_mem_lint_iff, (hsweeps final).mp hfinal]
    rfl

/-- Two rules that count on each other, and one with a way out. -/
theorem neverFinishes_exact_ring :
    let source := "root:\n- {{ ring }}\n- [0] done\nring:\n- {{ root }}\nexit:\n" ++
      "- {{ ring }}\n- {{ ~ease }}\n"
    let b : Book := (Book.parse source).toOption.getD {}
    b.Obtained ∧ b.Closed ∧ b.defines "ring" = true ∧ b.defines "exit" = true ∧
      (∀ choose, b.Picks choose → ∀ limit time stream p,
        ((Scene.mk b limit time choose).expand ∅ stream "ring").result ≠ .ok p) ∧
      ∃ choose, b.Picks choose ∧ ∃ limit < b.rules.size, ∀ time stream, ∃ p,
        ((Scene.mk b limit time choose).expand ∅ stream "exit").result = .ok p := by
  intro source b
  have hparse : Book.parse source = .ok b :=
    Except.eq_ok_getD (x := Book.parse source) (by decide) {}
  have hreferences : ∀ r ∈ b.ruleList, ∀ ref ∈ r.references, ref.args = [] ∧
      (ref.animated = false → b.defines ref.name = true) ∧
      (ref.animated = true → (Curve.ofName? ref.name).isSome = true) := by decide
  have hclosed : b.Closed := by
    have hall : ∀ name r, b.rule? name = some r → r ∈ b.ruleList :=
      fun name r hr => mem_ruleList.mpr ⟨name, hr⟩
    exact ⟨fun name r hr ref href => (hreferences r (hall name r hr) ref href).1,
      fun name r hr ref href => (hreferences r (hall name r hr) ref href).2.1,
      fun name r hr ref href => (hreferences r (hall name r hr) ref href).2.2⟩
  have hring : b.defines "ring" = true := by decide
  have hexit : b.defines "exit" = true := by decide
  obtain ⟨hexact, -, -⟩ := neverFinishes_exact (.parsed hparse) hclosed
  have hfound : Finding.neverFinishes "ring" ∈ b.lint "root" := by decide +kernel
  have hfree : Finding.neverFinishes "exit" ∉ b.lint "root" := by decide +kernel
  refine ⟨.parsed hparse, hclosed, hring, hexit, (hexact "ring" hring "root").1.mp hfound, ?_⟩
  exact (hexact "exit" hexit "root").2 hfree

end Book

end Phrasebook
