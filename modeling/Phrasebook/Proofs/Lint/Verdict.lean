import Phrasebook.Proofs.Lint.Finishing

/-!
# The verdict that a rule never finishes

`Book.unfinished` is a fixpoint: none of its rules has an alternative that finishes
without another one of them.  If the linter excuses every name that an expansion
excuses, then a rule that can finish is none of them, by induction on the depth of
its expansion (`not_mem_unfinished_of_finishesWithin`).

The linter excuses a reference by the name of its rule, and an expansion by the name
that was written.  In a book that is read these are the same, and the verdict is
right.  An import can put them apart: `{{ name }}` in an imported `card` becomes a
reference to `lib.name` that is still looked for under `name`, and if the library has a
rule `name` of its own, the card is reported although it finishes wherever `name` is
passed (`neverFinishes_imported_card`).
-/

namespace Phrasebook

/-! ## Names as they are written -/

/-- If the name that a reference or an argument is looked for under is bound, then so
is the name of the rule. -/
def Reference.KeysAgree (bound : NameSet) (r : Reference) : Prop :=
  (r.args = [] → r.bindingKey ∈ bound → r.name ∈ bound) ∧
    ∀ a ∈ r.args, ∀ target, a.value = .ref target → a.binding.getD target ∈ bound →
      target ∈ bound

/-- The names that the linter excuses are among those that an expansion may find bound. -/
def Book.KeysAgree (b : Book) : Prop :=
  ∀ name r, b.rule? name = some r → ∀ ref ∈ r.references, ref.animated = false →
    ref.KeysAgree b.argumentNames

theorem Reference.Unrenamed.keysAgree {r : Reference} (h : r.Unrenamed) (bound : NameSet) :
    r.KeysAgree bound := by
  obtain ⟨hbinding, hargs⟩ := h
  constructor
  · intro _ hkey
    rwa [bindingKey, hbinding] at hkey
  · intro a ha target _ hkey
    rwa [hargs a ha] at hkey

/-- Books that are read have no names but those that were written. -/
theorem Book.keysAgree_of_parse {source : String} {b : Book} (h : Book.parse source = .ok b) :
    b.KeysAgree :=
  fun _ _ hr ref href _ => (unrenamed_of_parse h hr ref href).keysAgree b.argumentNames

/-! ## The rules that are reported -/

namespace Book

/-- A reference that needs no reported rule is no obstacle in the eyes of the linter. -/
theorem settled_of_needs {bound unfinished : NameSet} {r : Reference}
    (hagree : r.animated = false → r.KeysAgree bound)
    (hneeds : ∀ needed ∈ r.needs bound, needed ∉ unfinished) :
    (r.animated || (settles bound unfinished r.name &&
      r.argumentTargets.all (settles bound unfinished))) = true := by
  have hsettles : ∀ name, (name ∉ bound → name ∉ unfinished) →
      settles bound unfinished name = true := by
    intro name hname
    by_cases hbound : name ∈ bound
    · simp [settles, hbound]
    · have hcontains : unfinished.contains name = false :=
        Bool.eq_false_iff.mpr fun h => hname hbound (Std.ExtTreeSet.contains_iff_mem.mp h)
      simp [settles, hcontains]
  by_cases hanimated : r.animated = true
  · simp [hanimated]
  · have hkeys : r.KeysAgree bound := hagree (by simpa using hanimated)
    obtain ⟨hname, hargs⟩ := hkeys
    unfold Reference.needs at hneeds
    rw [if_neg hanimated] at hneeds
    obtain ⟨hvalues, htarget⟩ := List.forall_mem_append.mp hneeds
    have hrule : settles bound unfinished r.name = true := by
      refine hsettles r.name fun hfree => htarget r.name ?_
      have hwritten : ¬ (r.args.isEmpty && bound.contains r.bindingKey) = true := by
        intro h
        obtain ⟨hempty, hkey⟩ := Bool.and_eq_true_iff.mp h
        exact hfree (hname (List.isEmpty_iff.mp hempty) (Std.ExtTreeSet.contains_iff_mem.mp hkey))
      rw [if_neg hwritten]
      exact List.mem_singleton.mpr rfl
    have htargets : ∀ target ∈ r.argumentTargets, settles bound unfinished target = true := by
      intro target htarget'
      obtain ⟨a, ha, heq⟩ := List.mem_filterMap.mp htarget'
      cases hvalue : a.value with
      | text s => rw [hvalue] at heq; cases heq
      | ref name =>
          rw [hvalue] at heq
          obtain rfl := Option.some.inj heq
          refine hsettles name fun hfree => hvalues name (List.mem_filterMap.mpr ⟨a, ha, ?_⟩)
          rw [hvalue]
          refine if_neg fun hkey => hfree (hargs a ha name hvalue ?_)
          exact Std.ExtTreeSet.contains_iff_mem.mp hkey
    simp [hrule, List.all_eq_true.mpr htargets]

/-- A rule that can finish is not reported. -/
theorem not_mem_unfinished_of_finishesWithin {b : Book} (hb : b.Obtained)
    (hagree : b.KeysAgree) {left : Nat} {name : String} (hfinishes : b.FinishesWithin left name) :
    name ∉ b.unfinished := by
  -- The rules that an alternative needs finish with less depth than its own rule.
  induction left generalizing name with
  | zero => exact hfinishes.elim
  | succ left ih =>
      obtain ⟨r, hr, a, ha, hweight, hneeds⟩ := hfinishes
      have hcan : canFinish b.argumentNames b.unfinished a = true := by
        have hreferences : ∀ ref ∈ Template.references a.template,
            (ref.animated || (settles b.argumentNames b.unfinished ref.name &&
              ref.argumentTargets.all (settles b.argumentNames b.unfinished))) = true := by
          intro ref href
          have hmem : ref ∈ r.references := List.mem_flatMap.mpr ⟨a, ha, href⟩
          apply settled_of_needs (hagree name r hr ref hmem)
          exact fun needed hneeded => ih (hneeds ref href needed hneeded)
        simp [canFinish, hweight, List.all_eq_true.mpr hreferences]
      have hrule : b.ruleFinishes b.argumentNames b.unfinished name = true := by
        rw [ruleFinishes, hr]
        exact List.any_eq_true.mpr ⟨a, ha, hcan⟩
      intro hname
      rw [not_ruleFinishes_of_unfinished hb hname] at hrule
      cases hrule

/-- What is drawn is an alternative of positive weight. -/
theorem Obtained.choosesPositive {b : Book} (hb : b.Obtained) (maxDepth : Nat) (time : Float) :
    (b.scene maxDepth time).ChoosesPositive := by
  intro site name r i hr hi
  have hweights : ∀ w ∈ r.weights, 0 ≤ w := hb.zero_le_weights hr
  exact Choice.positiveAt_of_pick hweights site.stream.not_unit_neg hi

/-- A rule that is reported never succeeds, whatever is drawn, as long as it cannot
finish.  If it can, then it does when the right alternatives are chosen, and only an
animated reference can make it fail; but if references are looked for under the names of
their rules, as in a book that is read, then no rule that is reported can finish. -/
theorem neverFinishes_verdict {b : Book} (hb : b.Obtained) {root name : String}
    (hfound : Finding.neverFinishes name ∈ b.lint root) (maxDepth : Nat) :
    (¬ b.FinishesWithin (min maxDepth maxDepthLimit + 1) name →
      ∀ (args : Bindings) (seed : Seed) (time : Float) (text : String),
        (∀ key ∈ args, key ∈ b.argumentNames) →
          b.generate maxDepth name args seed time ≠ .ok text) ∧
    (b.FinishesWithin (min maxDepth maxDepthLimit + 1) name →
      ∃ pick : Rule → Option Nat,
        (∀ owner r i, b.rule? owner = some r → pick r = some i →
          Choice.PositiveAt r.weights i) ∧
        ∀ (args : Bindings) (stream : Stream) (time : Float) (e : ExpandError),
          (∀ key ∈ b.argumentNames, key ∈ args) →
            (Scene.expand ⟨b, min maxDepth maxDepthLimit, time, fun _ r => pick r⟩
              args stream name).result = .error e → e.OfAnimation b) ∧
    (b.KeysAgree → ¬ b.FinishesWithin (min maxDepth maxDepthLimit + 1) name) ∧
    ((∃ source, Book.parse source = .ok b) → b.KeysAgree) := by
  refine ⟨fun hnever args seed time text hargs hresult => ?_, fun hfinishes => ?_,
    fun hagree hfinishes => ?_, fun ⟨source, hparse⟩ => keysAgree_of_parse hparse⟩
  · obtain ⟨p, hp, -⟩ := Except.map_eq_ok_iff.mp hresult
    have hshows := Scene.finishesWithin_of_expandWithin (hb.choosesPositive maxDepth time)
      (min maxDepth maxDepthLimit + 1)
    exact hnever (hshows args (.root (Stream.ofSeed seed)) name p hargs hp)
  · obtain ⟨pick, hpositive, hfails⟩ := exists_choice_of_finishesWithin hb
    refine ⟨pick, hpositive, fun args stream time e hargs hresult => ?_⟩
    exact hfails (min maxDepth maxDepthLimit) time (min maxDepth maxDepthLimit + 1) args
      (.root stream) name e hargs hfinishes hresult
  · have hname : name ∈ b.unfinished := neverFinishes_mem_lint_iff.mp hfound
    exact not_mem_unfinished_of_finishesWithin hb hagree hfinishes hname

/-- A rule that is nothing but a reference to itself. -/
theorem neverFinishes_verdict_loop :
    let b : Book := (Book.parse "root:\n- {{ root }}\n").toOption.getD {}
    Finding.neverFinishes "root" ∈ b.lint "root" ∧ b.KeysAgree ∧
      ∀ (maxDepth : Nat) (seed : Seed) (time : Float) (text : String),
        b.generate maxDepth "root" ∅ seed time ≠ .ok text := by
  intro b
  have hparse : Book.parse "root:\n- {{ root }}\n" = .ok b :=
    Except.eq_ok_getD (by decide) {}
  have hfound : Finding.neverFinishes "root" ∈ b.lint "root" := by decide +kernel
  have hagree : b.KeysAgree := keysAgree_of_parse hparse
  refine ⟨hfound, hagree, fun maxDepth seed time text => ?_⟩
  obtain ⟨hsound, -, hnever, -⟩ := neverFinishes_verdict (.parsed hparse) hfound maxDepth
  exact hsound (hnever hagree) ∅ seed time text (by simp)

/-- The note of the imported library passes a name to its card, so the card does not
need the rule `lib.name`, but the linter holds that rule against it. -/
theorem neverFinishes_imported_card :
    let library := "card:\n- {{ name }}\nname:\n- {{ name }}\nnote:\n- {{ card(name: Ada) }}\n"
    let source := "%preamble:\n- imports: lib\nroot:\n- {{ lib.note }}\n"
    let archive := Archive.ofMap ((∅ : NameMap Answer).insert "lib" (.source library))
    let b : Book := (parseAndResolve archive source).toOption.getD {}
    b.Obtained ∧ Finding.neverFinishes "root" ∈ b.lint "root" ∧
      b.generate 64 "root" ∅ ⟨[0], by simp⟩ 0 = .ok "Ada" := by
  intro library source archive b
  have hread : parseAndResolve archive source = .ok b :=
    Except.eq_ok_getD (x := parseAndResolve archive source) (by decide +kernel) {}
  have hfound : Finding.neverFinishes "root" ∈ b.lint "root" := by decide +kernel
  have htext : b.generate 64 "root" ∅ ⟨[0], by simp⟩ 0 = .ok "Ada" := by decide +kernel
  exact ⟨obtained_of_parseAndResolve hread, hfound, htext⟩

end Book

end Phrasebook
