import Phrasebook.Proofs.Imports.WellFormed

/-!
# Failures that are accounted for

An expansion of a rule of a well-formed book fails for a name only if the book mentions the name and
does not define it.  The linter looks at all references and arguments of all alternatives, so it
has said so beforehand, unless the name is also passed as an argument somewhere: then it may be
bound where it is used (`mem_errors_of_mentions`).  So each failure was announced, is about an
animated reference, or is that too many references are nested (`Book.failures_accounted`).
-/

namespace Phrasebook

/-- Whether a report says that a rule refers to a name, or passes it on, that nothing defines. -/
def Finding.Undefined (findings : List Finding) (name : String) : Prop :=
  (∃ rule, Finding.undefinedReference rule name ∈ findings) ∨
    ∃ rule callee, Finding.undefinedArgument rule name callee ∈ findings

/-- Why a failure of an expansion in a book is no surprise, when as many references may be nested as
the limit says. -/
inductive ExpandError.AccountedFor (b : Book) (limit : Nat) : ExpandError → Prop
  | depth (rule : String) : AccountedFor b limit (.recursionLimit rule limit)
  /-- An animated reference got an argument that it can make nothing of. -/
  | badArgument {curve name reason : String}
      (he : (ExpandError.invalidArgument curve name reason).OfAnimation b) :
      AccountedFor b limit (.invalidArgument curve name reason)
  /-- An animated reference names no curve. -/
  | noCurve {owner : String} {rule : Rule} {r : Reference} (hrule : b.rule? owner = some rule)
      (hr : r ∈ rule.references) (hanimated : r.animated = true)
      (hcurve : Curve.ofName? r.name = none) : AccountedFor b limit (.unknownRule r.name)
  /-- An argument that was not passed here. -/
  | notPassed {name : String} (hname : name ∈ b.argumentNames) :
      AccountedFor b limit (.unknownRule name)
  /-- A name that the linter reports, whatever it takes for the root. -/
  | reported {name : String}
      (hname : ∀ root, Finding.Undefined (errorsOf (b.lint root)) name) :
      AccountedFor b limit (.unknownRule name)

namespace Book

variable {b : Book}

/-! ## What the linter sees -/

theorem mem_lint_of_checkReference {owner : String} {rule : Rule} {r : Reference} {f : Finding}
    (hrule : b.rule? owner = some rule) (hr : r ∈ rule.references)
    (hf : f ∈ b.checkReference b.argumentNames rule.name r) (root : String) : f ∈ b.lint root := by
  have hcheck : f ∈ b.checkRule b.argumentNames rule :=
    List.mem_append_left _ (List.mem_flatMap.mpr ⟨r, hr, hf⟩)
  have hrules : f ∈ b.ruleList.flatMap (b.checkRule b.argumentNames) :=
    List.mem_flatMap.mpr ⟨rule, mem_ruleList.mpr ⟨owner, hrule⟩, hcheck⟩
  exact List.mem_append_left _ (List.mem_append_left _ (List.mem_append_right _ hrules))

/-- A name without a meaning that a reference mentions is reported. -/
theorem undefined_of_mem_checkReference {owner name : String} {rule : Rule} {r : Reference}
    (hrule : b.rule? owner = some rule) (hr : r ∈ rule.references) (hstill : r.animated = false)
    (hname : name ∈ r.name :: r.argumentTargets) (hmeans : b.means b.argumentNames name = false)
    (root : String) :
    (name = r.name ∧ Finding.undefinedReference rule.name name ∈ b.lint root) ∨
      (name ∈ r.argumentTargets ∧ Finding.undefinedArgument rule.name name r.name ∈ b.lint root) := by
  rcases List.mem_cons.mp hname with rfl | htarget
  · refine Or.inl ⟨rfl, mem_lint_of_checkReference hrule hr ?_ root⟩
    simp [checkReference, hstill, hmeans]
  · refine Or.inr ⟨htarget, mem_lint_of_checkReference hrule hr ?_ root⟩
    simp [checkReference, hstill, hmeans, htarget]

/-- A name that is mentioned and not defined is passed as an argument somewhere, or reported. -/
theorem mem_errors_of_mentions {name : String} (hmentions : b.Mentions name)
    (hnone : b.defines name = false) (hfree : name ∉ b.argumentNames) (root : String) :
    Finding.Undefined (errorsOf (b.lint root)) name := by
  obtain ⟨owner, rule, r, hrule, hr, hstill, hname⟩ := hmentions
  have hmeans : b.means b.argumentNames name = false := by
    rw [means, hnone, Bool.false_or, ← Bool.not_eq_true, Std.ExtTreeSet.contains_iff_mem]
    exact hfree
  rcases undefined_of_mem_checkReference hrule hr hstill hname hmeans root with
    ⟨-, hfinding⟩ | ⟨-, hfinding⟩
  · exact Or.inl ⟨rule.name, List.mem_filter.mpr ⟨hfinding, rfl⟩⟩
  · exact Or.inr ⟨rule.name, r.name, List.mem_filter.mpr ⟨hfinding, rfl⟩⟩

theorem accountedFor_of_failsFor {limit : Nat} {e : ExpandError} (h : e.FailsFor b limit) :
    e.AccountedFor b limit := by
  cases h with
  | depth rule => exact .depth rule
  | @undefined name hmentions hnone =>
      by_cases hname : name ∈ b.argumentNames
      · exact .notPassed hname
      · exact .reported fun root => mem_errors_of_mentions hmentions hnone hname root
  | animation he =>
      obtain ⟨owner, rule, r, held, time, hrule, hr, hanimated, herror⟩ := id he
      rcases Reference.error_of_animate herror with ⟨rfl, hcurve⟩ | ⟨name, reason, rfl⟩
      · exact .noCurve hrule hr hanimated hcurve
      · exact .badArgument he

/-- A failure in a book without arguments and animated references of which the linter reports no
reference to a missing rule is that too many references are nested. -/
theorem eq_recursionLimit_of_failsFor {limit : Nat} {e : ExpandError} (h : e.FailsFor b limit)
    (hplain : ∀ owner rule, b.rule? owner = some rule → ∀ r ∈ rule.references,
      r.animated = false ∧ r.args = []) {root : String}
    (hclean : ∀ owner name, Finding.undefinedReference owner name ∉ b.lint root) :
    ∃ rule, e = .recursionLimit rule limit := by
  cases h with
  | depth rule => exact ⟨rule, rfl⟩
  | @undefined name hmentions hnone =>
      obtain ⟨owner, rule, r, hrule, hr, hstill, hname⟩ := hmentions
      have hmeans : b.means b.argumentNames name = false := by
        have hargs := argumentNames_eq_empty fun owner rule hrule r hr =>
          (hplain owner rule hrule r hr).2
        rw [means, hnone, hargs, Std.ExtTreeSet.contains_empty, Bool.false_or]
      rcases undefined_of_mem_checkReference hrule hr hstill hname hmeans root with
        ⟨-, hfinding⟩ | ⟨htarget, -⟩
      · exact absurd hfinding (hclean rule.name name)
      · simp [Reference.argumentTargets, (hplain owner rule hrule r hr).2] at htarget
  | animation he =>
      obtain ⟨owner, rule, r, held, time, hrule, hr, hanimated, -⟩ := he
      simp [(hplain owner rule hrule r hr).1] at hanimated

/-- Each failure of an expansion of a rule that exists is accounted for.  In a book without arguments
and animated references of which the linter reports no reference to a missing rule, only nesting
too deep can fail. -/
theorem failures_accounted {b : Book} (hb : b.Obtained) {root : String}
    (hroot : b.defines root = true) (maxDepth : Nat) (args : Bindings) (seed : Seed)
    (time : Float) :
    (∀ e, b.generate maxDepth root args seed time = .error e →
      e.AccountedFor b (min maxDepth maxDepthLimit)) ∧
    ((∀ owner rule, b.rule? owner = some rule → ∀ r ∈ rule.references,
        r.animated = false ∧ r.args = []) →
      ∀ entry, (∀ owner name, Finding.undefinedReference owner name ∉ b.lint entry) →
        (∃ text, b.generate maxDepth root args seed time = .ok text) ∨
          ∃ rule, b.generate maxDepth root args seed time =
            .error (.recursionLimit rule (min maxDepth maxDepthLimit))) := by
  have hfails : ∀ e, b.generate maxDepth root args seed time = .error e →
      e.FailsFor b (min maxDepth maxDepthLimit) :=
    fun e he => hb.wellFormed.failsFor_of_generate hroot he
  refine ⟨fun e he => accountedFor_of_failsFor (hfails e he), fun hplain entry hclean => ?_⟩
  cases hresult : b.generate maxDepth root args seed time with
  | ok text => exact Or.inl ⟨text, rfl⟩
  | error e =>
      obtain ⟨rule, rfl⟩ := eq_recursionLimit_of_failsFor (hfails e hresult) hplain hclean
      exact Or.inr ⟨rule, rfl⟩

/-- A greeting that refers to a rule that nothing defines, and a ring of rules that all exist. -/
theorem failures_accounted_greeting :
    let greeting := "root:\n- Dear {{ nmae }}\nname:\n- Ada\n"
    let ring := "root:\n- {{ next }}\nnext:\n- {{ root }}\n- done\n"
    let b : Book := (Book.parse greeting).toOption.getD {}
    let c : Book := (Book.parse ring).toOption.getD {}
    b.generate 64 "root" ∅ ⟨[0], by simp⟩ 0 = .error (.unknownRule "nmae") ∧
      (ExpandError.unknownRule "nmae").AccountedFor b 64 ∧
      ∀ (seed : Seed) (time : Float), (∃ text, c.generate 64 "root" ∅ seed time = .ok text) ∨
        ∃ rule, c.generate 64 "root" ∅ seed time = .error (.recursionLimit rule 64) := by
  intro greeting ring b c
  have hb : b.Obtained := .parsed (Except.eq_ok_getD (x := Book.parse greeting) (by decide) {})
  have hc : c.Obtained := .parsed (Except.eq_ok_getD (x := Book.parse ring) (by decide) {})
  have hfails : b.generate 64 "root" ∅ ⟨[0], by simp⟩ 0 = .error (.unknownRule "nmae") := by
    decide +kernel
  have hplain : ∀ rule ∈ c.ruleList, ∀ r ∈ rule.references, r.animated = false ∧ r.args = [] := by
    decide
  have hnone : c.lint "root" = [] := by decide +kernel
  refine ⟨hfails, (failures_accounted hb (by decide) 64 ∅ _ 0).1 _ hfails, fun seed time => ?_⟩
  refine (failures_accounted hc (by decide) 64 ∅ seed time).2 ?_ "root" ?_
  · exact fun owner rule hrule => hplain rule (mem_ruleList.mpr ⟨owner, hrule⟩)
  · simp [hnone]

end Book

end Phrasebook
