import Phrasebook.Proofs.Expansion.Failures
import Phrasebook.Proofs.Imports.Cycles

/-!
# Resolved books are well formed

Merging a well-formed book into another one under an alias keeps it well formed: weights stay as
they are, and a reference to a nested list follows the list, because a book that mentions a nested
list defines it (`Book.WellFormed.merge`).  So all books that are read, resolved or loaded are well
formed (`Book.Obtained.wellFormed`).

Hence an alternative can be chosen of every rule, no nested list is ever missed, and no alias is
found twice in documents that could be read (`Book.wellFormed_and_complete`).
-/

namespace Phrasebook

/-! ## Renaming -/

section Qualified

variable {c : Book} {aliasName : String} {defined : String → Prop}
  (hdefined : ∀ name, c.defines name = true → defined (qualify aliasName name))

theorem qualify_ne_nestedName (aliasName name : String) : qualify aliasName name ≠ nestedName := by
  intro h
  have hmem : qualifier ∈ (qualify aliasName name).toList := by simp [qualify]
  rw [h] at hmem
  exact absurd hmem (by decide)

include hdefined

/-- A nested list that a book mentions has the name that the importing book knows it by. -/
theorem Book.defined_nameUnder {name : String}
    (hname : isNested name = true → c.defines name = true)
    (hnested : isNested (c.nameUnder aliasName name) = true) :
    defined (c.nameUnder aliasName name) := by
  unfold nameUnder at hnested ⊢
  by_cases hname' : c.defines name = true
  · rw [if_pos hname']
    exact hdefined name hname'
  · rw [if_neg hname'] at hnested
    exact absurd (hname hnested) hname'

theorem Reference.WellFormed.qualified {r : Reference}
    (h : r.WellFormed fun name => c.defines name = true) :
    (r.qualified c.defines aliasName).WellFormed defined := by
  obtain ⟨hself, hargs⟩ := List.forall_mem_cons.mp h.nested
  have htargets : ∀ target ∈ (r.qualified c.defines aliasName).argumentTargets,
      isNested target = true → defined target := by
    intro target htarget hnested
    rw [r.argumentTargets_qualified] at htarget
    obtain ⟨name, hname, rfl⟩ := List.mem_map.mp htarget
    exact Book.defined_nameUnder hdefined (hargs name hname) hnested
  cases hanimated : r.animated with
  | true =>
      have hname : (r.qualified c.defines aliasName).name = r.name := by
        simp [Reference.qualified_name, hanimated]
      have hplain : isNested r.name = false := h.curve hanimated
      refine ⟨fun hstill => ?_, fun _ => hname ▸ hplain, ?_⟩
      · have hstill' : r.animated = false := hstill
        simp [hanimated] at hstill'
      · refine List.forall_mem_cons.mpr ⟨fun hnested => ?_, htargets⟩
        simp [hname, hplain] at hnested
  | false =>
      have hname : (r.qualified c.defines aliasName).name = c.nameUnder aliasName r.name := by
        simp [Reference.qualified_name, hanimated]
      refine ⟨fun _ => ?_, fun hmoving => ?_, ?_⟩
      · rw [hname, Book.nameUnder]
        split
        · exact qualify_ne_nestedName aliasName r.name
        · exact h.named hanimated
      · have hmoving' : r.animated = true := hmoving
        simp [hanimated] at hmoving'
      · rw [hname]
        exact List.forall_mem_cons.mpr ⟨Book.defined_nameUnder hdefined hself, htargets⟩

theorem Rule.WellFormed.qualified {r : Rule}
    (h : r.WellFormed fun name => c.defines name = true) :
    (r.qualified c.defines aliasName).WellFormed defined := by
  have htotal : 0 < Choice.total (r.qualified c.defines aliasName).weights := by
    rw [r.weights_qualified]
    exact h.total_pos
  refine ⟨by simp [Rule.qualified, h.nonempty], fun a ha => ?_, htotal⟩
  obtain ⟨before, hbefore, rfl⟩ := List.mem_map.mp ha
  have hwell := h.alternatives before hbefore
  refine ⟨hwell.finite, hwell.nonneg, fun ref href => ?_⟩
  obtain ⟨segment, hsegment, heq⟩ := List.mem_map.mp (Template.mem_references_iff.mp href)
  cases segment with
  | literal s => cases heq
  | reference r' =>
      obtain rfl := Segment.reference.inj heq
      exact (hwell.references r' (Template.mem_references_iff.mpr hsegment)).qualified hdefined

end Qualified

/-! ## Merging -/

theorem Rule.WellFormed.mono {defined defined' : String → Prop} {r : Rule}
    (h : r.WellFormed defined) (himp : ∀ name, defined name → defined' name) :
    r.WellFormed defined' := by
  refine ⟨h.nonempty, fun a ha => ?_, h.total_pos⟩
  have hwell := h.alternatives a ha
  refine ⟨hwell.finite, hwell.nonneg, fun ref href => ?_⟩
  have hreference := hwell.references ref href
  exact ⟨hreference.named, hreference.curve, fun target htarget hnested =>
    himp target (hreference.nested target htarget hnested)⟩

namespace Book

theorem WellFormed.merge {b c : Book} (hb : b.WellFormed) (hc : c.WellFormed) (aliasName : String) :
    (b.insertAll (c.under aliasName)).WellFormed := by
  have hunder : ∀ name, c.defines name = true →
      (b.insertAll (c.under aliasName)).defines (qualify aliasName name) = true := by
    intro name hname
    obtain ⟨r, hr⟩ := defines_iff.mp hname
    refine defines_insertAll_iff.mpr (Or.inr ⟨r.qualified c.defines aliasName, ?_, ?_⟩)
    · exact List.mem_map.mpr ⟨r, mem_ruleList.mpr ⟨name, hr⟩, rfl⟩
    · exact congrArg (qualify aliasName) (hc.named name r hr)
  constructor
  · intro name r hr
    rcases mem_or_rule?_of_insertAll hr with ⟨-, hname⟩ | hold
    · exact hname
    · exact hb.named name r hold
  · intro name r hr
    rcases mem_or_rule?_of_insertAll hr with ⟨hmem, -⟩ | hold
    · obtain ⟨r', hr', rfl⟩ := List.mem_map.mp hmem
      obtain ⟨name', hname'⟩ := mem_ruleList.mp hr'
      exact (hc.rules name' r' hname').qualified hunder
    · exact (hb.rules name r hold).mono fun target htarget =>
        defines_insertAll_iff.mpr (Or.inl htarget)
  · rw [preamble_insertAll]
    exact hb.aliases

theorem Obtained.wellFormed {b : Book} (h : b.Obtained) : b.WellFormed :=
  h.induction (fun _ _ => wellFormed_of_parse) fun _ _ aliasName hb hc => hb.merge hc aliasName

/-! ## Expanding -/

/-- A nested list that an expansion looks up is there. -/
theorem WellFormed.not_isNested_of_failsFor {b : Book} (hb : b.WellFormed) {limit : Nat}
    {e : ExpandError} (h : e.FailsFor b limit) :
    (∀ rule, e ≠ .emptyRule rule) ∧ ∀ name, e = .unknownRule name → isNested name = false := by
  have hreferences : ∀ owner rule, b.rule? owner = some rule → ∀ r ∈ rule.references,
      r.WellFormed fun target => b.defines target = true := by
    intro owner rule hrule r hr
    obtain ⟨a, ha, hmem⟩ := List.mem_flatMap.mp hr
    exact ((hb.rules owner rule hrule).alternatives a ha).references r hmem
  cases h with
  | depth rule => simp
  | @undefined name hname hnone =>
      refine ⟨by simp, fun name' heq => ?_⟩
      obtain rfl : name = name' := by simpa using heq
      obtain ⟨owner, rule, r, hrule, hr, -, hmem⟩ := hname
      rw [← Bool.not_eq_true]
      intro hnested
      have hthere := (hreferences owner rule hrule r hr).nested name hmem hnested
      simp [hnone] at hthere
  | animation he =>
      obtain ⟨owner, rule, r, held, time, hrule, hr, hanimated, herror⟩ := he
      rcases Reference.error_of_animate herror with ⟨rfl, -⟩ | ⟨name, reason, rfl⟩
      · refine ⟨by simp, fun name heq => ?_⟩
        obtain rfl : r.name = name := by simpa using heq
        exact (hreferences owner rule hrule r hr).curve hanimated
      · simp

/-- A rule that does not exist is all that its expansion complains about. -/
theorem generate_of_undefined {b : Book} {root : String} (hroot : b.defines root = false)
    (maxDepth : Nat) (args : Bindings) (seed : Seed) (time : Float) :
    b.generate maxDepth root args seed time = .error (.unknownRule root) := by
  have hrule : (b.scene maxDepth time).book.rule? root = none := rule?_eq_none_of_defines hroot
  unfold generate Scene.expand Scene.expandWithin Scene.rule
  rw [hrule]
  rfl

end Book

/-! ## Resolving -/

theorem Resolves.ne_duplicateAlias {look : String → Except ImportError Book} {path : List String}
    {b : Book} {r : Except ImportError Book} (h : Resolves look path b r)
    (haliases : ∀ id c, look id = .ok c → c.preamble.DistinctAliases)
    (hlook : ∀ id name, look id ≠ .error (.duplicateAlias name))
    (hb : b.preamble.DistinctAliases) (name : String) : r ≠ .error (.duplicateAlias name) := by
  induction h with
  | refused hcheck =>
      intro heq
      obtain rfl := Except.error.inj heq
      rcases exists_of_checkImports_eq_error hcheck with ⟨i, -, -, he⟩ | ⟨-, hshared⟩
      · cases he
      · exact hshared ⟨hb, by simp⟩
  | unread _ hunread =>
      intro heq
      obtain rfl := Except.error.inj heq
      obtain ⟨i, -, he⟩ := exists_of_readImports_eq_error hunread
      exact hlook i.id name he
  | merged _ himports _ ih =>
      intro heq
      obtain ⟨m, hm, he⟩ := mergeOutcomes_eq_error heq
      obtain ⟨-, hc⟩ := mem_readImports himports hm
      exact ih m hm (haliases _ _ hc) he

theorem lookup_ne_duplicateAlias {archive : Archive} {shelf : Shelf} (id name : String) :
    lookup archive shelf id ≠ .error (.duplicateAlias name) := by
  unfold lookup
  cases shelf[id]? with
  | some b => simp
  | none =>
      intro h
      have hfailing := archive.failing?_of_read h
      cases hfailing

namespace Book

/-- A book that is read, resolved or loaded is well formed.  So whatever is expanded in it, there is
always an alternative to choose and no nested list is missed, unless the root itself does not exist;
and resolving a book that was read finds no alias twice. -/
theorem wellFormed_and_complete {b : Book} (hb : b.Obtained) :
    b.WellFormed ∧
    (∀ (maxDepth : Nat) (root : String) (args : Bindings) (seed : Seed) (time : Float)
      (e : ExpandError), b.generate maxDepth root args seed time = .error e →
        (∀ rule, e ≠ .emptyRule rule) ∧
        ∀ name, e = .unknownRule name → isNested name = true →
          name = root ∧ b.defines root = false) ∧
    ∀ source, Book.parse source = .ok b → ∀ (archive : Archive) (shelf : Shelf), shelf.Parsed →
      ∀ aliasName, (resolve archive b shelf).result ≠ .error (.duplicateAlias aliasName) := by
  have hwell : b.WellFormed := hb.wellFormed
  refine ⟨hwell, ?_, ?_⟩
  · intro maxDepth root args seed time e he
    cases hroot : b.defines root with
    | true =>
        have hcause := hwell.failsFor_of_generate hroot he
        obtain ⟨hempty, hunknown⟩ := hwell.not_isNested_of_failsFor hcause
        refine ⟨hempty, fun name heq hnested => ?_⟩
        simp [hunknown name heq] at hnested
    | false =>
        rw [generate_of_undefined hroot] at he
        obtain rfl := Except.error.inj he
        refine ⟨by simp, fun name heq _ => ⟨?_, rfl⟩⟩
        exact (ExpandError.unknownRule.inj heq).symm
  · intro source hparse archive shelf hshelf aliasName
    apply (resolves_resolve archive shelf b).ne_duplicateAlias
    · exact fun id c hc => hshelf.distinctAliases hc
    · exact lookup_ne_duplicateAlias
    · exact hwell.aliases

/-- A library with a list nested in an alternative of weight zero. -/
theorem wellFormed_and_complete_library :
    let library := "card:\n- Dear {{ _ }}\n  - [0] you\n  - {{ name }}\n"
    let source := "%preamble:\n- imports: lib\nroot:\n- {{ lib.card }}\n"
    let archive := Archive.ofMap ((∅ : NameMap Answer).insert "lib" (.source library))
    let written : Book := (Book.parse source).toOption.getD {}
    let b : Book := (parseAndResolve archive source).toOption.getD {}
    b.WellFormed ∧ b.defines "root" = true ∧ b.defines "lib.card~0" = true ∧
      (∀ (maxDepth : Nat) (args : Bindings) (seed : Seed) (time : Float) (name : String),
        b.generate maxDepth "root" args seed time = .error (.unknownRule name) →
          isNested name = false) ∧
      ∀ aliasName, (resolve archive written ∅).result ≠ .error (.duplicateAlias aliasName) := by
  intro library source archive written b
  have hparse : Book.parse source = .ok written :=
    Except.eq_ok_getD (x := Book.parse source) (by decide) {}
  have hread : parseAndResolve archive source = .ok b :=
    Except.eq_ok_getD (x := parseAndResolve archive source) (by decide +kernel) {}
  have hroot : b.defines "root" = true := by decide +kernel
  have hnested : b.defines "lib.card~0" = true := by decide +kernel
  obtain ⟨hwell, hfails, -⟩ := wellFormed_and_complete (obtained_of_parseAndResolve hread)
  obtain ⟨-, -, halias⟩ := wellFormed_and_complete (.parsed hparse)
  refine ⟨hwell, hroot, hnested, fun maxDepth args seed time name he => ?_, ?_⟩
  · obtain ⟨-, hunknown⟩ := hfails maxDepth "root" args seed time _ he
    rw [← Bool.not_eq_true]
    intro hname
    simp [(hunknown name rfl hname).2] at hroot
  · exact halias source hparse archive ∅ (fun id c hc => by simp at hc)

end Book

end Phrasebook
