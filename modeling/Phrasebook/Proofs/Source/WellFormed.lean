import Phrasebook.Proofs.Source.Aliases
import Phrasebook.Proofs.Source.Alternatives

/-!
# Books that are read are well formed

In a well-formed book each rule is kept under its own name and has alternatives of finite weights,
not all of them zero; each reference to a nested list names a rule of the book; and no two imports
share an alias.

A list is closed after the lists nested in it, and the reference to a nested list gets the name of
the list right below its alternative.  So the lists that the alternatives of a forest refer to are
among the rules of the forest, which is shown by induction on its layout (`Forest.Laid.wellFormed`).
-/

namespace Phrasebook

/-! ## Well-formed books -/

/-- A reference in a book that defines certain names: if it stands for a nested list, it names that
list, and the list is there. -/
structure Reference.WellFormed (defined : String → Prop) (r : Reference) : Prop where
  named : r.animated = false → r.name ≠ nestedName
  curve : r.animated = true → isNested r.name = false
  nested : ∀ target ∈ r.name :: r.argumentTargets, isNested target = true → defined target

/-- An alternative with a finite weight, its references being well formed. -/
structure Alternative.WellFormed (defined : String → Prop) (a : Alternative) : Prop where
  finite : a.weight.isFinite = true
  nonneg : 0 ≤ a.weight
  references : ∀ r ∈ Template.references a.template, r.WellFormed defined

/-- A rule with an alternative that can be chosen, all alternatives being well formed. -/
structure Rule.WellFormed (defined : String → Prop) (r : Rule) : Prop where
  nonempty : r.alternatives ≠ []
  alternatives : ∀ a ∈ r.alternatives, a.WellFormed defined
  total_pos : 0 < Choice.total r.weights

/-- A book of well-formed rules, each kept under its own name. -/
structure Book.WellFormed (b : Book) : Prop where
  named : ∀ name r, b.rule? name = some r → r.name = name
  rules : ∀ name r, b.rule? name = some r → r.WellFormed fun target => b.defines target = true
  aliases : b.preamble.DistinctAliases

/-! ## References -/

theorem isNested_eq_false {name : String} (h : nestingMark ∉ name.toList) :
    isNested name = false := by
  simpa [isNested] using h

theorem isNested_nestedRuleName (owner : String) (i : Nat) :
    isNested (nestedRuleName owner i) = true := by
  simp [isNested, toList_nestedRuleName]

theorem isNested_of_isQualifiedIdentifier {name : String}
    (h : isQualifiedIdentifier name.toList = true) : isNested name = false :=
  isNested_eq_false (not_mem_of_isQualifiedIdentifier h (by decide) (by decide))

theorem Reference.IsRead.isNested_name {r : Reference} (h : r.IsRead) :
    isNested r.name = false := by
  rcases h.name with hname | hname
  · rw [hname]
    decide
  · exact isNested_of_isQualifiedIdentifier hname

theorem Reference.IsRead.isNested_target {r : Reference} (h : r.IsRead) :
    ∀ target ∈ r.argumentTargets, isNested target = false := by
  intro target htarget
  obtain ⟨a, ha, hvalue⟩ := Reference.mem_argumentTargets_iff.mp htarget
  exact isNested_of_isQualifiedIdentifier ((h.args a ha).target target hvalue)

/-- A reference that was read is well formed once it names the nested list, if it stands for one. -/
theorem Reference.IsRead.wellFormed {defined : String → Prop} {r : Reference} (h : r.IsRead)
    {name : String} (hname : isNested name = true) (hslot : r.isNestedSlot = true → defined name) :
    (if r.isNestedSlot then { r with name } else r).WellFormed defined := by
  have htargets : ∀ target ∈ r.argumentTargets, isNested target = true → defined target := by
    intro target htarget hnested
    simp [h.isNested_target target htarget] at hnested
  by_cases hr : r.isNestedSlot = true
  · rw [if_pos hr]
    have hstill : r.animated = false := by simpa using (Bool.and_eq_true_iff.mp hr).2
    refine ⟨fun _ heq => ?_, fun hanimated => ?_, ?_⟩
    · have hplain : isNested nestedName = false := by decide
      have heq' : name = nestedName := heq
      rw [heq', hplain] at hname
      cases hname
    · simp [hstill] at hanimated
    · exact List.forall_mem_cons.mpr ⟨fun _ => hslot hr, htargets⟩
  · rw [if_neg hr]
    refine ⟨fun hstill heq => hr ?_, fun _ => h.isNested_name, ?_⟩
    · simp [isNestedSlot, heq, hstill]
    · refine List.forall_mem_cons.mpr ⟨fun hnested => ?_, htargets⟩
      simp [h.isNested_name] at hnested

theorem Alternative.Reads.wellFormed {defined : String → Prop} {text : List Char} {a : Alternative}
    (h : a.Reads text) {name : String} (hname : isNested name = true)
    (hslot : a.hasSlot = true → defined name) : (a.bindNested name).WellFormed defined where
  finite := h.weight.1
  nonneg := h.weight.2
  references r hr := by
    obtain ⟨read, hread, rfl⟩ := Alternative.exists_read_of_mem_bindNested hr
    exact (h.isRead read hread).wellFormed hname fun hslot' =>
      hslot (List.any_eq_true.mpr ⟨read, hread, hslot'⟩)

/-! ## Lists -/

namespace Forest

variable {defined : String → Prop}

theorem weights_alternatives (f : Forest) (owner : String) (i : Nat) :
    (f.alternatives owner i).map (·.weight) = f.weights := by
  induction f generalizing i with
  | nil => rfl
  | cons a nested rest _ ih =>
      rw [alternatives, weights, List.map_cons, ih]
      rfl

/-- The rule of a list. -/
theorem ownRule_of_ne_nil {f : Forest} (hne : f ≠ nil) (owner : String) :
    f.ownRule owner = [⟨owner, f.alternatives owner 0⟩] := by
  cases f with
  | nil => exact absurd rfl hne
  | cons a nested rest => rfl

theorem wellFormed_ownRule {f : Forest} {owner : String} (hpos : 0 < Choice.total f.weights)
    (halternatives : ∀ a ∈ f.alternatives owner 0, a.WellFormed defined) :
    ∀ r ∈ f.ownRule owner, r.WellFormed defined := by
  intro r hr
  cases f with
  | nil => cases hr
  | cons a nested rest =>
      rw [List.mem_singleton.mp hr]
      refine ⟨by simp [alternatives], halternatives, ?_⟩
      rwa [Rule.weights, weights_alternatives]

/-- If the lists nested in a list are defined, then the alternatives of the list and the rules of
the nested lists are well formed. -/
theorem Laid.wellFormed {level : Nat} {f : Forest} {lines : List SourceLine}
    (h : f.Laid level lines) :
    ∀ (owner : String) (i : Nat), (∀ r ∈ f.nestedRules owner i, defined r.name) →
      (∀ a ∈ f.alternatives owner i, a.WellFormed defined) ∧
        ∀ r ∈ f.nestedRules owner i, r.WellFormed defined := by
  induction h with
  | nil level => simp [alternatives, nestedRules]
  | @plain level line text a rest more _ hread hslot _ ih =>
      intro owner i hdefined
      obtain ⟨hrest, hnested⟩ := ih owner (i + 1) hdefined
      have hfirst : (a.bindNested (nestedRuleName owner i)).WellFormed defined :=
        hread.wellFormed (isNested_nestedRuleName owner i) (by simp [hslot])
      exact ⟨List.forall_mem_cons.mpr ⟨hfirst, hrest⟩, hnested⟩
  | @owner level deeper line text a nested rest below more _ hread _ _ hne _ hpos _ ih ih' =>
      intro owner i hdefined
      -- The rules below this alternative, that of the list it owns, and those of the others.
      rw [nestedRules] at hdefined ⊢
      simp only [List.forall_mem_append] at hdefined ⊢
      obtain ⟨⟨hbelow, hown⟩, hothers⟩ := hdefined
      obtain ⟨halternatives, hnested⟩ := ih (nestedRuleName owner i) 0 hbelow
      obtain ⟨hrest, hmore⟩ := ih' owner (i + 1) hothers
      have hlist : defined (nestedRuleName owner i) := by
        rw [ownRule_of_ne_nil hne] at hown
        exact hown _ (List.mem_singleton_self _)
      have hfirst : (a.bindNested (nestedRuleName owner i)).WellFormed defined :=
        hread.wellFormed (isNested_nestedRuleName owner i) fun _ => hlist
      exact ⟨List.forall_mem_cons.mpr ⟨hfirst, hrest⟩,
        ⟨hnested, wellFormed_ownRule hpos halternatives⟩, hmore⟩

end Forest

theorem Block.Laid.wellFormed {defined : String → Prop} {block : Block} {lines : List SourceLine}
    (h : block.Laid lines) (hdefined : ∀ r ∈ block.rules, defined r.name) :
    ∀ r ∈ block.rules, r.WellFormed defined := by
  cases h with
  | preamble => simp [rules]
  | @rule _ name _ list _ _ _ _ hlist hpos =>
      rw [rules, Forest.rules, List.forall_mem_append] at hdefined ⊢
      obtain ⟨halternatives, hnested⟩ := hlist.wellFormed name 0 hdefined.1
      exact ⟨hnested, Forest.wellFormed_ownRule hpos halternatives⟩

/-! ## Whole sources -/

theorem Book.wellFormed_of_parse {source : String} {b : Book} (h : Book.parse source = .ok b) :
    b.WellFormed := by
  obtain ⟨blocks, hlaid, hrules⟩ := Book.exists_blocks_of_parse h
  have hdefined : ∀ r ∈ blocks.flatMap Block.rules, b.defines r.name = true := by
    intro r hr
    exact Book.defines_iff.mpr ⟨r, (hrules r.name r).mpr ⟨hr, rfl⟩⟩
  refine ⟨fun name r hr => ((hrules name r).mp hr).2, fun name r hr => ?_,
    Book.distinctAliases_of_parse h⟩
  obtain ⟨block, hblock, hmem⟩ := List.mem_flatMap.mp ((hrules name r).mp hr).1
  obtain ⟨lines, hlines⟩ := hlaid.exists_lines hblock
  apply hlines.wellFormed _ r hmem
  exact fun r' hr' => hdefined r' (List.mem_flatMap.mpr ⟨block, hblock, hr'⟩)

end Phrasebook
