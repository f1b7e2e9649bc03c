import Phrasebook.Proofs.Source.Parsing

/-!
# Aliases of imports

Reading the preamble of a source takes only identifiers for aliases, and refuses an alias that was
used before, whether the two imports stand in one entry or in two.  What holds of no imports, and is
kept when an import with a new identifier for an alias comes last, therefore holds of the imports of
each book that is read (`Book.imports_of_parse`).  So they have different aliases
(`Book.distinctAliases_of_parse`), and no alias has a dot in it
(`Book.aliases_unqualified_of_parse`).
-/

namespace Phrasebook

/-- A property that lists of imports keep when one with a new alias is added. -/
def KeptByImports (P : List Import → Prop) : Prop :=
  ∀ (imports : List Import) (i : Import), P imports → isIdentifier i.aliasName.toList = true →
    (∀ j ∈ imports, j.aliasName ≠ i.aliasName) → P (imports ++ [i])

theorem Import.isIdentifier_of_parse {entry : List Char} {i : Import}
    (h : Import.parse entry = .ok i) : isIdentifier i.aliasName.toList = true := by
  unfold Import.parse at h
  dsimp only at h
  split at h
  · split at h
    · next hname =>
        obtain rfl := Except.ok.inj h
        rwa [String.toList_ofList]
    · cases h
  · split at h
    · next hname =>
        obtain rfl := Except.ok.inj h
        rwa [String.toList_ofList]
    · cases h
  · cases h

namespace Preamble

variable {P : List Import → Prop} (hkept : KeptByImports P) {p p' : Preamble}
include hkept

theorem imports_of_addImports (h : P p.imports) {entries : List (List Char)}
    (hadd : p.addImports entries = .ok p') : P p'.imports := by
  induction entries generalizing p with
  | nil => exact Except.ok.inj hadd ▸ h
  | cons entry rest ih =>
      rw [Preamble.addImports] at hadd
      split at hadd
      · cases hadd
      · next i hparse =>
          split at hadd
          · cases hadd
          · next hfirst =>
              unfold addImport at hfirst
              split at hfirst
              · cases hfirst
              · next hnew =>
                  obtain rfl := Except.ok.inj hfirst
                  have hfresh : ∀ j ∈ p.imports, j.aliasName ≠ i.aliasName := by simpa using hnew
                  exact ih (hkept _ i h (Import.isIdentifier_of_parse hparse) hfresh) hadd

theorem imports_of_addEntry (h : P p.imports) {text : List Char}
    (hadd : p.addEntry text = .ok p') : P p'.imports := by
  unfold Preamble.addEntry at hadd
  split at hadd
  · cases hadd
  · dsimp only at hadd
    split at hadd
    · unfold setDuration at hadd
      split at hadd
      · cases hadd
      · split at hadd
        · exact Except.ok.inj hadd ▸ h
        · cases hadd
    · split at hadd
      · unfold setAnimation at hadd
        split at hadd
        · cases hadd
        · exact Except.ok.inj hadd ▸ h
      · split at hadd
        · exact imports_of_addImports hkept h hadd
        · cases hadd

theorem imports_of_addEntries (h : P p.imports) {entries : List (List Char)}
    (hadd : entries.foldlM Preamble.addEntry p = .ok p') : P p'.imports := by
  induction entries generalizing p with
  | nil => exact Except.ok.inj hadd ▸ h
  | cons entry rest ih =>
      rw [List.foldlM_cons] at hadd
      obtain ⟨middle, hfirst, hrest⟩ := Except.bind_eq_ok_iff.mp hadd
      exact ih (imports_of_addEntry hkept h hfirst) hrest

end Preamble

/-- No two imports share an alias. -/
def Preamble.DistinctAliases (p : Preamble) : Prop :=
  (p.imports.map (·.aliasName)).Nodup

namespace Book

variable {source : String} {b : Book} (h : Book.parse source = .ok b)
include h

theorem imports_of_parse {P : List Import → Prop} (hkept : KeptByImports P) (hnil : P []) :
    P b.preamble.imports := by
  obtain ⟨blocks, -, hpreamble, -⟩ := Book.parse_eq_ok_iff_extends.mp h
  exact Preamble.imports_of_addEntries hkept hnil hpreamble

/-- The imports of a book that is read have different aliases. -/
theorem distinctAliases_of_parse : b.preamble.DistinctAliases := by
  apply imports_of_parse h (P := fun imports => (imports.map (·.aliasName)).Nodup) _ List.nodup_nil
  intro imports i hnodup _ hfresh
  rw [List.map_append, List.nodup_append]
  refine ⟨hnodup, by simp, ?_⟩
  intro name hname name' hname' heq
  obtain ⟨j, hj, rfl⟩ := List.mem_map.mp hname
  obtain rfl : name' = i.aliasName := by simpa using hname'
  exact hfresh j hj heq

/-- No alias in a book that is read has a dot in it. -/
theorem aliases_unqualified_of_parse :
    ∀ i ∈ b.preamble.imports, qualifier ∉ i.aliasName.toList := by
  apply imports_of_parse h (P := fun imports => ∀ i ∈ imports, qualifier ∉ i.aliasName.toList) _
    (by simp)
  intro imports i hold hidentifier _
  simp only [List.forall_mem_append, List.forall_mem_singleton]
  exact ⟨hold, not_mem_of_isIdentifier hidentifier (by decide)⟩

end Book

end Phrasebook
