import Phrasebook.Proofs.Imports.Cycles

/-!
# Resolutions that succeed

A resolution succeeds when no import is refused, all imported documents can be read and all of them
can be resolved.  What it comes to is the book with the rules of these, each renamed as its import
says (`resolves_ok_iff`).  A property of a book and what it comes to therefore holds of all
successful resolutions if it holds of a book as soon as it holds of the documents that the book
imports (`Resolves.ok_induction`).

The path only forbids imports, so a resolution that succeeds comes to the same along any path with
fewer ids on it (`Resolves.of_subset`).
-/

namespace Phrasebook

/-- The rules that imports bring in. -/
def importedRules (imports : List Import) (part : Import → Book) : List Rule :=
  imports.flatMap fun i => (part i).under i.aliasName

variable {look : String → Except ImportError Book}

theorem readImports_eq_ok {imports : List Import} {doc : Import → Book}
    (h : ∀ i ∈ imports, look i.id = .ok (doc i)) :
    readImports look imports = .ok (imports.map fun i => (i, doc i)) := by
  induction imports with
  | nil => rfl
  | cons i rest ih =>
      obtain ⟨hfirst, hrest⟩ := List.forall_mem_cons.mp h
      have hmore := ih hrest
      rw [readImports] at hmore
      rw [readImports, List.mapM_cons, hfirst, hmore]
      rfl

theorem mergeOutcomes_map {outcome : Import × Book → Except ImportError Book}
    {doc part : Import → Book} {imports : List Import}
    (h : ∀ i ∈ imports, outcome (i, doc i) = .ok (part i)) (b : Book) :
    mergeOutcomes outcome b (imports.map fun i => (i, doc i)) =
      .ok (b.insertAll (importedRules imports part)) := by
  induction imports generalizing b with
  | nil => rfl
  | cons i rest ih =>
      obtain ⟨hfirst, hrest⟩ := List.forall_mem_cons.mp h
      rw [List.map_cons, mergeOutcomes, hfirst]
      change mergeOutcomes outcome _ _ = _
      rw [ih hrest, ← Book.insertAll_append]
      rfl

/-- A property of successful resolutions that goes from the imported documents to the book itself
holds of all of them. -/
theorem Resolves.ok_induction
    {P : (path : List String) → (b b' : Book) → Resolves look path b (.ok b') → Prop}
    (step : ∀ (path : List String) (b : Book) (doc part : Import → Book)
      (h : Resolves look path b (.ok (b.insertAll (importedRules b.preamble.imports part)))),
      (∀ i ∈ b.preamble.imports, i.id ∉ path) → b.preamble.DistinctAliases →
      (∀ i ∈ b.preamble.imports, look i.id = .ok (doc i)) →
      (hparts : ∀ i ∈ b.preamble.imports, Resolves look (path ++ [i.id]) (doc i) (.ok (part i))) →
      (∀ i hi, P (path ++ [i.id]) (doc i) (part i) (hparts i hi)) → P path b _ h)
    {path : List String} {b b' : Book} (h : Resolves look path b (.ok b')) : P path b b' h := by
  suffices hall : ∀ r, Resolves look path b r → ∀ b' h, r = .ok b' → P path b b' h from
    hall _ h b' h rfl
  clear h
  intro r hresolves
  induction hresolves with
  | refused _ => intro _ _ hr; cases hr
  | unread _ _ => intro _ _ hr; cases hr
  | @merged path b imports outcome hcheck hread hresolve ih =>
      intro b' h hr
      obtain ⟨hnew, haliases⟩ := checkImports_eq_ok_iff.mp hcheck
      have hbooks : ∀ i ∈ b.preamble.imports, ∃ doc part, look i.id = .ok doc ∧
          outcome (i, doc) = .ok part ∧ ∃ hpart, P (path ++ [i.id]) doc part hpart := by
        intro i hi
        obtain ⟨doc, hm⟩ := exists_mem_readImports hread hi
        obtain ⟨part, hpart⟩ := mergeOutcomes_eq_ok hr _ hm
        have hresolves := hresolve _ hm
        rw [hpart] at hresolves
        exact ⟨doc, part, (mem_readImports hread hm).2, hpart, hresolves, ih _ hm _ _ hpart⟩
      have : Nonempty Book := ⟨{}⟩
      choose! doc part hdoc hpart hresolves hP using hbooks
      have himports := readImports_eq_ok hdoc
      obtain rfl := Except.ok.inj (hread.symm.trans himports)
      obtain rfl := Except.ok.inj (hr.symm.trans (mergeOutcomes_map hpart b))
      exact step path b doc part _ (fun i hi => (hnew i hi).1) haliases
        hdoc hresolves hP

/-- A resolution that succeeds merges those of the imported documents. -/
theorem resolves_ok_iff {path : List String} {b b' : Book} :
    Resolves look path b (.ok b') ↔
      (∀ i ∈ b.preamble.imports, i.id ∉ path) ∧ b.preamble.DistinctAliases ∧
        ∃ doc part : Import → Book,
          (∀ i ∈ b.preamble.imports, look i.id = .ok (doc i) ∧
            Resolves look (path ++ [i.id]) (doc i) (.ok (part i))) ∧
          b' = b.insertAll (importedRules b.preamble.imports part) := by
  constructor
  · intro h
    induction h using Resolves.ok_induction with
    | step path b doc part _ hnew haliases hread hparts =>
        exact ⟨hnew, haliases, doc, part, fun i hi => ⟨hread i hi, hparts i hi⟩, rfl⟩
  · rintro ⟨hnew, haliases, doc, part, hparts, rfl⟩
    have hcheck : checkImports path [] b.preamble.imports = .ok () :=
      checkImports_eq_ok_iff.mpr ⟨fun i hi => ⟨hnew i hi, by simp⟩, haliases⟩
    have hread := readImports_eq_ok fun i hi => (hparts i hi).1
    have hmerge : mergeOutcomes (fun m => .ok (part m.1)) b
        (b.preamble.imports.map fun i => (i, doc i)) =
          .ok (b.insertAll (importedRules b.preamble.imports part)) :=
      mergeOutcomes_map (fun _ _ => rfl) b
    rw [← hmerge]
    refine .merged hcheck hread fun m hm => ?_
    obtain ⟨i, hi, rfl⟩ := List.mem_map.mp hm
    exact (hparts i hi).2

/-- A resolution that succeeds does so along each path that forbids less. -/
theorem Resolves.of_subset {path : List String} {b b' : Book}
    (h : Resolves look path b (.ok b')) {path' : List String} (hsub : path' ⊆ path) :
    Resolves look path' b (.ok b') := by
  induction h using Resolves.ok_induction generalizing path' with
  | step path b doc part _ hnew haliases hread _ ih =>
      refine resolves_ok_iff.mpr ⟨fun i hi hmem => hnew i hi (hsub hmem), haliases, doc, part,
        fun i hi => ?_, rfl⟩
      have hlonger : path' ++ [i.id] ⊆ path ++ [i.id] := List.append_subset.mpr
        ⟨List.subset_append_of_subset_left _ hsub, List.subset_append_right _ _⟩
      exact ⟨hread i hi, ih i hi hlonger⟩

/-- What the document of an import comes to when it is merged is what loading it comes to. -/
theorem Resolves.loads {path : List String} {id : String} {c c' : Book} (hread : look id = .ok c)
    (h : Resolves look (path ++ [id]) c (.ok c')) : Loads look id (.ok c') :=
  .resolved hread (h.of_subset (List.subset_append_right _ _))

end Phrasebook
