import Phrasebook.Proofs.Imports.Resolution
import Phrasebook.Proofs.Source.Aliases

/-!
# Resolving finds exactly the cycles

A path of imports is a list of ids, each of which the document before it imports.  Resolving a book
follows all such paths, and stops at an id that is on the path already.  So it succeeds if all
documents on them can be read and no path comes back to one of its ids, it fails if some path does
come back, and if the failure is a cycle, the ids that it tells are such a path, whose last one is
the only one that occurs twice (`FindsCycles`).

All three are shown by induction on `Resolves`, for paths that go on from the one along which a book
was reached.  The main statement (`resolution_ends_and_finds_cycles`) adds that resolving ends; the
shelf may hold any books that were read before.
-/

namespace Phrasebook

/-! ## Paths of imports -/

/-- Whether a book imports the document of an id. -/
def Book.Imports (b : Book) (id : String) : Prop :=
  ∃ i ∈ b.preamble.imports, i.id = id

instance (b : Book) (id : String) : Decidable (b.Imports id) :=
  inferInstanceAs (Decidable (∃ i ∈ b.preamble.imports, i.id = id))

/-- Whether the document of an id imports that of another one. -/
def Follows (look : String → Except ImportError Book) (id next : String) : Prop :=
  ∃ b, look id = .ok b ∧ b.Imports next

/-- A list of ids, the first of which is one of `starts` and each other one of which is imported by
the document before it. -/
def ImportPath (look : String → Except ImportError Book) : (String → Prop) → List String → Prop
  | _, [] => True
  | starts, id :: rest => starts id ∧ ImportPath look (Follows look id) rest

variable {look : String → Except ImportError Book}

theorem follows_eq_imports {id : String} {b : Book} (h : look id = .ok b) :
    Follows look id = b.Imports := by
  funext next
  refine propext ⟨?_, fun hnext => ⟨b, h, hnext⟩⟩
  rintro ⟨c, hc, hnext⟩
  obtain rfl := Except.ok.inj (h.symm.trans hc)
  exact hnext

/-- A path of imports that goes on below a direct import. -/
theorem importPath_cons {b c : Book} {i : Import} {rest : List String}
    (hi : i ∈ b.preamble.imports) (hc : look i.id = .ok c) (h : ImportPath look c.Imports rest) :
    ImportPath look b.Imports (i.id :: rest) :=
  ⟨⟨i, hi, rfl⟩, follows_eq_imports hc ▸ h⟩

theorem importPath_singleton {b : Book} {i : Import} (hi : i ∈ b.preamble.imports) :
    ImportPath look b.Imports [i.id] :=
  ⟨⟨i, hi, rfl⟩, trivial⟩

/-- What resolving, where the paths of imports begin with `starts`, is to come to. -/
structure FindsCycles (look : String → Except ImportError Book) (starts : String → Prop)
    (r : Except ImportError Book) : Prop where
  ok : (∀ path id, ImportPath look starts (path ++ [id]) → ∃ b, look id = .ok b) →
    (∀ path, ImportPath look starts path → path.Nodup) → ∃ b, r = .ok b
  error : ∀ path, ImportPath look starts path → ¬ path.Nodup → ∃ e, r = .error e
  cycle : ∀ path, r = .error (.cycle path) → ImportPath look starts path ∧
    ∃ before last, path = before ++ [last] ∧ before.Nodup ∧ last ∈ before

/-! ## Failures of one step -/

/-- Imports are refused for a cycle or for an alias that is used twice. -/
theorem exists_of_checkImports_eq_error {path aliases : List String} {imports : List Import}
    {e : ImportError} (h : checkImports path aliases imports = .error e) :
    (∃ i ∈ imports, i.id ∈ path ∧ e = .cycle (path ++ [i.id])) ∨
      (∃ name, e = .duplicateAlias name) ∧
        ¬ ((imports.map (·.aliasName)).Nodup ∧ ∀ i ∈ imports, i.aliasName ∉ aliases) := by
  induction imports generalizing aliases with
  | nil => cases h
  | cons i rest ih =>
      rw [checkImports] at h
      split at h
      · next hid =>
          exact Or.inl ⟨i, List.mem_cons_self, hid, (Except.error.inj h).symm⟩
      · split at h
        · next hused =>
            refine Or.inr ⟨⟨i.aliasName, (Except.error.inj h).symm⟩, ?_⟩
            rintro ⟨-, hfresh⟩
            exact hfresh i List.mem_cons_self hused
        · next hunused =>
            rcases ih h with ⟨j, hj, hcycle⟩ | ⟨hname, hrest⟩
            · exact Or.inl ⟨j, List.mem_cons_of_mem i hj, hcycle⟩
            · refine Or.inr ⟨hname, ?_⟩
              rintro ⟨hnodup, hfresh⟩
              rw [List.map_cons, List.nodup_cons] at hnodup
              refine hrest ⟨hnodup.2, fun j hj hmem => ?_⟩
              rcases List.mem_cons.mp hmem with heq | hmem
              · exact hnodup.1 (List.mem_map.mpr ⟨j, hj, heq⟩)
              · exact hfresh j (List.mem_cons_of_mem i hj) hmem

theorem mergeOutcomes_eq_error {outcome : Import × Book → Except ImportError Book} {b : Book}
    {imports : List (Import × Book)} {e : ImportError}
    (h : mergeOutcomes outcome b imports = .error e) : ∃ m ∈ imports, outcome m = .error e := by
  induction imports generalizing b with
  | nil => cases h
  | cons m rest ih =>
      rw [mergeOutcomes] at h
      cases hm : outcome m with
      | error e' =>
          rw [hm] at h
          obtain rfl : e' = e := Except.error.inj h
          exact ⟨m, List.mem_cons_self, hm⟩
      | ok c =>
          rw [hm] at h
          obtain ⟨m', hm', he⟩ := ih h
          exact ⟨m', List.mem_cons_of_mem m hm', he⟩

theorem mergeOutcomes_eq_ok {outcome : Import × Book → Except ImportError Book} {b b' : Book}
    {imports : List (Import × Book)} (h : mergeOutcomes outcome b imports = .ok b') :
    ∀ m ∈ imports, ∃ c, outcome m = .ok c := by
  induction imports generalizing b with
  | nil => simp
  | cons m rest ih =>
      obtain ⟨c, hc, hrest⟩ := Except.bind_eq_ok_iff.mp h
      exact List.forall_mem_cons.mpr ⟨⟨c, hc⟩, ih hrest⟩

/-! ## Whole resolutions -/

theorem Resolves.exists_ok {path : List String} {b : Book} {r : Except ImportError Book}
    (h : Resolves look path b r)
    (haliases : ∀ id c, look id = .ok c → c.preamble.DistinctAliases) :
    b.preamble.DistinctAliases →
      (∀ rest id, ImportPath look b.Imports (rest ++ [id]) → ∃ c, look id = .ok c) →
      (∀ rest, ImportPath look b.Imports rest → (path ++ rest).Nodup) → ∃ b', r = .ok b' := by
  induction h with
  | refused hcheck =>
      intro hdistinct hread hnodup
      rcases exists_of_checkImports_eq_error hcheck with ⟨i, hi, hid, -⟩ | ⟨-, hshared⟩
      · have hpath := hnodup [i.id] (importPath_singleton hi)
        rw [List.nodup_append] at hpath
        exact absurd rfl (hpath.2.2 i.id hid i.id List.mem_cons_self)
      · exact absurd ⟨hdistinct, by simp⟩ hshared
  | unread _ hunread =>
      intro _ hread _
      obtain ⟨i, hi, he⟩ := exists_of_readImports_eq_error hunread
      obtain ⟨c, hc⟩ := hread [] i.id (importPath_singleton hi)
      cases he.symm.trans hc
  | @merged path b imports outcome _ himports _ ih =>
      intro _ hread hnodup
      cases hr : mergeOutcomes outcome b imports with
      | ok b' => exact ⟨b', rfl⟩
      | error e =>
          obtain ⟨m, hm, he⟩ := mergeOutcomes_eq_error hr
          obtain ⟨hi, hc⟩ := mem_readImports himports hm
          have hbelow : ∃ b', outcome m = .ok b' := by
            refine ih m hm (haliases _ _ hc) (fun rest id hrest => ?_) fun rest hrest => ?_
            · exact hread (m.1.id :: rest) id (importPath_cons hi hc hrest)
            · have hlonger := hnodup (m.1.id :: rest) (importPath_cons hi hc hrest)
              rwa [List.append_assoc]
          obtain ⟨b', hb'⟩ := hbelow
          cases he.symm.trans hb'

theorem Resolves.nodup {path : List String} {b : Book} {r : Except ImportError Book}
    (h : Resolves look path b r) {b' : Book} (hr : r = .ok b') (hpath : path.Nodup) :
    ∀ rest, ImportPath look b.Imports rest → (path ++ rest).Nodup := by
  induction h generalizing b' with
  | refused _ => cases hr
  | unread _ _ => cases hr
  | @merged path b imports outcome hcheck himports _ ih =>
      intro rest hrest
      cases rest with
      | nil => simpa using hpath
      | cons id rest =>
          obtain ⟨⟨i, hi, rfl⟩, hbelow⟩ := hrest
          obtain ⟨c, hm⟩ := exists_mem_readImports himports hi
          obtain ⟨-, hc⟩ := mem_readImports himports hm
          obtain ⟨c', hc'⟩ := mergeOutcomes_eq_ok hr _ hm
          have hnew : i.id ∉ path := not_mem_of_checkImports hcheck i hi
          have hlonger : (path ++ [i.id]).Nodup := List.concat_eq_append ▸ hpath.concat hnew
          rw [follows_eq_imports hc] at hbelow
          have hnodup := ih (i, c) hm hc' hlonger rest hbelow
          rwa [List.append_assoc] at hnodup

theorem Resolves.cycle {path : List String} {b : Book} {r : Except ImportError Book}
    (h : Resolves look path b r) (hlook : ∀ id ids, look id ≠ .error (.cycle ids))
    {ids : List String} (hr : r = .error (.cycle ids)) (hpath : path.Nodup) :
    ∃ rest last, ids = path ++ rest ++ [last] ∧ ImportPath look b.Imports (rest ++ [last]) ∧
      (path ++ rest).Nodup ∧ last ∈ path ++ rest := by
  induction h with
  | refused hcheck =>
      obtain rfl := Except.error.inj hr
      rcases exists_of_checkImports_eq_error hcheck with ⟨i, hi, hid, he⟩ | ⟨⟨name, he⟩, -⟩
      · refine ⟨[], i.id, ?_, importPath_singleton hi, by simpa using hpath, by simpa using hid⟩
        simpa using he
      · cases he
  | unread _ hunread =>
      obtain rfl := Except.error.inj hr
      obtain ⟨i, -, he⟩ := exists_of_readImports_eq_error hunread
      exact absurd he (hlook i.id ids)
  | @merged path b imports outcome hcheck himports _ ih =>
      obtain ⟨m, hm, he⟩ := mergeOutcomes_eq_error hr
      obtain ⟨hi, hc⟩ := mem_readImports himports hm
      have hnew : m.1.id ∉ path := not_mem_of_checkImports hcheck m.1 hi
      have hlonger : (path ++ [m.1.id]).Nodup := List.concat_eq_append ▸ hpath.concat hnew
      obtain ⟨rest, last, hids, hrest, hnodup, hlast⟩ := ih m hm he hlonger
      refine ⟨m.1.id :: rest, last, ?_, importPath_cons hi hc hrest, ?_, ?_⟩
      · simpa using hids
      · simpa using hnodup
      · simpa using hlast

/-! ## Books and stored documents -/

section Whole

variable {archive : Archive} {shelf : Shelf}

theorem lookup_ne_cycle (id : String) (ids : List String) :
    lookup archive shelf id ≠ .error (.cycle ids) := by
  unfold lookup
  cases shelf[id]? with
  | some b => simp
  | none =>
      intro h
      have hfailing := archive.failing?_of_read h
      cases hfailing

/-- The shelf holds books that were read. -/
def Shelf.Parsed (shelf : Shelf) : Prop :=
  ∀ (id : String) b, shelf[id]? = some b → ∃ source, Book.parse source = .ok b

/-- What an id stands for was read from a source. -/
theorem Shelf.Parsed.exists_source (h : shelf.Parsed) {id : String} {b : Book}
    (hb : lookup archive shelf id = .ok b) : ∃ source, Book.parse source = .ok b := by
  unfold lookup at hb
  cases hheld : shelf[id]? with
  | some c =>
      rw [hheld] at hb
      obtain rfl := Except.ok.inj hb
      exact h id c hheld
  | none =>
      rw [hheld] at hb
      unfold Archive.read at hb
      cases hanswer : archive.answer id with
      | absent => simp [hanswer] at hb
      | failing reason => simp [hanswer] at hb
      | source text =>
          cases hparse : Book.parse text with
          | error e => simp [hanswer, hparse] at hb
          | ok c =>
              obtain rfl : c = b := by simpa [hanswer, hparse] using hb
              exact ⟨text, hparse⟩

theorem Shelf.Parsed.distinctAliases (h : shelf.Parsed) {id : String} {b : Book}
    (hb : lookup archive shelf id = .ok b) : b.preamble.DistinctAliases := by
  obtain ⟨source, hparse⟩ := h.exists_source hb
  exact Book.distinctAliases_of_parse hparse

theorem findsCycles_resolve (hshelf : shelf.Parsed) {b : Book}
    (hb : b.preamble.DistinctAliases) :
    FindsCycles (lookup archive shelf) b.Imports (resolve archive b shelf).result := by
  have hresolves := resolves_resolve archive shelf b
  constructor
  · intro hread hnodup
    exact hresolves.exists_ok (fun _ _ hc => hshelf.distinctAliases hc) hb hread hnodup
  · intro path hpath hrepeats
    cases hr : (resolve archive b shelf).result with
    | error e => exact ⟨e, rfl⟩
    | ok b' => exact absurd (hresolves.nodup hr List.nodup_nil path hpath) hrepeats
  · intro path hr
    obtain ⟨before, last, rfl, hpath, hnodup, hlast⟩ :=
      hresolves.cycle lookup_ne_cycle hr List.nodup_nil
    exact ⟨hpath, before, last, rfl, hnodup, hlast⟩

theorem findsCycles_load (hshelf : shelf.Parsed) (id : String) :
    FindsCycles (lookup archive shelf) (· = id) (load archive id shelf).result := by
  -- The document that is loaded stands first on all paths.
  have hpath : ∀ {b : Book}, lookup archive shelf id = .ok b → ∀ {rest : List String},
      ImportPath (lookup archive shelf) b.Imports rest →
        ImportPath (lookup archive shelf) (· = id) (id :: rest) :=
    fun hb _ hrest => ⟨rfl, follows_eq_imports hb ▸ hrest⟩
  have hloads := loads_load archive shelf id
  generalize (load archive id shelf).result = r at hloads ⊢
  cases hloads with
  | @unread e hunread =>
      refine ⟨fun hread _ => ?_, fun _ _ _ => ⟨e, rfl⟩, fun ids hr => ?_⟩
      · obtain ⟨b, hb⟩ := hread [] id ⟨rfl, trivial⟩
        cases hunread.symm.trans hb
      · obtain rfl := Except.error.inj hr
        exact absurd hunread (lookup_ne_cycle id ids)
  | @resolved b _ hb hresolves =>
      constructor
      · intro hread hnodup
        refine hresolves.exists_ok (fun _ _ hc => hshelf.distinctAliases hc)
          (hshelf.distinctAliases hb) (fun rest next hrest => ?_) fun rest hrest => ?_
        · exact hread (id :: rest) next (hpath hb hrest)
        · exact hnodup (id :: rest) (hpath hb hrest)
      · intro path hstarts hrepeats
        cases r with
        | error e => exact ⟨e, rfl⟩
        | ok b' =>
            cases path with
            | nil => exact absurd List.nodup_nil hrepeats
            | cons first rest =>
                obtain ⟨rfl, hrest⟩ := hstarts
                rw [follows_eq_imports hb] at hrest
                exact absurd (hresolves.nodup rfl (by simp) rest hrest) hrepeats
      · intro path hr
        obtain ⟨rest, last, rfl, hrest, hnodup, hlast⟩ :=
          hresolves.cycle lookup_ne_cycle hr (by simp)
        exact ⟨hpath hb hrest, id :: rest, last, rfl, hnodup, hlast⟩

end Whole

/-- Resolving a book that was read, and loading the document of an id, ends: it comes to what the
imports come to by finite derivations, and to nothing else.  It finds exactly the cycles. -/
theorem resolution_ends_and_finds_cycles (archive : Archive) {shelf : Shelf}
    (hshelf : shelf.Parsed) :
    let look := lookup archive shelf
    (∀ source b, Book.parse source = .ok b →
      (∀ r, Resolves look [] b r ↔ (resolve archive b shelf).result = r) ∧
        FindsCycles look b.Imports (resolve archive b shelf).result) ∧
    ∀ id, (∀ r, Loads look id r ↔ (load archive id shelf).result = r) ∧
      FindsCycles look (· = id) (load archive id shelf).result := by
  intro look
  refine ⟨fun source b hparse => ?_, fun id => ?_⟩
  · exact ⟨resolve_eq_iff archive shelf b,
      findsCycles_resolve hshelf (Book.distinctAliases_of_parse hparse)⟩
  · exact ⟨load_eq_iff archive shelf id, findsCycles_load hshelf id⟩

/-- Below `a` lies a cycle that `a` is not on, half of it on the shelf. -/
theorem resolution_ends_and_finds_cycles_rho :
    let importing (id : String) := "%preamble:\n- imports: " ++ id ++ "\nroot:\n- x\n"
    let archive := Archive.ofMap
      ((Std.ExtTreeMap.insert ∅ "a" (.source (importing "b"))).insert "b" (.source (importing "c")))
    let held : Book := (Book.parse (importing "b")).toOption.getD {}
    let shelf : Shelf := Std.ExtTreeMap.insert ∅ "c" held
    shelf.Parsed ∧ Book.parse (importing "b") = .ok held ∧
      (∃ e, (resolve archive held shelf).result = .error e) ∧
      ∃ e, (load archive "a" shelf).result = .error e := by
  intro importing archive held shelf
  have hparse : Book.parse (importing "b") = .ok held :=
    Except.eq_ok_getD (x := Book.parse (importing "b")) (by decide) {}
  have hshelf : shelf.Parsed := by
    intro id b hb
    rw [Std.ExtTreeMap.getElem?_insert] at hb
    split at hb
    · obtain rfl := Option.some.inj hb
      exact ⟨_, hparse⟩
    · simp at hb
  have hstep : ∀ id next, (lookup archive shelf id).toOption.isSome = true →
      ((lookup archive shelf id).toOption.getD {}).Imports next →
        Follows (lookup archive shelf) id next :=
    fun _ _ hread hnext => ⟨_, Except.eq_ok_getD hread {}, hnext⟩
  have hround : ImportPath (lookup archive shelf) (Follows (lookup archive shelf) "b") ["c", "b"] :=
    ⟨hstep "b" "c" (by decide) (by decide), hstep "c" "b" (by decide) (by decide), trivial⟩
  have hfinds := resolution_ends_and_finds_cycles archive hshelf
  refine ⟨hshelf, hparse, ?_, ?_⟩
  · exact (hfinds.1 _ held hparse).2.error ["b", "c", "b"] ⟨by decide, hround⟩ (by decide)
  · have hfirst := hstep "a" "b" (by decide) (by decide)
    exact (hfinds.2 "a").2.error ["a", "b", "c", "b"] ⟨rfl, hfirst, hround⟩ (by decide)

end Phrasebook
