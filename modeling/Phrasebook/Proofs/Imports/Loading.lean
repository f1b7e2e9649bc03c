import Phrasebook.Engine.Basic
import Phrasebook.Proofs.Imports.Merging

/-!
# Loading a document and reading its source agree

Loading a document begins with its id on the path, and reading its source begins with no id on the
path.  So on a document that imports itself, reading its source goes once more around the cycle and
then fails as well.

If reading succeeds, no path of imports has an id twice.  Then none of them comes back to the
document: such a path could be followed once more from there, and would have the id of the document
twice (`not_mem_of_nodup`).  So the id on the path forbids nothing (`resolves_below_iff`).

With a shelf that only holds books of the archive each id stands for the same book as without one,
so loading and reading come to the same book (`loading_agrees_with_reading`).
-/

namespace Phrasebook

variable {look : String → Except ImportError Book} {starts : String → Prop}

/-! ## Paths that come back -/

/-- A path of imports through an id is one that ends there and one that goes on from there. -/
theorem importPath_append_cons_iff {before after : List String} {id : String} :
    ImportPath look starts (before ++ id :: after) ↔
      ImportPath look starts (before ++ [id]) ∧ ImportPath look (Follows look id) after := by
  induction before generalizing starts with
  | nil => simp [ImportPath]
  | cons first rest ih =>
      rw [List.cons_append, List.cons_append, ImportPath, ImportPath, ih, and_assoc]

/-- If no path of imports has an id twice, none comes back to the document where they begin. -/
theorem not_mem_of_nodup {id : String} {b : Book} (hread : look id = .ok b)
    (hnodup : ∀ path, ImportPath look b.Imports path → path.Nodup) {path : List String}
    (hpath : ImportPath look b.Imports path) : id ∉ path := by
  intro hmem
  obtain ⟨before, after, rfl⟩ := List.append_of_mem hmem
  have hround : ImportPath look b.Imports (before ++ [id]) :=
    (importPath_append_cons_iff.mp hpath).1
  have htwice : ImportPath look b.Imports (before ++ id :: (before ++ [id])) := by
    rw [importPath_append_cons_iff, follows_eq_imports hread]
    exact ⟨hround, hround⟩
  have hlater : id ∉ before ++ [id] :=
    (List.nodup_cons.mp (List.nodup_append.mp (hnodup _ htwice)).2.1).1
  exact hlater (List.mem_append_right _ List.mem_cons_self)

/-! ## Resolving along another path -/

/-- A resolution that succeeds comes to the same along any path to which no imports come back. -/
theorem Resolves.along {path : List String} {b b' : Book} (h : Resolves look path b (.ok b'))
    {path' : List String}
    (hnodup : ∀ rest, ImportPath look b.Imports rest → (path' ++ rest).Nodup) :
    Resolves look path' b (.ok b') := by
  induction h using Resolves.ok_induction generalizing path' with
  | step path b doc part _ _ haliases hread _ ih =>
      refine resolves_ok_iff.mpr ⟨fun i hi hmem => ?_, haliases, doc, part, fun i hi => ?_, rfl⟩
      · have hpath := hnodup [i.id] (importPath_singleton hi)
        exact (List.nodup_append.mp hpath).2.2 i.id hmem i.id List.mem_cons_self rfl
      · refine ⟨hread i hi, ih i hi fun rest hrest => ?_⟩
        have hlonger := hnodup (i.id :: rest) (importPath_cons hi (hread i hi) hrest)
        rwa [List.append_assoc]

/-- The id of a document on the path does not matter to whether the document can be resolved. -/
theorem resolves_below_iff {id : String} {b b' : Book} (hread : look id = .ok b) :
    Resolves look [id] b (.ok b') ↔ Resolves look [] b (.ok b') := by
  constructor
  · intro h
    exact h.of_subset (List.nil_subset _)
  · intro h
    have hnodup : ∀ path, ImportPath look b.Imports path → path.Nodup :=
      h.nodup rfl List.nodup_nil
    refine h.along fun rest hrest => List.nodup_cons.mpr ⟨?_, hnodup rest hrest⟩
    exact not_mem_of_nodup hread hnodup hrest

/-- A document is loaded when it can be read and resolved. -/
theorem loads_ok_iff {id : String} {b : Book} :
    Loads look id (.ok b) ↔ ∃ c, look id = .ok c ∧ Resolves look [] c (.ok b) := by
  constructor
  · intro h
    cases h with
    | resolved hread hresolve => exact ⟨_, hread, (resolves_below_iff hread).mp hresolve⟩
  · rintro ⟨c, hread, hresolve⟩
    exact .resolved hread ((resolves_below_iff hread).mpr hresolve)

/-! ## Shelves of one archive -/

/-- The shelf holds books of documents as the archive has them. -/
def Shelf.HeldFrom (shelf : Shelf) (archive : Archive) : Prop :=
  ∀ (id : String) (b : Book), shelf[id]? = some b →
    ∃ text, archive.answer id = .source text ∧ Book.parse text = .ok b

theorem Archive.read_eq_ok_iff {archive : Archive} {id : String} {b : Book} :
    archive.read id = .ok b ↔
      ∃ text, archive.answer id = .source text ∧ Book.parse text = .ok b := by
  unfold read
  cases archive.answer id with
  | absent => simp
  | failing reason => simp
  | source text =>
      dsimp only
      cases hparse : Book.parse text with
      | error e => simp [hparse]
      | ok c => simp [hparse]

/-- Then each id stands for what the archive has. -/
theorem Shelf.HeldFrom.lookup_eq {shelf : Shelf} {archive : Archive}
    (h : shelf.HeldFrom archive) : lookup archive shelf = archive.read := by
  funext id
  unfold lookup
  cases hheld : shelf[id]? with
  | none => rfl
  | some b => exact (Archive.read_eq_ok_iff.mpr (h id b hheld)).symm

theorem Shelf.heldFrom_empty (archive : Archive) : Shelf.HeldFrom ∅ archive := by
  intro id b h
  simp at h

theorem resolve_eq_ok_iff {archive : Archive} {shelf : Shelf} (hshelf : shelf.HeldFrom archive)
    {b b' : Book} :
    (resolve archive b shelf).result = .ok b' ↔ Resolves archive.read [] b (.ok b') := by
  rw [← resolve_eq_iff, hshelf.lookup_eq]

theorem load_eq_ok_iff {archive : Archive} {shelf : Shelf} (hshelf : shelf.HeldFrom archive)
    {id source : String} (hsource : archive.answer id = .source source) {b : Book} :
    (load archive id shelf).result = .ok b ↔
      ∃ c, Book.parse source = .ok c ∧ Resolves archive.read [] c (.ok b) := by
  have hread : ∀ c, archive.read id = .ok c ↔ Book.parse source = .ok c := by
    intro c
    rw [Archive.read_eq_ok_iff, hsource]
    simp
  rw [← load_eq_iff, hshelf.lookup_eq, loads_ok_iff]
  simp only [hread]

theorem Book.parseAndResolve_eq_ok_iff {archive : Archive} {source : String} {b : Book} :
    Book.parseAndResolve archive source = .ok b ↔
      ∃ c, Book.parse source = .ok c ∧ Resolves archive.read [] c (.ok b) := by
  unfold Book.parseAndResolve
  cases Book.parse source with
  | error fault => simp
  | ok c =>
      calc ((resolve archive c ∅).result.mapError EngineError.resolve = .ok b)
        _ ↔ (resolve archive c ∅).result = .ok b := Except.mapError_eq_ok_iff
        _ ↔ Resolves archive.read [] c (.ok b) := resolve_eq_ok_iff (Shelf.heldFrom_empty archive)
        _ ↔ _ := by simp

theorem result_resolve_of_imports_nil {archive : Archive} {shelf : Shelf} {b : Book}
    (h : b.preamble.imports = []) : (resolve archive b shelf).result = .ok b := by
  unfold resolve resolveAlong
  rw [h]
  rfl

/-- An engine reads a source as if nothing were on its shelf. -/
theorem Engine.parse_eq_ok_iff {archive : Archive} {e : Engine} (hshelf : e.shelf.HeldFrom archive)
    {source : String} {b : Book} :
    (e.parse (some archive) source).result = .ok b ↔
      Book.parseAndResolve archive source = .ok b := by
  rw [Book.parseAndResolve_eq_ok_iff]
  unfold Engine.parse
  cases Book.parse source with
  | error fault => simp
  | ok c =>
      have hresolve : (∃ c', (.ok c : Except ParseError Book) = .ok c' ∧
          Resolves archive.read [] c' (.ok b)) ↔ (resolve archive c e.shelf).result = .ok b := by
        simp [resolve_eq_ok_iff hshelf]
      rw [hresolve]
      dsimp only
      cases himports : c.preamble.imports with
      | nil =>
          -- An engine does not resolve such a book, as nothing would change.
          rw [result_resolve_of_imports_nil himports]
          simp
      | cons i rest => exact Except.mapError_eq_ok_iff

/-- Loading a stored document and reading its source come to the same book, and to one in the same
cases. -/
theorem loading_agrees_with_reading {archive : Archive} {id source : String}
    (hsource : archive.answer id = .source source) {e : Engine}
    (hshelf : e.shelf.HeldFrom archive) (b : Book) :
    ((load archive id e.shelf).result = .ok b ↔ Book.parseAndResolve archive source = .ok b) ∧
      ((e.load (some archive) id).result = .ok b ↔
        (e.parse (some archive) source).result = .ok b) := by
  have hload : (load archive id e.shelf).result = .ok b ↔
      Book.parseAndResolve archive source = .ok b :=
    (load_eq_ok_iff hshelf hsource).trans Book.parseAndResolve_eq_ok_iff.symm
  refine ⟨hload, ?_⟩
  calc ((e.load (some archive) id).result = .ok b)
    _ ↔ (load archive id e.shelf).result = .ok b := Except.mapError_eq_ok_iff
    _ ↔ Book.parseAndResolve archive source = .ok b := hload
    _ ↔ (e.parse (some archive) source).result = .ok b := (Engine.parse_eq_ok_iff hshelf).symm

/-- A deck of cards, with the book of suits on the shelf. -/
theorem loading_agrees_with_reading_deck :
    let deck := "%preamble:\n- imports: suits\nroot:\n- {{ suits.root }}\n"
    let suits := "%preamble:\n- imports: faces\nroot:\n- {{ faces.root }}\n"
    let archive := Archive.ofMap
      ((Std.ExtTreeMap.insert ∅ "deck" (.source deck)).insert "suits" (.source suits)
        |>.insert "faces" (.source "root:\n- queen\n"))
    let held : Book := (Book.parse suits).toOption.getD {}
    let e : Engine := { shelf := Std.ExtTreeMap.insert ∅ "suits" held }
    let b : Book := (Book.parseAndResolve archive deck).toOption.getD {}
    archive.answer "deck" = .source deck ∧ e.shelf.HeldFrom archive ∧
      (load archive "deck" e.shelf).result = .ok b ∧
        (e.parse (some archive) deck).result = .ok b := by
  intro deck suits archive held e b
  have hsource : archive.answer "deck" = .source deck := by decide
  have hparse : Book.parse suits = .ok held :=
    Except.eq_ok_getD (x := Book.parse suits) (by decide) {}
  have hshelf : e.shelf.HeldFrom archive := by
    intro id c hc
    rw [Std.ExtTreeMap.getElem?_insert] at hc
    split at hc
    · next hid =>
        obtain rfl := Std.LawfulEqCmp.eq_of_compare hid
        obtain rfl := Option.some.inj hc
        exact ⟨suits, by decide, hparse⟩
    · simp at hc
  have hread : Book.parseAndResolve archive deck = .ok b :=
    Except.eq_ok_getD (x := Book.parseAndResolve archive deck) (by decide +kernel) {}
  have hloaded : (load archive "deck" e.shelf).result = .ok b :=
    (loading_agrees_with_reading hsource hshelf b).1.mpr hread
  refine ⟨hsource, hshelf, hloaded, ?_⟩
  exact (loading_agrees_with_reading hsource hshelf b).2.mp (Except.mapError_eq_ok_iff.mpr hloaded)

end Phrasebook
