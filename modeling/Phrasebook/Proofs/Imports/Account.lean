import Phrasebook.Imports.Resolve

/-!
# What requests leave on the shelf

The ids that a request asked for tell the whole of what it did to the shelf: none of them was on the
shelf before, none was asked for twice, and the shelf gained exactly the books that the archive gave
for them.  `Fetched.Accounts` says so of one outcome.  It holds of a fetch and is kept by
sequencing, so it holds of everything that is put together from fetches, whether it succeeds or
fails half way (`resolve_accounts`, `load_accounts`).

It follows that a request never changes what an id stands for (`Fetched.Accounts.lookup_eq`).
-/

namespace Phrasebook

/-- The book that an id stands for: the one on the shelf, or else the one in the archive. -/
def lookup (archive : Archive) (shelf : Shelf) (id : String) : Except ImportError Book :=
  match shelf[id]? with
  | some b => .ok b
  | none => archive.read id

theorem Request.result_bind {α β : Type} (x : Request α) (f : α → Request β) (shelf : Shelf) :
    (Request.bind x f shelf).result =
      (x shelf).result.bind fun a => (f a (x shelf).shelf).result := by
  unfold Request.bind
  dsimp only
  cases (x shelf).result <;> rfl

/-- The id of the document that could not be fetched, if that is why a request failed. -/
def ImportError.failing? : ImportError → Option String
  | .loadFailure id _ | .parse id _ => some id
  | .cycle _ | .duplicateAlias _ | .noArchive _ => none

/-- An outcome of a request, made with a shelf, whose shelf is accounted for by what it asked. -/
structure Fetched.Accounts {α : Type} (archive : Archive) (shelf : Shelf) (out : Fetched α) :
    Prop where
  asked_nodup : out.asked.Nodup
  asked_fresh : ∀ id ∈ out.asked, shelf[id]? = none
  shelf_eq : ∀ id, out.shelf[id]? =
    shelf[id]?.or (if id ∈ out.asked then (archive.read id).toOption else none)
  answered : ∀ a, out.result = .ok a → ∀ id ∈ out.asked, ∃ b, archive.read id = .ok b
  failed : ∀ e, out.result = .error e → ∀ id, e.failing? = some id →
    id ∈ out.asked ∧ archive.read id = .error e

namespace Fetched.Accounts

variable {α β : Type} {archive : Archive} {shelf : Shelf}

section Outcome

variable {out : Fetched α}

theorem lookup_eq (h : out.Accounts archive shelf) :
    lookup archive out.shelf = lookup archive shelf := by
  funext id
  unfold lookup
  rw [h.shelf_eq id]
  cases hheld : shelf[id]? with
  | some b => rfl
  | none =>
      rw [Option.none_or]
      by_cases hid : id ∈ out.asked
      · rw [if_pos hid]
        cases archive.read id <;> rfl
      · rw [if_neg hid]

/-- A document that could not be fetched is not on the shelf. -/
theorem getElem?_of_failing (h : out.Accounts archive shelf) {e : ImportError}
    (he : out.result = .error e) {id : String} (hid : e.failing? = some id) :
    out.shelf[id]? = none := by
  obtain ⟨hasked, hread⟩ := h.failed e he id hid
  rw [h.shelf_eq, h.asked_fresh id hasked, if_pos hasked, hread]
  rfl

/-- What a successful request asked for is on the shelf. -/
theorem getElem?_ne_none (h : out.Accounts archive shelf) {a : α} (ha : out.result = .ok a)
    {id : String} (hid : id ∈ out.asked) : out.shelf[id]? ≠ none := by
  obtain ⟨b, hb⟩ := h.answered a ha id hid
  rw [h.shelf_eq, h.asked_fresh id hid, if_pos hid, hb]
  exact Option.some_ne_none b

end Outcome

/-- An outcome without a question. -/
theorem idle {r : Except ImportError α} (h : ∀ e, r = .error e → e.failing? = none) :
    (⟨r, shelf, []⟩ : Fetched α).Accounts archive shelf where
  asked_nodup := List.nodup_nil
  asked_fresh := by simp
  shelf_eq := by simp
  answered := by simp
  failed e he id hid := by
    rw [h e he] at hid
    cases hid

theorem pure (a : α) : (Request.pure a shelf).Accounts archive shelf :=
  idle fun _ he => nomatch he

theorem fail {e : ImportError} (he : e.failing? = none) :
    (Request.fail e shelf : Fetched α).Accounts archive shelf :=
  idle fun _ h => Except.error.inj h ▸ he

theorem bind {x : Request α} {f : α → Request β} (hx : (x shelf).Accounts archive shelf)
    (hf : ∀ a shelf, (f a shelf).Accounts archive shelf) :
    (Request.bind x f shelf).Accounts archive shelf := by
  unfold Request.bind
  dsimp only
  cases hresult : (x shelf).result with
  | error e =>
      refine ⟨hx.asked_nodup, hx.asked_fresh, hx.shelf_eq, ?_, ?_⟩
      · intro b hb
        cases hb
      · intro e' he
        obtain rfl := Except.error.inj he
        exact hx.failed e hresult
  | ok a =>
      have hrest := hf a (x shelf).shelf
      constructor
      · -- What was asked for first is on the shelf when the second request begins.
        rw [List.nodup_append]
        refine ⟨hx.asked_nodup, hrest.asked_nodup, ?_⟩
        rintro id hid _ hid' rfl
        exact hx.getElem?_ne_none hresult hid (hrest.asked_fresh id hid')
      · intro id hid
        rcases List.mem_append.mp hid with hid | hid
        · exact hx.asked_fresh id hid
        · have hmiddle := hrest.asked_fresh id hid
          rw [hx.shelf_eq] at hmiddle
          exact (Option.or_eq_none_iff.mp hmiddle).1
      · intro id
        rw [hrest.shelf_eq, hx.shelf_eq, Option.or_assoc]
        congr 1
        by_cases hid : id ∈ (x shelf).asked
        · obtain ⟨b, hb⟩ := hx.answered a hresult id hid
          simp [hid, hb, Except.toOption]
        · simp [hid]
      · intro c hc id hid
        rcases List.mem_append.mp hid with hid | hid
        · exact hx.answered a hresult id hid
        · exact hrest.answered c hc id hid
      · intro e he id hid
        obtain ⟨hasked, hread⟩ := hrest.failed e he id hid
        exact ⟨List.mem_append_right _ hasked, hread⟩

end Fetched.Accounts

/-! ## Fetching -/

section Fetch

variable (archive : Archive)

theorem Archive.failing?_of_read {id : String} {e : ImportError}
    (h : archive.read id = .error e) : e.failing? = some id := by
  unfold Archive.read at h
  split at h
  · obtain rfl := Except.error.inj h
    rfl
  · obtain rfl := Except.error.inj h
    rfl
  · split at h
    · obtain rfl := Except.error.inj h
      rfl
    · cases h

theorem fetch_accounts (id : String) (shelf : Shelf) :
    (fetch archive id shelf).Accounts archive shelf := by
  unfold fetch
  cases hheld : shelf[id]? with
  | some b => exact .idle fun _ he => nomatch he
  | none =>
      cases hread : archive.read id with
      | error e =>
          refine ⟨by simp, by simpa using hheld, fun key => ?_, fun _ ha => (nomatch ha), ?_⟩
          · by_cases hkey : key = id
            · simp [hkey, hread, Except.toOption]
            · simp [hkey]
          · intro e' he' id' hid'
            obtain rfl := Except.error.inj he'
            obtain rfl : id = id' :=
              Option.some.inj ((archive.failing?_of_read hread).symm.trans hid')
            exact ⟨List.mem_singleton_self id, hread⟩
      | ok b =>
          refine ⟨by simp, by simpa using hheld, fun key => ?_, fun _ _ => ?_,
            fun _ he => nomatch he⟩
          · rw [Std.ExtTreeMap.getElem?_insert]
            by_cases hkey : key = id
            · simp [hkey, hheld, hread, Except.toOption]
            · simp [hkey, Ne.symm hkey]
          · simpa using ⟨b, hread⟩

theorem fetch_result (id : String) (shelf : Shelf) :
    (fetch archive id shelf).result = lookup archive shelf id := by
  unfold fetch lookup
  cases shelf[id]? with
  | some b => rfl
  | none => cases archive.read id <;> rfl

theorem fetchImports_accounts (imports : List Import) (shelf : Shelf) :
    (fetchImports archive imports shelf).Accounts archive shelf := by
  induction imports generalizing shelf with
  | nil => exact .pure []
  | cons i rest ih =>
      refine .bind (fetch_accounts archive i.id shelf) fun b shelf' => ?_
      exact .bind (ih shelf') fun more shelf'' => .pure _

theorem mergeImports_accounts {resolve : List String → Book → Request Book}
    (hresolve : ∀ path b shelf, (resolve path b shelf).Accounts archive shelf)
    (path : List String) (imports : List (Import × Book)) :
    ∀ b shelf, (mergeImports resolve path b imports shelf).Accounts archive shelf := by
  induction imports with
  | nil => intro b shelf; exact .pure b
  | cons i rest ih =>
      intro b shelf
      exact .bind (hresolve _ _ shelf) fun resolved shelf' => ih _ shelf'

theorem failing?_of_checkImports {path aliases : List String} {imports : List Import}
    {e : ImportError} (h : checkImports path aliases imports = .error e) : e.failing? = none := by
  induction imports generalizing aliases with
  | nil => cases h
  | cons i rest ih =>
      rw [checkImports] at h
      split at h
      · obtain rfl := Except.error.inj h
        rfl
      · split at h
        · obtain rfl := Except.error.inj h
          rfl
        · exact ih h

theorem resolveAlong_accounts (more : Nat) :
    ∀ path b shelf, (resolveAlong archive more path b shelf).Accounts archive shelf := by
  induction more with
  | zero => intro path b shelf; exact .fail rfl
  | succ more ih =>
      intro path b shelf
      unfold resolveAlong
      cases hcheck : checkImports path [] b.preamble.imports with
      | error e => exact .fail (failing?_of_checkImports hcheck)
      | ok _ =>
          refine .bind (fetchImports_accounts archive _ shelf) fun imports shelf' => ?_
          exact mergeImports_accounts archive ih path imports b shelf'

theorem resolve_accounts (b : Book) (shelf : Shelf) :
    (resolve archive b shelf).Accounts archive shelf :=
  resolveAlong_accounts archive _ [] b shelf

theorem load_accounts (id : String) (shelf : Shelf) :
    (load archive id shelf).Accounts archive shelf := by
  unfold load
  exact .bind (fetch_accounts archive id shelf) fun b shelf' =>
    resolveAlong_accounts archive _ [id] b shelf'

end Fetch

end Phrasebook
