import Mathlib.Data.List.Nodup
import Mathlib.Data.List.Perm.Subperm
import Mathlib.Tactic.Choose
import Phrasebook.Proofs.Imports.Account
import Phrasebook.Proofs.Outcome

/-!
# Resolution without a bound and without a shelf

`Resolves` says what resolving a book comes to, given what each id stands for: it mentions neither
the shelf nor a bound for the number of documents.  Its derivations are finite, so it also says that
resolving ends.

`resolve` and `load` come to just that (`resolve_eq_iff`, `load_eq_iff`).  The measure is the number
of documents that are not on the path yet: an imported document is entered only if it could be read
and is not on the path, so the bound is never reached.  In particular two shelves on which all ids
stand for the same books give the same results (`resolve_result_congr`, `load_result_congr`).
-/

namespace Phrasebook

/-! ## What resolving comes to -/

/-- Imports with the books they stand for. -/
def readImports (look : String → Except ImportError Book) (imports : List Import) :
    Except ImportError (List (Import × Book)) :=
  imports.mapM fun i => (look i.id).map fun b => (i, b)

/-- A book with the resolved books of its imports, or the first failure of these. -/
def mergeOutcomes (outcome : Import × Book → Except ImportError Book) :
    Book → List (Import × Book) → Except ImportError Book
  | b, [] => .ok b
  | b, m :: rest =>
    (outcome m).bind fun c => mergeOutcomes outcome (b.insertAll (c.under m.1.aliasName)) rest

/-- What resolving a book comes to that was reached along a path of ids. -/
inductive Resolves (look : String → Except ImportError Book) :
    List String → Book → Except ImportError Book → Prop
  | refused {path : List String} {b : Book} {e : ImportError}
      (hcheck : checkImports path [] b.preamble.imports = .error e) :
      Resolves look path b (.error e)
  | unread {path : List String} {b : Book} {e : ImportError}
      (hcheck : checkImports path [] b.preamble.imports = .ok ())
      (hread : readImports look b.preamble.imports = .error e) : Resolves look path b (.error e)
  | merged {path : List String} {b : Book} {imports : List (Import × Book)}
      {outcome : Import × Book → Except ImportError Book}
      (hcheck : checkImports path [] b.preamble.imports = .ok ())
      (hread : readImports look b.preamble.imports = .ok imports)
      (hresolve : ∀ m ∈ imports, Resolves look (path ++ [m.1.id]) m.2 (outcome m)) :
      Resolves look path b (mergeOutcomes outcome b imports)

/-- What loading the document of an id comes to. -/
inductive Loads (look : String → Except ImportError Book) (id : String) :
    Except ImportError Book → Prop
  | unread {e : ImportError} (hread : look id = .error e) : Loads look id (.error e)
  | resolved {b : Book} {r : Except ImportError Book} (hread : look id = .ok b)
      (hresolve : Resolves look [id] b r) : Loads look id r

/-! ## Imports one by one -/

theorem mem_readImports {look : String → Except ImportError Book} {imports : List Import}
    {read : List (Import × Book)} (h : readImports look imports = .ok read) {m : Import × Book}
    (hm : m ∈ read) : m.1 ∈ imports ∧ look m.1.id = .ok m.2 := by
  obtain ⟨i, hi, hlook⟩ := Except.exists_of_mem_mapM h hm
  obtain ⟨b, hb, rfl⟩ := Except.map_eq_ok_iff.mp hlook
  exact ⟨hi, hb⟩

theorem exists_of_readImports_eq_error {look : String → Except ImportError Book}
    {imports : List Import} {e : ImportError} (h : readImports look imports = .error e) :
    ∃ i ∈ imports, look i.id = .error e := by
  obtain ⟨i, hi, hmap⟩ := Except.exists_of_mapM_eq_error h
  cases hlook : look i.id with
  | error e' =>
      rw [hlook] at hmap
      obtain rfl : e' = e := Except.error.inj hmap
      exact ⟨i, hi, hlook⟩
  | ok b =>
      rw [hlook] at hmap
      cases hmap

theorem exists_mem_readImports {look : String → Except ImportError Book} {imports : List Import}
    {read : List (Import × Book)} (h : readImports look imports = .ok read) {i : Import}
    (hi : i ∈ imports) : ∃ b, (i, b) ∈ read := by
  have hsteps := Except.mapM_eq_ok_iff.mp h
  induction hsteps with
  | nil => cases hi
  | @cons j m rest rest' hfirst hrest ih =>
      rcases List.mem_cons.mp hi with rfl | hi
      · obtain ⟨b, -, rfl⟩ := Except.map_eq_ok_iff.mp hfirst
        exact ⟨b, List.mem_cons_self⟩
      · obtain ⟨b, hb⟩ := ih (Except.mapM_eq_ok_iff.mpr hrest) hi
        exact ⟨b, List.mem_cons_of_mem _ hb⟩

/-- Imports are accepted if none of them is on the path and no two share an alias. -/
theorem checkImports_eq_ok_iff {path aliases : List String} {imports : List Import} :
    checkImports path aliases imports = .ok () ↔
      (∀ i ∈ imports, i.id ∉ path ∧ i.aliasName ∉ aliases) ∧
        (imports.map (·.aliasName)).Nodup := by
  induction imports generalizing aliases with
  | nil => simp [checkImports]
  | cons i rest ih =>
      rw [checkImports, List.forall_mem_cons, List.map_cons, List.nodup_cons]
      by_cases hid : i.id ∈ path
      · simp [hid]
      · by_cases hname : i.aliasName ∈ aliases
        · simp [hid, hname]
        · have hnew : (∀ j ∈ rest, j.id ∉ path ∧ j.aliasName ∉ i.aliasName :: aliases) ↔
              (∀ j ∈ rest, j.id ∉ path ∧ j.aliasName ∉ aliases) ∧
                i.aliasName ∉ rest.map (·.aliasName) := by
            simp only [List.mem_cons, List.mem_map, not_or, not_exists, not_and]
            grind
          rw [if_neg hid, if_neg hname, ih, hnew]
          tauto

theorem not_mem_of_checkImports {path aliases : List String} {imports : List Import}
    (h : checkImports path aliases imports = .ok ()) : ∀ i ∈ imports, i.id ∉ path :=
  fun i hi => ((checkImports_eq_ok_iff.mp h).1 i hi).1

theorem mergeOutcomes_congr {outcome outcome' : Import × Book → Except ImportError Book}
    {imports : List (Import × Book)} (h : ∀ m ∈ imports, outcome m = outcome' m) (b : Book) :
    mergeOutcomes outcome b imports = mergeOutcomes outcome' b imports := by
  induction imports generalizing b with
  | nil => rfl
  | cons m rest ih =>
      obtain ⟨hfirst, hrest⟩ := List.forall_mem_cons.mp h
      rw [mergeOutcomes, mergeOutcomes, hfirst]
      congr 1
      funext c
      exact ih hrest _

/-- Resolving comes to one thing only. -/
theorem Resolves.unique {look : String → Except ImportError Book} {path : List String} {b : Book}
    {r r' : Except ImportError Book} (h : Resolves look path b r) (h' : Resolves look path b r') :
    r = r' := by
  induction h generalizing r' with
  | refused hcheck =>
      cases h' with
      | refused hcheck' =>
          obtain rfl := Except.error.inj (hcheck.symm.trans hcheck')
          rfl
      | unread hcheck' _ => simp [hcheck] at hcheck'
      | merged hcheck' _ _ => simp [hcheck] at hcheck'
  | unread hcheck hread =>
      cases h' with
      | refused hcheck' => simp [hcheck] at hcheck'
      | unread _ hread' =>
          obtain rfl := Except.error.inj (hread.symm.trans hread')
          rfl
      | merged _ hread' _ => simp [hread] at hread'
  | merged hcheck hread _ ih =>
      cases h' with
      | refused hcheck' => simp [hcheck] at hcheck'
      | unread _ hread' => simp [hread] at hread'
      | merged _ hread' hresolve' =>
          obtain rfl := Except.ok.inj (hread.symm.trans hread')
          exact mergeOutcomes_congr (fun m hm => ih m hm (hresolve' m hm)) _

theorem Loads.unique {look : String → Except ImportError Book} {id : String}
    {r r' : Except ImportError Book} (h : Loads look id r) (h' : Loads look id r') : r = r' := by
  cases h with
  | unread hread =>
      cases h' with
      | unread hread' =>
          obtain rfl := Except.error.inj (hread.symm.trans hread')
          rfl
      | resolved hread' _ => simp [hread] at hread'
  | resolved hread hresolve =>
      cases h' with
      | unread hread' => simp [hread] at hread'
      | resolved hread' hresolve' =>
          obtain rfl := Except.ok.inj (hread.symm.trans hread')
          exact hresolve.unique hresolve'

/-! ## The bound is never reached -/

section Along

variable (archive : Archive) {look : String → Except ImportError Book}

theorem fetchImports_result (imports : List Import) {shelf : Shelf}
    (hlook : lookup archive shelf = look) :
    (fetchImports archive imports shelf).result = readImports look imports := by
  induction imports generalizing shelf with
  | nil => rfl
  | cons i rest ih =>
      have hlook' : lookup archive (fetch archive i.id shelf).shelf = look :=
        (fetch_accounts archive i.id shelf).lookup_eq.trans hlook
      have hrest := ih hlook'
      rw [readImports] at hrest
      rw [fetchImports, Request.result_bind, fetch_result, hlook, readImports, List.mapM_cons]
      cases look i.id with
      | error e => rfl
      | ok b =>
          change (Request.bind _ _ _).result = _
          rw [Request.result_bind, hrest]
          rfl

theorem mergeImports_result {resolve : List String → Book → Request Book} {path : List String}
    {outcome : Import × Book → Except ImportError Book} {imports : List (Import × Book)}
    (haccounts : ∀ path b shelf, (resolve path b shelf).Accounts archive shelf)
    (houtcome : ∀ m ∈ imports, ∀ shelf, lookup archive shelf = look →
      (resolve (path ++ [m.1.id]) m.2 shelf).result = outcome m) :
    ∀ b shelf, lookup archive shelf = look →
      (mergeImports resolve path b imports shelf).result = mergeOutcomes outcome b imports := by
  induction imports with
  | nil => intro b shelf _; rfl
  | cons m rest ih =>
      obtain ⟨hfirst, hrest⟩ := List.forall_mem_cons.mp houtcome
      intro b shelf hlook
      have hlook' := (haccounts (path ++ [m.1.id]) m.2 shelf).lookup_eq.trans hlook
      rw [mergeImports, Request.result_bind, hfirst shelf hlook, mergeOutcomes]
      congr 1
      funext c
      exact ih hrest _ _ hlook'

/-- With enough documents left to enter, resolving along a path comes to one thing on all shelves
through which the ids stand for the same. -/
theorem exists_resolves_resolveAlong {known : List String}
    (hknown : ∀ id b, look id = .ok b → id ∈ known) (more : Nat) :
    ∀ path b, path.Nodup → path ⊆ known → known.length < more + path.length →
      ∃ r, Resolves look path b r ∧
        ∀ shelf, lookup archive shelf = look → (resolveAlong archive more path b shelf).result = r
    := by
  induction more with
  | zero =>
      intro path b hnodup hsub hlt
      have hle : path.length ≤ known.length := (List.subperm_of_subset hnodup hsub).length_le
      omega
  | succ more ih =>
      intro path b hnodup hsub hlt
      cases hcheck : checkImports path [] b.preamble.imports with
      | error e =>
          refine ⟨.error e, .refused hcheck, fun shelf _ => ?_⟩
          rw [resolveAlong, hcheck]
          rfl
      | ok _ =>
          cases hread : readImports look b.preamble.imports with
          | error e =>
              refine ⟨.error e, .unread hcheck hread, fun shelf hlook => ?_⟩
              rw [resolveAlong, hcheck]
              change (Request.bind _ _ _).result = _
              rw [Request.result_bind, fetchImports_result archive _ hlook, hread]
              rfl
          | ok imports =>
              have himported : ∀ m ∈ imports, ∃ r, Resolves look (path ++ [m.1.id]) m.2 r ∧
                  ∀ shelf, lookup archive shelf = look →
                    (resolveAlong archive more (path ++ [m.1.id]) m.2 shelf).result = r := by
                intro m hm
                obtain ⟨himport, hlook⟩ := mem_readImports hread hm
                have hnew : m.1.id ∉ path := not_mem_of_checkImports hcheck m.1 himport
                refine ih _ _ ?_ ?_ ?_
                · exact List.concat_eq_append ▸ hnodup.concat hnew
                · exact List.append_subset.mpr ⟨hsub, by simpa using hknown _ _ hlook⟩
                · rw [List.length_append, List.length_singleton]
                  omega
              have : Nonempty (Except ImportError Book) := ⟨.ok {}⟩
              choose! outcome hresolve hresult using himported
              refine ⟨_, .merged hcheck hread hresolve, fun shelf hlook => ?_⟩
              have hlook' : lookup archive
                  (fetchImports archive b.preamble.imports shelf).shelf = look :=
                (fetchImports_accounts archive _ shelf).lookup_eq.trans hlook
              rw [resolveAlong, hcheck]
              change (Request.bind _ _ _).result = _
              rw [Request.result_bind, fetchImports_result archive _ hlook, hread]
              exact mergeImports_result archive (resolveAlong_accounts archive more) hresult b _
                hlook'

end Along

section Whole

variable (archive : Archive) (shelf : Shelf)

/-- The ids that may stand for a book. -/
def knownIds : List String := archive.ids ++ shelf.keys

theorem length_knownIds : (knownIds archive shelf).length = documentBound archive shelf := by
  simp [knownIds, documentBound]

theorem mem_knownIds {id : String} {b : Book} (h : lookup archive shelf id = .ok b) :
    id ∈ knownIds archive shelf := by
  rw [knownIds, List.mem_append]
  unfold lookup at h
  cases hheld : shelf[id]? with
  | some c =>
      refine Or.inr ?_
      rw [Std.ExtTreeMap.mem_keys, Std.ExtTreeMap.mem_iff_isSome_getElem?, hheld]
      rfl
  | none =>
      rw [hheld] at h
      unfold Archive.read at h
      cases hanswer : archive.answer id with
      | absent => simp [hanswer] at h
      | failing reason => simp [hanswer] at h
      | source text => exact Or.inl (archive.mem_ids id text hanswer)

/-- Resolving a book ends in what it comes to. -/
theorem resolves_resolve (b : Book) :
    Resolves (lookup archive shelf) [] b (resolve archive b shelf).result := by
  obtain ⟨r, hresolves, hresult⟩ := exists_resolves_resolveAlong archive
    (fun id b => mem_knownIds archive shelf) (documentBound archive shelf + 1) [] b List.nodup_nil
    (List.nil_subset _) (by simp [length_knownIds])
  rwa [resolve, hresult shelf rfl]

/-- Loading a document ends in what it comes to. -/
theorem loads_load (id : String) :
    Loads (lookup archive shelf) id (load archive id shelf).result := by
  rw [load, Request.result_bind, fetch_result]
  cases hread : lookup archive shelf id with
  | error e => exact .unread hread
  | ok b =>
      have hknown : id ∈ knownIds archive shelf := mem_knownIds archive shelf hread
      obtain ⟨r, hresolves, hresult⟩ := exists_resolves_resolveAlong archive
        (fun id b => mem_knownIds archive shelf) (documentBound archive shelf + 1) [id] b
        (by simp) (by simpa using hknown) (by rw [length_knownIds]; omega)
      refine .resolved hread ?_
      change Resolves _ _ _ (resolveAlong archive _ [id] b _).result
      rwa [hresult _ (fetch_accounts archive id shelf).lookup_eq]

theorem resolve_eq_iff (b : Book) (r : Except ImportError Book) :
    Resolves (lookup archive shelf) [] b r ↔ (resolve archive b shelf).result = r :=
  ⟨(resolves_resolve archive shelf b).unique, fun h => h ▸ resolves_resolve archive shelf b⟩

theorem load_eq_iff (id : String) (r : Except ImportError Book) :
    Loads (lookup archive shelf) id r ↔ (load archive id shelf).result = r :=
  ⟨(loads_load archive shelf id).unique, fun h => h ▸ loads_load archive shelf id⟩

end Whole

section Congr

variable {archive archive' : Archive} {shelf shelf' : Shelf}
  (h : lookup archive shelf = lookup archive' shelf')
include h

theorem resolve_result_congr (b : Book) :
    (resolve archive b shelf).result = (resolve archive' b shelf').result := by
  rw [← resolve_eq_iff, h]
  exact resolves_resolve archive' shelf' b

theorem load_result_congr (id : String) :
    (load archive id shelf).result = (load archive' id shelf').result := by
  rw [← load_eq_iff, h]
  exact loads_load archive' shelf' id

end Congr

end Phrasebook
