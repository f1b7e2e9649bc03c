import Phrasebook.Proofs.Imports.Resolution

/-!
# What a request depends on

An outcome says which ids the archive was asked for.  This is all that the request has seen of the
archive: another archive that answers these ids alike leads to the same outcome, with the same
result, the same shelf and the same questions (`fetch_eq_of_asked`, `resolve_eq_of_asked`,
`load_eq_of_asked`).

## Strategy

Two obstacles have to be removed.

* **Different archives.**  The questions are themselves part of what a request comes to, so they
  cannot be fixed beforehand.  `Request.Alike` compares two requests with each shelf, provided that
  all questions of the first one agree; it is kept by sequencing, so with the same bound for the
  number of documents all requests that differ in their archive are alike (`resolveAlong_alike`).
* **Different bounds.**  The bound is taken from the documents of the archive, and the other archive
  may have more of them or fewer.  It is never reached, and so any two bounds that both suffice come
  to the same (`resolveAlong_eq_of_enough`).
-/

namespace Phrasebook

variable {α β : Type}

/-! ## One request after another -/

namespace Request

variable {x x' : Request α} {f f' : α → Request β} {shelf : Shelf} {id : String}

theorem mem_asked_bind_left (h : id ∈ (x shelf).asked) :
    id ∈ (Request.bind x f shelf).asked := by
  unfold Request.bind
  dsimp only
  split
  · exact h
  · exact List.mem_append_left _ h

theorem mem_asked_bind_right {a : α} (ha : (x shelf).result = .ok a)
    (h : id ∈ (f a (x shelf).shelf).asked) : id ∈ (Request.bind x f shelf).asked := by
  unfold Request.bind
  dsimp only
  rw [ha]
  exact List.mem_append_right _ h

/-- Two requests after each other come to the same if the first ones do and the second ones do with
the value and the shelf that they meet. -/
theorem bind_congr (hx : x' shelf = x shelf)
    (hf : ∀ a, (x shelf).result = .ok a → f' a (x shelf).shelf = f a (x shelf).shelf) :
    Request.bind x' f' shelf = Request.bind x f shelf := by
  unfold Request.bind
  dsimp only
  rw [hx]
  cases hresult : (x shelf).result with
  | error e => rfl
  | ok a =>
      dsimp only
      rw [hf a hresult]

end Request

/-! ## Different archives -/

/-- With each shelf, the second request comes to what the first one comes to, if all that the first
one asks is agreed on. -/
def Request.Alike (agreed : String → Prop) (x x' : Request α) : Prop :=
  ∀ shelf, (∀ id ∈ (x shelf).asked, agreed id) → x' shelf = x shelf

namespace Request.Alike

variable {agreed : String → Prop}

theorem refl (x : Request α) : Alike agreed x x :=
  fun _ _ => rfl

theorem bind {x x' : Request α} {f f' : α → Request β} (hx : Alike agreed x x')
    (hf : ∀ a, Alike agreed (f a) (f' a)) :
    Alike agreed (Request.bind x f) (Request.bind x' f') := by
  intro shelf h
  apply Request.bind_congr
  · exact hx shelf fun id hid => h id (Request.mem_asked_bind_left hid)
  · intro a ha
    exact hf a _ fun id hid => h id (Request.mem_asked_bind_right ha hid)

end Request.Alike

section Archives

variable {archive archive' : Archive}

/-- Whether two archives answer an id alike. -/
def Archive.Agree (archive archive' : Archive) (id : String) : Prop :=
  archive'.answer id = archive.answer id

theorem Archive.Agree.read_eq {id : String} (h : archive.Agree archive' id) :
    archive'.read id = archive.read id := by
  unfold Archive.read
  rw [h]

theorem fetch_alike (id : String) :
    Request.Alike (archive.Agree archive') (fetch archive id) (fetch archive' id) := by
  intro shelf h
  unfold fetch at h ⊢
  cases hheld : shelf[id]? with
  | some b => rfl
  | none =>
      have hagree : archive.Agree archive' id := by
        apply h
        rw [hheld]
        cases archive.read id <;> exact List.mem_singleton_self id
      dsimp only
      rw [hagree.read_eq]

theorem fetchImports_alike (imports : List Import) :
    Request.Alike (archive.Agree archive') (fetchImports archive imports)
      (fetchImports archive' imports) := by
  induction imports with
  | nil => exact .refl _
  | cons i rest ih => exact (fetch_alike i.id).bind fun b => ih.bind fun more => .refl _

theorem mergeImports_alike {agreed : String → Prop}
    {resolve resolve' : List String → Book → Request Book}
    (hresolve : ∀ path b, Request.Alike agreed (resolve path b) (resolve' path b))
    (path : List String) (imports : List (Import × Book)) :
    ∀ b, Request.Alike agreed (mergeImports resolve path b imports)
      (mergeImports resolve' path b imports) := by
  induction imports with
  | nil => intro b; exact .refl _
  | cons m rest ih => intro b; exact (hresolve _ _).bind fun resolved => ih _

theorem resolveAlong_alike (more : Nat) :
    ∀ path b, Request.Alike (archive.Agree archive') (resolveAlong archive more path b)
      (resolveAlong archive' more path b) := by
  induction more with
  | zero => intro path b; exact .refl _
  | succ more ih =>
      intro path b
      unfold resolveAlong
      cases checkImports path [] b.preamble.imports with
      | error e => exact .refl _
      | ok _ =>
          exact (fetchImports_alike _).bind fun imports => mergeImports_alike ih path imports b

end Archives

/-! ## Different bounds -/

section Bounds

variable (archive : Archive) {look : String → Except ImportError Book}

/-- Imports are merged alike if they are resolved alike with all shelves that they can meet. -/
theorem mergeImports_eq {resolve resolve' : List String → Book → Request Book} {path : List String}
    {imports : List (Import × Book)}
    (haccounts : ∀ path b shelf, (resolve path b shelf).Accounts archive shelf)
    (hresolve : ∀ m ∈ imports, ∀ shelf, lookup archive shelf = look →
      resolve' (path ++ [m.1.id]) m.2 shelf = resolve (path ++ [m.1.id]) m.2 shelf) :
    ∀ b shelf, lookup archive shelf = look →
      mergeImports resolve' path b imports shelf = mergeImports resolve path b imports shelf := by
  induction imports with
  | nil => intro b shelf _; rfl
  | cons m rest ih =>
      obtain ⟨hfirst, hrest⟩ := List.forall_mem_cons.mp hresolve
      intro b shelf hlook
      have hlook' := (haccounts (path ++ [m.1.id]) m.2 shelf).lookup_eq.trans hlook
      exact Request.bind_congr (hfirst shelf hlook) fun resolved _ => ih hrest _ _ hlook'

/-- Along a path of known documents there is one to enter as long as the bound is great enough. -/
theorem ne_zero_of_enough {known path : List String} {more : Nat} (hnodup : path.Nodup)
    (hsub : path ⊆ known) (hlt : known.length < more + path.length) : more ≠ 0 := by
  have hle : path.length ≤ known.length := (List.subperm_of_subset hnodup hsub).length_le
  omega

/-- Two bounds that leave enough documents to enter come to the same. -/
theorem resolveAlong_eq_of_enough {known : List String}
    (hknown : ∀ id b, look id = .ok b → id ∈ known) (more : Nat) :
    ∀ more' path b, path.Nodup → path ⊆ known → known.length < more + path.length →
      known.length < more' + path.length → ∀ shelf, lookup archive shelf = look →
        resolveAlong archive more' path b shelf = resolveAlong archive more path b shelf := by
  induction more with
  | zero =>
      intro more' path b hnodup hsub hlt
      exact absurd rfl (ne_zero_of_enough hnodup hsub hlt)
  | succ more ih =>
      intro more' path b hnodup hsub hlt hlt' shelf hlook
      cases more' with
      | zero => exact absurd rfl (ne_zero_of_enough hnodup hsub hlt')
      | succ more' =>
          rw [resolveAlong, resolveAlong]
          cases hcheck : checkImports path [] b.preamble.imports with
          | error e => rfl
          | ok _ =>
              refine Request.bind_congr rfl fun imports himports => ?_
              have hread : readImports look b.preamble.imports = .ok imports := by
                rw [← fetchImports_result archive _ hlook, himports]
              have hlook' := (fetchImports_accounts archive b.preamble.imports shelf).lookup_eq
              refine mergeImports_eq archive (resolveAlong_accounts archive more) (fun m hm => ?_)
                b _ (hlook'.trans hlook)
              -- An imported document is known and is not on the path yet.
              obtain ⟨himport, hbook⟩ := mem_readImports hread hm
              have hnew : m.1.id ∉ path := not_mem_of_checkImports hcheck m.1 himport
              have hlength : (path ++ [m.1.id]).length = path.length + 1 := by simp
              refine ih more' _ _ ?_ ?_ (by omega) (by omega)
              · exact List.concat_eq_append ▸ hnodup.concat hnew
              · exact List.append_subset.mpr ⟨hsub, by simpa using hknown _ _ hbook⟩

/-- Resolving a book comes to the same with each greater bound. -/
theorem resolve_eq_resolveAlong (b : Book) {shelf : Shelf} {more : Nat}
    (hmore : documentBound archive shelf < more) :
    resolve archive b shelf = resolveAlong archive more [] b shelf :=
  resolveAlong_eq_of_enough archive (fun _ _ => mem_knownIds archive shelf) more _ [] b
    List.nodup_nil (List.nil_subset _) (by simpa [length_knownIds] using hmore)
    (by simp [length_knownIds]) shelf rfl

/-- Loading a document comes to the same with each greater bound. -/
theorem load_eq_bind (id : String) {shelf : Shelf} {more : Nat}
    (hmore : documentBound archive shelf < more) :
    load archive id shelf =
      Request.bind (fetch archive id) (resolveAlong archive more [id]) shelf := by
  refine Request.bind_congr rfl fun b hb => ?_
  have hread : lookup archive shelf id = .ok b := by rw [← fetch_result, hb]
  have hknown : id ∈ knownIds archive shelf := mem_knownIds archive shelf hread
  exact resolveAlong_eq_of_enough archive (fun _ _ => mem_knownIds archive shelf) more
    (documentBound archive shelf + 1) [id] b (by simp) (by simpa using hknown)
    (by rw [length_knownIds]; omega) (by rw [length_knownIds]; omega) _
    (fetch_accounts archive id shelf).lookup_eq

end Bounds

/-! ## What is asked decides -/

section Asked

variable {archive archive' : Archive} {shelf : Shelf}

theorem fetch_eq_of_asked {id : String}
    (h : ∀ key ∈ (fetch archive id shelf).asked, archive.Agree archive' key) :
    fetch archive' id shelf = fetch archive id shelf :=
  fetch_alike id shelf h

/-- Resolving a book depends on nothing but the answers to what it asks. -/
theorem resolve_eq_of_asked {b : Book}
    (h : ∀ id ∈ (resolve archive b shelf).asked, archive.Agree archive' id) :
    resolve archive' b shelf = resolve archive b shelf := by
  let more := documentBound archive shelf + documentBound archive' shelf + 1
  have hbound : resolve archive b shelf = resolveAlong archive more [] b shelf :=
    resolve_eq_resolveAlong archive b (by omega)
  have hbound' : resolve archive' b shelf = resolveAlong archive' more [] b shelf :=
    resolve_eq_resolveAlong archive' b (by omega)
  rw [hbound] at h ⊢
  rw [hbound']
  exact resolveAlong_alike more [] b shelf h

/-- Loading a document depends on nothing but the answers to what it asks. -/
theorem load_eq_of_asked {id : String}
    (h : ∀ key ∈ (load archive id shelf).asked, archive.Agree archive' key) :
    load archive' id shelf = load archive id shelf := by
  let more := documentBound archive shelf + documentBound archive' shelf + 1
  have hbound : load archive id shelf =
      Request.bind (fetch archive id) (resolveAlong archive more [id]) shelf :=
    load_eq_bind archive id (by omega)
  have hbound' : load archive' id shelf =
      Request.bind (fetch archive' id) (resolveAlong archive' more [id]) shelf :=
    load_eq_bind archive' id (by omega)
  rw [hbound] at h ⊢
  rw [hbound']
  exact (fetch_alike id).bind (resolveAlong_alike more [id]) shelf h

end Asked

end Phrasebook
