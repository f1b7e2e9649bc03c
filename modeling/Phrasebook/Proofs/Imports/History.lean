import Phrasebook.Engine.Basic
import Phrasebook.Proofs.Imports.Questions

/-!
# A shelf is a snapshot that no result betrays

A shelf is used again and again, and the archive may change in between.  A history is a list of
operations, each with the archive as it is then; `Track` keeps the shelf and, as a ghost, what the
archive answered since the shelf was last emptied.

After any history the shelf holds exactly the books of the documents that were fetched since then,
each of which was fetched once (`Track.Remembers`).  So the next operation comes to what it would
come to with an empty shelf and an archive that still has those documents (`Track.snapshot`), and
it asks only for ids that are not on the shelf, each at most once (`history_transparent`).  A
failure leaves the books that are there alone, and none for the document that could not be fetched.

What one operation does to the shelf is told by `Fetched.Accounts`; a whole history follows by
induction.  The questions that are kept are all that an operation has seen of its archive
(`Operation.run_mapArchive_of_asked`).
-/

namespace Phrasebook

/-! ## Operations -/

/-- What is done with a shelf: requests for the books of an archive, and what an engine does, which
may have an archive or not. -/
inductive Operation where
  | resolve (archive : Archive) (b : Book)
  | load (archive : Archive) (id : String)
  | fetch (archive : Archive) (id : String)
  | engineParse (archive : Option Archive) (source : String)
  | engineLoad (archive : Option Archive) (id : String)
  | clear

/-- What an operation comes to; emptying the shelf has no book for a result. -/
structure Outcome where
  result : Except EngineError (Option Book)
  shelf : Shelf
  asked : List String

/-- The outcome of a request. -/
def Fetched.outcome (out : Fetched Book) : Outcome :=
  ⟨(out.result.mapError .resolve).map some, out.shelf, out.asked⟩

/-- The outcome of what an engine does. -/
def Reading.outcome (out : Reading) : Outcome :=
  ⟨out.result.map some, out.engine.shelf, out.asked⟩

/-- The id of the document that could not be fetched, if that is why an operation failed. -/
def EngineError.failing? : EngineError → Option String
  | .resolve e => e.failing?
  | .parse _ | .expand _ | .seed _ | .settings _ => none

namespace Operation

/-- An operation with a shelf; engines have the given settings. -/
def run (settings : Settings) (shelf : Shelf) : Operation → Outcome
  | resolve archive b => (Phrasebook.resolve archive b shelf).outcome
  | load archive id => (Phrasebook.load archive id shelf).outcome
  | fetch archive id => (Phrasebook.fetch archive id shelf).outcome
  | engineParse archive source =>
    (Engine.parse { settings, shelf } archive source).outcome
  | engineLoad archive id => (Engine.load { settings, shelf } archive id).outcome
  | clear => ⟨.ok none, (Engine.clear { settings, shelf }).shelf, []⟩

/-- The archive that an operation may ask; one that holds nothing if it has none. -/
def archive : Operation → Archive
  | resolve archive _ | load archive _ | fetch archive _ => archive
  | engineParse archive _ | engineLoad archive _ => archive.getD (.ofMap ∅)
  | clear => .ofMap ∅

/-- An operation with another archive in the place of its own. -/
def mapArchive (f : Archive → Archive) : Operation → Operation
  | resolve archive b => resolve (f archive) b
  | load archive id => load (f archive) id
  | fetch archive id => fetch (f archive) id
  | engineParse archive source => engineParse (archive.map f) source
  | engineLoad archive id => engineLoad (archive.map f) id
  | clear => clear

end Operation

/-! ## Histories -/

/-- The text of an answer that a book can be read from. -/
def Answer.readable? : Answer → Option String
  | .source text =>
    match Book.parse text with
    | .ok _ => some text
    | .error _ => none
  | .absent | .failing _ => none

/-- A shelf, and the questions since it was last emptied with their answers. -/
structure Track where
  shelf : Shelf := ∅
  answers : List (String × Answer) := []

namespace Track

/-- A shelf after one more operation. -/
def after (settings : Settings) (t : Track) (op : Operation) : Track :=
  let out := op.run settings t.shelf
  match op with
  | .clear => ⟨out.shelf, []⟩
  | _ => ⟨out.shelf, t.answers ++ out.asked.map fun id => (id, op.archive.answer id)⟩

/-- A shelf that is empty at first, after a history. -/
def ofHistory (settings : Settings) (history : List Operation) : Track :=
  history.foldl (after settings) {}

/-- The texts that were fetched for an id and could be read, in order. -/
def texts (t : Track) (id : String) : List String :=
  t.answers.filterMap fun asked => if asked.1 = id then asked.2.readable? else none

/-- The shelf holds the books that were fetched, each of which was fetched once. -/
def Remembers (t : Track) : Prop :=
  ∀ id, (t.texts id).map Book.parse = t.shelf[id]?.toList.map .ok

theorem mem_of_mem_texts {t : Track} {id text : String} (h : text ∈ t.texts id) :
    id ∈ t.answers.map (·.1) := by
  obtain ⟨asked, hasked, htext⟩ := List.mem_filterMap.mp h
  split at htext
  · next hid => exact List.mem_map.mpr ⟨asked, hasked, hid⟩
  · cases htext

/-- An archive in which the documents that were fetched are as they were then. -/
def snapshot (t : Track) (archive : Archive) : Archive where
  answer id :=
    match t.texts id with
    | [] => archive.answer id
    | text :: _ => .source text
  ids := archive.ids ++ t.answers.map (·.1)
  mem_ids id text h := by
    rw [List.mem_append]
    cases htexts : t.texts id with
    | nil =>
        rw [htexts] at h
        exact Or.inl (archive.mem_ids id text h)
    | cons first rest =>
        exact Or.inr (mem_of_mem_texts (htexts ▸ List.mem_cons_self : first ∈ t.texts id))

end Track

/-! ## One operation -/

/-- An outcome, of an operation with a shelf, whose shelf is accounted for by what was asked. -/
structure Outcome.Accounts (archive : Archive) (shelf : Shelf) (out : Outcome) : Prop where
  asked_nodup : out.asked.Nodup
  asked_fresh : ∀ id ∈ out.asked, shelf[id]? = none
  shelf_eq : ∀ id, out.shelf[id]? =
    shelf[id]?.or (if id ∈ out.asked then (archive.read id).toOption else none)
  failed : ∀ e, out.result = .error e → ∀ id, e.failing? = some id → out.shelf[id]? = none

section Operation

variable {archive : Archive} {shelf : Shelf}

theorem Fetched.Accounts.outcome {out : Fetched Book} (h : out.Accounts archive shelf) :
    out.outcome.Accounts archive shelf where
  asked_nodup := h.asked_nodup
  asked_fresh := h.asked_fresh
  shelf_eq := h.shelf_eq
  failed e he id hid := by
    obtain ⟨result, shelf', asked⟩ := out
    cases result with
    | error e' =>
        obtain rfl := Except.error.inj he
        exact h.getElem?_of_failing rfl hid
    | ok b => cases he

/-- The outcome of an operation that did not come to asking. -/
theorem Outcome.Accounts.idle {r : Except EngineError (Option Book)}
    (h : ∀ e, r = .error e → e.failing? = none) :
    (⟨r, shelf, []⟩ : Outcome).Accounts archive shelf where
  asked_nodup := List.nodup_nil
  asked_fresh := by simp
  shelf_eq := by simp
  failed e he id hid := by
    rw [h e he] at hid
    cases hid

theorem Outcome.Accounts.refused {e : EngineError} (he : e.failing? = none) :
    (⟨.error e, shelf, []⟩ : Outcome).Accounts archive shelf :=
  .idle fun _ h => Except.error.inj h ▸ he

theorem Outcome.Accounts.keeps {out : Outcome} (h : out.Accounts archive shelf) {id : String}
    {b : Book} (hb : shelf[id]? = some b) : out.shelf[id]? = some b := by
  rw [h.shelf_eq, hb]
  rfl

namespace Operation

variable (settings : Settings)

theorem run_accounts {op : Operation} (hop : op ≠ .clear) :
    (op.run settings shelf).Accounts op.archive shelf := by
  cases op with
  | resolve archive b => exact (resolve_accounts archive b shelf).outcome
  | load archive id => exact (load_accounts archive id shelf).outcome
  | fetch archive id => exact (fetch_accounts archive id shelf).outcome
  | engineParse archive source =>
      rw [run, Engine.parse]
      cases Book.parse source with
      | error fault => exact .refused rfl
      | ok b =>
          dsimp only
          cases b.preamble.imports with
          | nil => exact .idle fun e he => nomatch he
          | cons i rest =>
              cases archive with
              | none => exact .refused rfl
              | some archive => exact (resolve_accounts archive b shelf).outcome
  | engineLoad archive id =>
      cases archive with
      | none => exact .refused rfl
      | some archive => exact (load_accounts archive id shelf).outcome
  | clear => exact absurd rfl hop

/-- An operation comes to the same with another archive and shelf if no id stands for another
book. -/
theorem run_mapArchive_result {f : Archive → Archive} {shelf' : Shelf}
    (h : ∀ archive, lookup (f archive) shelf' = lookup archive shelf) (op : Operation) :
    ((op.mapArchive f).run settings shelf').result = (op.run settings shelf).result := by
  have hresolve : ∀ archive b,
      (Phrasebook.resolve (f archive) b shelf').outcome.result =
        (Phrasebook.resolve archive b shelf).outcome.result := by
    intro archive b
    rw [Fetched.outcome, Fetched.outcome, resolve_result_congr (h archive) b]
  have hload : ∀ archive id,
      (Phrasebook.load (f archive) id shelf').outcome.result =
        (Phrasebook.load archive id shelf).outcome.result := by
    intro archive id
    rw [Fetched.outcome, Fetched.outcome, load_result_congr (h archive) id]
  cases op with
  | resolve archive b => exact hresolve archive b
  | load archive id => exact hload archive id
  | fetch archive id =>
      have hfetch : (Phrasebook.fetch (f archive) id shelf').result =
          (Phrasebook.fetch archive id shelf).result := by
        rw [fetch_result, fetch_result, h archive]
      rw [mapArchive, run, run, Fetched.outcome, Fetched.outcome, hfetch]
  | engineParse archive source =>
      rw [mapArchive, run, run, Engine.parse, Engine.parse]
      cases Book.parse source with
      | error fault => rfl
      | ok b =>
          dsimp only
          cases b.preamble.imports with
          | nil => rfl
          | cons i rest =>
              cases archive with
              | none => rfl
              | some archive => exact hresolve archive b
  | engineLoad archive id =>
      cases archive with
      | none => rfl
      | some archive => exact hload archive id
  | clear => rfl

/-- What an operation comes to is decided by the answers to what it asks: it comes to the same with
another archive that gives these. -/
theorem run_mapArchive_of_asked {f : Archive → Archive} {op : Operation}
    (h : ∀ id ∈ (op.run settings shelf).asked, op.archive.Agree (f op.archive) id) :
    (op.mapArchive f).run settings shelf = op.run settings shelf := by
  cases op with
  | resolve archive b =>
      exact congrArg Fetched.outcome (resolve_eq_of_asked h)
  | load archive id =>
      exact congrArg Fetched.outcome (load_eq_of_asked h)
  | fetch archive id =>
      exact congrArg Fetched.outcome (fetch_eq_of_asked h)
  | engineParse archive source =>
      rw [mapArchive, run, run, Engine.parse, Engine.parse]
      rw [run, Engine.parse] at h
      cases hparse : Book.parse source with
      | error fault => rfl
      | ok b =>
          rw [hparse] at h
          dsimp only at h ⊢
          cases himports : b.preamble.imports with
          | nil => rfl
          | cons i rest =>
              rw [himports] at h
              cases archive with
              | none => rfl
              | some archive => exact congrArg Fetched.outcome (resolve_eq_of_asked h)
  | engineLoad archive id =>
      cases archive with
      | none => rfl
      | some archive => exact congrArg Fetched.outcome (load_eq_of_asked h)
  | clear => rfl

end Operation

end Operation

/-! ## A whole history -/

/-- Each of the questions has its answer once, if it was asked once. -/
theorem filterMap_answers {asked : List String} (h : asked.Nodup) (answer : String → Answer)
    (id : String) :
    ((asked.map fun key => (key, answer key)).filterMap fun a =>
        if a.1 = id then a.2.readable? else none) =
      if id ∈ asked then (answer id).readable?.toList else [] := by
  induction asked with
  | nil => rfl
  | cons key rest ih =>
      obtain ⟨hkey, hrest⟩ := List.nodup_cons.mp h
      rw [List.map_cons, List.filterMap_cons, ih hrest]
      by_cases heq : key = id
      · subst heq
        rw [if_pos rfl, if_neg hkey, if_pos List.mem_cons_self]
        cases (answer key).readable? <;> rfl
      · rw [if_neg heq]
        simp [Ne.symm heq]

/-- A book that can be read is that of the readable text. -/
theorem Archive.map_readable (archive : Archive) (id : String) :
    (archive.answer id).readable?.toList.map Book.parse =
      (archive.read id).toOption.toList.map .ok := by
  unfold Answer.readable? Archive.read
  cases archive.answer id with
  | absent => rfl
  | failing reason => rfl
  | source text =>
      dsimp only
      cases hparse : Book.parse text with
      | error e => rfl
      | ok b => simp [hparse, Except.toOption]

namespace Track

variable {settings : Settings} {t : Track}

theorem after_of_ne_clear {op : Operation} (hop : op ≠ .clear) :
    t.after settings op =
      ⟨(op.run settings t.shelf).shelf, t.answers ++
        (op.run settings t.shelf).asked.map fun id => (id, op.archive.answer id)⟩ := by
  cases op with
  | clear => exact absurd rfl hop
  | _ => rfl

theorem remembers_empty : ({} : Track).Remembers := by
  intro id
  simp [texts]

theorem Remembers.after (h : t.Remembers) (op : Operation) : (t.after settings op).Remembers := by
  by_cases hop : op = .clear
  · subst hop
    exact remembers_empty
  · have haccounts : (op.run settings t.shelf).Accounts op.archive t.shelf :=
      op.run_accounts settings hop
    intro id
    rw [after_of_ne_clear hop, texts, List.filterMap_append,
      filterMap_answers haccounts.asked_nodup, List.map_append]
    dsimp only
    rw [haccounts.shelf_eq]
    have hbefore := h id
    rw [texts] at hbefore
    rw [hbefore]
    by_cases hid : id ∈ (op.run settings t.shelf).asked
    · rw [haccounts.asked_fresh id hid, if_pos hid, if_pos hid, Archive.map_readable]
      rfl
    · rw [if_neg hid, if_neg hid, Option.or_none]
      simp

/-- After any history the shelf holds just what was fetched since it was last emptied. -/
theorem remembers_ofHistory (history : List Operation) :
    (ofHistory settings history).Remembers := by
  have hrun : ∀ t : Track, t.Remembers → (history.foldl (Track.after settings) t).Remembers := by
    induction history with
    | nil => exact fun t h => h
    | cons op rest ih => exact fun t h => ih _ (h.after op)
  exact hrun {} remembers_empty

/-- To an empty shelf the documents that were fetched stand for what the shelf holds. -/
theorem Remembers.lookup_snapshot (h : t.Remembers) (archive : Archive) :
    lookup (t.snapshot archive) ∅ = lookup archive t.shelf := by
  funext id
  have hid := h id
  rw [lookup, lookup, Std.ExtTreeMap.getElem?_empty]
  dsimp only
  rw [Archive.read, snapshot]
  dsimp only
  cases htexts : t.texts id with
  | nil =>
      rw [htexts] at hid
      cases hheld : t.shelf[id]? with
      | none => rfl
      | some b => simp [hheld] at hid
  | cons text rest =>
      rw [htexts] at hid
      cases hheld : t.shelf[id]? with
      | none => simp [hheld] at hid
      | some b =>
          obtain ⟨hparse, -⟩ : Book.parse text = .ok b ∧ rest = [] := by simpa [hheld] using hid
          simp [hparse]

end Track

/-- After any history the shelf holds the books of just those documents that were fetched since it
was last emptied, each fetched once.  If the next operation fails, it leaves the books that were
there, and none for a document that could not be fetched.  It comes to what it comes to with an
empty shelf and an archive with the documents that are held, and asks for none of these and for
none twice. -/
theorem history_transparent (settings : Settings) (history : List Operation) (op : Operation) :
    let t := Track.ofHistory settings history
    let out := op.run settings t.shelf
    (∀ id, (t.texts id).map Book.parse = t.shelf[id]?.toList.map .ok) ∧
    (∀ e, out.result = .error e →
      (∀ id, e.failing? = some id → out.shelf[id]? = none) ∧
        ∀ (id : String) (b : Book), t.shelf[id]? = some b → out.shelf[id]? = some b) ∧
    out.result = ((op.mapArchive t.snapshot).run settings ∅).result ∧
    out.asked.Nodup ∧ ∀ id ∈ out.asked, t.shelf[id]? = none := by
  intro t out
  have hremembers : t.Remembers := Track.remembers_ofHistory history
  have hresult : out.result = ((op.mapArchive t.snapshot).run settings ∅).result :=
    (op.run_mapArchive_result settings hremembers.lookup_snapshot).symm
  refine ⟨hremembers, ?_, hresult, ?_⟩
  · intro e he
    have hop : op ≠ .clear := by
      rintro rfl
      cases he
    have haccounts : (op.run settings t.shelf).Accounts op.archive t.shelf :=
      op.run_accounts settings hop
    exact ⟨haccounts.failed e he, fun id b => haccounts.keeps⟩
  · by_cases hop : op = .clear
    · subst hop
      exact ⟨List.nodup_nil, fun id hid => nomatch hid⟩
    · have haccounts : (op.run settings t.shelf).Accounts op.archive t.shelf :=
        op.run_accounts settings hop
      exact ⟨haccounts.asked_nodup, haccounts.asked_fresh⟩

end Phrasebook
