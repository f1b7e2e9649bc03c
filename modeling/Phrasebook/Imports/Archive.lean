import Phrasebook.Book.Basic

/-!
# Archives

An archive answers for stored documents by their ids.  Any id can be asked for, but only finitely
many ids have a document, and the archive can list them.
-/

namespace Phrasebook

/-- What an archive says about an id. -/
inductive Answer where
  /-- There is no such document. -/
  | absent
  /-- The document could not be read. -/
  | failing (reason : String)
  | source (text : String)
  deriving DecidableEq, Repr

/-- A finite collection of documents. -/
structure Archive where
  answer : String → Answer
  /-- The ids that may have a document. -/
  ids : List String
  mem_ids : ∀ id text, answer id = .source text → id ∈ ids

namespace Archive

/-- The archive that holds what a map holds. -/
def ofMap (documents : NameMap Answer) : Archive where
  answer id := documents[id]?.getD .absent
  ids := documents.keys
  mem_ids id text h := by
    rw [Std.ExtTreeMap.mem_keys, Std.ExtTreeMap.mem_iff_isSome_getElem?]
    cases hd : documents[id]? with
    | none => simp [hd] at h
    | some a => rfl

end Archive

end Phrasebook
