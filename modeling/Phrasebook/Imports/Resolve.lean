import Phrasebook.Imports.Archive
import Phrasebook.Imports.Namespace
import Phrasebook.Source.Draft

/-!
# Resolving imports

A book is resolved by merging into it, under their aliases, the resolved books that it imports.  All
direct imports are fetched before any of them is resolved.  Documents are fetched through a shelf of
books that were read before, and the archive is asked for the others only; what a failed fetch asked
for is not kept.
-/

namespace Phrasebook

/-- Why imports cannot be resolved. -/
inductive ImportError where
  /-- The ids from the first one to one that occurs before. -/
  | cycle (path : List String)
  | loadFailure (id reason : String)
  | parse (id : String) (error : ParseError)
  | duplicateAlias (aliasName : String)
  | noArchive (id : String)
  deriving DecidableEq, Repr

/-- The text of an error. -/
def ImportError.message : ImportError → String
  | .cycle path => "import cycle: " ++ String.intercalate " -> " path
  | .loadFailure id reason => "could not import document named \"" ++ id ++ "\": " ++ reason
  | .parse id e => "in imported document \"" ++ id ++ "\": " ++ e.message
  | .duplicateAlias aliasName => "import alias '" ++ aliasName ++ "' is used twice"
  | .noArchive id => "document imports \"" ++ id ++ "\" but no document loader is configured"

/-- The books that were read before, by id; their imports are not resolved. -/
abbrev Shelf := NameMap Book

/-- The outcome of a request: its result, the shelf after it, and the ids that the archive was asked
for, in order. -/
structure Fetched (α : Type) where
  result : Except ImportError α
  shelf : Shelf
  asked : List String

/-- A request that goes through a shelf. -/
abbrev Request (α : Type) := Shelf → Fetched α

namespace Request

/-- The request that only has a value. -/
def pure {α : Type} (a : α) : Request α := fun shelf => ⟨.ok a, shelf, []⟩

/-- The request that only fails. -/
def fail {α : Type} (e : ImportError) : Request α := fun shelf => ⟨.error e, shelf, []⟩

/-- One request after another, unless the first one fails. -/
def bind {α β : Type} (x : Request α) (f : α → Request β) : Request β := fun shelf =>
  let first := x shelf
  match first.result with
  | .error e => ⟨.error e, first.shelf, first.asked⟩
  | .ok a =>
    let second := f a first.shelf
    ⟨second.result, second.shelf, first.asked ++ second.asked⟩

end Request

/-- The document of an id that is not on the shelf. -/
def Archive.read (archive : Archive) (id : String) : Except ImportError Book :=
  match archive.answer id with
  | .absent => .error (.loadFailure id "document not found")
  | .failing reason => .error (.loadFailure id reason)
  | .source text =>
    match Book.parse text with
    | .error e => .error (.parse id e)
    | .ok b => .ok b

/-- The book of an id, from the shelf or else from the archive. -/
def fetch (archive : Archive) (id : String) : Request Book := fun shelf =>
  match shelf[id]? with
  | some b => ⟨.ok b, shelf, []⟩
  | none =>
    match archive.read id with
    | .error e => ⟨.error e, shelf, [id]⟩
    | .ok b => ⟨.ok b, shelf.insert id b, [id]⟩

/-- Imports with the books they name.  They are asked for in order, up to the first failure.  Asking
for all of them at once comes to the same if the archive answers each question on the spot: then the
questions are asked in this order as well, and none is asked after a failure. -/
def fetchImports (archive : Archive) : List Import → Request (List (Import × Book))
  | [] => .pure []
  | i :: rest =>
    Request.bind (fetch archive i.id) fun b =>
      Request.bind (fetchImports archive rest) fun more => .pure ((i, b) :: more)

/-- Refuses an import of a document that is being resolved, and an alias that stands in `aliases`
already. -/
def checkImports (path aliases : List String) : List Import → Except ImportError Unit
  | [] => .ok ()
  | i :: rest =>
    if i.id ∈ path then .error (.cycle (path ++ [i.id]))
    else if i.aliasName ∈ aliases then .error (.duplicateAlias i.aliasName)
    else checkImports path (i.aliasName :: aliases) rest

/-- Merges imports into a book, each after it is resolved. -/
def mergeImports (resolve : List String → Book → Request Book) (path : List String) (b : Book) :
    List (Import × Book) → Request Book
  | [] => .pure b
  | (i, imported) :: rest =>
    Request.bind (resolve (path ++ [i.id]) imported) fun resolved =>
      mergeImports resolve path (b.insertAll (resolved.under i.aliasName)) rest

/-- Resolves a book that was reached along a path of ids.  The number bounds how many more documents
can be entered: a path longer than the number of documents visits one of them twice. -/
def resolveAlong (archive : Archive) : Nat → List String → Book → Request Book
  | 0, path, _ => .fail (.cycle path)
  | more + 1, path, b =>
    match checkImports path [] b.preamble.imports with
    | .error e => .fail e
    | .ok () =>
      Request.bind (fetchImports archive b.preamble.imports) fun imports =>
        mergeImports (resolveAlong archive more) path b imports

/-- A bound for the number of documents that one path can enter. -/
def documentBound (archive : Archive) (shelf : Shelf) : Nat :=
  archive.ids.length + shelf.size

/-- Resolves a book. -/
def resolve (archive : Archive) (b : Book) : Request Book := fun shelf =>
  resolveAlong archive (documentBound archive shelf + 1) [] b shelf

/-- Resolves the document of an id. -/
def load (archive : Archive) (id : String) : Request Book := fun shelf =>
  Request.bind (fetch archive id)
    (resolveAlong archive (documentBound archive shelf + 1) [id]) shelf

end Phrasebook
