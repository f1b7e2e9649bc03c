import Phrasebook.Files.Tree
import Phrasebook.Imports.Archive

/-!
# Books in folders

The books in a folder and in the folders in it, and the archive of those in one folder.
-/

namespace Phrasebook.FileTree

/-- What the name of the file of a book ends with. -/
def bookExtension : List Char := ".seed".toList

/-- The name of a file without the extension of books. -/
def bookId? (name : String) : Option String :=
  let cs := name.toList
  let size := cs.length - bookExtension.length
  if cs.drop size = bookExtension then some (String.ofList (cs.take size)) else none

/-- The name of the file of a book. -/
def bookName (id : String) : String :=
  id ++ String.ofList bookExtension

theorem bookId?_bookName (id : String) : bookId? (bookName id) = some id := by
  simp [bookId?, bookName]

/-- The path of a file if its name is that of a book. -/
def bookPath (path name : String) : List String :=
  if (bookId? name).any (· ≠ "") then [path] else []

mutual

/-- The paths of the books in a tree of a given name, in the order of the names on the way.  A path
that is too long is not known to be that of a folder. -/
def booksAt (path name : String) : FileTree → List String
  | .file _ => bookPath path name
  | .folder entries =>
    if PathText.maxPathBytes < path.utf8ByteSize then bookPath path name else booksIn path entries

/-- The paths of the books in the entries of a folder. -/
def booksIn (path : String) : List (String × FileTree) → List String
  | [] => []
  | (name, t) :: rest => booksAt (PathText.join path name) name t ++ booksIn path rest

end

/-- Whether an id can be the name of a book in a folder. -/
def isBookId (id : String) : Bool :=
  id ≠ "" && id.toList.head? ≠ some '.' && !id.toList.any fun c => c = '/' || c = '\\'

/-- What a folder says about a document, the names of files in it having at most so many bytes. -/
def answer (entries : List (String × FileTree)) (room : Nat) (id : String) : Answer :=
  if !isBookId id then .absent
  else if '\x00' ∈ id.toList then .failing ReadError.nullInName.message
  else if room < (bookName id).utf8ByteSize then .failing ReadError.nameTooLong.message
  else
    match find? (bookName id) entries with
    | none => .absent
    | some t =>
      match t.text with
      | .ok s => .source s
      | .error e => .failing e.message

theorem mem_of_find? {name : String} {t : FileTree} {entries : List (String × FileTree)}
    (h : find? name entries = some t) : (name, t) ∈ entries := by
  induction entries with
  | nil => simp [find?] at h
  | cons e rest ih =>
    obtain ⟨n, u⟩ := e
    rw [find?] at h
    split at h
    · next hn => simp_all
    · exact List.mem_cons_of_mem _ (ih h)

theorem find?_of_answer {entries : List (String × FileTree)} {room : Nat} {id s : String}
    (h : answer entries room id = .source s) : ∃ t, find? (bookName id) entries = some t := by
  rw [answer] at h
  split at h
  · cases h
  split at h
  · cases h
  split at h
  · cases h
  cases hf : find? (bookName id) entries with
  | none => simp [hf] at h
  | some t => exact ⟨t, rfl⟩

theorem mem_ids_of_answer {entries : List (String × FileTree)} {room : Nat} {id s : String}
    (h : answer entries room id = .source s) : id ∈ entries.filterMap fun e => bookId? e.1 := by
  obtain ⟨t, ht⟩ := find?_of_answer h
  rw [List.mem_filterMap]
  exact ⟨(bookName id, t), mem_of_find? ht, bookId?_bookName id⟩

/-- The books in a folder as an archive, the names of files in it having at most so many bytes. -/
def archive (t : FileTree) (room : Nat) : Archive where
  answer id := answer t.entries room id
  ids := t.entries.filterMap fun e => bookId? e.1
  mem_ids := by
    intro id text h
    exact mem_ids_of_answer h

/-- The books in the folder of the file at a path. -/
def archiveBeside (root : FileTree) (path : String) : Archive :=
  (root.folderOf path).archive (PathText.nameRoom (PathText.folderPath path))

end Phrasebook.FileTree
