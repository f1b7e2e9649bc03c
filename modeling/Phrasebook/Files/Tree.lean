import Phrasebook.Files.PathText

/-!
# File trees

A snapshot of the files that a command can see, and what stands at a path into it.
-/

namespace Phrasebook

/-- A file or a folder; the entries of a folder are in the order of their names. -/
inductive FileTree where
  /-- A file with its text, unless its bytes are no text. -/
  | file (text : Option String)
  | folder (entries : List (String × FileTree))

/-- Why a file cannot be read. -/
inductive ReadError where
  | notFound
  | notFolder
  | isFolder
  | notText
  | nameTooLong
  | nullInName
  deriving DecidableEq, Repr

/-- The text of an error. -/
def ReadError.message : ReadError → String
  | .notFound => "No such file or directory (os error 2)"
  | .notFolder => "Not a directory (os error 20)"
  | .isFolder => "Is a directory (os error 21)"
  | .notText => "stream did not contain valid UTF-8"
  | .nameTooLong => "File name too long (os error 36)"
  | .nullInName => "file name contained an unexpected NUL byte"

namespace FileTree

/-- The tree without files. -/
def empty : FileTree := .folder []

/-- The text of a file. -/
def text : FileTree → Except ReadError String
  | .file (some s) => .ok s
  | .file none => .error .notText
  | .folder _ => .error .isFolder

/-- Whether a tree is a file. -/
def isFile : FileTree → Bool
  | .file _ => true
  | .folder _ => false

/-- The entries of a folder. -/
def entries : FileTree → List (String × FileTree)
  | .file _ => []
  | .folder entries => entries

/-- The entry of a name. -/
def find? (name : String) : List (String × FileTree) → Option FileTree
  | [] => none
  | (n, t) :: rest => if n = name then some t else find? name rest

/-- What a folder holds under a name. -/
def entry (t : FileTree) (name : String) : Except ReadError FileTree :=
  match t with
  | .file _ => .error .notFolder
  | .folder entries =>
    if PathText.maxNameBytes < name.utf8ByteSize then .error .nameTooLong
    else
      match find? name entries with
      | some t => .ok t
      | none => .error .notFound

/-- Entries with one of them replaced or added, in the order of their names. -/
def setEntry (name : String) (t : FileTree) :
    List (String × FileTree) → List (String × FileTree)
  | [] => [(name, t)]
  | (n, u) :: rest =>
    if name = n then (name, t) :: rest
    else if name < n then (name, t) :: (n, u) :: rest
    else (n, u) :: setEntry name t rest

/-- A tree with something put at a path; the folders on the way are made. -/
def put : FileTree → List String → FileTree → FileTree
  | _, [], content => content
  | .folder entries, name :: rest, content =>
    .folder (setEntry name (put ((find? name entries).getD empty) rest content) entries)
  | .file _, name :: rest, content => .folder [(name, put empty rest content)]

/-! ## Walks -/

/-- The folder at the top of all files.  Nothing in it is known that the snapshot does not hold. -/
def top (root : FileTree) : FileTree := (find? PathText.topName root.entries).getD empty

/-- Goes along the parts of a path, `folders` being the folders above `here`, the nearest first.
Empty parts and dots stay in a folder, and two dots go up.  What lies above a snapshot is a folder,
but nothing in it is known unless the snapshot holds it under the name of two dots. -/
def walk : List FileTree → FileTree → List String → Except ReadError (List FileTree × FileTree)
  | folders, here, [] => .ok (folders, here)
  | folders, here, part :: rest =>
    if PathText.isStay part then
      if here.isFile then .error .notFolder else walk folders here rest
    else
      match here.entry part with
      | .ok next => walk (here :: folders) next rest
      | .error .notFound =>
        if part = ".." then walk folders.tail (folders.headD empty) rest else .error .notFound
      | .error e => .error e

/-- What stands at a path, and the folders above it. -/
def locate (root : FileTree) (path : String) : Except ReadError (List FileTree × FileTree) :=
  if path = "" then .error .notFound
  else if PathText.maxPathBytes < path.utf8ByteSize then .error .nameTooLong
  else walk [] (if PathText.isAbsolute path then root.top else root) (PathText.parts path)

/-- The text of the file at a path. -/
def readText (root : FileTree) (path : String) : Except ReadError String :=
  (root.locate path).bind fun (_, t) => t.text

/-- The folder of the file at a path. -/
def folderOf (root : FileTree) (path : String) : FileTree :=
  match root.locate path with
  | .ok (parent :: _, _) => parent
  | _ => empty

end FileTree

end Phrasebook
