import Phrasebook.Text.Split

/-!
# Paths

The text of a path: its parts between slashes, the folder that it is in, and how long it may be.
-/

namespace Phrasebook.PathText

/-- The greatest number of bytes in the name of a file. -/
def maxNameBytes : Nat := 255

/-- The greatest number of bytes in a path. -/
def maxPathBytes : Nat := 4095

/-- The parts of a path between its slashes. -/
def parts (path : String) : List String :=
  (Text.splitOn '/' path.toList).map String.ofList

/-- Whether a path begins at the top of all files. -/
def isAbsolute (path : String) : Bool := path.toList.head? = some '/'

/-- The name under which a snapshot holds the top of all files. -/
def topName : String := "/"

/-- Whether a part of a path stays where it is. -/
def isStay (part : String) : Bool := part = "" || part = "."

/-- The names under which a snapshot holds what stands at a path. -/
def names (path : String) : List String :=
  let inner := (parts path).filter (!isStay ·)
  if isAbsolute path then topName :: inner else inner

/-- The path of the folder of a file, without the parts at its end that stay where they are.  A dot
at the front is not left out. -/
def folderPath (path : String) : String :=
  match (parts path).dropLast with
  | [] => ""
  | first :: inner =>
    let inner := (inner.reverse.dropWhile isStay).reverse
    if first = "" ∧ inner = [] then "/" else String.intercalate "/" (first :: inner)

/-- A path extended by a name. -/
def join (folder name : String) : String :=
  if folder = "" ∨ folder.toList.getLast? = some '/' then folder ++ name
  else folder ++ "/" ++ name

/-- The number of bytes that the name of a file in a folder can have. -/
def nameRoom (folder : String) : Nat :=
  min maxNameBytes (maxPathBytes - (join folder "").utf8ByteSize)

/-- What the room of a folder is for: a name has room in it if neither the name nor the path of the
file is too long. -/
theorem le_nameRoom_iff {folder name : String} (h : 0 < name.utf8ByteSize) :
    name.utf8ByteSize ≤ nameRoom folder ↔
      name.utf8ByteSize ≤ maxNameBytes ∧ (join folder name).utf8ByteSize ≤ maxPathBytes := by
  have hjoin : (join folder name).utf8ByteSize =
      (join folder "").utf8ByteSize + name.utf8ByteSize := by
    unfold join
    split <;> simp [Nat.add_assoc]
  rw [nameRoom, hjoin]
  omega

end Phrasebook.PathText
