import Phrasebook.Console.Linter
import Phrasebook.Console.Preview

/-!
# The command line

`lint` checks books and `preview` shows one.  Everything that they decide is decided by
`LintOptions.run`, `PreviewOptions.start` and `Shell.step`; here files are read, random digits are
drawn, and texts are written.
-/

namespace Phrasebook.CommandLine

/-! ## Snapshots -/

/-- The tree of the books in a folder, with those in the folders in it if `deep`. -/
partial def readFolder (deep : Bool) (path : String) : IO FileTree := do
  let entries ← (← IO.FS.realPath path).readDir
  entries.foldlM (fun tree entry => do
    if ← entry.path.isDir then
      if deep then return tree.put [entry.fileName] (← readFolder deep entry.path.toString)
      else return tree
    else if (FileTree.bookId? entry.fileName).isSome then
      return tree.put [entry.fileName] (.file (String.fromUTF8? (← IO.FS.readBinFile entry.path)))
    else return tree) .empty

/-- What stands at a path. -/
def readPath (path : String) : IO FileTree := do
  if ← (← IO.FS.realPath path).isDir then readFolder true path
  else return .file (String.fromUTF8? (← IO.FS.readBinFile path))

/-- Puts what stands at a path into a tree, if it can be read. -/
def addTree (tree : FileTree) (path : String) (read : IO FileTree) : IO FileTree :=
  tryCatch (return tree.put (PathText.names path) (← read)) fun _ => return tree

/-- Puts the file at a path and the other books in its folder into a tree, if they can be read. -/
def addBook (tree : FileTree) (path : String) : IO FileTree := do
  let folder := PathText.folderPath path
  let read := readFolder false (if folder = "" then "." else folder)
  addTree (← addTree tree folder read) path (readPath path)

/-- A supply of digits, mixed from a random number. -/
def randomDigits : IO (Nat → Fin 36) := do
  let key ← IO.rand 0 (Nat.pow 2 64 - 1)
  return fun i => Seed.digit (mixHash (hash key) (hash i)).toNat

/-! ## Commands -/

/-- Writes a transcript; the result is its exit code. -/
def write (t : Transcript) : IO UInt32 := do
  IO.print t.stdout
  IO.eprint t.stderr
  return UInt32.ofNat t.code

/-- What the linter can see. -/
def linterFiles (args : List String) : IO FileTree := do
  match LintOptions.parse? args with
  | none => return .empty
  | some o =>
    let tree ← addTree .empty o.path (readPath o.path)
    match tree.locate o.path with
    | .ok (_, .file _) => addBook tree o.path
    | _ => return tree

/-- What the shell can see at a moment. -/
def surroundings (o : PreviewOptions) : IO Surroundings := do
  let tree ← addBook .empty o.path
  let files ← o.settings.elim (pure tree) fun path => addTree tree path (readPath path)
  return { files, draw := ← randomDigits }

/-- Writes an output and waits, unless that is where the shell crashes. -/
def writeOutput (stdout : IO.FS.Stream) (o : Output) : IO Unit := do
  stdout.putStr o.text
  stdout.flush
  unless o.crashes do IO.sleep (o.pause * 1000).toUInt32

/-- Runs the commands of a session until its input ends, it is quit, or it crashes; the result is
the exit code.  A line that is not in UTF-8 ends the input. -/
partial def converse (stdin stdout : IO.FS.Stream) (o : PreviewOptions) (s : Shell) :
    IO UInt32 := do
  writeOutput stdout { text := Shell.prompt }
  let line ← tryCatch stdin.getLine fun _ => return ""
  if line.isEmpty then return 0
  match Command.parse? line with
  | none => converse stdin stdout o s
  | some command =>
    let (s, output) := s.step (← surroundings o) command
    output.forM (writeOutput stdout)
    if command = .quit then return 0
    if output.any Output.crashes then write (.crash "" Output.complaint)
    else converse stdin stdout o s

/-- Runs the shell for its arguments. -/
def preview (args : List String) : IO UInt32 := do
  match PreviewOptions.parse? args with
  | none => write PreviewOptions.usage
  | some o =>
    match o.start (← surroundings o) with
    | .error message => write (.failure message)
    | .ok shell =>
      IO.print shell.greeting
      converse (← IO.getStdin) (← IO.getStdout) o shell

end Phrasebook.CommandLine

open Phrasebook CommandLine in
/-- Runs the linter or the shell. -/
def main : List String → IO UInt32
  | "lint" :: args => do write (runLinter (← linterFiles args) args)
  | "preview" :: args => preview args
  | _ => write (.usage "lint <path> | preview <book.seed>")
