import Phrasebook.Console.Transcript
import Phrasebook.Engine.Basic
import Phrasebook.Files.Books
import Phrasebook.Lint.Check
import Phrasebook.Ron.Book

/-!
# The linter

The linter checks one book, or all books in a folder and the folders in it, and ends with a summary.
It fails if there is any error.
-/

namespace Phrasebook

/-- What the linter is asked to do. -/
structure LintOptions where
  path : String
  root : String := "root"
  /-- Whether imports are resolved. -/
  imports : Bool := true
  /-- Whether books are printed. -/
  dump : Bool := false
  deriving DecidableEq, Repr

/-- What the linter writes about some files, and how much it finds. -/
structure LintReport where
  text : String := ""
  errors : Nat := 0
  warnings : Nat := 0
  deriving DecidableEq, Repr

/-- Two reports, one after the other. -/
def LintReport.append (r s : LintReport) : LintReport where
  text := r.text ++ s.text
  errors := r.errors + s.errors
  warnings := r.warnings + s.warnings

namespace LintOptions

/-- Reads the arguments of the linter. -/
def parse? (args : List String) : Option LintOptions :=
  match Arguments.parse? ["--root"] ["--no-imports", "--dump-ron"] {} args with
  | some a =>
    match a.plain with
    | [path] =>
      some { path, root := (a.option? "--root").getD "root"
             imports := !a.flags.contains "--no-imports"
             dump := a.flags.contains "--dump-ron" }
    | _ => none
  | none => none

/-- The book at a path; the error is the text of a complaint. -/
def readBook (o : LintOptions) (files : FileTree) (path : String) : Except String Book :=
  match files.readText path with
  | .error e => .error e.message
  | .ok source =>
    match Engine.build { rootRule := o.root } with
    | .error e => .error e.message
    | .ok engine =>
      if o.imports then
        (engine.parse (some (files.archiveBeside path)) source).result.mapError (·.message)
      else (Book.parse source).mapError (·.message)

/-- What the linter writes about a book, warnings before errors. -/
def reportBook (o : LintOptions) (b : Book) : LintReport :=
  let findings := b.lint o.root
  let lines := (warningsOf findings ++ errorsOf findings).map fun f => f.line ++ "\n"
  { text :=
      "Loaded " ++ toString b.names.length ++ " rules\n" ++
      (if o.dump then b.toRon.print 0 ++ "\n" else "") ++
      (if findings.isEmpty then "All checks passed!\n" else "") ++ String.join lines
    errors := (errorsOf findings).length
    warnings := (warningsOf findings).length }

/-- What the linter writes about the file at a path. -/
def reportFile (o : LintOptions) (files : FileTree) (path : String) : LintReport :=
  let title : LintReport := { text := "\n=== " ++ path ++ " ===\n" }
  title.append <|
    match o.readBook files path with
    | .error message => { text := "ERROR: " ++ message ++ "\n", errors := 1 }
    | .ok b => o.reportBook b

/-- The paths of the files to check. -/
def targets (o : LintOptions) (files : FileTree) : Option (List String) :=
  match files.locate o.path with
  | .error _ => none
  | .ok (_, .file _) => some [o.path]
  | .ok (_, .folder entries) => some (FileTree.booksIn o.path entries)

/-- The transcript of the linter. -/
def run (o : LintOptions) (files : FileTree) : Transcript :=
  match o.targets files with
  | none => .failure ("Path '" ++ o.path ++ "' does not exist")
  | some paths =>
    let report := (paths.map (o.reportFile files)).foldl LintReport.append {}
    { stdout :=
        report.text ++ "\nSummary: " ++ toString paths.length ++ " files, " ++
          toString report.errors ++ " errors, " ++ toString report.warnings ++ " warnings\n"
      code := if report.errors = 0 then 0 else 1 }

end LintOptions

/-- The transcript of the linter for its arguments. -/
def runLinter (files : FileTree) (args : List String) : Transcript :=
  match LintOptions.parse? args with
  | none => .usage "<path> [--root <rule>] [--no-imports] [--dump-ron]"
  | some o => o.run files

end Phrasebook
