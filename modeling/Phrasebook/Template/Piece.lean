import Phrasebook.Template.Quoting

/-!
# The pieces of a template

Before any placeholder is read, the text of a template is cut into literal text and the bodies of
placeholders.  A placeholder opens with two braces and runs to the first two closing braces outside
quotes; a backslash before two opening braces makes literal braces of them.
-/

namespace Phrasebook

/-- A part of the text of a template; columns are those of the opening braces. -/
inductive Piece where
  | text (s : List Char)
  | slot (column : Nat) (body : List Char)
  /-- Opening braces that nothing closes. -/
  | unclosed (column : Nat)
  deriving DecidableEq, Repr

namespace Piece

/-- What is being read: literal text, or the body of a placeholder.  The characters read so far are
kept in reversed order. -/
inductive Mode where
  | literal (read : List Char)
  | body (column : Nat) (quoting : Quoting) (read : List Char)

/-- Literal text as a piece, unless there is none. -/
def ofLiteral (read : List Char) : List Piece :=
  if read = [] then [] else [.text read.reverse]

/-- The pieces of a text whose first character stands at `column`. -/
def scan : Mode → Nat → List Char → List Piece
  | .literal read, _, [] => ofLiteral read
  | .literal read, column, '\\' :: '{' :: '{' :: rest =>
    scan (.literal ('{' :: '{' :: read)) (column + 3) rest
  | .literal read, column, '{' :: '{' :: rest =>
    ofLiteral read ++ scan (.body column .bare []) (column + 2) rest
  | .literal read, column, c :: rest => scan (.literal (c :: read)) (column + 1) rest
  | .body start _ _, _, [] => [.unclosed start]
  | .body start .bare read, column, '}' :: '}' :: rest =>
    .slot start read.reverse :: scan (.literal []) (column + 2) rest
  | .body start q read, column, c :: rest =>
    scan (.body start (q.next c) (c :: read)) (column + 1) rest

end Piece

/-- The pieces of the text of a template that begins at `column`. -/
def pieces (column : Nat) (text : List Char) : List Piece :=
  Piece.scan (.literal []) column text

end Phrasebook
