/-!
# Quoted text

Inside a placeholder a quote opens a stretch of text that runs to the next quote, and a backslash in
it takes away the meaning of the character after it.  Every search inside a placeholder looks at the
characters outside quotes only, and all of them keep track of quotes in the same way, by
`Quoting.next`.
-/

namespace Phrasebook

/-- Where a reader stands with respect to quotes. -/
inductive Quoting where
  /-- Outside quotes. -/
  | bare
  /-- Between two quotes. -/
  | quoted
  /-- Between two quotes, right after a backslash. -/
  | escaped
  deriving DecidableEq, Repr

namespace Quoting

/-- Where a reader stands after one more character. -/
def next : Quoting → Char → Quoting
  | .bare, c => if c = '"' then .quoted else .bare
  | .quoted, c => if c = '"' then .bare else if c = '\\' then .escaped else .quoted
  | .escaped, _ => .quoted

/-- Where a reader stands after a text. -/
def after (q : Quoting) (cs : List Char) : Quoting :=
  cs.foldl next q

/-- The text before the first `mark` outside quotes and the text after it. -/
def cutAt (mark : Char) : Quoting → List Char → Option (List Char × List Char)
  | _, [] => none
  | q, c :: rest =>
    if q = .bare ∧ c = mark then some ([], rest)
    else (cutAt mark (q.next c) rest).map fun (before, behind) => (c :: before, behind)

/-- The pieces of a text between the occurrences of `mark` outside quotes. -/
def splitOn (mark : Char) : Quoting → List Char → List (List Char)
  | _, [] => [[]]
  | q, c :: rest =>
    if q = .bare ∧ c = mark then [] :: splitOn mark .bare rest
    else
      match splitOn mark (q.next c) rest with
      | [] => [[c]]
      | piece :: more => (c :: piece) :: more

/-- The text that a quoted stretch stands for and the text after its closing quote; the opening one
has been read. -/
def read : List Char → Option (List Char × List Char)
  | [] => none
  | '"' :: rest => some ([], rest)
  | '\\' :: c :: rest => (read rest).map fun (text, behind) => (c :: text, behind)
  | ['\\'] => none
  | c :: rest => (read rest).map fun (text, behind) => (c :: text, behind)

end Quoting

end Phrasebook
