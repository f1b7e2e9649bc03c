import Phrasebook.Book.Basic

/-!
# Passages

Expanding a rule produces a passage: text that remembers which stretches of it were computed from
the time.  What a reader sees is `text`; two frames of one book can differ only in what `still`
leaves out.
-/

namespace Phrasebook

/-- A stretch of text. -/
structure Span where
  text : String
  /-- Whether the text was computed from the time. -/
  animated : Bool
  deriving DecidableEq, Repr

/-- The text of an expansion, in order. -/
abbrev Passage := List Span

namespace Passage

/-- The text of a passage. -/
def text (p : Passage) : String :=
  String.join (p.map (·.text))

/-- The text of a passage without the stretches computed from the time. -/
def still (p : Passage) : String :=
  String.join ((p.filter fun s => !s.animated).map (·.text))

/-- A passage that the time has no part in. -/
def plain (s : String) : Passage :=
  [⟨s, false⟩]

/-- A passage computed from the time. -/
def moving (s : String) : Passage :=
  [⟨s, true⟩]

end Passage

/-- The arguments that hold while a rule is expanded. -/
abbrev Bindings := NameMap Passage

/-- Arguments given as plain text; the last one of a name counts. -/
def Bindings.ofTexts (args : List (String × String)) : Bindings :=
  args.foldl (fun b (name, s) => b.insert name (.plain s)) ∅

end Phrasebook
