import Phrasebook.Stream.Basic

/-!
# Runs

A run of the expansion keeps a record of the rules it visited, in order, and ends in a value or in
an error.  The record of a run that fails goes up to the failure.
-/

namespace Phrasebook

/-- Why an expansion fails. -/
inductive ExpandError where
  | unknownRule (name : String)
  | recursionLimit (rule : String) (limit : Nat)
  | emptyRule (rule : String)
  | invalidArgument (rule name reason : String)
  deriving DecidableEq, Repr

/-- The text of an error. -/
def ExpandError.message : ExpandError → String
  | .unknownRule name => "unknown rule '" ++ name ++ "'"
  | .recursionLimit rule limit =>
    "recursion limit of " ++ toString limit ++ " reached while expanding '" ++ rule ++ "'"
  | .emptyRule rule => "rule '" ++ rule ++ "' has no alternative with positive weight"
  | .invalidArgument rule name reason =>
    "invalid argument '" ++ name ++ "' for '" ++ rule ++ "': " ++ reason

/-- A rule looked up during an expansion. -/
structure Visit where
  /-- The steps from the root stream to the stream that the choice among the alternatives is drawn
  from, the last one first. -/
  trail : List Step
  /-- The number of references between the root and the rule. -/
  depth : Nat
  rule : String
  /-- The alternative chosen, if the rule exists and one could be chosen. -/
  chosen : Option Nat
  deriving DecidableEq, Repr

/-- The path to the stream that the choice is drawn from. -/
def Visit.path (v : Visit) : Path := v.trail.reverse

/-- The record and the result of an expansion. -/
structure Run (α : Type) where
  visits : List Visit
  result : Except ExpandError α

namespace Run

/-- The run that only has a value. -/
def pure {α : Type} (a : α) : Run α := ⟨[], .ok a⟩

/-- The run that only fails. -/
def fail {α : Type} (e : ExpandError) : Run α := ⟨[], .error e⟩

/-- The run that only makes a visit. -/
def visit (v : Visit) : Run Unit := ⟨[v], .ok ()⟩

/-- One run after another, unless the first one fails. -/
def bind {α β : Type} (x : Run α) (f : α → Run β) : Run β :=
  match x.result with
  | .error e => ⟨x.visits, .error e⟩
  | .ok a => ⟨x.visits ++ (f a).visits, (f a).result⟩

/-- The run whose result is known. -/
def ofExcept {α : Type} (r : Except ExpandError α) : Run α := ⟨[], r⟩

/-- A run with another value. -/
def map {α β : Type} (f : α → β) (x : Run α) : Run β := ⟨x.visits, x.result.map f⟩

@[simp] theorem bind_pure {α β : Type} (a : α) (f : α → Run β) : (pure a).bind f = f a := by
  simp [bind, pure]

@[simp] theorem bind_fail {α β : Type} (e : ExpandError) (f : α → Run β) :
    (fail e).bind f = fail e := rfl

end Run

end Phrasebook
