/-!
# Findings

What a check of a book can find.  An error is found in a book that cannot render, a warning in a
book that renders, but likely not as intended.
-/

namespace Phrasebook

/-- How bad a finding is. -/
inductive Severity where
  | warning
  | error
  deriving DecidableEq, Repr

/-- Something found in a book. -/
inductive Finding where
  | noRoot (root : String)
  | undefinedReference (rule target : String)
  | undefinedArgument (rule target callee : String)
  /-- The alternative is counted from one. -/
  | zeroWeight (rule : String) (alternative : Nat)
  | neverFinishes (rule : String)
  | neverReached (rule root : String)
  deriving DecidableEq, Repr

namespace Finding

/-- How bad the finding is. -/
def severity : Finding → Severity
  | .undefinedReference .. | .undefinedArgument .. | .neverFinishes _ => .error
  | .noRoot _ | .zeroWeight .. | .neverReached .. => .warning

/-- The rule that the finding is about, if there is one. -/
def rule? : Finding → Option String
  | .noRoot _ => none
  | .undefinedReference rule _ | .undefinedArgument rule _ _ | .zeroWeight rule _
  | .neverFinishes rule | .neverReached rule _ => some rule

/-- What is found. -/
def message : Finding → String
  | .noRoot root => "No '" ++ root ++ "' rule; the book has no default entry point"
  | .undefinedReference rule target =>
    "Rule '" ++ rule ++ "' references non-existent rule '" ++ target ++ "'"
  | .undefinedArgument rule target callee =>
    "Rule '" ++ rule ++ "' passes '$" ++ target ++ "' to '" ++ callee ++
      "' but nothing defines it"
  | .zeroWeight rule alternative =>
    "Rule '" ++ rule ++ "' alternative " ++ toString alternative ++
      " has zero weight and is never chosen"
  | .neverFinishes rule => "Rule '" ++ rule ++ "' has no alternative that can finish expanding"
  | .neverReached rule root => "Rule '" ++ rule ++ "' is never reached from '" ++ root ++ "'"

/-- A finding as a line of a report. -/
def line (f : Finding) : String :=
  match f.severity with
  | .warning => "WARNING: " ++ f.message
  | .error => "ERROR: " ++ f.message

/-- Whether a finding is an error. -/
def isError (f : Finding) : Bool := f.severity = .error

end Finding

end Phrasebook
