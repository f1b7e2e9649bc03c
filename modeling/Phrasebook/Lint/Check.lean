import Phrasebook.Book.Basic
import Phrasebook.Lint.Finding
import Phrasebook.Lint.Release

/-!
# Checking a book

The checks look at the book alone, not at any render of it.  A name that some reference passes as an
argument may be bound wherever it is used, so nothing is held against it.  A rule finishes if an
alternative of positive weight refers to rules that finish and to names that are bound or unknown; a
rule is reached if a chain of references leads to it, animated ones and arguments included.

A rule is named by the name that it has itself.  This is also the name that the book keeps it under,
since `Book.insert` keeps every rule under its own name.
-/

namespace Phrasebook

/-- The names that a rule refers to. -/
def Rule.targets (r : Rule) : List String :=
  r.references.flatMap fun ref => ref.name :: ref.argumentTargets

namespace Book

/-- The names that some reference passes as arguments. -/
def argumentNames (b : Book) : NameSet :=
  .ofList (b.ruleList.flatMap fun r => r.references.flatMap fun ref => ref.args.map (·.name))

/-- Whether a name means something: a rule, or an argument that is passed somewhere. -/
def means (b : Book) (bound : NameSet) (name : String) : Bool :=
  b.defines name || bound.contains name

/-- The findings about a reference of a rule. -/
def checkReference (b : Book) (bound : NameSet) (rule : String) (r : Reference) :
    List Finding :=
  if r.animated then []
  else
    (if b.means bound r.name then [] else [.undefinedReference rule r.name]) ++
      (r.argumentTargets.filter fun target => !b.means bound target).map fun target =>
        .undefinedArgument rule target r.name

/-- The findings about the weights of a rule. -/
def checkWeights (r : Rule) : List Finding :=
  r.weights.zipIdx.filterMap fun (weight, i) =>
    if weight == 0 then some (.zeroWeight r.name (i + 1)) else none

/-- The findings about a rule on its own.  They name it by `r.name`, which is the name that it is
kept under in every book made with `Book.insert`. -/
def checkRule (b : Book) (bound : NameSet) (r : Rule) : List Finding :=
  r.references.flatMap (b.checkReference bound r.name) ++ checkWeights r

/-- The names of all rules as a set. -/
def nameSet (b : Book) : NameSet := .ofList b.names

/-! ## Finishing -/

/-- Whether a name is no obstacle to finishing, given the rules that are not known to finish. -/
def settles (bound unfinished : NameSet) (name : String) : Bool :=
  bound.contains name || !unfinished.contains name

/-- Whether an alternative can be chosen and its references are no obstacle. -/
def canFinish (bound unfinished : NameSet) (a : Alternative) : Bool :=
  0 < a.weight && (Template.references a.template).all fun r =>
    r.animated || (settles bound unfinished r.name &&
      r.argumentTargets.all (settles bound unfinished))

/-- Whether a rule has an alternative that can finish. -/
def ruleFinishes (b : Book) (bound unfinished : NameSet) (name : String) : Bool :=
  match b.rule? name with
  | none => false
  | some r => r.alternatives.any (canFinish bound unfinished)

/-- The rules that refer to each name, by their own names; a book made with `Book.insert` keeps them
under these. -/
def users (b : Book) : NameMap (List String) :=
  b.ruleList.foldl (fun m r =>
    r.targets.foldl (fun m target => m.insert target (r.name :: m[target]?.getD [])) m) ∅

/-- The rules that never finish. -/
def unfinished (b : Book) : NameSet :=
  let users := b.users
  releaseAll (b.ruleFinishes b.argumentNames) (fun name => users[name]?.getD []) b.names b.nameSet

/-! ## Reaching -/

/-- The names that the rule of a name refers to. -/
def targetsOf (b : Book) (name : String) : List String :=
  match b.rule? name with
  | none => []
  | some r => r.targets

/-- The rules that no chain of references leads to from the root. -/
def unreached (b : Book) (root : String) : NameSet :=
  releaseAll (fun _ _ => true) b.targetsOf [root] b.nameSet

/-! ## The report -/

/-- The findings about a book that is entered at `root`, in the order of a report. -/
def lint (b : Book) (root : String) : List Finding :=
  (if b.defines root then [] else [.noRoot root]) ++
    b.ruleList.flatMap (b.checkRule b.argumentNames) ++
    b.unfinished.toList.map .neverFinishes ++
    (if b.defines root then (b.unreached root).toList.map fun name => .neverReached name root
    else [])

end Book

/-- The errors among findings. -/
def errorsOf (findings : List Finding) : List Finding :=
  findings.filter Finding.isError

/-- The warnings among findings. -/
def warningsOf (findings : List Finding) : List Finding :=
  findings.filter fun f => !f.isError

end Phrasebook
