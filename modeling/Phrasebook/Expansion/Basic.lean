import Phrasebook.Choice
import Phrasebook.Expansion.Animated
import Phrasebook.Stream.Draw

/-!
# Expanding a rule

Expanding a rule chooses one of its alternatives and replaces each placeholder of its template: an
animated one by a number, one whose name is bound by its argument, any other by an expansion of the
rule it names.  Arguments hold for everything expanded below the reference that passes them.

Each choice is drawn from a stream of its own.  The stream of a rule is reached from that of the
reference by the name of the rule, and the stream of a reference from that of its rule by the index
of the alternative and the index of the segment; a `$name` argument that is not bound is expanded
below the reference at `$arg` and the index of the argument.  So a choice depends on the seed and on
how its place was reached, and on nothing that was produced before.
-/

namespace Phrasebook

/-- A place where something is expanded. -/
structure Site where
  /-- The steps to it, the last one first; so what lies below a place shares the steps to it. -/
  trail : List Step
  /-- The stream at the end of the steps. -/
  stream : Stream

namespace Site

/-- The path to a place. -/
def path (s : Site) : Path := s.trail.reverse

/-- The place that all others are reached from. -/
def root (s : Stream) : Site := ⟨[], s⟩

/-- A place further down. -/
def descend (s : Site) (path : Path) : Site :=
  ⟨path.reverse ++ s.trail, s.stream.descend path⟩

@[simp] theorem path_root (s : Stream) : (root s).path = [] := rfl

@[simp] theorem path_descend (s : Site) (path : Path) : (s.descend path).path = s.path ++ path := by
  simp [descend, Site.path]

/-- The place where a rule is chosen from, coming from a reference to it. -/
def rule (s : Site) (name : String) : Site := s.descend [.name name]

/-- The place of a segment of an alternative, coming from the rule. -/
def segment (s : Site) (alternative segment : Nat) : Site :=
  s.descend [.index alternative, .index segment]

/-- The place of an argument, coming from the reference that passes it. -/
def argument (s : Site) (index : Nat) : Site :=
  s.descend [.name "$arg", .index index]

end Site

/-- The nesting limit unless another one is asked for. -/
def defaultMaxDepth : Nat := 64

/-- The greatest nesting limit. -/
def maxDepthLimit : Nat := 256

/-- What all steps of an expansion have in common. -/
structure Scene where
  book : Book
  /-- How many references may be nested below the root. -/
  limit : Nat := defaultMaxDepth
  /-- The time of the cycle. -/
  time : Float
  /-- How an alternative is chosen. -/
  choose : Site → Rule → Option Nat

/-- The choice by weights and the first draw of the stream. -/
def drawnChoice (site : Site) (r : Rule) : Option Nat :=
  Choice.pick r.weights site.stream.unit

namespace Scene

/-- Something to expand below a reference: the arguments that hold, the place, and the rule. -/
abbrev Expander := Bindings → Site → String → Run Passage

/-- The value of an argument. -/
def argumentValue (expand : Expander) (bindings : Bindings) (site : Site) (a : Argument) :
    Run Passage :=
  match a.value with
  | .text s => .pure (.plain s)
  | .ref name =>
    match bindings[a.binding.getD name]? with
    | some p => .pure p
    | none => expand bindings site name

/-- The arguments that hold below a reference: those passed, the first of which has a given index,
added to the ones in `held`. -/
def passArguments (expand : Expander) (bindings : Bindings) (site : Site) :
    Nat → Bindings → List Argument → Run Bindings
  | _, held, [] => .pure held
  | index, held, a :: rest =>
    (argumentValue expand bindings (site.argument index) a).bind fun p =>
      passArguments expand bindings site (index + 1) (held.insert a.name p) rest

/-- The passage that a reference is replaced by. -/
def reference (scene : Scene) (expand : Expander) (bindings : Bindings) (site : Site)
    (r : Reference) : Run Passage :=
  if r.animated then .ofExcept ((r.animate bindings scene.time).map .moving)
  else if r.args.isEmpty then
    match bindings[r.bindingKey]? with
    | some p => .pure p
    | none => expand bindings site r.name
  else
    (passArguments expand bindings site 0 bindings r.args).bind fun held =>
      expand held site r.name

/-- The passage of a template, or of the rest of one that begins with the segment of a given index.
-/
def segments (scene : Scene) (expand : Expander) (bindings : Bindings) (site : Site)
    (alternative : Nat) : Nat → Template → Run Passage
  | _, [] => .pure []
  | index, .literal s :: rest =>
    (segments scene expand bindings site alternative (index + 1) rest).map (.plain s ++ ·)
  | index, .reference r :: rest =>
    (scene.reference expand bindings (site.segment alternative index) r).bind fun p =>
      (segments scene expand bindings site alternative (index + 1) rest).map (p ++ ·)

/-- The passage of a rule, its references being expanded by `expand`. -/
def rule (scene : Scene) (expand : Expander) (depth : Nat) (bindings : Bindings) (site : Site)
    (name : String) : Run Passage :=
  let here := site.rule name
  let visit (chosen : Option Nat) := Run.visit ⟨here.trail, depth, name, chosen⟩
  match scene.book.rule? name with
  | none => (visit none).bind fun _ => .fail (.unknownRule name)
  | some r =>
    match scene.choose here r with
    | none => (visit none).bind fun _ => .fail (.emptyRule r.name)
    | some i =>
      match r.alternatives[i]? with
      | none => (visit none).bind fun _ => .fail (.emptyRule r.name)
      | some a => (visit (some i)).bind fun _ =>
        scene.segments expand bindings here i 0 a.template

/-- The passage of a rule when so many references may still be nested, counting its own. -/
def expandWithin (scene : Scene) : Nat → Expander
  | 0, _, _, name => .fail (.recursionLimit name scene.limit)
  | left + 1, bindings, site, name =>
    scene.rule (scene.expandWithin left) (scene.limit - left) bindings site name

/-- The passage of a rule below a stream. -/
def expand (scene : Scene) (bindings : Bindings) (stream : Stream) (name : String) : Run Passage :=
  scene.expandWithin (scene.limit + 1) bindings (.root stream) name

end Scene

namespace Book

/-- The scene of a book at a time, with choices drawn from the streams and a nesting limit. -/
def scene (b : Book) (maxDepth : Nat) (time : Float) : Scene where
  book := b
  limit := min maxDepth maxDepthLimit
  time := time
  choose := drawnChoice

/-- The text of a rule for a seed at a time. -/
def generate (b : Book) (maxDepth : Nat) (root : String) (args : Bindings) (seed : Seed)
    (time : Float) : Except ExpandError String :=
  ((b.scene maxDepth time).expand args (Stream.ofSeed seed) root).result.map Passage.text

end Book

end Phrasebook
