import Phrasebook.Console.Transcript
import Phrasebook.Engine.Basic
import Phrasebook.Files.Books
import Phrasebook.Lint.Check
import Phrasebook.Text.Lowercase

/-!
# The preview shell

The shell shows a book under different seeds, times and arguments.  Its state is a book, a seed, a
time of the cycle and the arguments bound so far; each line of input is a command that changes some
of it and writes some lines.

A session ends with its input or when it is quit.  It can also crash: the pause between two frames
is made into a duration, and there is none for a rate of frames that is too small.
-/

namespace Phrasebook

/-- What the shell is started with. -/
structure PreviewOptions where
  path : String
  seed : Option String := none
  root : Option String := none
  settings : Option String := none
  deriving DecidableEq, Repr

/-- What the shell finds around it when it runs a command: the files and a supply of digits for a
fresh seed. -/
structure Surroundings where
  files : FileTree
  draw : Nat → Fin 36

/-- The state of the shell. -/
structure Shell where
  /-- The path of the book. -/
  path : String
  engine : Engine
  book : Book
  seed : Seed
  time : Float := 0
  bindings : NameMap String := ∅

/-- A command, with the words after it that it looks at. -/
inductive Command where
  | quit
  | help
  | gen (rule : Option String)
  | next
  | prev
  | random
  | seed (token : Option String)
  | time (text : Option String)
  | bind (pair : Option String)
  | play (frames fps : Option String)
  | reload
  | lint
  | unknown (word : String)
  deriving DecidableEq, Repr

/-- Something to write, and the seconds to wait after it. -/
structure Output where
  text : String
  pause : Float := 0

namespace Output

/-- A line to write. -/
def line (s : String) : Output := { text := s ++ "\n" }

/-- The seconds that no duration reaches; a duration counts them in 64 bits. -/
def durationBound : Float := 18446744073709551616

/-- Whether some seconds are a duration. -/
def isDuration (seconds : Float) : Bool :=
  0 ≤ seconds && seconds < durationBound

/-- Whether the shell crashes after an output, because its pause is not a duration. -/
def crashes (o : Output) : Bool :=
  !isDuration o.pause

/-- The complaint about a pause that is not a duration. -/
def complaint : String :=
  "cannot convert float seconds to Duration: value is either too big or NaN"

end Output

namespace Command

/-- The command of a word and the words after it. -/
def ofWords (word : String) (args : List String) : Command :=
  let first := args[0]?
  if word ∈ ["quit", "exit", "q"] then .quit
  else if word ∈ ["help", "h", "?"] then .help
  else if word ∈ ["gen", "g"] then .gen first
  else if word ∈ ["next", "n"] then .next
  else if word ∈ ["prev", "p"] then .prev
  else if word ∈ ["random", "r"] then .random
  else if word = "seed" then .seed first
  else if word = "t" then .time first
  else if word = "arg" then .bind first
  else if word = "play" then .play first args[1]?
  else if word = "reload" then .reload
  else if word = "lint" then .lint
  else .unknown word

/-- The number of frames that a word asks for. -/
def frameCount (frames : Option String) : Nat :=
  max ((frames.bind fun w => Decimal.word? w.toList).getD 10) 1

/-- The rate of frames that a word asks for. -/
def frameRate (fps : Option String) : Float :=
  (fps.bind fun w => Decimal.float? w.toList).getD 10

/-- The command in a line of input; a blank line has none. -/
def parse? (line : String) : Option Command :=
  match Text.words line.toList with
  | [] => none
  | word :: args => some (ofWords (String.ofList (Text.lower word)) (args.map String.ofList))

end Command

/-- A line of input, with what is around the shell when it is read. -/
structure InputLine where
  text : String
  around : Surroundings

/-- The command in a line of input. -/
def InputLine.command? (i : InputLine) : Option Command :=
  Command.parse? i.text

/-- The list of commands. -/
def helpLines : List String := [
  "Commands:",
  "  gen [rule]            render a rule at the current seed and t",
  "  next | prev | random  change the seed and render",
  "  seed [token]          show or set the seed",
  "  t [value]             show or set the animation time",
  "  arg <name>=<value>    bind an argument (arg clear to reset)",
  "  play [frames] [fps]   render one playback cycle",
  "  reload                reparse the book",
  "  lint                  check the book",
  "  quit                  exit"]

namespace Shell

/-- The rule that is rendered unless another one is asked for. -/
def root (s : Shell) : String := s.engine.settings.rootRule

/-- The text of a rule at a time. -/
def generate (s : Shell) (rule : String) (time : Float) : Except EngineError String :=
  s.engine.generate s.book rule (s.bindings.map fun _ text => Passage.plain text) s.seed time

/-- Writes an error. -/
def errorLine (message : String) : Output := .line ("ERROR: " ++ message)

/-- Writes the text of a rule. -/
def shown (s : Shell) (rule : String) : List Output :=
  match s.generate rule s.time with
  | .error e => [errorLine e.message]
  | .ok text =>
    [.line ("\n--- " ++ rule ++ " @ " ++ s.seed.token ++ " (t = " ++
      Decimal.shortestText s.time ++ ") ---"), .line text, .line "--- End ---\n"]

/-- Writes the seed and the text of the root rule. -/
def announced (s : Shell) : List Output :=
  .line ("Seed: " ++ s.seed.token) :: s.shown s.root

/-- Reads the book at a path, with nothing on the shelf. -/
def readBook (engine : Engine) (files : FileTree) (path : String) : Except String Reading :=
  match files.readText path with
  | .error e => .error e.message
  | .ok source => .ok (engine.clear.parse (some (files.archiveBeside path)) source)

/-- A number at the right of three columns. -/
def padded (n : Nat) : String :=
  let text := toString n
  String.ofList (List.replicate (3 - text.length) ' ') ++ text

/-- The line of a frame.  An error is the line that stands in its place and ends the cycle. -/
def frameLine (s : Shell) (step : Float) (frame : Nat) : Except String String :=
  match s.book.preamble.frameTime (step * Float.ofNat frame) with
  | none => .error "[done]"
  | some time =>
    match s.generate s.root time with
    | .error e => .error ("ERROR: " ++ e.message)
    | .ok text =>
      .ok ("[" ++ padded frame ++ "] t=" ++ Decimal.fixedText 3 time ++ " " ++ text)

/-- Writes the frames of one cycle from a given one on, so many in all, with a pause after each.  If
the pause is not a duration the shell crashes after the first of them. -/
def frames (s : Shell) (step pause : Float) : Nat → Nat → List Output
  | 0, _ => []
  | count + 1, frame =>
    match s.frameLine step frame with
    | .error last => [.line last]
    | .ok line =>
      let shown : Output := { text := line ++ "\n", pause }
      if shown.crashes then [shown] else shown :: s.frames step pause count (frame + 1)

/-- The seconds that one of so many frames takes of a cycle. -/
def frameStep (s : Shell) (count : Nat) : Float :=
  s.book.preamble.duration / Float.ofNat count

/-- The seconds between two frames at a rate of frames for each second. -/
def framePause (fps : Float) : Float :=
  if 0 < fps then 1 / fps else 0

/-- Writes one cycle. -/
def played (s : Shell) (count : Nat) (fps : Float) : List Output :=
  let preamble := s.book.preamble
  .line ("Playing " ++ toString count ++ " frames (" ++ preamble.animation.name ++
      " animation, " ++ Decimal.shortestText preamble.duration ++ "s per cycle)") ::
    s.frames (s.frameStep count) (framePause fps) count 0

/-- Shows or sets the time. -/
def stepTime (s : Shell) : Option String → Shell × List Output
  | none => (s, [.line ("t = " ++ Decimal.shortestText s.time)])
  | some text =>
    match Decimal.float? text.toList with
    | some time =>
      if 0 ≤ time ∧ time < 1 then
        ({ s with time }, [.line ("t set to " ++ Decimal.shortestText time)])
      else (s, [.line "t must be a number in [0, 1)"])
    | none => (s, [.line "t must be a number in [0, 1)"])

/-- Shows, clears or binds arguments. -/
def stepBind (s : Shell) : Option String → Shell × List Output
  | none =>
    (s, s.bindings.toList.map fun (name, value) => .line ("  " ++ name ++ " = " ++ value))
  | some pair =>
    if pair = "clear" then ({ s with bindings := ∅ }, [.line "Arguments cleared."])
    else
      match Text.cutAt '=' pair.toList with
      | none => (s, [.line "Usage: arg <name>=<value>"])
      | some (before, after) =>
        let name := String.ofList before
        let value := String.ofList after
        ({ s with bindings := s.bindings.insert name value }, [.line (name ++ " = " ++ value)])

/-- Shows or sets the seed. -/
def stepSeed (s : Shell) : Option String → Shell × List Output
  | none => (s, [.line ("Current seed: " ++ s.seed.token)])
  | some token =>
    match Seed.parse token with
    | .error e => (s, [.line ("Invalid seed: " ++ e.message)])
    | .ok seed => ({ s with seed }, [.line ("Seed set to " ++ seed.token)])

/-- Reads the book again; what was on the shelf is forgotten even if that fails. -/
def stepReload (s : Shell) (files : FileTree) : Shell × List Output :=
  match readBook s.engine files s.path with
  | .error message => (s, [errorLine message])
  | .ok reading =>
    match reading.result with
    | .error e => ({ s with engine := reading.engine }, [errorLine e.message])
    | .ok book =>
      ({ s with engine := reading.engine, book },
        [.line ("Reloaded " ++ toString book.names.length ++ " rules")])

/-- Writes the findings about the book. -/
def linted (s : Shell) : List Output :=
  let findings := s.book.lint s.root
  if findings.isEmpty then [.line "All checks passed!"] else findings.map fun f => .line f.line

/-- Runs a command: the state after it and what is written.  If the shell crashes, it does so after
the last output. -/
def step (around : Surroundings) (s : Shell) : Command → Shell × List Output
  | .quit => (s, [.line "Goodbye."])
  | .help => (s, helpLines.map .line)
  | .gen rule => (s, s.shown (rule.getD s.root))
  | .next =>
    let s := { s with seed := s.seed.next }
    (s, s.announced)
  | .prev =>
    match s.seed.prev with
    | .error e => (s, [errorLine e.message])
    | .ok seed =>
      let s := { s with seed }
      (s, s.announced)
  | .random =>
    let s := { s with seed := s.engine.freshSeed around.draw }
    (s, s.announced)
  | .seed token => s.stepSeed token
  | .time text => s.stepTime text
  | .bind pair => s.stepBind pair
  | .play frames fps => (s, s.played (Command.frameCount frames) (Command.frameRate fps))
  | .reload => s.stepReload around.files
  | .lint => (s, s.linted)
  | .unknown word =>
    (s, [.line ("Unknown command '" ++ word ++ "'. Type 'help' for commands.")])

/-- What is written before each line of input. -/
def prompt : String := "preview> "

/-- The transcript of a session while its lines are read: up to the end of the input, to a `quit`,
or to a crash. -/
def session (s : Shell) : List InputLine → Transcript
  | [] => { stdout := prompt }
  | i :: rest =>
    match i.command? with
    | none => (s.session rest).behind prompt
    | some command =>
      let (s', output) := s.step i.around command
      let written := prompt ++ String.join (output.map (·.text))
      if command = .quit then { stdout := written }
      else if output.any Output.crashes then .crash written Output.complaint
      else (s'.session rest).behind written

/-- What is written when the shell starts. -/
def greeting (s : Shell) : String :=
  "Loaded " ++ toString s.book.names.length ++ " rules from " ++ s.path ++ "\nSeed: " ++
    s.seed.token ++ "\nType 'help' for commands.\n\n"

end Shell

namespace PreviewOptions

/-- What is written for arguments that cannot be read. -/
def usage : Transcript :=
  .usage "<book.seed> [--seed <token>] [--root <rule>] [--config <file>]"

/-- Reads the arguments of the shell. -/
def parse? (args : List String) : Option PreviewOptions :=
  match Arguments.parse? ["--seed", "--root", "--config"] [] {} args with
  | some a =>
    match a.plain with
    | [path] =>
      some { path, seed := a.option? "--seed", root := a.option? "--root"
             settings := a.option? "--config" }
    | _ => none
  | none => none

/-- The engine that the options ask for. -/
def engine (o : PreviewOptions) (files : FileTree) : Except String Engine :=
  let given : Except SettingsError Settings :=
    match o.settings with
    | none => .ok {}
    | some path =>
      match files.readText path with
      | .error e => .error (.unreadable e.message)
      | .ok text => Settings.parse text
  match given with
  | .error e => .error e.message
  | .ok settings => (Engine.build (settings.override none o.root none)).mapError (·.message)

/-- The seed that the options ask for, or else a fresh one. -/
def firstSeed (o : PreviewOptions) (engine : Engine) (draw : Nat → Fin 36) :
    Except SeedError Seed :=
  match o.seed with
  | none => .ok (engine.freshSeed draw)
  | some token => Seed.parse token

/-- The shell at its start; the error is the text of a complaint. -/
def start (o : PreviewOptions) (around : Surroundings) : Except String Shell :=
  match o.engine around.files with
  | .error message => .error message
  | .ok engine =>
    match Shell.readBook engine around.files o.path with
    | .error message => .error message
    | .ok reading =>
      match reading.result with
      | .error e => .error e.message
      | .ok book =>
        match o.firstSeed engine around.draw with
        | .error e => .error e.message
        | .ok seed => .ok { path := o.path, engine := reading.engine, book, seed }

end PreviewOptions

/-- The lines of an input; a line feed at its end begins no line. -/
def inputLines (input : String) : List String :=
  let lines := (Text.splitOn '\n' input.toList).map String.ofList
  if lines.getLast? = some "" then lines.dropLast else lines

/-- The transcript of the shell for its arguments and its input. -/
def runPreview (around : Surroundings) (args : List String) (input : String) : Transcript :=
  match PreviewOptions.parse? args with
  | none => PreviewOptions.usage
  | some o =>
    match o.start around with
    | .error message => .failure message
    | .ok shell =>
      let lines := (inputLines input).map fun text => { text, around }
      (shell.session lines).behind shell.greeting

end Phrasebook
