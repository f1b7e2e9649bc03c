import Phrasebook.Text.Split

/-!
# Transcripts

What a command writes and how it ends, and the reading of its arguments.
-/

namespace Phrasebook

/-- Everything that a command writes, and its exit code. -/
structure Transcript where
  stdout : String := ""
  stderr : String := ""
  code : Nat := 0
  deriving DecidableEq, Repr

/-- The transcript of a command that fails at once. -/
def Transcript.failure (message : String) : Transcript where
  stderr := "ERROR: " ++ message ++ "\n"
  code := 1

/-- The transcript of a command whose arguments cannot be read. -/
def Transcript.usage (message : String) : Transcript where
  stderr := "usage: " ++ message ++ "\n"
  code := 2

/-- The transcript of a command that crashes after what it has written.  The thread and the place
that the runtime puts around its complaint are left out. -/
def Transcript.crash (written complaint : String) : Transcript where
  stdout := written
  stderr := complaint ++ "\n"
  code := 101

/-- A transcript that goes on from what was written before. -/
def Transcript.behind (t : Transcript) (written : String) : Transcript :=
  { t with stdout := written ++ t.stdout }

/-- The arguments of a command: those without a name, the options with a value, and the others. -/
structure Arguments where
  plain : List String := []
  options : List (String × String) := []
  flags : List String := []
  deriving DecidableEq, Repr

namespace Arguments

/-- The value of an option. -/
def option? (a : Arguments) (name : String) : Option String :=
  (a.options.find? fun o => o.1 == name).map (·.2)

/-- Whether an argument has the form of an option. -/
def isOption (arg : String) : Bool :=
  arg ≠ "-" && arg.toList.head? == some '-'

/-- Cuts `--name=value`. -/
def cutOption (arg : String) : String × Option String :=
  match Text.cutAt '=' arg.toList with
  | some (name, value) => (String.ofList name, some (String.ofList value))
  | none => (arg, none)

/-- Arguments with one more option, which may stand there once. -/
def withOption (a : Arguments) (name value : String) : Option Arguments :=
  if (a.option? name).isSome then none else some { a with options := a.options ++ [(name, value)] }

/-- Arguments with one more flag, which may stand there once. -/
def withFlag (a : Arguments) (name : String) : Option Arguments :=
  if name ∈ a.flags then none else some { a with flags := a.flags ++ [name] }

/-- Reads arguments; `valued` and `bare` are the options that a command has.  The value of an
option stands after an equals sign or is the next argument, and all arguments after two dashes are
plain. -/
def parse? (valued bare : List String) (a : Arguments) : List String → Option Arguments
  | [] => some a
  | arg :: rest =>
    if arg = "--" then some { a with plain := a.plain ++ rest }
    else if !isOption arg then parse? valued bare { a with plain := a.plain ++ [arg] } rest
    else
      match cutOption arg, rest with
      | (name, some value), rest =>
        if name ∈ valued then (a.withOption name value).bind fun a => parse? valued bare a rest
        else none
      | (name, none), rest =>
        if name ∈ bare then (a.withFlag name).bind fun a => parse? valued bare a rest
        else
          match rest with
          | value :: rest =>
            if name ∈ valued ∧ !isOption value then
              (a.withOption name value).bind fun a => parse? valued bare a rest
            else none
          | [] => none

end Arguments

end Phrasebook
