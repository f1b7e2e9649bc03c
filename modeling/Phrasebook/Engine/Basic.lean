import Phrasebook.Engine.Settings
import Phrasebook.Imports.Resolve
import Phrasebook.Motion.Clock

/-!
# Engines

An engine reads books and renders them by its settings.  Between calls it keeps nothing but its
shelf of imported books.
-/

namespace Phrasebook

/-- Why an engine fails. -/
inductive EngineError where
  | parse (e : ParseError)
  | expand (e : ExpandError)
  | resolve (e : ImportError)
  | seed (e : SeedError)
  | settings (e : SettingsError)
  deriving DecidableEq, Repr

/-- The text of an error. -/
def EngineError.message : EngineError → String
  | .parse e => "parse error: " ++ e.message
  | .expand e => e.message
  | .resolve e => e.message
  | .seed e => e.message
  | .settings e => "config error: " ++ e.message

/-- Settings and a shelf. -/
structure Engine where
  settings : Settings := {}
  shelf : Shelf := ∅

/-- The outcome of reading a book: the result, the engine after it, and the ids that the archive was
asked for, in order. -/
structure Reading where
  result : Except EngineError Book
  engine : Engine
  asked : List String

namespace Engine

/-- An engine with settings that it can work with. -/
def build (settings : Settings) : Except EngineError Engine :=
  match settings.validate with
  | .error e => .error (.settings e)
  | .ok settings => .ok { settings }

/-- The outcome of a request that goes through the shelf. -/
def request (e : Engine) (r : Request Book) : Reading :=
  let fetched := r e.shelf
  ⟨fetched.result.mapError .resolve, { e with shelf := fetched.shelf }, fetched.asked⟩

/-- Reads the source of a book and resolves its imports; an archive is needed only if there are
imports. -/
def parse (e : Engine) (archive : Option Archive) (source : String) : Reading :=
  match Book.parse source with
  | .error fault => ⟨.error (.parse fault), e, []⟩
  | .ok b =>
    match b.preamble.imports, archive with
    | [], _ => ⟨.ok b, e, []⟩
    | i :: _, none => ⟨.error (.resolve (.noArchive i.id)), e, []⟩
    | _ :: _, some archive => e.request (Phrasebook.resolve archive b)

/-- Reads a stored book and resolves its imports. -/
def load (e : Engine) (archive : Option Archive) (id : String) : Reading :=
  match archive with
  | none => ⟨.error (.resolve (.noArchive id)), e, []⟩
  | some archive => e.request (Phrasebook.load archive id)

/-- An engine that has forgotten its imported books. -/
def clear (e : Engine) : Engine :=
  { e with shelf := ∅ }

/-- The text of a rule. -/
def generate (e : Engine) (b : Book) (root : String) (args : Bindings) (seed : Seed)
    (time : Float) : Except EngineError String :=
  (b.generate e.settings.maxDepth root args seed time).mapError .expand

/-- The text of the root rule, without arguments. -/
def render (e : Engine) (b : Book) (seed : Seed) (time : Float) : Except EngineError String :=
  e.generate b e.settings.rootRule ∅ seed time

/-- The text of the frame shown some seconds after playback began, unless playback is over. -/
def renderFrame (e : Engine) (b : Book) (seed : Seed) (elapsed : Float) :
    Except EngineError (Option String) :=
  match b.preamble.frameTime elapsed with
  | none => .ok none
  | some time => (e.render b seed time).map some

/-- A fresh seed from a supply of digits. -/
def freshSeed (e : Engine) (draw : Nat → Fin 36) : Seed :=
  Seed.fresh draw e.settings.seedLength

end Engine

/-- Reads the source of a book and resolves its imports with nothing on the shelf. -/
def Book.parseAndResolve (archive : Archive) (source : String) : Except EngineError Book :=
  match Book.parse source with
  | .error fault => .error (.parse fault)
  | .ok b => (resolve archive b ∅).result.mapError .resolve

end Phrasebook
