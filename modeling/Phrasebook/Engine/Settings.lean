import Phrasebook.Expansion.Basic
import Phrasebook.Ron.Reader
import Phrasebook.Seed

/-!
# Settings

How deep an expansion may nest, which rule is rendered, and how long fresh seeds are.  Settings are
read from a record of the object notation, in which every field may be left out and unknown fields
do not matter.
-/

namespace Phrasebook

/-- The settings of an engine. -/
structure Settings where
  maxDepth : Nat := defaultMaxDepth
  rootRule : String := "root"
  seedLength : Nat := Seed.defaultLength
  deriving DecidableEq, Repr

/-- Why settings cannot be used. -/
inductive SettingsError where
  | tooDeep (maxDepth : Nat)
  | emptySeed
  | emptyRoot
  /-- The text is not in the object notation, or is no record of settings. -/
  | malformed
  /-- The text could not be read. -/
  | unreadable (reason : String)
  deriving DecidableEq, Repr

/-- The text of an error. -/
def SettingsError.message : SettingsError → String
  | .tooDeep maxDepth =>
    "invalid config: max_depth must be at most " ++ toString maxDepthLimit ++ ", got " ++
      toString maxDepth
  | .emptySeed => "invalid config: seed_length must be at least 1"
  | .emptyRoot => "invalid config: root_rule must not be empty"
  | .malformed => "RON deserialization error: expected a record of settings"
  | .unreadable reason => "IO error: " ++ reason

namespace Settings

/-- Settings that an engine can work with. -/
def validate (s : Settings) : Except SettingsError Settings :=
  if maxDepthLimit < s.maxDepth then .error (.tooDeep s.maxDepth)
  else if s.seedLength = 0 then .error .emptySeed
  else if s.rootRule = "" then .error .emptyRoot
  else .ok s

/-- Settings with the value of a field. -/
def setField (s : Settings) (field : String) (v : Ron) : Option Settings :=
  if field = "max_depth" then
    match v with
    | .natural n => some { s with maxDepth := n }
    | _ => none
  else if field = "root_rule" then
    match v with
    | .string name => some { s with rootRule := name }
    | _ => none
  else if field = "seed_length" then
    match v with
    | .natural n => some { s with seedLength := n }
    | _ => none
  else some s

/-- The fields that settings have. -/
def fieldNames : List String := ["max_depth", "root_rule", "seed_length"]

/-- Settings with the values of fields; none of those that settings have may occur twice. -/
def setFields (s : Settings) (seen : List String) : List (String × Ron) → Option Settings
  | [] => some s
  | (field, v) :: rest =>
    if field ∈ fieldNames ∧ field ∈ seen then none
    else (s.setField field v).bind fun s => s.setFields (field :: seen) rest

/-- The name that a record of settings may have. -/
def recordName : String := "EngineConfig"

/-- The settings that a value stands for. -/
def ofRon? : Ron → Option Settings
  | .unit => some {}
  | .tuple name [] => if name.all (· == recordName) then some {} else none
  | .record name fields => if name.all (· == recordName) then setFields {} [] fields else none
  | _ => none

/-- The settings that a text stands for. -/
def parse (text : String) : Except SettingsError Settings :=
  match (Ron.parse? text).bind ofRon? with
  | none => .error .malformed
  | some s => s.validate

/-- Settings with some of them replaced. -/
def override (s : Settings) (maxDepth : Option Nat) (rootRule : Option String)
    (seedLength : Option Nat) : Settings where
  maxDepth := maxDepth.getD s.maxDepth
  rootRule := rootRule.getD s.rootRule
  seedLength := seedLength.getD s.seedLength

end Settings

end Phrasebook
