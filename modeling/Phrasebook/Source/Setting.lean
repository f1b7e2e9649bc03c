import Phrasebook.Decimal.Numeral
import Phrasebook.Source.Fault
import Phrasebook.Text.Blank
import Phrasebook.Text.Split

/-!
# Reading the preamble

An entry of the preamble is a key, a colon and a value.  A later duration or animation takes the
place of an earlier one; imports add up, and no two of them share an alias.
-/

namespace Phrasebook

/-- Reads `id` or `id as alias`. -/
def Import.parse (entry : List Char) : Except SettingFault Import :=
  let ofWords (id aliasName : List Char) : Except SettingFault Import :=
    if isIdentifier aliasName then .ok ⟨String.ofList id, String.ofList aliasName⟩
    else .error (.invalidAlias (String.ofList aliasName))
  match Text.words entry with
  | [id] => ofWords id id
  | [id, ['a', 's'], aliasName] => ofWords id aliasName
  | _ => .error (.invalidImport (String.ofList entry))

namespace Preamble

/-- Settings with one import more. -/
def addImport (p : Preamble) (i : Import) : Except SettingFault Preamble :=
  if p.imports.any fun j => j.aliasName == i.aliasName then .error (.repeatedAlias i.aliasName)
  else .ok { p with imports := p.imports ++ [i] }

/-- Settings with the imports of a list of entries. -/
def addImports (p : Preamble) : List (List Char) → Except SettingFault Preamble
  | [] => .ok p
  | entry :: rest =>
    match Import.parse (Text.trim entry) with
    | .error fault => .error fault
    | .ok i =>
      match p.addImport i with
      | .error fault => .error fault
      | .ok p' => p'.addImports rest

/-- Settings with a duration. -/
def setDuration (p : Preamble) (value : List Char) : Except SettingFault Preamble :=
  match Decimal.float? value with
  | none => .error (.invalidDuration (String.ofList value))
  | some duration =>
    if duration.isFinite ∧ 0 < duration then .ok { p with duration }
    else .error .nonPositiveDuration

/-- Settings with an animation. -/
def setAnimation (p : Preamble) (value : List Char) : Except SettingFault Preamble :=
  match Animation.ofName? (String.ofList value) with
  | none => .error (.unknownAnimation (String.ofList value))
  | some animation => .ok { p with animation }

/-- Settings with one entry more. -/
def addEntry (p : Preamble) (text : List Char) : Except SettingFault Preamble :=
  match Text.cutAt ':' text with
  | none => .error .unkeyed
  | some (before, after) =>
    let key := String.ofList (Text.trim before)
    let value := Text.trim after
    if key = "duration" then p.setDuration value
    else if key = "animation" then p.setAnimation value
    else if key = "imports" ∨ key = "import" then p.addImports (Text.splitOn ',' value)
    else .error (.unknownKey key)

end Preamble

end Phrasebook
