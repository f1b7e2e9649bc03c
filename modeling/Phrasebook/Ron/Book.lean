import Phrasebook.Book.Basic
import Phrasebook.Ron.Printer

/-!
# Books in the object notation

What a printed book consists of.  The name under which an argument is looked for is left out where
it is the name that is written anyway.
-/

namespace Phrasebook

/-- The field of a name that was changed by an import. -/
def bindingField : Option String → List (String × Ron)
  | none => []
  | some s => [("binding", .present (.string s))]

/-- An argument value as a value of the notation. -/
def Value.toRon : Value → Ron
  | .text s => .tuple (some "Text") [.string s]
  | .ref name => .tuple (some "Ref") [.string name]

/-- An argument as a value of the notation. -/
def Argument.toRon (a : Argument) : Ron :=
  .record none ([("name", .string a.name), ("value", a.value.toRon)] ++ bindingField a.binding)

/-- A reference as a value of the notation. -/
def Reference.toRon (r : Reference) : Ron :=
  .record none <|
    [("name", .string r.name), ("args", .list (r.args.map Argument.toRon)),
      ("animated", .bool r.animated)] ++ bindingField r.binding

/-- A segment as a value of the notation. -/
def Segment.toRon : Segment → Ron
  | .literal s => .tuple (some "Literal") [.string s]
  | .reference r => .tuple (some "Reference") [r.toRon]

/-- An alternative as a value of the notation. -/
def Alternative.toRon (a : Alternative) : Ron :=
  .record none [("weight", .number a.weight),
    ("template", .record none [("segments", .list (a.template.map Segment.toRon))])]

/-- A rule as a value of the notation. -/
def Rule.toRon (r : Rule) : Ron :=
  .record none
    [("name", .string r.name), ("variants", .list (r.alternatives.map Alternative.toRon))]

/-- Settings as a value of the notation. -/
def Preamble.toRon (p : Preamble) : Ron :=
  let ofImport (i : Import) : Ron :=
    .record none [("id", .string i.id), ("alias", .string i.aliasName)]
  .record none [("duration", .number p.duration), ("animation", .word p.animation.name),
    ("imports", .list (p.imports.map ofImport))]

/-- A book as a value of the notation, its rules in the order of their names. -/
def Book.toRon (b : Book) : Ron :=
  .record none
    [("rules", .map (b.ruleList.map fun r => (.string r.name, r.toRon))),
      ("preamble", b.preamble.toRon)]

end Phrasebook
