import Phrasebook.Book.Basic

/-!
# Rules under an alias

An importing book holds the rules of an imported one under qualified names, and the references of
these rules follow: a name that the imported book defines is qualified, and any other stays as it
is, so that it can mean an argument or a rule of the importing book.  Arguments are never
qualified, so a reference keeps the name it was first written with to look for them.
-/

namespace Phrasebook

/-- A name and the name it was written as, after an import under an alias of a book that defines the
names of `defined`. -/
def qualifyName (defined : String → Bool) (aliasName : String) (name : String)
    (binding : Option String) : String × Option String :=
  if defined name then (qualify aliasName name, some (binding.getD name)) else (name, binding)

/-- An argument after an import. -/
def Argument.qualified (defined : String → Bool) (aliasName : String) (a : Argument) : Argument :=
  match a.value with
  | .text _ => a
  | .ref name =>
    let (name, binding) := qualifyName defined aliasName name a.binding
    { a with value := .ref name, binding }

/-- A reference after an import; curves are not renamed. -/
def Reference.qualified (defined : String → Bool) (aliasName : String) (r : Reference) :
    Reference :=
  let (name, binding) :=
    if r.animated then (r.name, r.binding) else qualifyName defined aliasName r.name r.binding
  { r with name, binding, args := r.args.map (Argument.qualified defined aliasName) }

/-- A segment after an import. -/
def Segment.qualified (defined : String → Bool) (aliasName : String) : Segment → Segment
  | .literal s => .literal s
  | .reference r => .reference (r.qualified defined aliasName)

/-- An alternative after an import. -/
def Alternative.qualified (defined : String → Bool) (aliasName : String) (a : Alternative) :
    Alternative :=
  { a with template := a.template.map (Segment.qualified defined aliasName) }

/-- A rule after an import. -/
def Rule.qualified (defined : String → Bool) (aliasName : String) (r : Rule) : Rule where
  name := qualify aliasName r.name
  alternatives := r.alternatives.map (Alternative.qualified defined aliasName)

/-- The rules of a book under an alias, in the order of their names. -/
def Book.under (b : Book) (aliasName : String) : List Rule :=
  b.ruleList.map (Rule.qualified b.defines aliasName)

end Phrasebook
