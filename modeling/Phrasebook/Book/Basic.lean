import Std.Data.ExtTreeMap
import Std.Data.ExtTreeSet
import Phrasebook.Book.Name

/-!
# Books

A book is a set of named rules.  A rule is a list of weighted alternatives, and an alternative is a
template: literal text mixed with references to other rules.  A reference can pass arguments, and an
animated one computes a number from the time instead of expanding a rule.
-/

namespace Phrasebook

/-- A finite map on names; equal when it gives the same answers. -/
abbrev NameMap (α : Type) := Std.ExtTreeMap String α compare

/-- A finite set of names; equal when it has the same members. -/
abbrev NameSet := Std.ExtTreeSet String compare

/-- The set of the names in a list. -/
def NameSet.ofList (names : List String) : NameSet := Std.ExtTreeSet.ofList names compare

/-- What a reference passes as an argument. -/
inductive Value where
  /-- Text, taken as it is. -/
  | text (s : String)
  /-- `$name`: the argument of that name, or else an expansion of the rule of that name. -/
  | ref (name : String)
  deriving DecidableEq, Repr

/-- An argument passed by a reference. -/
structure Argument where
  name : String
  value : Value
  /-- For a `$name` that an import renamed, the name as it was written. -/
  binding : Option String := none
  deriving DecidableEq, Repr

/-- A placeholder. -/
structure Reference where
  /-- The rule referred to; for an animated reference, the curve. -/
  name : String
  args : List Argument := []
  animated : Bool := false
  /-- The name as it was written, when an import renamed it. -/
  binding : Option String := none
  deriving DecidableEq, Repr

/-- A piece of a template. -/
inductive Segment where
  | literal (s : String)
  | reference (r : Reference)
  deriving DecidableEq, Repr

/-- Text with placeholders, in writing order. -/
abbrev Template := List Segment

/-- A template and its share of the choices. -/
structure Alternative where
  weight : Float
  template : Template

/-- A named list of alternatives. -/
structure Rule where
  name : String
  alternatives : List Alternative

/-- A document to merge and the alias to merge it under. -/
structure Import where
  id : String
  aliasName : String
  deriving DecidableEq, Repr

/-- What happens when the time of a cycle is over. -/
inductive Animation where
  /-- Runs back, and forth again. -/
  | bounce
  /-- Stops. -/
  | once
  /-- Starts again. -/
  | loop
  deriving DecidableEq, Repr

/-- The settings of a book. -/
structure Preamble where
  /-- Length of one cycle in seconds. -/
  duration : Float := 2
  animation : Animation := .bounce
  imports : List Import := []

/-- A set of rules and the settings that go with them. -/
structure Book where
  rules : NameMap Rule := ∅
  preamble : Preamble := {}

/-! ## Names of animations -/

/-- The word for an animation. -/
def Animation.name : Animation → String
  | .bounce => "bounce"
  | .once => "once"
  | .loop => "loop"

/-- The animation that a word names. -/
def Animation.ofName? (word : String) : Option Animation :=
  [.bounce, .once, .loop].find? fun a => a.name == word

/-- The complaint about a word that names no animation. -/
def Animation.unknownMessage (word : String) : String :=
  "unknown animation type '" ++ word ++ "': expected bounce, once or loop"

theorem Animation.ofName?_name (a : Animation) : ofName? a.name = some a := by
  cases a <;> decide

/-! ## References -/

/-- The name under which a `$name` value looks for an argument. -/
def Argument.bindingKey? (a : Argument) : Option String :=
  match a.value with
  | .text _ => none
  | .ref name => some (a.binding.getD name)

/-- The name under which a reference without arguments looks for an argument. -/
def Reference.bindingKey (r : Reference) : String :=
  r.binding.getD r.name

/-- The argument of a given name; the last one of several. -/
def Reference.argument? (r : Reference) (name : String) : Option Argument :=
  r.args.reverse.find? fun a => a.name == name

/-- The rules that the arguments of a reference name. -/
def Reference.argumentTargets (r : Reference) : List String :=
  r.args.filterMap fun a =>
    match a.value with
    | .text _ => none
    | .ref name => some name

/-- The references of a template, in order. -/
def Template.references (t : Template) : List Reference :=
  t.filterMap fun
    | .literal _ => none
    | .reference r => some r

/-- The references of all alternatives of a rule, in order. -/
def Rule.references (r : Rule) : List Reference :=
  r.alternatives.flatMap fun a => Template.references a.template

/-- The weights of a rule, in order. -/
def Rule.weights (r : Rule) : List Float :=
  r.alternatives.map (·.weight)

theorem Reference.mem_argumentTargets_iff {r : Reference} {name : String} :
    name ∈ r.argumentTargets ↔ ∃ a ∈ r.args, a.value = .ref name := by
  rw [argumentTargets, List.mem_filterMap]
  refine exists_congr fun a => and_congr_right fun _ => ?_
  cases a.value <;> simp

theorem Template.mem_references_iff {t : Template} {r : Reference} :
    r ∈ references t ↔ .reference r ∈ t := by
  rw [references, List.mem_filterMap]
  constructor
  · rintro ⟨segment, hsegment, heq⟩
    cases segment with
    | literal s => cases heq
    | reference r' =>
      obtain rfl := Option.some.inj heq
      exact hsegment
  · intro hr
    exact ⟨_, hr, rfl⟩

/-! ## Books -/

namespace Book

/-- The rule of a name. -/
def rule? (b : Book) (name : String) : Option Rule :=
  b.rules[name]?

/-- Whether a name has a rule. -/
def defines (b : Book) (name : String) : Bool :=
  b.rules.contains name

/-- The names of all rules, in order. -/
def names (b : Book) : List String :=
  b.rules.keys

/-- All rules, in the order of their names. -/
def ruleList (b : Book) : List Rule :=
  b.rules.toList.map (·.2)

/-- A book with one rule more, kept under its own name. -/
def insert (b : Book) (r : Rule) : Book :=
  { b with rules := b.rules.insert r.name r }

/-- A book with more rules; the last one of a name counts. -/
def insertAll (b : Book) (rs : List Rule) : Book :=
  rs.foldl insert b

theorem rule?_insert (b : Book) (r : Rule) (name : String) :
    (b.insert r).rule? name = if r.name = name then some r else b.rule? name := by
  simp [rule?, insert, Std.ExtTreeMap.getElem?_insert]

theorem defines_iff {b : Book} {name : String} :
    b.defines name = true ↔ ∃ r, b.rule? name = some r := by
  rw [defines, rule?, Std.ExtTreeMap.contains_eq_isSome_getElem?, Option.isSome_iff_exists]

end Book

end Phrasebook
