import Phrasebook.Proofs.Imports.Transport

/-!
# Copies of rules under other names

A rule that is merged into another book keeps its alternatives with their weights, the texts and the
animated references in them and the arguments that are passed; only names of rules can change.
`Rule.IsCopy` says so for any way in which names change (`NameChange`).  There are two:

* `UnderAlias` is what one import does to the names in a book: those of its rules get the alias in
  front, and then the name that was written is kept as the binding;
* `AlongAliases` is what a chain of imports does to the names in a source.  However long the chain
  is, the binding is the name that was written, unless that is the name still.

A step of the first kind prolongs a chain of the second (`AlongAliases.under`), and so copies of
copies are copies (`Rule.IsCopy.trans`).
-/

namespace Phrasebook

/-- A way in which names change: what becomes of a name, and of the name that was written in case it
was changed before. -/
abbrev NameChange := String → Option String → String → Option String → Prop

/-! ## Copies -/

/-- An argument, what it names being changed. -/
inductive Argument.IsCopy (change : NameChange) : Argument → Argument → Prop
  | text (name s : String) (binding : Option String) :
      IsCopy change ⟨name, .text s, binding⟩ ⟨name, .text s, binding⟩
  | ref {target target' : String} {binding binding' : Option String} (name : String)
      (h : change target binding target' binding') :
      IsCopy change ⟨name, .ref target, binding⟩ ⟨name, .ref target', binding'⟩

/-- A reference, the rules that it names being changed; the name of a curve stays. -/
structure Reference.IsCopy (change : NameChange) (r r' : Reference) : Prop where
  animated : r'.animated = r.animated
  args : List.Forall₂ (Argument.IsCopy change) r.args r'.args
  curve : r.animated = true → r'.name = r.name ∧ r'.binding = r.binding
  rule : r.animated = false → change r.name r.binding r'.name r'.binding

/-- A literal as it is, or a reference with changed names. -/
inductive Segment.IsCopy (change : NameChange) : Segment → Segment → Prop
  | literal (s : String) : IsCopy change (.literal s) (.literal s)
  | reference {r r' : Reference} (h : r.IsCopy change r') :
      IsCopy change (.reference r) (.reference r')

/-- An alternative with its weight, the references of its template being changed. -/
structure Alternative.IsCopy (change : NameChange) (a a' : Alternative) : Prop where
  weight : a'.weight = a.weight
  template : List.Forall₂ (Segment.IsCopy change) a.template a'.template

/-- The alternatives of a rule, in order, the references in them being changed. -/
def Rule.IsCopy (change : NameChange) (r r' : Rule) : Prop :=
  List.Forall₂ (Alternative.IsCopy change) r.alternatives r'.alternatives

/-! ## Copies of copies -/

theorem forall₂_comp {α : Type} {R S T : α → α → Prop}
    (h : ∀ a a' a'', R a a' → S a' a'' → T a a'') {as as' as'' : List α}
    (hR : List.Forall₂ R as as') (hS : List.Forall₂ S as' as'') : List.Forall₂ T as as'' := by
  induction hR generalizing as'' with
  | nil =>
      rw [List.forall₂_nil_left_iff.mp hS]
      exact .nil
  | cons hfirst _ ih =>
      obtain ⟨a'', rest'', hfirst', hrest', rfl⟩ := List.forall₂_cons_left_iff.mp hS
      exact .cons (h _ _ _ hfirst hfirst') (ih hrest')

section Trans

variable {first second both : NameChange}
  (hboth : ∀ name binding name' binding' name'' binding'', first name binding name' binding' →
    second name' binding' name'' binding'' → both name binding name'' binding'')
include hboth

theorem Argument.IsCopy.trans {a a' a'' : Argument} (h : a.IsCopy first a')
    (h' : a'.IsCopy second a'') : a.IsCopy both a'' := by
  cases h with
  | text name s binding =>
      cases h'
      exact .text name s binding
  | ref name hfirst =>
      cases h' with
      | ref _ hsecond => exact .ref name (hboth _ _ _ _ _ _ hfirst hsecond)

theorem Reference.IsCopy.trans {r r' r'' : Reference} (h : r.IsCopy first r')
    (h' : r'.IsCopy second r'') : r.IsCopy both r'' := by
  have hsame : r'.animated = r.animated := h.animated
  constructor
  · exact h'.animated.trans hsame
  · exact forall₂_comp (fun _ _ _ hfirst hsecond => hfirst.trans hboth hsecond) h.args h'.args
  · intro hmoving
    obtain ⟨hname, hbinding⟩ := h.curve hmoving
    obtain ⟨hname', hbinding'⟩ := h'.curve (hsame.trans hmoving)
    exact ⟨hname'.trans hname, hbinding'.trans hbinding⟩
  · intro hstill
    exact hboth _ _ _ _ _ _ (h.rule hstill) (h'.rule (hsame.trans hstill))

theorem Segment.IsCopy.trans {s s' s'' : Segment} (h : s.IsCopy first s')
    (h' : s'.IsCopy second s'') : s.IsCopy both s'' := by
  cases h with
  | literal text =>
      cases h'
      exact .literal text
  | reference hfirst =>
      cases h' with
      | reference hsecond => exact .reference (hfirst.trans hboth hsecond)

theorem Rule.IsCopy.trans {r r' r'' : Rule} (h : r.IsCopy first r') (h' : r'.IsCopy second r'') :
    r.IsCopy both r'' := by
  refine forall₂_comp (fun a a' a'' hfirst hsecond => ?_) h h'
  refine ⟨hsecond.weight.trans hfirst.weight, ?_⟩
  exact forall₂_comp (fun _ _ _ hs hs' => hs.trans hboth hs') hfirst.template hsecond.template

end Trans

/-! ## One import -/

/-- What becomes of a name when a book is merged under an alias. -/
structure UnderAlias (b : Book) (aliasName name : String) (binding : Option String) (name' : String)
    (binding' : Option String) : Prop where
  renamed : b.defines name = true →
    name' = qualify aliasName name ∧ binding' = some (binding.getD name)
  kept : b.defines name = false → name' = name ∧ binding' = binding

theorem underAlias_qualifyName (b : Book) (aliasName name : String) (binding : Option String) :
    UnderAlias b aliasName name binding (qualifyName b.defines aliasName name binding).1
      (qualifyName b.defines aliasName name binding).2 := by
  constructor <;> intro h <;> simp [qualifyName, h]

theorem Rule.isCopy_qualified (b : Book) (aliasName : String) (r : Rule) :
    r.IsCopy (UnderAlias b aliasName) (r.qualified b.defines aliasName) := by
  have hargument : ∀ a : Argument,
      a.IsCopy (UnderAlias b aliasName) (a.qualified b.defines aliasName) := by
    rintro ⟨name, value, binding⟩
    cases value with
    | text s => exact .text name s binding
    | ref target => exact .ref name (underAlias_qualifyName b aliasName target binding)
  have hreference : ∀ ref : Reference,
      ref.IsCopy (UnderAlias b aliasName) (ref.qualified b.defines aliasName) := by
    intro ref
    refine ⟨rfl, ?_, fun hmoving => ?_, fun hstill => ?_⟩
    · exact List.forall₂_map_right_iff.mpr (List.forall₂_same.mpr fun a _ => hargument a)
    · simp [Reference.qualified, hmoving]
    · simp only [Reference.qualified, hstill]
      exact underAlias_qualifyName b aliasName ref.name ref.binding
  refine List.forall₂_map_right_iff.mpr (List.forall₂_same.mpr fun a _ => ⟨rfl, ?_⟩)
  refine List.forall₂_map_right_iff.mpr (List.forall₂_same.mpr fun s _ => ?_)
  cases s with
  | literal text => exact .literal text
  | reference ref => exact .reference (hreference ref)

/-! ## A chain of imports -/

/-- The name of a rule below a chain of imports, the alias of the outermost one first. -/
def qualifyAlong (aliases : List String) (name : String) : String :=
  aliases.foldr qualify name

/-- What becomes of a written name when the book it stands in is merged along a chain of imports
into another one: some of the aliases come to stand in front of it, and if it is no longer what was
written, then it names a rule and the binding is what was written. -/
structure AlongAliases (host : Book) (aliases : List String) (written : String)
    (binding : Option String) (name : String) (binding' : Option String) : Prop where
  unrenamed : binding = none
  outermost : ∃ outer, outer <+: aliases ∧ name = qualifyAlong outer written
  kept : binding' = if name = written then none else some written
  defined : name ≠ written → host.defines name = true

theorem length_le_qualifyAlong (aliases : List String) (name : String) :
    name.length ≤ (qualifyAlong aliases name).length := by
  induction aliases with
  | nil => exact Nat.le_refl _
  | cons first rest ih =>
      rw [qualifyAlong, List.foldr_cons, qualify, String.length_append, String.length_append]
      have hrest : name.length ≤ (rest.foldr qualify name).length := ih
      omega

theorem qualify_qualifyAlong_ne (aliasName : String) (aliases : List String) (name : String) :
    qualify aliasName (qualifyAlong aliases name) ≠ name := by
  intro heq
  have hle : name.length ≤ (qualifyAlong aliases name).length := length_le_qualifyAlong aliases name
  have hlength := congrArg String.length heq
  rw [qualify, String.length_append, String.length_append, String.length_singleton] at hlength
  omega

/-- One import more, of a book whose rules the importing book has under the alias. -/
theorem AlongAliases.under {host b : Book} {aliasName : String} {aliases : List String}
    (hhost : ∀ name, b.defines name = true → host.defines (qualify aliasName name) = true)
    (written : String) (binding : Option String) (name : String) (binding' : Option String)
    (name' : String) (binding'' : Option String)
    (h : AlongAliases b aliases written binding name binding')
    (h' : UnderAlias b aliasName name binding' name' binding'') :
    AlongAliases host (aliasName :: aliases) written binding name' binding'' := by
  obtain ⟨outer, hprefix, rfl⟩ := h.outermost
  cases hdefined : b.defines (qualifyAlong outer written) with
  | true =>
      obtain ⟨rfl, rfl⟩ := h'.renamed hdefined
      have hne := qualify_qualifyAlong_ne aliasName outer written
      have hbinding : binding'.getD (qualifyAlong outer written) = written := by
        rw [h.kept]
        by_cases hsame : qualifyAlong outer written = written <;> simp [hsame]
      refine ⟨h.unrenamed, ⟨aliasName :: outer, ?_, rfl⟩, ?_, fun _ => hhost _ hdefined⟩
      · exact (List.prefix_cons_inj aliasName).mpr hprefix
      · rw [hbinding, if_neg hne]
  | false =>
      obtain ⟨rfl, rfl⟩ := h'.kept hdefined
      -- A name that was changed before names a rule, so this one is as it was written.
      have hsame : qualifyAlong outer written = written := by
        by_contra hne
        simp [h.defined hne] at hdefined
      refine ⟨h.unrenamed, ⟨[], List.nil_prefix, hsame⟩, h.kept, fun hne => ?_⟩
      exact absurd hsame hne

/-- A name without a chain of imports. -/
theorem alongAliases_nil (host : Book) (written : String) :
    AlongAliases host [] written none written none :=
  ⟨rfl, ⟨[], List.nil_prefix, rfl⟩, by simp, fun hne => absurd rfl hne⟩

/-- A rule that no import has touched is a copy of itself. -/
theorem Rule.isCopy_self {r : Rule} (h : ∀ ref ∈ r.references, ref.Unrenamed) (host : Book) :
    r.IsCopy (AlongAliases host []) r := by
  refine List.forall₂_same.mpr fun a ha => ⟨rfl, List.forall₂_same.mpr fun s hs => ?_⟩
  cases s with
  | literal text => exact .literal text
  | reference ref =>
      have hmem : ref ∈ r.references :=
        List.mem_flatMap.mpr ⟨a, ha, Template.mem_references_iff.mpr hs⟩
      obtain ⟨hbinding, hargs⟩ := h ref hmem
      refine .reference ⟨rfl, List.forall₂_same.mpr fun arg harg => ?_, fun _ => ⟨rfl, rfl⟩, ?_⟩
      · obtain ⟨name, value, binding⟩ := arg
        obtain rfl : binding = none := hargs _ harg
        cases value with
        | text s => exact .text name s none
        | ref target => exact .ref name (alongAliases_nil host target)
      · intro _
        rw [hbinding]
        exact alongAliases_nil host ref.name

end Phrasebook
