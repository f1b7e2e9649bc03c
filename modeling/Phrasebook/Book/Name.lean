import Phrasebook.Text.Split

/-!
# Names

Rules, arguments and import aliases are named by identifiers.  A rule of an imported book is named
by its alias, a dot and its own name, and the rule of a nested list of alternatives by its owner, a
tilde and a number: neither sign can stand in an identifier, so the three kinds never meet.
-/

namespace Phrasebook

/-- The placeholder name that stands for the list nested below an alternative. -/
def nestedName : String := "_"

/-- The header of the block of settings. -/
def preambleName : String := "%preamble"

/-- Stands between an alias and the name of an imported rule. -/
def qualifier : Char := '.'

/-- Stands between the owner of a nested list and the number of its alternative. -/
def nestingMark : Char := '~'

/-- The characters of an identifier: letters and digits of ASCII, `_` and `-`. -/
def isNameChar (c : Char) : Bool :=
  c.isAlphanum || c == '_' || c == '-'

/-- A name of a rule, an argument or an alias. -/
def isIdentifier (name : List Char) : Bool :=
  name != [] && name != nestedName.toList && name.all isNameChar

/-- One identifier, or several with dots between them. -/
def isQualifiedIdentifier (name : List Char) : Bool :=
  (Text.splitOn qualifier name).all isIdentifier

theorem not_mem_of_isIdentifier {name : List Char} (h : isIdentifier name = true) {c : Char}
    (hc : isNameChar c = false) : c ∉ name := by
  intro hmem
  simp only [isIdentifier, Bool.and_eq_true, List.all_eq_true] at h
  have hname : isNameChar c = true := h.2 c hmem
  simp [hc] at hname

theorem not_mem_of_isQualifiedIdentifier {name : List Char}
    (h : isQualifiedIdentifier name = true) {c : Char} (hc : isNameChar c = false)
    (hne : c ≠ qualifier) : c ∉ name := by
  intro hmem
  obtain ⟨piece, hpiece, hc'⟩ := Text.exists_piece_of_mem hmem hne
  have hidentifier : isIdentifier piece = true := List.all_eq_true.mp h piece hpiece
  exact not_mem_of_isIdentifier hidentifier hc hc'

/-- The name under which an importing book holds a rule. -/
def qualify (aliasName name : String) : String :=
  aliasName ++ (String.singleton qualifier ++ name)

/-- The name of the list nested below an alternative, counted from zero. -/
def nestedRuleName (owner : String) (alternative : Nat) : String :=
  owner ++ (String.singleton nestingMark ++ toString alternative)

/-- Whether a name is that of a nested list. -/
def isNested (name : String) : Bool :=
  name.toList.contains nestingMark

end Phrasebook
