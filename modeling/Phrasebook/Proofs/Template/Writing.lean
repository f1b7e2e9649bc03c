import Mathlib.Data.List.TakeWhile
import Phrasebook.Proofs.Outcome
import Phrasebook.Proofs.Source.Alternatives
import Phrasebook.Proofs.Template.Quoting

/-!
# Writing placeholders

A reference that a placeholder can hold at all is written as one, every text among its arguments
between quotes.  Each reader reads back what is written for it: values (`Value.parse_write`),
arguments (`Argument.parse_write`), lists of arguments (`Argument.parseAll_writeAll`) and references
(`Reference.parse_write`).
-/

namespace Phrasebook

/-! ## Text without blanks at its ends -/

namespace Text

/-- A text whose first and last characters are not blank. -/
structure Tight (cs : List Char) : Prop where
  first : ∃ c ∈ cs.head?, isBlank c = false
  last : ∃ c ∈ cs.getLast?, isBlank c = false

variable {cs ds : List Char}

theorem Tight.ne_nil (h : Tight cs) : cs ≠ [] := by
  rintro rfl
  simpa using h.first

theorem Tight.surround (hc : Tight cs) (hd : Tight ds) (between : List Char) :
    Tight (cs ++ between ++ ds) where
  first := by
    obtain ⟨c, hfirst, hblank⟩ := hc.first
    exact ⟨c, by simp_all, hblank⟩
  last := by
    obtain ⟨c, hlast, hblank⟩ := hd.last
    exact ⟨c, by simp_all, hblank⟩

theorem tight_singleton {c : Char} (h : isBlank c = false) : Tight [c] :=
  ⟨⟨c, rfl, h⟩, ⟨c, rfl, h⟩⟩

theorem tight_of_forall (hne : cs ≠ []) (h : ∀ c ∈ cs, isBlank c = false) : Tight cs where
  first := ⟨cs.head hne, List.head?_eq_some_head hne, h _ (List.head_mem hne)⟩
  last := ⟨cs.getLast hne, List.getLast?_eq_some_getLast hne, h _ (List.getLast_mem hne)⟩

theorem trimStart_eq_self (h : ∃ c ∈ cs.head?, isBlank c = false) : trimStart cs = cs := by
  obtain ⟨c, hfirst, hblank⟩ := h
  cases cs with
  | nil => rfl
  | cons d cs =>
      obtain rfl : d = c := by simpa using hfirst
      exact List.dropWhile_cons_of_neg (by simp [hblank])

theorem Tight.trim_eq_self (h : Tight cs) : trim cs = cs := by
  have hreversed : trimStart cs.reverse = cs.reverse :=
    trimStart_eq_self (by rw [List.head?_reverse]; exact h.last)
  rw [trim, trimStart_eq_self h.first, trimEnd]
  exact (congrArg List.reverse hreversed).trans cs.reverse_reverse

/-- Trimming leaves something of a text that begins with a character that is not blank. -/
theorem trim_ne_nil (h : ∃ c ∈ cs.head?, isBlank c = false) : trim cs ≠ [] := by
  obtain ⟨c, hfirst, hblank⟩ := h
  intro hnil
  rw [trim, trimStart_eq_self ⟨c, hfirst, hblank⟩, trimEnd, List.reverse_eq_nil_iff,
    List.dropWhile_eq_nil_iff] at hnil
  rw [hnil c (List.mem_reverse.mpr (List.mem_of_head? hfirst))] at hblank
  cases hblank

theorem trim_cons_of_isBlank {c : Char} (h : isBlank c = true) (cs : List Char) :
    trim (c :: cs) = trim cs := by
  rw [trim, trim, trimStart, List.dropWhile_cons_of_pos h, trimStart]

theorem cutAt_append {sep : Char} {before : List Char} (h : sep ∉ before) (after : List Char) :
    cutAt sep (before ++ sep :: after) = some (before, after) := by
  induction before with
  | nil => rw [List.nil_append, cutAt, if_pos rfl]
  | cons c before ih =>
      obtain ⟨hc, hrest⟩ : sep ≠ c ∧ sep ∉ before := by simpa using h
      rw [List.cons_append, cutAt, if_neg hc.symm, ih hrest, Option.map_some]

end Text

/-! ## Names -/

theorem bounds_of_isAlphanum {c : Char} (h : c.isAlphanum = true) :
    48 ≤ c.toNat ∧ c.toNat ≤ 122 := by
  rcases (Bool.or_eq_true _ _).mp h with halpha | hdigit
  · rcases (Bool.or_eq_true _ _).mp halpha with hupper | hlower
    · have hrange : 'A'.val ≤ c.val ∧ c.val ≤ 'Z'.val := of_decide_eq_true hupper
      obtain ⟨hlow, hhigh⟩ : 65 ≤ c.toNat ∧ c.toNat ≤ 90 := hrange
      omega
    · obtain ⟨hfirst, hlast⟩ := (Bool.and_eq_true _ _).mp hlower
      have hlow : 97 ≤ c.toNat := of_decide_eq_true hfirst
      have hhigh : c.toNat ≤ 122 := of_decide_eq_true hlast
      omega
  · obtain ⟨hfirst, hlast⟩ := (Bool.and_eq_true _ _).mp hdigit
    have hlow : 48 ≤ c.toNat := of_decide_eq_true hfirst
    have hhigh : c.toNat ≤ 57 := of_decide_eq_true hlast
    omega

theorem isBlank_of_isReferenceChar {c : Char} (h : isReferenceChar c = true) :
    Text.isBlank c = false := by
  have hchar : c.isAlphanum = true ∨ c = '_' ∨ c = '-' ∨ c = '.' := by
    simpa [isReferenceChar, isNameChar, qualifier, or_assoc] using h
  rcases hchar with halnum | rfl | rfl | rfl
  · obtain ⟨hlow, hhigh⟩ := bounds_of_isAlphanum halnum
    simp only [Text.isBlank, Bool.or_eq_false_iff, Bool.and_eq_false_iff, decide_eq_false_iff_not,
      beq_eq_false_iff_ne]
    omega
  all_goals rfl

/-- The marks that end an argument, a list of arguments and a placeholder. -/
def argumentMarks : List Char := [',', ')', '}']

/-- A text that a placeholder may have as the name of its rule. -/
structure IsReferenceName (name : List Char) : Prop where
  ne_nil : name ≠ []
  chars : ∀ c ∈ name, isReferenceChar c = true

namespace IsReferenceName

variable {name : List Char}

theorem of_not_mem (hne : name ≠ [])
    (h : ∀ {c}, isNameChar c = false → c ≠ qualifier → c ∉ name) : IsReferenceName name where
  ne_nil := hne
  chars c hc := by
    by_contra hchar
    obtain ⟨hname, hdot⟩ : isNameChar c = false ∧ c ≠ qualifier := by
      simpa [isReferenceChar] using hchar
    exact h hname hdot hc

theorem of_qualified (h : isQualifiedIdentifier name = true) : IsReferenceName name := by
  refine .of_not_mem ?_ (not_mem_of_isQualifiedIdentifier h)
  rintro rfl
  exact absurd h (by decide)

theorem of_identifier (h : isIdentifier name = true) : IsReferenceName name := by
  refine .of_not_mem ?_ fun hname _ => not_mem_of_isIdentifier h hname
  rintro rfl
  exact absurd h (by decide)

theorem tight (h : IsReferenceName name) : Text.Tight name :=
  Text.tight_of_forall h.ne_nil fun c hc => isBlank_of_isReferenceChar (h.chars c hc)

theorem inert (h : IsReferenceName name) : Inert argumentMarks name :=
  .of_forall fun c hc => by
    have hchar : isReferenceChar c = true := h.chars c hc
    refine ⟨?_, ?_, ?_⟩
    · intro hmark
      simp only [argumentMarks, List.mem_cons, List.not_mem_nil, or_false] at hmark
      rcases hmark with rfl | rfl | rfl <;> exact absurd hchar (by decide)
    · rintro rfl
      exact absurd hchar (by decide)
    · rintro rfl
      exact absurd hchar (by decide)

end IsReferenceName

/-! ## Values -/

/-- A value as it is written; every text goes between quotes. -/
def Value.write : Value → List Char
  | .text s => Quoting.write s.toList
  | .ref name => ['$'] ++ name.toList

namespace Value

variable {v : Value}
  (h : ∀ target, v = .ref target → isQualifiedIdentifier target.toList = true)
include h

theorem tight_write : Text.Tight v.write := by
  cases v with
  | text s =>
      refine ⟨⟨'"', rfl, by decide⟩, ⟨'"', ?_, by decide⟩⟩
      rw [write, Quoting.write, ← List.cons_append, List.getLast?_concat]
      rfl
  | ref name =>
      refine Text.tight_of_forall (by simp [write]) fun c hc => ?_
      rcases List.mem_cons.mp hc with rfl | hc
      · decide
      · exact isBlank_of_isReferenceChar ((IsReferenceName.of_qualified (h name rfl)).chars c hc)

theorem inert_write : Inert argumentMarks v.write := by
  cases v with
  | text s => exact Quoting.inert_write (by decide) s.toList
  | ref name =>
      have hsign : Inert argumentMarks ['$'] := .of_forall (by simp [argumentMarks])
      exact hsign.append (IsReferenceName.of_qualified (h name rfl)).inert

theorem parse_write : Value.parse v.write = .ok v := by
  cases v with
  | text s =>
      rw [write, Quoting.write, parse, Quoting.read_append]
      simp [Text.trim, Text.trimStart, Text.trimEnd]
  | ref name => simp [write, parse, h name rfl]

end Value

/-! ## Arguments -/

namespace Argument

/-- An argument as it is written. -/
def write (a : Argument) : List Char :=
  a.name.toList ++ [':', ' '] ++ a.value.write

/-- A list of arguments as it is written. -/
def writeAll : List Argument → List Char
  | [] => []
  | a :: rest => a.write ++ rest.flatMap fun b => [',', ' '] ++ b.write

variable {a : Argument} {args : List Argument}

theorem IsRead.tight_write (h : a.IsRead) : Text.Tight a.write :=
  (IsReferenceName.of_identifier h.name).tight.surround (Value.tight_write h.target) [':', ' ']

theorem IsRead.inert_write (h : a.IsRead) : Inert argumentMarks a.write := by
  have hname : Inert argumentMarks a.name.toList := (IsReferenceName.of_identifier h.name).inert
  have hcolon : Inert argumentMarks [':', ' '] := .of_forall (by simp [argumentMarks])
  exact (hname.append hcolon).append (Value.inert_write h.target)

theorem parse_cons_blank (raw : List Char) : parse (' ' :: raw) = parse raw := by
  rw [parse, Text.trim_cons_of_isBlank (by decide), parse]

theorem parse_write (h : a.IsRead) : parse a.write = .ok a := by
  have hcolon : ':' ∉ a.name.toList := not_mem_of_isIdentifier h.name (by decide)
  have hname : Text.trim a.name.toList = a.name.toList :=
    (IsReferenceName.of_identifier h.name).tight.trim_eq_self
  have hcut : Text.cutAt ':' a.write = some (a.name.toList, ' ' :: a.value.write) := by
    rw [write, List.append_assoc]
    exact Text.cutAt_append hcolon _
  have hvalue : Text.trim (' ' :: a.value.write) = a.value.write := by
    rw [Text.trim_cons_of_isBlank (by decide), (Value.tight_write h.target).trim_eq_self]
  rw [parse, h.tight_write.trim_eq_self]
  dsimp only
  rw [if_neg h.tight_write.ne_nil, hcut]
  dsimp only
  rw [hname, if_pos h.name, hvalue, Value.parse_write h.target, Except.map, String.ofList_toList,
    ← h.binding]

theorem splitOn_writeAll {cs : List Char} (hcs : Quoting.Covered ',' cs)
    (h : ∀ b ∈ args, b.IsRead) :
    Quoting.splitOn ',' .bare (cs ++ args.flatMap fun b => [',', ' '] ++ b.write) =
      cs :: args.map fun b => ' ' :: b.write := by
  induction args generalizing cs with
  | nil =>
      rw [List.flatMap_nil, List.append_nil, List.map_nil, Quoting.splitOn_eq_singleton hcs.hides]
  | cons b args ih =>
      have hb : Quoting.Covered ',' (' ' :: b.write) :=
        .cons (by decide) (by decide) ((h b List.mem_cons_self).inert_write.covered ',' (by decide))
      rw [List.flatMap_cons, List.append_assoc, List.cons_append,
        Quoting.splitOn_append hcs.hides hcs.closed, List.map_cons,
        ← ih hb fun b' hb' => h b' (List.mem_cons_of_mem b hb')]
      rfl

theorem inert_writeAll (h : ∀ a ∈ args, a.IsRead) : Inert [')', '}'] (writeAll args) := by
  have hwrite : ∀ a ∈ args, Inert [')', '}'] a.write := fun a ha =>
    (h a ha).inert_write.mono (by simp [argumentMarks])
  have hsep : Inert [')', '}'] [',', ' '] := .of_forall (by simp)
  cases args with
  | nil => exact .of_forall (by simp [writeAll])
  | cons a rest =>
      refine (hwrite a List.mem_cons_self).append ?_
      replace hwrite := fun b hb => hwrite b (List.mem_cons_of_mem a hb)
      clear h
      induction rest with
      | nil => exact .of_forall (by simp)
      | cons b rest ih =>
          rw [List.flatMap_cons]
          refine (hsep.append (hwrite b List.mem_cons_self)).append ?_
          exact ih fun b' hb' => hwrite b' (List.mem_cons_of_mem b hb')

/-- A list of arguments is read back from its written form. -/
theorem parseAll_writeAll (h : ∀ a ∈ args, a.IsRead) : parseAll (writeAll args) = .ok args := by
  cases args with
  | nil => rfl
  | cons a rest =>
      have ha : a.IsRead := h a List.mem_cons_self
      have hrest : ∀ b ∈ rest, b.IsRead := fun b hb => h b (List.mem_cons_of_mem a hb)
      have hsome : Text.trim (writeAll (a :: rest)) ≠ [] := by
        obtain ⟨c, hfirst, hblank⟩ := ha.tight_write.first
        refine Text.trim_ne_nil ⟨c, ?_, hblank⟩
        rw [writeAll, List.head?_append, hfirst]
        rfl
      have hcovered : Quoting.Covered ',' a.write := ha.inert_write.covered ',' (by decide)
      rw [parseAll, if_neg hsome, writeAll, splitOn_writeAll hcovered hrest, Except.mapM_eq_ok_iff]
      refine .cons (parse_write ha) ?_
      rw [List.forall₂_map_left_iff, List.forall₂_same]
      intro b hb
      rw [parse_cons_blank, parse_write (hrest b hb)]

end Argument

/-! ## References -/

namespace Reference

/-- The arguments of a reference as they are written, between parentheses if there are any. -/
def writeArguments : List Argument → List Char
  | [] => []
  | args => ['('] ++ Argument.writeAll args ++ [')']

/-- The body of the placeholder that a reference is written as. -/
def write (r : Reference) : List Char :=
  (if r.animated then ['~'] else []) ++ r.name.toList ++ writeArguments r.args

variable {r : Reference} {args : List Argument}

theorem IsRead.isReferenceName (h : r.IsRead) : IsReferenceName r.name.toList := by
  rcases h.name with hnested | hname
  · rw [hnested]
    exact ⟨by decide, by simp [nestedName, isReferenceChar, isNameChar]⟩
  · exact .of_qualified hname

/-- What follows a name is empty or begins with a parenthesis, which no name runs over. -/
theorem writeArguments_eq (args : List Argument) :
    writeArguments args = [] ∧ args = [] ∨
      writeArguments args = '(' :: (Argument.writeAll args ++ [')']) := by
  cases args with
  | nil => exact .inl ⟨rfl, rfl⟩
  | cons a rest => exact .inr rfl

theorem parseArguments_writeArguments (name : String) (h : ∀ a ∈ args, a.IsRead) :
    parseArguments name (writeArguments args) = .ok args := by
  rcases writeArguments_eq args with ⟨hnone, rfl⟩ | hsome
  · rfl
  · have hcovered : Quoting.Covered ')' (Argument.writeAll args) :=
      (Argument.inert_writeAll h).covered ')' (by decide)
    rw [hsome, parseArguments, Quoting.cutAt_append hcovered.hides hcovered.closed]
    exact Argument.parseAll_writeAll h

theorem takeWhile_name (h : r.IsRead) :
    (r.name.toList ++ writeArguments r.args).takeWhile isReferenceChar = r.name.toList := by
  rw [List.takeWhile_append_of_pos h.isReferenceName.chars]
  rcases writeArguments_eq r.args with ⟨hnone, -⟩ | hsome
  · rw [hnone, List.takeWhile_nil, List.append_nil]
  · rw [hsome, List.takeWhile_cons_of_neg (by decide), List.append_nil]

theorem dropWhile_name (h : r.IsRead) :
    Text.trimStart ((r.name.toList ++ writeArguments r.args).dropWhile isReferenceChar) =
      writeArguments r.args := by
  rw [List.dropWhile_append_of_pos h.isReferenceName.chars]
  rcases writeArguments_eq r.args with ⟨hnone, -⟩ | hsome
  · rw [hnone]
    rfl
  · rw [hsome, List.dropWhile_cons_of_neg (by decide)]
    exact Text.trimStart_eq_self ⟨'(', rfl, by decide⟩

theorem inert_writeArguments (h : ∀ a ∈ args, a.IsRead) :
    Inert ['}'] (writeArguments args) := by
  rcases writeArguments_eq args with ⟨hnone, -⟩ | hsome
  · rw [hnone]
    exact .of_forall (by simp)
  · have hopen : Inert ['}'] ['('] := .of_forall (by simp)
    have hargs : Inert ['}'] (Argument.writeAll args) :=
      (Argument.inert_writeAll h).mono (by simp)
    have hclose : Inert ['}'] [')'] := .of_forall (by simp)
    rw [hsome]
    exact hopen.append (hargs.append hclose)

theorem IsRead.inert_write (h : r.IsRead) : Inert ['}'] r.write := by
  have htilde : Inert ['}'] (if r.animated then ['~'] else []) := by
    split <;> exact .of_forall (by simp)
  have hname : Inert ['}'] r.name.toList := h.isReferenceName.inert.mono (by simp [argumentMarks])
  exact (htilde.append hname).append (inert_writeArguments h.args)

theorem IsRead.tight_name (h : r.IsRead) : Text.Tight (r.name.toList ++ writeArguments r.args) := by
  have hname : Text.Tight r.name.toList := h.isReferenceName.tight
  rcases writeArguments_eq r.args with ⟨hnone, -⟩ | hsome
  · rwa [hnone, List.append_nil]
  · have hclose : Text.Tight [')'] := Text.tight_singleton (by decide)
    rw [hsome, ← List.cons_append, ← List.append_assoc]
    exact hname.surround hclose ('(' :: Argument.writeAll r.args)

theorem IsRead.tight_write (h : r.IsRead) : Text.Tight r.write := by
  have hname : Text.Tight (r.name.toList ++ writeArguments r.args) := h.tight_name
  rw [write, List.append_assoc]
  split
  · have htilde : Text.Tight ['~'] := Text.tight_singleton (by decide)
    simpa using htilde.surround hname []
  · simpa using hname

/-- The body of a placeholder begins with `~` exactly if the reference is animated. -/
theorem IsRead.write_cases (h : r.IsRead) :
    r.animated = true ∧ r.write = '~' :: (r.name.toList ++ writeArguments r.args) ∨
      r.animated = false ∧ r.write = r.name.toList ++ writeArguments r.args ∧
        ∀ rest, r.write ≠ '~' :: rest := by
  rw [write, List.append_assoc]
  cases r.animated with
  | true => exact .inl ⟨rfl, rfl⟩
  | false =>
      refine .inr ⟨rfl, rfl, fun rest hrest => ?_⟩
      obtain ⟨c, cs, hname⟩ := List.exists_cons_of_ne_nil h.isReferenceName.ne_nil
      obtain rfl : c = '~' := by
        rw [hname] at hrest
        exact (List.cons.inj hrest).1
      exact absurd (h.isReferenceName.chars '~' (hname ▸ List.mem_cons_self)) (by decide)

/-- A reference is read back from the body that is written for it. -/
theorem parse_write (h : r.IsRead) : parse r.write = .ok r := by
  have hname : ¬(r.name.toList ≠ nestedName.toList ∧
      isQualifiedIdentifier r.name.toList = false) := by
    rw [not_and_or, not_not, Bool.not_eq_false]
    exact h.name.imp_left (congrArg String.toList)
  rw [parse, h.tight_write.trim_eq_self]
  split
  -- With the `~` or without one, the name and the arguments are what is left.
  next animated content hread =>
    have hcontent : (animated, content) =
        (r.animated, r.name.toList ++ writeArguments r.args) := by
      rw [← hread]
      rcases h.write_cases with ⟨hr, hwrite⟩ | ⟨hr, hwrite, hplain⟩
      · rw [hwrite, hr]
        exact congrArg (Prod.mk true) (Text.trimStart_eq_self h.tight_name.first)
      · rw [hr, ← hwrite]
        split
        · next rest htilde => exact absurd htilde (hplain rest)
        · rfl
    obtain ⟨rfl, rfl⟩ := Prod.mk.inj hcontent
    dsimp only
    rw [takeWhile_name h, if_neg h.isReferenceName.ne_nil, if_neg hname, dropWhile_name h,
      parseArguments_writeArguments _ h.args, Except.map, String.ofList_toList, ← h.binding]

end Reference

end Phrasebook
