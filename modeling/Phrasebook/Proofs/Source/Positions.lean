import Phrasebook.Proofs.Source.Alternatives
import Phrasebook.Proofs.Source.Faults
import Phrasebook.Proofs.Template.Malformed

/-!
# Faults point into the source

Whatever is wrong with a source, the line of the fault is one of its lines, and not an
empty one.  The column is at most one more than the number of its characters, with one
exception: the text of an item is taken to begin three characters behind its indentation,
so that a fault of the missing text of a dash alone is reported one column further
(`Book.parse_error_points`).

A faulty placeholder is reported exactly: at the opening braces of the first placeholder
of the alternative that is malformed, whatever stands in front of them
(`Book.placeholder_error_points`).
-/

namespace Phrasebook

/-! ## The characters of a line -/

/-- All characters of a line. -/
def SourceLine.chars (line : SourceLine) : List Char :=
  line.indentation ++ line.content

variable {raws : List (List Char)} {text : List Char} {line : SourceLine} {number level : Nat}

theorem exists_raw_of_significantLine (h : significantLine raws number = some line) :
    ∃ raw, 1 ≤ number ∧ raws[number - 1]? = some raw ∧ SourceLine.ofRaw? raw = some line := by
  obtain ⟨raw, hraw, hline⟩ := Option.bind_eq_some_iff.mp h
  cases number with
  | zero => cases hraw
  | succ n => exact ⟨raw, Nat.succ_pos n, hraw, hline⟩

theorem SourceLine.chars_of_ofRaw? {raw : List Char} (h : ofRaw? raw = some line) :
    line.chars = Line.dropReturn raw ∧ line.content ≠ [] := by
  unfold ofRaw? at h
  dsimp only at h
  split at h
  · cases h
  · next hblank =>
      obtain rfl := Option.some.inj h
      exact ⟨List.takeWhile_append_dropWhile, fun hnil => hblank (Or.inl hnil)⟩

/-- An item is a dash alone, or two characters and its text stand behind its indentation. -/
theorem SourceLine.IsItem.length_chars (h : line.IsItem level text) :
    (line.content = ['-'] ∧ text = [] ∧ line.chars.length = level + 1) ∨
      (line.content ≠ ['-'] ∧ line.chars = List.replicate level ' ' ++ '-' :: ' ' :: text) := by
  rcases h with ⟨hindentation, hcontent | ⟨hcontent, htext⟩⟩
  · refine Or.inr ⟨by simp [hcontent], ?_⟩
    rw [chars, hindentation, hcontent]
  · refine Or.inl ⟨hcontent, htext, ?_⟩
    rw [chars, hindentation, hcontent]
    simp

/-! ## Columns inside an alternative -/

theorem cutWeight_nil : cutWeight [] = .ok (1, [], 0) := rfl

/-- The text of an alternative whose template has a malformed placeholder, the first one standing
behind `before`.  The weight of the alternative, or the backslash of an escaped bracket, is
`mark`. -/
def Alternative.Malformed (text mark before rest : List Char) (fault : PlaceholderFault) : Prop :=
  ∃ weight body, cutWeight text = .ok (weight, body, mark.length) ∧ text = mark ++ body ∧
    Template.FirstMalformed body before rest fault

theorem Alternative.Malformed.split {mark before rest : List Char} {fault : PlaceholderFault}
    (h : Malformed text mark before rest fault) : text = mark ++ before ++ '{' :: '{' :: rest := by
  obtain ⟨weight, body, -, rfl, hfirst⟩ := h
  rw [hfirst.split, List.append_assoc]

/-- An alternative fails at its weight or at its first malformed placeholder. -/
theorem Alternative.cases_of_parse_eq_error {column : Nat} {e : ParseError}
    (h : Alternative.parse number column text = .error e) :
    (text ≠ [] ∧ ∃ weight, e = ⟨number, column, .invalidWeight weight⟩) ∨
      ∃ mark before rest fault, Malformed text mark before rest fault ∧
        e = ⟨number, column + mark.length + before.length, .placeholder fault⟩ := by
  unfold Alternative.parse at h
  split at h
  · next raw hcut =>
      cases h
      refine Or.inl ⟨?_, _, rfl⟩
      rintro rfl
      rw [cutWeight_nil] at hcut
      cases hcut
  · next weight body skipped hcut =>
      split at h
      · next fault htemplate =>
          cases h
          obtain ⟨-, ⟨mark, rfl⟩, rfl⟩ := weight_and_suffix_of_cutWeight hcut
          rw [List.length_append, Nat.add_sub_cancel] at hcut htemplate
          obtain ⟨before, rest, hfirst, hcolumn⟩ := Template.parse_eq_error_iff.mp htemplate
          refine Or.inr ⟨mark, before, rest, _, ⟨weight, body, hcut, rfl, hfirst⟩, ?_⟩
          rw [hcolumn]
      · cases h

theorem Alternative.Reads.hasSlot_nil {a : Alternative} (h : a.Reads []) : a.hasSlot = false := by
  obtain ⟨weight, template⟩ := a
  obtain ⟨body, skipped, hcut, hparse⟩ := h
  rw [cutWeight_nil] at hcut
  obtain ⟨-, rfl, -⟩ : 1 = weight ∧ [] = body ∧ 0 = skipped := by simpa using hcut
  obtain rfl : [] = template := Except.ok.inj (hparse 0)
  rfl

/-! ## Columns in a line -/

namespace ParseError

/-- A fault of the missing text of an item that is a dash alone. -/
def OnBareDash (e : ParseError) (line : SourceLine) : Prop :=
  line.content = ['-'] ∧ (e.fault = .setting .unkeyed ∨ e.fault = .unusedNested)

/-- The column of a fault lies in its line or right behind it; the missing text of a dash alone is
taken to stand behind a space that is missing as well. -/
structure PointsInto (e : ParseError) (line : SourceLine) : Prop where
  pos : 1 ≤ e.column
  inside : ¬e.OnBareDash line → e.column ≤ line.chars.length + 1
  beyond : e.OnBareDash line → e.column = line.chars.length + 2

theorem pointsInto_of_le {e : ParseError} (hpos : 1 ≤ e.column)
    (hle : e.column ≤ line.chars.length + 1)
    (hfault : e.fault ≠ .setting .unkeyed ∧ e.fault ≠ .unusedNested) : e.PointsInto line where
  pos := hpos
  inside _ := hle
  beyond hdash := absurd hdash.2 (not_or.mpr hfault)

/-- A fault at the text of an item points into the item unless the text is missing. -/
theorem pointsInto_of_item {fault : SourceFault} (hitem : line.IsItem level text)
    (hmissing : text = [] → fault = .setting .unkeyed ∨ fault = .unusedNested) :
    PointsInto ⟨number, level + Draft.itemOffset, fault⟩ line := by
  rcases hitem.length_chars with ⟨hdash, hnil, hlength⟩ | ⟨hdash, hchars⟩
  · have hbare : OnBareDash ⟨number, level + Draft.itemOffset, fault⟩ line :=
      ⟨hdash, hmissing hnil⟩
    exact ⟨Nat.succ_pos _, absurd hbare, fun _ => by simp [Draft.itemOffset, hlength]⟩
  · have hbare : ¬OnBareDash ⟨number, level + Draft.itemOffset, fault⟩ line := fun h => hdash h.1
    refine ⟨Nat.succ_pos _, fun _ => ?_, fun h => absurd h hbare⟩
    rw [hchars]
    simp [Draft.itemOffset]

theorem Sits.pointsInto {e : ParseError} (h : e.Sits raws) :
    ∃ line, significantLine raws e.line = some line ∧ e.PointsInto line := by
  cases h with
  | @indentation number line hline htab =>
      refine ⟨line, hline, pointsInto_of_le (Nat.succ_pos _) ?_ ⟨nofun, nofun⟩⟩
      have hindex := List.idxOf_lt_length_iff.mpr htab
      simp only [SourceLine.chars, List.length_append]
      omega
  | @dash number line c rest hline hcontent hspace =>
      refine ⟨line, hline, pointsInto_of_le (Nat.succ_pos _) ?_ ⟨nofun, nofun⟩⟩
      simp [SourceLine.chars, hcontent]
  | @start number line fault hline hfault =>
      refine ⟨line, hline, pointsInto_of_le (Nat.le_refl 1) (Nat.le_add_left 1 _) ?_⟩
      cases hfault <;> exact ⟨nofun, nofun⟩
  | @item number level text fault hitem hfault =>
      obtain ⟨line, hline, hitem⟩ := hitem
      refine ⟨line, hline, pointsInto_of_le (Nat.succ_pos _) ?_ ?_⟩
      · simp [SourceLine.chars, hitem.length]
      · cases hfault <;> exact ⟨nofun, nofun⟩
  | @setting number level text p fault hitem hadd =>
      obtain ⟨line, hline, hitem⟩ := hitem
      refine ⟨line, hline, pointsInto_of_item hitem ?_⟩
      rintro rfl
      obtain rfl : .unkeyed = fault := Except.error.inj hadd
      exact Or.inl rfl
  | @alternative number level text e hitem hread =>
      obtain ⟨line, hline, hitem⟩ := hitem
      rcases Alternative.cases_of_parse_eq_error hread with
        ⟨hne, weight, rfl⟩ | ⟨mark, before, rest, fault, hmalformed, rfl⟩
      · exact ⟨line, hline, pointsInto_of_item hitem fun hnil => absurd hnil hne⟩
      · obtain rfl := hmalformed.split
        refine ⟨line, hline, pointsInto_of_le (by simp [Draft.itemOffset]; omega) ?_
          ⟨nofun, nofun⟩⟩
        rcases hitem.length_chars with ⟨-, hnil, -⟩ | ⟨-, hchars⟩
        · simp at hnil
        · rw [hchars]
          simp [Draft.itemOffset]
          omega
  | @nesting number level text a hitem hread =>
      obtain ⟨line, hline, hitem⟩ := hitem
      refine ⟨line, hline, pointsInto_of_item hitem ?_⟩
      rintro rfl
      refine Or.inr ?_
      rw [Alternative.nestingFault, hread.hasSlot_nil]
      rfl

end ParseError

/-! ## Faults of a source -/

/-- A fault is reported in a line of the source or right behind it, and one column further if it is
about the missing text of a dash alone. -/
theorem Book.parse_error_points {source : String} {e : ParseError}
    (h : Book.parse source = .error e) :
    1 ≤ e.line ∧ e.line ≤ (sourceLines source).length ∧
      ∃ raw line, (sourceLines source)[e.line - 1]? = some raw ∧
        SourceLine.ofRaw? raw = some line ∧ line.chars = Line.dropReturn raw ∧ line.chars ≠ [] ∧
        1 ≤ e.column ∧ (¬e.OnBareDash line → e.column ≤ line.chars.length + 1) ∧
        (e.OnBareDash line → e.column = line.chars.length + 2) := by
  obtain ⟨line, hline, hpos, hinside, hbeyond⟩ := (Book.sits_of_parse_eq_error h).pointsInto
  obtain ⟨raw, hnumber, hraw, hkind⟩ := exists_raw_of_significantLine hline
  obtain ⟨hchars, hcontent⟩ := SourceLine.chars_of_ofRaw? hkind
  obtain ⟨hlt, -⟩ := List.getElem?_eq_some_iff.mp hraw
  exact ⟨hnumber, by omega, raw, line, hraw, hkind, hchars,
    List.append_ne_nil_of_right_ne_nil _ hcontent, hpos, hinside, hbeyond⟩

/-- That a list is missing below an item is found only when the next item follows, and still
reported at the text of the item. -/
theorem Book.parse_error_points_missing_list :
    let source := "root:\n  - [2] \x7b\x7b _ \x7d\x7d\r\n  # nested below?\n  - y\n"
    let e : ParseError := ⟨2, 5, .missingNested⟩
    Book.parse source = .error e ∧ 1 ≤ e.line ∧ e.line ≤ (sourceLines source).length ∧
      (sourceLines source)[e.line - 1]? = some "  - [2] \x7b\x7b _ \x7d\x7d\r".toList ∧
      1 ≤ e.column ∧ e.column ≤ "  - [2] \x7b\x7b _ \x7d\x7d".length + 1 := by
  intro source e
  have hparse : Book.parse source = .error e := Except.eq_error_of_error? (by decide +kernel)
  have hthere : (sourceLines source)[e.line - 1]? =
      some "  - [2] \x7b\x7b _ \x7d\x7d\r".toList := by decide +kernel
  obtain ⟨hfirst, hlast, raw, line, hraw, -, hchars, -, hpos, hinside, -⟩ :=
    Book.parse_error_points hparse
  obtain rfl := Option.some.inj (hthere.symm.trans hraw)
  rw [hchars] at hinside
  refine ⟨hparse, hfirst, hlast, hraw, hpos, hinside fun hdash => ?_⟩
  rcases hdash.2 with h | h <;> cases h

/-- The text of an entry that is a dash alone would begin behind the end of its line. -/
theorem Book.parse_error_points_bare_dash :
    let source := "%preamble:\n-\n"
    let e : ParseError := ⟨2, 3, .setting .unkeyed⟩
    Book.parse source = .error e ∧ (sourceLines source)[e.line - 1]? = some ['-'] ∧
      Line.dropReturn ['-'] = ['-'] ∧ ¬e.column ≤ ['-'].length + 1 := by
  intro source e
  have hparse : Book.parse source = .error e := Except.eq_error_of_error? (by decide +kernel)
  exact ⟨hparse, by decide +kernel, by decide, by decide⟩

/-- A faulty placeholder is reported at the opening braces of the first malformed one. -/
theorem Book.placeholder_error_points {source : String} {e : ParseError}
    {fault : PlaceholderFault} (h : Book.parse source = .error e)
    (hfault : e.fault = .placeholder fault) :
    1 ≤ e.line ∧ ∃ raw line level text mark before rest,
      (sourceLines source)[e.line - 1]? = some raw ∧ SourceLine.ofRaw? raw = some line ∧
      line.IsItem level text ∧ Alternative.Malformed text mark before rest fault ∧
      Line.dropReturn raw =
        List.replicate level ' ' ++ ['-', ' '] ++ mark ++ before ++ ['{', '{'] ++ rest ∧
      e.column = (List.replicate level ' ' ++ ['-', ' '] ++ mark ++ before).length + 1 := by
  cases Book.sits_of_parse_eq_error h with
  | indentation => cases hfault
  | dash => cases hfault
  | start _ hstart => cases hstart <;> cases hfault
  | item _ hdash => cases hdash <;> cases hfault
  | setting => cases hfault
  | nesting =>
      unfold Alternative.nestingFault at hfault
      dsimp only at hfault
      split at hfault <;> cases hfault
  | @alternative number level text e hitem hread =>
      obtain ⟨line, hline, hitem⟩ := hitem
      rcases Alternative.cases_of_parse_eq_error hread with
        ⟨-, weight, rfl⟩ | ⟨mark, before, rest, fault', hmalformed, rfl⟩
      · cases hfault
      · obtain rfl := SourceFault.placeholder.inj hfault
        obtain ⟨raw, hnumber, hraw, hkind⟩ := exists_raw_of_significantLine hline
        refine ⟨hnumber, raw, line, level, text, mark, before, rest, hraw, hkind, hitem,
          hmalformed, ?_, ?_⟩
        · rw [← (SourceLine.chars_of_ofRaw? hkind).1]
          obtain rfl := hmalformed.split
          rcases hitem.length_chars with ⟨-, hnil, -⟩ | ⟨-, hchars⟩
          · simp at hnil
          · simp [hchars]
        · simp [Draft.itemOffset]
          omega

/-- Indentation, a weight, a character of two bytes, escaped braces and a placeholder with quoted
closing braces stand in front of the one that is malformed, and one more comes behind it. -/
theorem Book.placeholder_error_points_third :
    let source := "a:\n  - x\n  - [1.5] é \\\x7b\x7b\x7b\x7b b(c: \"\x7d\x7d\") \x7d\x7d " ++
      "\x7b\x7b d(: 1) \x7d\x7d\x7b\x7b\r\n"
    let e : ParseError := ⟨3, 33, .placeholder (.invalidArgumentName "")⟩
    Book.parse source = .error e ∧ 1 ≤ e.line ∧
      ∃ raw line level text mark before rest,
        (sourceLines source)[e.line - 1]? = some raw ∧ SourceLine.ofRaw? raw = some line ∧
        line.IsItem level text ∧
        Alternative.Malformed text mark before rest (.invalidArgumentName "") ∧
        Line.dropReturn raw =
          List.replicate level ' ' ++ ['-', ' '] ++ mark ++ before ++ ['{', '{'] ++ rest ∧
        e.column = (List.replicate level ' ' ++ ['-', ' '] ++ mark ++ before).length + 1 := by
  intro source e
  have hparse : Book.parse source = .error e := Except.eq_error_of_error? (by decide +kernel)
  exact ⟨hparse, Book.placeholder_error_points hparse rfl⟩

end Phrasebook
