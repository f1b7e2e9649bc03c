import Mathlib.Data.List.TakeWhile
import Phrasebook.Proofs.Checked.Access
import Phrasebook.Source.Line

/-!
# Reading a line by offsets

The indentation of a line is what is left of it when its content is taken away at the end, and both
the indentation and the place of a tab in it are counted in bytes.  Spaces and tabs take one byte,
so the count is one of characters, and the reader ends as `Line.read` does
(`Checked.answers_line`).
-/

namespace Phrasebook

namespace Text

variable {cs : List Char}

/-- Where each character takes one byte, bytes count characters. -/
theorem byteSize_eq_length (h : ∀ c ∈ cs, c.utf8Size = 1) : byteSize cs = cs.length := by
  induction cs with
  | nil => rfl
  | cons c rest ih =>
      obtain ⟨hc, hrest⟩ := List.forall_mem_cons.mp h
      rw [byteSize_cons, hc, ih hrest, List.length_cons, Nat.add_comm]

theorem findOffset_eq_idxOf (h : ∀ c ∈ cs, c.utf8Size = 1) (mark : Char) :
    findOffset (· == mark) cs = if mark ∈ cs then some (cs.idxOf mark) else none := by
  induction cs with
  | nil => rfl
  | cons c rest ih =>
      obtain ⟨hc, hrest⟩ := List.forall_mem_cons.mp h
      rw [findOffset, ih hrest, List.idxOf_cons, hc]
      by_cases hmark : c = mark
      · rw [hmark, beq_self_eq_true, if_pos rfl, if_pos List.mem_cons_self]
        rfl
      · have hmem : mark ∈ c :: rest ↔ mark ∈ rest := by
          rw [List.mem_cons, or_iff_right (Ne.symm hmark)]
        rw [beq_false_of_ne hmark, if_neg Bool.false_ne_true]
        by_cases hrest : mark ∈ rest
        · rw [if_pos hrest, if_pos (hmem.mpr hrest), Option.map_some, Nat.add_comm]
          rfl
        · rw [if_neg hrest, if_neg fun h => hrest (hmem.mp h)]
          rfl

end Text

namespace Checked

/-- The indentation of a line and what it holds, if it is significant. -/
def line (number : Nat) (raw : List Char) : Checked ParseError (Option (Nat × Line)) :=
  let line := Line.dropReturn raw
  let content := line.dropWhile Line.isIndent
  if content = [] ∨ content.head? = some '#' then return none
  else do
    let indentation ← sliceBefore line content
    match Text.findOffset (· == '\t') indentation with
    | some offset => throw ⟨number, offset + 1, .tabIndentation⟩
    | none =>
      let indent := Text.byteSize indentation
      if content = ['-'] ∨ ['-', ' '].isPrefixOf content then
        return some (indent, .item (((Text.cutOffset content 2).map (·.2)).getD []))
      else if content.head? = some '-' then throw ⟨number, indent + 2, .missingSpace⟩
      else return some (indent, .header content)

/-- A dash at the end of a line is an item without text, as its text would begin behind the end. -/
theorem answers_classify (number indent : Nat) (content : List Char) :
    (if content = ['-'] ∨ ['-', ' '].isPrefixOf content then
        return some (indent, .item (((Text.cutOffset content 2).map (·.2)).getD []))
      else if content.head? = some '-' then throw ⟨number, indent + 2, .missingSpace⟩
      else return some (indent, .header content) :
      Checked ParseError (Option (Nat × Line))).Answers
      ((Line.classify number indent content).map fun l => some (indent, l)) := by
  fun_cases Line.classify number indent content
  case case1 => exact answers_pure _
  case case2 text =>
    have htext : Text.cutOffset ('-' :: ' ' :: text) 2 = some (['-', ' '], text) :=
      Text.cutOffset_append ['-', ' '] text
    have hitem : ['-', ' '].isPrefixOf ('-' :: ' ' :: text) = true :=
      List.isPrefixOf_iff_prefix.mpr (List.prefix_append ['-', ' '] text)
    rw [if_pos (Or.inr hitem), htext]
    exact answers_pure _
  case case3 rest hbare hspace =>
    have hno : ¬('-' :: rest = ['-'] ∨ ['-', ' '].isPrefixOf ('-' :: rest)) := by
      rw [List.isPrefixOf_iff_prefix]
      rintro (heq | ⟨more, heq⟩)
      · exact hbare (List.cons.inj heq).2
      · exact hspace more (List.cons.inj heq).2.symm
    rw [if_neg hno, if_pos (show ('-' :: rest).head? = some '-' from rfl)]
    exact answers_throw _
  case case4 hbare hspace hdash =>
    have hno : ¬(content = ['-'] ∨ ['-', ' '].isPrefixOf content) := by
      rw [List.isPrefixOf_iff_prefix]
      rintro (rfl | ⟨more, rfl⟩)
      · exact hbare rfl
      · exact hspace more rfl
    have hhead : content.head? ≠ some '-' := by
      intro hhead
      obtain ⟨rest, rfl⟩ := List.head?_eq_some_iff.mp hhead
      exact hdash rest rfl
    rw [if_neg hno, if_neg hhead]
    exact answers_pure _

theorem answers_line (number : Nat) (raw : List Char) :
    (line number raw).Answers (Line.read number raw) := by
  unfold line Line.read
  dsimp only
  generalize Line.dropReturn raw = line
  split
  · exact answers_pure none
  · have hone : ∀ c ∈ line.takeWhile Line.isIndent, c.utf8Size = 1 := by
      intro c hc
      have hindent := List.mem_takeWhile_imp hc
      simp only [Line.isIndent, Bool.or_eq_true, beq_iff_eq] at hindent
      rcases hindent with rfl | rfl <;> rfl
    have hindentation := answers_sliceBefore (ε := ParseError) (line.takeWhile Line.isIndent)
      (line.dropWhile Line.isIndent)
    rw [List.takeWhile_append_dropWhile] at hindentation
    refine hindentation.bind_ok ?_
    rw [Text.findOffset_eq_idxOf hone, Text.byteSize_eq_length hone]
    by_cases htab : '\t' ∈ line.takeWhile Line.isIndent
    · rw [if_pos htab, if_pos htab]
      exact answers_throw _
    · rw [if_neg htab, if_neg htab]
      exact answers_classify number _ _

end Checked

end Phrasebook
