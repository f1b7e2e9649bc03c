import Mathlib.Data.List.TakeWhile
import Phrasebook.Proofs.Outcome
import Phrasebook.Proofs.Source.Layout

/-!
# What a single line is read as

The readers of lines, headers and alternatives know where they stand, so that they
can say where a fault is.  Whether they succeed, and with what, does not depend on
it: a line is read as an item exactly if it is one (`SourceLine.IsItem.classify` and
`SourceLine.isItem_of_classify`), as a header exactly if it is one
(`headerName_eq_ok_iff`), and the text of an item as an alternative exactly if it is
the text of that alternative (`Alternative.parse_eq_ok_iff`).
-/

namespace Phrasebook

/-! ## Columns do not matter -/

namespace Piece

/-- A piece without its column. -/
def unplaced : Piece → Piece
  | text s => text s
  | slot _ body => slot 0 body
  | unclosed _ => unclosed 0

/-- What is being read, without its column. -/
def Mode.unplaced : Mode → Mode
  | literal read => literal read
  | body _ q read => body 0 q read

theorem map_unplaced_scan (mode : Mode) (column : Nat) (text : List Char) :
    ∀ mode' column', mode.unplaced = mode'.unplaced →
      (scan mode column text).map unplaced = (scan mode' column' text).map unplaced := by
  fun_induction scan mode column text
  all_goals
    intro mode' column' hmode
    obtain read' | ⟨start', q', read'⟩ := mode' <;> cases hmode
  case case1 => simp [scan]
  case case2 ih => simpa [scan] using ih _ _ rfl
  case case3 ih => simpa [scan] using ih (.body column' .bare []) (column' + 2) rfl
  case case4 h₁ h₂ ih =>
    rw [scan]
    · exact ih _ _ rfl
    · exact h₁
    · exact h₂
  case case5 => simp [scan, unplaced]
  case case6 ih => simpa [scan, unplaced] using ih _ _ rfl
  case case7 h ih =>
    rw [scan]
    · exact ih _ _ rfl
    · exact h

theorem toSegment_unplaced {p : Piece} {s : Segment} :
    p.unplaced.toSegment = .ok s ↔ p.toSegment = .ok s := by
  cases p with
  | text t => rfl
  | unclosed column => simp [unplaced, toSegment]
  | slot column body =>
      unfold unplaced toSegment
      dsimp only
      split
      · simp
      · split <;> simp

end Piece

/-- Where a template begins has no influence on what it is read as. -/
theorem Template.parse_eq_ok_iff {column column' : Nat} {text : List Char} {t : Template} :
    Template.parse column text = .ok t ↔ Template.parse column' text = .ok t := by
  have hunplaced : ∀ c, Template.parse c text = .ok t ↔
      List.Forall₂ (fun p s => p.toSegment = .ok s) ((pieces c text).map Piece.unplaced) t := by
    intro c
    rw [List.forall₂_map_left_iff, Template.parse, Except.mapM_eq_ok_iff]
    simp only [Piece.toSegment_unplaced]
  rw [hunplaced, hunplaced column']
  unfold pieces
  rw [Piece.map_unplaced_scan _ _ _ _ column' rfl]

theorem Alternative.parse_eq_ok_iff {line column : Nat} {text : List Char} {a : Alternative} :
    Alternative.parse line column text = .ok a ↔ a.Reads text := by
  unfold Alternative.parse Alternative.Reads
  cases hcut : cutWeight text with
  | error raw => simp
  | ok cut =>
      obtain ⟨weight, body, skipped⟩ := cut
      dsimp only
      constructor
      · intro h
        cases htemplate : Template.parse (column + skipped) body with
        | error e => rw [htemplate] at h; cases h
        | ok t =>
            rw [htemplate] at h
            obtain rfl : ⟨weight, t⟩ = a := Except.ok.inj h
            exact ⟨body, skipped, rfl, fun c => Template.parse_eq_ok_iff.mp htemplate⟩
      · rintro ⟨body', skipped', heq, htemplate⟩
        obtain ⟨rfl, rfl, rfl⟩ : weight = a.weight ∧ body = body' ∧ skipped = skipped' := by
          simpa using heq
        rw [htemplate]

/-! ## Lines -/

namespace SourceLine

variable {raw : List Char} {line : SourceLine}

theorem read_of_ofRaw?_none (number : Nat) (hraw : ofRaw? raw = none) :
    Line.read number raw = .ok none := by
  unfold ofRaw? at hraw
  unfold Line.read
  dsimp only at hraw ⊢
  split at hraw
  · next hblank => rw [if_pos hblank]
  · cases hraw

theorem read_of_ofRaw?_some (number : Nat) (hraw : ofRaw? raw = some line) :
    Line.read number raw =
      if '\t' ∈ line.indentation then
        .error ⟨number, line.indentation.idxOf '\t' + 1, .tabIndentation⟩
      else (Line.classify number line.indentation.length line.content).map fun l =>
        some (line.indentation.length, l) := by
  unfold ofRaw? at hraw
  unfold Line.read
  dsimp only at hraw ⊢
  split at hraw
  · cases hraw
  · next hblank =>
      obtain rfl := Option.some.inj hraw
      rw [if_neg hblank]

theorem eq_replicate_of_ofRaw? (hraw : ofRaw? raw = some line) (htab : '\t' ∉ line.indentation) :
    line.indentation = List.replicate line.indentation.length ' ' := by
  unfold ofRaw? at hraw
  dsimp only at hraw
  split at hraw
  · cases hraw
  · obtain rfl := Option.some.inj hraw
    refine List.eq_replicate_iff.mpr ⟨rfl, fun c hc => ?_⟩
    have hindent := List.mem_takeWhile_imp hc
    simp only [Line.isIndent, Bool.or_eq_true, beq_iff_eq] at hindent
    rcases hindent with hspace | rfl
    · exact hspace
    · exact absurd hc htab

theorem IsItem.tab_not_mem {level : Nat} {text : List Char} (hitem : line.IsItem level text) :
    '\t' ∉ line.indentation := by
  rw [hitem.1]
  intro h
  exact absurd (List.eq_of_mem_replicate h) (by decide)

theorem IsItem.length {level : Nat} {text : List Char} (hitem : line.IsItem level text) :
    line.indentation.length = level := by
  rw [hitem.1, List.length_replicate]

theorem IsItem.classify {level : Nat} {text : List Char} (hitem : line.IsItem level text)
    (number indent : Nat) : Line.classify number indent line.content = .ok (.item text) := by
  rcases hitem.2 with hcontent | ⟨hcontent, rfl⟩ <;> rw [hcontent] <;> rfl

/-- A line that is an item is one in one way only. -/
theorem IsItem.unique {level level' : Nat} {text text' : List Char}
    (hitem : line.IsItem level text) (hitem' : line.IsItem level' text') :
    level = level' ∧ text = text' := by
  refine ⟨hitem.length.symm.trans hitem'.length, ?_⟩
  have heq := (hitem.classify 0 0).symm.trans (hitem'.classify 0 0)
  exact Line.item.inj (Except.ok.inj heq)

/-- The text of a header has no dash in front. -/
theorem IsHeader.head?_ne {name : String} (hheader : line.IsHeader name) :
    line.content.head? ≠ some '-' := by
  obtain ⟨-, hdash, hname, blanks, hcontent, -⟩ := hheader
  rw [hcontent]
  cases hchars : name.toList with
  | nil => simp
  | cons c rest => rw [hchars] at hdash; simpa using hdash

theorem IsItem.not_isHeader {level : Nat} {text : List Char} (hitem : line.IsItem level text)
    (name : String) : ¬ line.IsHeader name := by
  intro hheader
  rcases hitem.2 with hcontent | ⟨hcontent, -⟩
  all_goals exact hheader.head?_ne (by rw [hcontent]; rfl)

theorem classify_of_head?_ne (number indent : Nat) {content : List Char}
    (hdash : content.head? ≠ some '-') :
    Line.classify number indent content = .ok (.header content) := by
  unfold Line.classify
  split
  · simp at hdash
  · simp at hdash
  · simp at hdash
  · rfl

/-- A line that is read as an item is one. -/
theorem isItem_of_classify {number indent : Nat} {text : List Char}
    (hindentation : line.indentation = List.replicate line.indentation.length ' ')
    (hclassify : Line.classify number indent line.content = .ok (.item text)) :
    line.IsItem line.indentation.length text := by
  refine ⟨hindentation, ?_⟩
  unfold Line.classify at hclassify
  split at hclassify
  · next hcontent =>
      obtain rfl := Line.item.inj (Except.ok.inj hclassify)
      exact Or.inr ⟨hcontent, rfl⟩
  · next hcontent =>
      obtain rfl := Line.item.inj (Except.ok.inj hclassify)
      exact Or.inl hcontent
  · cases hclassify
  · cases hclassify

theorem head?_ne_of_classify {number indent : Nat} {content text : List Char}
    (hclassify : Line.classify number indent content = .ok (.header text)) :
    text = content ∧ content.head? ≠ some '-' := by
  unfold Line.classify at hclassify
  split at hclassify
  · cases hclassify
  · cases hclassify
  · cases hclassify
  · next h₁ h₂ h₃ =>
      refine ⟨(Line.header.inj (Except.ok.inj hclassify)).symm, fun hdash => ?_⟩
      cases content with
      | nil => cases hdash
      | cons c rest =>
          obtain rfl : c = '-' := by simpa using hdash
          exact h₃ rest rfl

end SourceLine

/-! ## Headers -/

theorem trimEnd_append_colon {name blanks : List Char}
    (hblanks : ∀ c ∈ blanks, Text.isBlank c = true) :
    Text.trimEnd (name ++ ':' :: blanks) = name ++ [':'] := by
  unfold Text.trimEnd
  rw [List.reverse_append, List.reverse_cons, List.append_assoc,
    List.dropWhile_append_of_pos (by simpa using hblanks)]
  simp [Text.isBlank]

/-- Only blanks are trimmed from the end of a text. -/
theorem exists_blanks_of_trimEnd (text : List Char) :
    ∃ blanks, text = Text.trimEnd text ++ blanks ∧ ∀ c ∈ blanks, Text.isBlank c = true := by
  refine ⟨(text.reverse.takeWhile Text.isBlank).reverse, ?_, ?_⟩
  · unfold Text.trimEnd
    rw [← List.reverse_append, List.takeWhile_append_dropWhile, List.reverse_reverse]
  · intro c hc
    exact List.mem_takeWhile_imp (List.mem_reverse.mp hc)

theorem headerName_eq_ok_iff {number indent : Nat} {content : List Char} {name : String} :
    headerName number indent content = .ok name ↔
      indent = 0 ∧ (name = preambleName ∨ isIdentifier name.toList = true) ∧
        ∃ blanks, content = name.toList ++ ':' :: blanks ∧
          ∀ c ∈ blanks, Text.isBlank c = true := by
  unfold headerName
  dsimp only
  constructor
  · intro h
    split at h
    · cases h
    · next hindent =>
        split at h
        · cases h
        · next hcolon =>
            split at h
            · next hname =>
                obtain rfl := Except.ok.inj h
                obtain ⟨blanks, hcontent, hblanks⟩ := exists_blanks_of_trimEnd content
                have hlast := List.dropLast_append_getLast? ':' (not_ne_iff.mp hcolon)
                refine ⟨by omega, ?_, blanks, ?_, hblanks⟩
                · rw [String.toList_ofList]
                  refine hname.imp_left fun heq => ?_
                  rw [heq, String.ofList_toList]
                · rw [String.toList_ofList]
                  calc
                    content = Text.trimEnd content ++ blanks := hcontent
                    _ = ((Text.trimEnd content).dropLast ++ [':']) ++ blanks := by rw [hlast]
                    _ = _ := by rw [List.append_assoc]; rfl
            · cases h
  · rintro ⟨rfl, hname, blanks, rfl, hblanks⟩
    rw [trimEnd_append_colon hblanks, if_neg (Nat.lt_irrefl 0),
      if_neg (by simp), List.dropLast_concat, if_pos, String.ofList_toList]
    exact hname.imp_left fun heq => by rw [heq]

end Phrasebook
