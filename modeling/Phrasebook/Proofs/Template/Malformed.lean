import Phrasebook.Proofs.Outcome
import Phrasebook.Proofs.Template.Scanning
import Phrasebook.Template.Reader

/-!
# The first malformed placeholder

Reading a template fails exactly if one of its placeholders is malformed, and then with the fault
of the first such placeholder, at the column of its opening braces (`Template.parse_eq_error_iff`).

What the first one is needs no scanner to say.  The text in front of it is a sequence of escaped
braces, of other literal characters and of whole placeholders that can be read (`Template.Passes`),
and the text behind its opening braces shows its fault (`Template.Malformed`): nothing closes it,
or its body, which runs to the first two closing braces outside quotes, holds opening braces or
cannot be read.
-/

namespace Phrasebook

/-! ## What a text begins with -/

namespace Piece

/-- A text begins with escaped braces, with a placeholder or with another literal character. -/
theorem literal_cases (text : List Char) :
    text = [] ∨ (∃ rest, text = '\\' :: '{' :: '{' :: rest) ∨
      (∃ rest, text = '{' :: '{' :: rest) ∨ ∃ c rest, text = c :: rest ∧ IsLiteral c rest := by
  cases text with
  | nil => exact Or.inl rfl
  | cons c rest =>
      by_cases hescape : c = '\\' ∧ Opens rest
      · obtain ⟨rfl, more, rfl⟩ := hescape
        exact Or.inr (Or.inl ⟨more, rfl⟩)
      · by_cases hopen : c = '{' ∧ rest.head? = some '{'
        · obtain ⟨rfl, hhead⟩ := hopen
          obtain ⟨more, rfl⟩ := List.head?_eq_some_iff.mp hhead
          exact Or.inr (Or.inr (Or.inl ⟨more, rfl⟩))
        · exact Or.inr (Or.inr (Or.inr ⟨c, rest, rfl,
            fun hc hhead => hopen ⟨hc, hhead⟩, fun hc hrest => hescape ⟨hc, hrest⟩⟩))

/-- Literal text is never at fault. -/
theorem mapM_ofLiteral_append_eq_error_iff {read : List Char} {ps : List Piece}
    {e : Located PlaceholderFault} :
    (ofLiteral read ++ ps).mapM toSegment = .error e ↔ ps.mapM toSegment = .error e := by
  unfold ofLiteral
  split
  · rfl
  · rw [List.singleton_append, Except.mapM_cons_eq_error_iff]
    simp [toSegment]

end Piece

/-! ## Placeholders -/

theorem hasOpening_iff_infix {cs : List Char} : hasOpening cs = true ↔ ['{', '{'] <:+: cs := by
  fun_induction hasOpening cs
  case case1 rest => simpa using (List.prefix_append ['{', '{'] rest).isInfix
  case case2 c rest halone ih =>
    rw [ih, List.infix_cons_iff, iff_or_self]
    rintro ⟨more, hmore⟩
    obtain ⟨rfl, rfl⟩ := List.cons.inj hmore
    exact absurd rfl (halone more rfl)
  case case3 => simp

namespace Template

/-- The body of a placeholder that can be read. -/
def CanRead (body : List Char) : Prop :=
  ¬['{', '{'] <:+: body ∧ ∃ r, Reference.parse body = .ok r

/-- What is wrong with the placeholder whose opening braces `rest` follows. -/
inductive Malformed (rest : List Char) : PlaceholderFault → Prop
  | unclosed (h : ∀ body behind, ¬Piece.Closes .bare rest body behind) : Malformed rest .unclosed
  | nested {body behind : List Char} (hbody : Piece.ClosesFirst .bare rest body behind)
      (hopening : ['{', '{'] <:+: body) : Malformed rest .nested
  | body {body behind : List Char} {fault : PlaceholderFault}
      (hbody : Piece.ClosesFirst .bare rest body behind) (hopening : ¬['{', '{'] <:+: body)
      (hfault : Reference.parse body = .error fault) : Malformed rest fault

/-- A text that is passed on the way to `rest`: literal text and placeholders that can be read. -/
inductive Passes (rest : List Char) : List Char → Prop
  | nil : Passes rest []
  | escaped {before : List Char} (hbefore : Passes rest before) :
      Passes rest ('\\' :: '{' :: '{' :: before)
  | literal {c : Char} {before : List Char} (hliteral : Piece.IsLiteral c (before ++ rest))
      (hbefore : Passes rest before) : Passes rest (c :: before)
  | placeholder {body before : List Char}
      (hbody : Piece.ClosesFirst .bare (body ++ '}' :: '}' :: (before ++ rest)) body
        (before ++ rest))
      (hread : CanRead body) (hbefore : Passes rest before) :
      Passes rest ('{' :: '{' :: (body ++ '}' :: '}' :: before))

/-- A text in two parts around the opening braces of its first malformed placeholder. -/
structure FirstMalformed (text before rest : List Char) (fault : PlaceholderFault) : Prop where
  split : text = before ++ '{' :: '{' :: rest
  passes : Passes ('{' :: '{' :: rest) before
  malformed : Malformed rest fault

/-- A placeholder can be read unless it is malformed. -/
theorem canRead_or_malformed (rest : List Char) :
    (∃ body behind, Piece.ClosesFirst .bare rest body behind ∧ CanRead body) ∨
      ∃ fault, Malformed rest fault := by
  by_cases hcloses : ∃ body behind, Piece.Closes .bare rest body behind
  · obtain ⟨_, _, hcloses⟩ := hcloses
    obtain ⟨body, behind, hbody⟩ := hcloses.exists_closesFirst
    by_cases hopening : ['{', '{'] <:+: body
    · exact Or.inr ⟨_, .nested hbody hopening⟩
    · cases hparse : Reference.parse body with
      | ok r => exact Or.inl ⟨body, behind, hbody, hopening, r, hparse⟩
      | error fault => exact Or.inr ⟨fault, .body hbody hopening hparse⟩
  · exact Or.inr ⟨_, .unclosed fun body behind hbody => hcloses ⟨body, behind, hbody⟩⟩

end Template

namespace Piece

open Template

theorem toSegment_slot_eq_ok_iff {start : Nat} {body : List Char} :
    (∃ s, (slot start body).toSegment = .ok s) ↔ CanRead body := by
  rw [toSegment, CanRead, ← hasOpening_iff_infix]
  cases hasOpening body with
  | true => simp
  | false => cases Reference.parse body <;> simp

theorem toSegment_slot_eq_error_iff {start column : Nat} {body : List Char}
    {fault : PlaceholderFault} :
    (slot start body).toSegment = .error ⟨column, fault⟩ ↔
      start = column ∧ ((['{', '{'] <:+: body ∧ .nested = fault) ∨
        (¬['{', '{'] <:+: body ∧ Reference.parse body = .error fault)) := by
  rw [toSegment, ← hasOpening_iff_infix]
  cases hasOpening body with
  | true => simp
  | false => cases Reference.parse body <;> simp

/-- A malformed placeholder is reported at its opening braces. -/
theorem mapM_scan_of_malformed {rest : List Char} {fault : PlaceholderFault}
    (h : Malformed rest fault) (read : List Char) (column : Nat) :
    (scan (.literal read) column ('{' :: '{' :: rest)).mapM toSegment =
      .error ⟨column, fault⟩ := by
  rw [scan, mapM_ofLiteral_append_eq_error_iff]
  cases h with
  | unclosed hunclosed =>
      rw [scan_body_of_unclosed hunclosed]
      rfl
  | nested hbody hopening =>
      rw [hbody.scan_body, Except.mapM_cons_eq_error_iff]
      exact Or.inl (toSegment_slot_eq_error_iff.mpr ⟨rfl, Or.inl ⟨hopening, rfl⟩⟩)
  | body hbody hopening hfault =>
      rw [hbody.scan_body, Except.mapM_cons_eq_error_iff]
      exact Or.inl (toSegment_slot_eq_error_iff.mpr ⟨rfl, Or.inr ⟨hopening, hfault⟩⟩)

/-- Placeholders that can be read do not keep the reader from what comes behind them. -/
theorem mapM_scan_slot_eq_error_iff {rest body behind : List Char}
    (hbody : ClosesFirst .bare rest body behind) (hread : CanRead body) {read : List Char}
    {column : Nat} {e : Located PlaceholderFault} :
    (scan (.literal read) column ('{' :: '{' :: rest)).mapM toSegment = .error e ↔
      (scan (.literal []) (column + 2 + body.length + 2) behind).mapM toSegment = .error e := by
  obtain ⟨s, hs⟩ := toSegment_slot_eq_ok_iff.mpr hread
  rw [scan, mapM_ofLiteral_append_eq_error_iff, hbody.scan_body, List.reverse_nil,
    List.nil_append, Except.mapM_cons_eq_error_iff, hs]
  simp

/-- What is passed only moves the column at which the rest is read. -/
theorem mapM_scan_of_passes {before rest : List Char} {fault : PlaceholderFault}
    (hpasses : Passes ('{' :: '{' :: rest) before) (hmalformed : Malformed rest fault)
    (read : List Char) (column : Nat) :
    (scan (.literal read) column (before ++ '{' :: '{' :: rest)).mapM toSegment =
      .error ⟨column + before.length, fault⟩ := by
  induction hpasses generalizing read column with
  | nil => exact mapM_scan_of_malformed hmalformed read column
  | @escaped before _ ih =>
      rw [List.cons_append, List.cons_append, List.cons_append, scan, ih]
      simp only [List.length_cons]
      congr 2
      omega
  | @literal c before hliteral _ ih =>
      rw [List.cons_append, scan_cons hliteral, ih]
      simp only [List.length_cons]
      congr 2
      omega
  | @placeholder body before hbody hread _ ih =>
      have hsplit : '{' :: '{' :: (body ++ '}' :: '}' :: before) ++ '{' :: '{' :: rest =
          '{' :: '{' :: (body ++ '}' :: '}' :: (before ++ '{' :: '{' :: rest)) := by simp
      rw [hsplit, mapM_scan_slot_eq_error_iff hbody hread, ih]
      simp only [List.length_cons, List.length_append]
      congr 2
      omega

/-- A failing reader has passed everything in front of the first malformed placeholder. -/
theorem exists_firstMalformed_of_mapM_scan {text read : List Char} {column : Nat}
    {e : Located PlaceholderFault}
    (h : (scan (.literal read) column text).mapM toSegment = .error e) :
    ∃ before rest, FirstMalformed text before rest e.fault ∧
      e.column = column + before.length := by
  induction hlength : text.length using Nat.strongRecOn generalizing text read column with
  | ind n ih =>
      subst hlength
      obtain rfl | ⟨rest, rfl⟩ | ⟨rest, rfl⟩ | ⟨c, rest, rfl, hliteral⟩ := literal_cases text
      · rw [scan, ← List.append_nil (ofLiteral read), mapM_ofLiteral_append_eq_error_iff] at h
        cases h
      · rw [scan] at h
        obtain ⟨before, after, ⟨rfl, hpasses, hmalformed⟩, hcolumn⟩ := ih _ (by simp; omega) h rfl
        refine ⟨'\\' :: '{' :: '{' :: before, after, ⟨rfl, hpasses.escaped, hmalformed⟩, ?_⟩
        rw [hcolumn]
        simp only [List.length_cons]
        omega
      · obtain ⟨body, behind, hbody, hread⟩ | ⟨fault, hmalformed⟩ := canRead_or_malformed rest
        · rw [mapM_scan_slot_eq_error_iff hbody hread] at h
          obtain rfl := hbody.split
          obtain ⟨before, after, ⟨rfl, hpasses, hmalformed⟩, hcolumn⟩ :=
            ih _ (by simp; omega) h rfl
          refine ⟨'{' :: '{' :: (body ++ '}' :: '}' :: before), after,
            ⟨by simp, hpasses.placeholder hbody hread, hmalformed⟩, ?_⟩
          rw [hcolumn]
          simp only [List.length_cons, List.length_append]
          omega
        · obtain rfl : ⟨column, fault⟩ = e :=
            Except.error.inj ((mapM_scan_of_malformed hmalformed read column).symm.trans h)
          exact ⟨[], rest, ⟨rfl, .nil, hmalformed⟩, rfl⟩
      · rw [scan_cons hliteral] at h
        obtain ⟨before, after, ⟨rfl, hpasses, hmalformed⟩, hcolumn⟩ := ih _ (by simp) h rfl
        refine ⟨c :: before, after, ⟨rfl, hpasses.literal hliteral, hmalformed⟩, ?_⟩
        rw [hcolumn]
        simp only [List.length_cons]
        omega

end Piece

/-- Reading a template fails exactly at its first malformed placeholder. -/
theorem Template.parse_eq_error_iff {column : Nat} {text : List Char}
    {e : Located PlaceholderFault} :
    Template.parse column text = .error e ↔
      ∃ before rest, FirstMalformed text before rest e.fault ∧
        e.column = column + before.length := by
  constructor
  · exact Piece.exists_firstMalformed_of_mapM_scan
  · rintro ⟨before, rest, ⟨rfl, hpasses, hmalformed⟩, hcolumn⟩
    obtain ⟨_, fault⟩ := e
    obtain rfl := hcolumn
    exact Piece.mapM_scan_of_passes hpasses hmalformed [] column

end Phrasebook
