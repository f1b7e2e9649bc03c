import Mathlib.Data.List.Chain
import Mathlib.Data.List.DropRight
import Phrasebook.Proofs.Source.Lines
import Phrasebook.Proofs.Template.Scanning
import Phrasebook.Proofs.Template.Writing

/-!
# The templates that a text can spell

A template that was read has no empty literal, no two literals side by side and only references that
a placeholder can hold.  Not all such templates have a text: in front of two opening braces a
backslash would escape them, and a lone brace would pair with the first of them.  These are the only
exceptions (`Template.exists_text_iff`).  A run of more braces is no obstacle, for all of them but
one can be written in escaped pairs.

That nothing else is read is shown along the scanner: the literal text read so far can always have
been read in front of the rest (`Piece.yields_of_reads`).  That all the others are read is shown
along the template: the written form of each segment is scanned back in front of the written form of
the rest (`Piece.reads_scan_write`).
-/

namespace Phrasebook

/-! ## Templates as segments side by side -/

/-- Literal text that would change the meaning of two opening braces behind it: it ends in a
backslash, or in a run of exactly one opening brace. -/
def Dangles (s : List Char) : Prop :=
  s.getLast? = some '\\' ∨ (s.rtakeWhile (· == '{')).length = 1

/-- A template whose segments are what they can be by themselves: no literal is empty, none is
cut in two, and each reference is one that a placeholder holds. -/
structure Template.Regular (t : Template) : Prop where
  nonempty : ∀ s, .literal s ∈ t → s ≠ ""
  merged : ∀ s s', ¬[Segment.literal s, .literal s'] <:+: t
  references : ∀ r, .reference r ∈ t → r.IsRead

/-- No literal right before a reference would change the meaning of the braces that open it. -/
def Template.Separable (t : Template) : Prop :=
  ∀ s r, [Segment.literal s, .reference r] <:+: t → ¬Dangles s.toList

/-- Whether two segments can stand side by side. -/
def Segment.MayPrecede : Segment → Segment → Prop
  | .literal _, .literal _ => False
  | .literal s, .reference _ => ¬Dangles s.toList
  | .reference _, _ => True

/-- A template whose literals are not empty and stand where they can be told from what is behind
them. -/
structure Template.Spaced (t : Template) : Prop where
  nonempty : ∀ s, .literal s ∈ t → s ≠ ""
  chain : t.IsChain Segment.MayPrecede

theorem Template.regular_and_separable_iff {t : Template} :
    t.Regular ∧ t.Separable ↔
      t.Spaced ∧ ∀ r, .reference r ∈ t → r.IsRead := by
  constructor
  · rintro ⟨hregular, hseparable⟩
    refine ⟨⟨hregular.nonempty, ?_⟩, hregular.references⟩
    refine (List.isChain_isInfix t).imp fun a b hab => ?_
    cases a with
    | reference r => trivial
    | literal s =>
        cases b with
        | literal s' => exact hregular.merged s s' hab
        | reference r => exact hseparable s r hab
  · rintro ⟨hspaced, hreferences⟩
    have hpair : ∀ {a b}, [a, b] <:+: t → a.MayPrecede b := fun hab =>
      List.isChain_pair.mp <| List.IsChain.infix hspaced.chain hab
    refine ⟨⟨hspaced.nonempty, ?_, hreferences⟩, ?_⟩
    · exact fun _ _ hab => hpair hab
    · exact fun _ _ hab => hpair hab

/-- Literal text can have been read in front of opening braces unless it dangles. -/
theorem precedes_open_iff (s rest : List Char) :
    Piece.Precedes s.reverse ('{' :: '{' :: rest) ↔ ¬Dangles s := by
  obtain ⟨read, rfl⟩ : ∃ read, s = read.reverse := ⟨s.reverse, s.reverse_reverse.symm⟩
  rw [Dangles, List.getLast?_reverse, List.rtakeWhile, List.reverse_reverse, List.length_reverse]
  unfold Piece.Precedes
  split
  case h_1 => simp
  case h_2 more halone =>
    have hmore : more.takeWhile (· == '{') = [] := by
      cases more with
      | nil => rfl
      | cons c more => exact List.takeWhile_cons_of_neg fun hc => halone more (by simpa using hc)
    simp [hmore]
  case h_3 => simp [Piece.Opens]
  case h_4 chars _ _ _ hlone hslash =>
    cases chars with
    | nil => simp
    | cons c more =>
        have hbrace : c ≠ '{' := fun hc => hlone more (by rw [hc])
        have hbackslash : c ≠ '\\' := fun hc => hslash more (by rw [hc])
        simp [hbrace, hbackslash]

/-! ## Every text that is read is spaced -/

/-- The template of a text without placeholders. -/
def Template.ofText (s : List Char) : Template :=
  if s = [] then [] else [.literal (String.ofList s)]

/-- The segments that pieces are read as, one for each. -/
def Piece.Reads (ps : List Piece) (t : Template) : Prop :=
  List.Forall₂ (fun p s => p.toSegment = .ok s) ps t

theorem Piece.reads_ofLiteral_append_iff {read : List Char} {ps : List Piece} {t : Template} :
    Reads (ofLiteral read ++ ps) t ↔
      ∃ t', t = Template.ofText read.reverse ++ t' ∧ Reads ps t' := by
  unfold ofLiteral Template.ofText Reads
  by_cases hread : read = []
  · simp [hread]
  · rw [if_neg hread, if_neg (by simpa using hread), List.singleton_append,
      List.forall₂_cons_left_iff]
    constructor
    · rintro ⟨segment, t', hsegment, ht', rfl⟩
      obtain rfl := Except.ok.inj hsegment
      exact ⟨t', rfl, ht'⟩
    · rintro ⟨t', rfl, ht'⟩
      exact ⟨_, t', rfl, ht', rfl⟩

theorem Template.Spaced.cons_reference {t : Template} (h : t.Spaced) (r : Reference) :
    Template.Spaced (.reference r :: t) where
  nonempty s hs := h.nonempty s (by simpa using hs)
  chain := h.chain.cons fun _ _ => trivial

theorem Template.Spaced.ofText_append {t : Template} (h : t.Spaced) {s : List Char}
    (hs : ∀ b ∈ t.head?, Segment.MayPrecede (.literal (String.ofList s)) b) :
    Template.Spaced (ofText s ++ t) := by
  unfold ofText
  split
  · exact h
  · next hne =>
      refine ⟨fun s' hs' => ?_, h.chain.cons hs⟩
      rcases List.mem_cons.mp hs' with heq | hs'
      · obtain rfl := Segment.literal.inj heq
        simpa using hne
      · exact h.nonempty s' hs'

theorem Template.spaced_nil : Template.Spaced [] :=
  ⟨by simp, .nil⟩

theorem Template.Spaced.right {s t : Template} (h : Template.Spaced (s ++ t)) : t.Spaced where
  nonempty s' hs' := h.nonempty s' (List.mem_append_right s hs')
  chain := h.chain.right_of_append

theorem Template.Spaced.eq_nil {cs : List Char} {s : String} {t : Template}
    (h : Template.Spaced (ofText cs ++ .literal s :: t)) : cs = [] := by
  by_contra hne
  rw [ofText, if_neg hne] at h
  exact h.chain.rel

theorem Template.ofText_toList {s : String} (h : s ≠ "") : ofText s.toList = [.literal s] := by
  rw [ofText, if_neg (by simpa using h), String.ofList_toList]

/-- What holds of a template whose pieces are scanned from here on. -/
def Piece.Mode.Yields : Mode → List Char → Template → Prop
  | .literal read, rest, t => Precedes read rest → t.Spaced
  | .body .., _, t => ∃ r t', t = .reference r :: t' ∧ Template.Spaced t'

/-- Whatever is scanned, the literal text read so far can have been read in front of the rest. -/
theorem Piece.yields_of_reads {mode : Mode} {column : Nat} {text : List Char} {t : Template}
    (h : Reads (scan mode column text) t) : mode.Yields text t := by
  fun_induction scan mode column text generalizing t
  case case1 read column =>
    obtain ⟨t', rfl, ht'⟩ := reads_ofLiteral_append_iff.mp (by rwa [List.append_nil])
    obtain rfl := List.forall₂_nil_left_iff.mp ht'
    exact fun _ => Template.spaced_nil.ofText_append (by simp)
  case case2 ih => exact fun _ => ih h trivial
  case case3 read column rest ih =>
    obtain ⟨t', rfl, ht'⟩ := reads_ofLiteral_append_iff.mp h
    obtain ⟨r, t'', rfl, ht''⟩ := ih ht'
    intro hprecedes
    refine (ht''.cons_reference r).ofText_append fun b hb => ?_
    obtain rfl : b = .reference r := by simpa [eq_comm] using hb
    -- The braces that open the placeholder are what the literal was read in front of.
    have hdangles : ¬Dangles read.reverse := by
      rw [← precedes_open_iff, List.reverse_reverse]
      exact hprecedes
    simpa [Segment.MayPrecede] using hdangles
  case case4 read column c rest hbackslash hbrace ih =>
    intro _
    refine ih h (IsLiteral.precedes ⟨?_, ?_⟩ read)
    · rintro rfl hhead
      obtain ⟨more, rfl⟩ := List.head?_eq_some_iff.mp hhead
      exact hbrace more rfl rfl
    · rintro rfl ⟨more, rfl⟩
      exact hbackslash more rfl rfl
  case case5 =>
    obtain ⟨segment, t', hsegment, -, -⟩ := List.forall₂_cons_left_iff.mp h
    cases hsegment
  case case6 start read column rest ih =>
    obtain ⟨segment, t', hsegment, ht', rfl⟩ := List.forall₂_cons_left_iff.mp h
    have hrest : Template.Spaced t' := ih ht' trivial
    unfold toSegment at hsegment
    dsimp only at hsegment
    split at hsegment
    · cases hsegment
    · split at hsegment
      · next r hr =>
          cases hsegment
          exact ⟨r, t', rfl, hrest⟩
      · cases hsegment
  case case7 ih => exact ih h

/-! ## Every spaced template is written -/

/-- A reference as it is written in a template. -/
def Reference.placeholder (r : Reference) : List Char :=
  ['{', '{'] ++ r.write ++ ['}', '}']

/-- Literal text as it is written where it can stand. -/
def writeLiteral (s : List Char) : List Char :=
  (Piece.writeReversed s.reverse).reverse

/-- A segment as it is written. -/
def Segment.write : Segment → List Char
  | .literal s => writeLiteral s.toList
  | .reference r => r.placeholder

/-- A template as it is written. -/
def Template.write (t : Template) : List Char :=
  t.flatMap Segment.write

theorem Template.write_cons (b : Segment) (t : Template) :
    Template.write (b :: t) = b.write ++ Template.write t :=
  List.flatMap_cons

namespace Piece

theorem toSegment_slot_write {r : Reference} (h : r.IsRead) (column : Nat) :
    (slot column r.write).toSegment = .ok (.reference r) := by
  rw [toSegment, h.inert_write.apart.opening, Reference.parse_write h]
  rfl

theorem scan_placeholder {r : Reference} (h : r.IsRead) (read : List Char) (column : Nat)
    (tail : List Char) :
    scan (.literal read) column (r.placeholder ++ tail) =
      ofLiteral read ++ .slot column r.write ::
        scan (.literal []) (column + 2 + r.write.length + 2) tail := by
  have hcovered : Quoting.Covered '}' r.write := h.inert_write.covered '}' (by decide)
  calc
    scan (.literal read) column (r.placeholder ++ tail)
      = scan (.literal read) column ('{' :: '{' :: (r.write ++ '}' :: '}' :: tail)) := by
        simp [Reference.placeholder]
    _ = ofLiteral read ++
          scan (.body column .bare []) (column + 2) (r.write ++ '}' :: '}' :: tail) := by
        rw [scan]
    _ = _ := by
        rw [(closesFirst_of_covered hcovered tail).scan_body, List.reverse_nil, List.nil_append]

/-- Each literal of a spaced template can have been read in front of what is written next. -/
theorem precedes_write {s : String} {t : Template} (h : Template.Spaced (.literal s :: t)) :
    Precedes s.toList.reverse (Template.write t) := by
  cases t with
  | nil => exact precedes_of_head? (by simp [Template.write]) _
  | cons b t =>
      have hs : Segment.MayPrecede (.literal s) b := h.chain.rel
      cases b with
      | literal s' => exact hs.elim
      | reference r => exact (precedes_open_iff s.toList _).mpr hs

/-- The pieces of a written template are read as its segments, together with the literal text read
in front of it. -/
theorem reads_scan_write {t : Template} (hread : ∀ r, .reference r ∈ t → r.IsRead)
    (read : List Char) (column : Nat)
    (hspaced : Template.Spaced (Template.ofText read.reverse ++ t)) :
    Reads (scan (.literal read) column (Template.write t))
      (Template.ofText read.reverse ++ t) := by
  induction t generalizing read column with
  | nil =>
      rw [Template.write, List.flatMap_nil, scan, ← List.append_nil (ofLiteral read)]
      exact reads_ofLiteral_append_iff.mpr ⟨[], rfl, .nil⟩
  | cons b t ih =>
      replace ih := ih fun r hr => hread r (List.mem_cons_of_mem b hr)
      have htail : Template.Spaced (b :: t) := hspaced.right
      rw [Template.write_cons]
      cases b with
      | literal s =>
          -- No two literals meet, so nothing was read in front of this one.
          obtain rfl : read = [] := List.reverse_eq_nil_iff.mp hspaced.eq_nil
          have hs : Template.ofText s.toList.reverse.reverse = [.literal s] := by
            rw [List.reverse_reverse, Template.ofText_toList (htail.nonempty s List.mem_cons_self)]
          replace ih := ih s.toList.reverse
          rw [hs] at ih
          rw [Segment.write, writeLiteral, scan_writeReversed _ _ (precedes_write htail)]
          exact ih _ htail
      | reference r =>
          have hr : r.IsRead := hread r List.mem_cons_self
          rw [Segment.write, scan_placeholder hr]
          refine reads_ofLiteral_append_iff.mpr ⟨.reference r :: t, rfl, ?_⟩
          have ht : Template.Spaced t := Template.Spaced.right (s := [_]) htail
          exact .cons (toSegment_slot_write hr column) (ih [] _ ht)

end Piece

/-! ## What can be spelled -/

/-- A spaced template is read back from its written form. -/
theorem Template.parse_write {t : Template} (hspaced : t.Spaced)
    (hread : ∀ r, .reference r ∈ t → r.IsRead) (column : Nat) :
    Template.parse column t.write = .ok t :=
  Except.mapM_eq_ok_iff.mpr (Piece.reads_scan_write hread [] column hspaced)

-- Of three braces in front of a placeholder the last two are escaped.
example : Template.write [.literal "\x7b\x7b\x7b", .reference ⟨"r", [], false, none⟩] =
    "\x7b\\\x7b\x7b\x7b\x7br\x7d\x7d".toList := by decide

/-- A template is the reading of some text exactly if it is regular and no literal dangles before a
reference; text without placeholders is spelled by putting a backslash before its double braces, and
a reference by quoting the texts that it passes. -/
theorem Template.exists_text_iff :
    (∀ (t : Template) (column : Nat),
      (∃ text, Template.parse column text = .ok t) ↔ t.Regular ∧ t.Separable) ∧
    (∀ (s : List Char) (column : Nat),
      Template.parse column (Piece.escapeBraces s) = .ok (Template.ofText s)) ∧
    ∀ r : Reference, r.IsRead → ∀ column,
      Template.parse column r.placeholder = .ok [.reference r] := by
  refine ⟨fun t column => ?_, fun s column => ?_, fun r hr column => ?_⟩
  · rw [regular_and_separable_iff]
    constructor
    · rintro ⟨text, htext⟩
      have hreads : Piece.Reads (pieces column text) t := Except.mapM_eq_ok_iff.mp htext
      refine ⟨Piece.yields_of_reads hreads trivial, fun r hr => ?_⟩
      exact Template.isRead_of_parse htext r (List.mem_filterMap.mpr ⟨_, hr, rfl⟩)
    · rintro ⟨hspaced, hread⟩
      exact ⟨t.write, parse_write hspaced hread column⟩
  · rw [parse, Except.mapM_eq_ok_iff, pieces, Piece.scan_escapeBraces, List.append_nil,
      ← List.append_nil (Piece.ofLiteral _)]
    refine Piece.reads_ofLiteral_append_iff.mpr ⟨[], ?_, .nil⟩
    rw [List.reverse_reverse, List.append_nil]
  · have hspaced : Template.Spaced [.reference r] := spaced_nil.cons_reference r
    have hwrite : Template.write [.reference r] = r.placeholder := by
      rw [write_cons]
      exact List.append_nil _
    rw [← hwrite]
    refine parse_write hspaced (fun r' hr' => ?_) column
    obtain rfl : r' = r := by simpa using hr'
    exact hr

/-- A text with quotes, a backslash, a comma, parentheses and double braces is passed by quoting. -/
theorem Template.exists_text_iff_quoted :
    (⟨"greet", [⟨"who", .text "a, \"b\" \\ (c) \x7b\x7bd\x7d\x7d", none⟩,
      ⟨"by", .ref "cast.hero", none⟩], true, none⟩ : Reference).IsRead ∧
    Template.parse 1 ("\x7b\x7b~greet(who: \"a, \\\"b\\\" \\\\ (c) \\\x7b\\\x7bd\x7d\x7d\", " ++
      "by: $cast.hero)\x7d\x7d").toList =
      .ok [.reference ⟨"greet", [⟨"who", .text "a, \"b\" \\ (c) \x7b\x7bd\x7d\x7d", none⟩,
        ⟨"by", .ref "cast.hero", none⟩], true, none⟩] := by
  have hread : (⟨"greet", [⟨"who", .text "a, \"b\" \\ (c) \x7b\x7bd\x7d\x7d", none⟩,
      ⟨"by", .ref "cast.hero", none⟩], true, none⟩ : Reference).IsRead := by
    refine ⟨.inr (by decide), ?_, rfl⟩
    intro a ha
    rcases List.mem_cons.mp ha with rfl | ha
    · exact ⟨by decide, by simp, rfl⟩
    · obtain rfl := List.mem_singleton.mp ha
      exact ⟨by decide, by rintro target ⟨⟩; decide, rfl⟩
  exact ⟨hread, exists_text_iff.2.2 _ hread 1⟩

end Phrasebook
