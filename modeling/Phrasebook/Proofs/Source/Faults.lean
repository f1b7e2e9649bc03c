import Phrasebook.Proofs.Source.Lines

/-!
# Where a fault is reported

Every fault of a source is reported on one of its significant lines, and the column
hangs together with what that line is.  `ParseError.Sits` lists the ways: in the
indentation, behind a dash, at the beginning of the line, at the dash of an item, and at
the text of an item or further on in it.

Some faults are found only when a list is closed, long after the lines that they are
reported on.  So what is still open keeps the places of its lines (`Draft.Placed`); each
reader keeps these places and fails only at a place of that kind, which carries over to
whole sources (`Book.sits_of_parse_eq_error`).
-/

namespace Phrasebook

/-! ## Lines by their numbers -/

/-- The lines of a source, without their line feeds. -/
def sourceLines (source : String) : List (List Char) :=
  Text.splitOn '\n' source.toList

/-- The line of a given number; lines count from one. -/
def lineNumbered (raws : List (List Char)) : Nat → Option (List Char)
  | 0 => none
  | n + 1 => raws[n]?

/-- The significant line of a given number. -/
def significantLine (raws : List (List Char)) (number : Nat) : Option SourceLine :=
  (lineNumbered raws number).bind SourceLine.ofRaw?

/-- The line of a given number is an item. -/
def ItemAt (raws : List (List Char)) (number level : Nat) (text : List Char) : Prop :=
  ∃ line, significantLine raws number = some line ∧ line.IsItem level text

variable {raws : List (List Char)} {number level : Nat} {text : List Char}

theorem significantLine_of_ofRaw? {raw : List Char} {line : SourceLine}
    (hraw : lineNumbered raws number = some raw) (hline : SourceLine.ofRaw? raw = some line) :
    significantLine raws number = some line := by
  rw [significantLine, hraw]
  exact hline

/-! ## Places -/

/-- The faults that are reported at the beginning of a line. -/
inductive SourceFault.AtStart : SourceFault → Prop
  | indentedHeader : AtStart .indentedHeader
  | unknownLine : AtStart .unknownLine
  | invalidRuleName (name : String) : AtStart (.invalidRuleName name)
  | duplicateRule (name : String) : AtStart (.duplicateRule name)
  | noAlternatives (rule : String) : AtStart (.noAlternatives rule)
  | noPositiveWeight (rule : String) : AtStart (.noPositiveWeight rule)

/-- The faults that are reported at the dash of an item. -/
inductive SourceFault.AtDash : SourceFault → Prop
  | outsideRule : AtDash .outsideRule
  | inconsistentIndentation : AtDash .inconsistentIndentation
  | nestedPreamble : AtDash .nestedPreamble

/-- The fault of an alternative that has a list nested below it but no placeholder for it, or a
placeholder but no list. -/
def Alternative.nestingFault (a : Alternative) : SourceFault :=
  if a.hasSlot then .missingNested else .unusedNested

/-- The places where a fault can be reported. -/
inductive ParseError.Sits (raws : List (List Char)) : ParseError → Prop
  | indentation {number : Nat} {line : SourceLine}
      (hline : significantLine raws number = some line) (htab : '\t' ∈ line.indentation) :
      Sits raws ⟨number, line.indentation.idxOf '\t' + 1, .tabIndentation⟩
  | dash {number : Nat} {line : SourceLine} {c : Char} {rest : List Char}
      (hline : significantLine raws number = some line)
      (hcontent : line.content = '-' :: c :: rest) (hspace : c ≠ ' ') :
      Sits raws ⟨number, line.indentation.length + 2, .missingSpace⟩
  | start {number : Nat} {line : SourceLine} {fault : SourceFault}
      (hline : significantLine raws number = some line) (hfault : fault.AtStart) :
      Sits raws ⟨number, 1, fault⟩
  | item {number level : Nat} {text : List Char} {fault : SourceFault}
      (hitem : ItemAt raws number level text) (hfault : fault.AtDash) :
      Sits raws ⟨number, level + 1, fault⟩
  | setting {number level : Nat} {text : List Char} {p : Preamble} {fault : SettingFault}
      (hitem : ItemAt raws number level text) (hadd : p.addEntry text = .error fault) :
      Sits raws ⟨number, level + Draft.itemOffset, .setting fault⟩
  | alternative {number level : Nat} {text : List Char} {e : ParseError}
      (hitem : ItemAt raws number level text)
      (hread : Alternative.parse number (level + Draft.itemOffset) text = .error e) : Sits raws e
  | nesting {number level : Nat} {text : List Char} {a : Alternative}
      (hitem : ItemAt raws number level text) (hread : a.Reads text) :
      Sits raws ⟨number, level + Draft.itemOffset, a.nestingFault⟩

/-- An open alternative that knows its place. -/
def OpenAlternative.Placed (raws : List (List Char)) (a : OpenAlternative) : Prop :=
  ∃ level text, ItemAt raws a.line level text ∧ a.column = level + Draft.itemOffset ∧
    a.alternative.Reads text

/-- An open list whose line is one of the source and whose alternatives know their places. -/
structure OpenList.Placed (raws : List (List Char)) (l : OpenList) : Prop where
  line : ∃ line, significantLine raws l.line = some line
  newest : l.newest.Placed raws
  older : ∀ a ∈ l.older, a.Placed raws

/-- What is open knows its places. -/
def Place.Placed (raws : List (List Char)) : Place → Prop
  | .outside | .preamble _ => True
  | .header _ headerLine => ∃ line, significantLine raws headerLine = some line
  | .list inner outer => inner.Placed raws ∧ ∀ l ∈ outer, l.Placed raws

/-- Everything that is open in a draft knows its places. -/
def Draft.Placed (raws : List (List Char)) (d : Draft) : Prop :=
  d.place.Placed raws

/-! ## Closing -/

theorem OpenAlternative.Placed.finish {a : OpenAlternative} (h : a.Placed raws) :
    Ends (ParseError.Sits raws) (fun _ => True) a.finish := by
  obtain ⟨level, text, hitem, hcolumn, hread⟩ := h
  have hslot : (Template.references a.alternative.template).any Reference.isNestedSlot =
      a.alternative.hasSlot := rfl
  have hfault : ParseError.Sits raws ⟨a.line, a.column, a.alternative.nestingFault⟩ := by
    rw [hcolumn]
    exact .nesting hitem hread
  unfold OpenAlternative.finish
  unfold Alternative.nestingFault at hfault
  rw [hslot]
  cases hused : a.alternative.hasSlot <;> rw [hused] at hfault <;> cases a.nested
  case true.none => exact hfault
  case false.some => exact hfault
  all_goals trivial

namespace OpenList

variable {l : OpenList}

theorem Placed.alternatives (h : l.Placed raws) : ∀ a ∈ l.alternatives, a.Placed raws := by
  intro a ha
  rcases List.mem_cons.mp (List.mem_reverse.mp ha) with rfl | hold
  · exact h.newest
  · exact h.older a hold

theorem Placed.finish (h : l.Placed raws) :
    Ends (ParseError.Sits raws) (fun _ => True) l.finish := by
  unfold OpenList.finish
  split
  · have hmembers := ends_mapM fun a ha => (h.alternatives a ha).finish
    exact hmembers.map fun _ _ => trivial
  · obtain ⟨line, hline⟩ := h.line
    exact .start hline (.noPositiveWeight l.name)

theorem Placed.close (h : l.Placed raws) (book : Book) :
    Ends (ParseError.Sits raws) (fun _ => True) (l.close book) :=
  h.finish.map fun _ _ => trivial

theorem Placed.push (h : l.Placed raws) {a : OpenAlternative} (ha : a.Placed raws) :
    (l.push a).Placed raws where
  line := h.line
  newest := ha
  older := List.forall_mem_cons.mpr ⟨h.newest, h.older⟩

theorem Placed.own (h : l.Placed raws) : l.own.Placed raws where
  line := h.line
  newest := h.newest
  older := h.older

end OpenList

theorem closeAll_ends {lists : List OpenList} (h : ∀ l ∈ lists, l.Placed raws) (book : Book) :
    Ends (ParseError.Sits raws) (fun _ => True) (closeAll book lists) := by
  induction lists generalizing book with
  | nil => trivial
  | cons l outer ih =>
      obtain ⟨hl, houter⟩ := List.forall_mem_cons.mp h
      exact (hl.close book).bind fun book _ => ih houter book

theorem Place.Placed.close {place : Place} (h : place.Placed raws) (book : Book) :
    Ends (ParseError.Sits raws) (fun _ => True) (place.close book) := by
  cases place with
  | outside => trivial
  | preamble level? => trivial
  | header name headerLine =>
      obtain ⟨line, hline⟩ := h
      exact .start hline (.noAlternatives name)
  | list inner outer => exact closeAll_ends (List.forall_mem_cons.mpr h) book

/-- The lists that are left after a dedent know their places. -/
theorem dedent_ends {inner : OpenList} {outer : List OpenList} (hinner : inner.Placed raws)
    (houter : ∀ l ∈ outer, l.Placed raws) (hitem : ItemAt raws number level text) (book : Book) :
    Ends (ParseError.Sits raws)
      (fun (_, inner, outer) => inner.Placed raws ∧ ∀ l ∈ outer, l.Placed raws)
      (dedent number level book inner outer) := by
  induction outer generalizing inner book with
  | nil =>
      unfold dedent
      split
      · exact .item hitem .inconsistentIndentation
      · exact ⟨hinner, houter⟩
  | cons next outer ih =>
      unfold dedent
      split
      · obtain ⟨hnext, hrest⟩ := List.forall_mem_cons.mp houter
        exact (hinner.close book).bind fun book _ => ih hnext hrest book
      · exact ⟨hinner, houter⟩

/-! ## Adding a line -/

theorem SourceLine.of_classify_eq_error {indent : Nat} {content : List Char} {e : ParseError}
    (h : Line.classify number indent content = .error e) :
    e = ⟨number, indent + 2, .missingSpace⟩ ∧
      ∃ c rest, content = '-' :: c :: rest ∧ c ≠ ' ' := by
  unfold Line.classify at h
  split at h
  · cases h
  · cases h
  · next hbare hspace =>
      rename_i rest
      refine ⟨(Except.error.inj h).symm, ?_⟩
      cases rest with
      | nil => exact absurd rfl hbare
      | cons c rest => exact ⟨c, rest, rfl, by rintro rfl; exact hspace rest rfl⟩
  · cases h

/-- A line that was read stands in the source, as an item if it was read as one. -/
def ReadAt (raws : List (List Char)) (number : Nat) : Option (Nat × Line) → Prop
  | none => True
  | some (level, .item text) => ItemAt raws number level text
  | some (_, .header _) => ∃ line, significantLine raws number = some line

theorem read_ends {raw : List Char} (hraw : lineNumbered raws number = some raw) :
    Ends (ParseError.Sits raws) (ReadAt raws number) (Line.read number raw) := by
  cases hkind : SourceLine.ofRaw? raw with
  | none =>
      rw [SourceLine.read_of_ofRaw?_none number hkind]
      trivial
  | some line =>
      have hline := significantLine_of_ofRaw? hraw hkind
      rw [SourceLine.read_of_ofRaw?_some number hkind]
      split
      · next htab => exact .indentation hline htab
      · next htab =>
          have hspaces := SourceLine.eq_replicate_of_ofRaw? hkind htab
          cases hclassify : Line.classify number line.indentation.length line.content with
          | error e =>
              obtain ⟨rfl, c, rest, hcontent, hc⟩ := SourceLine.of_classify_eq_error hclassify
              exact .dash hline hcontent hc
          | ok kind =>
              cases kind with
              | item text => exact ⟨line, hline, SourceLine.isItem_of_classify hspaces hclassify⟩
              | header content => exact ⟨line, hline⟩

theorem headerName_ends {line : SourceLine} (hline : significantLine raws number = some line)
    (indent : Nat) (content : List Char) :
    Ends (ParseError.Sits raws) (fun _ => True) (headerName number indent content) := by
  unfold headerName
  dsimp only
  split
  · exact .start hline .indentedHeader
  · split
    · exact .start hline .unknownLine
    · split
      · trivial
      · exact .start hline (.invalidRuleName _)

namespace Draft

theorem readAlternative_ends (hitem : ItemAt raws number level text) :
    Ends (ParseError.Sits raws) (OpenAlternative.Placed raws)
      (readAlternative number level text) := by
  unfold readAlternative
  cases hread : Alternative.parse number (level + itemOffset) text with
  | error e => exact .alternative hitem hread
  | ok a => exact ⟨level, text, hitem, rfl, Alternative.parse_eq_ok_iff.mp hread⟩

variable {d : Draft}

theorem addEntry_ends (hitem : ItemAt raws number level text) :
    Ends (ParseError.Sits raws) (Placed raws) (d.addEntry number level text) := by
  unfold addEntry
  split
  · next hadd => exact .setting hitem hadd
  · trivial

theorem addToList_ends {inner : OpenList} {outer : List OpenList} (hinner : inner.Placed raws)
    (houter : ∀ l ∈ outer, l.Placed raws) (hitem : ItemAt raws number level text) :
    Ends (ParseError.Sits raws) (Placed raws) (d.addToList number level text inner outer) := by
  have hread := readAlternative_ends hitem
  unfold addToList
  split
  · exact hread.map fun a ha => ⟨hinner.push ha, houter⟩
  · split
    · exact .item hitem .inconsistentIndentation
    · obtain ⟨line, hline, -⟩ := hitem
      exact hread.map fun a ha =>
        ⟨⟨⟨line, hline⟩, ha, by simp⟩, List.forall_mem_cons.mpr ⟨hinner.own, houter⟩⟩

theorem addItem_ends (hd : d.Placed raws) (hitem : ItemAt raws number level text) :
    Ends (ParseError.Sits raws) (Placed raws) (d.addItem number level text) := by
  obtain ⟨book, headers, place⟩ := d
  unfold addItem
  cases place with
  | outside => exact .item hitem .outsideRule
  | preamble level? =>
      cases level? with
      | none => exact addEntry_ends hitem
      | some own =>
          dsimp only
          split
          · exact .item hitem .inconsistentIndentation
          · split
            · exact addEntry_ends hitem
            · exact .item hitem .nestedPreamble
  | header name headerLine =>
      have hread := readAlternative_ends hitem
      exact hread.map fun a ha => ⟨⟨hd, ha, by simp⟩, by simp⟩
  | list inner outer =>
      have hdedent := dedent_ends hd.1 hd.2 hitem book
      exact hdedent.bind fun _ hlists => addToList_ends hlists.1 hlists.2 hitem

theorem addHeader_ends (hd : d.Placed raws) {line : SourceLine}
    (hline : significantLine raws number = some line) (indent : Nat) (content : List Char) :
    Ends (ParseError.Sits raws) (Placed raws) (d.addHeader number indent content) := by
  unfold addHeader
  refine (headerName_ends hline indent content).bind fun name _ => ?_
  split
  · exact .start hline (.duplicateRule name)
  · refine (Place.Placed.close hd d.book).map fun book _ => ?_
    unfold Placed
    dsimp only
    split
    · trivial
    · exact ⟨line, hline⟩

theorem addLine_ends (hd : d.Placed raws) {raw : List Char}
    (hraw : lineNumbered raws number = some raw) :
    Ends (ParseError.Sits raws) (Placed raws) (d.addLine number raw) := by
  refine (read_ends hraw).bind fun read hread => ?_
  match read, hread with
  | none, _ => exact hd
  | some (level, .item text), hitem => exact addItem_ends hd hitem
  | some (level, .header content), ⟨line, hline⟩ => exact addHeader_ends hd hline level content

/-- Line by line the places of what is open are kept. -/
theorem addLines_ends (hd : d.Placed raws) (done rest : List (List Char))
    (hraws : raws = done ++ rest) :
    Ends (ParseError.Sits raws) (Placed raws) (d.addLines (done.length + 1) rest) := by
  induction rest generalizing d done with
  | nil => exact hd
  | cons raw rest ih =>
      have hraw : lineNumbered raws (done.length + 1) = some raw := by simp [lineNumbered, hraws]
      refine (addLine_ends hd hraw).bind fun d' hd' => ?_
      have hrest := ih hd' (done ++ [raw]) (by simp [hraws])
      rwa [List.length_append] at hrest

end Draft

/-- Every fault of a source is reported at a place of one of these kinds. -/
theorem Book.sits_of_parse_eq_error {source : String} {e : ParseError}
    (h : Book.parse source = .error e) : e.Sits (sourceLines source) := by
  have hempty : Draft.Placed (sourceLines source) {} := trivial
  have hlines := Draft.addLines_ends hempty [] (sourceLines source) rfl
  have hparse : Ends (ParseError.Sits (sourceLines source)) (fun _ => True) (Book.parse source) :=
    hlines.bind fun d hd => Place.Placed.close hd d.book
  rwa [h] at hparse

end Phrasebook
