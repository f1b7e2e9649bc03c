import Phrasebook.Proofs.Source.Faults
import Phrasebook.Proofs.Source.Parsing
import Phrasebook.Proofs.Template.Expressible

/-!
# Adding a rule at the end of a source

Every name that a placeholder can refer to can be given a rule: if no block of a source
has the name, a header with the name and an item below it can be put behind the source,
which leaves what was there as it is and adds the rule (`Book.parse_append_rule`).

A source that was read is a sequence of blocks, and so is the longer one (`Laid.concat`);
whatever was open at the end of the source is closed by the header, like any other list
that is followed by a header.

There is one kind of name for which this fails.  A line that begins with a dash is taken
for an item before anything is known of its name, so that a name that begins with a dash
can be referred to but never be defined.
-/

namespace Phrasebook

/-! ## The lines of the longer source -/

/-- A source that ends with a line feed is continued by whole lines. -/
theorem exists_sourceLines_append {source : String}
    (hends : source.toList.getLast? = some '\n') :
    ∃ lines, sourceLines source = lines ++ [[]] ∧
      ∀ more, sourceLines (source ++ more) = lines ++ sourceLines more := by
  obtain ⟨text, htext⟩ := List.getLast?_eq_some_iff.mp hends
  refine ⟨Text.splitOn '\n' text, ?_, fun more => ?_⟩
  · rw [sourceLines, htext, Text.splitOn_append]
    rfl
  · have hmore : (source ++ more).toList = text ++ '\n' :: more.toList := by
      rw [String.toList_append, htext, List.append_assoc, List.singleton_append]
    rw [sourceLines, hmore, Text.splitOn_append, sourceLines]

theorem significantLines_append {source : String} (hends : source.toList.getLast? = some '\n')
    (more : String) :
    significantLines (source ++ more) = significantLines source ++ significantLines more := by
  obtain ⟨lines, hsource, hmore⟩ := exists_sourceLines_append hends
  have hblank : List.filterMap SourceLine.ofRaw? [[]] = [] := rfl
  calc
    significantLines (source ++ more)
      = (lines ++ sourceLines more).filterMap SourceLine.ofRaw? := by
        rw [← hmore]
        rfl
    _ = lines.filterMap SourceLine.ofRaw? ++ significantLines more := List.filterMap_append
    _ = (lines ++ [[]]).filterMap SourceLine.ofRaw? ++ significantLines more := by
        rw [List.filterMap_append, hblank, List.append_nil]
    _ = significantLines source ++ significantLines more := by
        rw [← hsource]
        rfl

/-- A source with a header and one item. -/
def definitionOf (name : String) : String :=
  name ++ ":\n- x\n"

section Definition

variable {name : String} (hname : isIdentifier name.toList = true)
include hname

theorem sourceLines_definitionOf :
    sourceLines (definitionOf name) = [name.toList ++ [':'], ['-', ' ', 'x'], []] := by
  have hheader : '\n' ∉ name.toList ++ [':'] := by
    simp [not_mem_of_isIdentifier hname (c := '\n') (by decide)]
  have htext : (definitionOf name).toList = (name.toList ++ [':']) ++ '\n' :: "- x\n".toList := by
    simp [definitionOf]
  rw [sourceLines, htext, Text.splitOn_append, Text.splitOn_of_not_mem hheader]
  rfl

/-- A name and a colon are a line without indentation. -/
theorem ofRaw?_header :
    SourceLine.ofRaw? (name.toList ++ [':']) = some ⟨[], name.toList ++ [':']⟩ := by
  have hforbidden : ∀ {c : Char}, isNameChar c = false → c ∉ name.toList :=
    not_mem_of_isIdentifier hname
  cases hchars : name.toList with
  | nil =>
      rw [hchars] at hname
      exact absurd hname (by decide)
  | cons c rest =>
      rw [hchars] at hforbidden
      have hfirst : ∀ {d : Char}, isNameChar d = false → c ≠ d := by
        rintro d hd rfl
        exact hforbidden hd List.mem_cons_self
      have hindent : Line.isIndent c = false := by
        simp [Line.isIndent, hfirst (d := ' ') (by decide), hfirst (d := '\t') (by decide)]
      have hline : Line.dropReturn (c :: rest ++ [':']) = c :: (rest ++ [':']) := by
        rw [Line.dropReturn, List.getLast?_concat]
        rfl
      have hmark : c ≠ '#' := hfirst (by decide)
      rw [SourceLine.ofRaw?, hline]
      simp [hindent, hmark]

theorem significantLines_definitionOf :
    significantLines (definitionOf name) =
      [⟨[], name.toList ++ [':']⟩, ⟨[], ['-', ' ', 'x']⟩] := by
  have hlines : Text.splitOn '\n' (definitionOf name).toList =
      [name.toList ++ [':'], ['-', ' ', 'x'], []] := sourceLines_definitionOf hname
  rw [significantLines, hlines, List.filterMap_cons_some (ofRaw?_header hname)]
  rfl

end Definition

/-- The rule that is defined. -/
def definedRule (name : String) : Rule :=
  ⟨name, [⟨1, [.literal "x"]⟩]⟩

/-- The list of the rule that is defined. -/
def definedList : Forest :=
  .cons ⟨1, [.literal "x"]⟩ .nil .nil

theorem reads_x : Alternative.Reads ['x'] ⟨1, [.literal "x"]⟩ :=
  ⟨['x'], 0, rfl, fun _ => rfl⟩

theorem laid_definition {name : String} (hname : isIdentifier name.toList = true)
    (hdash : name.toList.head? ≠ some '-') :
    (Block.rule name definedList).Laid (significantLines (definitionOf name)) := by
  have hpreamble : name ≠ preambleName := by
    rintro rfl
    exact absurd hname (by decide)
  have hheader : SourceLine.IsHeader ⟨[], name.toList ++ [':']⟩ name :=
    ⟨rfl, hdash, Or.inr hname, [], rfl, by simp⟩
  have hitem : SourceLine.IsItem ⟨[], ['-', ' ', 'x']⟩ 0 ['x'] := ⟨rfl, Or.inl rfl⟩
  have hlist : definedList.Laid 0 [⟨[], ['-', ' ', 'x']⟩] :=
    .plain hitem reads_x rfl (.nil 0)
  rw [significantLines_definitionOf hname]
  exact .rule hheader hpreamble (by simp [definedList]) hlist (by decide +kernel)

/-! ## The longer source as a sequence of blocks -/

theorem Block.Laid.exists_header {block : Block} {lines : List SourceLine}
    (hlaid : block.Laid lines) : ∃ line ∈ lines, line.IsHeader block.name := by
  cases hlaid with
  | preamble hheader => exact ⟨_, List.mem_cons_self, hheader⟩
  | rule hheader => exact ⟨_, List.mem_cons_self, hheader⟩

/-- One block more, with a new name, behind a sequence of blocks. -/
theorem Laid.concat {blocks : List Block} {block : Block} {lines own : List SourceLine}
    (hlaid : Laid blocks lines) (hown : block.Laid own)
    (hfresh : ∀ line ∈ lines, ¬line.IsHeader block.name) :
    Laid (blocks ++ [block]) (lines ++ own) := by
  have hnew : block.name ∉ blocks.map Block.name := by
    intro hmem
    obtain ⟨other, hother, heq⟩ := List.mem_map.mp hmem
    obtain ⟨others, hothers, hsubset⟩ := hlaid.exists_own hother
    obtain ⟨line, hline, hheader⟩ := hothers.exists_header
    exact hfresh line (hsubset hline) (heq ▸ hheader)
  obtain ⟨hnames, parts, hparts, rfl⟩ := hlaid
  refine ⟨?_, parts ++ [own], List.rel_append hparts (.cons hown .nil), by simp⟩
  rw [List.map_append, List.nodup_append]
  refine ⟨hnames, by simp, ?_⟩
  rintro name hname _ hlast rfl
  exact hnew (List.mem_singleton.mp hlast ▸ hname)

/-- A list behind the blocks of a book adds its rules. -/
theorem Book.Extends.concat {b book : Book} {blocks : List Block} (h : b.Extends blocks book)
    (name : String) (list : Forest) :
    (b.insertAll (list.rules name)).Extends (blocks ++ [.rule name list]) book where
  preamble := by
    have hentries : (blocks ++ [Block.rule name list]).flatMap Block.entries =
        blocks.flatMap Block.entries := by simp [Block.entries]
    rw [hentries, preamble_insertAll]
    exact h.preamble
  rules := by
    have hrules : (blocks ++ [Block.rule name list]).flatMap Block.rules =
        blocks.flatMap Block.rules ++ list.rules name := by simp [Block.rules]
    rw [hrules, insertAll_append, rules_insertAll, rules_insertAll, h.rules]

/-! ## The longer source line by line -/

/-- Reading more lines goes on from the draft of the lines before. -/
theorem Draft.addLines_append (d : Draft) (number : Nat) (before after : List (List Char)) :
    d.addLines number (before ++ after) =
      (d.addLines number before).bind fun d => d.addLines (number + before.length) after := by
  induction before generalizing d number with
  | nil => rfl
  | cons raw rest ih =>
      rw [List.cons_append, addLines, addLines]
      cases d.addLine number raw with
      | error e => rfl
      | ok d' =>
          have hnumber : number + 1 + rest.length = number + (raw :: rest).length := by
            rw [List.length_cons]
            omega
          rw [← hnumber]
          exact ih d' (number + 1)

/-- A name that begins with a dash is not seen when it stands in a header. -/
theorem classify_header_of_dash {name : List Char} (hname : isIdentifier name = true)
    (hdash : name.head? = some '-') (number : Nat) :
    Line.classify number 0 (name ++ [':']) = .error ⟨number, 2, .missingSpace⟩ := by
  obtain ⟨rest, rfl⟩ := List.head?_eq_some_iff.mp hdash
  have hspace : ' ' ∉ '-' :: rest := not_mem_of_isIdentifier hname (by decide)
  cases rest with
  | nil => rfl
  | cons c rest =>
      rw [List.cons_append, List.cons_append, Line.classify]
      · simp
      · rintro text heq
        obtain ⟨rfl, -⟩ := List.cons.inj heq
        exact hspace (by simp)

theorem Draft.addLine_header_of_dash {name : String} (hname : isIdentifier name.toList = true)
    (hdash : name.toList.head? = some '-') (d : Draft) (number : Nat) :
    d.addLine number (name.toList ++ [':']) = .error ⟨number, 2, .missingSpace⟩ := by
  rw [addLine, SourceLine.read_of_ofRaw?_some number (ofRaw?_header hname),
    if_neg List.not_mem_nil]
  dsimp only [List.length_nil]
  rw [classify_header_of_dash hname hdash]
  rfl

/-! ## Names that can be defined -/

/-- A reference that passes to the rule of a name, under that name, what has the name already. -/
def selfReference (name : String) : Reference :=
  ⟨name, [⟨name, .ref name, none⟩], false, none⟩

theorem isRead_selfReference {name : String} (hname : isIdentifier name.toList = true) :
    (selfReference name).IsRead := by
  have hqualified : isQualifiedIdentifier name.toList = true := by
    have hdot : qualifier ∉ name.toList := not_mem_of_isIdentifier hname (by decide)
    rw [isQualifiedIdentifier, Text.splitOn_of_not_mem hdot]
    simpa using hname
  refine ⟨Or.inr hqualified, fun a ha => ?_, rfl⟩
  obtain rfl := List.mem_singleton.mp ha
  refine ⟨hname, ?_, rfl⟩
  rintro target ⟨⟩
  exact hqualified

/-- An identifier can be referred to, name an argument and be passed as one. -/
theorem Template.parse_selfReference {name : String} (hname : isIdentifier name.toList = true)
    (column : Nat) :
    Template.parse column
        ("\x7b\x7b" ++ name ++ "(" ++ name ++ ": $" ++ name ++ ")\x7d\x7d").toList =
      .ok [.reference (selfReference name)] := by
  have hwrite : ("\x7b\x7b" ++ name ++ "(" ++ name ++ ": $" ++ name ++ ")\x7d\x7d").toList =
      Template.write [.reference (selfReference name)] := by
    simp [Template.write, Segment.write, Reference.placeholder, Reference.write,
      Reference.writeArguments, Argument.writeAll, Argument.write, Value.write, selfReference]
  rw [hwrite]
  refine parse_write (spaced_nil.cons_reference _) (fun r hr => ?_) column
  obtain rfl : r = selfReference name := by simpa using hr
  exact isRead_selfReference hname

namespace Book

variable {source : String} {b : Book} {name : String}

/-- Without a header of the name a book has no rule of the name. -/
theorem defines_eq_false_of_no_header (hname : isIdentifier name.toList = true)
    (hparse : Book.parse source = .ok b)
    (hfresh : ∀ line ∈ significantLines source, ¬line.IsHeader name) : b.defines name = false := by
  by_contra hdefined
  obtain ⟨blocks, hlaid, hrules⟩ := exists_blocks_of_parse hparse
  obtain ⟨r, hr⟩ := defines_iff.mp (Bool.not_eq_false _ ▸ hdefined)
  obtain ⟨hmem, rfl⟩ := (hrules name r).mp hr
  obtain ⟨block, hblock, hr'⟩ := List.mem_flatMap.mp hmem
  obtain ⟨own, hown, hsubset⟩ := hlaid.exists_own hblock
  obtain ⟨hmark, hwithin⟩ := hown.namedWithin hr'
  have hplain : nestingMark ∉ r.name.toList := not_mem_of_isIdentifier hname (by decide)
  have heq : block.name = r.name := hwithin.block_unique hmark hplain (.refl r.name)
  obtain ⟨line, hline, hheader⟩ := hown.exists_header
  exact hfresh line (hsubset hline) (heq ▸ hheader)

/-- A definition behind a source adds its rule. -/
theorem parse_append_of_head?_ne (hname : isIdentifier name.toList = true)
    (hdash : name.toList.head? ≠ some '-') (hparse : Book.parse source = .ok b)
    (hends : source.toList.getLast? = some '\n')
    (hfresh : ∀ line ∈ significantLines source, ¬line.IsHeader name) :
    Book.parse (source ++ definitionOf name) = .ok (b.insert (definedRule name)) := by
  obtain ⟨blocks, hlaid, hextends⟩ := parse_eq_ok_iff_extends.mp hparse
  have hlonger : Laid (blocks ++ [.rule name definedList])
      (significantLines (source ++ definitionOf name)) := by
    rw [significantLines_append hends]
    exact hlaid.concat (laid_definition hname hdash) hfresh
  have hbook : (b.insert (definedRule name)).Extends (blocks ++ [.rule name definedList]) {} :=
    hextends.concat name definedList
  exact parse_eq_ok_iff_extends.mpr ⟨_, hlonger, hbook⟩

/-- A definition behind a source is an error if its name begins with a dash. -/
theorem parse_append_of_dash (hname : isIdentifier name.toList = true)
    (hdash : name.toList.head? = some '-') (hparse : Book.parse source = .ok b)
    (hends : source.toList.getLast? = some '\n') :
    Book.parse (source ++ definitionOf name) =
      .error ⟨(sourceLines source).length, 2, .missingSpace⟩ := by
  obtain ⟨lines, hsource, hmore⟩ := exists_sourceLines_append hends
  have hread : ∃ d, Draft.addLines {} 1 lines = .ok d := by
    obtain ⟨d, hd, -⟩ := Except.bind_eq_ok_iff.mp hparse
    have hall : Draft.addLines {} 1 (lines ++ [[]]) = .ok d := hsource ▸ hd
    rw [Draft.addLines_append] at hall
    obtain ⟨d', hd', -⟩ := Except.bind_eq_ok_iff.mp hall
    exact ⟨d', hd'⟩
  obtain ⟨d, hd⟩ := hread
  have hnumber : (sourceLines source).length = 1 + lines.length := by
    rw [hsource, List.length_append, Nat.add_comm]
    rfl
  have hlines : sourceLines (source ++ definitionOf name) =
      lines ++ [name.toList ++ [':'], ['-', ' ', 'x'], []] := by
    rw [hmore, sourceLines_definitionOf hname]
  have hfails : Draft.addLines {} 1 (sourceLines (source ++ definitionOf name)) =
      .error ⟨(sourceLines source).length, 2, .missingSpace⟩ := by
    rw [hlines, Draft.addLines_append, hd, hnumber]
    show Except.bind (d.addLine _ _) _ = _
    rw [Draft.addLine_header_of_dash hname hdash]
    rfl
  show Except.bind (Draft.addLines {} 1 (sourceLines (source ++ definitionOf name))) _ = _
  rw [hfails]
  rfl

/-- Every identifier can be referred to, and in a source without a rule of that name it can be given
one at the end, unless it begins with a dash; then its header is reported as an item. -/
theorem parse_append_rule (hname : isIdentifier name.toList = true)
    (hparse : Book.parse source = .ok b) (hends : source.toList.getLast? = some '\n')
    (hfresh : ∀ line ∈ significantLines source, ¬line.IsHeader name) :
    (∀ column, Template.parse column
        ("\x7b\x7b" ++ name ++ "(" ++ name ++ ": $" ++ name ++ ")\x7d\x7d").toList =
      .ok [.reference ⟨name, [⟨name, .ref name, none⟩], false, none⟩]) ∧
    b.defines name = false ∧
    (name.toList.head? ≠ some '-' → Book.parse (source ++ (name ++ ":\n- x\n")) =
      .ok (b.insert ⟨name, [⟨1, [.literal "x"]⟩]⟩)) ∧
    (name.toList.head? = some '-' → Book.parse (source ++ (name ++ ":\n- x\n")) =
      .error ⟨(sourceLines source).length, 2, .missingSpace⟩) :=
  ⟨Template.parse_selfReference hname, defines_eq_false_of_no_header hname hparse hfresh,
    fun hdash => parse_append_of_head?_ne hname hdash hparse hends hfresh,
    fun hdash => parse_append_of_dash hname hdash hparse hends⟩

/-- A source with settings that ends in a nested list, and a name that it refers to. -/
theorem parse_append_rule_nested :
    let source := "%preamble:\n- duration: 1\nroot:\n- \x7b\x7b end-note \x7d\x7d\n" ++
      "- [3] \x7b\x7b _ \x7d\x7d\n  - a\n  - b\n"
    let b : Book := (Book.parse source).toOption.getD {}
    isIdentifier "end-note".toList = true ∧ Book.parse source = .ok b ∧
      source.toList.getLast? = some '\n' ∧
      (∀ line ∈ significantLines source, ¬line.IsHeader "end-note") ∧
      b.defines "end-note" = false ∧
      Book.parse (source ++ ("end-note" ++ ":\n- x\n")) =
        .ok (b.insert ⟨"end-note", [⟨1, [.literal "x"]⟩]⟩) := by
  intro source b
  have hname : isIdentifier "end-note".toList = true := by decide
  have hparse : Book.parse source = .ok b :=
    Except.eq_ok_getD (x := Book.parse source) (by decide +kernel) {}
  have hends : source.toList.getLast? = some '\n' := by decide +kernel
  have hfirst : ∀ line ∈ significantLines source, line.content.head? ≠ some 'e' := by
    decide +kernel
  have hfresh : ∀ line ∈ significantLines source, ¬line.IsHeader "end-note" := by
    rintro line hline ⟨-, -, -, blanks, hcontent, -⟩
    exact hfirst line hline (by rw [hcontent]; rfl)
  obtain ⟨-, hdefines, hdefined, -⟩ := parse_append_rule hname hparse hends hfresh
  exact ⟨hname, hparse, hends, hfresh, hdefines, hdefined (by decide)⟩

/-- A placeholder can refer to `-a`, but a header with that name is an error. -/
theorem parse_append_rule_dash :
    let source := "root:\n- x\n"
    isIdentifier "-a".toList = true ∧
      Template.parse 1 "\x7b\x7b-a\x7d\x7d".toList = .ok [.reference ⟨"-a", [], false, none⟩] ∧
      (∃ b, Book.parse source = .ok b) ∧ source.toList.getLast? = some '\n' ∧
      (∀ line ∈ significantLines source, ¬"-a".toList <+: line.content) ∧
      ∀ b, Book.parse (source ++ ("-a" ++ ":\n- x\n")) ≠ .ok b := by
  intro source
  have hparse : Book.parse source = .ok ((Book.parse source).toOption.getD {}) :=
    Except.eq_ok_getD (x := Book.parse source) (by decide +kernel) {}
  have hfails : Book.parse (source ++ ("-a" ++ ":\n- x\n")) = .error ⟨3, 2, .missingSpace⟩ :=
    Except.eq_error_of_error? (by decide +kernel)
  refine ⟨by decide, by decide +kernel, ⟨_, hparse⟩, by decide +kernel, by decide +kernel, ?_⟩
  intro b hb
  rw [hfails] at hb
  cases hb

end Book

end Phrasebook
