import Phrasebook.Proofs.Source.Completion

/-!
# Reading line by line

Each line of a source takes a draft to another draft, or it is a fault.  A line is
no fault and leads to a draft that the rest of the source completes exactly if the
line and the rest complete the draft before it (`Draft.completes_cons_iff`).  What
completes the empty draft is the layout of a whole source.
-/

namespace Phrasebook

/-! ## Dedenting -/

namespace OpenList

variable {next : Book → List SourceLine → Prop}

/-- Dedenting closes lists that an item completes by leaving them. -/
theorem complete_dedent_iff
    (hnext : ∀ book line lines level text, SourceLine.IsItem line level text →
      ¬ next book (line :: lines))
    {line : SourceLine} {indent : Nat} {text : List Char} (hitem : line.IsItem indent text)
    (number : Nat) {inner : OpenList} {outer : List OpenList} {book : Book}
    {lines : List SourceLine} :
    Complete next (inner :: outer) book (line :: lines) ↔
      ∃ book' inner' outer', dedent number indent book inner outer = .ok (book', inner', outer') ∧
        Complete next (inner' :: outer') book' (line :: lines) := by
  have hleaves : ∀ level, indent < level → Leaves level (line :: lines) := by
    rintro level hless first rest heq indent' text' hitem'
    obtain ⟨rfl, rfl⟩ := List.cons.inj heq
    rwa [(hitem'.unique hitem).1]
  -- Each list that is closed is one that the item leaves, so it can be closed first.
  induction outer generalizing inner book with
  | nil =>
      unfold dedent
      by_cases hless : indent < inner.level
      · rw [if_pos hless, complete_iff_of_leaves (hleaves _ hless)]
        refine ⟨?_, fun h => ?_⟩
        · rintro ⟨book', -, hcomplete⟩
          exact absurd hcomplete (hnext book' line lines indent text hitem)
        · obtain ⟨_, _, _, herror, -⟩ := h
          cases herror
      · rw [if_neg hless]
        simp
  | cons o outer ih =>
      unfold dedent
      by_cases hless : indent < inner.level
      · simp only [if_pos hless, complete_iff_of_leaves (hleaves _ hless), ih,
          Except.bind_eq_ok_iff]
        constructor
        · rintro ⟨book₁, hclose, book', inner', outer', hdedent, hcomplete⟩
          exact ⟨book', inner', outer', ⟨book₁, hclose, hdedent⟩, hcomplete⟩
        · rintro ⟨book', inner', outer', ⟨book₁, hclose, hdedent⟩, hcomplete⟩
          exact ⟨book₁, hclose, book', inner', outer', hdedent, hcomplete⟩
      · rw [if_neg hless]
        simp

/-- Dedenting stops at a list that is indented no more than the item. -/
theorem stacked_of_dedent {number indent : Nat} {book book' : Book} {inner inner' : OpenList}
    {outer outer' : List OpenList} (hstacked : Stacked inner.level outer)
    (hdedent : dedent number indent book inner outer = .ok (book', inner', outer')) :
    Stacked inner'.level outer' ∧ inner'.level ≤ indent := by
  induction outer generalizing inner book with
  | nil =>
      unfold dedent at hdedent
      split at hdedent
      · cases hdedent
      · cases hdedent
        exact ⟨hstacked, by omega⟩
  | cons o outer ih =>
      unfold dedent at hdedent
      split at hdedent
      · obtain ⟨book₁, -, hrest⟩ := Except.bind_eq_ok_iff.mp hdedent
        exact ih hstacked.2.2 hrest
      · cases hdedent
        exact ⟨hstacked, by omega⟩

end OpenList

/-! ## Blocks -/

theorem MoreBlocks.not_item {b : Book} {headers : NameSet} (book : Book) (line : SourceLine)
    (lines : List SourceLine) (level : Nat) (text : List Char) (hitem : line.IsItem level text) :
    ¬ MoreBlocks b headers book (line :: lines) := by
  intro h
  cases h with
  | preamble hheader => exact hitem.not_isHeader _ hheader
  | rule hheader => exact hitem.not_isHeader _ hheader

theorem moreBlocks_nil_iff {b book : Book} {headers : NameSet} :
    MoreBlocks b headers book [] ↔ book = b := by
  constructor
  · intro h
    cases h
    rfl
  · rintro rfl
    exact .nil headers

theorem SourceLine.IsHeader.unique {line : SourceLine} {name name' : String}
    (hheader : line.IsHeader name) (hheader' : line.IsHeader name') : name = name' := by
  have heq : ∀ n, line.IsHeader n → headerName 0 0 line.content = .ok n := by
    rintro n ⟨-, -, hname, hcontent⟩
    exact headerName_eq_ok_iff.mpr ⟨rfl, hname, hcontent⟩
  exact Except.ok.inj ((heq name hheader).symm.trans (heq name' hheader'))

namespace Draft

/-- The draft after a header, what was open before having been closed. -/
def afterHeader (book : Book) (headers : NameSet) (name : String) (number : Nat) : Draft where
  book := book
  headers := headers.insert name
  place := if name = preambleName then .preamble none else .header name number

/-- A header begins a block. -/
theorem moreBlocks_header_iff {b book : Book} {headers : NameSet} {line : SourceLine}
    {name : String} {lines : List SourceLine} (hheader : line.IsHeader name) (number : Nat) :
    MoreBlocks b headers book (line :: lines) ↔
      name ∉ headers ∧ (afterHeader book headers name number).Completes b lines := by
  unfold Completes afterHeader
  constructor
  · intro h
    cases h with
    | preamble hheader' hfresh hentries hadd hrest =>
        obtain rfl := hheader.unique hheader'
        exact ⟨hfresh, _, _, _, _, _, by simp, rfl, hentries, hadd, hrest⟩
    | rule hheader' hname hfresh hne hlist hpos hrest =>
        obtain rfl := hheader.unique hheader'
        rw [if_neg hname]
        exact ⟨hfresh, _, _, _, _, rfl, hne, hlist, hpos, hrest⟩
  · rintro ⟨hfresh, hcompletes⟩
    by_cases hname : name = preambleName
    · rw [if_pos hname] at hcompletes
      obtain ⟨level, entries, items, tail, p, -, rfl, hentries, hadd, hrest⟩ := hcompletes
      subst hname
      exact .preamble hheader hfresh hentries hadd hrest
    · rw [if_neg hname] at hcompletes
      obtain ⟨level, list, items, tail, rfl, hne, hlist, hpos, hrest⟩ := hcompletes
      exact .rule hheader hname hfresh hne hlist hpos hrest

/-- Where no item follows, everything that is open is closed. -/
theorem completes_iff_of_no_item {b : Book} {d : Draft} {lines : List SourceLine}
    (hitem : ∀ level, Leaves level lines) :
    d.Completes b lines ↔
      ∃ book, d.place.close d.book = .ok book ∧ MoreBlocks b d.headers book lines := by
  obtain ⟨book, headers, place⟩ := d
  cases place with
  | outside => simp [Completes, Place.close]
  | preamble level? =>
      unfold Completes Place.close
      constructor
      · rintro ⟨level, entries, items, tail, p, -, rfl, hentries, hadd, hrest⟩
        cases hentries with
        | nil =>
            obtain rfl := Except.ok.inj hadd
            exact ⟨book, rfl, hrest⟩
        | cons hfirst _ =>
            exact absurd (hitem level _ _ rfl level _ hfirst) (Nat.lt_irrefl level)
      · rintro ⟨book', hbook, hrest⟩
        obtain rfl := Except.ok.inj hbook
        exact ⟨level?.getD 0, [], [], lines, book.preamble, fun n hn => by rw [hn]; rfl, rfl,
          .nil, rfl, hrest⟩
  | header name line =>
      unfold Completes Place.close
      constructor
      · rintro ⟨level, list, items, tail, rfl, hne, hlist, -, -⟩
        obtain rfl := (hitem level).eq_nil_of_laid hlist
        exact absurd hlist.eq_nil hne
      · rintro ⟨book', hbook, -⟩
        cases hbook
  | list inner outer => exact OpenList.complete_iff_of_no_item hitem

/-! ## Items -/

/-- The open lists of a draft are nested in each other. -/
def Nested (d : Draft) : Prop :=
  match d.place with
  | .list inner outer => OpenList.Stacked inner.level outer
  | _ => True

variable {b book : Book} {headers : NameSet} {line : SourceLine} {lines : List SourceLine}
  {indent : Nat} {text : List Char}

theorem readAlternative_eq_ok_iff {number : Nat} {a : OpenAlternative} :
    readAlternative number indent text = .ok a ↔
      ∃ alternative, Alternative.Reads text alternative ∧
        a = ⟨alternative, number, indent + itemOffset, none⟩ := by
  rw [readAlternative, Except.map_eq_ok_iff]
  simp only [Alternative.parse_eq_ok_iff]
  exact exists_congr fun alternative => and_congr_right fun _ => eq_comm

/-- The draft after an item that is put somewhere as an alternative. -/
theorem exists_map_readAlternative_iff {number : Nat} {put : OpenAlternative → Draft}
    {P : Draft → Prop} :
    (∃ d, (readAlternative number indent text).map put = .ok d ∧ P d) ↔
      ∃ a, Alternative.Reads text a ∧ P (put ⟨a, number, indent + itemOffset, none⟩) := by
  simp only [Except.map_eq_ok_iff, readAlternative_eq_ok_iff]
  constructor
  · rintro ⟨d, ⟨_, ⟨a, hread, rfl⟩, rfl⟩, hd⟩
    exact ⟨a, hread, hd⟩
  · rintro ⟨a, hread, hd⟩
    exact ⟨_, ⟨_, ⟨a, hread, rfl⟩, rfl⟩, hd⟩

/-- An item of the preamble is an entry with the indentation of the others. -/
theorem completes_entry_iff (hitem : line.IsItem indent text) (level? : Option Nat) :
    Completes b ⟨book, headers, .preamble level?⟩ (line :: lines) ↔
      (∀ n, level? = some n → n = indent) ∧ ∃ p, book.preamble.addEntry text = .ok p ∧
        Completes b ⟨{ book with preamble := p }, headers, .preamble (some indent)⟩ lines := by
  unfold Completes
  constructor
  · rintro ⟨level, entries, items, tail, p, hlevel, heq, hentries, hadd, hrest⟩
    cases hentries with
    | nil =>
        obtain rfl : line :: lines = tail := heq
        exact absurd hrest (MoreBlocks.not_item _ line lines indent text hitem)
    | cons hfirst hothers =>
        obtain ⟨rfl, rfl⟩ := List.cons.inj heq
        obtain ⟨rfl, rfl⟩ := hitem.unique hfirst
        obtain ⟨p', hentry, hadd'⟩ := Except.bind_eq_ok_iff.mp hadd
        exact ⟨hlevel, p', hentry, indent, _, _, tail, p, fun n hn => (Option.some.inj hn).symm,
          rfl, hothers, hadd', hrest⟩
  · rintro ⟨hindent, p', hentry, level, entries, items, tail, p, hlevel, rfl, hentries, hadd,
      hrest⟩
    obtain rfl := hlevel indent rfl
    have hadd' : (text :: entries).foldlM Preamble.addEntry book.preamble = .ok p :=
      Except.bind_eq_ok_iff.mpr ⟨p', hentry, hadd⟩
    exact ⟨indent, text :: entries, line :: items, tail, p, hindent, rfl, .cons hitem hentries,
      hadd', hrest⟩

/-- The first item below the header of a rule begins its list. -/
theorem completes_first_iff (hitem : line.IsItem indent text) (name : String)
    (headerLine number column : Nat) :
    Completes b ⟨book, headers, .header name headerLine⟩ (line :: lines) ↔
      ∃ a, Alternative.Reads text a ∧ Completes b ⟨book, headers,
        .list ⟨name, headerLine, indent, ⟨a, number, column, none⟩, []⟩ []⟩ lines := by
  unfold Completes
  constructor
  · rintro ⟨level, list, items, tail, heq, hne, hlist, hpos, hrest⟩
    cases list with
    | nil => exact absurd rfl hne
    | cons a f r =>
        obtain ⟨line', text', below, more, rfl, hitem', hread, howns, hbelow, hmore⟩ :=
          Forest.laid_cons_iff.mp hlist
        obtain ⟨rfl, rfl⟩ := List.cons.inj heq
        obtain ⟨rfl, rfl⟩ := hitem.unique hitem'
        refine ⟨a, hread, f, r, below, more, tail, _, List.append_assoc _ _ _, hbelow,
          fun _ => rfl, hmore, (OpenList.becomes_single_iff rfl).mpr ⟨howns, hpos, rfl⟩, ?_⟩
        simpa [OpenList.Complete, Forest.rules_cons, Book.insertAll_append, Book.insertAll,
          OpenList.nestedName] using hrest
  · rintro ⟨a, hread, f, r, below, more, tail, rule, rfl, hbelow, -, hmore, hbecomes, hrest⟩
    obtain ⟨howns, hpos, rfl⟩ := (OpenList.becomes_single_iff rfl).mp hbecomes
    refine ⟨indent, .cons a f r, line :: (below ++ more), tail, by simp [List.append_assoc],
      by simp, ?_, hpos, ?_⟩
    · exact Forest.laid_cons_iff.mpr
        ⟨line, text, below, more, rfl, hitem, hread, howns, hbelow, hmore⟩
    · simpa [OpenList.Complete, Forest.rules_cons, Book.insertAll_append, Book.insertAll,
        OpenList.nestedName] using hrest

/-- An item goes to the list that is left after dedenting or begins a list in it. -/
theorem completes_addToList_iff {inner : OpenList} {outer : List OpenList} {number : Nat}
    (hstacked : OpenList.Stacked inner.level outer) (hlevel : inner.level ≤ indent)
    (hitem : line.IsItem indent text) (place : Place) :
    OpenList.Complete (MoreBlocks b headers) (inner :: outer) book (line :: lines) ↔
      ∃ d, addToList ⟨book, headers, place⟩ number indent text inner outer = .ok d ∧
        d.Completes b lines := by
  unfold addToList
  by_cases hat : indent = inner.level
  · subst hat
    rw [if_pos rfl, OpenList.complete_item_at MoreBlocks.not_item hstacked hitem number
      (inner.level + itemOffset)]
    rw [exists_map_readAlternative_iff]
    exact Iff.rfl
  · have hdeeper : inner.level < indent := by omega
    rw [if_neg hat, OpenList.complete_item_deeper MoreBlocks.not_item hstacked hdeeper hitem number
      (indent + itemOffset)]
    cases hnested : inner.newest.nested with
    | some name => simp
    | none =>
        simp only [Option.isSome_none, Bool.false_eq_true, if_false, true_and]
        rw [exists_map_readAlternative_iff]
        exact Iff.rfl

/-- An item can be read exactly if it and the rest complete the draft. -/
theorem completes_item_iff {d : Draft} (hnested : d.Nested) (hitem : line.IsItem indent text)
    (number : Nat) :
    d.Completes b (line :: lines) ↔
      ∃ d', d.addItem number indent text = .ok d' ∧ d'.Completes b lines := by
  obtain ⟨book, headers, place⟩ := d
  have hentry : ∀ level?, (∀ n, level? = some n → n = indent) →
      (Completes b ⟨book, headers, .preamble level?⟩ (line :: lines) ↔
        ∃ d', addEntry ⟨book, headers, .preamble level?⟩ number indent text = .ok d' ∧
          d'.Completes b lines) := by
    intro level? hlevel
    rw [completes_entry_iff hitem, addEntry]
    dsimp only
    cases hadd : book.preamble.addEntry text with
    | error fault => simp
    | ok p =>
        simp only [Except.ok.injEq, exists_eq_left']
        exact ⟨fun h => h.2, fun h => ⟨hlevel, h⟩⟩
  cases place with
  | outside =>
      constructor
      · intro h
        exact absurd h (MoreBlocks.not_item _ line lines indent text hitem)
      · rintro ⟨d', hd', -⟩
        cases hd'
  | preamble level? =>
      cases level? with
      | none => exact hentry none (by simp)
      | some level =>
          by_cases hlevel : indent = level
          · subst hlevel
            have haddItem : addItem ⟨book, headers, .preamble (some indent)⟩ number indent text =
                addEntry ⟨book, headers, .preamble (some indent)⟩ number indent text := by
              simp [addItem]
            rw [haddItem]
            exact hentry (some indent) (by simp)
          · rw [completes_entry_iff hitem]
            refine ⟨fun h => absurd (h.1 level rfl).symm hlevel, ?_⟩
            rintro ⟨d', hd', -⟩
            unfold addItem at hd'
            dsimp only at hd'
            split at hd' <;> cases hd'
  | header name headerLine =>
      unfold addItem
      dsimp only
      rw [completes_first_iff hitem name headerLine number (indent + itemOffset),
        exists_map_readAlternative_iff]
  | list inner outer =>
      change OpenList.Complete _ _ _ _ ↔ _
      rw [OpenList.complete_dedent_iff MoreBlocks.not_item hitem number]
      simp only [addItem, Except.bind_eq_ok_iff, Prod.exists]
      constructor
      · rintro ⟨book', inner', outer', hdedent, hcomplete⟩
        obtain ⟨hstacked, hlevel⟩ := OpenList.stacked_of_dedent hnested hdedent
        obtain ⟨d', hd', hcomplete'⟩ :=
          (completes_addToList_iff hstacked hlevel hitem (.list inner outer)).mp hcomplete
        exact ⟨d', ⟨book', inner', outer', hdedent, hd'⟩, hcomplete'⟩
      · rintro ⟨d', ⟨book', inner', outer', hdedent, hd'⟩, hcomplete'⟩
        obtain ⟨hstacked, hlevel⟩ := OpenList.stacked_of_dedent hnested hdedent
        have hcomplete := (completes_addToList_iff hstacked hlevel hitem (.list inner outer)).mpr
          ⟨d', hd', hcomplete'⟩
        exact ⟨book', inner', outer', hdedent, hcomplete⟩

theorem nested_of_addToList {d d' : Draft} {number : Nat} {inner : OpenList}
    {outer : List OpenList} (hstacked : OpenList.Stacked inner.level outer)
    (hlevel : inner.level ≤ indent)
    (hadd : d.addToList number indent text inner outer = .ok d') : d'.Nested := by
  unfold addToList at hadd
  split at hadd
  · obtain ⟨a, -, rfl⟩ := Except.map_eq_ok_iff.mp hadd
    exact hstacked
  · next hat =>
      split at hadd
      · cases hadd
      · obtain ⟨a, -, rfl⟩ := Except.map_eq_ok_iff.mp hadd
        exact ⟨show inner.level < indent by omega, Option.some_ne_none _, hstacked⟩

theorem nested_of_addEntry {d d' : Draft} {number : Nat}
    (hadd : d.addEntry number indent text = .ok d') : d'.Nested := by
  unfold addEntry at hadd
  split at hadd
  · cases hadd
  · obtain rfl := Except.ok.inj hadd
    trivial

theorem nested_of_addItem {d d' : Draft} {number : Nat} (hnested : d.Nested)
    (hadd : d.addItem number indent text = .ok d') : d'.Nested := by
  obtain ⟨book, headers, place⟩ := d
  unfold addItem at hadd
  cases place with
  | outside => cases hadd
  | preamble level? =>
      cases level? with
      | none => exact nested_of_addEntry hadd
      | some level =>
          dsimp only at hadd
          split at hadd
          · cases hadd
          · split at hadd
            · exact nested_of_addEntry hadd
            · cases hadd
  | header name headerLine =>
      obtain ⟨a, -, rfl⟩ := Except.map_eq_ok_iff.mp hadd
      trivial
  | list inner outer =>
      obtain ⟨⟨book', inner', outer'⟩, hdedent, hlist⟩ := Except.bind_eq_ok_iff.mp hadd
      obtain ⟨hstacked, hlevel⟩ := OpenList.stacked_of_dedent hnested hdedent
      exact nested_of_addToList hstacked hlevel hlist

/-! ## Lines -/

/-- A header can be read exactly if everything open can be closed and its name is new. -/
theorem completes_header_iff {d : Draft} {name : String} (hheader : line.IsHeader name)
    (number : Nat) :
    d.Completes b (line :: lines) ↔
      name ∉ d.headers ∧ ∃ book, d.place.close d.book = .ok book ∧
        (afterHeader book d.headers name number).Completes b lines := by
  have hleaves : ∀ level, Leaves level (line :: lines) := by
    rintro level first rest heq indent text hitem
    obtain ⟨rfl, rfl⟩ := List.cons.inj heq
    exact absurd hheader (hitem.not_isHeader name)
  simp only [completes_iff_of_no_item hleaves, moreBlocks_header_iff hheader number]
  constructor
  · rintro ⟨book, hclose, hfresh, hrest⟩
    exact ⟨hfresh, book, hclose, hrest⟩
  · rintro ⟨hfresh, book, hclose, hrest⟩
    exact ⟨book, hclose, hfresh, hrest⟩

theorem addHeader_eq_ok_iff {d d' : Draft} {name : String} (hheader : line.IsHeader name)
    (number : Nat) :
    d.addHeader number 0 line.content = .ok d' ↔
      name ∉ d.headers ∧ ∃ book, d.place.close d.book = .ok book ∧
        d' = afterHeader book d.headers name number := by
  have hname : headerName number 0 line.content = .ok name :=
    headerName_eq_ok_iff.mpr ⟨rfl, hheader.2.2.1, hheader.2.2.2⟩
  unfold addHeader
  rw [hname]
  simp only [Except.bind]
  by_cases hfresh : name ∈ d.headers
  · rw [if_pos (Std.ExtTreeSet.contains_iff_mem.mpr hfresh)]
    simp [hfresh]
  · rw [if_neg (fun h => hfresh (Std.ExtTreeSet.contains_iff_mem.mp h)), Except.map_eq_ok_iff]
    simp only [hfresh, not_false_eq_true, true_and]
    exact exists_congr fun book => and_congr_right fun _ => eq_comm

variable {raw : List Char}

theorem addLine_of_insignificant (d : Draft) (hraw : SourceLine.ofRaw? raw = none) (number : Nat) :
    d.addLine number raw = .ok d := by
  unfold addLine
  rw [SourceLine.read_of_ofRaw?_none number hraw]
  rfl

theorem addLine_of_isItem {d : Draft} (hraw : SourceLine.ofRaw? raw = some line)
    (hitem : line.IsItem indent text) (number : Nat) :
    d.addLine number raw = d.addItem number indent text := by
  unfold addLine
  rw [SourceLine.read_of_ofRaw?_some number hraw, if_neg hitem.tab_not_mem, hitem.classify,
    hitem.length]
  rfl

theorem addLine_of_isHeader {d : Draft} (hraw : SourceLine.ofRaw? raw = some line) {name : String}
    (hheader : line.IsHeader name) (number : Nat) :
    d.addLine number raw = d.addHeader number 0 line.content := by
  unfold addLine
  rw [SourceLine.read_of_ofRaw?_some number hraw, hheader.1, if_neg List.not_mem_nil,
    SourceLine.classify_of_head?_ne _ _ hheader.head?_ne]
  rfl

/-- What can be read is an item or a header. -/
theorem isItem_or_isHeader_of_addLine {d d' : Draft} {number : Nat}
    (hraw : SourceLine.ofRaw? raw = some line) (hadd : d.addLine number raw = .ok d') :
    (∃ indent text, line.IsItem indent text) ∨ ∃ name, line.IsHeader name := by
  unfold addLine at hadd
  rw [SourceLine.read_of_ofRaw?_some number hraw] at hadd
  obtain ⟨l, hl, hstep⟩ := Except.bind_eq_ok_iff.mp hadd
  split at hl
  · cases hl
  · next htab =>
      have hspaces := SourceLine.eq_replicate_of_ofRaw? hraw htab
      obtain ⟨kind, hclassify, rfl⟩ := Except.map_eq_ok_iff.mp hl
      cases kind with
      | item text => exact Or.inl ⟨_, text, SourceLine.isItem_of_classify hspaces hclassify⟩
      | header content =>
          obtain ⟨rfl, hdash⟩ := SourceLine.head?_ne_of_classify hclassify
          obtain ⟨name, hname, -⟩ := Except.bind_eq_ok_iff.mp hstep
          obtain ⟨hindent, hvalid, blanks, hcontent, hblanks⟩ := headerName_eq_ok_iff.mp hname
          have hhead : name.toList.head? ≠ some '-' := by
            intro hhead
            apply hdash
            rw [hcontent, List.head?_append, hhead]
            rfl
          exact Or.inr ⟨name, List.length_eq_zero_iff.mp hindent, hhead, hvalid, blanks, hcontent,
            hblanks⟩

/-- What completes a draft begins with an item or a header. -/
theorem isItem_or_isHeader_of_completes {d : Draft} (hcompletes : d.Completes b (line :: lines)) :
    (∃ indent text, line.IsItem indent text) ∨ ∃ name, line.IsHeader name := by
  by_cases hitem : ∃ indent text, line.IsItem indent text
  · exact Or.inl hitem
  · have hleaves : ∀ level, Leaves level (line :: lines) := by
      rintro level first rest heq indent text hitem'
      obtain ⟨rfl, rfl⟩ := List.cons.inj heq
      exact absurd ⟨indent, text, hitem'⟩ hitem
    obtain ⟨book, -, hmore⟩ := (completes_iff_of_no_item hleaves).mp hcompletes
    cases hmore with
    | preamble hheader => exact Or.inr ⟨_, hheader⟩
    | rule hheader => exact Or.inr ⟨_, hheader⟩

/-- A line can be read exactly if it and the rest complete the draft. -/
theorem completes_cons_iff {d : Draft} (hnested : d.Nested)
    (hraw : SourceLine.ofRaw? raw = some line) (number : Nat) :
    d.Completes b (line :: lines) ↔
      ∃ d', d.addLine number raw = .ok d' ∧ d'.Completes b lines := by
  -- A line of neither kind is a fault, and it completes nothing.
  by_cases hkind : (∃ indent text, line.IsItem indent text) ∨ ∃ name, line.IsHeader name
  · rcases hkind with ⟨indent, text, hitem⟩ | ⟨name, hheader⟩
    · rw [addLine_of_isItem hraw hitem]
      exact completes_item_iff hnested hitem number
    · rw [addLine_of_isHeader hraw hheader, completes_header_iff hheader number]
      simp only [addHeader_eq_ok_iff hheader number]
      constructor
      · rintro ⟨hfresh, book, hclose, hrest⟩
        exact ⟨_, ⟨hfresh, book, hclose, rfl⟩, hrest⟩
      · rintro ⟨_, ⟨hfresh, book, hclose, rfl⟩, hrest⟩
        exact ⟨hfresh, book, hclose, hrest⟩
  · constructor
    · intro h
      exact absurd (isItem_or_isHeader_of_completes h) hkind
    · rintro ⟨d', hadd, -⟩
      exact absurd (isItem_or_isHeader_of_addLine hraw hadd) hkind

theorem nested_of_addLine {d d' : Draft} {number : Nat} (hnested : d.Nested)
    (hraw : SourceLine.ofRaw? raw = some line) (hadd : d.addLine number raw = .ok d') :
    d'.Nested := by
  rcases isItem_or_isHeader_of_addLine hraw hadd with ⟨indent, text, hitem⟩ | ⟨name, hheader⟩
  · rw [addLine_of_isItem hraw hitem] at hadd
    exact nested_of_addItem hnested hadd
  · rw [addLine_of_isHeader hraw hheader] at hadd
    obtain ⟨-, book, -, rfl⟩ := (addHeader_eq_ok_iff hheader number).mp hadd
    unfold Nested afterHeader
    by_cases hname : name = preambleName
    · rw [if_pos hname]
      trivial
    · rw [if_neg hname]
      trivial

/-- Reading to the end succeeds exactly if the lines complete the draft. -/
theorem completes_iff_addLines {d : Draft} (hnested : d.Nested) (raws : List (List Char))
    (number : Nat) :
    d.Completes b (raws.filterMap SourceLine.ofRaw?) ↔
      ∃ d', d.addLines number raws = .ok d' ∧ d'.place.close d'.book = .ok b := by
  -- That the open lists are nested is kept from line to line.
  induction raws generalizing d number with
  | nil =>
      have hleaves : ∀ level, Leaves level [] := by
        rintro level first rest heq
        cases heq
      rw [List.filterMap_nil, completes_iff_of_no_item hleaves]
      simp only [moreBlocks_nil_iff, exists_eq_right, addLines, Except.ok.injEq, exists_eq_left']
  | cons raw rest ih =>
      simp only [addLines, Except.bind_eq_ok_iff]
      cases hraw : SourceLine.ofRaw? raw with
      | none =>
          rw [List.filterMap_cons_none hraw, ih hnested (number + 1),
            addLine_of_insignificant d hraw number]
          simp only [Except.ok.injEq, exists_eq_left']
      | some line =>
          rw [List.filterMap_cons_some hraw, completes_cons_iff hnested hraw number]
          constructor
          · rintro ⟨d₁, hadd, hrest⟩
            have hnested₁ := nested_of_addLine hnested hraw hadd
            obtain ⟨d', hlines, hclose⟩ := (ih hnested₁ (number + 1)).mp hrest
            exact ⟨d', ⟨d₁, hadd, hlines⟩, hclose⟩
          · rintro ⟨d', ⟨d₁, hadd, hlines⟩, hclose⟩
            have hnested₁ := nested_of_addLine hnested hraw hadd
            exact ⟨d₁, hadd, (ih hnested₁ (number + 1)).mpr ⟨d', hlines, hclose⟩⟩

end Draft

end Phrasebook
