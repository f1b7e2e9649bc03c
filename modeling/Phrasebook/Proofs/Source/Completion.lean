import Phrasebook.Proofs.Source.Lines

/-!
# What can still follow

Reading goes line by line, and after some lines there are lists that are still open.
`Draft.Completes` says which further lines make a whole source of what was read so
far, and which book they make of it: each open list can get a list nested below its
newest alternative and more alternatives, from the innermost one to the outermost,
and then new blocks begin.

A line can be read exactly if what follows completes the draft
(`Draft.completes_cons_iff`), which holds for every line and every draft.  So the
statement about whole sources follows by going through the lines once.
-/

namespace Phrasebook

private theorem forall₂_concat_left_iff {α β : Type} {P : α → β → Prop} {as : List α} {a : α}
    {bs : List β} :
    List.Forall₂ P (as ++ [a]) bs ↔
      ∃ before b, List.Forall₂ P as before ∧ P a b ∧ bs = before ++ [b] := by
  constructor
  · intro h
    have hbefore := List.forall₂_take_append bs as [a] h.flip
    have hlast := List.forall₂_drop_append bs as [a] h.flip
    obtain ⟨b, hb, hdrop⟩ : ∃ b, P a b ∧ bs.drop as.length = [b] := by
      rw [List.forall₂_cons_right_iff] at hlast
      obtain ⟨b, rest, hb, hrest, hdrop⟩ := hlast
      rw [List.forall₂_nil_right_iff] at hrest
      exact ⟨b, hb, by rw [hdrop, hrest]⟩
    exact ⟨bs.take as.length, b, hbefore.flip, hb, by rw [← hdrop, List.take_append_drop]⟩
  · rintro ⟨before, b, hbefore, hb, rfl⟩
    exact List.rel_append hbefore (.cons hb .nil)

/-! ## Lists of items -/

namespace Forest

/-- The lines of a list nested below an item, or no lines if there is none. -/
def Below (level : Nat) (f : Forest) (lines : List SourceLine) : Prop :=
  (f = nil ∧ lines = []) ∨
    ∃ deeper, level < deeper ∧ f ≠ nil ∧ f.Laid deeper lines ∧ 0 < Choice.total f.weights

theorem laid_cons_iff {level : Nat} {a : Alternative} {nested rest : Forest}
    {lines : List SourceLine} :
    Laid level (cons a nested rest) lines ↔
      ∃ line text below more, lines = line :: (below ++ more) ∧ line.IsItem level text ∧
        a.Reads text ∧ (nested ≠ nil ↔ a.hasSlot = true) ∧ nested.Below level below ∧
        rest.Laid level more := by
  constructor
  · intro h
    cases h with
    | plain hitem hread hslot hrest =>
        exact ⟨_, _, [], _, rfl, hitem, hread, by simp [hslot], Or.inl ⟨rfl, rfl⟩, hrest⟩
    | owner hitem hread hslot hdeeper hne hnested hpos hrest =>
        exact ⟨_, _, _, _, rfl, hitem, hread, by simp [hslot, hne],
          Or.inr ⟨_, hdeeper, hne, hnested, hpos⟩, hrest⟩
  · rintro ⟨line, text, below, more, rfl, hitem, hread, howns, hbelow, hrest⟩
    rcases hbelow with ⟨rfl, rfl⟩ | ⟨deeper, hdeeper, hne, hnested, hpos⟩
    · exact .plain hitem hread (by simpa using howns) hrest
    · exact .owner hitem hread (howns.mp hne) hdeeper hne hnested hpos hrest

/-- The first line of a list is an item of the list. -/
theorem Laid.head {level : Nat} {f : Forest} {line : SourceLine} {lines : List SourceLine}
    (h : f.Laid level (line :: lines)) : ∃ text, line.IsItem level text := by
  cases h with
  | plain hitem => exact ⟨_, hitem⟩
  | owner hitem => exact ⟨_, hitem⟩

/-- The first line of a nested list is an item that is indented deeper. -/
theorem Below.head {level : Nat} {f : Forest} {line : SourceLine} {lines : List SourceLine}
    (h : f.Below level (line :: lines)) :
    ∃ deeper text, level < deeper ∧ line.IsItem deeper text := by
  rcases h with ⟨-, hnil⟩ | ⟨deeper, hdeeper, -, hlaid, -⟩
  · cases hnil
  · obtain ⟨text, hitem⟩ := hlaid.head
    exact ⟨deeper, text, hdeeper, hitem⟩

theorem Below.eq_nil {level : Nat} {f : Forest} (h : f.Below level []) : f = nil := by
  rcases h with ⟨hnil, -⟩ | ⟨deeper, -, -, hlaid, -⟩
  · exact hnil
  · cases hlaid
    rfl

theorem Laid.eq_nil {level : Nat} {f : Forest} (h : f.Laid level []) : f = .nil := by
  cases h
  rfl

theorem rules_nil (owner : String) : rules owner nil = [] := rfl

theorem rules_cons (owner : String) (a : Alternative) (nested rest : Forest) :
    rules owner (cons a nested rest) =
      nested.rules (nestedRuleName owner 0) ++ rest.nestedRules owner 1 ++
        [⟨owner, (cons a nested rest).alternatives owner 0⟩] := rfl

theorem nestedRules_cons (a : Alternative) (nested rest : Forest) (owner : String) (i : Nat) :
    (cons a nested rest).nestedRules owner i =
      nested.rules (nestedRuleName owner i) ++ rest.nestedRules owner (i + 1) := rfl

end Forest

/-! ## Alternatives -/

theorem Segment.bindNested_of_isNestedSlot {name : String} {s : Segment}
    (h : ∀ r, s = .reference r → r.isNestedSlot = false) : s.bindNested name = s := by
  cases s with
  | literal s => rfl
  | reference r => simp [bindNested, h r rfl]

/-- Without a reference to a nested list there is nothing to name. -/
theorem Alternative.bindNested_of_hasSlot {name : String} {a : Alternative}
    (h : a.hasSlot = false) : a.bindNested name = a := by
  have htemplate : a.template.map (Segment.bindNested name) = a.template := by
    rw [hasSlot, List.any_eq_false] at h
    refine (List.map_congr_left fun s hs => ?_).trans (List.map_id _)
    apply Segment.bindNested_of_isNestedSlot
    intro r hr
    have hmem : r ∈ Template.references a.template := Template.mem_references_iff.mpr (hr ▸ hs)
    exact Bool.eq_false_iff.mpr (h r hmem)
  rw [bindNested, htemplate]

/-- An open alternative that owns a list of the given name, unless the list is empty. -/
def OpenAlternative.withNested (name : String) (a : OpenAlternative) : Forest → OpenAlternative
  | .nil => a
  | .cons .. => { a with nested := some name }

theorem OpenAlternative.finish_withNested {name : String} {a : OpenAlternative} {f : Forest}
    {a' : Alternative} (hnone : a.nested = none) :
    (a.withNested name f).finish = .ok a' ↔
      (f ≠ .nil ↔ a.alternative.hasSlot = true) ∧ a' = a.alternative.bindNested name := by
  have hslot : (Template.references a.alternative.template).any Reference.isNestedSlot =
      a.alternative.hasSlot := rfl
  cases f with
  | nil =>
      unfold withNested finish
      rw [hnone]
      dsimp only
      rw [hslot]
      cases hused : a.alternative.hasSlot with
      | true => simp
      | false => simp [Alternative.bindNested_of_hasSlot hused, eq_comm]
  | cons b nested rest =>
      unfold withNested finish
      dsimp only
      rw [hslot]
      cases hused : a.alternative.hasSlot with
      | true => simp [Alternative.bindNested, eq_comm]
      | false => simp

/-! ## Open lists -/

namespace OpenList

/-- The weights of a list. -/
def weights (l : OpenList) : List Float :=
  l.alternatives.map (·.alternative.weight)

/-- A list whose newest alternative owns a nested list, unless that is empty. -/
def withNested (l : OpenList) (f : Forest) : OpenList :=
  { l with newest := l.newest.withNested l.nestedName f }

/-- What a list becomes when a list is nested below its newest alternative and more
alternatives follow. -/
def Becomes (l : OpenList) (f r : Forest) (rule : Rule) : Prop :=
  0 < Choice.total (l.weights ++ r.weights) ∧
    ∃ closed, List.Forall₂ (fun a a' => a.finish = .ok a') (l.withNested f).alternatives closed ∧
      rule = ⟨l.name, closed ++ r.alternatives l.name (l.older.length + 1)⟩

theorem finish_eq_ok_iff {l : OpenList} {rule : Rule} :
    l.finish = .ok rule ↔ l.Becomes .nil .nil rule := by
  unfold finish Becomes
  rw [Forest.weights, List.append_nil]
  change (if 0 < Choice.total l.weights then _ else _) = _ ↔ _
  split
  · next hpos =>
      rw [Except.map_eq_ok_iff]
      simp only [Except.mapM_eq_ok_iff, hpos, true_and, Forest.alternatives, List.append_nil]
      constructor
      · rintro ⟨closed, hclosed, rfl⟩
        exact ⟨closed, hclosed, rfl⟩
      · rintro ⟨closed, hclosed, rfl⟩
        exact ⟨closed, hclosed, rfl⟩
  · next hpos => simp [hpos]

theorem close_eq_ok_iff {l : OpenList} {book book' : Book} :
    l.close book = .ok book' ↔ ∃ rule, l.Becomes .nil .nil rule ∧ book.insert rule = book' := by
  simp only [close, Except.map_eq_ok_iff, finish_eq_ok_iff]

/-- The next alternative and the list nested below it may as well be read now. -/
theorem becomes_push_iff {l : OpenList} {a : OpenAlternative} {f r : Forest} {rule : Rule}
    (hnone : a.nested = none) :
    (l.push a).Becomes f r rule ↔
      (f ≠ .nil ↔ a.alternative.hasSlot = true) ∧
        l.Becomes .nil (.cons a.alternative f r) rule := by
  have hweights : (l.push a).weights ++ r.weights =
      l.weights ++ (Forest.cons a.alternative f r).weights := by
    simp [weights, alternatives, push, Forest.weights]
  have halternatives : ((l.push a).withNested f).alternatives =
      (l.withNested .nil).alternatives ++ [a.withNested (l.push a).nestedName f] := by
    simp [alternatives, push, withNested, OpenAlternative.withNested]
  unfold Becomes
  rw [hweights, halternatives]
  constructor
  · rintro ⟨hpos, closed, hclosed, rfl⟩
    obtain ⟨before, last, hbefore, hlast, rfl⟩ := forall₂_concat_left_iff.mp hclosed
    obtain ⟨howns, rfl⟩ := (OpenAlternative.finish_withNested hnone).mp hlast
    exact ⟨howns, hpos, before, hbefore, by simp [push, Forest.alternatives, nestedName]⟩
  · rintro ⟨howns, hpos, before, hbefore, rfl⟩
    have hlast : (a.withNested (l.push a).nestedName f).finish =
        .ok (a.alternative.bindNested (l.push a).nestedName) :=
      (OpenAlternative.finish_withNested hnone).mpr ⟨howns, rfl⟩
    refine ⟨hpos, before ++ [a.alternative.bindNested (l.push a).nestedName],
      forall₂_concat_left_iff.mpr ⟨before, _, hbefore, hlast, rfl⟩, ?_⟩
    simp [push, Forest.alternatives, nestedName]

/-- A list that was just begun becomes the list of its first alternative and the others. -/
theorem becomes_single_iff {name : String} {line level : Nat} {a : OpenAlternative}
    {f r : Forest} {rule : Rule} (hnone : a.nested = none) :
    (OpenList.mk name line level a []).Becomes f r rule ↔
      (f ≠ .nil ↔ a.alternative.hasSlot = true) ∧
        0 < Choice.total (Forest.cons a.alternative f r).weights ∧
        rule = ⟨name, (Forest.cons a.alternative f r).alternatives name 0⟩ := by
  unfold Becomes
  constructor
  · rintro ⟨hpos, closed, hclosed, rfl⟩
    obtain ⟨last, rest, hlast, hrest, rfl⟩ := List.forall₂_cons_left_iff.mp hclosed
    obtain ⟨howns, rfl⟩ := (OpenAlternative.finish_withNested hnone).mp hlast
    obtain rfl := List.forall₂_nil_left_iff.mp hrest
    exact ⟨howns, hpos, rfl⟩
  · rintro ⟨howns, hpos, rfl⟩
    exact ⟨hpos, [_], .cons ((OpenAlternative.finish_withNested hnone).mpr ⟨howns, rfl⟩) .nil, rfl⟩

/-- A list below the newest alternative that is being read is as good as one to come. -/
theorem becomes_own_iff {l : OpenList} {a : Alternative} {f g r : Forest} {rule : Rule} :
    l.own.Becomes .nil r rule ↔ l.Becomes (.cons a f g) r rule := by
  have hweights : l.own.weights = l.weights := by simp [weights, alternatives, own]
  unfold Becomes
  rw [hweights]
  rfl

end OpenList

/-! ## What completes a draft -/

/-- The lines of the blocks that make the book `b` of a book, none of them having one
of the given headers. -/
inductive MoreBlocks (b : Book) : NameSet → Book → List SourceLine → Prop
  | nil (headers : NameSet) : MoreBlocks b headers b []
  | preamble {headers : NameSet} {book : Book} {header : SourceLine} {level : Nat}
      {entries : List (List Char)} {lines tail : List SourceLine} {p : Preamble}
      (hheader : header.IsHeader preambleName) (hfresh : preambleName ∉ headers)
      (hentries : List.Forall₂ (fun text line => line.IsItem level text) entries lines)
      (hadd : entries.foldlM Preamble.addEntry book.preamble = .ok p)
      (hrest : MoreBlocks b (headers.insert preambleName) { book with preamble := p } tail) :
      MoreBlocks b headers book (header :: (lines ++ tail))
  | rule {headers : NameSet} {book : Book} {header : SourceLine} {name : String} {level : Nat}
      {list : Forest} {lines tail : List SourceLine} (hheader : header.IsHeader name)
      (hname : name ≠ preambleName) (hfresh : name ∉ headers) (hne : list ≠ .nil)
      (hlist : list.Laid level lines) (hpos : 0 < Choice.total list.weights)
      (hrest : MoreBlocks b (headers.insert name) (book.insertAll (list.rules name)) tail) :
      MoreBlocks b headers book (header :: (lines ++ tail))

/-- The lines that complete open lists, the innermost one first: each gets a list
below its newest alternative or none, and more alternatives; `next` says what may
come after the last of them. -/
def OpenList.Complete (next : Book → List SourceLine → Prop) :
    List OpenList → Book → List SourceLine → Prop
  | [], book, lines => next book lines
  | l :: outer, book, lines =>
    ∃ f r below more tail rule, lines = below ++ (more ++ tail) ∧
      f.Below l.level below ∧ (f ≠ .nil → l.newest.nested = none) ∧ r.Laid l.level more ∧
      l.Becomes f r rule ∧
      Complete next outer ((book.insertAll (f.rules l.nestedName ++
        r.nestedRules l.name (l.older.length + 1))).insert rule) tail

/-- The lines that make the book `b` of a draft. -/
def Draft.Completes (b : Book) (d : Draft) (lines : List SourceLine) : Prop :=
  match d.place with
  | .outside => MoreBlocks b d.headers d.book lines
  | .preamble level? =>
    ∃ level entries items tail p, (∀ n, level? = some n → n = level) ∧ lines = items ++ tail ∧
      List.Forall₂ (fun text line => SourceLine.IsItem line level text) entries items ∧
      entries.foldlM Preamble.addEntry d.book.preamble = .ok p ∧
      MoreBlocks b d.headers { d.book with preamble := p } tail
  | .header name _ =>
    ∃ level list items tail, lines = items ++ tail ∧ list ≠ .nil ∧ Forest.Laid level list items ∧
      0 < Choice.total list.weights ∧
      MoreBlocks b d.headers (d.book.insertAll (list.rules name)) tail
  | .list inner outer => OpenList.Complete (MoreBlocks b d.headers) (inner :: outer) d.book lines

/-! ## Lines that are no items of the innermost list -/

theorem Book.insertAll_append (b : Book) (rs rs' : List Rule) :
    b.insertAll (rs ++ rs') = (b.insertAll rs).insertAll rs' :=
  List.foldl_append

/-- The first line, if it is an item, is indented less than a list. -/
def Leaves (level : Nat) (lines : List SourceLine) : Prop :=
  ∀ line rest, lines = line :: rest → ∀ indent text, line.IsItem indent text → indent < level

theorem Leaves.eq_nil_of_laid {level : Nat} {f : Forest} {items tail : List SourceLine}
    (hleaves : Leaves level (items ++ tail)) (hlaid : f.Laid level items) : items = [] := by
  cases items with
  | nil => rfl
  | cons line rest =>
      obtain ⟨text, hitem⟩ := hlaid.head
      exact absurd (hleaves line _ rfl level text hitem) (Nat.lt_irrefl level)

theorem Leaves.eq_nil_of_below {level : Nat} {f : Forest} {items tail : List SourceLine}
    (hleaves : Leaves level (items ++ tail)) (hbelow : f.Below level items) : items = [] := by
  cases items with
  | nil => rfl
  | cons line rest =>
      obtain ⟨deeper, text, hdeeper, hitem⟩ := hbelow.head
      have hless := hleaves line _ rfl deeper text hitem
      omega

namespace OpenList

variable {next : Book → List SourceLine → Prop} {l : OpenList} {outer : List OpenList}
  {book : Book} {lines : List SourceLine}

/-- Lines that leave a list close it. -/
theorem complete_iff_of_leaves (hleaves : Leaves l.level lines) :
    Complete next (l :: outer) book lines ↔
      ∃ book', l.close book = .ok book' ∧ Complete next outer book' lines := by
  simp only [close_eq_ok_iff]
  constructor
  · rintro ⟨f, r, below, more, tail, rule, rfl, hbelow, -, hmore, hbecomes, hrest⟩
    obtain rfl := hleaves.eq_nil_of_below hbelow
    obtain rfl := hbelow.eq_nil
    have hleaves' : Leaves l.level (more ++ tail) := hleaves
    obtain rfl := hleaves'.eq_nil_of_laid hmore
    obtain rfl := hmore.eq_nil
    exact ⟨_, ⟨rule, hbecomes, rfl⟩, hrest⟩
  · rintro ⟨book', ⟨rule, hbecomes, rfl⟩, hrest⟩
    exact ⟨.nil, .nil, [], [], lines, rule, rfl, Or.inl ⟨rfl, rfl⟩, fun h => absurd rfl h,
      .nil l.level, hbecomes, hrest⟩

/-- Where no item follows, all open lists are closed. -/
theorem complete_iff_of_no_item {stack : List OpenList}
    (hitem : ∀ level, Leaves level lines) :
    Complete next stack book lines ↔
      ∃ book', closeAll book stack = .ok book' ∧ next book' lines := by
  induction stack generalizing book with
  | nil => simp [Complete, closeAll]
  | cons l outer ih =>
      simp only [complete_iff_of_leaves (hitem l.level), ih, closeAll, Except.bind_eq_ok_iff]
      constructor
      · rintro ⟨book', hclose, book'', hrest, hnext⟩
        exact ⟨book'', ⟨book', hclose, hrest⟩, hnext⟩
      · rintro ⟨book'', ⟨book', hclose, hrest⟩, hnext⟩
        exact ⟨book', hclose, book'', hrest, hnext⟩

/-! ## Items -/

/-- Lists of falling levels below a given one, each owning the list before it. -/
def Stacked : Nat → List OpenList → Prop
  | _, [] => True
  | level, l :: outer => l.level < level ∧ l.newest.nested ≠ none ∧ Stacked l.level outer

/-- An item that is indented deeper than all of these lists completes none of them. -/
theorem not_complete_of_stacked
    (hnext : ∀ book line lines level text, SourceLine.IsItem line level text →
      ¬ next book (line :: lines))
    {stack : List OpenList} {level indent : Nat} {line : SourceLine} {text : List Char}
    (hstacked : Stacked level stack) (hlevel : level ≤ indent) (hitem : line.IsItem indent text) :
    ¬ Complete next stack book (line :: lines) := by
  -- The newest alternative of each list has its nested list, and the item is too deep
  -- for the list itself, so it would have to complete the lists further out.
  induction stack generalizing level book with
  | nil => exact hnext book line lines indent text hitem
  | cons l outer ih =>
      obtain ⟨hless, howned, hrest⟩ := hstacked
      rintro ⟨f, r, below, more, tail, rule, heq, hbelow, hfree, hmore, -, hcomplete⟩
      obtain rfl : f = .nil := by
        by_contra hne
        exact howned (hfree hne)
      rcases hbelow with ⟨-, rfl⟩ | ⟨-, -, hne, -⟩
      · cases more with
        | nil =>
            obtain rfl : line :: lines = tail := heq
            exact ih hrest (by omega) hcomplete
        | cons first more' =>
            obtain ⟨rfl, -⟩ := List.cons.inj heq
            obtain ⟨text', hitem'⟩ := hmore.head
            have := (hitem.unique hitem').1
            omega
      · exact hne rfl

variable {line : SourceLine} {text : List Char}

/-- An item at the indentation of a list is its next alternative. -/
theorem complete_item_at
    (hnext : ∀ book line lines level text, SourceLine.IsItem line level text →
      ¬ next book (line :: lines))
    (hstacked : Stacked l.level outer) (hitem : line.IsItem l.level text) (number column : Nat) :
    Complete next (l :: outer) book (line :: lines) ↔
      ∃ a, Alternative.Reads text a ∧
        Complete next (l.push ⟨a, number, column, none⟩ :: outer) book lines := by
  constructor
  · rintro ⟨f, r, below, more, tail, rule, heq, hbelow, -, hmore, hbecomes, hcomplete⟩
    cases below with
    | cons first below' =>
        obtain ⟨rfl, -⟩ := List.cons.inj heq
        obtain ⟨deeper, text', hdeeper, hitem'⟩ := hbelow.head
        have := (hitem.unique hitem').1
        omega
    | nil =>
        obtain rfl := hbelow.eq_nil
        cases more with
        | nil =>
            obtain rfl : line :: lines = tail := heq
            exact absurd hcomplete (not_complete_of_stacked hnext hstacked (Nat.le_refl _) hitem)
        | cons first more' =>
            obtain ⟨rfl, rfl⟩ := List.cons.inj heq
            cases r with
            | nil => cases hmore
            | cons a g r' =>
                obtain ⟨line', text', below', more'', hlines, hitem', hread, howns, hbelow',
                  hmore'⟩ := Forest.laid_cons_iff.mp hmore
                obtain ⟨rfl, rfl⟩ := List.cons.inj hlines
                obtain ⟨-, rfl⟩ := hitem.unique hitem'
                have hbecomes' : (l.push ⟨a, number, column, none⟩).Becomes g r' rule :=
                  (becomes_push_iff rfl).mpr ⟨howns, hbecomes⟩
                refine ⟨a, hread, g, r', below', more'', tail, rule, List.append_assoc _ _ _,
                  hbelow', fun _ => rfl, hmore', hbecomes', ?_⟩
                simpa [Forest.nestedRules_cons, Forest.rules_nil, push, nestedName] using hcomplete
  · rintro ⟨a, hread, g, r, below, more, tail, rule, rfl, hbelow, -, hmore, hbecomes, hcomplete⟩
    obtain ⟨howns, hbecomes'⟩ := (becomes_push_iff rfl).mp hbecomes
    have hlaid : (Forest.cons a g r).Laid l.level (line :: (below ++ more)) :=
      Forest.laid_cons_iff.mpr ⟨line, text, below, more, rfl, hitem, hread, howns, hbelow, hmore⟩
    refine ⟨.nil, .cons a g r, [], line :: (below ++ more), tail, rule,
      by simp [List.append_assoc], Or.inl ⟨rfl, rfl⟩, fun h => absurd rfl h, hlaid, hbecomes', ?_⟩
    simpa [Forest.nestedRules_cons, Forest.rules_nil, push, nestedName] using hcomplete

/-- An item that is indented deeper begins the list below the newest alternative, if
there is none yet. -/
theorem complete_item_deeper
    (hnext : ∀ book line lines level text, SourceLine.IsItem line level text →
      ¬ next book (line :: lines))
    (hstacked : Stacked l.level outer) {indent : Nat} (hdeeper : l.level < indent)
    (hitem : line.IsItem indent text) (number column : Nat) :
    Complete next (l :: outer) book (line :: lines) ↔
      l.newest.nested = none ∧ ∃ a, Alternative.Reads text a ∧
        Complete next (⟨l.nestedName, number, indent, ⟨a, number, column, none⟩, []⟩ :: l.own ::
          outer) book lines := by
  constructor
  · rintro ⟨f, r, below, more, tail, rule, heq, hbelow, hfree, hmore, hbecomes, hcomplete⟩
    cases below with
    | nil =>
        obtain rfl := hbelow.eq_nil
        cases more with
        | nil =>
            obtain rfl : line :: lines = tail := heq
            exact absurd hcomplete
              (not_complete_of_stacked hnext hstacked (Nat.le_of_lt hdeeper) hitem)
        | cons first more' =>
            obtain ⟨rfl, -⟩ := List.cons.inj heq
            obtain ⟨text', hitem'⟩ := hmore.head
            have := (hitem.unique hitem').1
            omega
    | cons first below' =>
        obtain ⟨rfl, rfl⟩ := List.cons.inj heq
        rcases hbelow with ⟨-, hnil⟩ | ⟨deeper, hlevel, hne, hlaid, hpos⟩
        · cases hnil
        · cases f with
          | nil => exact absurd rfl hne
          | cons a g f' =>
              obtain ⟨line', text', below'', more'', hlines, hitem', hread, howns, hbelow',
                hmore'⟩ := Forest.laid_cons_iff.mp hlaid
              obtain ⟨rfl, rfl⟩ := List.cons.inj hlines
              obtain ⟨rfl, rfl⟩ := hitem.unique hitem'
              -- The nested list is open now and is closed where the outer one goes on.
              refine ⟨hfree hne, a, hread, g, f', below'', more'', more ++ tail, _,
                List.append_assoc _ _ _, hbelow', fun _ => rfl, hmore',
                (becomes_single_iff rfl).mpr ⟨howns, hpos, rfl⟩, ?_⟩
              refine ⟨.nil, r, [], more, tail, rule, rfl, Or.inl ⟨rfl, rfl⟩,
                fun h => absurd rfl h, hmore, becomes_own_iff.mpr hbecomes, ?_⟩
              simpa [Forest.rules_cons, Forest.rules_nil, Book.insertAll_append, Book.insertAll,
                own, nestedName] using hcomplete
  · rintro ⟨hnone, a, hread, g, f', below, more, tail, rule, rfl, hbelow, -, hmore, hbecomes,
      f'', r, below', more', tail', rule', rfl, hbelow', hfree, hmore', hbecomes', hcomplete⟩
    obtain ⟨howns, hpos, rfl⟩ := (becomes_single_iff rfl).mp hbecomes
    obtain rfl : f'' = .nil := by
      by_contra hne
      exact absurd (hfree hne) (by simp [own])
    rcases hbelow' with ⟨-, rfl⟩ | ⟨-, -, hne, -⟩
    · have hlaid : (Forest.cons a g f').Laid indent (line :: (below ++ more)) :=
        Forest.laid_cons_iff.mpr
          ⟨line, text, below, more, rfl, hitem, hread, howns, hbelow, hmore⟩
      have hnested : (Forest.cons a g f').Below l.level (line :: (below ++ more)) :=
        Or.inr ⟨indent, hdeeper, by simp, hlaid, hpos⟩
      refine ⟨.cons a g f', r, line :: (below ++ more), more', tail', rule',
        by simp [List.append_assoc], hnested, fun _ => hnone, hmore', becomes_own_iff.mp hbecomes',
        ?_⟩
      simpa [Forest.rules_cons, Forest.rules_nil, Book.insertAll_append, Book.insertAll,
        own, nestedName] using hcomplete
    · exact absurd rfl hne

end OpenList

end Phrasebook
