import Phrasebook.Proofs.Source.Naming
import Phrasebook.Proofs.Source.Reading

/-!
# A source is read exactly if it is laid out well

`Book.parse_eq_ok_iff_laid` puts the two sides together: reading line by line
succeeds exactly for the sources whose significant lines are the lines of blocks, and
the book that is read has the rules of these blocks, each under its own name, and the
settings of their entries.
-/

namespace Phrasebook

namespace Book

theorem rules_insertAll (b : Book) (rs : List Rule) :
    (b.insertAll rs).rules = rs.foldl (fun m r => m.insert r.name r) b.rules := by
  induction rs generalizing b with
  | nil => rfl
  | cons r rest ih => exact ih (b.insert r)

theorem preamble_insertAll (b : Book) (rs : List Rule) :
    (b.insertAll rs).preamble = b.preamble := by
  induction rs generalizing b with
  | nil => rfl
  | cons r rest ih => exact ih (b.insert r)

/-- The rules of a book with more rules do not depend on its settings. -/
theorem rules_insertAll_preamble (b : Book) (p : Preamble) (rs : List Rule) :
    ({ b with preamble := p }.insertAll rs).rules = (b.insertAll rs).rules := by
  rw [rules_insertAll, rules_insertAll]

/-- A book is what blocks make of another one. -/
structure Extends (b : Book) (blocks : List Block) (book : Book) : Prop where
  preamble : (blocks.flatMap Block.entries).foldlM Preamble.addEntry book.preamble =
    .ok b.preamble
  rules : b.rules = (book.insertAll (blocks.flatMap Block.rules)).rules

theorem extends_nil_iff {b book : Book} : b.Extends [] book ↔ book = b := by
  constructor
  · rintro ⟨hpreamble, hrules⟩
    obtain ⟨rules, preamble⟩ := b
    obtain ⟨rules', preamble'⟩ := book
    obtain rfl : rules = rules' := hrules
    obtain rfl : preamble' = preamble := Except.ok.inj hpreamble
    rfl
  · rintro rfl
    exact ⟨rfl, rfl⟩

theorem extends_preamble_iff {b book : Book} {entries : List (List Char)} {blocks : List Block} :
    b.Extends (.preamble entries :: blocks) book ↔
      ∃ p, entries.foldlM Preamble.addEntry book.preamble = .ok p ∧
        b.Extends blocks { book with preamble := p } := by
  have hentries : (Block.preamble entries :: blocks).flatMap Block.entries =
      entries ++ blocks.flatMap Block.entries := rfl
  have hrules : (Block.preamble entries :: blocks).flatMap Block.rules =
      blocks.flatMap Block.rules := rfl
  constructor
  · rintro ⟨hpreamble, hrules'⟩
    rw [hentries, List.foldlM_append] at hpreamble
    obtain ⟨p, hp, hrest⟩ := Except.bind_eq_ok_iff.mp hpreamble
    refine ⟨p, hp, hrest, ?_⟩
    rw [hrules', hrules]
    exact (rules_insertAll_preamble book p _).symm
  · rintro ⟨p, hp, hrest, hrules'⟩
    refine ⟨?_, ?_⟩
    · rw [hentries, List.foldlM_append]
      exact Except.bind_eq_ok_iff.mpr ⟨p, hp, hrest⟩
    · rw [hrules', hrules, rules_insertAll_preamble]

theorem extends_rule_iff {b book : Book} {name : String} {list : Forest} {blocks : List Block} :
    b.Extends (.rule name list :: blocks) book ↔
      b.Extends blocks (book.insertAll (list.rules name)) := by
  have hrules : book.insertAll ((Block.rule name list :: blocks).flatMap Block.rules) =
      (book.insertAll (list.rules name)).insertAll (blocks.flatMap Block.rules) :=
    insertAll_append book _ _
  constructor
  · rintro ⟨hpreamble, hrules'⟩
    exact ⟨by rwa [preamble_insertAll], by rw [hrules', hrules]⟩
  · rintro ⟨hpreamble, hrules'⟩
    rw [preamble_insertAll] at hpreamble
    exact ⟨hpreamble, by rw [hrules', hrules]⟩

end Book

/-! ## Blocks and their lines -/

/-- Blocks and their lines, no block having one of the given headers. -/
def Follow (headers : NameSet) (blocks : List Block) (lines : List SourceLine) : Prop :=
  Laid blocks lines ∧ ∀ block ∈ blocks, block.name ∉ headers

theorem follow_nil_iff {headers : NameSet} {lines : List SourceLine} :
    Follow headers [] lines ↔ lines = [] := by
  constructor
  · rintro ⟨⟨-, parts, hparts, rfl⟩, -⟩
    rw [List.forall₂_nil_left_iff.mp hparts]
    rfl
  · rintro rfl
    exact ⟨⟨List.nodup_nil, [], .nil, rfl⟩, by simp⟩

theorem follow_cons_iff {headers : NameSet} {block : Block} {blocks : List Block}
    {lines : List SourceLine} :
    Follow headers (block :: blocks) lines ↔
      ∃ own tail, lines = own ++ tail ∧ block.Laid own ∧ block.name ∉ headers ∧
        Follow (headers.insert block.name) blocks tail := by
  have hinsert : ∀ other : Block, other.name ∉ headers.insert block.name ↔
      other.name ≠ block.name ∧ other.name ∉ headers := by
    intro other
    rw [Std.ExtTreeSet.mem_insert, not_or, Std.compare_eq_iff_eq, eq_comm]
  constructor
  · rintro ⟨⟨hnames, parts, hparts, rfl⟩, hnew⟩
    obtain ⟨own, others, hown, hothers, rfl⟩ := List.forall₂_cons_left_iff.mp hparts
    rw [List.map_cons, List.nodup_cons] at hnames
    have hfresh : ∀ other ∈ blocks, other.name ∉ headers.insert block.name := by
      intro other hother
      refine (hinsert other).mpr ⟨fun heq => ?_, hnew other (List.mem_cons_of_mem _ hother)⟩
      exact hnames.1 (List.mem_map.mpr ⟨other, hother, heq⟩)
    exact ⟨own, others.flatten, rfl, hown, hnew block List.mem_cons_self,
      ⟨hnames.2, others, hothers, rfl⟩, hfresh⟩
  · rintro ⟨own, tail, rfl, hown, hfresh, ⟨hnames, others, hothers, rfl⟩, hnew⟩
    have hnew' : ∀ other ∈ blocks, other.name ≠ block.name ∧ other.name ∉ headers :=
      fun other hother => (hinsert other).mp (hnew other hother)
    have hnodup : ((block :: blocks).map Block.name).Nodup := by
      rw [List.map_cons, List.nodup_cons]
      refine ⟨fun hmem => ?_, hnames⟩
      obtain ⟨other, hother, heq⟩ := List.mem_map.mp hmem
      exact (hnew' other hother).1 heq
    refine ⟨⟨hnodup, own :: others, .cons hown hothers, rfl⟩, ?_⟩
    exact List.forall_mem_cons.mpr ⟨hfresh, fun other hother => (hnew' other hother).2⟩

/-- What may follow a book is a sequence of blocks with new headers. -/
theorem moreBlocks_iff_follow {b book : Book} {headers : NameSet} {lines : List SourceLine} :
    MoreBlocks b headers book lines ↔
      ∃ blocks, Follow headers blocks lines ∧ b.Extends blocks book := by
  -- The two are built up from the end of the source in the same way, block by block.
  constructor
  · intro h
    induction h with
    | nil headers => exact ⟨[], follow_nil_iff.mpr rfl, Book.extends_nil_iff.mpr rfl⟩
    | preamble hheader hfresh hentries hadd _ ih =>
        obtain ⟨blocks, hfollow, hextends⟩ := ih
        exact ⟨.preamble _ :: blocks,
          follow_cons_iff.mpr ⟨_, _, rfl, .preamble hheader hentries, hfresh, hfollow⟩,
          Book.extends_preamble_iff.mpr ⟨_, hadd, hextends⟩⟩
    | rule hheader hname hfresh hne hlist hpos _ ih =>
        obtain ⟨blocks, hfollow, hextends⟩ := ih
        exact ⟨.rule _ _ :: blocks,
          follow_cons_iff.mpr ⟨_, _, rfl, .rule hheader hname hne hlist hpos, hfresh, hfollow⟩,
          Book.extends_rule_iff.mpr hextends⟩
  · rintro ⟨blocks, hfollow, hextends⟩
    induction blocks generalizing headers book lines with
    | nil =>
        obtain rfl := follow_nil_iff.mp hfollow
        obtain rfl := Book.extends_nil_iff.mp hextends
        exact .nil headers
    | cons block blocks ih =>
        obtain ⟨own, tail, rfl, hown, hfresh, hrest⟩ := follow_cons_iff.mp hfollow
        cases hown with
        | preamble hheader hentries =>
            obtain ⟨p, hadd, hextends'⟩ := Book.extends_preamble_iff.mp hextends
            exact .preamble hheader hfresh hentries hadd (ih hrest hextends')
        | rule hheader hname hne hlist hpos =>
            exact .rule hheader hname hfresh hne hlist hpos
              (ih hrest (Book.extends_rule_iff.mp hextends))

/-! ## Whole sources -/

/-- A source can be read exactly if its lines are those of blocks. -/
theorem Book.parse_eq_ok_iff_extends {source : String} {b : Book} :
    Book.parse source = .ok b ↔
      ∃ blocks, Laid blocks (significantLines source) ∧ b.Extends blocks {} := by
  have hread : Book.parse source = .ok b ↔ Draft.Completes b {} (significantLines source) := by
    have hnested : Draft.Nested {} := trivial
    rw [significantLines, Draft.completes_iff_addLines hnested _ 1, Book.parse,
      Except.bind_eq_ok_iff]
  have hempty : ∀ name : String, name ∉ (∅ : NameSet) := fun name =>
    Std.ExtTreeSet.not_mem_empty
  rw [hread]
  change MoreBlocks b ∅ {} _ ↔ _
  rw [moreBlocks_iff_follow]
  exact exists_congr fun blocks => and_congr_left fun _ =>
    and_iff_left fun block _ => hempty block.name

/-- The lines of a block are lines of the source. -/
theorem Laid.exists_own {blocks : List Block} {lines : List SourceLine}
    (hlaid : Laid blocks lines) {block : Block} (hblock : block ∈ blocks) :
    ∃ own, block.Laid own ∧ own ⊆ lines := by
  obtain ⟨-, parts, hparts, rfl⟩ := hlaid
  induction hparts with
  | nil => cases hblock
  | @cons first own _ parts hfirst _ ih =>
      rw [List.flatten_cons]
      rcases List.mem_cons.mp hblock with rfl | hrest
      · exact ⟨own, hfirst, List.subset_append_left own parts.flatten⟩
      · obtain ⟨own', hown', hsubset⟩ := ih hrest
        exact ⟨own', hown', List.subset_append_of_subset_right own hsubset⟩

theorem Laid.exists_lines {blocks : List Block} {lines : List SourceLine}
    (hlaid : Laid blocks lines) {block : Block} (hblock : block ∈ blocks) :
    ∃ own, block.Laid own :=
  (hlaid.exists_own hblock).imp fun _ hown => hown.1

theorem Laid.rules_names_nodup {blocks : List Block} {lines : List SourceLine}
    (hlaid : Laid blocks lines) : ((blocks.flatMap Block.rules).map Rule.name).Nodup :=
  Phrasebook.rules_names_nodup (fun _ hblock => hlaid.exists_lines hblock) hlaid.1

/-- The rules of a book that is read are those of the blocks of its source. -/
theorem Book.exists_blocks_of_parse {source : String} {b : Book} (h : Book.parse source = .ok b) :
    ∃ blocks, Laid blocks (significantLines source) ∧
      ∀ name r, b.rule? name = some r ↔ r ∈ blocks.flatMap Block.rules ∧ r.name = name := by
  obtain ⟨blocks, hlaid, hextends⟩ := Book.parse_eq_ok_iff_extends.mp h
  refine ⟨blocks, hlaid, fun name r => ?_⟩
  have hrule : b.rule? name = (insertAll {} (blocks.flatMap Block.rules)).rule? name := by
    rw [rule?, hextends.rules, rule?]
  rw [hrule, Book.rule?_insertAll_iff hlaid.rules_names_nodup]
  simp [rule?]

/-- No rule of a book that is read has a dot in its name. -/
theorem Book.names_unqualified_of_parse {source : String} {b : Book}
    (h : Book.parse source = .ok b) {name : String} (hname : b.defines name = true) :
    qualifier ∉ name.toList := by
  obtain ⟨blocks, hlaid, hrules⟩ := Book.exists_blocks_of_parse h
  obtain ⟨r, hr⟩ := Book.defines_iff.mp hname
  obtain ⟨hmem, rfl⟩ := (hrules name r).mp hr
  obtain ⟨block, hblock, hr'⟩ := List.mem_flatMap.mp hmem
  obtain ⟨lines, hlines⟩ := hlaid.exists_lines hblock
  exact hlines.qualifier_not_mem hr'

/-- Reading succeeds exactly for sources whose significant lines are laid out as blocks
with entries that are accepted, and the book has the rules of these blocks and no
others, each under its own name. -/
theorem Book.parse_eq_ok_iff_laid (source : String) (b : Book) :
    Book.parse source = .ok b ↔
      ∃ blocks, Laid blocks (significantLines source) ∧
        (blocks.flatMap Block.entries).foldlM Preamble.addEntry {} = .ok b.preamble ∧
        ∀ name r, b.rule? name = some r ↔ r ∈ blocks.flatMap Block.rules ∧ r.name = name := by
  have hlookup : ∀ blocks, Laid blocks (significantLines source) → ∀ name r,
      (insertAll {} (blocks.flatMap Block.rules)).rule? name = some r ↔
        r ∈ blocks.flatMap Block.rules ∧ r.name = name := by
    intro blocks hlaid name r
    rw [Book.rule?_insertAll_iff hlaid.rules_names_nodup]
    simp [rule?]
  rw [Book.parse_eq_ok_iff_extends]
  refine exists_congr fun blocks => and_congr_right fun hlaid => ?_
  constructor
  · rintro ⟨hpreamble, hrules⟩
    refine ⟨hpreamble, fun name r => ?_⟩
    rw [← hlookup blocks hlaid name r, rule?, hrules, rule?]
  · rintro ⟨hpreamble, hrules⟩
    refine ⟨hpreamble, Std.ExtTreeMap.ext_getElem? fun name => Option.ext fun r => ?_⟩
    exact (hrules name r).trans (hlookup blocks hlaid name r).symm

end Phrasebook
