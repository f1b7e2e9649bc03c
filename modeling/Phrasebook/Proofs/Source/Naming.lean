import Phrasebook.Proofs.Source.Layout

/-!
# No two lists share a name

The rule of a nested list is named after its owner, a tilde and a number.  A tilde
stands in no identifier and in no number, so the names of all lists below one rule
begin with the name of that rule and a tilde, or are that name, and what follows the
first tilde tells the alternatives apart.  Hence all rules of a source have different
names (`rules_names_nodup`), and each can be looked up (`rule?_insertAll_iff`).
-/

namespace Phrasebook

/-! ## Names below a name -/

/-- A name that is `owner`, or that of a list nested in it at any depth. -/
def NamedWithin (owner name : String) : Prop :=
  ∃ suffix : List Char, name.toList = owner.toList ++ suffix ∧
    (suffix = [] ∨ suffix.head? = some nestingMark)

theorem NamedWithin.refl (name : String) : NamedWithin name name :=
  ⟨[], by simp, Or.inl rfl⟩

theorem toList_nestedRuleName (owner : String) (i : Nat) :
    (nestedRuleName owner i).toList = owner.toList ++ nestingMark :: Nat.toDigits 10 i := by
  simp [nestedRuleName, nestingMark]

theorem NamedWithin.of_nestedRuleName {owner name : String} {i : Nat}
    (h : NamedWithin (nestedRuleName owner i) name) : NamedWithin owner name := by
  obtain ⟨suffix, hname, -⟩ := h
  refine ⟨nestingMark :: (Nat.toDigits 10 i ++ suffix), ?_, Or.inr rfl⟩
  rw [hname, toList_nestedRuleName, List.append_assoc, List.cons_append]

/-- The text before the first mark is determined. -/
theorem eq_of_append_eq {mark : Char} {before before' suffix suffix' : List Char}
    (hbefore : mark ∉ before) (hbefore' : mark ∉ before')
    (hsuffix : suffix = [] ∨ suffix.head? = some mark)
    (hsuffix' : suffix' = [] ∨ suffix'.head? = some mark)
    (heq : before ++ suffix = before' ++ suffix') : before = before' := by
  have hcut : ∀ b s : List Char, mark ∉ b → (s = [] ∨ s.head? = some mark) →
      (b ++ s).takeWhile (· != mark) = b := by
    intro b s hb hs
    have hall : ∀ c ∈ b, (c != mark) = true := by
      intro c hc
      rw [bne_iff_ne]
      rintro rfl
      exact hb hc
    rw [List.takeWhile_append_of_pos hall]
    rcases hs with rfl | hs
    · simp
    · cases s with
      | nil => simp
      | cons c rest =>
          obtain rfl : c = mark := Option.some.inj hs
          simp
  rw [← hcut before suffix hbefore hsuffix, heq, hcut before' suffix' hbefore' hsuffix']

theorem not_mem_toDigits {c : Char} (hc : c.isDigit = false) (i : Nat) :
    c ∉ Nat.toDigits 10 i := by
  intro h
  have hdigit := Nat.isDigit_of_mem_toDigits (by decide) (by decide) h
  simp [hc] at hdigit

/-- The lists below different alternatives have no name in common. -/
theorem NamedWithin.index_unique {owner name : String} {i j : Nat}
    (hi : NamedWithin (nestedRuleName owner i) name)
    (hj : NamedWithin (nestedRuleName owner j) name) : i = j := by
  obtain ⟨suffix, hname, hsuffix⟩ := hi
  obtain ⟨suffix', hname', hsuffix'⟩ := hj
  rw [hname, toList_nestedRuleName, toList_nestedRuleName, List.append_assoc, List.append_assoc]
    at hname'
  have hmark : ∀ k : Nat, nestingMark ∉ Nat.toDigits 10 k := not_mem_toDigits (by decide)
  have hdigits := eq_of_append_eq (hmark i) (hmark j) hsuffix hsuffix'
    (List.cons.inj (List.append_cancel_left hname')).2
  rw [← Nat.ofDigitChars_ten_toDigits (n := i), hdigits, Nat.ofDigitChars_ten_toDigits]

/-- A list is not nested in itself. -/
theorem not_namedWithin_self (owner : String) (i : Nat) :
    ¬ NamedWithin (nestedRuleName owner i) owner := by
  rintro ⟨suffix, hname, -⟩
  have hlength := congrArg List.length hname
  simp [toList_nestedRuleName] at hlength

/-! ## Lists -/

/-- Rules with different names, put together with others that share no name with them. -/
theorem names_append_nodup {rs rs' : List Rule} (hrs : (rs.map Rule.name).Nodup)
    (hrs' : (rs'.map Rule.name).Nodup) (hne : ∀ r ∈ rs, ∀ r' ∈ rs', r.name ≠ r'.name) :
    ((rs ++ rs').map Rule.name).Nodup := by
  rw [List.map_append, List.nodup_append]
  refine ⟨hrs, hrs', ?_⟩
  intro name hname name' hname' heq
  obtain ⟨r, hr, rfl⟩ := List.mem_map.mp hname
  obtain ⟨r', hr', rfl⟩ := List.mem_map.mp hname'
  exact hne r hr r' hr' heq

namespace Forest

theorem namedWithin_of_mem_ownRule {f : Forest} {owner : String} {r : Rule}
    (hr : r ∈ f.ownRule owner) : r.name = owner := by
  cases f with
  | nil => cases hr
  | cons a nested rest => rw [List.mem_singleton.mp hr]

theorem namedWithin_of_mem_nestedRules {f : Forest} {owner : String} {i : Nat} {r : Rule}
    (hr : r ∈ f.nestedRules owner i) :
    ∃ j, i ≤ j ∧ NamedWithin (nestedRuleName owner j) r.name := by
  induction f generalizing owner i with
  | nil => cases hr
  | cons a nested rest ih ih' =>
      rw [nestedRules, List.mem_append, List.mem_append] at hr
      rcases hr with (hr | hr) | hr
      · obtain ⟨j, -, hj⟩ := ih hr
        exact ⟨i, Nat.le_refl i, hj.of_nestedRuleName⟩
      · rw [namedWithin_of_mem_ownRule hr]
        exact ⟨i, Nat.le_refl i, .refl _⟩
      · obtain ⟨j, hle, hj⟩ := ih' hr
        exact ⟨j, by omega, hj⟩

theorem namedWithin_of_mem_rules {f : Forest} {owner : String} {r : Rule}
    (hr : r ∈ f.rules owner) : NamedWithin owner r.name := by
  rw [rules, List.mem_append] at hr
  rcases hr with hr | hr
  · obtain ⟨j, -, hj⟩ := namedWithin_of_mem_nestedRules hr
    exact hj.of_nestedRuleName
  · rw [namedWithin_of_mem_ownRule hr]
    exact .refl owner

private theorem nodup_append_ownRule {f : Forest} {owner : String}
    (hnested : ((f.nestedRules owner 0).map Rule.name).Nodup) :
    ((f.rules owner).map Rule.name).Nodup := by
  have hown : ((f.ownRule owner).map Rule.name).Nodup := by cases f <;> simp [ownRule]
  apply names_append_nodup hnested hown
  intro r hr r' hr' heq
  obtain ⟨j, -, hj⟩ := namedWithin_of_mem_nestedRules hr
  rw [heq, namedWithin_of_mem_ownRule hr'] at hj
  exact not_namedWithin_self owner j hj

/-- The lists nested in a list have different names. -/
theorem nestedRules_names_nodup (f : Forest) (owner : String) (i : Nat) :
    ((f.nestedRules owner i).map Rule.name).Nodup := by
  induction f generalizing owner i with
  | nil => simp [nestedRules]
  | cons a nested rest ih ih' =>
      apply names_append_nodup (nodup_append_ownRule (ih _ 0)) (ih' owner (i + 1))
      -- The lists below this alternative carry its number, those of the rest a later one.
      intro r hr r' hr' heq
      obtain ⟨j, hle, hj⟩ := namedWithin_of_mem_nestedRules hr'
      rw [← heq] at hj
      have hsame : i = j := (namedWithin_of_mem_rules hr).index_unique hj
      omega

theorem rules_names_nodup (f : Forest) (owner : String) :
    ((f.rules owner).map Rule.name).Nodup :=
  nodup_append_ownRule (nestedRules_names_nodup f owner 0)

end Forest

/-! ## Blocks -/

theorem SourceLine.IsHeader.not_mem {line : SourceLine} {name : String}
    (hheader : line.IsHeader name) {c : Char} (hc : isNameChar c = false)
    (hpreamble : c ∉ preambleName.toList) : c ∉ name.toList := by
  rcases hheader.2.2.1 with rfl | hidentifier
  · exact hpreamble
  · exact not_mem_of_isIdentifier hidentifier hc

theorem Block.Laid.namedWithin {block : Block} {lines : List SourceLine} {r : Rule}
    (hlaid : block.Laid lines) (hr : r ∈ block.rules) :
    nestingMark ∉ block.name.toList ∧ NamedWithin block.name r.name := by
  cases hlaid with
  | preamble => cases hr
  | rule hheader =>
      exact ⟨hheader.not_mem (by decide) (by decide), Forest.namedWithin_of_mem_rules hr⟩

theorem NamedWithin.block_unique {name name' rule : String} (hmark : nestingMark ∉ name.toList)
    (hmark' : nestingMark ∉ name'.toList) (h : NamedWithin name rule)
    (h' : NamedWithin name' rule) : name = name' := by
  obtain ⟨suffix, hname, hsuffix⟩ := h
  obtain ⟨suffix', hname', hsuffix'⟩ := h'
  rw [hname] at hname'
  exact String.toList_injective (eq_of_append_eq hmark hmark' hsuffix hsuffix' hname')

/-- The rules of a source have different names. -/
theorem rules_names_nodup {blocks : List Block}
    (hlaid : ∀ block ∈ blocks, ∃ lines, block.Laid lines) (hnames : (blocks.map Block.name).Nodup) :
    ((blocks.flatMap Block.rules).map Rule.name).Nodup := by
  induction blocks with
  | nil => simp
  | cons block rest ih =>
      rw [List.map_cons, List.nodup_cons] at hnames
      have hfirst : (block.rules.map Rule.name).Nodup := by
        cases block with
        | preamble entries => simp [Block.rules]
        | rule name list => exact list.rules_names_nodup name
      have hothers := ih (fun b hb => hlaid b (List.mem_cons_of_mem _ hb)) hnames.2
      apply names_append_nodup hfirst hothers
      intro r hr r' hr' heq
      obtain ⟨block', hblock', hmem⟩ := List.mem_flatMap.mp hr'
      obtain ⟨lines, hlines⟩ := hlaid block List.mem_cons_self
      obtain ⟨lines', hlines'⟩ := hlaid block' (List.mem_cons_of_mem _ hblock')
      obtain ⟨hmark, hwithin⟩ := hlines.namedWithin hr
      obtain ⟨hmark', hwithin'⟩ := hlines'.namedWithin hmem
      rw [← heq] at hwithin'
      have hname : block'.name = block.name :=
        (hwithin.block_unique hmark hmark' hwithin').symm
      exact hnames.1 (List.mem_map.mpr ⟨block', hblock', hname⟩)

/-! ## Names without a dot -/

theorem qualifier_not_mem_nestedRuleName {owner : String} (h : qualifier ∉ owner.toList) (i : Nat) :
    qualifier ∉ (nestedRuleName owner i).toList := by
  have hdigits : qualifier ∉ Nat.toDigits 10 i := not_mem_toDigits (by decide) i
  have hmark : qualifier ≠ nestingMark := by decide
  rw [toList_nestedRuleName, List.mem_append, List.mem_cons]
  tauto

namespace Forest

theorem qualifier_not_mem_of_mem_ownRule {f : Forest} {owner : String}
    (h : qualifier ∉ owner.toList) {r : Rule} (hr : r ∈ f.ownRule owner) :
    qualifier ∉ r.name.toList := by
  rwa [namedWithin_of_mem_ownRule hr]

theorem qualifier_not_mem_of_mem_nestedRules {f : Forest} {owner : String}
    (h : qualifier ∉ owner.toList) {i : Nat} {r : Rule} (hr : r ∈ f.nestedRules owner i) :
    qualifier ∉ r.name.toList := by
  induction f generalizing owner i with
  | nil => cases hr
  | cons a nested rest ih ih' =>
      have hnested := qualifier_not_mem_nestedRuleName h i
      rw [nestedRules, List.mem_append, List.mem_append] at hr
      rcases hr with (hr | hr) | hr
      · exact ih hnested hr
      · exact qualifier_not_mem_of_mem_ownRule hnested hr
      · exact ih' h hr

end Forest

/-- The rules of a block have no dot in their names. -/
theorem Block.Laid.qualifier_not_mem {block : Block} {lines : List SourceLine} {r : Rule}
    (hlaid : block.Laid lines) (hr : r ∈ block.rules) : qualifier ∉ r.name.toList := by
  cases hlaid with
  | preamble => cases hr
  | rule hheader =>
      have hname := hheader.not_mem (c := qualifier) (by decide) (by decide)
      rcases List.mem_append.mp hr with hr | hr
      · exact Forest.qualifier_not_mem_of_mem_nestedRules hname hr
      · exact Forest.qualifier_not_mem_of_mem_ownRule hname hr

/-! ## Looking rules up -/

/-- Among rules of different names each can be looked up. -/
theorem Book.rule?_insertAll_iff {rs : List Rule} (hnames : (rs.map Rule.name).Nodup) (b : Book)
    (name : String) (r : Rule) :
    (b.insertAll rs).rule? name = some r ↔
      (r ∈ rs ∧ r.name = name) ∨ (name ∉ rs.map Rule.name ∧ b.rule? name = some r) := by
  induction rs generalizing b with
  | nil => simp [insertAll]
  | cons first rest ih =>
      rw [List.map_cons, List.nodup_cons] at hnames
      change ((b.insert first).insertAll rest).rule? name = some r ↔ _
      rw [ih hnames.2, rule?_insert]
      by_cases hfirst : first.name = name
      · subst hfirst
        rw [if_pos rfl]
        constructor
        · rintro (⟨hr, hname⟩ | ⟨-, hr⟩)
          · exact Or.inl ⟨List.mem_cons_of_mem _ hr, hname⟩
          · obtain rfl := Option.some.inj hr
            exact Or.inl ⟨List.mem_cons_self, rfl⟩
        · rintro (⟨hr, hname⟩ | ⟨hnot, -⟩)
          · rcases List.mem_cons.mp hr with rfl | hr
            · exact Or.inr ⟨hnames.1, rfl⟩
            · exact Or.inl ⟨hr, hname⟩
          · exact absurd List.mem_cons_self hnot
      · rw [if_neg hfirst]
        constructor
        · rintro (⟨hr, hname⟩ | ⟨hnot, hr⟩)
          · exact Or.inl ⟨List.mem_cons_of_mem _ hr, hname⟩
          · exact Or.inr ⟨by simp [hnot, Ne.symm hfirst], hr⟩
        · rintro (⟨hr, hname⟩ | ⟨hnot, hr⟩)
          · rcases List.mem_cons.mp hr with rfl | hr
            · exact absurd hname hfirst
            · exact Or.inl ⟨hr, hname⟩
          · exact Or.inr ⟨fun h => hnot (List.mem_cons_of_mem _ h), hr⟩

end Phrasebook
