import Mathlib.Data.List.Perm.Basic
import Phrasebook.Proofs.Imports.Copies
import Phrasebook.Proofs.Imports.Merging

/-!
# A resolved book is a disjoint union

Resolving inserts the renamed rules of imported books one after the other, and an insertion would
overwrite a rule of the same name.  It never does: no rule of a book that is read has a dot in its
name, an alias has none either, and two imports have different aliases, so the alias in front of the
first dot tells where a rule comes from.

* `Book.IsUnion`: a resolved book has the rules of the book itself, and for each import a copy of
  each rule of what the imported document comes to, and the names of all of these are different.
* `Book.IsWrittenBelow`: each rule is a copy of one that stands in a document below the book, at the
  end of a chain of imports whose aliases stand in front of its name.
* `MergesInAnyOrder`: the imports of a book, and of each document below it, can be merged in any
  order, and the rules of each inserted in any order.

All three hold as soon as they hold for the imported documents, so they are shown by
`Resolves.ok_induction`.
-/

namespace Phrasebook

/-- The text before the first dot is determined. -/
theorem eq_of_qualify_eq {aliasName aliasName' name name' : String}
    (h : qualifier ∉ aliasName.toList) (h' : qualifier ∉ aliasName'.toList)
    (heq : qualify aliasName name = qualify aliasName' name') : aliasName = aliasName' := by
  have hlist := congrArg String.toList heq
  simp only [qualify, String.toList_append, String.toList_singleton] at hlist
  exact String.toList_injective (eq_of_append_eq h h' (Or.inr rfl) (Or.inr rfl) hlist)

/-- The names that the rules of imported books get. -/
def importedNames (imports : List Import) (part : Import → Book) : List String :=
  imports.flatMap fun i => (part i).names.map (qualify i.aliasName)

namespace Book

/-- A book is another one together with a copy of `part i` under the alias of each of its imports
`i`, and nothing of these coincides. -/
structure IsUnion (b' b : Book) (part : Import → Book) : Prop where
  preamble : b'.preamble = b.preamble
  own : ∀ name r, b.rule? name = some r → b'.rule? name = some r
  imported : ∀ i ∈ b.preamble.imports, ∀ name r, (part i).rule? name = some r →
    ∃ r', b'.rule? (qualify i.aliasName name) = some r' ∧ r'.name = qualify i.aliasName name ∧
      r.IsCopy (UnderAlias (part i) i.aliasName) r'
  names : b'.names.Perm (b.names ++ importedNames b.preamble.imports part)
  disjoint : (b.names ++ importedNames b.preamble.imports part).Nodup
  size : b'.rules.size = b.rules.size + (b.preamble.imports.map fun i => (part i).rules.size).sum

theorem insertAll_named {b : Book} (hb : ∀ name r, b.rule? name = some r → r.name = name)
    (rs : List Rule) : ∀ name r, (b.insertAll rs).rule? name = some r → r.name = name := by
  intro name r hr
  rcases mem_or_rule?_of_insertAll hr with ⟨-, hname⟩ | hold
  · exact hname
  · exact hb name r hold

theorem map_name_importedRules {imports : List Import} {part : Import → Book}
    (hnamed : ∀ i ∈ imports, ∀ name r, (part i).rule? name = some r → r.name = name) :
    (importedRules imports part).map Rule.name = importedNames imports part := by
  rw [importedRules, importedNames, List.map_flatMap]
  exact List.flatMap_congr fun i hi => names_under (hnamed i hi) i.aliasName

section Union

variable {source : String} {b : Book} (hparse : Book.parse source = .ok b) {part : Import → Book}
  (hnamed : ∀ i ∈ b.preamble.imports, ∀ name r, (part i).rule? name = some r → r.name = name)
include hparse

theorem nodup_importedNames (part : Import → Book) :
    (importedNames b.preamble.imports part).Nodup := by
  refine List.nodup_flatMap.mpr ⟨fun i _ => ?_, ?_⟩
  · exact (nodup_names (part i)).map fun _ _ h => qualify_injective h
  · have haliases : b.preamble.imports.Pairwise fun i j => i.aliasName ≠ j.aliasName :=
      List.pairwise_map.mp (distinctAliases_of_parse hparse)
    refine haliases.imp_of_mem fun {i j} hi hj hne => ?_
    rw [Function.onFun, List.disjoint_left]
    intro name hname hname'
    obtain ⟨x, -, rfl⟩ := List.mem_map.mp hname
    obtain ⟨y, -, heq⟩ := List.mem_map.mp hname'
    have hunqualified := aliases_unqualified_of_parse hparse
    exact hne (eq_of_qualify_eq (hunqualified i hi) (hunqualified j hj) heq.symm)

/-- The rules of a book that is read have no dot in their names, and those that are brought in by
imports have one. -/
theorem not_mem_importedNames {name : String} (hname : b.defines name = true) :
    name ∉ importedNames b.preamble.imports part := by
  intro hmem
  obtain ⟨i, -, hmem'⟩ := List.mem_flatMap.mp hmem
  obtain ⟨x, -, rfl⟩ := List.mem_map.mp hmem'
  have hdot : qualifier ∈ (qualify i.aliasName x).toList := by simp [qualify]
  exact names_unqualified_of_parse hparse hname hdot

theorem nodup_names_append (part : Import → Book) :
    (b.names ++ importedNames b.preamble.imports part).Nodup := by
  refine List.nodup_append.mpr ⟨nodup_names b, nodup_importedNames hparse part, ?_⟩
  intro name hname name' hname' heq
  exact not_mem_importedNames hparse (mem_names.mp hname) (heq ▸ hname')

include hnamed

/-- What a book and the rules of its imports come to is their disjoint union. -/
theorem isUnion_insertAll :
    (b.insertAll (importedRules b.preamble.imports part)).IsUnion b part := by
  have hmap := map_name_importedRules hnamed
  have hnodup : ((importedRules b.preamble.imports part).map Rule.name).Nodup :=
    hmap ▸ nodup_importedNames hparse part
  have hperm : (b.insertAll (importedRules b.preamble.imports part)).names.Perm
      (b.names ++ importedNames b.preamble.imports part) := by
    refine (List.perm_ext_iff_of_nodup (nodup_names _) (nodup_names_append hparse part)).mpr ?_
    intro name
    rw [List.mem_append, mem_names, mem_names, defines_insertAll_iff, ← hmap, List.mem_map]
  refine ⟨preamble_insertAll b _, ?_, ?_, hperm, nodup_names_append hparse part, ?_⟩
  · intro name r hr
    refine (rule?_insertAll_iff hnodup b name r).mpr (Or.inr ⟨?_, hr⟩)
    rw [hmap]
    exact not_mem_importedNames hparse (defines_iff.mpr ⟨r, hr⟩)
  · intro i hi name r hr
    have hname : (r.qualified (part i).defines i.aliasName).name = qualify i.aliasName name :=
      congrArg (qualify i.aliasName) (hnamed i hi name r hr)
    refine ⟨r.qualified (part i).defines i.aliasName, ?_, hname,
      Rule.isCopy_qualified (part i) i.aliasName r⟩
    refine (rule?_insertAll_iff hnodup b _ _).mpr (Or.inl ⟨?_, hname⟩)
    refine List.mem_flatMap.mpr ⟨i, hi, ?_⟩
    exact List.mem_map.mpr ⟨r, mem_ruleList.mpr ⟨name, hr⟩, rfl⟩
  · have hlength := hperm.length_eq
    rw [List.length_append, importedNames, List.length_flatMap, length_names, length_names]
      at hlength
    simpa only [List.length_map, length_names] using hlength

/-- The order in which rules are brought in makes no difference. -/
theorem insertAll_eq_of_perm {rs : List Rule}
    (hperm : rs.Perm (importedRules b.preamble.imports part)) :
    b.insertAll rs = b.insertAll (importedRules b.preamble.imports part) := by
  have hnodup : ((importedRules b.preamble.imports part).map Rule.name).Nodup :=
    map_name_importedRules hnamed ▸ nodup_importedNames hparse part
  have hnodup' : (rs.map Rule.name).Nodup := (hperm.map Rule.name).nodup_iff.mpr hnodup
  have hrules : (b.insertAll rs).rules =
      (b.insertAll (importedRules b.preamble.imports part)).rules := by
    refine Std.ExtTreeMap.ext_getElem? fun name => Option.ext fun r => ?_
    change (b.insertAll rs).rule? name = some r ↔ (b.insertAll _).rule? name = some r
    rw [rule?_insertAll_iff hnodup', rule?_insertAll_iff hnodup, hperm.mem_iff,
      (hperm.map Rule.name).mem_iff]
  have hpreamble : (b.insertAll rs).preamble =
      (b.insertAll (importedRules b.preamble.imports part)).preamble := by
    rw [preamble_insertAll, preamble_insertAll]
  exact congrArg₂ Book.mk hrules hpreamble

end Union

end Book

/-! ## Whole resolutions -/

/-- A document below a book, and the aliases of the imports that lead to it. -/
inductive LeadsTo (look : String → Except ImportError Book) : Book → List String → Book → Prop
  | self (b : Book) : LeadsTo look b [] b
  | through {b c d : Book} {i : Import} {aliases : List String} (hi : i ∈ b.preamble.imports)
      (hread : look i.id = .ok c) (h : LeadsTo look c aliases d) :
      LeadsTo look b (i.aliasName :: aliases) d

/-- A book consists of copies of the rules that stand in a book and in the documents below it. -/
structure Book.IsWrittenBelow (look : String → Except ImportError Book) (b' b : Book) : Prop where
  rules : ∀ aliases d, LeadsTo look b aliases d → ∀ name r, d.rule? name = some r →
    ∃ r', b'.rule? (qualifyAlong aliases name) = some r' ∧ r.IsCopy (AlongAliases b' aliases) r'
  names : ∀ name, b'.defines name = true → ∃ aliases d written, LeadsTo look b aliases d ∧
    d.defines written = true ∧ name = qualifyAlong aliases written

/-- A book with the rules of its imports, which are merged in the same way, inserted in an arbitrary
order. -/
inductive MergesInAnyOrder (look : String → Except ImportError Book) : Book → Book → Prop
  | merged {b : Book} {doc part : Import → Book} {rs : List Rule}
      (hread : ∀ i ∈ b.preamble.imports, look i.id = .ok (doc i))
      (hparts : ∀ i ∈ b.preamble.imports, MergesInAnyOrder look (doc i) (part i))
      (hperm : rs.Perm (importedRules b.preamble.imports part)) :
      MergesInAnyOrder look b (b.insertAll rs)

/-- A book with the same rules and the same imports, these in any order. -/
structure Book.Reorders (b c : Book) : Prop where
  rules : b.rules = c.rules
  imports : b.preamble.imports.Perm c.preamble.imports

theorem importedRules_congr {imports : List Import} {part part' : Import → Book}
    (h : ∀ i ∈ imports, (part i).rules = (part' i).rules) :
    importedRules imports part = importedRules imports part' := by
  refine List.flatMap_congr fun i hi => ?_
  have hdefines : (part i).defines = (part' i).defines := by
    funext name
    rw [Book.defines, Book.defines, h i hi]
  rw [Book.under, Book.under, Book.ruleList, Book.ruleList, h i hi, hdefines]

section Resolves

variable {look : String → Except ImportError Book}

/-- A document that is resolved keeps its rules under their names. -/
theorem Resolves.named {path : List String} {b b' : Book} (h : Resolves look path b (.ok b'))
    (hb : ∃ source, Book.parse source = .ok b) :
    ∀ name r, b'.rule? name = some r → r.name = name := by
  obtain ⟨source, hparse⟩ := hb
  obtain ⟨-, -, doc, part, -, rfl⟩ := resolves_ok_iff.mp h
  have hnamed : ∀ name r, b.rule? name = some r → r.name = name :=
    fun name r hr => (Book.all_written_of_parse hparse name r hr).1
  exact Book.insertAll_named hnamed _

variable (hlook : ∀ id c, look id = .ok c → ∃ source, Book.parse source = .ok c)
  {path : List String} {b b' : Book} (h : Resolves look path b (.ok b'))
  (hb : ∃ source, Book.parse source = .ok b)
include hlook h hb

theorem Resolves.exists_isUnion :
    ∃ part : Import → Book, (∀ i ∈ b.preamble.imports, Loads look i.id (.ok (part i))) ∧
      b'.IsUnion b part := by
  obtain ⟨source, hparse⟩ := hb
  obtain ⟨-, -, doc, part, hparts, rfl⟩ := resolves_ok_iff.mp h
  refine ⟨part, fun i hi => (hparts i hi).2.loads (hparts i hi).1, ?_⟩
  refine Book.isUnion_insertAll hparse fun i hi => ?_
  obtain ⟨hread, hpart⟩ := hparts i hi
  exact hpart.named (hlook _ _ hread)

theorem Resolves.isWrittenBelow : b'.IsWrittenBelow look b := by
  induction h using Resolves.ok_induction with
  | step path b doc part h hnew haliases hread hparts ih =>
      obtain ⟨source, hparse⟩ := hb
      have hunion : (b.insertAll (importedRules b.preamble.imports part)).IsUnion b part :=
        Book.isUnion_insertAll hparse fun i hi => (hparts i hi).named (hlook _ _ (hread i hi))
      constructor
      · intro aliases d hleads name r hr
        cases hleads with
        | self =>
            exact ⟨r, hunion.own name r hr, Rule.isCopy_self (Book.unrenamed_of_parse hparse hr) _⟩
        | @through _ c _ i rest hi hdoc hrest =>
            obtain rfl := Except.ok.inj ((hread i hi).symm.trans hdoc)
            have hbelow := ih i hi (hlook _ _ hdoc)
            obtain ⟨r₁, hr₁, hcopy₁⟩ := hbelow.rules rest d hrest name r hr
            obtain ⟨r₂, hr₂, -, hcopy₂⟩ := hunion.imported i hi _ r₁ hr₁
            refine ⟨r₂, hr₂, hcopy₁.trans (AlongAliases.under ?_) hcopy₂⟩
            intro target htarget
            obtain ⟨r₃, hr₃⟩ := Book.defines_iff.mp htarget
            obtain ⟨r₄, hr₄, -⟩ := hunion.imported i hi target r₃ hr₃
            exact Book.defines_iff.mpr ⟨r₄, hr₄⟩
      · intro name hname
        rw [← Book.mem_names, hunion.names.mem_iff, List.mem_append] at hname
        rcases hname with hown | himported
        · exact ⟨[], b, name, .self b, Book.mem_names.mp hown, rfl⟩
        · obtain ⟨i, hi, hmem⟩ := List.mem_flatMap.mp himported
          obtain ⟨x, hx, rfl⟩ := List.mem_map.mp hmem
          have hbelow := ih i hi (hlook _ _ (hread i hi))
          obtain ⟨aliases, d, written, hleads, hwritten, rfl⟩ :=
            hbelow.names x (Book.mem_names.mp hx)
          exact ⟨i.aliasName :: aliases, d, written, .through hi (hread i hi) hleads, hwritten, rfl⟩

theorem Resolves.mergesInAnyOrder_iff (c : Book) : MergesInAnyOrder look b c ↔ c = b' := by
  induction h using Resolves.ok_induction generalizing c with
  | step path b doc part h hnew haliases hread hparts ih =>
      obtain ⟨source, hparse⟩ := hb
      constructor
      · rintro (@⟨_, doc', part', rs, hread', hmerges, hperm⟩)
        have hsame : ∀ i ∈ b.preamble.imports, part' i = part i := by
          intro i hi
          have heq : doc' i = doc i := Except.ok.inj ((hread' i hi).symm.trans (hread i hi))
          exact (ih i hi (hlook _ _ (hread i hi)) (part' i)).mp (heq ▸ hmerges i hi)
        rw [importedRules_congr fun i hi => congrArg Book.rules (hsame i hi)] at hperm
        exact Book.insertAll_eq_of_perm hparse
          (fun i hi => (hparts i hi).named (hlook _ _ (hread i hi))) hperm
      · rintro rfl
        refine .merged hread (fun i hi => ?_) (List.Perm.refl _)
        exact (ih i hi (hlook _ _ (hread i hi)) (part i)).mpr rfl

theorem Resolves.reorders {look' : String → Except ImportError Book}
    (hreorder : ∀ id c, look id = .ok c → ∃ c', look' id = .ok c' ∧ c'.Reorders c) {c : Book}
    (hc : c.Reorders b) : ∃ c', Resolves look' path c (.ok c') ∧ c'.rules = b'.rules := by
  induction h using Resolves.ok_induction generalizing c with
  | step path b doc part h hnew haliases hread hparts ih =>
      obtain ⟨source, hparse⟩ := hb
      have hbooks : ∀ i ∈ c.preamble.imports, ∃ d d', look' i.id = .ok d ∧
          Resolves look' (path ++ [i.id]) d (.ok d') ∧ d'.rules = (part i).rules := by
        intro i hi
        have hi' : i ∈ b.preamble.imports := hc.imports.mem_iff.mp hi
        have hdoc := hread i hi'
        obtain ⟨d, hd, hreorders⟩ := hreorder _ _ hdoc
        obtain ⟨d', hresolves, hrules⟩ := ih i hi' (hlook _ _ hdoc) hreorders
        exact ⟨d, d', hd, hresolves, hrules⟩
      have : Nonempty Book := ⟨{}⟩
      choose! doc' part' hdoc' hpart' hrules using hbooks
      have hnew' : ∀ i ∈ c.preamble.imports, i.id ∉ path :=
        fun i hi => hnew i (hc.imports.mem_iff.mp hi)
      have haliases' : c.preamble.DistinctAliases :=
        (hc.imports.map Import.aliasName).nodup_iff.mpr haliases
      refine ⟨c.insertAll (importedRules c.preamble.imports part'), ?_, ?_⟩
      · exact resolves_ok_iff.mpr ⟨hnew', haliases', doc', part',
          fun i hi => ⟨hdoc' i hi, hpart' i hi⟩, rfl⟩
      · have hperm : (importedRules c.preamble.imports part').Perm
            (importedRules b.preamble.imports part) := by
          rw [importedRules_congr hrules]
          exact hc.imports.flatMap_right _
        rw [← Book.insertAll_eq_of_perm hparse
          (fun i hi => (hparts i hi).named (hlook _ _ (hread i hi))) hperm,
          Book.rules_insertAll, Book.rules_insertAll, hc.rules]

end Resolves

/-! ## Books that come out -/

/-- A book that comes out of resolving one that was read, or of loading a document. -/
inductive Book.ResolvedFrom (archive : Archive) (shelf : Shelf) (b' b : Book) : Prop
  | resolved {source : String} (hparse : Book.parse source = .ok b)
      (hresult : (resolve archive b shelf).result = .ok b')
  | loaded {id : String} (hread : lookup archive shelf id = .ok b)
      (hresult : (load archive id shelf).result = .ok b')

theorem Book.ResolvedFrom.resolves {archive : Archive} {shelf : Shelf} {b b' : Book}
    (h : b'.ResolvedFrom archive shelf b) : Resolves (lookup archive shelf) [] b (.ok b') := by
  cases h with
  | resolved _ hresult => exact (resolve_eq_iff archive shelf b _).mpr hresult
  | @loaded id hread hresult =>
      cases (load_eq_iff archive shelf id _).mpr hresult with
      | @resolved c _ hread' hresolves =>
          obtain rfl := Except.ok.inj (hread.symm.trans hread')
          exact hresolves.of_subset (List.nil_subset [id])

/-- Resolving loses, duplicates and overwrites nothing: what comes out is the book itself together
with a copy, under its alias, of what the document of each import comes to.  Each rule is a copy of
one that was written, however many imports it came through, and it makes no difference in which
order imports stand and in which order they and their rules are merged. -/
theorem Book.resolved_isUnion {archive : Archive} {shelf : Shelf} (hshelf : shelf.Parsed)
    {b b' : Book} (h : b'.ResolvedFrom archive shelf b) :
    (∃ part : Import → Book,
      (∀ i ∈ b.preamble.imports, (load archive i.id shelf).result = .ok (part i)) ∧
        b'.IsUnion b part) ∧
    b'.IsWrittenBelow (lookup archive shelf) b ∧
    (∀ c, MergesInAnyOrder (lookup archive shelf) b c ↔ c = b') ∧
    ∀ (archive₂ : Archive) (shelf₂ : Shelf),
      (∀ id c, lookup archive shelf id = .ok c →
        ∃ c₂, lookup archive₂ shelf₂ id = .ok c₂ ∧ c₂.Reorders c) →
      (∀ b₂ : Book, b₂.Reorders b →
        ∃ b₂', (resolve archive₂ b₂ shelf₂).result = .ok b₂' ∧ b₂'.rules = b'.rules) ∧
      ∀ id, (load archive id shelf).result = .ok b' →
        ∃ b₂', (load archive₂ id shelf₂).result = .ok b₂' ∧ b₂'.rules = b'.rules := by
  have hlook : ∀ id c, lookup archive shelf id = .ok c → ∃ source, Book.parse source = .ok c :=
    fun _ _ hc => hshelf.exists_source hc
  have hresolves := h.resolves
  have hb : ∃ source, Book.parse source = .ok b := by
    cases h with
    | resolved hparse _ => exact ⟨_, hparse⟩
    | loaded hread _ => exact hlook _ _ hread
  refine ⟨?_, hresolves.isWrittenBelow hlook hb, hresolves.mergesInAnyOrder_iff hlook hb, ?_⟩
  · obtain ⟨part, hparts, hunion⟩ := hresolves.exists_isUnion hlook hb
    exact ⟨part, fun i hi => (load_eq_iff archive shelf i.id _).mp (hparts i hi), hunion⟩
  · intro archive₂ shelf₂ hreorder
    refine ⟨fun b₂ hb₂ => ?_, fun id hload => ?_⟩
    · obtain ⟨b₂', hresolves₂, hrules⟩ := hresolves.reorders hlook hb hreorder hb₂
      exact ⟨b₂', (resolve_eq_iff archive₂ shelf₂ b₂ _).mp hresolves₂, hrules⟩
    · cases (load_eq_iff archive shelf id _).mpr hload with
      | @resolved c _ hread hresolves' =>
          obtain ⟨c₂, hread₂, hc₂⟩ := hreorder id c hread
          obtain ⟨b₂', hresolves₂, hrules⟩ :=
            hresolves'.reorders hlook (hlook id c hread) hreorder hc₂
          exact ⟨b₂', (load_eq_iff archive₂ shelf₂ id _).mp (.resolved hread₂ hresolves₂), hrules⟩

/-- A library that is imported under two aliases, and itself imports a document. -/
theorem Book.resolved_isUnion_twice :
    let names := "name:\n- Ada\n- {{ title }} Hopper\ntitle:\n- Dr.\n"
    let library := "%preamble:\n- imports: names as n\ncard:\n- {{ n.name }} and {{ who }}\n"
    let source :=
      "%preamble:\n- imports: lib as a, lib as b\nroot:\n- {{ a.card }} {{ b.n.name }}\n"
    let archive := Archive.ofMap
      ((Std.ExtTreeMap.insert ∅ "lib" (.source library)).insert "names" (.source names))
    let b : Book := (Book.parse source).toOption.getD {}
    let b' : Book := (resolve archive b ∅).result.toOption.getD {}
    b'.ResolvedFrom archive ∅ b ∧
      (∃ part : Import → Book,
        (∀ i ∈ b.preamble.imports, (load archive i.id ∅).result = .ok (part i)) ∧
          b'.IsUnion b part) ∧
      b'.names = ["a.card", "a.n.name", "a.n.title", "b.card", "b.n.name", "b.n.title", "root"] := by
  intro names library source archive b b'
  have hparse : Book.parse source = .ok b :=
    Except.eq_ok_getD (x := Book.parse source) (by decide) {}
  have hresult : (resolve archive b ∅).result = .ok b' :=
    Except.eq_ok_getD (x := (resolve archive b ∅).result) (by decide +kernel) {}
  have hresolved : b'.ResolvedFrom archive ∅ b := .resolved hparse hresult
  have hshelf : Shelf.Parsed ∅ := fun id c hc => by simp at hc
  exact ⟨hresolved, (resolved_isUnion hshelf hresolved).1, by decide +kernel⟩

end Phrasebook
