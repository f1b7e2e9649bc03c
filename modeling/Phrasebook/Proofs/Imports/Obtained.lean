import Phrasebook.Engine.Basic
import Phrasebook.Proofs.Source.Alternatives
import Phrasebook.Proofs.Source.Parsing

/-!
# Books that are read and resolved

The books that a program gets hold of are read from a source, or come out of
resolving the imports of such a book.  Whatever holds of the books that are read and
is kept by merging one book into another under an alias holds of all of them
(`Book.Obtained.induction`).

In particular each rule is kept under its own name, and a property of rules that the
rules of a source have and that renaming keeps holds of all rules
(`Book.Obtained.all`).
-/

namespace Phrasebook

/-- A book that was read from a source, or that came out of resolving imports.  The
shelf holds books that were obtained before. -/
inductive Book.Obtained : Book → Prop
  | parsed {source : String} {b : Book} (hparse : Book.parse source = .ok b) : Obtained b
  | resolved {archive : Archive} {shelf : Shelf} {b b' : Book} (hb : Obtained b)
      (hshelf : ∀ (id : String) c, shelf[id]? = some c → Obtained c)
      (hresolve : (resolve archive b shelf).result = .ok b') : Obtained b'
  | loaded {archive : Archive} {shelf : Shelf} {id : String} {b : Book}
      (hshelf : ∀ (id : String) c, shelf[id]? = some c → Obtained c)
      (hload : (load archive id shelf).result = .ok b) : Obtained b

theorem Book.obtained_of_parseAndResolve {archive : Archive} {source : String} {b : Book}
    (h : parseAndResolve archive source = .ok b) : b.Obtained := by
  unfold parseAndResolve at h
  split at h
  · cases h
  · next written hparse =>
      have hempty : ∀ (id : String) c, (∅ : Shelf)[id]? = some c → c.Obtained := by
        intro id c hc
        simp at hc
      cases hresult : (resolve archive written ∅).result with
      | error e => rw [hresult] at h; cases h
      | ok resolved =>
          rw [hresult] at h
          obtain rfl := Except.ok.inj h
          exact .resolved (.parsed hparse) hempty hresult

/-! ## Requests -/

/-- A request that keeps a property of the books on the shelf and yields values with
a property. -/
def Request.Yields {α : Type} (I : Book → Prop) (Q : α → Prop) (x : Request α) : Prop :=
  ∀ shelf : Shelf, (∀ (id : String) c, shelf[id]? = some c → I c) →
    (∀ (id : String) c, (x shelf).shelf[id]? = some c → I c) ∧ ∀ a, (x shelf).result = .ok a → Q a

namespace Request.Yields

variable {α β : Type} {I : Book → Prop} {Q : α → Prop} {R : β → Prop}

theorem pure {a : α} (h : Q a) : Yields I Q (Request.pure a) :=
  fun _ hshelf => ⟨hshelf, fun _ heq => Except.ok.inj heq ▸ h⟩

theorem fail (e : ImportError) : Yields I Q (Request.fail e) :=
  fun _ hshelf => ⟨hshelf, fun _ heq => nomatch heq⟩

theorem bind {x : Request α} {f : α → Request β} (hx : Yields I Q x)
    (hf : ∀ a, Q a → Yields I R (f a)) : Yields I R (Request.bind x f) := by
  intro shelf hshelf
  obtain ⟨hshelf', hvalue⟩ := hx shelf hshelf
  unfold Request.bind
  dsimp only
  split
  · exact ⟨hshelf', fun _ heq => nomatch heq⟩
  · next a hresult => exact hf a (hvalue a hresult) _ hshelf'

end Request.Yields

section Resolve

variable {I : Book → Prop}

theorem fetch_yields (hparsed : ∀ source b, Book.parse source = .ok b → I b) (archive : Archive)
    (id : String) : Request.Yields I I (fetch archive id) := by
  intro shelf hshelf
  unfold fetch
  cases hheld : shelf[id]? with
  | some b => exact ⟨hshelf, fun _ heq => Except.ok.inj heq ▸ hshelf id b hheld⟩
  | none =>
      cases hread : archive.read id with
      | error e => exact ⟨hshelf, fun _ heq => nomatch heq⟩
      | ok b =>
          have hb : I b := by
            unfold Archive.read at hread
            split at hread
            · cases hread
            · cases hread
            · split at hread
              · cases hread
              · next hparse =>
                  obtain rfl := Except.ok.inj hread
                  exact hparsed _ _ hparse
          refine ⟨fun key c hc => ?_, fun _ heq => Except.ok.inj heq ▸ hb⟩
          rw [Std.ExtTreeMap.getElem?_insert] at hc
          split at hc
          · exact Option.some.inj hc ▸ hb
          · exact hshelf key c hc

theorem fetchImports_yields (hparsed : ∀ source b, Book.parse source = .ok b → I b)
    (archive : Archive) (imports : List Import) :
    Request.Yields I (fun fetched : List (Import × Book) => ∀ i ∈ fetched, I i.2)
      (fetchImports archive imports) := by
  induction imports with
  | nil => exact .pure (by simp)
  | cons i rest ih =>
      refine .bind (fetch_yields hparsed archive i.id) fun b hb => ?_
      exact .bind ih fun more hmore => .pure (List.forall_mem_cons.mpr ⟨hb, hmore⟩)

theorem mergeImports_yields
    (hmerged : ∀ b c aliasName, I b → I c → I (b.insertAll (c.under aliasName)))
    {resolve : List String → Book → Request Book}
    (hresolve : ∀ path b, I b → Request.Yields I I (resolve path b)) (path : List String)
    (imports : List (Import × Book)) :
    ∀ b, I b → (∀ i ∈ imports, I i.2) →
      Request.Yields I I (mergeImports resolve path b imports) := by
  induction imports with
  | nil => exact fun b hb _ => .pure hb
  | cons i rest ih =>
      intro b hb himports
      obtain ⟨himported, hrest⟩ := List.forall_mem_cons.mp himports
      refine .bind (hresolve _ _ himported) fun resolved hresolved => ?_
      exact ih _ (hmerged b resolved _ hb hresolved) hrest

theorem resolveAlong_yields (hparsed : ∀ source b, Book.parse source = .ok b → I b)
    (hmerged : ∀ b c aliasName, I b → I c → I (b.insertAll (c.under aliasName)))
    (archive : Archive) (more : Nat) :
    ∀ path b, I b → Request.Yields I I (resolveAlong archive more path b) := by
  -- An imported book is resolved along a longer path, so with less fuel.
  induction more with
  | zero => exact fun path b _ => .fail _
  | succ more ih =>
      intro path b hb
      unfold resolveAlong
      split
      · exact .fail _
      · refine .bind (fetchImports_yields hparsed archive _) fun imports himports => ?_
        exact mergeImports_yields hmerged ih path imports b hb himports

end Resolve

/-- What holds of books that are read and is kept by merging holds of all books that
are obtained. -/
theorem Book.Obtained.induction {I : Book → Prop}
    (hparsed : ∀ source b, Book.parse source = .ok b → I b)
    (hmerged : ∀ b c aliasName, I b → I c → I (b.insertAll (c.under aliasName))) {b : Book}
    (h : b.Obtained) : I b := by
  induction h with
  | parsed hparse => exact hparsed _ _ hparse
  | @resolved archive shelf b b' _ _ hresolve ihb ihshelf =>
      have hyields := resolveAlong_yields hparsed hmerged archive (documentBound archive shelf + 1)
      exact (hyields [] b ihb shelf ihshelf).2 _ hresolve
  | @loaded archive shelf id b _ hload ihshelf =>
      have hyields := resolveAlong_yields hparsed hmerged archive (documentBound archive shelf + 1)
      exact (Request.Yields.bind (fetch_yields hparsed archive id) (hyields [id]) shelf
        ihshelf).2 _ hload

/-! ## Properties of rules -/

namespace Book

/-- Each rule is kept under its own name and has a property. -/
def All (P : Rule → Prop) (b : Book) : Prop :=
  ∀ name r, b.rule? name = some r → r.name = name ∧ P r

variable {P : Rule → Prop}

theorem mem_ruleList {b : Book} {r : Rule} :
    r ∈ b.ruleList ↔ ∃ name, b.rule? name = some r := by
  simp [ruleList, rule?, Std.ExtTreeMap.mem_toList_iff_getElem?_eq_some]

theorem mem_names {b : Book} {name : String} : name ∈ b.names ↔ b.defines name = true := by
  rw [names, Std.ExtTreeMap.mem_keys, defines, Std.ExtTreeMap.contains_iff_mem]

theorem nodup_names (b : Book) : b.names.Nodup := Std.ExtTreeMap.nodup_keys

theorem length_names (b : Book) : b.names.length = b.rules.size := Std.ExtTreeMap.length_keys

/-- A rule of a book with more rules is one of these, or was there before. -/
theorem mem_or_rule?_of_insertAll {b : Book} {rs : List Rule} {name : String} {r : Rule}
    (h : (b.insertAll rs).rule? name = some r) :
    (r ∈ rs ∧ r.name = name) ∨ b.rule? name = some r := by
  induction rs generalizing b with
  | nil => exact Or.inr h
  | cons first rest ih =>
      rcases ih (b := b.insert first) h with ⟨hr, hname⟩ | hinsert
      · exact Or.inl ⟨List.mem_cons_of_mem first hr, hname⟩
      · rw [rule?_insert] at hinsert
        by_cases hfirst : first.name = name
        · rw [if_pos hfirst] at hinsert
          obtain rfl := Option.some.inj hinsert
          exact Or.inl ⟨List.mem_cons_self, hfirst⟩
        · rw [if_neg hfirst] at hinsert
          exact Or.inr hinsert

theorem All.insertAll {b : Book} (hb : b.All P) {rs : List Rule} (hrs : ∀ r ∈ rs, P r) :
    (b.insertAll rs).All P := by
  intro name r hr
  rcases mem_or_rule?_of_insertAll hr with ⟨hmem, hname⟩ | hold
  · exact ⟨hname, hrs r hmem⟩
  · exact hb name r hold

theorem defines_insertAll_iff {b : Book} {rs : List Rule} {name : String} :
    (b.insertAll rs).defines name = true ↔ b.defines name = true ∨ ∃ r ∈ rs, r.name = name := by
  induction rs generalizing b with
  | nil => simp [Book.insertAll]
  | cons first rest ih =>
      have hinsert : (b.insert first).defines name = true ↔
          first.name = name ∨ b.defines name = true := by
        simp only [defines_iff, rule?_insert]
        by_cases hfirst : first.name = name <;> simp [hfirst]
      have hcons : b.insertAll (first :: rest) = (b.insert first).insertAll rest := rfl
      rw [hcons, ih, hinsert, List.exists_mem_cons_iff]
      tauto

theorem All.under {b : Book} (hb : b.All P)
    (hqualified : ∀ defined aliasName r, P r → P (r.qualified defined aliasName))
    (aliasName : String) : ∀ r ∈ b.under aliasName, P r := by
  intro r hr
  obtain ⟨r', hr', rfl⟩ := List.mem_map.mp hr
  obtain ⟨name, hname⟩ := mem_ruleList.mp hr'
  exact hqualified _ _ r' (hb name r' hname).2

end Book

/-! ## The rules of a source -/

/-- An alternative as it is read, its references to the list below it having a name. -/
def Alternative.Written (a : Alternative) : Prop :=
  ∃ text read name, Alternative.Reads text read ∧ a = read.bindNested name

theorem Forest.ownRule_written {f : Forest} {owner : String}
    (hf : ∀ a ∈ f.alternatives owner 0, a.Written) :
    ∀ r ∈ f.ownRule owner, ∀ a ∈ r.alternatives, a.Written := by
  cases f with
  | nil => simp [ownRule]
  | cons a nested rest =>
      intro r hr
      rw [List.mem_singleton.mp hr]
      exact hf

theorem Forest.Laid.written {level : Nat} {f : Forest} {lines : List SourceLine}
    (h : f.Laid level lines) : ∀ owner i, (∀ a ∈ f.alternatives owner i, a.Written) ∧
      ∀ r ∈ f.nestedRules owner i, ∀ a ∈ r.alternatives, a.Written := by
  induction h with
  | nil level => simp [alternatives, nestedRules]
  | plain _ hread _ _ ih =>
      intro owner i
      obtain ⟨hrest, hnested⟩ := ih owner (i + 1)
      exact ⟨List.forall_mem_cons.mpr ⟨⟨_, _, _, hread, rfl⟩, hrest⟩, hnested⟩
  | owner _ hread _ _ _ _ _ _ ih ih' =>
      intro owner i
      obtain ⟨hrest, hothers⟩ := ih' owner (i + 1)
      obtain ⟨hown, hbelow⟩ := ih (nestedRuleName owner i) 0
      refine ⟨List.forall_mem_cons.mpr ⟨⟨_, _, _, hread, rfl⟩, hrest⟩, fun r hr => ?_⟩
      rw [nestedRules, List.mem_append, List.mem_append] at hr
      rcases hr with (hr | hr) | hr
      · exact hbelow r hr
      · exact ownRule_written hown r hr
      · exact hothers r hr

theorem Block.Laid.written {block : Block} {lines : List SourceLine} (h : block.Laid lines) :
    ∀ r ∈ block.rules, ∀ a ∈ r.alternatives, a.Written := by
  cases h with
  | preamble => simp [rules]
  | @rule _ name _ list _ _ _ _ hlist _ =>
      obtain ⟨hown, hbelow⟩ := hlist.written name 0
      intro r hr
      rcases List.mem_append.mp hr with hr | hr
      · exact hbelow r hr
      · exact Forest.ownRule_written hown r hr

/-- The rules of a book that is read are kept under their names and have alternatives
that were read. -/
theorem Book.all_written_of_parse {source : String} {b : Book} (h : Book.parse source = .ok b) :
    b.All fun r => ∀ a ∈ r.alternatives, a.Written := by
  obtain ⟨blocks, hlaid, hrules⟩ := Book.exists_blocks_of_parse h
  intro name r hr
  obtain ⟨hmem, hname⟩ := (hrules name r).mp hr
  obtain ⟨block, hblock, hr'⟩ := List.mem_flatMap.mp hmem
  obtain ⟨lines, hlines⟩ := hlaid.exists_lines hblock
  exact ⟨hname, hlines.written r hr'⟩

/-- No import has renamed a reference or one of its arguments. -/
def Reference.Unrenamed (r : Reference) : Prop :=
  r.binding = none ∧ ∀ a ∈ r.args, a.binding = none

theorem Reference.IsRead.unrenamed {r : Reference} (h : r.IsRead) : r.Unrenamed :=
  ⟨h.binding, fun a ha => (h.args a ha).binding⟩

/-- Naming the list below an alternative renames no reference in the sense of imports. -/
theorem Alternative.Written.unrenamed {a : Alternative} (h : a.Written) :
    ∀ r ∈ Template.references a.template, r.Unrenamed := by
  obtain ⟨text, read, name, hread, rfl⟩ := h
  intro r hr
  obtain ⟨r', hr', heq⟩ := Alternative.exists_read_of_mem_bindNested hr
  have hunrenamed : r'.Unrenamed := (hread.isRead r' hr').unrenamed
  rw [heq]
  split <;> exact hunrenamed

/-- The references of a book that is read are as they were written. -/
theorem Book.unrenamed_of_parse {source : String} {b : Book} (h : Book.parse source = .ok b)
    {name : String} {r : Rule} (hr : b.rule? name = some r) :
    ∀ ref ∈ r.references, ref.Unrenamed := by
  intro ref href
  have hwritten : ∀ a ∈ r.alternatives, a.Written := (Book.all_written_of_parse h name r hr).2
  obtain ⟨a, ha, hmem⟩ := List.mem_flatMap.mp href
  exact (hwritten a ha).unrenamed ref hmem

/-- A property that the rules of sources have and that renaming keeps. -/
theorem Book.Obtained.all {P : Rule → Prop}
    (hwritten : ∀ r : Rule, (∀ a ∈ r.alternatives, a.Written) → P r)
    (hqualified : ∀ defined aliasName r, P r → P (Rule.qualified defined aliasName r)) {b : Book}
    (h : b.Obtained) : b.All P := by
  refine h.induction (fun source b hparse name r hr => ?_) fun b c aliasName hb hc => ?_
  · obtain ⟨hname, hr'⟩ := Book.all_written_of_parse hparse name r hr
    exact ⟨hname, hwritten r hr'⟩
  · exact hb.insertAll (hc.under hqualified aliasName)

/-- Rules are kept under their own names. -/
theorem Book.Obtained.named {b : Book} (h : b.Obtained) {name : String} {r : Rule}
    (hr : b.rule? name = some r) : r.name = name :=
  (h.all (P := fun _ => True) (fun _ _ => trivial) (fun _ _ _ _ => trivial) name r hr).1

/-! ## Weights -/

theorem Rule.weights_qualified (defined : String → Bool) (aliasName : String) (r : Rule) :
    (r.qualified defined aliasName).weights = r.weights := by
  simp [weights, qualified, Alternative.qualified, Function.comp_def]

/-- Weights are not negative. -/
theorem Book.Obtained.zero_le_weights {b : Book} (h : b.Obtained) {name : String} {r : Rule}
    (hr : b.rule? name = some r) : ∀ w ∈ r.weights, 0 ≤ w := by
  have hall : b.All fun r => ∀ w ∈ r.weights, 0 ≤ w := by
    refine h.all (fun r hwritten w hw => ?_) fun defined aliasName r hweights => ?_
    · obtain ⟨a, ha, rfl⟩ := List.mem_map.mp hw
      obtain ⟨text, read, owner, hread, rfl⟩ := hwritten a ha
      exact hread.weight.2
    · rwa [r.weights_qualified]
  exact (hall name r hr).2

end Phrasebook
