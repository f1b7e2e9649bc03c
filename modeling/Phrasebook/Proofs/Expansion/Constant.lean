import Phrasebook.Proofs.Expansion.Comparison
import Phrasebook.Proofs.Imports.Obtained
import Phrasebook.Proofs.Outcome

/-!
# Arguments as constant rules

A text can be given to a book in two ways: as an argument of a name, or as a rule of this name with
the text as its only alternative.  The two come to the same, as long as the name stands for a text
wherever it is used: no reference passes arguments to it, and no animated reference computes with
it, since numbers are looked for among the arguments only.

On the way down the two expansions hold the same arguments, but for the name itself: it is bound on
one side and, until a reference passes an argument of this name, a rule on the other side
(`Bindings.Stands`).  The rule draws a choice of its own, which changes no other draw; and it is
nested one reference deeper than anything that the other side expands.  So a success with the rule
is one with the argument, and a success with the argument is one with the rule if the limit is one
higher (`Book.argument_as_constant`).
-/

namespace Phrasebook

/-! ## Success as a comparison -/

namespace Run.Comparison

variable {α β : Type}

theorem mono (C : Comparison) {R S : α → β → Prop} {x : Run α} {y : Run β} (h : C.Holds R x y)
    (hle : ∀ a b, R a b → S a b) : C.Holds S x y := by
  rw [← Run.map_id x, ← Run.map_id y]
  exact C.map h hle

/-- The second run succeeds if the first one does. -/
def succeeds : Comparison where
  Holds R x y := ∀ a, x.result = .ok a → ∃ b, y.result = .ok b ∧ R a b
  refl x a ha := ⟨a, ha, rfl⟩
  pure h a ha := ⟨_, rfl, Except.ok.inj ha ▸ h⟩
  bind h hnext c hc := by
    obtain ⟨a, ha, hfa⟩ := result_bind_eq_ok_iff.mp hc
    obtain ⟨b, hb, hab⟩ := h a ha
    obtain ⟨d, hd, hcd⟩ := hnext a b hab c hfa
    exact ⟨d, result_bind_eq_ok_iff.mpr ⟨b, hb, hd⟩, hcd⟩

/-- The same comparison with the two runs in the other order. -/
def flip (C : Comparison) : Comparison where
  Holds R x y := C.Holds (fun b a => R a b) y x
  refl x := C.mono (C.refl x) fun _ _ h => h.symm
  pure h := C.pure h
  bind h hnext := C.bind h fun b a hab => hnext a b hab

end Run.Comparison

/-! ## What an animated reference reads -/

/-- Whether an animated reference computes with the argument of a name. -/
def Reference.Reads (r : Reference) (key : String) : Prop :=
  ∃ name ∈ ["from", "to", "decimals"], ∃ a, r.argument? name = some a ∧ a.bindingKey? = some key

section Reading

variable {held held' : Bindings}

theorem Argument.boundText_congr {a : Argument}
    (h : ∀ key, a.bindingKey? = some key → held[key]? = held'[key]?) :
    a.boundText held = a.boundText held' := by
  unfold boundText
  cases hvalue : a.value with
  | text s => rfl
  | ref name =>
      have hkey : a.bindingKey? = some (a.binding.getD name) := by rw [bindingKey?, hvalue]
      dsimp only
      rw [h _ hkey]

theorem Reference.number_of_reads {r : Reference}
    (h : ∀ key, r.Reads key → held[key]? = held'[key]?)
    {name : String} (hname : name ∈ ["from", "to", "decimals"]) :
    r.number name held = r.number name held' := by
  unfold number
  cases ha : r.argument? name with
  | none => rfl
  | some a =>
      have hread : ∀ key, a.bindingKey? = some key → held[key]? = held'[key]? :=
        fun key hkey => h key ⟨name, hname, a, ha, hkey⟩
      dsimp only
      rw [Argument.boundText_congr hread]

theorem Reference.animate_of_reads {r : Reference}
    (h : ∀ key, r.Reads key → held[key]? = held'[key]?) (time : Float) :
    r.animate held time = r.animate held' time := by
  have hfirst : r.number "from" held = r.number "from" held' := number_of_reads h (by simp)
  have hlast : r.number "to" held = r.number "to" held' := number_of_reads h (by simp)
  have hplaces : r.number "decimals" held = r.number "decimals" held' := number_of_reads h (by simp)
  unfold animate places
  rw [hfirst, hlast, hplaces]

end Reading

/-! ## Bindings with and without the name -/

/-- Two sets of arguments that differ only in that a name is bound to a passage in the first and not
bound in the second; or not even in this, where an argument of the name was passed since. -/
structure Bindings.Stands (a : String) (p : Passage) (held held' : Bindings) : Prop where
  others : ∀ key, key ≠ a → held[key]? = held'[key]?
  self : ∃ q, held[a]? = some q ∧ (held'[a]? = some q ∨ q = p ∧ held'[a]? = none)

namespace Bindings.Stands

variable {a : String} {p : Passage} {held held' : Bindings}

theorem insert_self (h : held[a]? = none) : Stands a p (held.insert a p) held where
  others key hkey := by
    rw [Std.ExtTreeMap.getElem?_insert, if_neg (by simpa using hkey.symm)]
  self := ⟨p, Std.ExtTreeMap.getElem?_insert_self, Or.inr ⟨rfl, h⟩⟩

theorem insert (h : Stands a p held held') (name : String) (q : Passage) :
    Stands a p (held.insert name q) (held'.insert name q) where
  others key hkey := by
    rw [Std.ExtTreeMap.getElem?_insert, Std.ExtTreeMap.getElem?_insert, h.others key hkey]
  self := by
    rw [Std.ExtTreeMap.getElem?_insert, Std.ExtTreeMap.getElem?_insert]
    by_cases hname : name = a
    · exact ⟨q, by simp [hname], Or.inl (by simp [hname])⟩
    · simpa [hname] using h.self

end Bindings.Stands

/-! ## The constant rule -/

/-- The rule of a name with a text as its only alternative. -/
def Rule.constant (name text : String) : Rule :=
  ⟨name, [⟨1, [.literal text]⟩]⟩

/-- Of a single alternative of weight one, the first is picked. -/
theorem Choice.pick_one (u : Float) : pick [1] u = some 0 := by
  have htotal : (0 : Float) < total [1] := by decide
  have hlast : lastPositive [(1 : Float)] = some 0 := by decide
  rw [pick, if_pos htotal, hlast, firstPast]
  split <;> rfl

/-- A book in which a name stands for a text wherever it is used: no import renamed a reference, no
reference passes arguments to the name, and no animated reference computes with it. -/
structure Book.UsesAsText (b : Book) (a : String) : Prop where
  unrenamed : ∀ owner r ref, b.rule? owner = some r → ref ∈ r.references → ref.Unrenamed
  bare : ∀ owner r ref, b.rule? owner = some r → ref ∈ r.references → ref.animated = false →
    ref.name = a → ref.args = []
  unread : ∀ owner r ref, b.rule? owner = some r → ref ∈ r.references → ref.animated = true →
    ¬ ref.Reads a

namespace Scene

/-- Two scenes that differ in the limit and in that the second one has a constant rule of a name. -/
structure Defines (scene scene' : Scene) (a text : String) : Prop where
  rule : scene'.book.rule? a = some (Rule.constant a text)
  others : ∀ name, name ≠ a → scene'.book.rule? name = scene.book.rule? name
  time : scene'.time = scene.time
  choose : scene'.choose = scene.choose
  chosen : ∀ site, scene'.choose site (Rule.constant a text) = some 0

/-- Expanding the constant rule gives its text. -/
theorem Defines.result_expandWithin {scene scene' : Scene} {a text : String}
    (h : Defines scene scene' a text) (left : Nat) (held : Bindings) (site : Site) :
    (scene'.expandWithin (left + 1) held site a).result = .ok (.plain text) := by
  unfold expandWithin Scene.rule
  rw [h.rule]
  dsimp only
  rw [h.chosen]
  rfl

/-- Two ways to expand rules that compare where the name is bound on one side only.  Nothing is said
of expanding the name itself where it is bound. -/
structure Expander.Agrees (C : Run.Comparison) (a text : String) (expand expand' : Expander) :
    Prop where
  others : ∀ held held' site name, Bindings.Stands a (.plain text) held held' → name ≠ a →
    C.Holds Eq (expand held site name) (expand' held' site name)
  constant : ∀ held' site, C.Holds Eq (Run.pure (.plain text)) (expand' held' site a)

section Agrees

variable {C : Run.Comparison} {scene scene' : Scene} {a text : String} {expand expand' : Expander}
  {held held' : Bindings}

theorem boundOr_agrees (hexpand : Expander.Agrees C a text expand expand')
    (hheld : Bindings.Stands a (.plain text) held held') (site : Site) (name : String) :
    C.Holds Eq (boundOr expand held site name name) (boundOr expand' held' site name name) := by
  unfold boundOr
  by_cases hname : name = a
  · rw [hname]
    obtain ⟨q, hbound, hsame | ⟨rfl, hnone⟩⟩ := hheld.self
    · rw [hbound, hsame]
      exact C.refl _
    · rw [hbound, hnone]
      exact hexpand.constant held' site
  · rw [hheld.others name hname]
    cases held'[name]? with
    | some p => exact C.refl _
    | none => exact hexpand.others held held' site name hheld hname

theorem reference_agrees (hexpand : Expander.Agrees C a text expand expand')
    (htime : scene'.time = scene.time) (hheld : Bindings.Stands a (.plain text) held held')
    (site : Site) {r : Reference} (hunrenamed : r.Unrenamed)
    (hbare : r.animated = false → r.name = a → r.args = [])
    (hunread : r.animated = true → ¬ r.Reads a) :
    C.Holds Eq (scene.reference expand held site r) (scene'.reference expand' held' site r) := by
  refine reference_compare (H := Bindings.Stands a (.plain text)) Passage.compatible_eq ?_ hheld
    ?_ ?_ ?_ ?_
  · rintro passed passed' name p _ hpassed rfl
    exact hpassed.insert name p
  · intro hanimated
    have hread : ∀ key, r.Reads key → held[key]? = held'[key]? := by
      intro key hkey
      refine hheld.others key ?_
      rintro rfl
      exact hunread hanimated hkey
    rw [Reference.animate_of_reads hread, htime]
    exact C.refl _
  · intro _
    have hkey : r.bindingKey = r.name := by
      rw [Reference.bindingKey, hunrenamed.1, Option.getD_none]
    rw [hkey]
    exact boundOr_agrees hexpand hheld site r.name
  · intro _ index arg harg name _
    rw [hunrenamed.2 arg harg, Option.getD_none]
    exact boundOr_agrees hexpand hheld (site.argument index) name
  · intro hanimated hargs passed passed' hpassed
    exact hexpand.others passed passed' site r.name hpassed fun hname =>
      hargs (hbare hanimated hname)

theorem rule_agrees (hscene : Defines scene scene' a text) (hbook : scene.book.UsesAsText a)
    (hexpand : Expander.Agrees C a text expand expand')
    (hheld : Bindings.Stands a (.plain text) held held') (depth : Nat) (site : Site) {name : String}
    (hname : name ≠ a) :
    C.Holds Eq (scene.rule expand depth held site name)
      (scene'.rule expand' depth held' site name) := by
  refine rule_compare (hscene.others name hname) hscene.choose ?_ depth
  intro r alternative i hr hmem
  refine segments_compare Passage.compatible_eq i (fun index ref href => ?_) 0
  have href' : ref ∈ r.references := List.mem_flatMap.mpr ⟨alternative, hmem, href⟩
  exact reference_agrees hexpand hscene.time hheld _ (hbook.unrenamed name r ref hr href')
    (hbook.bare name r ref hr href') (hbook.unread name r ref hr href')

end Agrees

section Limits

variable {scene scene' : Scene} {a text : String}

/-- With one limit, what succeeds with the rule succeeds with the argument. -/
theorem expandWithin_of_constant (hscene : Defines scene scene' a text)
    (hbook : scene.book.UsesAsText a) (hlimit : scene'.limit = scene.limit) (left : Nat) :
    Expander.Agrees Run.Comparison.succeeds.flip a text (scene.expandWithin left)
      (scene'.expandWithin left) := by
  induction left with
  | zero =>
      constructor
      · intro held held' site name _ _ p hp
        cases hp
      · intro held' site p hp
        cases hp
  | succ left ih =>
      constructor
      · intro held held' site name hheld hname
        unfold expandWithin
        rw [hlimit]
        exact rule_agrees hscene hbook ih hheld _ site hname
      · intro held' site p hp
        rw [hscene.result_expandWithin left held' site] at hp
        exact ⟨_, rfl, Except.ok.inj hp⟩

/-- What succeeds with the argument succeeds with the rule if one reference more can be nested. -/
theorem expandWithin_with_constant (hscene : Defines scene scene' a text)
    (hbook : scene.book.UsesAsText a) (hlimit : scene'.limit = scene.limit + 1) (left : Nat) :
    Expander.Agrees Run.Comparison.succeeds a text (scene.expandWithin left)
      (scene'.expandWithin (left + 1)) := by
  induction left with
  | zero =>
      constructor
      · intro held held' site name _ _ p hp
        cases hp
      · intro held' site p hp
        exact ⟨p, Except.ok.inj hp ▸ hscene.result_expandWithin 0 held' site, rfl⟩
  | succ left ih =>
      constructor
      · intro held held' site name hheld hname
        have hdepth : scene'.limit - (left + 1) = scene.limit - left := by omega
        rw [expandWithin, expandWithin, hdepth]
        exact rule_agrees hscene hbook ih hheld _ site hname
      · intro held' site p hp
        exact ⟨p, Except.ok.inj hp ▸ hscene.result_expandWithin (left + 1) held' site, rfl⟩

end Limits

end Scene

/-! ## The main statement -/

/-- The scene of a book, and that of the book with a constant rule. -/
theorem Book.defines_constant (b : Book) (a text : String) (limit limit' : Nat) (time : Float) :
    Scene.Defines (b.scene limit time)
      ((b.insert (.constant a text)).scene limit' time) a text where
  rule := by
    change (b.insert (.constant a text)).rule? a = _
    rw [rule?_insert]
    exact if_pos rfl
  others name hname := by
    change (b.insert (.constant a text)).rule? name = b.rule? name
    rw [rule?_insert]
    exact if_neg hname.symm
  time := rfl
  choose := rfl
  chosen site := by
    change Choice.pick (Rule.constant a text).weights site.stream.unit = some 0
    exact Choice.pick_one site.stream.unit

/-- Where a name is used as a text only, a text of this name comes to the same as an argument of the
root and as a constant rule: an expansion that succeeds with the rule succeeds with the argument and
the same limit, and one that succeeds with the argument succeeds with the rule if one reference more
can be nested. -/
theorem Book.argument_as_constant {b : Book} {a root : String} (hbook : b.UsesAsText a)
    (hroot : root ≠ a) {args : Bindings} (hargs : a ∉ args) (text : String) (stream : Stream)
    (time : Float) (limit : Nat) :
    let bound := args.insert a (.plain text)
    let b' := b.insert (.constant a text)
    (∀ p, ((b'.scene limit time).expand args stream root).result = .ok p →
      ((b.scene limit time).expand bound stream root).result = .ok p) ∧
    (limit < 256 → ∀ p, ((b.scene limit time).expand bound stream root).result = .ok p →
      ((b'.scene (limit + 1) time).expand args stream root).result = .ok p) := by
  intro bound b'
  have hstands : Bindings.Stands a (.plain text) bound args :=
    .insert_self (Std.ExtTreeMap.getElem?_eq_none hargs)
  constructor
  · intro p hp
    have hscene := b.defines_constant a text limit limit time
    have hagrees := Scene.expandWithin_of_constant hscene hbook rfl (min limit maxDepthLimit + 1)
    obtain ⟨q, hq, rfl⟩ := hagrees.others bound args (.root stream) root hstands hroot p hp
    exact hq
  · intro hlimit p hp
    have hscene := b.defines_constant a text limit (limit + 1) time
    have hless : min limit maxDepthLimit = limit := Nat.min_eq_left (Nat.le_of_lt hlimit)
    have hmore : min (limit + 1) maxDepthLimit = limit + 1 := Nat.min_eq_left hlimit
    have hlimits : (b'.scene (limit + 1) time).limit = (b.scene limit time).limit + 1 := by
      simp only [Book.scene, hless, hmore]
    have hagrees := Scene.expandWithin_with_constant hscene hbook hlimits (limit + 1)
    have hp' : ((b.scene limit time).expandWithin (limit + 1) bound (.root stream) root).result =
        .ok p := by
      rwa [Scene.expand, show (b.scene limit time).limit = limit from hless] at hp
    obtain ⟨q, hq, rfl⟩ := hagrees.others bound args (.root stream) root hstands hroot p hp'
    rwa [Scene.expand, show (b'.scene (limit + 1) time).limit = limit + 1 from hmore]

/-- The name on a card, passed on by one reference and used by another one. -/
theorem Book.argument_as_constant_card :
    let growth : Reference :=
      { name := "lerp", args := [⟨"to", .text "9", none⟩], animated := true }
    let passing : Reference := { name := "card", args := [⟨"name", .ref "who", none⟩] }
    let start : Rule := ⟨"root", [⟨1, [.reference passing, .reference growth]⟩]⟩
    let card : Rule := ⟨"card", [⟨1, [.reference { name := "who" }, .literal " or "]⟩, ⟨2, []⟩]⟩
    let b : Book := insertAll {} [start, card]
    let b' := b.insert (.constant "who" "Ada")
    let bound := (∅ : Bindings).insert "who" (.plain "Ada")
    let stream := Stream.ofSeed ⟨[7], by simp⟩
    b.UsesAsText "who" ∧ "root" ≠ "who" ∧ "who" ∉ (∅ : Bindings) ∧ 7 < 256 ∧
      (∀ p, ((b'.scene 7 0).expand ∅ stream "root").result = .ok p →
        ((b.scene 7 0).expand bound stream "root").result = .ok p) ∧
      ∀ p, ((b.scene 7 0).expand bound stream "root").result = .ok p →
        ((b'.scene 8 0).expand ∅ stream "root").result = .ok p := by
  intro growth passing start card b b' bound stream
  have hrules : ∀ owner r, b.rule? owner = some r → r ∈ [start, card] := by
    intro owner r hr
    simp only [b, insertAll, List.foldl_cons, List.foldl_nil, rule?_insert] at hr
    split at hr
    · simpa using Or.inr (Option.some.inj hr).symm
    · split at hr
      · simpa using Or.inl (Option.some.inj hr).symm
      · simp [rule?] at hr
  have hrefs : ∀ r ∈ [start, card], ∀ ref ∈ r.references,
      (ref.binding = none ∧ ∀ a ∈ ref.args, a.binding = none) ∧
        (ref.animated = false → ref.name = "who" → ref.args = []) ∧
        (ref.animated = true → ∀ a ∈ ref.args, a.bindingKey? ≠ some "who") := by decide
  have hbook : b.UsesAsText "who" := by
    refine ⟨fun owner r ref hr href => ?_, fun owner r ref hr href => ?_,
      fun owner r ref hr href hanimated => ?_⟩
    · exact (hrefs r (hrules owner r hr) ref href).1
    · exact (hrefs r (hrules owner r hr) ref href).2.1
    · rintro ⟨name, -, a, ha, hkey⟩
      have hmem : a ∈ ref.args := List.mem_reverse.mp (List.mem_of_find?_eq_some ha)
      exact (hrefs r (hrules owner r hr) ref href).2.2 hanimated a hmem hkey
  have hroot : "root" ≠ "who" := by decide
  have hargs : "who" ∉ (∅ : Bindings) := by simp
  have hmain := argument_as_constant hbook hroot hargs "Ada" stream 0 7
  exact ⟨hbook, hroot, hargs, by decide, hmain.1, hmain.2 (by decide)⟩

end Phrasebook
