import Phrasebook.Proofs.Imports.Transport
import Phrasebook.Proofs.Lint.Finishing
import Phrasebook.Proofs.Source.WellFormed

/-!
# Why an expansion fails

In a well-formed book an alternative can be chosen of every rule, so an expansion of one of its
rules fails for one of three reasons: references are nested too deep, a rule that is looked up does
not exist, or an animated reference fails.  A rule that is looked up is mentioned by the book: it is
that of a reference or of a `$name` argument (`Scene.failsFor_of_expandWithin`).
-/

namespace Phrasebook

/-- Why expanding a rule of a book fails, when as many references may be nested as the limit
says. -/
inductive ExpandError.FailsFor (b : Book) (limit : Nat) : ExpandError → Prop
  | depth (rule : String) : FailsFor b limit (.recursionLimit rule limit)
  | undefined {name : String} (hname : b.Mentions name) (hnone : b.defines name = false) :
    FailsFor b limit (.unknownRule name)
  | animation {e : ExpandError} (he : e.OfAnimation b) : FailsFor b limit e

/-! ## Choosing -/

/-- Whether an alternative is chosen of every rule of the book. -/
def Scene.Chooses (scene : Scene) : Prop :=
  ∀ site name r, scene.book.rule? name = some r →
    ∃ i a, scene.choose site r = some i ∧ r.alternatives[i]? = some a

theorem Rule.WellFormed.zero_le_weights {defined : String → Prop} {r : Rule}
    (h : r.WellFormed defined) : ∀ w ∈ r.weights, 0 ≤ w := by
  intro w hw
  obtain ⟨a, ha, rfl⟩ := List.mem_map.mp hw
  exact (h.alternatives a ha).nonneg

/-- A draw picks an alternative of a well-formed rule. -/
theorem Book.WellFormed.chooses {b : Book} (hb : b.WellFormed) (maxDepth : Nat) (time : Float) :
    (b.scene maxDepth time).Chooses := by
  intro site name r hr
  have hrule := hb.rules name r hr
  obtain ⟨j, hj⟩ := Choice.exists_positiveAt hrule.zero_le_weights hrule.total_pos
  have hpick : Choice.pick r.weights site.stream.unit ≠ none :=
    Choice.pick_ne_none hrule.total_pos hj _
  obtain ⟨i, hi⟩ := Option.ne_none_iff_exists'.mp hpick
  have hlt : i < r.weights.length := Choice.pick_lt_length hi
  rw [Rule.weights, List.length_map] at hlt
  exact ⟨i, r.alternatives[i], hi, List.getElem?_eq_getElem hlt⟩

/-! ## Expanding -/

/-- A rule that a reference needs is mentioned by the book of the reference. -/
theorem Book.mentions_of_needs {b : Book} {owner name : String} {rule : Rule} {r : Reference}
    {bound : NameSet} (hrule : b.rule? owner = some rule) (hr : r ∈ rule.references)
    (hname : name ∈ r.needs bound) : b.Mentions name := by
  unfold Reference.needs at hname
  by_cases hanimated : r.animated = true
  · simp [hanimated] at hname
  · rw [if_neg hanimated] at hname
    refine ⟨owner, rule, r, hrule, hr, by simpa using hanimated, ?_⟩
    rcases List.mem_append.mp hname with hvalue | hself
    · obtain ⟨a, ha, hneeded⟩ := List.mem_filterMap.mp hvalue
      cases hcases : a.value with
      | text s => simp [hcases] at hneeded
      | ref target =>
          have htarget : target = name := by
            simp only [hcases] at hneeded
            split at hneeded
            · cases hneeded
            · exact Option.some.inj hneeded
          have hmem : name ∈ r.argumentTargets :=
            Reference.mem_argumentTargets_iff.mpr ⟨a, ha, htarget ▸ hcases⟩
          exact List.mem_cons_of_mem _ hmem
    · split at hself
      · cases hself
      · rw [List.mem_singleton.mp hself]
        exact List.mem_cons_self

/-- An expansion of a rule that the book defines or mentions fails for one of the reasons. -/
theorem Scene.failsFor_of_expandWithin {scene : Scene} (hchoose : scene.Chooses) (left : Nat) :
    (scene.expandWithin left).FailsBy (ExpandError.FailsFor scene.book scene.limit)
      (fun name => scene.book.defines name = true ∨ scene.book.Mentions name) ∅ := by
  induction left with
  | zero =>
      intro held site name e _ _ hresult
      obtain rfl := Except.error.inj hresult
      exact .depth name
  | succ left ih =>
      intro held site name e hheld hname hresult
      unfold expandWithin rule at hresult
      dsimp only at hresult
      cases hrule : scene.book.rule? name with
      | none =>
          rw [hrule] at hresult
          obtain rfl := Except.error.inj hresult
          have hundefined : scene.book.defines name = false := by
            rw [← Bool.not_eq_true, Book.defines_iff, hrule]
            simp
          have hmentions : scene.book.Mentions name := hname.resolve_left (by simp [hundefined])
          exact .undefined hmentions hundefined
      | some r =>
          obtain ⟨i, a, hi, ha⟩ := hchoose (site.rule name) name r hrule
          rw [hrule] at hresult
          dsimp only at hresult
          rw [hi] at hresult
          dsimp only at hresult
          rw [ha] at hresult
          have hreferences : ∀ ref ∈ Template.references a.template, ref ∈ r.references :=
            fun ref href => List.mem_flatMap.mpr ⟨a, List.mem_of_getElem? ha, href⟩
          apply segments_failsBy ih hheld _ _ hresult
          · exact fun ref href needed hneeded =>
              Or.inr (Book.mentions_of_needs hrule (hreferences ref href) hneeded)
          · exact fun ref href hanimated e he =>
              .animation
                ⟨name, r, ref, held, scene.time, hrule, hreferences ref href, hanimated, he⟩

theorem Book.WellFormed.failsFor_of_generate {b : Book} (hb : b.WellFormed) {maxDepth : Nat}
    {root : String} {args : Bindings} {seed : Seed} {time : Float} {e : ExpandError}
    (hroot : b.defines root = true) (h : b.generate maxDepth root args seed time = .error e) :
    e.FailsFor b (min maxDepth maxDepthLimit) := by
  have hexpand : ((b.scene maxDepth time).expand args (Stream.ofSeed seed) root).result =
      .error e := by
    unfold generate at h
    cases hresult : ((b.scene maxDepth time).expand args (Stream.ofSeed seed) root).result with
    | ok p => simp [hresult, Except.map] at h
    | error e' => simpa [hresult, Except.map] using h
  have hcovers : Scene.Covers ∅ args := fun name hname => absurd hname Std.ExtTreeSet.not_mem_empty
  exact Scene.failsFor_of_expandWithin (hb.chooses maxDepth time) _ args _ root e hcovers
    (Or.inl hroot) hexpand

end Phrasebook
