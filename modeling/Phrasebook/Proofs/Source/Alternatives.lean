import Phrasebook.Proofs.Outcome
import Phrasebook.Proofs.Source.Layout

/-!
# What an alternative can be read as

The weight of an alternative is finite and not negative.  The name in a placeholder is `_` or a
sequence of identifiers with dots between them, a `$name` argument names such a sequence, and
arguments are named by identifiers; nothing was renamed yet (`Alternative.Reads.isRead`).
-/

namespace Phrasebook

/-- An argument as a placeholder can pass it. -/
structure Argument.IsRead (a : Argument) : Prop where
  name : isIdentifier a.name.toList = true
  target : ∀ target, a.value = .ref target → isQualifiedIdentifier target.toList = true
  binding : a.binding = none

/-- A reference as a placeholder can hold it. -/
structure Reference.IsRead (r : Reference) : Prop where
  name : r.name = nestedName ∨ isQualifiedIdentifier r.name.toList = true
  args : ∀ a ∈ r.args, a.IsRead
  binding : r.binding = none

/-! ## Arguments -/

theorem Value.target_of_parse {raw : List Char} {target : String}
    (h : Value.parse raw = .ok (.ref target)) : isQualifiedIdentifier target.toList = true := by
  unfold Value.parse at h
  split at h
  · split at h
    · cases h
    · dsimp only at h
      split at h <;> cases h
  · split at h
    · next hname =>
        cases h
        rwa [String.toList_ofList]
    · cases h
  · cases h

theorem Argument.isRead_of_parse {raw : List Char} {a : Argument}
    (h : Argument.parse raw = .ok a) : a.IsRead := by
  unfold Argument.parse at h
  dsimp only at h
  split at h
  · cases h
  · split at h
    · cases h
    · split at h
      · next hname =>
          obtain ⟨value, hvalue, rfl⟩ := Except.map_eq_ok_iff.mp h
          refine ⟨by rwa [String.toList_ofList], ?_, rfl⟩
          rintro target rfl
          exact Value.target_of_parse hvalue
      · cases h

theorem Argument.isRead_of_parseAll {raw : List Char} {args : List Argument}
    (h : Argument.parseAll raw = .ok args) : ∀ a ∈ args, a.IsRead := by
  unfold Argument.parseAll at h
  split at h
  · cases h
    simp
  · intro a ha
    obtain ⟨part, -, hpart⟩ := Except.exists_of_mem_mapM h ha
    exact Argument.isRead_of_parse hpart

/-! ## References -/

theorem Reference.isRead_of_parseArguments {name : String} {rest : List Char}
    {args : List Argument} (h : Reference.parseArguments name rest = .ok args) :
    ∀ a ∈ args, a.IsRead := by
  unfold Reference.parseArguments at h
  split at h
  · cases h
    simp
  · split at h
    · cases h
    · dsimp only at h
      split at h
      · exact Argument.isRead_of_parseAll h
      · cases h
  · cases h

theorem Reference.isRead_of_parse {body : List Char} {r : Reference}
    (h : Reference.parse body = .ok r) : r.IsRead := by
  unfold Reference.parse at h
  -- The name and the arguments are read in the same way behind a `~` and without one.
  split at h
  all_goals
    dsimp only at h
    split at h
    · cases h
    · split at h
      · cases h
      · next hvalid =>
          obtain ⟨args, hargs, rfl⟩ := Except.map_eq_ok_iff.mp h
          refine ⟨?_, Reference.isRead_of_parseArguments hargs, rfl⟩
          rw [not_and_or, not_not, Bool.not_eq_false] at hvalid
          dsimp only
          rw [String.toList_ofList]
          refine hvalid.imp_left fun hname => ?_
          rw [hname, String.ofList_toList]

theorem Template.isRead_of_parse {column : Nat} {text : List Char} {t : Template}
    (h : Template.parse column text = .ok t) : ∀ r ∈ Template.references t, r.IsRead := by
  intro r hr
  have hsegment : .reference r ∈ t := Template.mem_references_iff.mp hr
  obtain ⟨piece, -, hpiece⟩ := Except.exists_of_mem_mapM h hsegment
  cases piece with
  | text s => cases hpiece
  | unclosed c => cases hpiece
  | slot c body =>
      unfold Piece.toSegment at hpiece
      dsimp only at hpiece
      split at hpiece
      · cases hpiece
      · split at hpiece
        · next r' hparse =>
            cases hpiece
            exact Reference.isRead_of_parse hparse
        · cases hpiece

theorem Alternative.Reads.isRead {text : List Char} {a : Alternative} (h : a.Reads text) :
    ∀ r ∈ Template.references a.template, r.IsRead := by
  obtain ⟨body, skipped, -, hparse⟩ := h
  exact Template.isRead_of_parse (hparse 0)

/-! ## Weights -/

/-- What is cut off is a weight that can be counted with, and the text behind it is left. -/
theorem weight_and_suffix_of_cutWeight {text body : List Char} {weight : Float} {skipped : Nat}
    (h : cutWeight text = .ok (weight, body, skipped)) :
    (weight.isFinite = true ∧ 0 ≤ weight) ∧ body <:+ text ∧
      skipped = text.length - body.length := by
  have hone : (1 : Float).isFinite = true ∧ (0 : Float) ≤ 1 := by decide
  have hwhole : text <:+ text ∧ 0 = text.length - text.length := by simp
  unfold cutWeight at h
  split at h
  · cases h
    exact ⟨hone, List.tail_suffix _, by simp⟩
  · next rest =>
      split at h
      · cases h
        exact ⟨hone, hwhole⟩
      · next inside after hcut =>
          split at h
          · cases h
            exact ⟨hone, hwhole⟩
          · split at h
            · next hweight =>
                obtain ⟨rfl, -⟩ := Text.cutAt_eq_some hcut
                have hafter : after <:+ '[' :: (inside ++ ']' :: after) :=
                  ⟨'[' :: (inside ++ [']']), by simp⟩
                cases h
                refine ⟨hweight, List.IsSuffix.trans ?_ hafter, rfl⟩
                split
                · exact List.suffix_cons _ _
                · exact List.suffix_rfl
            · cases h
  · cases h
    exact ⟨hone, hwhole⟩

theorem Alternative.Reads.weight {text : List Char} {a : Alternative} (h : a.Reads text) :
    a.weight.isFinite = true ∧ 0 ≤ a.weight := by
  obtain ⟨body, skipped, hcut, -⟩ := h
  exact (weight_and_suffix_of_cutWeight hcut).1

/-! ## References to a nested list -/

theorem Segment.reference_of_bindNested {name : String} {s : Segment} {r : Reference}
    (h : s.bindNested name = .reference r) :
    ∃ read, s = .reference read ∧ r = if read.isNestedSlot then { read with name } else read := by
  cases s with
  | literal s => cases h
  | reference read =>
      unfold bindNested at h
      exact ⟨read, rfl, (Segment.reference.inj h).symm⟩

/-- A reference of an alternative whose nested list has a name is one that was read, or one to the
nested list. -/
theorem Alternative.exists_read_of_mem_bindNested {a : Alternative} {name : String} {r : Reference}
    (hr : r ∈ Template.references (a.bindNested name).template) :
    ∃ read ∈ Template.references a.template,
      r = if read.isNestedSlot then { read with name } else read := by
  obtain ⟨before, hbefore, hbound⟩ := List.mem_map.mp (Template.mem_references_iff.mp hr)
  obtain ⟨read, rfl, hread⟩ := Segment.reference_of_bindNested hbound
  exact ⟨read, Template.mem_references_iff.mpr hbefore, hread⟩

end Phrasebook
