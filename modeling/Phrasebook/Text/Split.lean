/-!
# Cutting a text at a character

`splitOn` cuts at every occurrence of a separator (`splitOn_append`, `splitOn_of_not_mem`), and
`cutAt` at the first one; there nothing but the separator is lost (`cutAt_eq_some`).
-/

namespace Phrasebook.Text

/-- The pieces of a text between the occurrences of `sep`; a text without `sep` is one piece. -/
def splitOn (sep : Char) : List Char → List (List Char)
  | [] => [[]]
  | c :: rest =>
    if c = sep then [] :: splitOn sep rest
    else
      match splitOn sep rest with
      | [] => [[c]]
      | piece :: more => (c :: piece) :: more

/-- The text before the first `sep` and the text after it. -/
def cutAt (sep : Char) : List Char → Option (List Char × List Char)
  | [] => none
  | c :: rest =>
    if c = sep then some ([], rest)
    else (cutAt sep rest).map fun (before, after) => (c :: before, after)

theorem splitOn_ne_nil (sep : Char) (cs : List Char) : splitOn sep cs ≠ [] := by
  cases cs with
  | nil => simp [splitOn]
  | cons c rest =>
    rw [splitOn]
    split
    · simp
    · split <;> simp

/-- A separator cuts a text wherever it stands. -/
theorem splitOn_append (sep : Char) (before after : List Char) :
    splitOn sep (before ++ sep :: after) = splitOn sep before ++ splitOn sep after := by
  induction before with
  | nil => simp [splitOn]
  | cons c rest ih =>
    rw [List.cons_append, splitOn, splitOn, ih]
    split
    · rfl
    · cases hpieces : splitOn sep rest with
      | nil => exact absurd hpieces (splitOn_ne_nil sep rest)
      | cons piece more => rfl

theorem splitOn_of_not_mem {sep : Char} {cs : List Char} (h : sep ∉ cs) :
    splitOn sep cs = [cs] := by
  induction cs with
  | nil => rfl
  | cons c rest ih =>
    obtain ⟨hc, hrest⟩ : sep ≠ c ∧ sep ∉ rest := by simpa using h
    rw [splitOn, if_neg hc.symm, ih hrest]

/-- A character that is no separator stands in one of the pieces. -/
theorem exists_piece_of_mem {sep c : Char} {cs : List Char} (hc : c ∈ cs) (hne : c ≠ sep) :
    ∃ piece ∈ splitOn sep cs, c ∈ piece := by
  induction cs with
  | nil => cases hc
  | cons first rest ih =>
    rw [splitOn]
    by_cases hfirst : first = sep
    · have hrest : c ∈ rest := by simpa [hfirst, hne] using hc
      obtain ⟨piece, hpiece, hmem⟩ := ih hrest
      exact ⟨piece, by simp [hfirst, hpiece], hmem⟩
    · rw [if_neg hfirst]
      cases hpieces : splitOn sep rest with
      | nil => exact absurd hpieces (splitOn_ne_nil sep rest)
      | cons piece more =>
        rcases List.mem_cons.1 hc with rfl | hrest
        · exact ⟨c :: piece, by simp, by simp⟩
        · obtain ⟨p, hp, hmem⟩ := ih hrest
          rw [hpieces] at hp
          rcases List.mem_cons.1 hp with rfl | hmore
          · exact ⟨first :: p, by simp, by simp [hmem]⟩
          · exact ⟨p, by simp [hmore], hmem⟩

theorem cutAt_eq_some {sep : Char} {cs before after : List Char}
    (h : cutAt sep cs = some (before, after)) :
    cs = before ++ sep :: after ∧ sep ∉ before := by
  induction cs generalizing before with
  | nil => simp [cutAt] at h
  | cons c rest ih =>
    rw [cutAt] at h
    split at h
    · next hc =>
      obtain ⟨rfl, rfl⟩ : [] = before ∧ rest = after := by simpa using h
      simp [hc]
    · next hc =>
      obtain ⟨⟨b, a⟩, hba, heq⟩ := Option.map_eq_some_iff.1 h
      obtain ⟨rfl, rfl⟩ : c :: b = before ∧ a = after := by simpa using heq
      obtain ⟨hrest, hmem⟩ := ih hba
      exact ⟨by simp [hrest], by simp [hmem, Ne.symm hc]⟩

end Phrasebook.Text
