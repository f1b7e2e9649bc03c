import Phrasebook.Book.Basic

/-!
# Releasing names from a set

`releaseAll` takes names out of a set as long as one may leave.  Whether a name may leave depends on
the names that are still kept, so each name that leaves frees others to be looked at again.  A pass
in which no name leaves is the last one, so there are at most as many passes as names; and each name
is looked at once for every name that frees it.
-/

namespace Phrasebook

/-- One pass over a list: the names that are kept after it, and those that left. -/
def release (mayLeave : NameSet → String → Bool) : List String → NameSet → NameSet × List String
  | [], kept => (kept, [])
  | name :: rest, kept =>
    if kept.contains name && mayLeave kept name then
      let (left, gone) := release mayLeave rest (kept.erase name)
      (left, name :: gone)
    else release mayLeave rest kept

/-- The names that are kept after at most so many passes, the first of which goes over `waiting` and
each other one over the names that were freed by the one before it. -/
def releaseRounds (mayLeave : NameSet → String → Bool) (frees : String → List String) :
    Nat → List String → NameSet → NameSet
  | 0, _, kept => kept
  | rounds + 1, waiting, kept =>
    match release mayLeave waiting kept with
    | (left, []) => left
    | (left, gone) => releaseRounds mayLeave frees rounds (gone.flatMap frees) left

/-- The names that are kept of a set when no more of them may leave, `waiting` being those that may
leave at the beginning. -/
def releaseAll (mayLeave : NameSet → String → Bool) (frees : String → List String)
    (waiting : List String) (kept : NameSet) : NameSet :=
  releaseRounds mayLeave frees kept.size waiting kept

theorem mem_of_mem_release {mayLeave : NameSet → String → Bool} {names : List String}
    {kept : NameSet} {name : String} (h : name ∈ (release mayLeave names kept).1) :
    name ∈ kept := by
  induction names generalizing kept with
  | nil => exact h
  | cons n rest ih =>
    rw [release] at h
    split at h
    · exact Std.ExtTreeSet.mem_of_mem_erase (ih h)
    · exact ih h

theorem size_release (mayLeave : NameSet → String → Bool) (names : List String) (kept : NameSet) :
    (release mayLeave names kept).1.size + (release mayLeave names kept).2.length = kept.size := by
  induction names generalizing kept with
  | nil => simp [release]
  | cons n rest ih =>
    rw [release]
    split
    · next h =>
      rw [Bool.and_eq_true] at h
      have hsize := ih (kept.erase n)
      have hpos : kept.size ≠ 0 := by
        intro h0
        rw [← Std.ExtTreeSet.eq_empty_iff_size_eq_zero] at h0
        simp [h0] at h
      rw [Std.ExtTreeSet.size_erase, if_pos h.1] at hsize
      simp only [List.length_cons]
      omega
    · exact ih kept

theorem mem_of_mem_releaseRounds {mayLeave : NameSet → String → Bool}
    {frees : String → List String} {rounds : Nat} {waiting : List String} {kept : NameSet}
    {name : String} (h : name ∈ releaseRounds mayLeave frees rounds waiting kept) :
    name ∈ kept := by
  induction rounds generalizing waiting kept with
  | zero => exact h
  | succ rounds ih =>
    rw [releaseRounds] at h
    split at h
    · next left hr => exact mem_of_mem_release (by rw [hr]; exact h)
    · next left gone hr => exact mem_of_mem_release (by rw [hr]; exact ih h)

end Phrasebook
