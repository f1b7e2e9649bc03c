import Phrasebook.Proofs.Outcome
import Phrasebook.Text.Split

/-!
# Checked accesses

A text can be cut at offsets that a search has found, as long as no offset lies inside a character
or behind the end of the text; a list can be looked at where it has an element; and a number can be
taken away from one that is not smaller.  A `Checked` reading makes sure of this at each access,
and nothing comes of it if an access fails.

`Checked.Answers` says that no access of a reading fails and how it ends.  It goes through a
sequence of steps (`Checked.Answers.bind`), so a reader of offsets and one of characters are
compared step by step.
-/

namespace Phrasebook

/-! ## Offsets in a text -/

namespace Text

/-- The number of bytes that a text takes in UTF-8. -/
def byteSize : List Char → Nat
  | [] => 0
  | c :: rest => c.utf8Size + byteSize rest

/-- A text in two parts, the first of which takes so many bytes. -/
def cutOffset : List Char → Nat → Option (List Char × List Char)
  | cs, 0 => some ([], cs)
  | [], _ + 1 => none
  | c :: rest, n + 1 =>
    if c.utf8Size ≤ n + 1 then
      (cutOffset rest (n + 1 - c.utf8Size)).map fun (before, after) => (c :: before, after)
    else none

/-- The offset of the first character of a kind. -/
def findOffset (kind : Char → Bool) : List Char → Option Nat
  | [] => none
  | c :: rest => if kind c then some 0 else (findOffset kind rest).map (c.utf8Size + ·)

variable {cs before after : List Char} {n : Nat}

@[simp] theorem byteSize_nil : byteSize [] = 0 := rfl

@[simp] theorem byteSize_cons (c : Char) (cs : List Char) :
    byteSize (c :: cs) = c.utf8Size + byteSize cs := rfl

@[simp] theorem byteSize_append (before after : List Char) :
    byteSize (before ++ after) = byteSize before + byteSize after := by
  induction before with
  | nil => exact (Nat.zero_add _).symm
  | cons c rest ih =>
      rw [List.cons_append, byteSize_cons, byteSize_cons, ih, Nat.add_assoc]

theorem cutOffset_append (before after : List Char) :
    cutOffset (before ++ after) (byteSize before) = some (before, after) := by
  induction before with
  | nil => rw [List.nil_append, byteSize_nil, cutOffset]
  | cons c rest ih =>
      obtain ⟨m, hm⟩ : ∃ m, byteSize (c :: rest) = m + 1 := by
        refine ⟨byteSize (c :: rest) - 1, ?_⟩
        have hpos := c.utf8Size_pos
        rw [byteSize_cons]
        omega
      rw [List.cons_append, hm, cutOffset, ← hm, byteSize_cons, if_pos (Nat.le_add_right _ _),
        Nat.add_sub_cancel_left, ih]
      rfl

/-- Only the offsets between characters can be cut at. -/
theorem cutOffset_eq_some_iff :
    cutOffset cs n = some (before, after) ↔ cs = before ++ after ∧ byteSize before = n := by
  constructor
  · intro h
    fun_induction cutOffset cs n generalizing before
    case case1 cs =>
      obtain ⟨rfl, rfl⟩ : [] = before ∧ cs = after := by simpa using h
      exact ⟨rfl, rfl⟩
    case case2 => cases h
    case case3 c rest m hfits ih =>
      obtain ⟨⟨b, a⟩, hcut, heq⟩ := Option.map_eq_some_iff.mp h
      obtain ⟨rfl, rfl⟩ : c :: b = before ∧ a = after := by simpa using heq
      obtain ⟨rfl, hsize⟩ := ih hcut
      rw [byteSize_cons, hsize]
      exact ⟨rfl, by omega⟩
    case case4 => cases h
  · rintro ⟨rfl, rfl⟩
    exact cutOffset_append before after

/-- An offset inside a character. -/
example : cutOffset ['é', 'e'] 1 = none := by decide

/-- These offsets are the valid positions of the text as a string. -/
theorem isValid_iff_cutOffset :
    String.Pos.Raw.IsValid (String.ofList cs) ⟨n⟩ ↔ (cutOffset cs n).isSome = true := by
  have hsize : ∀ ds : List Char, (String.ofList ds).utf8ByteSize = byteSize ds := by
    intro ds
    induction ds with
    | nil => rfl
    | cons c rest ih =>
        rw [← List.singleton_append, String.ofList_append, String.utf8ByteSize_append, ih,
          byteSize_append, ← String.singleton_eq_ofList, String.utf8ByteSize_singleton]
        simp
  rw [String.Pos.Raw.isValid_ofList, Option.isSome_iff_exists]
  constructor
  · rintro ⟨i, hi⟩
    rw [hsize] at hi
    exact ⟨(cs.take i, cs.drop i),
      cutOffset_eq_some_iff.mpr ⟨(List.take_append_drop i cs).symm, hi.symm⟩⟩
  · rintro ⟨⟨before, after⟩, hcut⟩
    obtain ⟨rfl, rfl⟩ := cutOffset_eq_some_iff.mp hcut
    exact ⟨before.length, by rw [List.take_left, hsize]⟩

/-- The offset of the first character of a kind, or else of the end, is where the characters of the
other kind end. -/
theorem findOffset_getD (kind : Char → Bool) (cs : List Char) :
    (findOffset kind cs).getD (byteSize cs) = byteSize (cs.takeWhile fun c => !kind c) := by
  induction cs with
  | nil => rfl
  | cons c rest ih =>
      rw [findOffset, List.takeWhile_cons]
      cases kind c with
      | true => rfl
      | false =>
          rw [if_neg Bool.false_ne_true, Bool.not_false, if_pos rfl, byteSize_cons, byteSize_cons,
            ← ih]
          cases findOffset kind rest <;> rfl

end Text

/-! ## Checked readings -/

/-- A reading that ends with a value or an error, or of which nothing comes because an access
failed. -/
abbrev Checked (ε : Type) : Type → Type :=
  ExceptT ε Option

namespace Checked

variable {ε α β : Type}

/-- What an access finds. -/
def access (found : Option α) : Checked ε α :=
  ExceptT.lift found

/-- A step that has no access to check. -/
def plain (x : Except ε α) : Checked ε α :=
  ExceptT.mk (some x)

/-- A number without another one, which is not greater. -/
def sub (a b : Nat) : Checked ε Nat :=
  access (if b ≤ a then some (a - b) else none)

/-- The element at an index. -/
def get (as : List α) (i : Nat) : Checked ε α :=
  access as[i]?

/-- The last element and its index, which is one less than the length. -/
def last (as : List α) : Checked ε (Nat × α) := do
  let i ← sub as.length 1
  return (i, ← get as i)

/-- The elements from one index to another one. -/
def range (as : List α) (start stop : Nat) : Checked ε (List α) :=
  access (if start ≤ stop ∧ stop ≤ as.length then some ((as.take stop).drop start) else none)

/-- The text from an offset on. -/
def sliceFrom (cs : List Char) (start : Nat) : Checked ε (List Char) :=
  access ((Text.cutOffset cs start).map (·.2))

/-- The text up to an offset. -/
def sliceTo (cs : List Char) (stop : Nat) : Checked ε (List Char) :=
  access ((Text.cutOffset cs stop).map (·.1))

/-- The text from one offset to another one. -/
def slice (cs : List Char) (start stop : Nat) : Checked ε (List Char) := do
  sliceFrom (← sliceTo cs stop) start

/-- The text before another one that ends it, as far as the sizes of the two tell. -/
def sliceBefore (cs behind : List Char) : Checked ε (List Char) := do
  sliceTo cs (← sub (Text.byteSize cs) (Text.byteSize behind))

/-- Makes sure of something. -/
def assert (p : Prop) [Decidable p] : Checked ε Unit :=
  access (if p then some () else none)

/-- The same reading with its errors told in another way. -/
def mapError {ε' : Type} (f : ε → ε') (x : Checked ε α) : Checked ε' α :=
  ExceptT.mk (x.run.map (·.mapError f))

/-- No access of the reading fails, and it ends in this way. -/
def Answers (x : Checked ε α) (y : Except ε α) : Prop :=
  x.run = some y

variable {x : Checked ε α} {y : Except ε α} {z : Except ε β} {f : α → Checked ε β} {a : α}

theorem answers_pure (a : α) : (pure a : Checked ε α).Answers (.ok a) := rfl

theorem answers_throw (e : ε) : (throw e : Checked ε α).Answers (.error e) := rfl

theorem answers_plain (y : Except ε α) : (plain y).Answers y := rfl

theorem Answers.bind {g : α → Except ε β} (hx : x.Answers y) (hf : ∀ a, (f a).Answers (g a)) :
    (x >>= f).Answers (y.bind g) := by
  unfold Answers at *
  rw [ExceptT.run_bind, hx]
  cases y with
  | error e => rfl
  | ok a => exact hf a

theorem Answers.map (hx : x.Answers y) (g : α → β) :
    (x >>= fun a => pure (g a)).Answers (y.map g) := by
  unfold Answers at *
  rw [ExceptT.run_bind, hx]
  cases y <;> rfl

/-- A step that answers with a value hands it on. -/
theorem Answers.bind_ok (hx : x.Answers (.ok a)) (hf : (f a).Answers z) : (x >>= f).Answers z := by
  unfold Answers at *
  rw [ExceptT.run_bind, hx]
  exact hf

/-- A step that answers with an error is the last one. -/
theorem Answers.bind_error {e : ε} (hx : x.Answers (.error e)) : (x >>= f).Answers (.error e) := by
  unfold Answers at *
  rw [ExceptT.run_bind, hx]
  rfl

/-- A test that answers with true goes the one way. -/
theorem Answers.bind_true {test : Checked ε Bool} {b : Bool} {yes no : Checked ε β}
    (htest : test.Answers (.ok b)) (hb : b = true) (hyes : yes.Answers z) :
    (test >>= fun b => if b then yes else no).Answers z :=
  htest.bind_ok (by rwa [if_pos hb])

/-- A test that answers with false goes the other way. -/
theorem Answers.bind_false {test : Checked ε Bool} {b : Bool} {yes no : Checked ε β}
    (htest : test.Answers (.ok b)) (hb : b = false) (hno : no.Answers z) :
    (test >>= fun b => if b then yes else no).Answers z :=
  htest.bind_ok (by rwa [hb, if_neg Bool.false_ne_true])

theorem Answers.mapError {ε' : Type} (hx : x.Answers y) (g : ε → ε') :
    (x.mapError g).Answers (y.mapError g) := by
  unfold Answers at *
  rw [Checked.mapError, ExceptT.run_mk, hx]
  rfl

/-! ## Accesses that are there -/

theorem answers_access {found : Option α} (h : found = some a) :
    (access found : Checked ε α).Answers (.ok a) := by
  rw [h]
  rfl

theorem answers_sub {a b : Nat} (h : b ≤ a) : (sub a b : Checked ε Nat).Answers (.ok (a - b)) :=
  answers_access (if_pos h)

theorem answers_assert {p : Prop} [Decidable p] (h : p) :
    (assert p : Checked ε Unit).Answers (.ok ()) :=
  answers_access (if_pos h)

theorem answers_get {as : List α} {i : Nat} (h : as[i]? = some a) :
    (get as i : Checked ε α).Answers (.ok a) :=
  answers_access h

theorem answers_last (init : List α) (a : α) :
    (last (init ++ [a]) : Checked ε _).Answers (.ok (init.length, a)) := by
  have hlength : (init ++ [a]).length = init.length + 1 := by simp
  have ha : (init ++ [a])[init.length]? = some a := by simp
  refine (answers_sub (hlength ▸ Nat.le_add_left _ _)).bind_ok ?_
  rw [hlength, Nat.add_sub_cancel]
  exact (answers_get ha).bind_ok (answers_pure _)

theorem answers_sliceFrom (before after : List Char) :
    (sliceFrom (before ++ after) (Text.byteSize before) : Checked ε _).Answers (.ok after) :=
  answers_access (by rw [Text.cutOffset_append]; rfl)

theorem answers_sliceTo (before after : List Char) :
    (sliceTo (before ++ after) (Text.byteSize before) : Checked ε _).Answers (.ok before) :=
  answers_access (by rw [Text.cutOffset_append]; rfl)

theorem answers_slice (before part after : List Char) :
    (slice (before ++ part ++ after) (Text.byteSize before) (Text.byteSize (before ++ part)) :
      Checked ε _).Answers (.ok part) :=
  (answers_sliceTo (before ++ part) after).bind_ok (answers_sliceFrom before part)

theorem answers_sliceBefore (before behind : List Char) :
    (sliceBefore (before ++ behind) behind : Checked ε _).Answers (.ok before) := by
  have hsize : Text.byteSize (before ++ behind) = Text.byteSize before + Text.byteSize behind :=
    Text.byteSize_append before behind
  refine (answers_sub (hsize ▸ Nat.le_add_left _ _)).bind_ok ?_
  rw [hsize, Nat.add_sub_cancel_right]
  exact answers_sliceTo before behind

theorem answers_range {as : List α} {start stop : Nat} (hstart : start ≤ stop)
    (hstop : stop ≤ as.length) :
    (range as start stop : Checked ε _).Answers (.ok ((as.take stop).drop start)) :=
  answers_access (if_pos ⟨hstart, hstop⟩)

/-! ## Readings that end alike -/

/-- No access of the reading fails, and it ends with the same error or with related values. -/
def Follows (R : α → β → Prop) (x : Checked ε α) : Except ε β → Prop
  | .ok b => ∃ a, x.Answers (.ok a) ∧ R a b
  | .error e => x.Answers (.error e)

section Follows

variable {γ δ : Type} {R : α → β → Prop} {S : γ → δ → Prop} {w : Except ε δ}
  {f : α → Checked ε γ}

theorem answers_iff_follows : x.Answers y ↔ x.Follows Eq y := by
  cases y with
  | ok a =>
      constructor
      · exact fun h => ⟨a, h, rfl⟩
      · rintro ⟨a', h, rfl⟩
        exact h
  | error e => exact Iff.rfl

theorem Answers.bind_ok_follows (hx : x.Answers (.ok a)) (hf : (f a).Follows S w) :
    (x >>= f).Follows S w := by
  cases w with
  | ok d =>
      obtain ⟨c, hc, hcd⟩ := hf
      exact ⟨c, hx.bind_ok hc, hcd⟩
  | error e => exact hx.bind_ok hf

theorem Answers.bind_follows {g : α → Except ε δ} (hx : x.Answers y)
    (hf : ∀ a, y = .ok a → (f a).Follows S (g a)) : (x >>= f).Follows S (y.bind g) := by
  cases y with
  | ok a => exact hx.bind_ok_follows (hf a rfl)
  | error e => exact hx.bind_error

theorem Follows.bind {z : Except ε β} {g : β → Except ε δ} (hx : x.Follows R z)
    (hf : ∀ a b, z = .ok b → R a b → (f a).Follows S (g b)) : (x >>= f).Follows S (z.bind g) := by
  cases z with
  | ok b =>
      obtain ⟨a, ha, hab⟩ := hx
      exact ha.bind_ok_follows (hf a b rfl hab)
  | error e => exact Answers.bind_error hx

end Follows

end Checked

end Phrasebook
