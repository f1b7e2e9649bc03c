import Phrasebook.Template.Reader

/-!
# Text that quotes hide

A search in a placeholder looks for a mark outside quotes.  A text that shows the mark nowhere
outside quotes, and leaves no quote open, is passed over by every search for this mark
(`cutAt_of_covered`, `splitOn_of_covered`); such texts can be put behind each other.

Two opening braces side by side are refused everywhere in a placeholder, between quotes too.  A text
that shows none of some marks and no such braces is `Inert`.

Any text can be written between quotes: a backslash goes before a quote, a backslash and an opening
brace.  The written form is read back as the text (`read_append`), and it is inert for all marks but
the quote itself (`inert_write`).
-/

namespace Phrasebook

namespace Quoting

variable {mark : Char} {q : Quoting}

theorem after_append (q : Quoting) (cs ds : List Char) :
    q.after (cs ++ ds) = (q.after cs).after ds :=
  List.foldl_append

/-! ## Hiding a mark -/

/-- Whether a reader that starts at `q` never meets `mark` outside quotes. -/
def Hides (mark : Char) : Quoting → List Char → Prop
  | _, [] => True
  | q, c :: rest => ¬(q = .bare ∧ c = mark) ∧ Hides mark (q.next c) rest

theorem hides_append_iff {cs ds : List Char} :
    Hides mark q (cs ++ ds) ↔ Hides mark q cs ∧ Hides mark (q.after cs) ds := by
  induction cs generalizing q with
  | nil => exact (iff_of_eq (true_and _)).symm
  | cons c cs ih =>
      rw [List.cons_append, Hides, Hides, ih, and_assoc]
      rfl

/-- A text that as a whole stands outside quotes and shows `mark` nowhere. -/
structure Covered (mark : Char) (cs : List Char) : Prop where
  hides : Hides mark .bare cs
  closed : after .bare cs = .bare

theorem covered_nil (mark : Char) : Covered mark [] :=
  ⟨trivial, rfl⟩

theorem Covered.append {cs ds : List Char} (hc : Covered mark cs) (hd : Covered mark ds) :
    Covered mark (cs ++ ds) where
  hides := hides_append_iff.mpr ⟨hc.hides, by rw [hc.closed]; exact hd.hides⟩
  closed := by rw [after_append, hc.closed, hd.closed]

theorem Covered.cons {c : Char} {cs : List Char} (hmark : c ≠ mark) (hquote : c ≠ '"')
    (hcs : Covered mark cs) : Covered mark (c :: cs) := by
  have hnext : next .bare c = .bare := if_neg hquote
  refine ⟨⟨fun h => hmark h.2, ?_⟩, ?_⟩
  · rw [hnext]
    exact hcs.hides
  · rw [after, List.foldl_cons, hnext]
    exact hcs.closed

theorem covered_of_forall {cs : List Char} (h : ∀ c ∈ cs, c ≠ mark ∧ c ≠ '"') :
    Covered mark cs := by
  induction cs with
  | nil => exact covered_nil mark
  | cons c cs ih =>
      obtain ⟨hmark, hquote⟩ := h c List.mem_cons_self
      exact .cons hmark hquote (ih fun d hd => h d (List.mem_cons_of_mem c hd))

/-- Quotes cover what stands between them and leaves them open. -/
theorem covered_between_quotes (hmark : mark ≠ '"') {cs : List Char}
    (hhides : Hides mark .quoted cs) (hafter : after .quoted cs = .quoted) :
    Covered mark ('"' :: (cs ++ ['"'])) := by
  refine ⟨⟨fun h => hmark h.2.symm, hides_append_iff.mpr ⟨hhides, ?_, trivial⟩⟩, ?_⟩
  · rw [show next .bare '"' = .quoted from rfl, hafter]
    simp
  · change after .quoted (cs ++ ['"']) = .bare
    rw [after_append, hafter]
    rfl

/-! ## Searches pass over what is hidden -/

theorem cutAt_append {cs : List Char} (h : Hides mark q cs) (hbare : q.after cs = .bare)
    (rest : List Char) : cutAt mark q (cs ++ mark :: rest) = some (cs, rest) := by
  induction cs generalizing q with
  | nil =>
      obtain rfl : q = .bare := hbare
      rw [List.nil_append, cutAt, if_pos ⟨rfl, rfl⟩]
  | cons c cs ih => rw [List.cons_append, cutAt, if_neg h.1, ih h.2 hbare, Option.map_some]

theorem splitOn_eq_singleton {cs : List Char} (h : Hides mark q cs) :
    splitOn mark q cs = [cs] := by
  induction cs generalizing q with
  | nil => rfl
  | cons c cs ih => rw [splitOn, if_neg h.1, ih h.2]

theorem splitOn_append {cs : List Char} (h : Hides mark q cs) (hbare : q.after cs = .bare)
    (rest : List Char) :
    splitOn mark q (cs ++ mark :: rest) = cs :: splitOn mark .bare rest := by
  induction cs generalizing q with
  | nil =>
      obtain rfl : q = .bare := hbare
      rw [List.nil_append, splitOn, if_pos ⟨rfl, rfl⟩]
  | cons c cs ih => rw [List.cons_append, splitOn, if_neg h.1, ih h.2 hbare]

/-! ## Writing quoted text -/

/-- The characters that a backslash is written before.  A brace needs it only next to another one,
and may have it anywhere. -/
def isGuarded (c : Char) : Bool :=
  c == '"' || c == '\\' || c == '{'

/-- A character of a quoted text, as it is written. -/
def writeChar (c : Char) : List Char :=
  if isGuarded c then ['\\', c] else [c]

/-- A text between quotes. -/
def write (cs : List Char) : List Char :=
  '"' :: (cs.flatMap writeChar ++ ['"'])

theorem not_quote_of_not_isGuarded {c : Char} (h : ¬isGuarded c = true) :
    c ≠ '"' ∧ c ≠ '\\' ∧ c ≠ '{' := by
  simpa [isGuarded, and_assoc] using h

theorem read_append (cs rest : List Char) :
    read (cs.flatMap writeChar ++ '"' :: rest) = some (cs, rest) := by
  induction cs with
  | nil => rfl
  | cons c cs ih =>
      rw [List.flatMap_cons, List.append_assoc, writeChar]
      split
      · rw [List.cons_append, List.cons_append, List.nil_append, read, ih, Option.map_some]
      · next hplain =>
          obtain ⟨hquote, hslash, -⟩ := not_quote_of_not_isGuarded hplain
          rw [List.cons_append, List.nil_append, read.eq_5 _ _ hquote, ih, Option.map_some]
          · exact fun d _ hd => absurd hd hslash
          · exact fun hd _ => absurd hd hslash

/-- A character written between quotes is read without leaving them. -/
theorem hides_writeChar (mark c : Char) :
    Hides mark .quoted (writeChar c) ∧ after .quoted (writeChar c) = .quoted := by
  unfold writeChar
  split
  · exact ⟨⟨by simp, by simp [next], trivial⟩, rfl⟩
  · next hplain =>
      obtain ⟨hquote, hslash, -⟩ := not_quote_of_not_isGuarded hplain
      exact ⟨⟨by simp, trivial⟩, by simp [after, next, hquote, hslash]⟩

theorem hides_flatMap_writeChar (mark : Char) (cs : List Char) :
    Hides mark .quoted (cs.flatMap writeChar) ∧
      after .quoted (cs.flatMap writeChar) = .quoted := by
  induction cs with
  | nil => exact ⟨trivial, rfl⟩
  | cons c cs ih =>
      obtain ⟨hhides, hafter⟩ := hides_writeChar mark c
      rw [List.flatMap_cons, hides_append_iff, after_append, hafter]
      exact ⟨⟨hhides, ih.1⟩, ih.2⟩

theorem covered_write (hmark : mark ≠ '"') (cs : List Char) : Covered mark (write cs) := by
  obtain ⟨hhides, hafter⟩ := hides_flatMap_writeChar mark cs
  exact covered_between_quotes hmark hhides hafter

end Quoting

/-! ## Opening braces apart -/

/-- A text in which no opening brace comes first or right after another one. -/
structure Apart (cs : List Char) : Prop where
  head : cs.head? ≠ some '{'
  opening : hasOpening cs = false

theorem hasOpening_cons {c : Char} {cs : List Char} (h : c ≠ '{' ∨ cs.head? ≠ some '{') :
    hasOpening (c :: cs) = hasOpening cs := by
  rw [hasOpening]
  rintro rest rfl rfl
  simp at h

theorem hasOpening_append {cs ds : List Char} (hc : hasOpening cs = false) (hd : Apart ds) :
    hasOpening (cs ++ ds) = false := by
  fun_induction hasOpening cs
  case case1 => cases hc
  case case2 c rest hrest ih =>
    rw [List.cons_append, hasOpening_cons, ih hc]
    by_cases hbrace : c = '{'
    · refine .inr fun hhead => ?_
      cases rest with
      | nil => exact hd.head hhead
      | cons d rest => exact hrest rest hbrace (by simpa using hhead)
    · exact .inl hbrace
  case case3 => exact hd.opening

theorem Apart.append {cs ds : List Char} (hc : Apart cs) (hd : Apart ds) :
    Apart (cs ++ ds) where
  head := by
    cases cs with
    | nil => exact hd.head
    | cons c cs => exact hc.head
  opening := hasOpening_append hc.opening hd

theorem apart_of_not_mem {cs : List Char} (h : '{' ∉ cs) : Apart cs where
  head := fun hhead => h (List.mem_of_head? hhead)
  opening := by
    induction cs with
    | nil => rfl
    | cons c cs ih =>
        obtain ⟨hc, hcs⟩ : c ≠ '{' ∧ '{' ∉ cs := by simpa [eq_comm] using h
        rw [hasOpening_cons (.inl hc), ih hcs]

theorem Quoting.apart_write (cs : List Char) : Apart (write cs) := by
  have hchar : ∀ c, Apart (writeChar c) := by
    intro c
    unfold writeChar
    split
    · refine ⟨by simp, ?_⟩
      rw [hasOpening_cons (.inl (by decide)), hasOpening_cons (.inr (by simp))]
      rfl
    · next hplain =>
        obtain ⟨-, -, hbrace⟩ := not_quote_of_not_isGuarded hplain
        exact apart_of_not_mem (by simpa using hbrace.symm)
  have hchars : Apart (cs.flatMap writeChar) := by
    induction cs with
    | nil => exact apart_of_not_mem (by simp)
    | cons c cs ih => exact (hchar c).append ih
  have hquote : Apart ['"'] := apart_of_not_mem (by decide)
  exact hquote.append (hchars.append hquote)

/-! ## Inert text -/

/-- A text that no search for one of `marks` stops in, and that holds no opening of a
placeholder. -/
structure Inert (marks : List Char) (cs : List Char) : Prop where
  covered : ∀ mark ∈ marks, Quoting.Covered mark cs
  apart : Apart cs

namespace Inert

variable {marks cs ds : List Char}

theorem append (hc : Inert marks cs) (hd : Inert marks ds) : Inert marks (cs ++ ds) where
  covered mark hmark := (hc.covered mark hmark).append (hd.covered mark hmark)
  apart := hc.apart.append hd.apart

theorem mono {fewer : List Char} (h : Inert marks cs) (hsub : ∀ mark ∈ fewer, mark ∈ marks) :
    Inert fewer cs where
  covered mark hmark := h.covered mark (hsub mark hmark)
  apart := h.apart

theorem of_forall (h : ∀ c ∈ cs, c ∉ marks ∧ c ≠ '"' ∧ c ≠ '{') : Inert marks cs where
  covered _ hmark := Quoting.covered_of_forall fun c hc =>
    ⟨fun heq => (h c hc).1 (heq ▸ hmark), (h c hc).2.1⟩
  apart := apart_of_not_mem fun hbrace => (h _ hbrace).2.2 rfl

end Inert

/-- Between quotes every text is inert, whatever characters it has. -/
theorem Quoting.inert_write {marks : List Char} (hmarks : '"' ∉ marks) (cs : List Char) :
    Inert marks (write cs) where
  covered _ hmark := covered_write (fun heq => hmarks (heq ▸ hmark)) cs
  apart := apart_write cs

end Phrasebook
