import Mathlib.Data.List.TakeWhile
import Phrasebook.Proofs.Source.Lines
import Phrasebook.Proofs.Template.Quoting

/-!
# What stands between quotes

Between two quotes stands a `Stretch`: characters that are no quote and no backslash, and
backslashes with a character behind each of them.  A text is `Balanced` if each quote outside a
stretch begins one; these are the texts that leave a reader outside quotes (`after_eq_bare_iff`).

So what a search cuts off at a mark outside quotes is balanced, and each piece of a balanced text is
(`balanced_of_cutAt`, `of_mem_splitOn`).  Trimming loses no quote either.  A balanced text that
begins with a quote has the other one, and this is where the stretch is read to
(`read_eq_some_iff`).

The other way round, a search passes over a stretch with its two quotes, and no cut goes through it
(`Stretch.covered_enclose`, `exists_mem_splitOn_of_covered`).
-/

namespace Phrasebook

namespace Quoting

/-! ## Stretches -/

/-- A text between two quotes and what it stands for. -/
inductive Stretch : List Char → List Char → Prop
  | nil : Stretch [] []
  | plain {c : Char} {raw text : List Char} (hquote : c ≠ '"') (hslash : c ≠ '\\')
      (h : Stretch raw text) : Stretch (c :: raw) (c :: text)
  | escaped (c : Char) {raw text : List Char} (h : Stretch raw text) :
      Stretch ('\\' :: c :: raw) (c :: text)

/-- A text in which each quote that begins a stretch has another one at the end of the stretch. -/
inductive Balanced : List Char → Prop
  | nil : Balanced []
  | plain {c : Char} {rest : List Char} (hquote : c ≠ '"') (h : Balanced rest) :
      Balanced (c :: rest)
  | quoted {raw text rest : List Char} (hraw : Stretch raw text) (h : Balanced rest) :
      Balanced ('"' :: (raw ++ '"' :: rest))

/-- A text with a quote on each side. -/
def enclose (raw : List Char) : List Char :=
  '"' :: (raw ++ ['"'])

variable {mark : Char} {q : Quoting} {raw text cs ds rest : List Char}

theorem enclose_append (raw rest : List Char) :
    enclose raw ++ rest = '"' :: (raw ++ '"' :: rest) := by
  rw [enclose, List.cons_append, List.append_assoc, List.singleton_append]

theorem Stretch.read_append (h : Stretch raw text) (rest : List Char) :
    read (raw ++ '"' :: rest) = some (text, rest) := by
  induction h with
  | nil => rfl
  | plain hquote hslash _ ih =>
      rw [List.cons_append, read.eq_5 _ _ hquote, ih, Option.map_some]
      · exact fun d _ hd => absurd hd hslash
      · exact fun hd _ => absurd hd hslash
  | escaped c _ ih => rw [List.cons_append, List.cons_append, read, ih, Option.map_some]

/-- A character that is read as it stands is no backslash. -/
theorem ne_backslash {c : Char} (hpair : ∀ d more, c = '\\' → rest = d :: more → False)
    (hlast : c = '\\' → rest = [] → False) : c ≠ '\\' := by
  intro hc
  cases rest with
  | nil => exact hlast hc rfl
  | cons d more => exact hpair d more hc rfl

/-- A stretch is read up to its closing quote, and nothing else is read. -/
theorem read_eq_some_iff : read cs = some (text, rest) ↔
    ∃ raw, Stretch raw text ∧ cs = raw ++ '"' :: rest := by
  constructor
  · intro h
    fun_induction read cs generalizing text
    case case1 => cases h
    case case2 =>
      obtain ⟨rfl, rfl⟩ := Prod.mk.inj (Option.some.inj h)
      exact ⟨[], .nil, rfl⟩
    case case3 c behind ih =>
      obtain ⟨⟨content, tail⟩, hread, heq⟩ := Option.map_eq_some_iff.mp h
      obtain ⟨rfl, rfl⟩ := Prod.mk.inj heq
      obtain ⟨raw, hraw, rfl⟩ := ih hread
      exact ⟨'\\' :: c :: raw, hraw.escaped c, rfl⟩
    case case4 => cases h
    case case5 c behind hquote hslash hlast ih =>
      obtain ⟨⟨content, tail⟩, hread, heq⟩ := Option.map_eq_some_iff.mp h
      obtain ⟨rfl, rfl⟩ := Prod.mk.inj heq
      obtain ⟨raw, hraw, rfl⟩ := ih hread
      exact ⟨c :: raw, hraw.plain hquote (ne_backslash hslash hlast), rfl⟩
  · rintro ⟨raw, hraw, rfl⟩
    exact hraw.read_append rest

/-- A reader between quotes passes a stretch without leaving them. -/
theorem Stretch.hides (h : Stretch raw text) (mark : Char) :
    Hides mark .quoted raw ∧ after .quoted raw = .quoted := by
  induction h with
  | nil => exact ⟨trivial, rfl⟩
  | @plain c raw text hquote hslash _ ih =>
      have hnext : next .quoted c = .quoted := by simp [next, hquote, hslash]
      rw [Hides, after, List.foldl_cons, hnext]
      exact ⟨⟨by simp, ih.1⟩, ih.2⟩
  | escaped c _ ih => exact ⟨⟨by simp, by simp [next], ih.1⟩, ih.2⟩

/-- An enclosed stretch covers everything but its quotes. -/
theorem Stretch.covered_enclose (h : Stretch raw text) (hmark : mark ≠ '"') :
    Covered mark (enclose raw) := by
  obtain ⟨hhides, hafter⟩ := h.hides mark
  exact covered_between_quotes hmark hhides hafter

/-! ## Balanced texts -/

theorem after_cons (q : Quoting) (c : Char) (cs : List Char) :
    q.after (c :: cs) = (q.next c).after cs := rfl

/-- A reader that is outside quotes at the end of a text has found a closing quote. -/
theorem exists_read_of_after (h : after .quoted cs = .bare) :
    ∃ text rest, read cs = some (text, rest) ∧ after .bare rest = .bare := by
  fun_induction read cs
  case case1 => cases h
  case case2 rest => exact ⟨[], rest, rfl, h⟩
  case case3 c rest ih =>
    obtain ⟨text, behind, hread, hbehind⟩ := ih h
    exact ⟨c :: text, behind, by rw [hread]; rfl, hbehind⟩
  case case4 => cases h
  case case5 c rest hquote hslash hlast ih =>
    rw [after_cons, next, if_neg hquote, if_neg (ne_backslash hslash hlast)] at h
    obtain ⟨text, behind, hread, hbehind⟩ := ih h
    exact ⟨c :: text, behind, by rw [hread]; rfl, hbehind⟩

theorem Balanced.after_eq (h : Balanced cs) : after .bare cs = .bare := by
  induction h with
  | nil => rfl
  | plain hquote _ ih => rwa [after_cons, next, if_neg hquote]
  | @quoted raw text rest hraw _ ih =>
      have hcovered : Covered ',' (enclose raw) := hraw.covered_enclose (by decide)
      rw [← enclose_append, after_append, hcovered.closed, ih]

/-- The balanced texts are those after which a reader stands outside quotes. -/
theorem after_eq_bare_iff : after .bare cs = .bare ↔ Balanced cs := by
  refine ⟨fun h => ?_, Balanced.after_eq⟩
  -- A quote takes a whole stretch with it, so the induction is on the length.
  induction hlength : cs.length using Nat.strongRecOn generalizing cs with
  | ind n ih =>
      subst hlength
      cases cs with
      | nil => exact .nil
      | cons c cs =>
          by_cases hquote : c = '"'
          · obtain rfl := hquote
            obtain ⟨text, rest, hread, hrest⟩ := exists_read_of_after h
            obtain ⟨raw, hraw, rfl⟩ := read_eq_some_iff.mp hread
            exact .quoted hraw (ih _ (by simp; omega) hrest rfl)
          · rw [after_cons, next, if_neg hquote] at h
            exact .plain hquote (ih _ (by simp) h rfl)

theorem Balanced.append (hcs : Balanced cs) (hds : Balanced ds) : Balanced (cs ++ ds) := by
  rw [← after_eq_bare_iff, after_append, hcs.after_eq, hds.after_eq]

theorem balanced_of_not_mem (h : '"' ∉ cs) : Balanced cs := by
  induction cs with
  | nil => exact .nil
  | cons c cs ih =>
      obtain ⟨hc, hcs⟩ : '"' ≠ c ∧ '"' ∉ cs := by simpa using h
      exact .plain hc.symm (ih hcs)

/-- Without a quote no reader comes back to where it stands outside quotes. -/
theorem eq_bare_of_after (h : '"' ∉ cs) (hafter : q.after cs = .bare) : q = .bare := by
  induction cs generalizing q with
  | nil => exact hafter
  | cons c cs ih =>
      obtain ⟨hc, hcs⟩ : '"' ≠ c ∧ '"' ∉ cs := by simpa using h
      have hnext : q.next c = .bare := ih hcs hafter
      cases q with
      | bare => rfl
      | quoted =>
          rw [next, if_neg hc.symm] at hnext
          split at hnext <;> cases hnext
      | escaped => cases hnext

/-! ## Parts of a text -/

/-- A text that is left of another one when no quotes are cut off at its two ends. -/
def Trims (whole part : List Char) : Prop :=
  ∃ before behind, whole = before ++ part ++ behind ∧ '"' ∉ before ∧ '"' ∉ behind

/-- A text that stands in another one at a place outside quotes. -/
def StandsIn (part whole : List Char) : Prop :=
  ∃ before behind, whole = before ++ part ++ behind ∧ Balanced before

variable {whole part : List Char}

theorem Trims.trans (h : Trims whole part) (h' : Trims part cs) : Trims whole cs := by
  obtain ⟨before, behind, rfl, hbefore, hbehind⟩ := h
  obtain ⟨before', behind', rfl, hbefore', hbehind'⟩ := h'
  exact ⟨before ++ before', behind' ++ behind, by simp, by simp [hbefore, hbefore'],
    by simp [hbehind, hbehind']⟩

theorem Trims.standsIn (h : Trims whole part) : StandsIn part whole := by
  obtain ⟨before, behind, rfl, hbefore, -⟩ := h
  exact ⟨before, behind, rfl, balanced_of_not_mem hbefore⟩

theorem Trims.balanced (h : Trims whole part) (hwhole : Balanced whole) : Balanced part := by
  obtain ⟨before, behind, rfl, hbefore, hbehind⟩ := h
  have hafter := hwhole.after_eq
  rw [after_append, after_append, (balanced_of_not_mem hbefore).after_eq] at hafter
  exact after_eq_bare_iff.mp (eq_bare_of_after hbehind hafter)

/-- A text without quotes is left only of a text without quotes. -/
theorem Trims.not_mem (h : Trims whole part) (hpart : '"' ∉ part) : '"' ∉ whole := by
  obtain ⟨before, behind, rfl, hbefore, hbehind⟩ := h
  simp [hbefore, hpart, hbehind]

theorem StandsIn.trans (h : StandsIn cs part) (h' : StandsIn part whole) : StandsIn cs whole := by
  obtain ⟨before, behind, rfl, hbefore⟩ := h
  obtain ⟨before', behind', rfl, hbefore'⟩ := h'
  exact ⟨before' ++ before, behind ++ behind', by simp, hbefore'.append hbefore⟩

/-! ## Trimming -/

theorem trims_dropWhile {p : Char → Bool} (hp : p '"' = false) (cs : List Char) :
    Trims cs (cs.dropWhile p) := by
  refine ⟨cs.takeWhile p, [], ?_, fun hquote => ?_, List.not_mem_nil⟩
  · rw [List.append_nil, List.takeWhile_append_dropWhile]
  · have hblank := List.mem_takeWhile_imp hquote
    rw [hp] at hblank
    cases hblank

theorem trims_trimStart (cs : List Char) : Trims cs (Text.trimStart cs) :=
  trims_dropWhile (by decide) cs

theorem trims_trim (cs : List Char) : Trims cs (Text.trim cs) := by
  refine (trims_trimStart cs).trans ?_
  obtain ⟨blanks, htext, hblanks⟩ := exists_blanks_of_trimEnd (Text.trimStart cs)
  exact ⟨[], blanks, htext, List.not_mem_nil, fun hquote => absurd (hblanks _ hquote) (by decide)⟩

/-! ## Cutting -/

/-- What is cut off at a mark is balanced. -/
theorem balanced_of_cutAt {before behind : List Char}
    (h : cutAt mark q cs = some (before, behind)) : q.after before = .bare := by
  induction cs generalizing q before with
  | nil => cases h
  | cons c cs ih =>
      rw [cutAt] at h
      split at h
      · next hmark =>
          obtain ⟨rfl, -⟩ := Prod.mk.inj (Option.some.inj h)
          exact hmark.1
      · obtain ⟨⟨b, a⟩, hcut, heq⟩ := Option.map_eq_some_iff.mp h
        obtain ⟨rfl, rfl⟩ := Prod.mk.inj heq
        rw [after_cons]
        exact ih hcut

theorem splitOn_ne_nil (mark : Char) (q : Quoting) (cs : List Char) : splitOn mark q cs ≠ [] := by
  cases cs with
  | nil => simp [splitOn]
  | cons c cs =>
      rw [splitOn]
      split
      · simp
      · split <;> simp

/-- The first piece runs to a mark outside quotes, or it is the only one. -/
theorem splitOn_eq_cons {first : List Char} {more : List (List Char)}
    (h : splitOn mark q cs = first :: more) :
    cs = first ∧ more = [] ∨
      ∃ rest, cs = first ++ mark :: rest ∧ q.after first = .bare ∧
        more = splitOn mark .bare rest := by
  induction cs generalizing q first with
  | nil =>
      obtain ⟨rfl, rfl⟩ := List.cons.inj h
      exact Or.inl ⟨rfl, rfl⟩
  | cons c cs ih =>
      rw [splitOn] at h
      split at h
      · next hmark =>
          obtain ⟨rfl, rfl⟩ := List.cons.inj h
          exact Or.inr ⟨cs, by rw [hmark.2]; rfl, hmark.1, rfl⟩
      · split at h
        · next hnone => exact absurd hnone (splitOn_ne_nil mark _ cs)
        · next piece pieces hpieces =>
            obtain ⟨rfl, rfl⟩ := List.cons.inj h
            rcases ih hpieces with ⟨rfl, rfl⟩ | ⟨rest, rfl, hafter, rfl⟩
            · exact Or.inl ⟨rfl, rfl⟩
            · exact Or.inr ⟨rest, rfl, hafter, rfl⟩

/-- Each piece of a balanced text is balanced and stands in it outside quotes. -/
theorem of_mem_splitOn (hmark : mark ≠ '"') (hcs : Balanced cs) {piece : List Char}
    (h : piece ∈ splitOn mark .bare cs) : StandsIn piece cs ∧ Balanced piece := by
  induction hpieces : splitOn mark .bare cs generalizing cs with
  | nil => exact absurd hpieces (splitOn_ne_nil mark .bare cs)
  | cons first more ih =>
      rw [hpieces] at h
      rcases splitOn_eq_cons hpieces with ⟨rfl, rfl⟩ | ⟨rest, rfl, hfirst, rfl⟩
      · obtain rfl := List.mem_singleton.mp h
        exact ⟨⟨[], [], by simp, .nil⟩, hcs⟩
      · rcases List.mem_cons.mp h with rfl | hmore
        · exact ⟨⟨[], mark :: rest, by simp, .nil⟩, after_eq_bare_iff.mp hfirst⟩
        · have hrest : Balanced rest := by
            have hafter := hcs.after_eq
            rw [after_append, hfirst, after_cons, next, if_neg hmark] at hafter
            exact after_eq_bare_iff.mp hafter
          obtain ⟨hstands, hpiece⟩ := ih hrest hmore rfl
          refine ⟨hstands.trans ⟨first ++ [mark], [], by simp, ?_⟩, hpiece⟩
          exact (after_eq_bare_iff.mp hfirst).append (.plain hmark .nil)

/-- What hides the mark goes to the first piece of the rest. -/
theorem splitOn_append_of_hides (h : Hides mark q cs) (rest : List Char) :
    ∃ first more, splitOn mark (q.after cs) rest = first :: more ∧
      splitOn mark q (cs ++ rest) = (cs ++ first) :: more := by
  induction cs generalizing q with
  | nil => exact ⟨_, _, (List.cons_head_tail (splitOn_ne_nil mark q rest)).symm, by simp⟩
  | cons c cs ih =>
      obtain ⟨first, more, hrest, hwhole⟩ := ih h.2
      exact ⟨first, more, hrest, by rw [List.cons_append, splitOn, if_neg h.1, hwhole]; rfl⟩

/-- A covered text that stands outside quotes is not cut: one of the pieces has it as a whole.
`opening` is what has been read of the first piece. -/
theorem exists_piece_of_covered (hmark : mark ≠ '"') (hcs : Covered mark cs)
    (opening : List Char) {before : List Char}
    (hbefore : (after .bare opening).after before = .bare) (rest : List Char) :
    ∃ first more, splitOn mark (after .bare opening) (before ++ (cs ++ rest)) = first :: more ∧
      ∃ piece ∈ (opening ++ first) :: more, StandsIn cs piece := by
  induction before generalizing opening with
  | nil =>
      have hopening : after .bare opening = .bare := hbefore
      have hhides := hcs.hides
      rw [← hopening] at hhides
      obtain ⟨first, more, -, hwhole⟩ := splitOn_append_of_hides hhides rest
      refine ⟨cs ++ first, more, hwhole, opening ++ (cs ++ first), List.mem_cons_self, ?_⟩
      exact ⟨opening, first, by rw [List.append_assoc], after_eq_bare_iff.mp hopening⟩
  | cons c before ih =>
      rw [List.cons_append, splitOn]
      split
      · next hhere =>
          -- The mark ends a piece that is not the one looked for.
          obtain ⟨hopening, rfl⟩ := hhere
          rw [hopening, after_cons, next, if_neg hmark] at hbefore
          obtain ⟨first, more, hpieces, piece, hpiece, hstands⟩ := ih [] hbefore
          exact ⟨[], first :: more, congrArg ([] :: ·) hpieces, piece,
            List.mem_cons_of_mem _ hpiece, hstands⟩
      · have hread : after .bare (opening ++ [c]) = (after .bare opening).next c :=
          after_append ..
        obtain ⟨first, more, hpieces, hpiece⟩ := ih (opening ++ [c]) (by rwa [hread])
        rw [hread] at hpieces
        rw [List.append_assoc, List.singleton_append] at hpiece
        exact ⟨c :: first, more, by rw [hpieces], hpiece⟩

theorem exists_mem_splitOn_of_covered (hmark : mark ≠ '"') (hcs : Covered mark cs)
    {before : List Char} (hbefore : Balanced before) (rest : List Char) :
    ∃ piece ∈ splitOn mark .bare (before ++ (cs ++ rest)), StandsIn cs piece := by
  obtain ⟨first, more, hpieces, hpiece⟩ :=
    exists_piece_of_covered hmark hcs [] hbefore.after_eq rest
  rw [show splitOn mark .bare (before ++ (cs ++ rest)) = first :: more from hpieces]
  exact hpiece

end Quoting

end Phrasebook
