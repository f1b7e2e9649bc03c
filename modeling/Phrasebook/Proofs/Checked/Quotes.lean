import Phrasebook.Proofs.Checked.Alternative
import Phrasebook.Proofs.Source.Faults
import Phrasebook.Proofs.Template.Stretches

/-!
# Searches that agree on quotes

Four searches meet the quotes of a placeholder, each for itself.  The one for closing braces goes
over the characters of the whole text by index (`Checked.closeIndex`).  Those for the closing
parenthesis and for commas go by offset and begin at the arguments, with two flags for what they
remember (`Checked.markOffset`, `Checked.commaSlices`).  The last one begins behind the quote of a
value and reads up to the next one (`Quoting.read`).  In between text is trimmed and cut at a colon.

The flags stand for the three states of `Quoting` (`Checked.Flags.map_quoting_step`), and so each
search passes over an enclosed stretch (`Checked.closeIndex_outside`, `Checked.findOffset_outside`,
`Quoting.exists_mem_splitOn_of_covered`).  What is cut out as a value is balanced, whatever was cut
off around it, and when it begins with a quote the other one is there (`Checked.CutOut.closed`).
Hence the fault of an unterminated quoted value is never reported (`quoted_values_closed`).
-/

namespace Phrasebook

/-- A quoted value, unless more than blanks stand behind its closing quote. -/
def Value.ofQuoted (content behind : List Char) : Except PlaceholderFault Value :=
  if Text.trim behind = [] then .ok (.text (String.ofList content))
  else .error (.trailingQuote (String.ofList (Text.trim behind)))

theorem Value.parse_enclose {raw text : List Char} (hraw : Quoting.Stretch raw text)
    (behind : List Char) : parse (Quoting.enclose raw ++ behind) = ofQuoted text behind := by
  rw [Quoting.enclose_append, parse, hraw.read_append]
  rfl

namespace Checked

open Quoting (Stretch Balanced StandsIn Trims enclose)

/-! ## The searches with their flags -/

/-- What a search remembers of quotes: whether one is open, and whether a backslash between quotes
came last. -/
structure Flags where
  quoted : Bool
  escaped : Bool
  sound : escaped = true → quoted = true

namespace Flags

/-- The flags at the beginning of a search. -/
def start : Flags :=
  ⟨false, false, by decide⟩

/-- The flags after one more character, unless it is a mark outside quotes. -/
def step (mark : Char) (f : Flags) (c : Char) : Option Flags :=
  if f.escaped then some ⟨f.quoted, false, nofun⟩
  else if h : c = '\\' ∧ f.quoted then some ⟨f.quoted, true, fun _ => h.2⟩
  else if c = '"' then some ⟨!f.quoted, false, nofun⟩
  else if c = mark ∧ !f.quoted then none
  else some ⟨f.quoted, false, nofun⟩

/-- Where a search with these flags stands. -/
def quoting (f : Flags) : Quoting :=
  if f.escaped then .escaped else if f.quoted then .quoted else .bare

end Flags

/-- The offset of the first `mark` outside quotes. -/
def markOffset (mark : Char) : Flags → List Char → Option Nat
  | _, [] => none
  | f, c :: rest =>
    match f.step mark c with
    | none => some 0
    | some f => (markOffset mark f rest).map (c.utf8Size + ·)

/-- The slices of a text between the commas outside quotes.  The slice under way begins at `start`,
and the search has come to `here`. -/
def commaSlices (text : List Char) : Nat → Nat → Flags → List Char →
    Checked PlaceholderFault (List (List Char))
  | start, _, _, [] => do
    return [← sliceFrom text start]
  | start, here, f, c :: rest =>
    match f.step ',' c with
    | none => do
      let piece ← slice text start here
      return piece :: (← commaSlices text (here + 1) (here + c.utf8Size) f rest)
    | some f => commaSlices text start (here + c.utf8Size) f rest

variable {mark : Char}

/-- The flags follow quotes as `Quoting.next` does, and stop at a mark outside quotes. -/
theorem Flags.map_quoting_step (hmark : mark ≠ '"') (f : Flags) (c : Char) :
    (f.step mark c).map quoting =
      if f.quoting = .bare ∧ c = mark then none else some (f.quoting.next c) := by
  obtain ⟨quoted, escaped, hsound⟩ := f
  unfold step quoting
  cases escaped with
  | true => simp [hsound, Quoting.next]
  | false =>
      cases quoted with
      | true =>
          by_cases hslash : c = '\\'
          · simp [hslash, Quoting.next]
          · by_cases hquote : c = '"' <;> simp [hslash, hquote, Quoting.next]
      | false =>
          by_cases hquote : c = '"'
          · simp [hquote, Ne.symm hmark, Quoting.next]
          · by_cases hhere : c = mark <;> simp [hquote, hhere, hmark, Quoting.next]

theorem Flags.step_eq_none_iff (hmark : mark ≠ '"') {f : Flags} {c : Char} :
    f.step mark c = none ↔ f.quoting = .bare ∧ c = mark := by
  rw [← Option.map_eq_none_iff, f.map_quoting_step hmark]
  split <;> simp [*]

theorem Flags.quoting_of_step (hmark : mark ≠ '"') {f g : Flags} {c : Char}
    (h : f.step mark c = some g) :
    ¬(f.quoting = .bare ∧ c = mark) ∧ g.quoting = f.quoting.next c := by
  have hstep := f.map_quoting_step hmark c
  rw [h, Option.map_some] at hstep
  split at hstep
  · cases hstep
  · next hhere => exact ⟨hhere, Option.some.inj hstep⟩

theorem markOffset_eq (hmark : mark ≠ '"') (f : Flags) (cs : List Char) :
    markOffset mark f cs = Quoting.findOffset mark f.quoting cs := by
  induction cs generalizing f with
  | nil => rfl
  | cons c cs ih =>
      rw [markOffset, Quoting.findOffset]
      split
      · next hstep => rw [if_pos ((Flags.step_eq_none_iff hmark).mp hstep)]
      · next g hstep =>
          obtain ⟨hhere, hnext⟩ := Flags.quoting_of_step hmark hstep
          rw [if_neg hhere, ih, hnext]

theorem commaSlices_eq (text : List Char) (start here : Nat) (f : Flags) (cs : List Char) :
    commaSlices text start here f cs = splitArguments text start here f.quoting cs := by
  induction cs generalizing start here f with
  | nil => rfl
  | cons c cs ih =>
      rw [commaSlices, splitArguments]
      split
      · next hstep =>
          have hhere := (Flags.step_eq_none_iff (by decide)).mp hstep
          rw [if_pos hhere, ih, hhere.1]
      · next g hstep =>
          obtain ⟨hhere, hnext⟩ := Flags.quoting_of_step (by decide) hstep
          rw [if_neg hhere, ih, hnext]

/-! ## Passing an enclosed stretch -/

section Passing

variable {q : Quoting} {cs before raw text : List Char}

theorem findOffset_append (h : Quoting.Hides mark q cs) (rest : List Char) :
    Quoting.findOffset mark q (cs ++ rest) =
      (Quoting.findOffset mark (q.after cs) rest).map (Text.byteSize cs + ·) := by
  induction cs generalizing q with
  | nil => simp [Quoting.after]
  | cons c cs ih =>
      rw [List.cons_append, Quoting.findOffset, if_neg h.1, ih h.2, Option.map_map,
        Quoting.after_cons]
      congr 1
      funext n
      simp [Nat.add_assoc]

/-- What the search for closing braces does at a character. -/
theorem closeIndex_append_cons (before : List Char) (c : Char) (rest : List Char) (quoted : Bool) :
    closeIndex (before ++ c :: rest) quoted before.length =
      if c = '\\' ∧ quoted then closeIndex (before ++ c :: rest) quoted (before.length + 2)
      else if c = '"' then closeIndex (before ++ c :: rest) (!quoted) (before.length + 1)
      else if c = '}' ∧ !quoted ∧ rest.head? = some '}' then some before.length
      else closeIndex (before ++ c :: rest) quoted (before.length + 1) := by
  have hnext : (before ++ c :: rest)[before.length + 1]? = rest.head? := by
    rw [← List.singleton_append, ← List.append_assoc, List.getElem?_append_right (by simp)]
    simp [List.head?_eq_getElem?]
  rw [closeIndex, dif_pos (by simp), hnext]
  simp only [List.getElem_append_right (Nat.le_refl _), Nat.sub_self, List.getElem_cons_zero]

theorem closeIndex_stretch (hraw : Stretch raw text) (before rest : List Char) :
    closeIndex (before ++ (raw ++ rest)) true before.length =
      closeIndex (before ++ (raw ++ rest)) true (before ++ raw).length := by
  induction hraw generalizing before with
  | nil => rw [List.append_nil]
  | @plain c raw text hquote hslash _ ih =>
      have hmore := ih (before ++ [c])
      rw [List.length_append, List.length_singleton] at hmore
      rw [List.cons_append, closeIndex_append_cons, if_neg fun h => hslash h.1, if_neg hquote,
        if_neg (by simp)]
      simpa using hmore
  | @escaped c raw text _ ih =>
      have hmore := ih (before ++ ['\\', c])
      rw [List.length_append] at hmore
      rw [List.cons_append, closeIndex_append_cons, if_pos ⟨rfl, rfl⟩]
      simpa using hmore

/-- The search for closing braces goes on behind an enclosed stretch, whatever braces it has. -/
theorem closeIndex_enclose (hraw : Stretch raw text) (before rest : List Char) :
    closeIndex (before ++ (enclose raw ++ rest)) false before.length =
      closeIndex (before ++ (enclose raw ++ rest)) false (before ++ enclose raw).length := by
  have hopen := closeIndex_append_cons before '"' (raw ++ '"' :: rest) false
  have hstretch := closeIndex_stretch hraw (before ++ ['"']) ('"' :: rest)
  have hclose := closeIndex_append_cons (before ++ '"' :: raw) '"' rest true
  rw [if_neg (by simp), if_pos rfl] at hopen hclose
  rw [Quoting.enclose_append]
  calc
    closeIndex (before ++ '"' :: (raw ++ '"' :: rest)) false before.length
      = closeIndex (before ++ '"' :: (raw ++ '"' :: rest)) true (before.length + 1) := hopen
    _ = closeIndex (before ++ '"' :: (raw ++ '"' :: rest)) true (before ++ '"' :: raw).length := by
        simpa [Nat.add_assoc, Nat.add_comm 1] using hstretch
    _ = closeIndex (before ++ '"' :: (raw ++ '"' :: rest)) false
          (before ++ enclose raw).length := by simpa [enclose, Nat.add_assoc] using hclose

/-! ## No search ends between two quotes -/

/-- A search for a mark outside quotes stops before a covered text or behind it. -/
theorem findOffset_outside (hbefore : q.after before = .bare) (hcs : Quoting.Covered mark cs)
    {rest : List Char} {offset : Nat}
    (h : Quoting.findOffset mark q (before ++ (cs ++ rest)) = some offset) :
    offset < Text.byteSize before ∨ Text.byteSize (before ++ cs) ≤ offset := by
  induction before generalizing q offset with
  | nil =>
      obtain rfl : q = .bare := hbefore
      rw [List.nil_append, findOffset_append hcs.hides] at h
      obtain ⟨more, -, rfl⟩ := Option.map_eq_some_iff.mp h
      exact .inr (Nat.le_add_right _ more)
  | cons c before ih =>
      have hsize := c.utf8Size_pos
      rw [List.cons_append, Quoting.findOffset] at h
      split at h
      · obtain rfl := Option.some.inj h
        exact .inl (by simp; omega)
      · obtain ⟨more, hmore, rfl⟩ := Option.map_eq_some_iff.mp h
        have houtside := ih hbefore hmore
        simp only [List.cons_append, Text.byteSize_cons] at houtside ⊢
        omega

/-- The search for closing braces ends before a quoted value or behind it. -/
theorem closeIndex_outside (hbefore : Balanced before) (hraw : Stretch raw text)
    {rest : List Char} {stop : Nat} (opening : List Char)
    (h : closeIndex (opening ++ (before ++ (enclose raw ++ rest))) false opening.length =
      some stop) :
    stop < (opening ++ before).length ∨ (opening ++ before ++ enclose raw).length ≤ stop := by
  induction hbefore generalizing opening with
  | nil =>
      rw [List.nil_append, closeIndex_enclose hraw] at h
      rw [List.append_nil]
      exact .inr (bounds_of_closeIndex h).1
  | @plain c before hquote _ ih =>
      rw [List.cons_append, closeIndex_append_cons, if_neg (by simp), if_neg hquote] at h
      split at h
      · obtain rfl := Option.some.inj h
        exact .inl (by simp)
      · simpa using ih (opening ++ [c]) (by simpa using h)
  | @quoted raw' text' before hraw' _ ih =>
      -- A value further to the front is passed as a whole.
      rw [← Quoting.enclose_append, List.append_assoc, closeIndex_enclose hraw',
        ← List.append_assoc opening] at h
      rw [← Quoting.enclose_append, ← List.append_assoc opening]
      exact ih (opening ++ enclose raw') h

end Passing

/-! ## Values that are cut out -/

/-- What follows the name in the body of a placeholder. -/
def afterName (body : List Char) : List Char :=
  Text.trimStart ((dropTilde (Text.trim body)).2.dropWhile isReferenceChar)

/-- The text between the opening parenthesis behind the name and the first closing one outside
quotes. -/
def argumentText? (body : List Char) : Option (List Char) :=
  match afterName body with
  | '(' :: rest =>
    (markOffset ')' .start rest).bind fun close => (Text.cutOffset rest close).map (·.1)
  | _ => none

/-- The searches cut a value out of the body of a placeholder: behind the first colon of one of the
slices between commas, if there is a name before it.  The body can be any text, not only one that
the search for closing braces ends. -/
structure CutOut (body value : List Char) : Prop where
  cut : ∃ args slices slice before after,
    argumentText? body = some args ∧
    (commaSlices args 0 0 .start args).Answers (.ok slices) ∧ slice ∈ slices ∧
    Text.cutAt ':' (Text.trim slice) = some (before, after) ∧
    isIdentifier (Text.trim before) = true ∧ value = Text.trim after

variable {body value args : List Char}

/-- The slice up to the first mark outside quotes is the text before this mark. -/
theorem sliceTo_markOffset (hmark : mark ≠ '"') (cs : List Char) :
    ((markOffset mark .start cs).bind fun offset => (Text.cutOffset cs offset).map (·.1)) =
      (Quoting.cutAt mark .bare cs).map (·.1) := by
  rw [markOffset_eq hmark, show Flags.quoting .start = .bare from rfl, Quoting.findOffset_eq]
  cases hcut : Quoting.cutAt mark .bare cs with
  | none => rfl
  | some parts =>
      obtain ⟨before, behind⟩ := parts
      obtain rfl := Quoting.eq_of_cutAt hcut
      rw [Option.map_some, Option.bind_some, Text.cutOffset_append]
      rfl

theorem argumentText?_eq_some_iff : argumentText? body = some args ↔
    ∃ rest behind, afterName body = '(' :: rest ∧
      Quoting.cutAt ')' .bare rest = some (args, behind) := by
  unfold argumentText?
  split
  · next rest hrest =>
      rw [sliceTo_markOffset (by decide)]
      simp [hrest]
  · next hnone =>
      refine iff_of_false (by simp) ?_
      rintro ⟨rest, _, hrest, -⟩
      exact hnone rest hrest

theorem answers_commaSlices (args : List Char) :
    (commaSlices args 0 0 .start args).Answers (.ok (Quoting.splitOn ',' .bare args)) := by
  obtain ⟨first, more, hsplit, hanswers⟩ := answers_splitArguments [] [] .bare args
  rw [commaSlices_eq, hsplit]
  exact hanswers

theorem trims_dropTilde (cs : List Char) : Trims cs (dropTilde cs).2 := by
  unfold dropTilde
  split
  · next rest =>
      have htilde : Trims ('~' :: rest) rest := ⟨['~'], [], by simp, by simp, by simp⟩
      exact htilde.trans (Quoting.trims_trimStart rest)
  · exact ⟨[], [], by simp, by simp, by simp⟩

theorem trims_afterName (body : List Char) : Trims body (afterName body) :=
  (((Quoting.trims_trim body).trans (trims_dropTilde _)).trans
    (Quoting.trims_dropWhile (by decide) _)).trans (Quoting.trims_trimStart _)

/-- Nothing but a name and blanks stands before the colon of an argument. -/
theorem trims_argument {slice before after : List Char}
    (hcolon : Text.cutAt ':' (Text.trim slice) = some (before, after))
    (hname : isIdentifier (Text.trim before) = true) : Trims slice (Text.trim after) := by
  obtain ⟨hslice, -⟩ := Text.cutAt_eq_some hcolon
  have hbefore : '"' ∉ before ++ [':'] := by
    have hquote := (Quoting.trims_trim before).not_mem (not_mem_of_isIdentifier hname (by decide))
    simpa using hquote
  have hafter : Trims (Text.trim slice) after :=
    ⟨before ++ [':'], [], by rw [hslice]; simp, hbefore, List.not_mem_nil⟩
  exact ((Quoting.trims_trim slice).trans hafter).trans (Quoting.trims_trim after)

/-- The arguments stand outside quotes in the body and close all quotes that they open. -/
theorem standsIn_and_balanced_of_argumentText? (h : argumentText? body = some args) :
    StandsIn args body ∧ Balanced args := by
  obtain ⟨rest, behind, hrest, hcut⟩ := argumentText?_eq_some_iff.mp h
  have hopen : Trims ('(' :: rest) rest := ⟨['('], [], by simp, by simp, by simp⟩
  have hbody : StandsIn rest body := (hrest ▸ (trims_afterName body)).trans hopen |>.standsIn
  have hargs : StandsIn args rest := ⟨[], ')' :: behind, Quoting.eq_of_cutAt hcut, .nil⟩
  exact ⟨hargs.trans hbody, Quoting.after_eq_bare_iff.mp (Quoting.balanced_of_cutAt hcut)⟩

/-- A value that is cut out stands outside quotes in the body and closes all quotes that it
opens. -/
theorem CutOut.standsIn_and_balanced (h : CutOut body value) :
    StandsIn value body ∧ Balanced value := by
  obtain ⟨args, slices, slice, before, after, hargs, hslices, hslice, hcolon, hname, rfl⟩ := h.cut
  obtain rfl : Quoting.splitOn ',' .bare args = slices := by
    have hboth := (answers_commaSlices args).symm.trans hslices
    simpa using hboth
  obtain ⟨hbody, hbalanced⟩ := standsIn_and_balanced_of_argumentText? hargs
  obtain ⟨hstands, hclosed⟩ := Quoting.of_mem_splitOn (by decide) hbalanced hslice
  -- The colon that is cut at stands outside quotes, since there are none in the name before it.
  have htrims := trims_argument hcolon hname
  exact ⟨(htrims.standsIn.trans hstands).trans hbody, htrims.balanced hclosed⟩

/-- A value that begins with a quote has the quote that closes it. -/
theorem CutOut.closed {quoted : List Char} (h : CutOut body ('"' :: quoted)) :
    ∃ raw text behind, Stretch raw text ∧ '"' :: quoted = enclose raw ++ behind ∧
      StandsIn (enclose raw) body := by
  obtain ⟨hstands, hbalanced⟩ := h.standsIn_and_balanced
  cases hbalanced with
  | plain hquote => exact absurd rfl hquote
  | @quoted raw text behind hraw =>
      have hvalue : '"' :: (raw ++ '"' :: behind) = enclose raw ++ behind :=
        (Quoting.enclose_append raw behind).symm
      exact ⟨raw, text, behind, hraw, hvalue, StandsIn.trans ⟨[], behind, hvalue, .nil⟩ hstands⟩

/-- None of the searches ends within a quoted value that has `before` in front of it. -/
structure Passed (before raw text rest : List Char) : Prop where
  braces : ∀ opening stop,
    closeIndex (opening ++ (before ++ (enclose raw ++ rest))) false opening.length = some stop →
      stop < (opening ++ before).length ∨ (opening ++ before ++ enclose raw).length ≤ stop
  parenthesis : ∀ close, markOffset ')' .start (before ++ (enclose raw ++ rest)) = some close →
    close < Text.byteSize before ∨ Text.byteSize (before ++ enclose raw) ≤ close
  commas : ∃ slices,
    (commaSlices (before ++ (enclose raw ++ rest)) 0 0 .start
      (before ++ (enclose raw ++ rest))).Answers (.ok slices) ∧
    ∃ slice ∈ slices, StandsIn (enclose raw) slice
  value : Value.parse (enclose raw ++ rest) = Value.ofQuoted text rest

theorem passed_of_stretch {before raw text : List Char} (hbefore : Balanced before)
    (hraw : Stretch raw text) (rest : List Char) : Passed before raw text rest where
  braces opening _ h := closeIndex_outside hbefore hraw opening h
  parenthesis _ h := by
    rw [markOffset_eq (by decide)] at h
    exact findOffset_outside hbefore.after_eq (hraw.covered_enclose (by decide)) h
  commas :=
    ⟨_, answers_commaSlices _,
      Quoting.exists_mem_splitOn_of_covered (by decide) (hraw.covered_enclose (by decide))
        hbefore rest⟩
  value := Value.parse_enclose hraw rest

end Checked

/-! ## Where the fault would come from -/

variable {raw body : List Char}

theorem Value.of_parse_eq_unclosedQuote (h : parse raw = .error .unclosedQuote) :
    ∃ quoted, raw = '"' :: quoted := by
  unfold parse at h
  split at h
  · exact ⟨_, rfl⟩
  · split at h <;> cases h
  · cases h

theorem Argument.of_parse_eq_unclosedQuote (h : parse raw = .error .unclosedQuote) :
    ∃ before after, Text.cutAt ':' (Text.trim raw) = some (before, after) ∧
      isIdentifier (Text.trim before) = true ∧
      Value.parse (Text.trim after) = .error .unclosedQuote := by
  unfold parse at h
  dsimp only at h
  split at h
  · cases h
  · split at h
    · cases h
    · next before after hcolon =>
        split at h
        · next hname => exact ⟨before, after, hcolon, hname, Except.map_eq_error_iff.mp h⟩
        · cases h

theorem Argument.of_parseAll_eq_unclosedQuote (h : parseAll raw = .error .unclosedQuote) :
    ∃ slice ∈ Quoting.splitOn ',' .bare raw, parse slice = .error .unclosedQuote := by
  unfold parseAll at h
  split at h
  · cases h
  · exact Except.exists_of_mapM_eq_error h

theorem Reference.of_parseArguments_eq_unclosedQuote {name : String}
    (h : parseArguments name raw = .error .unclosedQuote) :
    ∃ rest args behind, raw = '(' :: rest ∧ Quoting.cutAt ')' .bare rest = some (args, behind) ∧
      Argument.parseAll args = .error .unclosedQuote := by
  unfold parseArguments at h
  split at h
  · cases h
  · next rest =>
      split at h
      · cases h
      · next args behind hcut =>
          dsimp only at h
          split at h
          · exact ⟨rest, args, behind, rfl, hcut, h⟩
          · cases h
  · cases h

theorem Reference.of_parse_eq_unclosedQuote (h : parse body = .error .unclosedQuote) :
    ∃ name, parseArguments name (Checked.afterName body) = .error .unclosedQuote := by
  rw [Checked.parse_eq_dropTilde] at h
  dsimp only at h
  split at h
  · cases h
  · split at h
    · cases h
    · exact ⟨_, Except.map_eq_error_iff.mp h⟩

/-- The fault of a quote that is not closed needs a value that is cut out without its closing
quote. -/
theorem Reference.exists_cutOut (h : parse body = .error .unclosedQuote) :
    ∃ quoted, Checked.CutOut body ('"' :: quoted) ∧
      Value.parse ('"' :: quoted) = .error .unclosedQuote := by
  obtain ⟨name, harguments⟩ := of_parse_eq_unclosedQuote h
  obtain ⟨rest, args, behind, hrest, hcut, hargs⟩ := of_parseArguments_eq_unclosedQuote harguments
  obtain ⟨slice, hslice, hargument⟩ := Argument.of_parseAll_eq_unclosedQuote hargs
  obtain ⟨before, after, hcolon, hname, hvalue⟩ := Argument.of_parse_eq_unclosedQuote hargument
  obtain ⟨quoted, hquoted⟩ := Value.of_parse_eq_unclosedQuote hvalue
  rw [hquoted] at hvalue
  refine ⟨quoted, ⟨args, _, slice, before, after, ?_, Checked.answers_commaSlices args, hslice,
    hcolon, hname, hquoted.symm⟩, hvalue⟩
  exact Checked.argumentText?_eq_some_iff.mpr ⟨rest, behind, hrest, hcut⟩

theorem Reference.parse_ne_unclosedQuote (body : List Char) :
    parse body ≠ .error .unclosedQuote := by
  intro h
  obtain ⟨quoted, hcut, hvalue⟩ := exists_cutOut h
  obtain ⟨content, text, behind, hcontent, hquoted, -⟩ := hcut.closed
  rw [hquoted, Value.parse_enclose hcontent, Value.ofQuoted] at hvalue
  split at hvalue <;> cases hvalue

/-- Only one fault has the text that speaks of a quote. -/
theorem PlaceholderFault.eq_unclosedQuote_of_message {fault : PlaceholderFault}
    (h : fault.message = "unterminated quoted value") : fault = .unclosedQuote := by
  unfold message at h
  rw [← String.toList_inj] at h
  split at h <;> first | rfl | simp at h

theorem Template.fault_ne_unclosedQuote {column : Nat} {text : List Char}
    {e : Located PlaceholderFault} (h : Template.parse column text = .error e) :
    e.fault ≠ .unclosedQuote := by
  obtain ⟨piece, -, hpiece⟩ := Except.exists_of_mapM_eq_error h
  unfold Piece.toSegment at hpiece
  split at hpiece
  · cases hpiece
  · obtain rfl := Except.error.inj hpiece
    simp
  · split at hpiece
    · obtain rfl := Except.error.inj hpiece
      simp
    · split at hpiece
      · cases hpiece
      · next fault hfault =>
          obtain rfl := Except.error.inj hpiece
          rintro rfl
          exact Reference.parse_ne_unclosedQuote _ hfault

theorem Alternative.fault_ne_unclosedQuote {line column : Nat} {text : List Char} {e : ParseError}
    (h : Alternative.parse line column text = .error e) :
    e.fault ≠ .placeholder .unclosedQuote := by
  unfold parse at h
  split at h
  · obtain rfl := Except.error.inj h
    simp
  · split at h
    · next hparse =>
        obtain rfl := Except.error.inj h
        simpa using Template.fault_ne_unclosedQuote hparse
    · cases h

theorem Book.fault_ne_unclosedQuote {source : String} {e : ParseError}
    (h : Book.parse source = .error e) : e.fault ≠ .placeholder .unclosedQuote := by
  cases Book.sits_of_parse_eq_error h with
  | alternative _ hread => exact Alternative.fault_ne_unclosedQuote hread
  | @nesting _ _ _ a _ _ =>
      unfold Alternative.nestingFault
      split <;> simp
  | start _ hfault => cases hfault <;> simp
  | item _ hfault => cases hfault <;> simp
  | _ => simp

/-! ## The main theorem -/

open Checked (CutOut Passed answers_commaSlices passed_of_stretch)
open Quoting (Stretch Balanced StandsIn enclose balanced_of_not_mem)

/-- The fault of an unterminated quoted value is never reported.  What the searches cut out as a
value that begins with a quote has the closing quote too, and a quoted value is ended by none of the
commas, parentheses and closing braces in it. -/
theorem quoted_values_closed :
    (∀ column text e, Template.parse column text = .error e →
      e.fault.message ≠ "unterminated quoted value") ∧
    (∀ source e, Book.parse source = .error e → e.fault ≠ .placeholder .unclosedQuote) ∧
    (∀ body quoted, CutOut body ('"' :: quoted) → ∃ raw text behind, Stretch raw text ∧
      '"' :: quoted = enclose raw ++ behind ∧ StandsIn (enclose raw) body ∧
      Value.parse ('"' :: quoted) = Value.ofQuoted text behind) ∧
    ∀ before raw text rest, Balanced before → Stretch raw text → Passed before raw text rest := by
  refine ⟨fun column text e h hmessage => ?_, fun _ _ => Book.fault_ne_unclosedQuote,
    fun body quoted h => ?_, fun _ _ _ rest hbefore hraw => passed_of_stretch hbefore hraw rest⟩
  · exact Template.fault_ne_unclosedQuote h (PlaceholderFault.eq_unclosedQuote_of_message hmessage)
  · obtain ⟨raw, text, behind, hraw, hquoted, hstands⟩ := h.closed
    exact ⟨raw, text, behind, hraw, hquoted, hstands, by rw [hquoted, Value.parse_enclose hraw]⟩

/-- A value with a comma, a parenthesis, a quote and closing braces, and a placeholder that is not
closed because its quote is not. -/
theorem quoted_values_closed_marks :
    (Template.parse 3 "\x7b\x7bgreet(who: \",)\x7d\x7d".toList = .error ⟨3, .unclosed⟩ ∧
      PlaceholderFault.unclosed.message ≠ "unterminated quoted value") ∧
    (CutOut ("greet(who: ".toList ++ ['"', ',', ')', '\\', '"', '}', '}', '"', ')'])
        ['"', ',', ')', '\\', '"', '}', '}', '"'] ∧
      ∃ raw text behind, Stretch raw text ∧
        ['"', ',', ')', '\\', '"', '}', '}', '"'] = enclose raw ++ behind ∧
        Value.parse ['"', ',', ')', '\\', '"', '}', '}', '"'] = Value.ofQuoted text behind) ∧
    Passed "greet(who: ".toList [',', ')', '\\', '"', '}', '}'] [',', ')', '"', '}', '}'] [')'] := by
  obtain ⟨hmessage, -, hclosed, hpassed⟩ := quoted_values_closed
  have hparse : Template.parse 3 "\x7b\x7bgreet(who: \",)\x7d\x7d".toList =
      .error ⟨3, .unclosed⟩ := by decide
  have hcut : CutOut ("greet(who: ".toList ++ ['"', ',', ')', '\\', '"', '}', '}', '"', ')'])
      ['"', ',', ')', '\\', '"', '}', '}', '"'] := by
    refine ⟨"who: ".toList ++ ['"', ',', ')', '\\', '"', '}', '}', '"'], _, _, "who".toList,
      [' ', '"', ',', ')', '\\', '"', '}', '}', '"'], ?_, answers_commaSlices _,
      List.mem_singleton.mpr rfl, ?_, ?_, ?_⟩ <;> decide
  have hraw : Stretch [',', ')', '\\', '"', '}', '}'] [',', ')', '"', '}', '}'] :=
    .plain (by decide) (by decide) <| .plain (by decide) (by decide) <| .escaped '"' <|
      .plain (by decide) (by decide) <| .plain (by decide) (by decide) .nil
  obtain ⟨raw, text, behind, hstretch, hquoted, -, hvalue⟩ := hclosed _ _ hcut
  exact ⟨⟨hparse, hmessage _ _ _ hparse⟩, ⟨hcut, raw, text, behind, hstretch, hquoted, hvalue⟩,
    hpassed _ _ _ _ (balanced_of_not_mem (by decide)) hraw⟩

/-- The same value in a placeholder that is read to its end. -/
example : Template.parse 1 "\x7b\x7bgreet(who: \",)\\\"\x7d\x7d\")\x7d\x7d".toList =
    .ok [.reference ⟨"greet", [⟨"who", .text ",)\"\x7d\x7d", none⟩], false, none⟩] := by decide

end Phrasebook
