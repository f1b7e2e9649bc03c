import Phrasebook.Proofs.Checked.Access
import Phrasebook.Template.Reader

/-!
# Reading a placeholder by offsets

The name, the arguments and what stands behind them are slices of the body of a placeholder, at
offsets that searches for a character give.  Each search counts bytes, and each character that is
looked for takes one byte, so all slices are there and the reader ends as `Reference.parse` does
(`Checked.answers_reference`).
-/

namespace Phrasebook

namespace Quoting

/-- The offset of the first `mark` outside quotes. -/
def findOffset (mark : Char) : Quoting → List Char → Option Nat
  | _, [] => none
  | q, c :: rest =>
    if q = .bare ∧ c = mark then some 0
    else (findOffset mark (q.next c) rest).map (c.utf8Size + ·)

theorem findOffset_eq (mark : Char) (q : Quoting) (cs : List Char) :
    findOffset mark q cs = (cutAt mark q cs).map fun (before, _) => Text.byteSize before := by
  induction cs generalizing q with
  | nil => rfl
  | cons c rest ih =>
      rw [findOffset, cutAt, ih]
      split
      · rfl
      · cases cutAt mark (q.next c) rest <;> simp

/-- Nothing but the mark is lost in a cut. -/
theorem eq_of_cutAt {mark : Char} {q : Quoting} {cs before behind : List Char}
    (h : cutAt mark q cs = some (before, behind)) : cs = before ++ mark :: behind := by
  induction cs generalizing q before with
  | nil => cases h
  | cons c rest ih =>
      rw [cutAt] at h
      split at h
      · next hmark =>
          obtain ⟨rfl, rfl⟩ : [] = before ∧ rest = behind := by simpa using h
          rw [hmark.2, List.nil_append]
      · obtain ⟨⟨b, a⟩, hcut, heq⟩ := Option.map_eq_some_iff.mp h
        obtain ⟨rfl, rfl⟩ : c :: b = before ∧ a = behind := by simpa using heq
        rw [ih hcut, List.cons_append]

end Quoting

namespace Checked

/-! ## Arguments -/

/-- The pieces of a text between the commas outside quotes, cut out of the text one by one.  The
piece under way begins at `start`, and the search has come to `here`. -/
def splitArguments (text : List Char) : Nat → Nat → Quoting → List Char →
    Checked PlaceholderFault (List (List Char))
  | start, _, _, [] => do
    return [← sliceFrom text start]
  | start, here, q, c :: rest =>
    if q = .bare ∧ c = ',' then do
      let piece ← slice text start here
      return piece :: (← splitArguments text (here + 1) (here + c.utf8Size) .bare rest)
    else splitArguments text start (here + c.utf8Size) (q.next c) rest

/-- Reads the arguments between two parentheses. -/
def arguments (text : List Char) : Checked PlaceholderFault (List Argument) :=
  if Text.trim text = [] then return []
  else do
    let pieces ← splitArguments text 0 0 .bare text
    plain (pieces.mapM Argument.parse)

/-- Reads what follows the name of a reference. -/
def referenceArguments (name : String) (rest : List Char) :
    Checked PlaceholderFault (List Argument) :=
  match rest with
  | [] => return []
  | '(' :: body =>
    match Quoting.findOffset ')' .bare body with
    | none => throw (.unclosedArguments name)
    | some close => do
      let trailing := Text.trim (← sliceFrom body (close + 1))
      if trailing = [] then arguments (← sliceTo body close)
      else throw (.trailingArguments (String.ofList trailing))
  | _ => throw (.trailingName (String.ofList rest) name)

/-- The text is cut where the pieces end: `passed` is what the search has put behind it, and the
piece under way begins with `current`. -/
theorem answers_splitArguments (passed current : List Char) (q : Quoting) (rest : List Char) :
    ∃ first more, Quoting.splitOn ',' q rest = first :: more ∧
      (splitArguments (passed ++ current ++ rest) (Text.byteSize passed)
        (Text.byteSize (passed ++ current)) q rest).Answers (.ok ((current ++ first) :: more)) := by
  induction rest generalizing passed current q with
  | nil =>
      refine ⟨[], [], rfl, ?_⟩
      rw [List.append_nil, List.append_nil, splitArguments]
      exact (answers_sliceFrom passed current).bind_ok (answers_pure _)
  | cons c rest ih =>
      rw [Quoting.splitOn, splitArguments]
      split
      · next hcomma =>
          obtain ⟨rfl, rfl⟩ := hcomma
          obtain ⟨first, more, hsplit, hanswers⟩ := ih (passed ++ current ++ [',']) [] .bare
          refine ⟨[], first :: more, by rw [hsplit], ?_⟩
          rw [List.append_nil]
          refine (answers_slice passed current (',' :: rest)).bind_ok ?_
          refine Answers.bind_ok ?_ (answers_pure _)
          rw [List.append_nil, List.append_assoc _ _ rest, List.singleton_append,
            Text.byteSize_append _ [',']] at hanswers
          exact hanswers
      · obtain ⟨first, more, hsplit, hanswers⟩ := ih passed (current ++ [c]) (q.next c)
        refine ⟨c :: first, more, by rw [hsplit], ?_⟩
        have htext : passed ++ (current ++ [c]) ++ rest = passed ++ current ++ c :: rest := by simp
        have hhere : Text.byteSize (passed ++ (current ++ [c])) =
            Text.byteSize (passed ++ current) + c.utf8Size := by simp [Nat.add_assoc]
        have hfirst : current ++ [c] ++ first = current ++ c :: first := by simp
        rwa [htext, hhere, hfirst] at hanswers

theorem answers_arguments (text : List Char) :
    (arguments text).Answers (Argument.parseAll text) := by
  unfold arguments Argument.parseAll
  split
  · exact answers_pure []
  · obtain ⟨first, more, hsplit, hanswers⟩ := answers_splitArguments [] [] .bare text
    rw [hsplit]
    exact hanswers.bind_ok (answers_plain _)

theorem answers_referenceArguments (name : String) (rest : List Char) :
    (referenceArguments name rest).Answers (Reference.parseArguments name rest) := by
  unfold referenceArguments
  split
  · exact answers_pure []
  · next body =>
      rw [Quoting.findOffset_eq, Reference.parseArguments]
      cases hcut : Quoting.cutAt ')' .bare body with
      | none => exact answers_throw _
      | some parts =>
          obtain ⟨args, behind⟩ := parts
          obtain rfl := Quoting.eq_of_cutAt hcut
          -- The parenthesis takes one byte.
          have hbehind := answers_sliceFrom (ε := PlaceholderFault) (args ++ [')']) behind
          rw [Text.byteSize_append, List.append_assoc, List.singleton_append] at hbehind
          refine hbehind.bind_ok ?_
          dsimp only
          split
          · exact (answers_sliceTo args (')' :: behind)).bind_ok (answers_arguments args)
          · exact answers_throw _
  · next hempty hopen =>
      rw [Reference.parseArguments]
      · exact answers_throw _
      · exact hempty
      · exact hopen

/-! ## The whole body -/

/-- Whether a body asks for an animated reference, and what follows the tilde that says so. -/
def dropTilde : List Char → Bool × List Char
  | '~' :: rest => (true, Text.trimStart rest)
  | content => (false, content)

/-- Reads the body of a placeholder. -/
def reference (body : List Char) : Checked PlaceholderFault Reference := do
  let (animated, content) := dropTilde (Text.trim body)
  let stop := (Text.findOffset (fun c => !isReferenceChar c) content).getD (Text.byteSize content)
  let name ← sliceTo content stop
  if name = [] then throw (.missingName (String.ofList body))
  else if name ≠ nestedName.toList ∧ isQualifiedIdentifier name = false then
    throw (.invalidName (String.ofList name))
  else
    let rest := Text.trimStart (← sliceFrom content stop)
    let args ← referenceArguments (String.ofList name) rest
    return ⟨String.ofList name, args, animated, none⟩

theorem parse_eq_dropTilde (body : List Char) :
    Reference.parse body =
      let (animated, content) := dropTilde (Text.trim body)
      let name := content.takeWhile isReferenceChar
      if name = [] then .error (.missingName (String.ofList body))
      else if name ≠ nestedName.toList ∧ isQualifiedIdentifier name = false then
        .error (.invalidName (String.ofList name))
      else
        (Reference.parseArguments (String.ofList name)
          (Text.trimStart (content.dropWhile isReferenceChar))).map fun args =>
            ⟨String.ofList name, args, animated, none⟩ :=
  rfl

/-- The name is cut off where the characters that it runs over end. -/
theorem answers_reference (body : List Char) :
    (reference body).Answers (Reference.parse body) := by
  rw [parse_eq_dropTilde]
  unfold reference
  obtain ⟨animated, content⟩ := dropTilde (Text.trim body)
  dsimp only
  have hstop : (Text.findOffset (fun c => !isReferenceChar c) content).getD
      (Text.byteSize content) = Text.byteSize (content.takeWhile isReferenceChar) := by
    rw [Text.findOffset_getD]
    simp only [Bool.not_not]
  have hname := answers_sliceTo (ε := PlaceholderFault) (content.takeWhile isReferenceChar)
    (content.dropWhile isReferenceChar)
  have hrest := answers_sliceFrom (ε := PlaceholderFault) (content.takeWhile isReferenceChar)
    (content.dropWhile isReferenceChar)
  rw [List.takeWhile_append_dropWhile] at hname hrest
  rw [hstop]
  refine hname.bind_ok ?_
  split
  · exact answers_throw _
  · split
    · exact answers_throw _
    · exact hrest.bind_ok ((answers_referenceArguments _ _).map _)

end Checked

end Phrasebook
