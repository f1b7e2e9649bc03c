import Phrasebook.Proofs.Checked.Placeholder
import Phrasebook.Proofs.Template.Malformed
import Phrasebook.Source.Alternative

/-!
# Reading an alternative by indices

The text of an alternative is read at a growing index.  Each character is looked at after a test
that the text is long enough, and the search for closing braces may run past the end behind a
backslash, but finds nothing there.  The body of a placeholder lies between two indices, the second
of which the search has found behind the first one.

All of that is there, and the reader ends as `Alternative.parse` does
(`Checked.answers_alternative`).  The search is compared with the scanner of pieces, which follows
quotes character by character (`Checked.scan_body_closeIndex`).
-/

namespace Phrasebook

namespace Checked

variable {ε : Type}

/-! ## Braces at an index -/

/-- Whether some characters stand from an index on; one is looked at only if those before it
agree. -/
def agreesAt (chars : List Char) : Nat → List Char → Checked ε Bool
  | _, [] => return true
  | i, c :: more => do
    if (← get chars i) = c then agreesAt chars (i + 1) more else return false

/-- Whether a character and some more stand from an index on.  The length is tested after the first
character. -/
def standsAt (chars : List Char) (i : Nat) (c : Char) (more : List Char) : Checked ε Bool := do
  if (← get chars i) = c ∧ i + more.length < chars.length then agreesAt chars (i + 1) more
  else return false

theorem answers_agreesAt {chars mark : List Char} {i : Nat} (h : i + mark.length ≤ chars.length) :
    (agreesAt chars i mark : Checked ε Bool).Answers (.ok (mark.isPrefixOf (chars.drop i))) := by
  induction mark generalizing i with
  | nil => exact answers_pure true
  | cons c more ih =>
      rw [List.length_cons] at h
      have hi : i < chars.length := by omega
      rw [agreesAt, List.drop_eq_getElem_cons hi, List.isPrefixOf_cons_cons]
      refine (answers_get (List.getElem?_eq_getElem hi)).bind_ok ?_
      by_cases hc : chars[i] = c
      · rw [if_pos hc, hc, beq_self_eq_true, Bool.true_and]
        exact ih (by omega)
      · rw [if_neg hc, beq_false_of_ne (Ne.symm hc), Bool.false_and]
        exact answers_pure false

theorem answers_standsAt {chars : List Char} {i : Nat} (hi : i < chars.length) (c : Char)
    (more : List Char) :
    (standsAt chars i c more : Checked ε Bool).Answers
      (.ok ((c :: more).isPrefixOf (chars.drop i))) := by
  unfold standsAt
  refine (answers_get (List.getElem?_eq_getElem hi)).bind_ok ?_
  rw [List.drop_eq_getElem_cons hi, List.isPrefixOf_cons_cons]
  by_cases hc : chars[i] = c
  · by_cases hlong : i + more.length < chars.length
    · rw [if_pos ⟨hc, hlong⟩, hc, beq_self_eq_true, Bool.true_and]
      exact answers_agreesAt (by omega)
    · have hshort : more.isPrefixOf (chars.drop (i + 1)) = false := by
        rw [← Bool.not_eq_true, List.isPrefixOf_iff_prefix]
        intro hprefix
        have hlength := hprefix.length_le
        rw [List.length_drop] at hlength
        omega
      rw [if_neg fun h => hlong h.2, hshort, Bool.and_false]
      exact answers_pure false
  · rw [if_neg fun h => hc h.1, beq_false_of_ne (Ne.symm hc), Bool.false_and]
    exact answers_pure false

/-! ## The closing braces -/

/-- The index of the first two closing braces outside quotes.  A backslash between quotes is passed
together with the character after it, whether there is one or not. -/
def closeIndex (chars : List Char) (quoted : Bool) (i : Nat) : Option Nat :=
  if h : i < chars.length then
    if chars[i] = '\\' ∧ quoted then closeIndex chars quoted (i + 2)
    else if chars[i] = '"' then closeIndex chars (!quoted) (i + 1)
    else if chars[i] = '}' ∧ !quoted ∧ chars[i + 1]? = some '}' then some i
    else closeIndex chars quoted (i + 1)
  else none
termination_by chars.length - i

/-- The search goes forward and stays in the text. -/
theorem bounds_of_closeIndex {chars : List Char} {quoted : Bool} {i stop : Nat}
    (h : closeIndex chars quoted i = some stop) : i ≤ stop ∧ stop < chars.length := by
  fun_induction closeIndex chars quoted i
  case case1 ih =>
    obtain ⟨hle, hlt⟩ := ih h
    exact ⟨Nat.le_trans (Nat.le_add_right _ 2) hle, hlt⟩
  case case2 ih =>
    obtain ⟨hle, hlt⟩ := ih h
    exact ⟨Nat.le_of_succ_le hle, hlt⟩
  case case3 hi _ _ _ =>
    obtain rfl := Option.some.inj h
    exact ⟨Nat.le_refl _, hi⟩
  case case4 ih =>
    obtain ⟨hle, hlt⟩ := ih h
    exact ⟨Nat.le_of_succ_le hle, hlt⟩
  case case5 => cases h

/-- Where the search stands with respect to quotes, between escapes. -/
def quoting (quoted : Bool) : Quoting :=
  if quoted then .quoted else .bare

/-- The pieces that a search gives: `read` are the characters of the body before the index `i`, in
reversed order. -/
def piecesFrom (chars : List Char) (start column i : Nat) (read : List Char) :
    Option Nat → List Piece
  | none => [.unclosed start]
  | some stop =>
    .slot start (read.reverse ++ (chars.take stop).drop i) ::
      Piece.scan (.literal []) (column + (stop + 2)) (chars.drop (stop + 2))

/-- A character that the search passes belongs to the body. -/
theorem piecesFrom_succ {chars : List Char} {i : Nat} (hi : i < chars.length) {found : Option Nat}
    (hfound : ∀ stop, found = some stop → i < stop) (start column : Nat) (read : List Char) :
    piecesFrom chars start column (i + 1) (chars[i] :: read) found =
      piecesFrom chars start column i read found := by
  cases found with
  | none => rfl
  | some stop =>
      have hstop : i < (chars.take stop).length := by
        rw [List.length_take]
        exact Nat.lt_min.mpr ⟨hfound stop rfl, hi⟩
      rw [piecesFrom, piecesFrom, List.drop_eq_getElem_cons hstop, List.getElem_take,
        List.reverse_cons, List.append_assoc, List.singleton_append]

/-- Where the search passes a character the scanner does as well. -/
theorem scan_body_drop {chars : List Char} {q : Quoting} {i : Nat} (hi : i < chars.length)
    (h : ¬(q = .bare ∧ chars[i] = '}' ∧ chars[i + 1]? = some '}')) (start column : Nat)
    (read : List Char) :
    Piece.scan (.body start q read) (column + i) (chars.drop i) =
      Piece.scan (.body start (q.next chars[i]) (chars[i] :: read)) (column + (i + 1))
        (chars.drop (i + 1)) := by
  rw [List.drop_eq_getElem_cons hi]
  refine Piece.scan_body_cons (fun behind hcloses => h ⟨hcloses.bare, ?_⟩) start _ read
  obtain ⟨hc, hrest⟩ := List.cons.inj hcloses.split
  refine ⟨hc, ?_⟩
  rw [← List.head?_drop, hrest]
  rfl

/-- The scanner ends the body of a placeholder at the index that the search finds. -/
theorem scan_body_closeIndex (chars : List Char) (quoted : Bool) (i start column : Nat)
    (read : List Char) :
    Piece.scan (.body start (quoting quoted) read) (column + i) (chars.drop i) =
      piecesFrom chars start column i read (closeIndex chars quoted i) := by
  fun_induction closeIndex chars quoted i generalizing read
  case case1 quoted i hi hescape ih =>
    obtain ⟨hc, rfl⟩ := hescape
    have hbehind : ∀ stop, closeIndex chars true (i + 2) = some stop → i + 2 ≤ stop :=
      fun _ hstop => (bounds_of_closeIndex hstop).1
    have hescaped : (quoting true).next chars[i] = .escaped := by
      rw [hc]
      rfl
    rw [scan_body_drop hi (by simp [quoting]), hescaped]
    by_cases hnext : i + 1 < chars.length
    · rw [scan_body_drop hnext (by simp), ← piecesFrom_succ hi, ← piecesFrom_succ hnext]
      · exact ih _
      · exact hbehind
      · exact fun stop hstop => Nat.le_of_succ_le (hbehind stop hstop)
    · have hend : closeIndex chars true (i + 2) = none := by
        rw [closeIndex, dif_neg (by omega)]
      rw [List.drop_eq_nil_of_le (Nat.le_of_not_lt hnext), Piece.scan, hend]
      rfl
  case case2 quoted i hi hescape hquote ih =>
    have hnext : (quoting quoted).next chars[i] = quoting (!quoted) := by
      rw [hquote]
      cases quoted <;> rfl
    rw [scan_body_drop hi (by simp [hquote]), hnext, ← piecesFrom_succ hi]
    · exact ih _
    · exact fun _ hstop => (bounds_of_closeIndex hstop).1
  case case3 quoted i hi _ _ hclose =>
    obtain ⟨hc, hquoted, hnext⟩ := hclose
    obtain ⟨hi', hc'⟩ := List.getElem?_eq_some_iff.mp hnext
    have hbare : quoting quoted = .bare := by
      cases quoted with
      | true => cases hquoted
      | false => rfl
    have hbody : (chars.take i).drop i = [] :=
      List.drop_eq_nil_of_le (List.length_take_le i chars)
    rw [List.drop_eq_getElem_cons hi, List.drop_eq_getElem_cons hi', hc, hc', hbare, Piece.scan,
      piecesFrom, hbody, List.append_nil]
    rfl
  case case4 quoted i hi hescape hquote hclose ih =>
    have hnext : (quoting quoted).next chars[i] = quoting quoted := by
      cases quoted with
      | true => simpa [quoting, Quoting.next, hquote] using hescape
      | false => simp [quoting, Quoting.next, hquote]
    have hhere : ¬(quoting quoted = .bare ∧ chars[i] = '}' ∧ chars[i + 1]? = some '}') := by
      rintro ⟨hbare, hc, hbrace⟩
      cases quoted with
      | true => cases hbare
      | false => exact hclose ⟨hc, rfl, hbrace⟩
    rw [scan_body_drop hi hhere, hnext, ← piecesFrom_succ hi]
    · exact ih _
    · exact fun _ hstop => (bounds_of_closeIndex hstop).1
  case case5 quoted i hi =>
    rw [List.drop_eq_nil_of_le (Nat.le_of_not_lt hi), Piece.scan]
    rfl

/-! ## Segments -/

/-- Literal text as a segment, unless there is none. -/
def literal (read : List Char) : List Segment :=
  if read = [] then [] else [.literal (String.ofList read.reverse)]

/-- Reads the placeholder between the opening braces at `i` and the closing braces at `stop`. -/
def placeholder (chars : List Char) (column i stop : Nat) :
    Checked (Located PlaceholderFault) Segment := do
  let body ← range chars (i + 2) stop
  if hasOpening body then throw ⟨column + i, .nested⟩
  else
    let r ← (reference body).mapError fun fault => ⟨column + i, fault⟩
    return .reference r

/-- Reads the segments from an index on, where `read` is the literal text before it, in reversed
order. -/
def segments (chars : List Char) (column i : Nat) (read : List Char) :
    Checked (Located PlaceholderFault) Template :=
  if _ : i < chars.length then do
    if ← standsAt chars i '\\' ['{', '{'] then
      segments chars column (i + 3) ('{' :: '{' :: read)
    else if ← standsAt chars i '{' ['{'] then
      match _ : closeIndex chars false (i + 2) with
      | none => throw ⟨column + i, .unclosed⟩
      | some stop => do
        let segment ← placeholder chars column i stop
        let more ← segments chars column (stop + 2) []
        return literal read ++ segment :: more
    else
      segments chars column (i + 1) ((← get chars i) :: read)
  else return literal read
termination_by chars.length - i
decreasing_by
  · omega
  · next hstop => have := bounds_of_closeIndex hstop; omega
  · omega

theorem answers_placeholder {chars : List Char} {i stop : Nat} (hle : i + 2 ≤ stop)
    (hstop : stop < chars.length) (column : Nat) :
    (placeholder chars column i stop).Answers
      (Piece.toSegment (.slot (column + i) ((chars.take stop).drop (i + 2)))) := by
  unfold placeholder Piece.toSegment
  refine (answers_range hle (Nat.le_of_lt hstop)).bind_ok ?_
  dsimp only
  split
  · exact answers_throw _
  · have hreference := answers_reference ((chars.take stop).drop (i + 2))
    cases hparse : Reference.parse ((chars.take stop).drop (i + 2)) with
    | ok r =>
        rw [hparse] at hreference
        exact (hreference.mapError _).bind_ok (answers_pure _)
    | error fault =>
        rw [hparse] at hreference
        exact (hreference.mapError _).bind_error

/-- Literal text is read as it is, and then the pieces behind it. -/
theorem mapM_ofLiteral_append (read : List Char) (ps : List Piece) :
    (Piece.ofLiteral read ++ ps).mapM Piece.toSegment =
      (ps.mapM Piece.toSegment).map (literal read ++ ·) := by
  unfold Piece.ofLiteral literal
  split
  · rw [List.nil_append]
    cases ps.mapM Piece.toSegment <;> rfl
  · rw [List.singleton_append, List.mapM_cons]
    cases ps.mapM Piece.toSegment <;> rfl

/-- A placeholder that is read goes between the literal text before it and the segments behind
it. -/
theorem mapM_ofLiteral_append_cons (read : List Char) (p : Piece) (ps : List Piece) :
    (Piece.ofLiteral read ++ p :: ps).mapM Piece.toSegment =
      p.toSegment.bind fun segment =>
        (ps.mapM Piece.toSegment).map fun more => literal read ++ segment :: more := by
  rw [mapM_ofLiteral_append, List.mapM_cons]
  cases p.toSegment with
  | error e => rfl
  | ok segment => cases ps.mapM Piece.toSegment <;> rfl

theorem escape_isPrefixOf_of_isLiteral {c : Char} {rest : List Char} (h : Piece.IsLiteral c rest) :
    ['\\', '{', '{'].isPrefixOf (c :: rest) = false := by
  rw [← Bool.not_eq_true, List.isPrefixOf_iff_prefix]
  rintro ⟨more, hmore⟩
  obtain ⟨rfl, rfl⟩ := List.cons.inj hmore
  exact h.backslash rfl ⟨more, rfl⟩

theorem braces_isPrefixOf_of_isLiteral {c : Char} {rest : List Char} (h : Piece.IsLiteral c rest) :
    ['{', '{'].isPrefixOf (c :: rest) = false := by
  rw [← Bool.not_eq_true, List.isPrefixOf_iff_prefix]
  rintro ⟨more, hmore⟩
  obtain ⟨rfl, rfl⟩ := List.cons.inj hmore
  exact h.brace rfl rfl

section Step

variable {chars read rest : List Char} {column i : Nat}
  {y : Except (Located PlaceholderFault) Template}

theorem lt_length_of_drop {c : Char} (h : chars.drop i = c :: rest) : i < chars.length := by
  refine Nat.lt_of_not_le fun hle => ?_
  rw [List.drop_eq_nil_of_le hle] at h
  cases h

theorem answers_segments_of_escape (h : chars.drop i = '\\' :: '{' :: '{' :: rest)
    (hmore : (segments chars column (i + 3) ('{' :: '{' :: read)).Answers y) :
    (segments chars column i read).Answers y := by
  have hi := lt_length_of_drop h
  have hescape := answers_standsAt (ε := Located PlaceholderFault) hi '\\' ['{', '{']
  rw [h] at hescape
  rw [segments, dif_pos hi]
  exact hescape.bind_true rfl hmore

theorem answers_segments_of_isLiteral {c : Char} (h : chars.drop i = c :: rest)
    (hliteral : Piece.IsLiteral c rest)
    (hmore : (segments chars column (i + 1) (c :: read)).Answers y) :
    (segments chars column i read).Answers y := by
  have hi := lt_length_of_drop h
  have hescape := answers_standsAt (ε := Located PlaceholderFault) hi '\\' ['{', '{']
  have hopen := answers_standsAt (ε := Located PlaceholderFault) hi '{' ['{']
  rw [h] at hescape hopen
  have hc : chars[i]? = some c := by
    rw [← List.head?_drop, h]
    rfl
  rw [segments, dif_pos hi]
  refine hescape.bind_false (escape_isPrefixOf_of_isLiteral hliteral) ?_
  refine hopen.bind_false (braces_isPrefixOf_of_isLiteral hliteral) ?_
  exact (answers_get hc).bind_ok hmore

/-- At opening braces a placeholder is read, if something closes it, and then what is behind it. -/
theorem answers_segments_of_braces (h : chars.drop i = '{' :: '{' :: rest)
    (hmore : ∀ stop, i < stop → (segments chars column stop []).Answers
      ((Piece.scan (.literal []) (column + stop) (chars.drop stop)).mapM Piece.toSegment)) :
    (segments chars column i read).Answers
      ((Piece.ofLiteral read ++ piecesFrom chars (column + i) column (i + 2) []
        (closeIndex chars false (i + 2))).mapM Piece.toSegment) := by
  have hi := lt_length_of_drop h
  have hescape := answers_standsAt (ε := Located PlaceholderFault) hi '\\' ['{', '{']
  have hopen := answers_standsAt (ε := Located PlaceholderFault) hi '{' ['{']
  rw [h] at hescape hopen
  rw [segments, dif_pos hi]
  refine hescape.bind_false rfl (hopen.bind_true rfl ?_)
  split
  · next hstop =>
      rw [hstop, piecesFrom, mapM_ofLiteral_append_cons]
      exact answers_throw _
  · next stop hstop =>
      obtain ⟨hle, hlt⟩ := bounds_of_closeIndex hstop
      rw [hstop, piecesFrom, mapM_ofLiteral_append_cons]
      refine (answers_placeholder hle hlt column).bind fun segment => ?_
      exact (hmore (stop + 2) (by omega)).map _

end Step

/-- From each index on the segments are those of the pieces that the scanner finds there. -/
theorem answers_segments (chars : List Char) (column i : Nat) (read : List Char) :
    (segments chars column i read).Answers
      ((Piece.scan (.literal read) (column + i) (chars.drop i)).mapM Piece.toSegment) := by
  induction hlength : chars.length - i using Nat.strongRecOn generalizing i read with
  | ind n ih =>
      subst hlength
      have hskip : ∀ n, chars.drop (i + n) = (chars.drop i).drop n := fun n => List.drop_drop.symm
      rcases Piece.literal_cases (chars.drop i) with h | ⟨rest, h⟩ | ⟨rest, h⟩ |
        ⟨c, rest, h, hliteral⟩
      · rw [segments, dif_neg (Nat.not_lt_of_le (List.drop_eq_nil_iff.mp h)), h, Piece.scan,
          ← List.append_nil (Piece.ofLiteral read), mapM_ofLiteral_append, List.mapM_nil]
        show (pure (literal read) : Checked _ _).Answers (.ok (literal read ++ []))
        rw [List.append_nil]
        exact answers_pure _
      · have hi := lt_length_of_drop h
        have hmore := ih _ (by omega) (i + 3) ('{' :: '{' :: read) rfl
        rw [hskip, h] at hmore
        rw [h, Piece.scan]
        exact answers_segments_of_escape h hmore
      · have hi := lt_length_of_drop h
        have hscan : Piece.scan (.body (column + i) .bare []) (column + i + 2) rest =
            piecesFrom chars (column + i) column (i + 2) [] (closeIndex chars false (i + 2)) := by
          rw [← scan_body_closeIndex, hskip, h, Nat.add_assoc]
          rfl
        rw [h, Piece.scan, hscan]
        exact answers_segments_of_braces h fun stop hstop => ih _ (by omega) stop [] rfl
      · have hi := lt_length_of_drop h
        have hmore := ih _ (by omega) (i + 1) (c :: read) rfl
        rw [hskip, h] at hmore
        rw [h, Piece.scan_cons hliteral]
        exact answers_segments_of_isLiteral h hliteral hmore

/-- The whole text is read from its first character on. -/
theorem answers_template (column : Nat) (text : List Char) :
    (segments text column 0 []).Answers (Template.parse column text) :=
  answers_segments text column 0 []

/-! ## Alternatives -/

/-- Cuts a weight off a text.  What the weight takes is found as the difference of two sizes. -/
def weight (text : List Char) : Checked (List Char) (Float × List Char × Nat) :=
  match text with
  | '\\' :: '[' :: _ => do return (1, ← sliceFrom text 1, 1)
  | '[' :: rest =>
    match Text.cutAt ']' rest with
    | none => return (1, text, 0)
    | some (raw, after) =>
      match Decimal.float? (Text.trim raw) with
      | none => return (1, text, 0)
      | some weight =>
        if weight.isFinite ∧ 0 ≤ weight then do
          let body := match after with
            | ' ' :: body => body
            | _ => after
          return (weight, body, (← sliceBefore text body).length)
        else throw (Text.trim raw)
  | _ => return (1, text, 0)

/-- Reads the text of an alternative that begins at a place. -/
def alternative (line column : Nat) (text : List Char) : Checked ParseError Alternative := do
  let (weight, body, skipped) ←
    (weight text).mapError fun raw => ⟨line, column, .invalidWeight (String.ofList raw)⟩
  let template ← (segments body (column + skipped) 0 []).mapError fun e =>
    ⟨line, e.column, .placeholder e.fault⟩
  return ⟨weight, template⟩

theorem answers_weight (text : List Char) : (weight text).Answers (cutWeight text) := by
  fun_cases cutWeight text
  case case1 rest => exact (answers_sliceFrom ['\\'] ('[' :: rest)).bind_ok (answers_pure _)
  case case2 rest hcut =>
    rw [weight, hcut]
    exact answers_pure _
  case case3 rest raw after hcut hnumber =>
    simp only [weight, hcut, hnumber]
    exact answers_pure _
  case case4 rest raw after hcut number hnumber hvalid body =>
    obtain ⟨rfl, -⟩ := Text.cutAt_eq_some hcut
    obtain ⟨blank, hafter⟩ : body <:+ after := by
      dsimp only [body]
      split
      · exact List.suffix_cons _ _
      · exact List.suffix_rfl
    have htext : '[' :: (raw ++ ']' :: after) = ('[' :: (raw ++ ']' :: blank)) ++ body := by
      rw [← hafter, List.cons_append, List.append_assoc, List.cons_append]
    have hbefore :=
      answers_sliceBefore (ε := List Char) ('[' :: (raw ++ ']' :: blank)) body
    have hlength : ('[' :: (raw ++ ']' :: after)).length - body.length =
        ('[' :: (raw ++ ']' :: blank)).length := by
      rw [htext, List.length_append, Nat.add_sub_cancel_right]
    rw [← htext] at hbefore
    rw [hlength]
    simp only [weight, hcut, hnumber, if_pos hvalid]
    exact hbefore.bind_ok (answers_pure _)
  case case5 rest raw after hcut number hnumber hinvalid =>
    simp only [weight, hcut, hnumber, if_neg hinvalid]
    exact answers_throw _
  case case6 hescape hopen =>
    rw [weight]
    · exact answers_pure _
    · exact hescape
    · exact hopen

theorem answers_alternative (line column : Nat) (text : List Char) :
    (alternative line column text).Answers (Alternative.parse line column text) := by
  have hweight := (answers_weight text).mapError fun raw =>
    (⟨line, column, .invalidWeight (String.ofList raw)⟩ : ParseError)
  unfold alternative Alternative.parse
  cases hcut : cutWeight text with
  | error raw =>
      rw [hcut] at hweight
      exact hweight.bind_error
  | ok cut =>
      obtain ⟨number, body, skipped⟩ := cut
      rw [hcut] at hweight
      refine hweight.bind_ok ?_
      have htemplate := (answers_template (column + skipped) body).mapError fun e =>
        (⟨line, e.column, .placeholder e.fault⟩ : ParseError)
      dsimp only
      cases hparse : Template.parse (column + skipped) body with
      | error e =>
          rw [hparse] at htemplate
          exact htemplate.bind_error
      | ok template =>
          rw [hparse] at htemplate
          exact htemplate.bind_ok (answers_pure _)

end Checked

end Phrasebook
