import Phrasebook.Proofs.Template.Quoting

/-!
# Scanning what was written

Which literal text the scanner can have read in front of which rest is a matter of its last
characters (`Precedes`).  Literal text that can stand there is written by `writeReversed` and
scanned back (`scan_writeReversed`).  With nothing behind it any text can be written by putting a
backslash before its double braces from the left (`scan_escapeBraces`).

The body of a placeholder is what stands before the first two closing braces outside quotes
(`ClosesFirst.scan_body`); a placeholder without such braces never ends (`scan_body_of_unclosed`).
-/

namespace Phrasebook

namespace Piece

/-! ## Literal text -/

/-- A text that begins with two opening braces. -/
def Opens (text : List Char) : Prop :=
  ∃ rest, text = '{' :: '{' :: rest

/-- A character that is literal text in front of `rest`. -/
structure IsLiteral (c : Char) (rest : List Char) : Prop where
  brace : c = '{' → rest.head? ≠ some '{'
  backslash : c = '\\' → ¬Opens rest

/-- Literal text, given in reversed order, that can have been read in front of `rest`: a lone brace
at its end pairs with no brace of `rest`, and a backslash at its end meets no two braces. -/
def Precedes : List Char → List Char → Prop
  | '{' :: '{' :: _, _ => True
  | '{' :: _, rest => rest.head? ≠ some '{'
  | '\\' :: _, rest => ¬Opens rest
  | _, _ => True

variable {c : Char} {read rest : List Char}

theorem precedes_of_head? (h : rest.head? ≠ some '{') (read : List Char) :
    Precedes read rest := by
  unfold Precedes
  split
  · trivial
  · exact h
  · rintro ⟨more, rfl⟩
    exact h rfl
  · trivial

theorem IsLiteral.precedes (h : IsLiteral c rest) (read : List Char) :
    Precedes (c :: read) rest := by
  unfold Precedes
  split
  · trivial
  · next heq => exact h.brace (List.cons.inj heq).1
  · next heq => exact h.backslash (List.cons.inj heq).1
  · trivial

/-- A character that closes no pair of braces is literal text by itself. -/
theorem Precedes.isLiteral (h : Precedes (c :: read) rest)
    (halone : c = '{' → read.head? ≠ some '{') : IsLiteral c rest where
  brace := by
    rintro rfl
    unfold Precedes at h
    split at h
    · next heq => exact absurd (by rw [(List.cons.inj heq).2]; rfl) (halone rfl)
    · exact h
    · next heq => exact absurd (List.cons.inj heq).1 (by decide)
    · next hlone _ => exact absurd rfl (hlone read)
  backslash := by
    rintro rfl
    exact h

/-- Literal text stays literal in front of a character that closes no pair of braces. -/
theorem Precedes.of_cons (h : Precedes (c :: read) rest)
    (halone : c = '{' → read.head? ≠ some '{') : Precedes read (c :: rest) := by
  unfold Precedes
  split
  · trivial
  · intro hc
    exact halone (Option.some.inj hc) rfl
  · rintro ⟨more, hopen⟩
    obtain ⟨hc, hrest⟩ := List.cons.inj hopen
    exact (h.isLiteral halone).brace hc (by rw [hrest]; rfl)
  · trivial

theorem scan_cons (h : IsLiteral c rest) (read : List Char) (column : Nat) :
    scan (.literal read) column (c :: rest) = scan (.literal (c :: read)) (column + 1) rest := by
  rw [scan]
  · rintro more rfl rfl
    exact h.backslash rfl ⟨more, rfl⟩
  · rintro more rfl rfl
    exact h.brace rfl rfl

/-! ## Writing literal text -/

/-- Literal text as it is written, both in reversed order: a backslash goes before two braces, and
braces are paired from the end of the text on, so that a brace left over stands before the pairs. -/
def writeReversed : List Char → List Char
  | '{' :: '{' :: read => '{' :: '{' :: '\\' :: writeReversed read
  | c :: read => c :: writeReversed read
  | [] => []

theorem scan_writeReversed (read : List Char) (column : Nat) {tail : List Char}
    (h : Precedes read tail) :
    scan (.literal []) column ((writeReversed read).reverse ++ tail) =
      scan (.literal read) (column + (writeReversed read).length) tail := by
  fun_induction writeReversed read generalizing tail
  case case1 read ih =>
    -- What comes before the pair stands in front of a backslash, and that never changes a meaning.
    calc
      scan (.literal []) column (('{' :: '{' :: '\\' :: writeReversed read).reverse ++ tail)
        = scan (.literal []) column
            ((writeReversed read).reverse ++ '\\' :: '{' :: '{' :: tail) := by simp
      _ = scan (.literal read) (column + (writeReversed read).length)
            ('\\' :: '{' :: '{' :: tail) := ih (precedes_of_head? (by simp) read)
      _ = scan (.literal ('{' :: '{' :: read))
            (column + (writeReversed read).length + 3) tail := by rw [scan]
  case case2 c read halone ih =>
    have hc : c = '{' → read.head? ≠ some '{' := by
      intro hc hread
      obtain ⟨more, hmore⟩ := List.head?_eq_some_iff.mp hread
      exact halone more hc hmore
    calc
      scan (.literal []) column ((c :: writeReversed read).reverse ++ tail)
        = scan (.literal []) column ((writeReversed read).reverse ++ c :: tail) := by simp
      _ = scan (.literal read) (column + (writeReversed read).length) (c :: tail) :=
          ih (h.of_cons hc)
      _ = scan (.literal (c :: read)) (column + (writeReversed read).length + 1) tail :=
          scan_cons (h.isLiteral hc) read _
  case case3 => rfl

/-- Literal text with a backslash before each two braces, counted from the left. -/
def escapeBraces : List Char → List Char
  | '{' :: '{' :: rest => '\\' :: '{' :: '{' :: escapeBraces rest
  | c :: rest => c :: escapeBraces rest
  | [] => []

theorem head?_of_escapeBraces {s : List Char} (h : (escapeBraces s).head? = some '{') :
    s.head? = some '{' := by
  fun_cases escapeBraces s
  case case1 => rfl
  case case2 c rest halone =>
    rw [escapeBraces] at h
    · exact h
    · exact halone
  case case3 => exact h

theorem not_opens_escapeBraces (s : List Char) : ¬Opens (escapeBraces s) := by
  rintro ⟨more, hopen⟩
  fun_cases escapeBraces s
  case case1 rest => simp [escapeBraces] at hopen
  case case2 c rest halone =>
    rw [escapeBraces] at hopen
    · obtain ⟨hc, hrest⟩ := List.cons.inj hopen
      have hhead : rest.head? = some '{' := head?_of_escapeBraces (by rw [hrest]; rfl)
      obtain ⟨more', hmore⟩ := List.head?_eq_some_iff.mp hhead
      exact halone more' hc hmore
    · exact halone
  case case3 => cases hopen

theorem scan_escapeBraces (s read : List Char) (column : Nat) :
    scan (.literal read) column (escapeBraces s) = ofLiteral (s.reverse ++ read) := by
  fun_induction escapeBraces s generalizing read column
  case case1 rest ih =>
    rw [scan, ih, List.reverse_cons, List.reverse_cons, List.append_assoc, List.append_assoc]
    rfl
  case case2 c rest halone ih =>
    have hliteral : IsLiteral c (escapeBraces rest) := by
      refine ⟨fun hc hhead => ?_, fun _ => not_opens_escapeBraces rest⟩
      obtain ⟨more, hmore⟩ := List.head?_eq_some_iff.mp (head?_of_escapeBraces hhead)
      exact halone more hc hmore
    rw [scan_cons hliteral, ih, List.reverse_cons, List.append_assoc]
    rfl
  case case3 =>
    rw [scan]
    rfl

/-! ## Placeholders -/

/-- Two closing braces outside quotes, with `body` before them and `behind` after them. -/
structure Closes (q : Quoting) (rest body behind : List Char) : Prop where
  split : rest = body ++ '}' :: '}' :: behind
  bare : q.after body = .bare

/-- The first two closing braces outside quotes. -/
structure ClosesFirst (q : Quoting) (rest body behind : List Char) : Prop extends
    Closes q rest body behind where
  first : ∀ {earlier later}, Closes q rest earlier later → body.length ≤ earlier.length

variable {q : Quoting} {body behind : List Char}

theorem Closes.cons (h : Closes (q.next c) rest body behind) :
    Closes q (c :: rest) (c :: body) behind where
  split := by rw [h.split, List.cons_append]
  bare := h.bare

/-- Where closing braces stand outside quotes there is a first place with such braces. -/
theorem Closes.exists_closesFirst (h : Closes q rest body behind) :
    ∃ body behind, ClosesFirst q rest body behind := by
  induction hlength : body.length using Nat.strongRecOn generalizing body behind with
  | ind n ih =>
      subst hlength
      by_cases hearlier : ∃ earlier later, Closes q rest earlier later ∧
          earlier.length < body.length
      · obtain ⟨earlier, later, hcloses, hshorter⟩ := hearlier
        exact ih _ hshorter hcloses rfl
      · refine ⟨body, behind, h, fun {earlier later} hcloses => Nat.le_of_not_lt fun hshorter => ?_⟩
        exact hearlier ⟨earlier, later, hcloses, hshorter⟩

/-- A character that does not begin closing braces outside quotes belongs to the body. -/
theorem scan_body_cons (h : ∀ behind, ¬Closes q (c :: rest) [] behind) (start column : Nat)
    (read : List Char) :
    scan (.body start q read) column (c :: rest) =
      scan (.body start (q.next c) (c :: read)) (column + 1) rest := by
  rw [scan]
  rintro more rfl rfl rfl
  exact h more ⟨rfl, rfl⟩

/-- The body of a placeholder runs to the first closing braces outside quotes. -/
theorem ClosesFirst.scan_body (h : ClosesFirst q rest body behind) (start column : Nat)
    (read : List Char) :
    scan (.body start q read) column rest =
      .slot start (read.reverse ++ body) ::
        scan (.literal []) (column + body.length + 2) behind := by
  induction body generalizing q rest column read with
  | nil =>
      obtain rfl := h.split
      obtain rfl : q = .bare := h.bare
      rw [List.nil_append, scan, List.append_nil]
      rfl
  | cons c body ih =>
      obtain rfl := h.split
      have hnotHere : ∀ behind', ¬Closes q (c :: (body ++ '}' :: '}' :: behind)) [] behind' :=
        fun _ hcloses => absurd (h.first hcloses) (Nat.not_succ_le_zero _)
      have hbody : ClosesFirst (q.next c) (body ++ '}' :: '}' :: behind) body behind :=
        ⟨⟨rfl, h.bare⟩, fun hcloses => Nat.le_of_succ_le_succ (h.first hcloses.cons)⟩
      rw [List.cons_append, scan_body_cons hnotHere, ih hbody]
      simp [Nat.add_assoc, Nat.add_comm 1]

/-- A body that shows no closing brace of its own runs to the braces behind it. -/
theorem closesFirst_of_covered (h : Quoting.Covered '}' body) (behind : List Char) :
    ClosesFirst .bare (body ++ '}' :: '}' :: behind) body behind := by
  refine ⟨⟨rfl, h.closed⟩, fun {earlier later} hcloses => Nat.le_of_not_lt fun hshorter => ?_⟩
  obtain ⟨more, hbody⟩ : ∃ more, body = earlier ++ '}' :: more := by
    rcases List.append_eq_append_iff.mp hcloses.split with ⟨more, rfl, -⟩ | ⟨more, rfl, hbraces⟩
    · rw [List.length_append] at hshorter
      omega
    · cases more with
      | nil => simp at hshorter
      | cons c more =>
          obtain ⟨rfl, -⟩ := List.cons.inj hbraces
          exact ⟨more, rfl⟩
  have hhides := h.hides
  rw [hbody, Quoting.hides_append_iff, hcloses.bare] at hhides
  exact hhides.2.1 ⟨rfl, rfl⟩

/-- Without closing braces outside quotes a placeholder never ends. -/
theorem scan_body_of_unclosed (h : ∀ body behind, ¬Closes q rest body behind)
    (start column : Nat) (read : List Char) :
    scan (.body start q read) column rest = [.unclosed start] := by
  induction rest generalizing q column read with
  | nil => rw [scan]
  | cons c rest ih =>
      rw [scan_body_cons (h [])]
      exact ih (fun body behind hcloses => h _ behind hcloses.cons) _ _

end Piece

end Phrasebook
