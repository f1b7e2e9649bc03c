import Phrasebook.Text.Blank

/-!
# Seeds

A seed is a short token of digits and lower-case letters.  Tokens count in bijective base 36, the
way the columns of a spreadsheet do: `0`, `1`, …, `z`, `00`, `01`, …, `zz`, `000`.  Each token has
exactly one value and each positive number exactly one token; `next` and `prev` step through them.
-/

namespace Phrasebook

/-- A nonempty token, as the indices of its characters in the alphabet, in writing order. -/
structure Seed where
  digits : List (Fin 36)
  ne_nil : digits ≠ []
  deriving DecidableEq

/-- Why a text or a number is no seed. -/
inductive SeedError where
  | empty
  | invalidChar (char : Char) (position : Nat)
  | noPredecessor (token : String)
  | tooLong (token : String)
  | zeroLength
  deriving DecidableEq, Repr

namespace Seed

/-- Length of a fresh seed unless another one is asked for. -/
def defaultLength : Nat := 8

/-- Length of the longest token whose value is given out. -/
def maxDecodeLength : Nat := 24

/-! ## Characters -/

/-- The character of an index: the ten digits, then the letters. -/
def charOf (d : Fin 36) : Char :=
  if d < 10 then Char.ofNat ('0'.toNat + d) else Char.ofNat ('a'.toNat + (d - 10))

/-- The index of a character of the alphabet. -/
def digitOf? (c : Char) : Option (Fin 36) :=
  if '0' ≤ c ∧ c ≤ '9' then some (Fin.ofNat 36 (c.toNat - '0'.toNat))
  else if 'a' ≤ c ∧ c ≤ 'z' then some (Fin.ofNat 36 (c.toNat - 'a'.toNat + 10))
  else none

theorem digitOf?_charOf (d : Fin 36) : digitOf? (charOf d) = some d := by
  revert d
  decide

/-- The indices of a run of characters, the first of which stands at `position`. -/
def digitsFrom (position : Nat) : List Char → Except SeedError (List (Fin 36))
  | [] => .ok []
  | c :: rest =>
    match digitOf? c with
    | none => .error (.invalidChar c position)
    | some d => (digitsFrom (position + 1) rest).map (d :: ·)

/-- Reads a token: blanks around it and the case of its letters do not matter. -/
def parse (text : String) : Except SeedError Seed :=
  let cs := (Text.trim text.toList).map Char.toLower
  if cs = [] then .error .empty
  else
    match digitsFrom 0 cs with
    | .error e => .error e
    | .ok [] => .error .empty
    | .ok (d :: ds) => .ok ⟨d :: ds, List.cons_ne_nil d ds⟩

/-- The normal form of a token. -/
def token (s : Seed) : String :=
  String.ofList (s.digits.map charOf)

/-! ## Values -/

/-- The value of the digits written before and after each other, `before` being that of the digits
to the left. -/
def valueFrom (before : Nat) : List (Fin 36) → Nat
  | [] => before
  | d :: rest => valueFrom (36 * before + (d + 1)) rest

/-- The value of a token, for tokens of any length. -/
def value (s : Seed) : Nat :=
  valueFrom 0 s.digits

/-- The value of a token that is not too long. -/
def decode (s : Seed) : Except SeedError Nat :=
  if maxDecodeLength < s.digits.length then .error (.tooLong s.token) else .ok s.value

/-- The digit of a number, of which only the remainder matters. -/
def digit (n : Nat) : Fin 36 :=
  Fin.ofNat 36 n

/-- The digits of a number, put before the digits `after`. -/
def digitsOf (n : Nat) (after : List (Fin 36)) : List (Fin 36) :=
  if n = 0 then after else digitsOf ((n - 1) / 36) (digit (n - 1) :: after)
  termination_by n
  decreasing_by omega

/-- The token of a number; zero has none. -/
def encode (n : Nat) : Except SeedError Seed :=
  match digitsOf n [] with
  | [] => .error .empty
  | d :: ds => .ok ⟨d :: ds, List.cons_ne_nil d ds⟩

/-! ## Steps

Both steps work on the digits in reversed order, the least significant one first. -/

/-- Counts up by one. -/
def countUp : List (Fin 36) → List (Fin 36)
  | [] => [0]
  | d :: rest => if d = 35 then 0 :: countUp rest else (d + 1) :: rest

/-- Counts down by one; the digits of the value one leave nothing behind. -/
def countDown : List (Fin 36) → List (Fin 36)
  | [] => []
  | [d] => if d = 0 then [] else [d - 1]
  | d :: rest => if d = 0 then 35 :: countDown rest else (d - 1) :: rest

theorem countUp_ne_nil (ds : List (Fin 36)) : countUp ds ≠ [] := by
  cases ds with
  | nil => simp [countUp]
  | cons d rest => rw [countUp]; split <;> simp

/-- The next token in counting order. -/
def next (s : Seed) : Seed where
  digits := (countUp s.digits.reverse).reverse
  ne_nil := by simpa using countUp_ne_nil s.digits.reverse

/-- The previous token in counting order; `0` has none. -/
def prev (s : Seed) : Except SeedError Seed :=
  match (countDown s.digits.reverse).reverse with
  | [] => .error (.noPredecessor s.token)
  | d :: ds => .ok ⟨d :: ds, List.cons_ne_nil d ds⟩

/-! ## Fresh seeds -/

/-- A seed of a given length from a supply of digits. -/
def ofDraws (draw : Nat → Fin 36) : Nat → Except SeedError Seed
  | 0 => .error .zeroLength
  | n + 1 => .ok ⟨(List.range (n + 1)).map draw, by simp⟩

/-- A seed of a given length, but of one character at least. -/
def fresh (draw : Nat → Fin 36) (length : Nat) : Seed where
  digits := (List.range (max length 1)).map draw
  ne_nil := by simp only [ne_eq, List.map_eq_nil_iff, List.range_eq_nil]; omega

end Seed

/-- The text of an error. -/
def SeedError.message : SeedError → String
  | .empty => "invalid seed: empty token"
  | .invalidChar c position =>
    "invalid seed: '" ++ c.toString ++ "' at position " ++ toString position ++
      " is not a lowercase letter or digit"
  | .noPredecessor token => "invalid seed: '" ++ token ++ "' has no predecessor"
  | .tooLong token =>
    "invalid seed: '" ++ token ++ "' is too long to decode (max " ++
      toString Seed.maxDecodeLength ++ " characters)"
  | .zeroLength => "invalid seed: length must be at least 1"

end Phrasebook
