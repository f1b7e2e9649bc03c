/-!
# The SHA-256 digest

The digest of FIPS 180-4 on lists of bytes.  Of the digest the library relies on one fact, carried
by its type: it is thirty-two bytes long.
-/

namespace Phrasebook

/-- A digest of 256 bits. -/
structure Digest where
  bytes : List UInt8
  length_eq : bytes.length = 32
  deriving DecidableEq

namespace Digest

/-- The eight words that a digest is folded through. -/
structure State where
  a : UInt32
  b : UInt32
  c : UInt32
  d : UInt32
  e : UInt32
  f : UInt32
  g : UInt32
  h : UInt32

/-- The state before the first block: fractions of the square roots of the first eight primes. -/
def State.initial : State where
  a := 0x6a09e667
  b := 0xbb67ae85
  c := 0x3c6ef372
  d := 0xa54ff53a
  e := 0x510e527f
  f := 0x9b05688c
  g := 0x1f83d9ab
  h := 0x5be0cd19

/-- The constants of the rounds: fractions of the cube roots of the first sixty-four primes. -/
def roundConstants : List UInt32 := [
  0x428a2f98, 0x71374491, 0xb5c0fbcf, 0xe9b5dba5, 0x3956c25b, 0x59f111f1, 0x923f82a4, 0xab1c5ed5,
  0xd807aa98, 0x12835b01, 0x243185be, 0x550c7dc3, 0x72be5d74, 0x80deb1fe, 0x9bdc06a7, 0xc19bf174,
  0xe49b69c1, 0xefbe4786, 0x0fc19dc6, 0x240ca1cc, 0x2de92c6f, 0x4a7484aa, 0x5cb0a9dc, 0x76f988da,
  0x983e5152, 0xa831c66d, 0xb00327c8, 0xbf597fc7, 0xc6e00bf3, 0xd5a79147, 0x06ca6351, 0x14292967,
  0x27b70a85, 0x2e1b2138, 0x4d2c6dfc, 0x53380d13, 0x650a7354, 0x766a0abb, 0x81c2c92e, 0x92722c85,
  0xa2bfe8a1, 0xa81a664b, 0xc24b8b70, 0xc76c51a3, 0xd192e819, 0xd6990624, 0xf40e3585, 0x106aa070,
  0x19a4c116, 0x1e376c08, 0x2748774c, 0x34b0bcb5, 0x391c0cb3, 0x4ed8aa4a, 0x5b9cca4f, 0x682e6ff3,
  0x748f82ee, 0x78a5636f, 0x84c87814, 0x8cc70208, 0x90befffa, 0xa4506ceb, 0xbef9a3f7, 0xc67178f2]

/-- A word rotated to the right. -/
def rotate (x : UInt32) (n : UInt32) : UInt32 :=
  (x >>> n) ||| (x <<< (32 - n))

/-- The sum of two states, word by word. -/
def State.add (s t : State) : State :=
  ⟨s.a + t.a, s.b + t.b, s.c + t.c, s.d + t.d, s.e + t.e, s.f + t.f, s.g + t.g, s.h + t.h⟩

/-- The state after a round for each of the words, which are the sums of a round constant and a word
of the schedule; it begins with the words `a` to `h`. -/
def rounds : List UInt32 → (a b c d e f g h : UInt32) → State
  | [], a, b, c, d, e, f, g, h => ⟨a, b, c, d, e, f, g, h⟩
  | input :: rest, a, b, c, d, e, f, g, h =>
    let choice := (e &&& f) ^^^ (~~~e &&& g)
    let majority := (a &&& b) ^^^ (a &&& c) ^^^ (b &&& c)
    let t₁ := h + (rotate e 6 ^^^ rotate e 11 ^^^ rotate e 25) + choice + input
    let t₂ := (rotate a 2 ^^^ rotate a 13 ^^^ rotate a 22) + majority
    rounds rest (t₁ + t₂) a b c (d + t₁) e f g

/-- The words that follow the words of a block, the latest first, each computed from the sixteen
before it. -/
def extend : Nat → List UInt32 → List UInt32
  | 0, latest => latest
  | n + 1, latest =>
    match latest with
    | _ :: w₁ :: _ :: _ :: _ :: _ :: w₆ :: _ :: _ :: _ :: _ :: _ :: _ :: _ :: w₁₄ :: w₁₅ :: _ =>
      let s₀ := rotate w₁₄ 7 ^^^ rotate w₁₄ 18 ^^^ (w₁₄ >>> 3)
      let s₁ := rotate w₁ 17 ^^^ rotate w₁ 19 ^^^ (w₁ >>> 10)
      extend n ((w₁₅ + s₀ + w₆ + s₁) :: latest)
    | _ => latest

/-- The state after one block of sixteen words, the last one first. -/
def State.absorb (s : State) (latest : List UInt32) : State :=
  let schedule := (extend 48 latest).reverse
  s.add (rounds (List.zipWith (· + ·) roundConstants schedule) s.a s.b s.c s.d s.e s.f s.g s.h)

/-- The word that four bytes make up, the most significant first. -/
def wordOf (b₀ b₁ b₂ b₃ : UInt8) : UInt32 :=
  (b₀.toUInt32 <<< 24) ||| (b₁.toUInt32 <<< 16) ||| (b₂.toUInt32 <<< 8) ||| b₃.toUInt32

/-- The bytes of a word, the most significant first. -/
def bytesOf (w : UInt32) : List UInt8 :=
  [(w >>> 24).toUInt8, (w >>> 16).toUInt8, (w >>> 8).toUInt8, w.toUInt8]

/-- The words of a text whose length is a multiple of four. -/
def wordsOf : List UInt8 → List UInt32
  | b₀ :: b₁ :: b₂ :: b₃ :: rest => wordOf b₀ b₁ b₂ b₃ :: wordsOf rest
  | _ => []

/-- The state after all blocks of sixteen words. -/
def absorbAll : State → List UInt32 → State
  | s, w₀ :: w₁ :: w₂ :: w₃ :: w₄ :: w₅ :: w₆ :: w₇ ::
      w₈ :: w₉ :: w₁₀ :: w₁₁ :: w₁₂ :: w₁₃ :: w₁₄ :: w₁₅ :: rest =>
    absorbAll (s.absorb
      [w₁₅, w₁₄, w₁₃, w₁₂, w₁₁, w₁₀, w₉, w₈, w₇, w₆, w₅, w₄, w₃, w₂, w₁, w₀]) rest
  | s, _ => s

/-- The low `count` bytes of a number, the least significant first. -/
def littleEndian : Nat → Nat → List UInt8
  | 0, _ => []
  | count + 1, n => UInt8.ofNat n :: littleEndian count (n / 256)

/-- A one bit, zeros up to eight bytes short of a multiple of sixty-four, and the length in bits. -/
def padding (length : Nat) : List UInt8 :=
  0x80 :: List.replicate ((119 - length % 64) % 64) 0 ++ (littleEndian 8 (8 * length)).reverse

/-- The bytes of the words of a state. -/
def State.bytes (s : State) : List UInt8 :=
  bytesOf s.a ++ (bytesOf s.b ++ (bytesOf s.c ++ (bytesOf s.d ++
    (bytesOf s.e ++ (bytesOf s.f ++ (bytesOf s.g ++ bytesOf s.h))))))

/-- The SHA-256 digest of a message. -/
def sha256 (message : List UInt8) : Digest where
  bytes := (absorbAll .initial (wordsOf (message ++ padding message.length))).bytes
  length_eq := rfl

theorem littleEndian_length (count n : Nat) : (littleEndian count n).length = count := by
  induction count generalizing n with
  | zero => rfl
  | succ count ih => simp [littleEndian, ih]

end Digest

end Phrasebook
