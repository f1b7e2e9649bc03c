import Phrasebook.Digest.Sha256
import Phrasebook.Seed

/-!
# Streams of random numbers

All randomness of a render hangs on one tree of streams.  A seed names the root of a tree, and a
path of names and indices leads from the root to a stream below it.  A stream is a 256-bit key and
never advances: what is drawn from it depends on the seed and the path alone.
-/

namespace Phrasebook

/-- One step of a path. -/
inductive Step where
  | name (s : String)
  | index (n : Nat)
  deriving DecidableEq, Repr

/-- The way from a stream to one below it. -/
abbrev Path := List Step

/-- A node of a tree of streams. -/
structure Stream where
  key : Digest
  deriving DecidableEq

namespace Stream

/-- What is hashed before the digits of a seed, and before nothing else. -/
def rootDomain : List UInt8 :=
  "seed-engine/generator/v1".toUTF8.toList

/-- The message whose digest is the root of a seed. -/
def rootMessage (s : Seed) : List UInt8 :=
  rootDomain ++ s.digits.map fun d => UInt8.ofNat (d.val + 1)

/-- A step as bytes: a mark for its kind, then a number of eight bytes and the bytes of a name. -/
def stepBytes : Step → List UInt8
  | .name s => 0 :: Digest.littleEndian 8 s.utf8ByteSize ++ s.toUTF8.toList
  | .index n => 1 :: Digest.littleEndian 8 n

/-- The message whose digest is the stream one step below a stream. -/
def childMessage (s : Stream) (step : Step) : List UInt8 :=
  s.key.bytes ++ stepBytes step

/-- The root stream of a seed. -/
def ofSeed (s : Seed) : Stream where
  key := Digest.sha256 (rootMessage s)

/-- The stream one step below. -/
def child (s : Stream) (step : Step) : Stream where
  key := Digest.sha256 (childMessage s step)

/-- The stream at the end of a path. -/
def descend (s : Stream) (path : Path) : Stream :=
  path.foldl child s

theorem descend_append (s : Stream) (p q : Path) :
    s.descend (p ++ q) = (s.descend p).descend q := by
  simp [descend]

/-! ## Labels -/

/-- A byte as two hexadecimal digits. -/
def hexByte (b : UInt8) : List Char :=
  [Nat.digitChar (b.toNat / 16), Nat.digitChar (b.toNat % 16)]

/-- A short text to tell streams apart by: the first four bytes of the key. -/
def label (s : Stream) : String :=
  "Generator(" ++ String.ofList ((s.key.bytes.take 4).flatMap hexByte) ++ "..)"

end Stream

end Phrasebook
