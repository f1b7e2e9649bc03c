import Phrasebook.Stream.Basic

/-!
# Draws

The numbers of one stream come from a multiplicative congruential generator of 128 bits whose
state is the low half of the key, made odd.  Each draw folds the next state into 64 bits: the
exclusive or of its halves, rotated by its six highest bits.
-/

namespace Phrasebook.Stream

/-- The factor between one state and the next. -/
def multiplier : Nat := 0x2360ED051FC65DA44385DF649FCCF645

/-- The number that a list of bytes makes up, the least significant byte first. -/
def ofLittleEndian (bytes : List UInt8) : Nat :=
  bytes.foldr (fun b n => 256 * n + b.toNat) 0

/-- The state before the first draw. -/
def initialState (s : Stream) : Nat :=
  ofLittleEndian (s.key.bytes.take 16) ||| 1

/-- The state after one more draw. -/
def nextState (state : Nat) : Nat :=
  state * multiplier % Nat.pow 2 128

/-- A word rotated to the right. -/
def rotateRight (x : UInt64) (n : Nat) : UInt64 :=
  (x >>> UInt64.ofNat n) ||| (x <<< UInt64.ofNat ((64 - n) % 64))

/-- The draw that belongs to a state. -/
def output (state : Nat) : UInt64 :=
  rotateRight (UInt64.ofNat (state / Nat.pow 2 64) ^^^ UInt64.ofNat state) (state / Nat.pow 2 122)

/-- The draws that follow a state. -/
def drawsFrom : Nat → Nat → List UInt64
  | 0, _ => []
  | count + 1, state => output (nextState state) :: drawsFrom count (nextState state)

/-- The first draws of a stream. -/
def draws (s : Stream) (count : Nat) : List UInt64 :=
  drawsFrom count s.initialState

/-- The number in `[0, 1)` that a draw stands for: its 53 highest bits as a binary fraction. -/
def fraction (draw : UInt64) : Float :=
  (draw >>> 11).toFloat / 9007199254740992

/-- The first draw of a stream as a number in `[0, 1)`. -/
def unit (s : Stream) : Float :=
  fraction (output (nextState s.initialState))

end Phrasebook.Stream
