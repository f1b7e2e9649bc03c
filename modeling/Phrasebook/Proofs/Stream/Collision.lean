import Mathlib.Data.List.Basic
import Mathlib.Data.List.Induction
import Phrasebook.Stream.Basic

/-!
# Streams meet only where digests collide

A stream is named by a seed and a path.  Two different names lead to one stream only if two
different messages that are hashed on the two ways have the same digest
(`descend_ne_or_collision`).

The two ways are compared from their ends.  A message is a key of 32 bytes followed by the bytes of
a step, and both parts can be cut out again, so equal messages mean equal last steps below equal
streams.  A way that has run out of steps ends in the message of a seed, and that is never the
message of a step: from the 33rd byte on it has digits only, which are written as nonzero bytes,
while the bytes of a step contain a zero.  For an index the zero is its highest byte, so indices are
asked to leave that byte free.

Of the digest only its length is used.
-/

namespace Phrasebook

/-- A name, or an index whose highest byte is free. -/
def Step.InRange : Step → Prop
  | .name _ => True
  | .index n => n < Nat.pow 2 56

namespace Stream

/-! ## Messages -/

/-- The messages hashed on the way along a path. -/
def messagesBelow (s : Stream) : Path → List (List UInt8)
  | [] => []
  | step :: rest => s.childMessage step :: (s.child step).messagesBelow rest

/-- The messages hashed for the stream that a seed and a path lead to. -/
def messages (seed : Seed) (path : Path) : List (List UInt8) :=
  rootMessage seed :: (ofSeed seed).messagesBelow path

/-- Two different messages, one of each list, with the same digest. -/
def Collision (ms ms' : List (List UInt8)) : Prop :=
  ∃ m ∈ ms, ∃ m' ∈ ms', m ≠ m' ∧ Digest.sha256 m = Digest.sha256 m'

theorem Collision.mono {ms ms' longer longer' : List (List UInt8)} (h : Collision ms ms')
    (hle : ms ⊆ longer) (hle' : ms' ⊆ longer') : Collision longer longer' := by
  obtain ⟨m, hm, m', hm', hcollide⟩ := h
  exact ⟨m, hle hm, m', hle' hm', hcollide⟩

theorem descend_concat (s : Stream) (p : Path) (step : Step) :
    s.descend (p ++ [step]) = (s.descend p).child step := by
  rw [descend_append]
  rfl

theorem messagesBelow_concat (s : Stream) (p : Path) (step : Step) :
    s.messagesBelow (p ++ [step]) = s.messagesBelow p ++ [(s.descend p).childMessage step] := by
  induction p generalizing s with
  | nil => rfl
  | cons first rest ih =>
      have hrest := ih (s.child first)
      rw [List.cons_append, messagesBelow, hrest]
      rfl

theorem messages_concat (seed : Seed) (p : Path) (step : Step) :
    messages seed (p ++ [step]) =
      messages seed p ++ [((ofSeed seed).descend p).childMessage step] := by
  rw [messages, messagesBelow_concat]
  rfl

theorem rootMessage_mem_messages (seed : Seed) (p : Path) :
    rootMessage seed ∈ messages seed p :=
  List.mem_cons_self

theorem childMessage_mem_messages (seed : Seed) (p : Path) (step : Step) :
    ((ofSeed seed).descend p).childMessage step ∈ messages seed (p ++ [step]) := by
  rw [messages_concat]
  exact List.mem_append_right _ List.mem_cons_self

theorem messages_subset_concat (seed : Seed) (p : Path) (step : Step) :
    messages seed p ⊆ messages seed (p ++ [step]) := by
  rw [messages_concat]
  exact List.subset_append_left _ _

/-! ## Bytes of numbers and texts -/

theorem littleEndian_concat (count n : Nat) :
    Digest.littleEndian (count + 1) n =
      Digest.littleEndian count n ++ [UInt8.ofNat (n / Nat.pow 256 count)] := by
  induction count generalizing n with
  | zero => simp [Digest.littleEndian]
  | succ count ih =>
      have hdiv : n / 256 / Nat.pow 256 count = n / Nat.pow 256 (count + 1) := by
        rw [Nat.div_div_eq_div_mul, Nat.mul_comm]
        rfl
      rw [Digest.littleEndian, ih (n / 256), hdiv]
      rfl

theorem ofNat_digit_ne_zero (d : Fin 36) : UInt8.ofNat (d.val + 1) ≠ 0 := by
  revert d
  decide

theorem ofNat_digit_injective (d e : Fin 36)
    (h : UInt8.ofNat (d.val + 1) = UInt8.ofNat (e.val + 1)) : d = e := by
  revert d e
  decide

theorem mod_eq_of_ofNat_eq {n m : Nat} (h : UInt8.ofNat n = UInt8.ofNat m) :
    n % 256 = m % 256 := by
  simpa using congrArg UInt8.toNat h

theorem littleEndian_injective {count n m : Nat} (hn : n < Nat.pow 256 count)
    (hm : m < Nat.pow 256 count) (h : Digest.littleEndian count n = Digest.littleEndian count m) :
    n = m := by
  induction count generalizing n m with
  | zero =>
      have hone : Nat.pow 256 0 = 1 := rfl
      omega
  | succ count ih =>
      obtain ⟨hlow, hhigh⟩ := List.cons.inj h
      have hpow : Nat.pow 256 (count + 1) = Nat.pow 256 count * 256 := rfl
      have hdiv : n / 256 = m / 256 := ih (by omega) (by omega) hhigh
      have hmod : n % 256 = m % 256 := mod_eq_of_ofNat_eq hlow
      omega

private theorem toList_loop (bytes : ByteArray) (i : Nat) (before : List UInt8) :
    ByteArray.toList.loop bytes i before = before.reverse ++ bytes.data.toList.drop i := by
  induction i, before using ByteArray.toList.loop.induct bytes with
  | case1 i before hlt ih =>
      have hlt' : i < bytes.data.toList.length := hlt
      rw [ByteArray.toList.loop, if_pos hlt, ih, List.drop_eq_getElem_cons hlt']
      simp [ByteArray.get!, hlt]
  | case2 i before hge =>
      have hge' : bytes.data.toList.length ≤ i := Nat.le_of_not_lt hge
      rw [ByteArray.toList.loop, if_neg hge, List.drop_eq_nil_of_le hge', List.append_nil]

theorem toUTF8_toList_injective {s t : String} (h : s.toUTF8.toList = t.toUTF8.toList) :
    s = t := by
  have hdata : ∀ bytes : ByteArray, bytes.toList = bytes.data.toList := by
    intro bytes
    rw [ByteArray.toList, toList_loop]
    rfl
  rw [hdata, hdata] at h
  exact String.toByteArray_inj.mp (ByteArray.ext (Array.toList_inj.mp h))

/-! ## Messages can be read back -/

theorem stepBytes_injective {a b : Step} (ha : a.InRange) (hb : b.InRange)
    (h : stepBytes a = stepBytes b) : a = b := by
  have hpow : Nat.pow 2 56 < Nat.pow 256 8 := by decide
  cases a with
  | name s =>
      cases b with
      | name t =>
          have hlength : (Digest.littleEndian 8 s.utf8ByteSize).length =
              (Digest.littleEndian 8 t.utf8ByteSize).length := by
            rw [Digest.littleEndian_length, Digest.littleEndian_length]
          have hbytes := (List.append_inj (List.cons.inj h).2 hlength).2
          rw [toUTF8_toList_injective hbytes]
      | index m => exact absurd (List.cons.inj h).1 (by decide)
  | index n =>
      cases b with
      | name t => exact absurd (List.cons.inj h).1 (by decide)
      | index m =>
          have hnm := littleEndian_injective (Nat.lt_trans ha hpow) (Nat.lt_trans hb hpow)
            (List.cons.inj h).2
          rw [hnm]

theorem childMessage_injective {s t : Stream} {a b : Step} (ha : a.InRange) (hb : b.InRange)
    (h : s.childMessage a = t.childMessage b) : s = t ∧ a = b := by
  obtain ⟨⟨key, hkey⟩⟩ := s
  obtain ⟨⟨key', hkey'⟩⟩ := t
  obtain ⟨hkeys, hsteps⟩ := List.append_inj h (hkey.trans hkey'.symm)
  obtain rfl : key = key' := hkeys
  exact ⟨rfl, stepBytes_injective ha hb hsteps⟩

theorem rootMessage_injective {seed seed' : Seed} (h : rootMessage seed = rootMessage seed') :
    seed = seed' := by
  obtain ⟨digits, hne⟩ := seed
  obtain ⟨digits', hne'⟩ := seed'
  have hbytes := List.append_cancel_left h
  obtain rfl : digits = digits' := (List.map_inj_right ofNat_digit_injective).mp hbytes
  rfl

theorem zero_mem_stepBytes {step : Step} (h : step.InRange) : 0 ∈ stepBytes step := by
  cases step with
  | name s => exact List.mem_cons_self
  | index n =>
      have hhigh : n / Nat.pow 256 7 = 0 := Nat.div_eq_of_lt h
      have hbytes : Digest.littleEndian 8 n = Digest.littleEndian 7 n ++ [0] := by
        rw [littleEndian_concat, hhigh]
        rfl
      rw [stepBytes, hbytes]
      simp

/-- The message of a seed is not that of a step. -/
theorem rootMessage_ne_childMessage (seed : Seed) (s : Stream) {step : Step}
    (h : step.InRange) : rootMessage seed ≠ s.childMessage step := by
  intro heq
  have hdomain : rootDomain.length ≤ 32 := by decide +kernel
  have htail : stepBytes step = (rootMessage seed).drop 32 := by
    rw [heq, childMessage, List.drop_left' s.key.length_eq]
  have hzero : (0 : UInt8) ∈ (rootMessage seed).drop 32 := htail ▸ zero_mem_stepBytes h
  rw [rootMessage, List.drop_append, List.drop_eq_nil_of_le hdomain, List.nil_append] at hzero
  obtain ⟨d, -, hd⟩ := List.mem_map.mp (List.mem_of_mem_drop hzero)
  exact ofNat_digit_ne_zero d hd

/-! ## Two ways to one stream -/

theorem collision_of_ne {ms ms' : List (List UInt8)} {m m' : List UInt8} (hm : m ∈ ms)
    (hm' : m' ∈ ms') (hne : m ≠ m')
    (heq : (⟨Digest.sha256 m⟩ : Stream) = ⟨Digest.sha256 m'⟩) : Collision ms ms' :=
  ⟨m, hm, m', hm', hne, congrArg Stream.key heq⟩

/-- Two different ways to one stream hash two different messages with the same digest. -/
theorem collision_of_descend_eq {seed seed' : Seed} {p q : Path}
    (hp : ∀ step ∈ p, step.InRange) (hq : ∀ step ∈ q, step.InRange)
    (hne : (seed, p) ≠ (seed', q))
    (heq : (ofSeed seed).descend p = (ofSeed seed').descend q) :
    Collision (messages seed p) (messages seed' q) := by
  -- Both ways lose their last step until one of them has none left.
  induction p using List.reverseRecOn generalizing q with
  | nil =>
      rcases List.eq_nil_or_concat' q with rfl | ⟨q, b, rfl⟩
      · refine collision_of_ne (rootMessage_mem_messages seed [])
          (rootMessage_mem_messages seed' []) (fun hroot => hne ?_) heq
        rw [rootMessage_injective hroot]
      · rw [descend_concat] at heq
        have hb : b.InRange := hq b (List.mem_append_right _ List.mem_cons_self)
        exact collision_of_ne (rootMessage_mem_messages seed [])
          (childMessage_mem_messages seed' q b) (rootMessage_ne_childMessage seed _ hb) heq
  | append_singleton p a ih =>
      have ha : a.InRange := hp a (List.mem_append_right _ List.mem_cons_self)
      rw [descend_concat] at heq
      rcases List.eq_nil_or_concat' q with rfl | ⟨q, b, rfl⟩
      · exact collision_of_ne (childMessage_mem_messages seed p a)
          (rootMessage_mem_messages seed' []) (rootMessage_ne_childMessage seed' _ ha).symm heq
      · rw [descend_concat] at heq
        have hb : b.InRange := hq b (List.mem_append_right _ List.mem_cons_self)
        by_cases hlast : ((ofSeed seed).descend p).childMessage a =
            ((ofSeed seed').descend q).childMessage b
        · obtain ⟨hbefore, rfl⟩ := childMessage_injective ha hb hlast
          have hne' : (seed, p) ≠ (seed', q) := by
            intro hpair
            obtain ⟨rfl, rfl⟩ := Prod.mk.inj hpair
            exact hne rfl
          have hcollision := ih (fun step hstep => hp step (List.mem_append_left _ hstep))
            (fun step hstep => hq step (List.mem_append_left _ hstep)) hne' hbefore
          exact hcollision.mono (messages_subset_concat seed p a) (messages_subset_concat seed' q a)
        · exact collision_of_ne (childMessage_mem_messages seed p a)
            (childMessage_mem_messages seed' q b) hlast heq

/-- Different seeds and paths lead to different streams unless two different messages hashed on the
two ways have the same digest. -/
theorem descend_ne_or_collision {seed seed' : Seed} {p q : Path}
    (hp : ∀ step ∈ p, step.InRange) (hq : ∀ step ∈ q, step.InRange)
    (hne : (seed, p) ≠ (seed', q)) :
    (ofSeed seed).descend p ≠ (ofSeed seed').descend q ∨
      ∃ m ∈ messages seed p, ∃ m' ∈ messages seed' q,
        m ≠ m' ∧ Digest.sha256 m = Digest.sha256 m' := by
  by_cases heq : (ofSeed seed).descend p = (ofSeed seed').descend q
  · exact Or.inr (collision_of_descend_eq hp hq hne heq)
  · exact Or.inl heq

/-- One seed with a path and with the end of that path. -/
theorem descend_ne_or_collision_suffix :
    let seed : Seed := ⟨[1, 0], by decide⟩
    let p : Path := [.name "1", .index 1, .name "card"]
    let q : Path := [.name "card"]
    (∀ step ∈ p, step.InRange) ∧ (∀ step ∈ q, step.InRange) ∧ (seed, p) ≠ (seed, q) ∧
      ((ofSeed seed).descend p ≠ (ofSeed seed).descend q ∨
        ∃ m ∈ messages seed p, ∃ m' ∈ messages seed q,
          m ≠ m' ∧ Digest.sha256 m = Digest.sha256 m') := by
  intro seed p q
  have hp : ∀ step ∈ p, step.InRange := by simp [p, Step.InRange]
  have hq : ∀ step ∈ q, step.InRange := by simp [q, Step.InRange]
  have hne : (seed, p) ≠ (seed, q) := by decide
  exact ⟨hp, hq, hne, descend_ne_or_collision hp hq hne⟩

end Stream

end Phrasebook
