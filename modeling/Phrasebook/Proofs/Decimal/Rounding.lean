import Mathlib
import Phrasebook.Decimal.Fixed

/-!
# Rounding to a number of places

A finite float is a rational number (`exactValue`), and the parts read off its bits give the same
one (`Binary.value_ofFloat`).  `Fixed.ofBinary` is no farther from it than half a unit of the last
place, and from a number in the middle of two neighbours it goes to the one whose last digit is
even (`Fixed.ofBinary_nearest`).
-/

namespace Phrasebook.Decimal

open Float.Model
open Float.Model.UnpackedFloat (Sign unpackMantissa unpackExponent unpackSign)

/-! ## The numbers meant -/

/-- A number with a sign in front. -/
def signed (negative : Bool) (q : ℚ) : ℚ :=
  if negative then -q else q

/-- The number that an unpacked float is; an infinity is none and counts as zero. -/
def unpackedValue : UnpackedFloat → ℚ
  | .finite sign significand power _ => signed (sign == .negative) (significand * 2 ^ power)
  | _ => 0

/-- The number that a finite float is. -/
def exactValue (x : Float) : ℚ :=
  unpackedValue x.toModel.unpack

def Binary.value (b : Binary) : ℚ :=
  signed b.negative (b.significand * 2 ^ b.power)

def Fixed.value (f : Fixed) : ℚ :=
  signed f.negative (f.units / 10 ^ f.places)

@[simp] theorem signed_zero (negative : Bool) : signed negative 0 = 0 := by
  cases negative <;> simp [signed]

theorem signed_sub (negative : Bool) (p q : ℚ) :
    signed negative p - signed negative q = signed negative (p - q) := by
  cases negative <;> simp [signed]
  ring

@[simp] theorem abs_signed (negative : Bool) (q : ℚ) : |signed negative q| = |q| := by
  cases negative <;> simp [signed]

/-! ## Reading the bits of a float -/

section Bits

variable (b : BitVec Format.binary64.numBits)

theorem toNat_unpackMantissa :
    (unpackMantissa b).toNat = b.toNat % 2 ^ 52 := by
  simp [unpackMantissa]

theorem toNat_unpackExponent :
    (unpackExponent b).toNat = b.toNat / 2 ^ 52 % 2 ^ 11 := by
  simp [unpackExponent, Nat.shiftRight_eq_div_pow]

theorem toNat_unpackSign : (unpackSign b).toNat = b.toNat / 2 ^ 63 := by
  have hlt : b.toNat < 2 ^ 64 := b.isLt
  simp only [unpackSign, BitVec.toNat_cast, BitVec.extractLsb_toNat, Nat.shiftRight_eq_div_pow]
  omega

theorem ofBitVec_unpackSign :
    (Sign.ofBitVec (unpackSign b) == .negative) =
      decide (b.toNat / 2 ^ 63 = 1) := by
  have hlt := (unpackSign b).isLt
  rw [← toNat_unpackSign, Sign.ofBitVec]
  split
  · next hzero =>
      rw [hzero]
      rfl
  · next hzero =>
      have hone : (unpackSign b).toNat = 1 := by
        have hne : (unpackSign b).toNat ≠ 0 := fun h =>
          hzero (BitVec.eq_of_toNat_eq h)
        omega
      rw [hone]
      rfl

theorem unpackExponent_eq_zero_iff :
    unpackExponent b = 0#11 ↔ b.toNat / 2 ^ 52 % 2 ^ 11 = 0 := by
  rw [← BitVec.toNat_inj, toNat_unpackExponent]
  rfl

end Bits

/-- The parts of a float are its fields; a float with the least exponent has no leading bit. -/
theorem Binary.ofFloat_eq {x : Float} {b : BitVec Format.binary64.numBits}
    (hb : x.toBits.toBitVec = b) :
    Binary.ofFloat x =
      let negative := Sign.ofBitVec (unpackSign b) == .negative
      if unpackExponent b = 0#11 then ⟨negative, (unpackMantissa b).toNat, -1074⟩
      else ⟨negative, 2 ^ 52 + (unpackMantissa b).toNat, (unpackExponent b).toNat - 1075⟩ := by
  have hexponent := toNat_unpackExponent b
  have hiff := unpackExponent_eq_zero_iff b
  unfold ofFloat minPower
  rw [ofBitVec_unpackSign, toNat_unpackMantissa, hexponent, ← UInt64.toNat_toBitVec, hb]
  simp only [hiff, Nat.pow_eq]
  split
  · rfl
  · next hne =>
      congr 1
      omega

/-- The parts read off the bits of a finite float make up the number that it is. -/
theorem Binary.value_ofFloat {x : Float} (hx : x.isFinite = true) :
    (Binary.ofFloat x).value = exactValue x := by
  have hfinite : (UnpackedFloat.unpack Format.binary64 x.toBits.toBitVec).isFinite = true := hx
  show _ = unpackedValue (UnpackedFloat.unpack Format.binary64 x.toBits.toBitVec)
  obtain ⟨b, hb⟩ : ∃ b : BitVec Format.binary64.numBits, x.toBits.toBitVec = b := ⟨_, rfl⟩
  rw [hb] at hfinite ⊢
  rw [Binary.ofFloat_eq hb, UnpackedFloat.unpack]
  rw [UnpackedFloat.unpack] at hfinite
  dsimp only at hfinite ⊢
  by_cases hspecial : unpackExponent b = -1#11
  · rw [if_pos hspecial] at hfinite
    split at hfinite <;> cases hfinite
  rw [if_neg hspecial]
  by_cases hexponent : unpackExponent b = 0#11
  · rw [if_pos hexponent, if_pos hexponent]
    split
    · next hmantissa =>
        have hsignificand : (unpackMantissa b).toNat = 0 := by
          rw [hmantissa]
          rfl
        rw [value, hsignificand, Nat.cast_zero, zero_mul, signed_zero]
        rfl
    · have hpower : ((unpackExponent b).toNat : ℤ) -
          (Format.binary64.exponentBias + Format.binary64.mantissaBitsWithoutImplicit) + 1 =
            -1074 := by
        rw [hexponent]
        rfl
      rw [unpackedValue, hpower]
      rfl
  · have hsignificand : (1#1 ++ unpackMantissa b).toNat = 2 ^ 52 + (unpackMantissa b).toNat := by
      rw [BitVec.toNat_append, ← Nat.shiftLeft_add_eq_or_of_lt (BitVec.isLt _)]
      rfl
    rw [if_neg hexponent, if_neg hexponent, unpackedValue, hsignificand]
    rfl

/-! ## The nearest number with so many places -/

/-- No whole number is nearer to a quotient, and one that is as near is odd. -/
theorem roundHalfEven_between (num : Nat) {den : Nat} (hden : 0 < den) :
    let n := roundHalfEven num den
    2 * num ≤ 2 * (den * n) + den ∧ 2 * (den * n) ≤ 2 * num + den ∧
      (2 * num = 2 * (den * n) + den ∨ 2 * (den * n) = 2 * num + den → n % 2 = 0) := by
  have hdiv : den * (num / den) + num % den = num := Nat.div_add_mod num den
  have hmod : num % den < den := Nat.mod_lt num hden
  have hsucc : den * (num / den + 1) = den * (num / den) + den := Nat.mul_succ _ _
  unfold roundHalfEven
  dsimp only
  split
  · omega
  · split
    · omega
    · split <;> omega

theorem abs_roundHalfEven_sub (num : Nat) {den : Nat} (hden : 0 < den) :
    |(roundHalfEven num den : ℚ) - num / den| ≤ 1 / 2 ∧
      (|(roundHalfEven num den : ℚ) - num / den| = 1 / 2 → roundHalfEven num den % 2 = 0) := by
  obtain ⟨hbelow, habove, heven⟩ := roundHalfEven_between num hden
  generalize roundHalfEven num den = n at *
  have hpos : (0 : ℚ) < den := Nat.cast_pos.mpr hden
  have hsub : (n : ℚ) - num / den = (2 * (den * n) - 2 * num) / (2 * den) := by
    field_simp
  have hbelow' : (2 * num : ℚ) ≤ 2 * (den * n) + den := by exact_mod_cast hbelow
  have habove' : (2 * (den * n) : ℚ) ≤ 2 * num + den := by exact_mod_cast habove
  have habs : |(n : ℚ) - num / den| = |2 * (den * n) - 2 * (num : ℚ)| / (2 * den) := by
    rw [hsub, abs_div, abs_of_pos (by positivity : (0 : ℚ) < 2 * den)]
  rw [habs, div_le_iff₀ (by positivity), div_eq_iff (by positivity)]
  constructor
  · rw [abs_le]
    constructor <;> linarith
  · intro hhalf
    apply heven
    rcases abs_choice (2 * (den * n) - 2 * (num : ℚ)) with h | h
    · right
      have : (2 * (den * n) : ℚ) = 2 * num + den := by linarith
      exact_mod_cast this
    · left
      have : (2 * num : ℚ) = 2 * (den * n) + den := by linarith
      exact_mod_cast this

theorem Binary.quotient_eq (b : Binary) :
    0 < b.quotient.2 ∧ (b.quotient.1 / b.quotient.2 : ℚ) = b.significand * 2 ^ b.power := by
  refine ⟨Nat.pow_pos (by decide), ?_⟩
  have hpower : (2 : ℚ) ^ b.power = 2 ^ b.power.toNat / 2 ^ (-b.power).toNat := by
    rw [← zpow_natCast, ← zpow_natCast, ← zpow_sub₀ two_ne_zero, Int.toNat_sub_toNat_neg]
  rw [hpower, mul_div_assoc', quotient, Nat.pow_eq, Nat.pow_eq]
  push_cast
  rfl

/-- Rounding goes to the nearest number with so many places, and to the one with an even last digit
if there are two. -/
theorem Fixed.ofBinary_nearest (b : Binary) (places : Nat) :
    |(ofBinary b places).value - b.value| ≤ 1 / 2 / 10 ^ places ∧
      (|(ofBinary b places).value - b.value| = 1 / 2 / 10 ^ places →
        (ofBinary b places).units % 2 = 0) := by
  obtain ⟨hden, hquotient⟩ := b.quotient_eq
  obtain ⟨hnear, heven⟩ := abs_roundHalfEven_sub (b.quotient.1 * Nat.pow 10 places) hden
  have hscaled : ((b.quotient.1 * Nat.pow 10 places : ℕ) : ℚ) / b.quotient.2 =
      b.significand * 2 ^ b.power * 10 ^ places := by
    rw [← hquotient, Nat.pow_eq]
    push_cast
    ring
  rw [hscaled] at hnear heven
  -- The error is that of the units, one of which counts `1 / 10 ^ places`.
  have hpos : (0 : ℚ) < 10 ^ places := by positivity
  have herror : |(ofBinary b places).value - b.value| =
      |((ofBinary b places).units : ℚ) - b.significand * 2 ^ b.power * 10 ^ places| /
        10 ^ places := by
    have hsub : ((ofBinary b places).units : ℚ) / 10 ^ places - b.significand * 2 ^ b.power =
        ((ofBinary b places).units - b.significand * 2 ^ b.power * 10 ^ places) / 10 ^ places := by
      field_simp
    show |signed b.negative (_ / 10 ^ places) - signed b.negative _| = _
    rw [signed_sub, abs_signed, hsub, abs_div, abs_of_pos hpos]
  rw [herror, div_le_div_iff_of_pos_right hpos, div_left_inj' hpos.ne']
  exact ⟨hnear, heven⟩

end Phrasebook.Decimal
