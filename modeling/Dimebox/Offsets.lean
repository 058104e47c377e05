import Dimebox.CompressedRuns

/-! The operands of the compressed formats, bit by bit.

    The formats take the bits of an offset in the order they stand in the halfword; the manual
    scrambles them. The two agree on the halfwords that the rearrangement does not change. -/

namespace Dimebox

open Rvc

/-! ### Bits -/

section Bits

variable (h : BitVec 16)

theorem bits_add (lo a b : Nat) : bits h lo (a + b) = bits h lo a + 2 ^ a * bits h (lo + a) b := by
  rw [bits_eq, bits_eq, bits_eq, Nat.pow_add 2 lo, ← Nat.div_div_eq_div_mul, Nat.pow_add 2 a,
    Nat.mod_mul]

theorem bits_two (lo : Nat) : bits h lo 2 = bits h lo 1 + 2 * bits h (lo + 1) 1 := bits_add h lo 1 1

theorem bits_three (lo : Nat) :
    bits h lo 3 = bits h lo 1 + 2 * bits h (lo + 1) 1 + 4 * bits h (lo + 2) 1 := by
  rw [bits_add h lo 1 2, bits_two, Nat.add_assoc lo 1 1]
  omega

theorem bits_five (lo : Nat) : bits h lo 5 = bits h lo 1 + 2 * bits h (lo + 1) 1
    + 4 * bits h (lo + 2) 1 + 8 * bits h (lo + 3) 1 + 16 * bits h (lo + 4) 1 := by
  rw [bits_add h lo 2 3, bits_two, bits_three]
  simp only [Nat.add_assoc lo, Nat.reduceAdd]
  omega

theorem bit_lt (lo : Nat) : bits h lo 1 < 2 := bits_lt h lo 1

theorem toNat_imm6 : (imm6 h).toNat = bits h 12 1 * 2 ^ 5 + bits h 2 5 := by
  rw [imm6, toNat_append_add]
  rfl

theorem imm6_eq_zero : imm6 h = 0 ↔ bits h 12 1 = 0 ∧ bits h 2 5 = 0 := by
  rw [← BitVec.toNat_inj, toNat_imm6]
  have h0 : (0 : BitVec 6).toNat = 0 := rfl
  omega

theorem toNat_reg2 (lo : Nat) : (reg2 h lo).toNat = 8 + bits h lo 2 := by
  rw [reg2, toNat_append_add]
  rfl

theorem toNat_reg3 (lo : Nat) : (reg3 h lo).toNat = 8 + bits h lo 3 := by
  rw [reg3, toNat_append_add]
  rfl

theorem reg2_eq_reg3 (lo : Nat) : reg2 h lo = reg3 h lo ↔ bits h (lo + 2) 1 = 0 := by
  rw [← BitVec.toNat_inj, toNat_reg2, toNat_reg3, bits_two, bits_three]
  omega

theorem toNat_extract (lo len : Nat) : (h.extractLsb' lo len).toNat = bits h lo len := rfl

/-- The lowest bits of two equal numbers. -/
theorem peel {a b : Nat} {x y : Int} (ha : a < 2) (hb : b < 2) (hab : a + 2 * x = b + 2 * y) :
    a = b ∧ x = y := by
  omega

/-- A sign bit against the same one a place higher. -/
theorem peel_sign {a b : Nat} (hab : -(a : Int) = b + 2 * -(a : Int)) : a = b := by
  omega

/-- A number by its sign and the other bits. -/
theorem toInt_of_sign {n b t : Nat} {x : BitVec (n + 1)} (hx : x.toNat = b * 2 ^ n + t)
    (hb : b < 2) (ht : t < 2 ^ n) : x.toInt = t - b * 2 ^ n := by
  have hpow : 2 ^ (n + 1) = 2 * 2 ^ n := by rw [Nat.pow_succ, Nat.mul_comm]
  rw [BitVec.toInt_eq_toNat_cond, hx, hpow]
  obtain rfl | rfl : b = 0 ∨ b = 1 := by omega
  · rw [if_pos (by omega)]
    simp
  · rw [if_neg (by omega)]
    push_cast
    omega

/-- The offsets of C.LW and C.SW. -/
theorem clImm_eq_lwImm : (clImm h).toNat * 4 = (lwImm h).toNat ↔
    bits h 5 1 = bits h 6 1 ∧ bits h 6 1 = bits h 10 1 ∧ bits h 10 1 = bits h 11 1 ∧
      bits h 11 1 = bits h 12 1 := by
  have := bit_lt h 5
  have := bit_lt h 6
  have := bit_lt h 10
  have := bit_lt h 11
  have := bit_lt h 12
  simp only [clImm, lwImm, toNat_append_add, toNat_extract, BitVec.toNat_ofNat]
  simp only [bits_three, bits_two, Nat.reduceAdd]
  refine ⟨fun heq => ?_, fun heq => by omega⟩
  -- one bit at a time, from the lowest
  have h56 : bits h 5 1 = bits h 6 1 := by omega
  have h610 : bits h 6 1 = bits h 10 1 := by omega
  have h1011 : bits h 10 1 = bits h 11 1 := by omega
  exact ⟨h56, h610, h1011, by omega⟩

theorem toInt_cjImm : (h.extractLsb' 2 11).toInt = bits h 2 1 + 2 * (bits h 3 1 + 2 * (bits h 4 1 +
    2 * (bits h 5 1 + 2 * (bits h 6 1 + 2 * (bits h 7 1 + 2 * (bits h 8 1 + 2 * (bits h 9 1 +
      2 * (bits h 10 1 + 2 * (bits h 11 1 + 2 * -(bits h 12 1 : Int)))))))))) := by
  have hsplit : bits h 2 11 = bits h 12 1 * 2 ^ 10 + (bits h 2 5 + 2 ^ 5 * bits h 7 5) := by
    rw [bits_add h 2 10 1, bits_add h 2 5 5]
    simp only [Nat.reduceAdd]
    omega
  have h2 := bits_lt h 2 5
  have h7 := bits_lt h 7 5
  rw [toInt_of_sign (x := h.extractLsb' 2 11) hsplit (bit_lt h 12) (by omega)]
  simp only [bits_five, Nat.reduceAdd]
  omega

theorem toInt_jOffset : (jOffset h).toInt = (0 : Nat) + 2 * (bits h 3 1 + 2 * (bits h 4 1 +
    2 * (bits h 5 1 + 2 * (bits h 11 1 + 2 * (bits h 2 1 + 2 * (bits h 7 1 + 2 * (bits h 6 1 +
      2 * (bits h 9 1 + 2 * (bits h 10 1 + 2 * (bits h 8 1 + 2 * -(bits h 12 1 : Int))))))))))) := by
  have hsplit : (jOffset h).toNat = bits h 12 1 * 2 ^ 11 + (2 * bits h 3 3 + 2 ^ 4 * bits h 11 1
      + 2 ^ 5 * bits h 2 1 + 2 ^ 6 * bits h 7 1 + 2 ^ 7 * bits h 6 1 + 2 ^ 8 * bits h 9 2
      + 2 ^ 10 * bits h 8 1) := by
    simp only [jOffset, toNat_append_add, toNat_extract, BitVec.toNat_ofNat]
    omega
  have := bit_lt h 2
  have := bits_lt h 3 3
  have := bit_lt h 6
  have := bit_lt h 7
  have := bit_lt h 8
  have := bits_lt h 9 2
  have := bit_lt h 11
  rw [toInt_of_sign hsplit (bit_lt h 12) (by omega)]
  simp only [bits_three, bits_two, Nat.reduceAdd]
  omega

/-- The offsets of C.J and C.JAL. -/
theorem cjImm_eq_jOffset : (h.extractLsb' 2 11).toInt = (jOffset h).toInt ↔
    bits h 2 1 = 0 ∧ bits h 7 1 = 0 ∧ bits h 8 1 = 0 ∧ bits h 12 1 = 0 ∧
      bits h 6 1 = bits h 9 1 ∧ bits h 9 1 = bits h 10 1 ∧ bits h 10 1 = bits h 11 1 := by
  rw [toInt_cjImm, toInt_jOffset]
  constructor
  · intro heq
    -- one bit at a time, from the lowest
    obtain ⟨h2, heq⟩ := peel (bit_lt h 2) (by decide) heq
    obtain ⟨-, heq⟩ := peel (bit_lt h 3) (bit_lt h 3) heq
    obtain ⟨-, heq⟩ := peel (bit_lt h 4) (bit_lt h 4) heq
    obtain ⟨-, heq⟩ := peel (bit_lt h 5) (bit_lt h 5) heq
    obtain ⟨h6, heq⟩ := peel (bit_lt h 6) (bit_lt h 11) heq
    obtain ⟨h7, heq⟩ := peel (bit_lt h 7) (bit_lt h 2) heq
    obtain ⟨h8, heq⟩ := peel (bit_lt h 8) (bit_lt h 7) heq
    obtain ⟨h9, heq⟩ := peel (bit_lt h 9) (bit_lt h 6) heq
    obtain ⟨h10, heq⟩ := peel (bit_lt h 10) (bit_lt h 9) heq
    obtain ⟨h11, heq⟩ := peel (bit_lt h 11) (bit_lt h 10) heq
    have h12 := peel_sign heq
    rw [h2] at h7
    rw [h7] at h8
    rw [h8] at h12
    exact ⟨h2, h7, h8, h12, h9.symm, h10.symm, h11.symm⟩
  · rintro ⟨h2, h7, h8, h12, h6, h9, h10⟩
    rw [h2, h7, h8, h12, h6, h9, h10]
    omega

theorem toInt_cbImm : (cbImm h).toInt = bits h 2 1 + 2 * (bits h 3 1 + 2 * (bits h 4 1 +
    2 * (bits h 5 1 + 2 * (bits h 6 1 + 2 * (bits h 10 1 + 2 * (bits h 11 1 +
      2 * -(bits h 12 1 : Int))))))) := by
  have hsplit : (cbImm h).toNat = bits h 12 1 * 2 ^ 7 + (bits h 2 5 + 2 ^ 5 * bits h 10 2) := by
    simp only [cbImm, toNat_append_add, toNat_extract]
    simp only [bits_three, bits_two, Nat.reduceAdd]
    omega
  have := bits_lt h 2 5
  have := bits_lt h 10 2
  rw [toInt_of_sign hsplit (bit_lt h 12) (by omega)]
  simp only [bits_five, bits_two, Nat.reduceAdd]
  omega

theorem toInt_bOffset : (bOffset h).toInt = (0 : Nat) + 2 * (bits h 3 1 + 2 * (bits h 4 1 +
    2 * (bits h 10 1 + 2 * (bits h 11 1 + 2 * (bits h 2 1 + 2 * (bits h 5 1 + 2 * (bits h 6 1 +
      2 * -(bits h 12 1 : Int)))))))) := by
  have hsplit : (bOffset h).toNat = bits h 12 1 * 2 ^ 8 + (2 * bits h 3 2 + 2 ^ 3 * bits h 10 2
      + 2 ^ 5 * bits h 2 1 + 2 ^ 6 * bits h 5 2) := by
    simp only [bOffset, toNat_append_add, toNat_extract, BitVec.toNat_ofNat]
    omega
  have := bits_lt h 3 2
  have := bits_lt h 10 2
  have := bit_lt h 2
  have := bits_lt h 5 2
  rw [toInt_of_sign hsplit (bit_lt h 12) (by omega)]
  simp only [bits_two, Nat.reduceAdd]
  omega

/-- The offsets of C.BEQZ. -/
theorem cbImm_eq_bOffset : (cbImm h).toInt = (bOffset h).toInt ↔
    bits h 2 1 = 0 ∧ bits h 5 1 = 0 ∧ bits h 6 1 = 0 ∧ bits h 10 1 = 0 ∧ bits h 11 1 = 0 ∧
      bits h 12 1 = 0 := by
  rw [toInt_cbImm, toInt_bOffset]
  constructor
  · intro heq
    obtain ⟨h2, heq⟩ := peel (bit_lt h 2) (by decide) heq
    obtain ⟨-, heq⟩ := peel (bit_lt h 3) (bit_lt h 3) heq
    obtain ⟨-, heq⟩ := peel (bit_lt h 4) (bit_lt h 4) heq
    obtain ⟨h5, heq⟩ := peel (bit_lt h 5) (bit_lt h 10) heq
    obtain ⟨h6, heq⟩ := peel (bit_lt h 6) (bit_lt h 11) heq
    obtain ⟨h10, heq⟩ := peel (bit_lt h 10) (bit_lt h 2) heq
    obtain ⟨h11, heq⟩ := peel (bit_lt h 11) (bit_lt h 5) heq
    have h12 := peel_sign heq
    rw [h2] at h10
    rw [h10] at h5
    rw [h5] at h11
    rw [h11] at h6
    rw [h6] at h12
    exact ⟨h2, h5, h6, h10, h11, h12⟩
  · rintro ⟨h2, h5, h6, h10, h11, h12⟩
    rw [h2, h5, h6, h10, h11, h12]
    omega

theorem reg2_ne_zero (lo : Nat) : reg2 h lo ≠ 0 := by
  intro h0
  have := congrArg BitVec.toNat h0
  rw [toNat_reg2] at this
  have hz : (0 : BitVec 5).toNat = 0 := rfl
  omega

theorem reg3_ne_zero (lo : Nat) : reg3 h lo ≠ 0 := by
  intro h0
  have := congrArg BitVec.toNat h0
  rw [toNat_reg3] at this
  have hz : (0 : BitVec 5).toNat = 0 := rfl
  omega

theorem reg5_eq_zero : (reg5 h).setWidth 32 = (0 : U32) ↔ bits h 7 5 = 0 := by
  rw [setWidth_eq_zero (by decide), ← BitVec.toNat_inj]
  rfl

theorem imm6_refused :
    (imm6 h).setWidth 32 = (0 : U32) ↔ bits h 12 1 = 0 ∧ bits h 2 5 = 0 := by
  rw [setWidth_eq_zero (by decide), imm6_eq_zero]

theorem lwImm_signExtend :
    (((lwImm h).setWidth 12).signExtend 64).toNat = (lwImm h).toNat := by
  have hlw := (lwImm h).isLt
  have h12 : ((lwImm h).setWidth 12).toNat = (lwImm h).toNat := by
    rw [BitVec.toNat_setWidth]
    omega
  have hmsb : ((lwImm h).setWidth 12).msb = false := by
    rw [BitVec.msb_eq_false_iff_two_mul_lt, h12]
    omega
  rw [BitVec.signExtend_eq_setWidth_of_msb_false hmsb, BitVec.toNat_setWidth, h12]
  omega

/-- The condition of C.LW and C.SW, by registers and offsets. -/
theorem access_iff : (bits h 9 1 = 0 ∧ bits h 4 1 = 0 ∧ bits h 5 1 = bits h 6 1 ∧
    bits h 6 1 = bits h 10 1 ∧ bits h 10 1 = bits h 11 1 ∧ bits h 11 1 = bits h 12 1) ↔
      reg2 h 7 = reg3 h 7 ∧ reg2 h 2 = reg3 h 2 ∧ (clImm h).toNat * 4 = (lwImm h).toNat := by
  rw [reg2_eq_reg3, reg2_eq_reg3, clImm_eq_lwImm]

theorem cbImm_eq_two (hoff : (cbImm h).toInt = (bOffset h).toInt) :
    (cbImm h).toInt = (2 : BitVec 4).toInt ↔ bits h 4 1 = 0 ∧ bits h 3 1 = 1 := by
  obtain ⟨h2, h5, h6, h10, h11, h12⟩ := (cbImm_eq_bOffset h).mp hoff
  have h3 := bit_lt h 3
  have h4 := bit_lt h 4
  have hlit : (2 : BitVec 4).toInt = 2 := rfl
  rw [toInt_cbImm, h2, h5, h6, h10, h11, h12, hlit]
  omega

end Bits

end Dimebox
