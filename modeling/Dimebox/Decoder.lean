import Dimebox.Instruction

/-! Facts about the decoders: fields as numbers, the keys of the switches of `NewInstruction16`, the
    sizes of what is returned and the two low bits that keep the two decoders apart. -/

namespace Dimebox

/-! ### Fields -/

theorem field_toNat (w : U32) (lo len : Nat) (hlen : len ≤ 32) :
    (field w lo (2 ^ len - 1)).toNat = (w.extractLsb' lo len).toNat := by
  have hmask : (BitVec.ofNat 32 (2 ^ len - 1)).toNat = 2 ^ len - 1 := by
    rw [BitVec.toNat_ofNat, Nat.mod_eq_of_lt]
    have := Nat.pow_le_pow_right (n := 2) (by omega) hlen
    have := Nat.two_pow_pos len
    omega
  rw [field, BitVec.toNat_and, BitVec.toNat_ushiftRight, hmask, Nat.and_two_pow_sub_one_eq_mod,
    BitVec.extractLsb'_toNat]

theorem field_div (w : U32) (lo len : Nat) (hlen : len ≤ 32) :
    (field w lo (2 ^ len - 1)).toNat = w.toNat / 2 ^ lo % 2 ^ len := by
  rw [field_toNat w lo len hlen, BitVec.extractLsb'_toNat, Nat.shiftRight_eq_div_pow]

theorem opcode_toNat (e : U32) : (field e 0 0x7f).toNat = e.toNat % 128 := by
  have h := field_div e 0 7 (by decide)
  rwa [Nat.pow_zero, Nat.div_one] at h

theorem rd_toNat (e : U32) : (field e 7 0x1f).toNat = e.toNat / 2 ^ 7 % 2 ^ 5 :=
  field_div e 7 5 (by decide)

theorem funct3_toNat (e : U32) : (field e 12 0x7).toNat = e.toNat / 2 ^ 12 % 2 ^ 3 :=
  field_div e 12 3 (by decide)

theorem rs1_toNat (e : U32) : (field e 15 0x1f).toNat = e.toNat / 2 ^ 15 % 2 ^ 5 :=
  field_div e 15 5 (by decide)

theorem low2_toNat (e : U32) : (e &&& 0x3).toNat = e.toNat % 4 := by
  rw [BitVec.toNat_and]
  exact Nat.and_two_pow_sub_one_eq_mod e.toNat 2

/-- Two fields side by side. -/
theorem toNat_shiftLeft_or {a b : U32} {k : Nat} (hb : b.toNat < 2 ^ k)
    (ha : a.toNat * 2 ^ k < 2 ^ 32) : ((a <<< k) ||| b).toNat = a.toNat * 2 ^ k + b.toNat := by
  rw [BitVec.toNat_or, BitVec.toNat_shiftLeft, Nat.mod_eq_of_lt (by rwa [Nat.shiftLeft_eq]),
    ← Nat.shiftLeft_add_eq_or_of_lt hb, Nat.shiftLeft_eq]

/-- The key of the outer switch of `NewInstruction16`. -/
theorem rvcKey_toNat (e : U32) : ((field e 13 0x7 <<< 4) ||| (e &&& 0x3)).toNat
    = e.toNat / 2 ^ 13 % 8 * 16 + e.toNat % 4 := by
  have h13 : (field e 13 0x7).toNat = e.toNat / 2 ^ 13 % 8 := field_div e 13 3 (by decide)
  have h0 := low2_toNat e
  have h := toNat_shiftLeft_or (k := 4) (a := field e 13 0x7) (b := e &&& 0x3) (by omega)
    (by omega)
  rwa [h13, h0] at h

/-- The key of its inner switch. -/
theorem rvcAluKey_toNat (e : U32) : ((field e 10 0x7 <<< 4) ||| field e 5 0x3).toNat
    = e.toNat / 2 ^ 10 % 8 * 16 + e.toNat / 2 ^ 5 % 4 := by
  have h10 : (field e 10 0x7).toNat = e.toNat / 2 ^ 10 % 8 := field_div e 10 3 (by decide)
  have h5 : (field e 5 0x3).toNat = e.toNat / 2 ^ 5 % 4 := field_div e 5 2 (by decide)
  have h := toNat_shiftLeft_or (k := 4) (a := field e 10 0x7) (b := field e 5 0x3) (by omega)
    (by omega)
  rwa [h10, h5] at h

/-! ### Instruction sizes -/

theorem instrSize_newSystem (w : U32) : (newSystem w).instrSize = 4 := by
  unfold newSystem
  repeat' split
  all_goals rfl

/-- `NewInstruction` returns 32-bit instructions. -/
theorem instrSize_newInstruction (w : U32) : (newInstruction w).instrSize = 4 := by
  unfold newInstruction
  dsimp only
  split
  case h_10 => exact instrSize_newSystem w
  all_goals (repeat' split)
  all_goals rfl

/-- Without the C extension nothing is a compressed instruction. -/
theorem newInstruction16_of_disabled {s : RiscvState} (h : s.compressedExtensionEnabled = false)
    (w : U32) : newInstruction16 s w = .unknownInstruction := by
  simp [newInstruction16, h]

/-- What `NewInstruction16` returns has two bytes. -/
theorem instrSize_newInstruction16 (s : RiscvState) (w : U32) :
    newInstruction16 s w = .unknownInstruction ∨ (newInstruction16 s w).instrSize = 2 := by
  unfold newInstruction16
  dsimp only
  repeat' split
  all_goals first | exact .inl rfl | exact .inr rfl

/-! ### The two low bits -/

/-- A word of `NewInstruction` ends in 11. -/
theorem newInstruction_of_low {w : U32} (h : w.toNat % 4 ≠ 3) :
    newInstruction w = .unknownInstruction := by
  unfold newInstruction
  dsimp only
  rw [opcode_toNat]
  split
  all_goals first | rfl | omega

/-- A halfword of `NewInstruction16` does not. -/
theorem newInstruction16_of_low (s : RiscvState) {w : U32} (h : w.toNat % 4 = 3) :
    newInstruction16 s w = .unknownInstruction := by
  have hne : ∀ v : U32, v.toNat % 4 ≠ 3 → w ≠ v := by
    rintro v hv rfl
    exact hv h
  unfold newInstruction16
  dsimp only
  rw [rvcKey_toNat, if_neg (hne 0 (by decide)), if_neg (hne 1 (by decide))]
  split
  · rfl
  · split
    all_goals first | rfl | omega

end Dimebox
