import Dimebox.Compressed

/-! What a halfword and what its expansion leaves.

    One equation a class: the object of a halfword (`half_*`) or of a 32-bit instruction (`word_*`)
    on the left, its result by the operands of the encoding on the right. -/

namespace Dimebox

open Rvc

namespace Rvc

/-- The register `rvc2reg` gets from the lower two of the three bits. -/
def reg2 (h : BitVec 16) (lo : Nat) : BitVec 5 := 0b010#3 ++ h.extractLsb' lo 2

/-- The immediate of the CB format. -/
def cbImm (h : BitVec 16) : BitVec 8 := h.extractLsb' 10 3 ++ h.extractLsb' 2 5

/-- The immediate of the CL and CS formats. -/
def clImm (h : BitVec 16) : BitVec 5 := h.extractLsb' 10 3 ++ h.extractLsb' 5 2

end Rvc

section Operands

variable (h : BitVec 16)

theorem field_halfword (lo len : Nat) (hlen : len ≤ 32) :
    (field (h.setWidth 32) lo (2 ^ len - 1)).toNat = bits h lo len := by
  rw [field_div _ _ _ hlen, halfword_toNat, bits_eq]

/-- A masked field of a halfword. -/
theorem masked_halfword {mask : U32} {lo len : Nat} (hlen : len ≤ 32)
    (hmask : mask >>> lo = BitVec.ofNat 32 (2 ^ len - 1)) :
    ((h.setWidth 32 &&& mask) >>> lo).toNat = bits h lo len := by
  rw [BitVec.ushiftRight_and_distrib, hmask]
  exact field_halfword h lo len hlen

/-- Two fields side by side. -/
theorem joined_halfword {a b : U32} {lo len lo' k : Nat} (ha : a.toNat = bits h lo len)
    (hb : b.toNat = bits h lo' k) (hlen : len + k ≤ 16) :
    (a <<< k) ||| b = (h.extractLsb' lo len ++ h.extractLsb' lo' k).setWidth 32 := by
  have hlt : bits h lo len < 2 ^ len := bits_lt h lo len
  have hlt' : bits h lo' k < 2 ^ k := bits_lt h lo' k
  have hpow : bits h lo len * 2 ^ k < 2 ^ 32 :=
    calc bits h lo len * 2 ^ k < 2 ^ len * 2 ^ k := Nat.mul_lt_mul_of_pos_right hlt (by positivity)
      _ = 2 ^ (len + k) := (Nat.pow_add 2 len k).symm
      _ ≤ 2 ^ 32 := Nat.pow_le_pow_right (by decide) (by omega)
  apply BitVec.eq_of_toNat_eq
  rw [toNat_shiftLeft_or (by omega) (by rw [ha]; exact hpow), BitVec.toNat_setWidth, Nat.mod_eq_of_lt,
    toNat_append_add, ha, hb]
  · rfl
  · exact Nat.lt_of_lt_of_le (BitVec.isLt _) (Nat.pow_le_pow_right (by decide) (by omega))

theorem ciImm_eq : (((h.setWidth 32 &&& 0x1000) >>> 12) <<< 5)
    ||| ((h.setWidth 32 &&& 0x7c) >>> 2) = (imm6 h).setWidth 32 :=
  joined_halfword h (masked_halfword h (by decide) (by decide))
    (masked_halfword h (by decide) (by decide)) (by decide)

theorem clImm_eq : (field (h.setWidth 32) 10 0x7 <<< 2) ||| field (h.setWidth 32) 5 3
    = (clImm h).setWidth 32 :=
  joined_halfword h (field_halfword h 10 3 (by decide)) (field_halfword h 5 2 (by decide)) (by decide)

theorem cbImm_eq : (((h.setWidth 32 &&& 0x1c00) >>> 10) <<< 5)
    ||| ((h.setWidth 32 &&& 0x7c) >>> 2) = (cbImm h).setWidth 32 :=
  joined_halfword h (masked_halfword h (by decide) (by decide))
    (masked_halfword h (by decide) (by decide)) (by decide)

/-- One field. -/
theorem single_halfword {a : U32} {lo len : Nat} (ha : a.toNat = bits h lo len) (hlen : len ≤ 16) :
    a = (h.extractLsb' lo len).setWidth 32 := by
  have hlt : bits h lo len < 2 ^ len := bits_lt h lo len
  have hpow : 2 ^ len ≤ 2 ^ 32 := Nat.pow_le_pow_right (by decide) (by omega)
  apply BitVec.eq_of_toNat_eq
  rw [BitVec.toNat_setWidth, ha]
  exact (Nat.mod_eq_of_lt (by omega)).symm

theorem rd_eq : field (h.setWidth 32) 7 0x1f = (reg5 h).setWidth 32 :=
  single_halfword h (field_halfword h 7 5 (by decide)) (by decide)

theorem cjImm_eq : (h.setWidth 32 &&& 0x1ffc) >>> 2 = (h.extractLsb' 2 11).setWidth 32 :=
  single_halfword h (masked_halfword h (by decide) (by decide)) (by decide)

theorem ciwImm_eq : (h.setWidth 32 &&& 0x1fe0) >>> 5 = (h.extractLsb' 5 8).setWidth 32 :=
  single_halfword h (masked_halfword h (by decide) (by decide)) (by decide)

theorem rvc2reg_eq (lo : Nat) :
    RiscvInstruction.rvc2reg (field (h.setWidth 32) lo 0x3) = (reg2 h lo).setWidth 32 := by
  have hlo : (field (h.setWidth 32) lo 0x3).toNat = bits h lo 2 :=
    field_halfword h lo 2 (by decide)
  have hlt : bits h lo 2 < 4 := bits_lt h lo 2
  have h8 : (8 : U32).toNat = 8 := rfl
  have h2 : (reg2 h lo).toNat = 8 + bits h lo 2 := by
    rw [reg2, toNat_append_add]
    rfl
  apply BitVec.eq_of_toNat_eq
  rw [RiscvInstruction.rvc2reg, BitVec.toNat_add, hlo, h8, BitVec.toNat_setWidth, h2]
  omega

end Operands

/-! ### Sign extension -/

/-- `SignExtend` of a field of `w` bits. -/
theorem signExtend_of_toNat {imm : U32} {w : Nat} (hw : 0 < w) (hw' : w ≤ 32) {v : BitVec w}
    (h : imm.toNat = v.toNat) : signExtend (imm.setWidth 64) w = v.signExtend 64 := by
  have hlt := v.isLt
  have himm : (imm.setWidth 64 : U64).toNat = v.toNat := by
    rw [BitVec.toNat_setWidth, h]
    exact Nat.mod_eq_of_lt (by have := imm.isLt; omega)
  have hext : (imm.setWidth 64 : U64).setWidth w = v := by
    apply BitVec.eq_of_toNat_eq
    rw [BitVec.toNat_setWidth, himm, Nat.mod_eq_of_lt hlt]
  rw [signExtend_eq hw (by omega) (by rw [himm]; exact hlt), hext]

theorem signExtend_setWidth {w : Nat} (hw : 0 < w) (hw' : w ≤ 32) (v : BitVec w) :
    signExtend ((v.setWidth 32 : U32).setWidth 64) w = v.signExtend 64 :=
  signExtend_of_toNat hw hw' (by
    rw [BitVec.toNat_setWidth]
    exact Nat.mod_eq_of_lt (Nat.lt_of_lt_of_le v.isLt (Nat.pow_le_pow_right (by decide) hw')))

theorem signExtend_signExtend {n k l : Nat} (x : BitVec n) (hk : n ≤ k) (hl : k ≤ l) :
    (x.signExtend k).signExtend l = x.signExtend l := by
  apply BitVec.eq_of_toInt_eq
  rw [BitVec.toInt_signExtend_of_le hl, BitVec.toInt_signExtend_of_le hk,
    BitVec.toInt_signExtend_of_le (by omega)]

theorem signExtend_toNat_mod {n k l : Nat} (x : BitVec n) (hl : k ≤ l) :
    (x.signExtend l).toNat % 2 ^ k = (x.signExtend k).toNat := by
  have hext : (x.signExtend l).setWidth k = x.signExtend k := by
    apply BitVec.eq_of_getLsbD_eq
    intro j hj
    have hj' : j < l := Nat.lt_of_lt_of_le hj hl
    simp only [BitVec.getLsbD_setWidth, BitVec.getLsbD_signExtend, hj, hj', decide_true,
      Bool.true_and]
  rw [← hext, BitVec.toNat_setWidth]

theorem signExtend_even {n k : Nat} {x : BitVec n} (hn : 1 ≤ n) (hk : n ≤ k)
    (h : x.toNat % 2 = 0) : (x.signExtend k).toNat % 2 = 0 := by
  have hmod : (x.signExtend k).toNat % 2 ^ n = x.toNat := by
    rw [signExtend_toNat_mod x hk, BitVec.signExtend_eq]
  have hdvd : (2 : Nat) ∣ 2 ^ n := dvd_pow_self 2 (by omega)
  rw [← Nat.mod_mod_of_dvd _ hdvd, hmod, h]

theorem signExtend_eq_of_toInt {n k : Nat} {x : BitVec n} {y : BitVec k} (hxy : x.toInt = y.toInt) :
    x.signExtend 64 = y.signExtend 64 := by
  rw [BitVec.signExtend, BitVec.signExtend, hxy]

theorem setWidth_eq_zero {w : Nat} (hw : w ≤ 32) (v : BitVec w) : v.setWidth 32 = 0 ↔ v = 0 := by
  rw [← BitVec.toNat_inj, ← BitVec.toNat_inj, BitVec.toNat_setWidth,
    Nat.mod_eq_of_lt (Nat.lt_of_lt_of_le v.isLt (Nat.pow_le_pow_right (by decide) hw))]
  simp

/-! ### Values -/

/-- The value of a register as an operand. -/
def RiscvState.operand (s : RiscvState) (r : BitVec 5) : U32 := (s.regVal (r.setWidth 32)).setWidth 32

theorem operand_zero (s : RiscvState) : s.operand 0 = 0 := rfl

/-- A sum as the bodies form it. -/
def sumValue (a : U32) (imm : U64) : U64 := ((a.setWidth 64 + imm).setWidth 32 : U32).setWidth 64

/-- What C_LUI makes of its immediate. -/
def luiValue (imm : BitVec 6) : U64 :=
  ((signExtend (((imm.setWidth 32 : U32) <<< 12).setWidth 64) 17).setWidth 32 : U32).setWidth 64

/-- The PC the bodies add to. -/
def RiscvState.pc32 (s : RiscvState) : U64 := (s.pc.setWidth 32 : U32).setWidth 64

/-! ### Halfwords -/

section Halfwords

open RiscvInstruction (new)

variable (junk : Junk) (s core : RiscvState) (m : Memory) (h : BitVec 16)

/-- The object of a halfword of class `c`. -/
def halfObject (c : Iclass) : RiscvInstruction := new junk c s m (h.setWidth 32)

theorem decode_ci {c : Iclass} (hc : c.format = .ci) : (halfObject junk s m h c).decode
    = { halfObject junk s m h c with
      imm := (imm6 h).setWidth 32, rd := (reg5 h).setWidth 32, rs1 := (reg5 h).setWidth 32 } := by
  simp only [RiscvInstruction.decode, halfObject, RiscvInstruction.new_iclass, hc,
    RiscvInstruction.new_encoding, ciImm_eq, rd_eq]

theorem immVal_ci {c : Iclass} (hc : c.format = .ci) :
    (halfObject junk s m h c).decode.immVal 6 = (imm6 h).signExtend 64 := by
  rw [decode_ci junk s m h hc]
  exact signExtend_setWidth (w := 6) (by decide) (by decide) _

theorem half_nop : runObject Step.step (halfObject junk s m h .cNop) core = wrote s core m 0 0 :=
  runObject_wrote (i := halfObject junk s m h .cNop) rfl rfl rfl

theorem half_addi : runObject Step.step (halfObject junk s m h .cAddi) core =
    if (imm6 h).setWidth 32 = (0 : U32) then refused s core m
    else wrote s core m ((reg5 h).setWidth 32)
      (sumValue (s.operand (reg5 h)) ((imm6 h).signExtend 64)) := by
  have hdec := decode_ci junk s m h (c := .cAddi) rfl
  refine runObject_guarded (i := halfObject junk s m h .cAddi) rfl rfl ?_
  rw [RiscvInstruction.decode_iclass]
  refine (Step.run_cAddi (by rw [hdec]; exact reg_lt _) (by rw [hdec]; exact reg_lt _)).trans ?_
  rw [immVal_ci junk s m h (c := .cAddi) rfl, hdec]
  rfl

theorem half_li : runObject Step.step (halfObject junk s m h .cLi) core =
    if (reg5 h).setWidth 32 = (0 : U32) then refused s core m
    else wrote s core m ((reg5 h).setWidth 32) (sumValue 0 ((imm6 h).signExtend 64)) := by
  have hdec := decode_ci junk s m h (c := .cLi) rfl
  refine runObject_guarded (i := halfObject junk s m h .cLi) rfl rfl ?_
  rw [RiscvInstruction.decode_iclass]
  refine (Step.run_cLi (by rw [hdec]; exact reg_lt _)).trans ?_
  have hsum : sumValue 0 ((imm6 h).signExtend 64)
      = (((imm6 h).signExtend 64).setWidth 32 : U32).setWidth 64 := by
    simp [sumValue]
  rw [immVal_ci junk s m h (c := .cLi) rfl, hdec, hsum]
  rfl

theorem half_lui : runObject Step.step (halfObject junk s m h .cLui) core =
    if (reg5 h).setWidth 32 = (0 : U32) ∨ (reg5 h).setWidth 32 = (2 : U32) then refused s core m
    else wrote s core m ((reg5 h).setWidth 32) (luiValue (imm6 h)) := by
  have hdec := decode_ci junk s m h (c := .cLui) rfl
  refine runObject_guarded (i := halfObject junk s m h .cLui) rfl rfl ?_
  rw [RiscvInstruction.decode_iclass]
  refine (Step.run_cLui (by rw [hdec]; exact reg_lt _)).trans ?_
  rw [hdec]
  rfl

theorem half_addi16sp : runObject Step.step (halfObject junk s m h .cAddi16sp) core =
    if (imm6 h).setWidth 32 = (0 : U32) then refused s core m
    else wrote s core m 2 (((s.operand 2).setWidth 64 + (imm6 h).signExtend 64) <<< 4) := by
  have hdec := decode_ci junk s m h (c := .cAddi16sp) rfl
  refine runObject_guarded (i := halfObject junk s m h .cAddi16sp) rfl rfl ?_
  rw [RiscvInstruction.decode_iclass]
  refine Step.run_cAddi16sp.trans ?_
  rw [immVal_ci junk s m h (c := .cAddi16sp) rfl, hdec]
  rfl

theorem half_addi4spn : runObject Step.step (halfObject junk s m h .cAddi4spn) core =
    if (h.extractLsb' 5 8).setWidth 32 = (0 : U32) then refused s core m
    else wrote s core m ((reg2 h 2).setWidth 32)
      (((s.operand 2 + (h.extractLsb' 5 8).setWidth 32) <<< 4 : U32).setWidth 64) := by
  have hdec : (halfObject junk s m h .cAddi4spn).decode = { halfObject junk s m h .cAddi4spn with
      imm := (h.extractLsb' 5 8).setWidth 32, rd := (reg2 h 2).setWidth 32 } := by
    simp only [RiscvInstruction.decode, halfObject, RiscvInstruction.new_iclass, Iclass.format,
      RiscvInstruction.new_encoding, ciwImm_eq, rvc2reg_eq]
  refine runObject_guarded (i := halfObject junk s m h .cAddi4spn) rfl rfl ?_
  rw [RiscvInstruction.decode_iclass]
  refine (Step.run_cAddi4spn (by rw [hdec]; exact reg_lt _)).trans ?_
  rw [hdec]
  rfl

/-- The bodies that read an uninitialised register number. -/
theorem half_uninitialised {c : Iclass} (hd : 32 ≤ junk.rd.toNat) (hc : Step.ReadsRd c) :
    runObject Step.step (halfObject junk s m h c) core = .error .undefined := by
  refine runObject_undefined (i := halfObject junk s m h c) (j := (halfObject junk s m h c).decode) ?_
  rw [RiscvInstruction.decode_iclass]
  refine Step.run_uninitialised ?_ hc
  rcases hc with rfl | rfl | rfl | rfl | rfl <;> exact hd

theorem half_lw (hm : m.DefaultRange) : runObject Step.step (halfObject junk s m h .cLw) core =
    loaded s core m (halfObject junk s m h .cLw).mbuf
      ((s.operand (reg2 h 7) + (clImm h).setWidth 32 * 4).setWidth 64) ((reg2 h 2).setWidth 32) := by
  have hdec : (halfObject junk s m h .cLw).decode = { halfObject junk s m h .cLw with
      imm := (clImm h).setWidth 32, rs1 := (reg2 h 7).setWidth 32, rd := (reg2 h 2).setWidth 32 } := by
    simp only [RiscvInstruction.decode, halfObject, RiscvInstruction.new_iclass, Iclass.format,
      RiscvInstruction.new_encoding, clImm_eq, rvc2reg_eq]
  have hrd : (halfObject junk s m h .cLw).decode.rd = (reg2 h 2).setWidth 32 := by rw [hdec]
  have hrun := Step.run_cLw (i := (halfObject junk s m h .cLw).decode) (by rw [hdec]; exact reg_lt _)
  rw [← hrd]
  refine runObject_loaded (i := halfObject junk s m h .cLw) hm rfl rfl (by rw [hrd]; exact reg_lt _) ?_
  rw [RiscvInstruction.decode_iclass]
  refine hrun.trans ?_
  rw [hdec]
  rfl

theorem half_sw (hm : m.DefaultRange) : runObject Step.step (halfObject junk s m h .cSw) core =
    stored s core m ((s.operand (reg2 h 7) + (clImm h).setWidth 32 * 4).setWidth 64)
      (s.operand (reg2 h 2)) := by
  have hdec : (halfObject junk s m h .cSw).decode = { halfObject junk s m h .cSw with
      imm := (clImm h).setWidth 32, rs1 := (reg2 h 7).setWidth 32, rs2 := (reg2 h 2).setWidth 32 } := by
    simp only [RiscvInstruction.decode, halfObject, RiscvInstruction.new_iclass, Iclass.format,
      RiscvInstruction.new_encoding, clImm_eq, rvc2reg_eq]
  have hrun := Step.run_cSw (i := (halfObject junk s m h .cSw).decode) (by rw [hdec]; exact reg_lt _)
    (by rw [hdec]; exact reg_lt _)
  refine runObject_stored (i := halfObject junk s m h .cSw) hm rfl rfl ?_
  rw [RiscvInstruction.decode_iclass]
  refine hrun.trans ?_
  rw [hdec]
  rfl

section Jumps

variable (hc : s.compressedExtensionEnabled)
include hc

theorem half_j : runObject Step.step (halfObject junk s m h .cJ) core =
    jumped s core m (s.pc32 + (h.extractLsb' 2 11).signExtend 64) 0 0 := by
  have himm : (halfObject junk s m h .cJ).decode.imm = (h.extractLsb' 2 11).setWidth 32 := cjImm_eq h
  refine runObject_jumped (i := halfObject junk s m h .cJ) rfl ?_
  rw [RiscvInstruction.decode_iclass]
  refine (Step.run_cJ hc).trans ?_
  rw [RiscvInstruction.immVal, himm, signExtend_setWidth (by decide) (by decide)]
  rfl

theorem half_jal (hd : junk.rd.toNat < 32) : runObject Step.step (halfObject junk s m h .cJal) core =
    jumped s core m (s.pc32 + (h.extractLsb' 2 11).signExtend 64) junk.rd
      (s.pc.setWidth 32 + 2) := by
  have himm : (halfObject junk s m h .cJal).decode.imm = (h.extractLsb' 2 11).setWidth 32 := cjImm_eq h
  refine runObject_jumped (i := halfObject junk s m h .cJal) rfl ?_
  rw [RiscvInstruction.decode_iclass]
  refine (Step.run_cJal hc hd).trans ?_
  rw [RiscvInstruction.immVal, himm, signExtend_setWidth (by decide) (by decide)]
  rfl

theorem half_beqz : runObject Step.step (halfObject junk s m h .cBeqz) core =
    jumped s core m (s.pc32 + if s.operand (reg2 h 7) = 0 then (cbImm h).signExtend 64 else 2)
      0 0 := by
  have hdec : (halfObject junk s m h .cBeqz).decode = { halfObject junk s m h .cBeqz with
      imm := (cbImm h).setWidth 32, rs1 := (reg2 h 7).setWidth 32 } := by
    simp only [RiscvInstruction.decode, halfObject, RiscvInstruction.new_iclass, Iclass.format,
      RiscvInstruction.new_encoding, cbImm_eq, rvc2reg_eq]
  have hval : (halfObject junk s m h .cBeqz).decode.immVal 8 = (cbImm h).signExtend 64 := by
    rw [hdec]
    exact signExtend_setWidth (w := 8) (by decide) (by decide) _
  refine runObject_jumped (i := halfObject junk s m h .cBeqz) rfl ?_
  rw [RiscvInstruction.decode_iclass]
  refine (Step.run_cBeqz hc (by rw [hdec]; exact reg_lt _)).trans ?_
  rw [hval, hdec]
  rfl

end Jumps

end Halfwords

/-! ### Expansions -/

section Words

open RiscvInstruction (new)

variable (junk : Junk) (s core : RiscvState) (m : Memory)

/-- The object of a 32-bit instruction of two bytes. -/
def wordObject (w : U32) : RiscvInstruction :=
  { new junk (newInstruction w) s m w with nextPc := s.pc.setWidth 32 + 2 }

theorem iclass_wordObject {w : U32} {c : Iclass} (hclass : newInstruction w = c) :
    (wordObject junk s m w).decode.iclass = c := by
  rw [RiscvInstruction.decode_iclass]
  exact hclass

variable (rs1 rs2 rd : BitVec 5)

/-- The decoded fields of an I-type instruction. -/
theorem decode_iType {c : Iclass} {funct3 : BitVec 3} {opcode : BitVec 7} {imm : BitVec 12}
    (hclass : newInstruction (iType rs1 rd funct3 opcode imm) = c) (hc : c.format = .i) :
    (wordObject junk s m (iType rs1 rd funct3 opcode imm)).decode
      = { wordObject junk s m (iType rs1 rd funct3 opcode imm) with
        imm := imm.setWidth 32, rs1 := rs1.setWidth 32, rd := rd.setWidth 32 } := by
  have himm : field (iType rs1 rd funct3 opcode imm) 20 0xfff = imm.setWidth 32 := by
    apply BitVec.eq_of_toNat_eq
    rw [imm_iType, BitVec.toNat_setWidth]
    exact (Nat.mod_eq_of_lt (by have := imm.isLt; omega)).symm
  simp only [RiscvInstruction.decode, wordObject, new, hclass, hc, himm]
  rw [iType, rs1_field, rd_field]

theorem immVal_iType {c : Iclass} {funct3 : BitVec 3} {opcode : BitVec 7} {imm : BitVec 12}
    (hclass : newInstruction (iType rs1 rd funct3 opcode imm) = c) (hc : c.format = .i) :
    (wordObject junk s m (iType rs1 rd funct3 opcode imm)).decode.immVal 12 = imm.signExtend 64 := by
  rw [decode_iType junk s m rs1 rd hclass hc]
  exact signExtend_setWidth (w := 12) (by decide) (by decide) _

/-- ADDI and ANDI. -/
theorem word_aluImm (funct3 : BitVec 3) {c : Iclass} {f : U32 → U64 → U32}
    (hb : c.fixedBits = some (.funct3 0x13 funct3.toNat)) (hc : c.format = .i)
    (hstep : Step.stepSized 2 c = Step.aluImm f) (imm : BitVec 12) :
    runObject (Step.stepSized 2) (wordObject junk s m (iType rs1 rd funct3 0x13 imm)) core
      = wrote s core m (rd.setWidth 32)
        ((f (s.operand rs1) (imm.signExtend 64)).setWidth 64) := by
  have hclass : newInstruction (iType rs1 rd funct3 0x13 imm) = c := class_rType hb
  have hdec := decode_iType junk s m rs1 rd hclass hc
  have hval := immVal_iType junk s m rs1 rd hclass hc
  refine runObject_wrote (i := wordObject junk s m (iType rs1 rd funct3 0x13 imm)) rfl rfl ?_
  rw [iclass_wordObject junk s m hclass, hstep, Step.run_aluImm (by rw [hdec]; exact reg_lt _)
    (by rw [hdec]; exact reg_lt _), hval, hdec]
  rfl

theorem word_addi (imm : BitVec 12) :
    runObject (Step.stepSized 2) (wordObject junk s m (iType rs1 rd 0 0x13 imm)) core
      = wrote s core m (rd.setWidth 32) (sumValue (s.operand rs1) (imm.signExtend 64)) :=
  word_aluImm junk s core m rs1 rd 0 (c := .addi) rfl rfl rfl imm

/-- SUB, XOR, OR and AND. -/
theorem word_alu (funct3 : BitVec 3) (funct7 : BitVec 7) {c : Iclass} {f : U32 → U32 → U32}
    (hb : c.fixedBits = some (.funct7 0x33 funct3.toNat funct7.toNat)) (hc : c.format = .r)
    (hstep : Step.stepSized 2 c = Step.alu f) :
    runObject (Step.stepSized 2) (wordObject junk s m (rType rs1 rs2 rd funct3 0x33 funct7)) core
      = wrote s core m (rd.setWidth 32) ((f (s.operand rs1) (s.operand rs2)).setWidth 64) := by
  have hclass : newInstruction (rType rs1 rs2 rd funct3 0x33 funct7) = c := class_rType7 hb
  have hdec : (wordObject junk s m (rType rs1 rs2 rd funct3 0x33 funct7)).decode
      = { wordObject junk s m (rType rs1 rs2 rd funct3 0x33 funct7) with
        rs2 := rs2.setWidth 32, rs1 := rs1.setWidth 32, rd := rd.setWidth 32 } := by
    simp only [RiscvInstruction.decode, wordObject, new, hclass, hc]
    rw [rs1_field, rs2_field, rd_field]
  refine runObject_wrote (i := wordObject junk s m (rType rs1 rs2 rd funct3 0x33 funct7)) rfl rfl ?_
  rw [iclass_wordObject junk s m hclass, hstep, Step.run_alu (by rw [hdec]; exact reg_lt _)
    (by rw [hdec]; exact reg_lt _) (by rw [hdec]; exact reg_lt _), hdec]
  rfl

theorem word_lui (imm : BitVec 20) :
    runObject (Step.stepSized 2) (wordObject junk s m (uType rd 0x37 imm)) core
      = wrote s core m (rd.setWidth 32) ((imm ++ 0#12 : U32).setWidth 64) := by
  have hclass : newInstruction (uType rd 0x37 imm) = .lui := class_rType0 rfl
  have hdec : (wordObject junk s m (uType rd 0x37 imm)).decode
      = { wordObject junk s m (uType rd 0x37 imm) with
        imm := imm ++ 0#12, rd := rd.setWidth 32 } := by
    simp only [RiscvInstruction.decode, wordObject, new, hclass, Iclass.format, imm_uType]
    rw [uType, rd_field]
  refine runObject_wrote (i := wordObject junk s m (uType rd 0x37 imm)) rfl rfl ?_
  rw [iclass_wordObject junk s m hclass, Step.stepSized, Step.step, EStateM.run_bind, Step.run_imm]
  · refine (Step.run_setRd (by rw [hdec]; exact reg_lt _) _).trans ?_
    rw [hdec]
    rfl
  all_goals simp

theorem word_lw (hm : m.DefaultRange) (imm : BitVec 12) :
    runObject (Step.stepSized 2) (wordObject junk s m (iType rs1 rd 2 0x03 imm)) core
      = loaded s core m (wordObject junk s m (iType rs1 rd 2 0x03 imm)).mbuf
        ((s.operand rs1).setWidth 64 + imm.signExtend 64) (rd.setWidth 32) := by
  have hclass : newInstruction (iType rs1 rd 2 0x03 imm) = .lw := class_rType rfl
  have hdec := decode_iType junk s m rs1 rd hclass rfl
  have hrd : (wordObject junk s m (iType rs1 rd 2 0x03 imm)).decode.rd = rd.setWidth 32 := by
    rw [hdec]
  have hval := immVal_iType junk s m rs1 rd hclass rfl
  rw [← hrd]
  refine runObject_loaded (i := wordObject junk s m (iType rs1 rd 2 0x03 imm)) hm rfl rfl
    (by rw [hrd]; exact reg_lt _) ?_
  rw [iclass_wordObject junk s m hclass]
  refine (Step.run_loadWord (by rw [hdec]; exact reg_lt _)).trans ?_
  rw [hval, hdec]
  rfl

theorem word_sw (hm : m.DefaultRange) (imm : BitVec 12) :
    runObject (Step.stepSized 2) (wordObject junk s m (sType rs1 rs2 2 0x23 imm)) core
      = stored s core m ((s.operand rs1).setWidth 64 + imm.signExtend 64) (s.operand rs2) := by
  have hclass : newInstruction (sType rs1 rs2 2 0x23 imm) = .sw := class_rType rfl
  have himm : (field (sType rs1 rs2 2 0x23 imm) 25 0x7f <<< 5)
      ||| field (sType rs1 rs2 2 0x23 imm) 7 0x1f = imm.setWidth 32 := by
    apply BitVec.eq_of_toNat_eq
    rw [imm_sType, BitVec.toNat_setWidth]
    exact (Nat.mod_eq_of_lt (by have := imm.isLt; omega)).symm
  have hdec : (wordObject junk s m (sType rs1 rs2 2 0x23 imm)).decode
      = { wordObject junk s m (sType rs1 rs2 2 0x23 imm) with
        imm := imm.setWidth 32, rs2 := rs2.setWidth 32, rs1 := rs1.setWidth 32 } := by
    simp only [RiscvInstruction.decode, wordObject, new, hclass, Iclass.format, himm]
    rw [sType, rs1_field, rs2_field]
  have hval : (wordObject junk s m (sType rs1 rs2 2 0x23 imm)).decode.immVal 12
      = imm.signExtend 64 := by
    rw [hdec]
    exact signExtend_setWidth (w := 12) (by decide) (by decide) _
  refine runObject_stored (i := wordObject junk s m (sType rs1 rs2 2 0x23 imm)) hm rfl rfl ?_
  rw [iclass_wordObject junk s m hclass]
  refine (Step.run_storeWord (by rw [hdec]; exact reg_lt _) (by rw [hdec]; exact reg_lt _)).trans ?_
  rw [hval, hdec]
  rfl

section Jumps

variable (hc : s.compressedExtensionEnabled)
include hc

/-- JAL with an offset of twelve bits. -/
theorem word_jal (imm : BitVec 12) (heven : imm.toNat % 2 = 0) :
    runObject (Step.stepSized 2) (wordObject junk s m (jType rd 0x6f (imm.signExtend 21))) core
      = jumped s core m (s.pc32 + imm.signExtend 64) (rd.setWidth 32) (s.pc.setWidth 32 + 2) := by
  generalize he : jType rd 0x6f (imm.signExtend 21) = w
  have hclass : newInstruction w = .jal := by
    rw [← he]
    exact class_rType0 rfl
  have hrd : (wordObject junk s m w).decode.rd = rd.setWidth 32 := by
    simp only [RiscvInstruction.decode, wordObject, new, hclass, Iclass.format]
    rw [← he, jType, rd_field]
  have himm : (wordObject junk s m w).decode.imm.toNat = (imm.signExtend 20).toNat := by
    simp only [RiscvInstruction.decode, wordObject, new, hclass, Iclass.format]
    rw [← he, imm_jType _ _ _ (signExtend_even (by decide) (by decide) heven)]
    exact signExtend_toNat_mod imm (by decide)
  have hval : (wordObject junk s m w).decode.immVal 20 = imm.signExtend 64 := by
    rw [← signExtend_signExtend imm (k := 20) (by decide) (by decide)]
    exact signExtend_of_toNat (by decide) (by decide) himm
  refine runObject_jumped (i := wordObject junk s m w) rfl ?_
  rw [iclass_wordObject junk s m hclass,
    Step.run_jalSized (by rw [RiscvInstruction.decode_state]; exact hc) (by rw [hrd]; exact reg_lt _),
    hval, hrd, RiscvInstruction.decode_state]
  rfl

/-- BEQ and BNE. -/
theorem word_branch (funct3 : BitVec 3) {c : Iclass} {cond : U32 → U32 → Bool}
    (hb : c.fixedBits = some (.funct3 0x63 funct3.toNat)) (hfmt : c.format = .b)
    (hstep : Step.stepSized 2 c = Step.branchSized 2 cond) (imm : BitVec 13)
    (heven : imm.toNat % 2 = 0) :
    runObject (Step.stepSized 2) (wordObject junk s m (bType rs1 rs2 funct3 0x63 imm)) core
      = jumped s core m (s.pc32 +
        if cond (s.operand rs1) (s.operand rs2) then imm.signExtend 64 else 2) 0 0 := by
  generalize he : bType rs1 rs2 funct3 0x63 imm = w
  have hclass : newInstruction w = c := by
    rw [← he]
    exact class_rType hb
  have hrs1 : (wordObject junk s m w).decode.rs1 = rs1.setWidth 32 := by
    simp only [RiscvInstruction.decode, wordObject, new, hclass, hfmt]
    rw [← he, bType, rs1_field]
  have hrs2 : (wordObject junk s m w).decode.rs2 = rs2.setWidth 32 := by
    simp only [RiscvInstruction.decode, wordObject, new, hclass, hfmt]
    rw [← he, bType, rs2_field]
  have himm : (wordObject junk s m w).decode.imm.toNat = imm.toNat := by
    simp only [RiscvInstruction.decode, wordObject, new, hclass, hfmt]
    rw [← he, imm_bType _ _ _ _ _ heven]
  have hval : (wordObject junk s m w).decode.immVal 13 = imm.signExtend 64 :=
    signExtend_of_toNat (by decide) (by decide) himm
  refine runObject_jumped (i := wordObject junk s m w) rfl ?_
  rw [iclass_wordObject junk s m hclass, hstep,
    Step.run_branchSized (by rw [RiscvInstruction.decode_state]; exact hc)
    (by rw [hrs1]; exact reg_lt _) (by rw [hrs2]; exact reg_lt _), hval, RiscvInstruction.rs1Val,
    RiscvInstruction.rs2Val, hrs1, hrs2, RiscvInstruction.decode_state]
  rfl

/-- BEQ against x0 with an offset of nine bits. -/
theorem word_beqz (h : BitVec 16) :
    runObject (Step.stepSized 2)
      (wordObject junk s m (bType (reg3 h 7) 0 0 0x63 ((bOffset h).signExtend 13))) core
        = jumped s core m
          (s.pc32 + if s.operand (reg3 h 7) = 0 then (bOffset h).signExtend 64 else 2) 0 0 := by
  rw [word_branch junk s core m (reg3 h 7) 0 hc 0 (c := .beq) rfl rfl rfl _
    (signExtend_even (by decide) (by decide) (bOffset_even h)),
    signExtend_signExtend _ (by decide) (by decide), operand_zero]
  simp only [decide_eq_true_eq]

end Jumps

end Words

end Dimebox
