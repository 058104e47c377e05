import Dimebox.Listing
import Dimebox.AluManual

/-! The expansions of the compressed instructions.

    The manual gives for each compressed instruction the 32-bit instruction it stands for, with the
    operands cut out of the halfword: registers x8..x15 by three bits, immediates in scrambled
    order. Reserved halfwords stand for nothing. -/

namespace Dimebox

/-! ### The formats of the 32-bit instructions -/

section Formats

variable (rs1 rs2 rd : BitVec 5) (funct3 : BitVec 3) (opcode : BitVec 7)

def rType (funct7 : BitVec 7) : U32 := funct7 ++ rs2 ++ rs1 ++ funct3 ++ rd ++ opcode

def iType (imm : BitVec 12) : U32 :=
  rType rs1 (imm.extractLsb' 0 5) rd funct3 opcode (imm.extractLsb' 5 7)

def sType (imm : BitVec 12) : U32 :=
  rType rs1 rs2 (imm.extractLsb' 0 5) funct3 opcode (imm.extractLsb' 5 7)

def bType (imm : BitVec 13) : U32 :=
  rType rs1 rs2 (imm.extractLsb' 1 4 ++ imm.extractLsb' 11 1) funct3 opcode
    (imm.extractLsb' 12 1 ++ imm.extractLsb' 5 6)

def uType (imm : BitVec 20) : U32 :=
  rType (imm.extractLsb' 3 5) (imm.extractLsb' 8 5) rd (imm.extractLsb' 0 3) opcode
    (imm.extractLsb' 13 7)

def jType (imm : BitVec 21) : U32 :=
  rType (imm.extractLsb' 15 5) (imm.extractLsb' 1 4 ++ imm.extractLsb' 11 1) rd
    (imm.extractLsb' 12 3) opcode (imm.extractLsb' 20 1 ++ imm.extractLsb' 5 6)

end Formats

theorem toNat_append_add {n k : Nat} (x : BitVec n) (y : BitVec k) :
    (x ++ y).toNat = x.toNat * 2 ^ k + y.toNat := by
  rw [BitVec.toNat_append, ← Nat.shiftLeft_add_eq_or_of_lt y.isLt, Nat.shiftLeft_eq]

/-! ### The fields of a 32-bit instruction -/

theorem reg_toNat (r : BitVec 5) : (r.setWidth 32 : U32).toNat = r.toNat := by
  rw [BitVec.toNat_setWidth]
  exact Nat.mod_eq_of_lt (by have := r.isLt; omega)

theorem reg_lt (r : BitVec 5) : (r.setWidth 32 : U32).toNat < 32 := by
  rw [reg_toNat]
  exact r.isLt

section Fields

variable (rs1 rs2 rd : BitVec 5) (funct3 : BitVec 3) (opcode : BitVec 7) (funct7 : BitVec 7)

theorem rType_toNat : (rType rs1 rs2 rd funct3 opcode funct7).toNat
    = opcode.toNat + rd.toNat * 2 ^ 7 + funct3.toNat * 2 ^ 12 + rs1.toNat * 2 ^ 15
      + rs2.toNat * 2 ^ 20 + funct7.toNat * 2 ^ 25 := by
  simp only [rType, toNat_append_add]
  omega

/-- Bits `lo + len - 1 .. lo` of a format. -/
theorem field_rType (lo len : Nat) {n : Nat} (hlen : len ≤ 32)
    (h : (opcode.toNat + rd.toNat * 2 ^ 7 + funct3.toNat * 2 ^ 12 + rs1.toNat * 2 ^ 15
      + rs2.toNat * 2 ^ 20 + funct7.toNat * 2 ^ 25) / 2 ^ lo % 2 ^ len = n) :
    (field (rType rs1 rs2 rd funct3 opcode funct7) lo (2 ^ len - 1)).toNat = n := by
  rw [field_div _ _ _ hlen, rType_toNat, h]

theorem opcode_rType : (field (rType rs1 rs2 rd funct3 opcode funct7) 0 0x7f).toNat
    = opcode.toNat := by
  refine field_rType rs1 rs2 rd funct3 opcode funct7 0 7 (by decide) ?_
  have := opcode.isLt
  omega

theorem rd_rType : (field (rType rs1 rs2 rd funct3 opcode funct7) 7 0x1f).toNat = rd.toNat := by
  refine field_rType rs1 rs2 rd funct3 opcode funct7 7 5 (by decide) ?_
  have := opcode.isLt
  have := rd.isLt
  omega

theorem funct3_rType : (field (rType rs1 rs2 rd funct3 opcode funct7) 12 0x7).toNat
    = funct3.toNat := by
  refine field_rType rs1 rs2 rd funct3 opcode funct7 12 3 (by decide) ?_
  have := opcode.isLt
  have := rd.isLt
  have := funct3.isLt
  omega

theorem rs1_rType : (field (rType rs1 rs2 rd funct3 opcode funct7) 15 0x1f).toNat = rs1.toNat := by
  refine field_rType rs1 rs2 rd funct3 opcode funct7 15 5 (by decide) ?_
  have := opcode.isLt
  have := rd.isLt
  have := funct3.isLt
  have := rs1.isLt
  omega

theorem rs2_rType : (field (rType rs1 rs2 rd funct3 opcode funct7) 20 0x1f).toNat = rs2.toNat := by
  refine field_rType rs1 rs2 rd funct3 opcode funct7 20 5 (by decide) ?_
  have := opcode.isLt
  have := rd.isLt
  have := funct3.isLt
  have := rs1.isLt
  have := rs2.isLt
  omega

theorem funct7_rType : (field (rType rs1 rs2 rd funct3 opcode funct7) 25 0x7f).toNat
    = funct7.toNat := by
  refine field_rType rs1 rs2 rd funct3 opcode funct7 25 7 (by decide) ?_
  have := opcode.isLt
  have := rd.isLt
  have := funct3.isLt
  have := rs1.isLt
  have := rs2.isLt
  have := funct7.isLt
  omega

theorem rd_field : field (rType rs1 rs2 rd funct3 opcode funct7) 7 0x1f = rd.setWidth 32 :=
  BitVec.eq_of_toNat_eq (by rw [rd_rType, reg_toNat])

theorem rs1_field : field (rType rs1 rs2 rd funct3 opcode funct7) 15 0x1f = rs1.setWidth 32 :=
  BitVec.eq_of_toNat_eq (by rw [rs1_rType, reg_toNat])

theorem rs2_field : field (rType rs1 rs2 rd funct3 opcode funct7) 20 0x1f = rs2.setWidth 32 :=
  BitVec.eq_of_toNat_eq (by rw [rs2_rType, reg_toNat])

variable {rs1 rs2 rd funct3 opcode funct7}

/-- A format with the opcode and funct3 of `c`. -/
theorem class_rType {c : Iclass} (hb : c.fixedBits = some (.funct3 opcode.toNat funct3.toNat)) :
    newInstruction (rType rs1 rs2 rd funct3 opcode funct7) = c :=
  newInstruction_of_matches hb ⟨opcode_rType .., funct3_rType ..⟩

theorem class_rType7 {c : Iclass}
    (hb : c.fixedBits = some (.funct7 opcode.toNat funct3.toNat funct7.toNat)) :
    newInstruction (rType rs1 rs2 rd funct3 opcode funct7) = c :=
  newInstruction_of_matches hb ⟨opcode_rType .., funct3_rType .., funct7_rType ..⟩

theorem class_rType0 {c : Iclass} (hb : c.fixedBits = some (.opcode opcode.toNat)) :
    newInstruction (rType rs1 rs2 rd funct3 opcode funct7) = c :=
  newInstruction_of_matches hb (opcode_rType ..)

end Fields

/-! ### The immediates of a 32-bit instruction -/

section Immediates

variable (rs1 rs2 rd : BitVec 5) (funct3 : BitVec 3) (opcode : BitVec 7)

theorem extract_toNat {n : Nat} (x : BitVec n) (lo len : Nat) :
    (x.extractLsb' lo len).toNat = x.toNat / 2 ^ lo % 2 ^ len := by
  rw [BitVec.extractLsb'_toNat, Nat.shiftRight_eq_div_pow]

theorem imm_iType (imm : BitVec 12) :
    (field (iType rs1 rd funct3 opcode imm) 20 0xfff).toNat = imm.toNat := by
  refine field_rType _ _ _ _ _ _ 20 12 (by decide) ?_
  rw [extract_toNat, extract_toNat]
  have := opcode.isLt
  have := rd.isLt
  have := funct3.isLt
  have := rs1.isLt
  have := imm.isLt
  omega

theorem imm_sType (imm : BitVec 12) :
    ((field (sType rs1 rs2 funct3 opcode imm) 25 0x7f <<< 5)
      ||| field (sType rs1 rs2 funct3 opcode imm) 7 0x1f).toNat = imm.toNat := by
  have h25 : (field (sType rs1 rs2 funct3 opcode imm) 25 0x7f).toNat = imm.toNat / 2 ^ 5 % 2 ^ 7 :=
    (funct7_rType ..).trans (extract_toNat ..)
  have h7 : (field (sType rs1 rs2 funct3 opcode imm) 7 0x1f).toNat = imm.toNat / 2 ^ 0 % 2 ^ 5 :=
    (rd_rType ..).trans (extract_toNat ..)
  rw [toNat_shiftLeft_or (by omega) (by omega), h25, h7]
  omega

theorem imm_uType (imm : BitVec 20) : uType rd opcode imm &&& 0xfffff000 = imm ++ 0#12 := by
  rw [immU_eq, Manual.immU]
  congr 1
  apply BitVec.eq_of_toNat_eq
  rw [extract_toNat, uType, rType_toNat]
  simp only [extract_toNat]
  have := opcode.isLt
  have := rd.isLt
  have := imm.isLt
  omega

/-- A field over zeros. -/
theorem toNat_or_shiftLeft {x b : U32} {k w : Nat} (hx : x.toNat % 2 ^ (k + w) = 0)
    (hb : b.toNat < 2 ^ w) (hk : k + w ≤ 32) : (x ||| b <<< k).toNat = x.toNat + b.toNat * 2 ^ k := by
  have hlt : b.toNat * 2 ^ k < 2 ^ (k + w) := by
    rw [Nat.pow_add, Nat.mul_comm (2 ^ k)]
    exact Nat.mul_lt_mul_of_pos_right hb (by positivity)
  have hle : 2 ^ (k + w) ≤ 2 ^ 32 := Nat.pow_le_pow_right (by decide) hk
  have hdiv : 2 ^ (k + w) * (x.toNat / 2 ^ (k + w)) = x.toNat := by
    have := Nat.div_add_mod x.toNat (2 ^ (k + w))
    omega
  rw [BitVec.toNat_or, BitVec.toNat_shiftLeft, Nat.shiftLeft_eq, Nat.mod_eq_of_lt (by omega), ← hdiv,
    ← Nat.two_pow_add_eq_or_of_lt hlt]

/-- The four fields of an offset. -/
theorem offset_toNat {a b c d : U32} (ha : a.toNat < 2 ^ 20) (hb : b.toNat < 2) (hc : c.toNat < 2 ^ 6)
    (hd : d.toNat < 2 ^ 4) : ((a <<< 12) ||| (b <<< 11) ||| (c <<< 5) ||| (d <<< 1)).toNat
      = a.toNat * 2 ^ 12 + b.toNat * 2 ^ 11 + c.toNat * 2 ^ 5 + d.toNat * 2 := by
  have h12 : (a <<< 12).toNat = a.toNat * 2 ^ 12 := by
    rw [BitVec.toNat_shiftLeft, Nat.shiftLeft_eq]
    exact Nat.mod_eq_of_lt (by omega)
  have h11 : ((a <<< 12) ||| (b <<< 11)).toNat = a.toNat * 2 ^ 12 + b.toNat * 2 ^ 11 := by
    rw [toNat_or_shiftLeft (w := 1) (by rw [h12]; omega) (by omega) (by decide), h12]
  have h5 : ((a <<< 12) ||| (b <<< 11) ||| (c <<< 5)).toNat
      = a.toNat * 2 ^ 12 + b.toNat * 2 ^ 11 + c.toNat * 2 ^ 5 := by
    rw [toNat_or_shiftLeft (w := 6) (by rw [h11]; omega) hc (by decide), h11]
  rw [toNat_or_shiftLeft (w := 4) (by rw [h5]; omega) hd (by decide), h5, Nat.pow_one]

/-- The order in which `_BTYPE_IMM` puts the fields together. -/
theorem or_last_second (a b c d : U32) : a ||| b ||| c ||| d = a ||| d ||| b ||| c := by ac_rfl

theorem imm_bType (imm : BitVec 13) (heven : imm.toNat % 2 = 0) :
    let e := bType rs1 rs2 funct3 opcode imm
    ((field e 31 1 <<< 12) ||| (field e 25 0x3f <<< 5) ||| (field e 8 0xf <<< 1) |||
      (field e 7 1 <<< 11)).toNat = imm.toNat := by
  intro e
  have := opcode.isLt
  have := funct3.isLt
  have := rs1.isLt
  have := rs2.isLt
  have l12 := (imm.extractLsb' 12 1).isLt
  have l5 := (imm.extractLsb' 5 6).isLt
  have l1 := (imm.extractLsb' 1 4).isLt
  have l11 := (imm.extractLsb' 11 1).isLt
  have h31 : (field e 31 1).toNat = (imm.extractLsb' 12 1).toNat := by
    refine field_rType _ _ _ _ _ _ 31 1 (by decide) ?_
    rw [toNat_append_add, toNat_append_add]
    omega
  have h25 : (field e 25 0x3f).toNat = (imm.extractLsb' 5 6).toNat := by
    refine field_rType _ _ _ _ _ _ 25 6 (by decide) ?_
    rw [toNat_append_add, toNat_append_add]
    omega
  have h8 : (field e 8 0xf).toNat = (imm.extractLsb' 1 4).toNat := by
    refine field_rType _ _ _ _ _ _ 8 4 (by decide) ?_
    rw [toNat_append_add, toNat_append_add]
    omega
  have h7 : (field e 7 1).toNat = (imm.extractLsb' 11 1).toNat := by
    refine field_rType _ _ _ _ _ _ 7 1 (by decide) ?_
    rw [toNat_append_add, toNat_append_add]
    omega
  rw [or_last_second, offset_toNat (by omega) (by omega) (by omega) (by omega), h31, h25, h8, h7]
  simp only [extract_toNat]
  have := imm.isLt
  omega

theorem imm_jType (imm : BitVec 21) (heven : imm.toNat % 2 = 0) :
    let e := jType rd opcode imm
    ((field e 12 0xff <<< 12) ||| (field e 20 1 <<< 11) ||| (field e 25 0x3f <<< 5) |||
      (field e 21 0xf <<< 1)).toNat = imm.toNat % 2 ^ 20 := by
  intro e
  have := opcode.isLt
  have := rd.isLt
  have l12 := (imm.extractLsb' 12 3).isLt
  have l15 := (imm.extractLsb' 15 5).isLt
  have l5 := (imm.extractLsb' 5 6).isLt
  have l1 := (imm.extractLsb' 1 4).isLt
  have l11 := (imm.extractLsb' 11 1).isLt
  have l20 := (imm.extractLsb' 20 1).isLt
  have h12 : (field e 12 0xff).toNat
      = (imm.extractLsb' 12 3).toNat + (imm.extractLsb' 15 5).toNat * 2 ^ 3 := by
    refine field_rType _ _ _ _ _ _ 12 8 (by decide) ?_
    rw [toNat_append_add, toNat_append_add]
    omega
  have h25 : (field e 25 0x3f).toNat = (imm.extractLsb' 5 6).toNat := by
    refine field_rType _ _ _ _ _ _ 25 6 (by decide) ?_
    rw [toNat_append_add, toNat_append_add]
    omega
  have h21 : (field e 21 0xf).toNat = (imm.extractLsb' 1 4).toNat := by
    refine field_rType _ _ _ _ _ _ 21 4 (by decide) ?_
    rw [toNat_append_add, toNat_append_add]
    omega
  have h20 : (field e 20 1).toNat = (imm.extractLsb' 11 1).toNat := by
    refine field_rType _ _ _ _ _ _ 20 1 (by decide) ?_
    rw [toNat_append_add, toNat_append_add]
    omega
  rw [offset_toNat (by omega) (by omega) (by omega) (by omega), h12, h25, h21, h20]
  simp only [extract_toNat]
  have := imm.isLt
  omega

end Immediates

/-! ### The operands of a halfword -/

namespace Rvc

/-- A register number of three bits. -/
def reg3 (h : BitVec 16) (lo : Nat) : BitVec 5 := 0b01#2 ++ h.extractLsb' lo 3

/-- A full register number, bits 11..7. -/
def reg5 (h : BitVec 16) : BitVec 5 := h.extractLsb' 7 5

/-- imm[5] and imm[4:0] of C.ADDI, C.LI, C.LUI and C.ANDI. -/
def imm6 (h : BitVec 16) : BitVec 6 := h.extractLsb' 12 1 ++ h.extractLsb' 2 5

/-- nzuimm[5:4|9:6|2|3] of C.ADDI4SPN. -/
def addi4spnImm (h : BitVec 16) : BitVec 10 :=
  h.extractLsb' 7 4 ++ h.extractLsb' 11 2 ++ h.extractLsb' 5 1 ++ h.extractLsb' 6 1 ++ 0#2

/-- nzimm[9] and nzimm[4|6|8:7|5] of C.ADDI16SP. -/
def addi16spImm (h : BitVec 16) : BitVec 10 :=
  h.extractLsb' 12 1 ++ h.extractLsb' 3 2 ++ h.extractLsb' 5 1 ++ h.extractLsb' 2 1 ++
    h.extractLsb' 6 1 ++ 0#4

/-- uimm[5:3] and uimm[2|6] of C.LW and C.SW. -/
def lwImm (h : BitVec 16) : BitVec 7 :=
  h.extractLsb' 5 1 ++ h.extractLsb' 10 3 ++ h.extractLsb' 6 1 ++ 0#2

/-- offset[11|4|9:8|10|6|7|3:1|5] of C.J and C.JAL. -/
def jOffset (h : BitVec 16) : BitVec 12 :=
  h.extractLsb' 12 1 ++ h.extractLsb' 8 1 ++ h.extractLsb' 9 2 ++ h.extractLsb' 6 1 ++
    h.extractLsb' 7 1 ++ h.extractLsb' 2 1 ++ h.extractLsb' 11 1 ++ h.extractLsb' 3 3 ++ 0#1

/-- offset[8|4:3] and offset[7:6|2:1|5] of C.BEQZ and C.BNEZ. -/
def bOffset (h : BitVec 16) : BitVec 9 :=
  h.extractLsb' 12 1 ++ h.extractLsb' 5 2 ++ h.extractLsb' 2 1 ++ h.extractLsb' 10 2 ++
    h.extractLsb' 3 2 ++ 0#1

end Rvc

open Rvc in
theorem bOffset_even (h : BitVec 16) : (bOffset h).toNat % 2 = 0 := by
  simp only [bOffset, toNat_append_add, BitVec.toNat_ofNat]
  omega

open Rvc in
theorem jOffset_even (h : BitVec 16) : (jOffset h).toNat % 2 = 0 := by
  simp only [jOffset, toNat_append_add, BitVec.toNat_ofNat]
  omega

namespace Rvc

/-- The 32-bit instruction that `h` stands for in the row of an instruction, for the ones
    `NewInstruction16` has. -/
def expand (h : BitVec 16) : Rvc → Option U32
  | .nop => some (iType 0 0 0 0x13 0)
  | .addi => some (iType (reg5 h) (reg5 h) 0 0x13 ((imm6 h).signExtend 12))
  | .li => some (iType 0 (reg5 h) 0 0x13 ((imm6 h).signExtend 12))
  | .lui => if imm6 h = 0 then none else some (uType (reg5 h) 0x37 ((imm6 h).signExtend 20))
  | .addi16sp =>
    if addi16spImm h = 0 then none
    else some (iType 2 2 0 0x13 ((addi16spImm h).signExtend 12))
  | .addi4spn =>
    if addi4spnImm h = 0 then none
    else some (iType 2 (reg3 h 2) 0 0x13 ((addi4spnImm h).setWidth 12))
  | .lw => some (iType (reg3 h 7) (reg3 h 2) 2 0x03 ((lwImm h).setWidth 12))
  | .sw => some (sType (reg3 h 7) (reg3 h 2) 2 0x23 ((lwImm h).setWidth 12))
  | .jal => some (jType 1 0x6f ((jOffset h).signExtend 21))
  | .j => some (jType 0 0x6f ((jOffset h).signExtend 21))
  | .beqz => some (bType (reg3 h 7) 0 0 0x63 ((bOffset h).signExtend 13))
  | .bnez => some (bType (reg3 h 7) 0 1 0x63 ((bOffset h).signExtend 13))
  | .andi => some (iType (reg3 h 7) (reg3 h 7) 7 0x13 ((imm6 h).signExtend 12))
  | .sub => some (rType (reg3 h 7) (reg3 h 2) (reg3 h 7) 0 0x33 0x20)
  | .xor => some (rType (reg3 h 7) (reg3 h 2) (reg3 h 7) 4 0x33 0)
  | .or => some (rType (reg3 h 7) (reg3 h 2) (reg3 h 7) 6 0x33 0)
  | .and => some (rType (reg3 h 7) (reg3 h 2) (reg3 h 7) 7 0x33 0)
  | _ => none

end Rvc

/-- The 32-bit instruction a halfword stands for. -/
def expansion (h : BitVec 16) : Option U32 := (Rvc.table h).bind (Rvc.expand h)

/-- `c.addi x8,-1` and `c.lw x9,64(x10)`. -/
example : expansion 0x147d = some 0xfff40413 ∧ expansion 0x4124 = some 0x04052483 := by decide

end Dimebox
