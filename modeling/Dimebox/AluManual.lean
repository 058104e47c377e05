import Dimebox.Decoder
import Dimebox.StepLaws

/-! The integer computations against the RV32I manual.

    `Manual` restates what the manual prescribes on 32-bit values, with the immediates cut out of
    the encoding. Executing any word the factory maps to one of these classes gives exactly that
    result, advances the PC by four modulo 2^32 and changes nothing else. -/

namespace Dimebox

namespace Manual

/-! ### What the manual says -/

/-- I-immediate: bits 31..20, sign-extended. -/
def immI (w : U32) : U32 := (w.extractLsb' 20 12).signExtend 32

/-- U-immediate: bits 31..12, over twelve zero bits. -/
def immU (w : U32) : U32 := w.extractLsb' 12 20 ++ (0 : BitVec 12)

/-- Shift amount: bits 24..20. -/
def shamt (w : U32) : Nat := (w.extractLsb' 20 5).toNat

/-- A register number: five bits of the encoding. -/
def regNo (w : U32) (lo : Nat) : Fin 32 := (w.extractLsb' lo 5).toFin

/-- A register operand: x0 is zero. -/
def operand (s : RiscvState) (r : Fin 32) : U32 := if r = 0 then 0 else (s.x r).setWidth 32

def ofBool (b : Bool) : U32 := if b then 1 else 0

/-- What an instruction of class `c` encoded as `w` at `pc` computes from its operands. -/
def result (c : Iclass) (w pc a b : U32) : Option U32 :=
  match c with
  | .lui => some (immU w)
  | .auipc => some (pc + immU w)
  | .addi => some (a + immI w)
  | .slti => some (ofBool (a.slt (immI w)))
  | .sltiu => some (ofBool (a.ult (immI w)))
  | .xori => some (a ^^^ immI w)
  | .ori => some (a ||| immI w)
  | .andi => some (a &&& immI w)
  | .slli => some (a <<< shamt w)
  | .srli => some (a >>> shamt w)
  | .srai => some (a.sshiftRight (shamt w))
  | .add => some (a + b)
  | .sub => some (a - b)
  | .slt => some (ofBool (a.slt b))
  | .sltu => some (ofBool (a.ult b))
  | .xor => some (a ^^^ b)
  | .or => some (a ||| b)
  | .and => some (a &&& b)
  | _ => none

end Manual

/-! ### The fields `Decode` extracts -/

theorem field_regNo (w : U32) (lo : Nat) : (field w lo 0x1f).toNat = Manual.regNo w lo :=
  field_toNat w lo 5 (by omega)

theorem regVal_field (s : RiscvState) (w : U32) (lo : Nat) :
    (s.regVal (field w lo 0x1f)).setWidth 32 = Manual.operand s (Manual.regNo w lo) := by
  have hno := field_regNo w lo
  have hfin : Fin.ofNat 32 (field w lo 0x1f).toNat = Manual.regNo w lo :=
    Fin.ext (by rw [Fin.val_ofNat, hno, Nat.mod_eq_of_lt (Manual.regNo w lo).isLt])
  have hzero : field w lo 0x1f = 0 ↔ Manual.regNo w lo = 0 := by
    rw [BitVec.toNat_eq, hno, Fin.ext_iff]
    rfl
  rw [RiscvState.regVal, Manual.operand, hfin]
  by_cases h : Manual.regNo w lo = 0
  · rw [if_pos (hzero.mpr h), if_pos h]; rfl
  · rw [if_neg (fun hc => h (hzero.mp hc)), if_neg h]

/-- A register write, by register number. -/
theorem setReg_field (s : RiscvState) (w : U32) (lo : Nat) (v : U64) :
    s.setReg (field w lo 0x1f) v = { s with
      x := fun r => if r = Manual.regNo w lo ∧ r ≠ 0 then v else s.x r } := by
  have hno := field_regNo w lo
  have hfin : Fin.ofNat 32 (field w lo 0x1f).toNat = Manual.regNo w lo :=
    Fin.ext (by rw [Fin.val_ofNat, hno, Nat.mod_eq_of_lt (Manual.regNo w lo).isLt])
  have hzero : field w lo 0x1f = 0 ↔ Manual.regNo w lo = 0 := by
    rw [BitVec.toNat_eq, hno, Fin.ext_iff]
    rfl
  rw [RiscvState.setReg, hfin]
  split
  · next h =>
    have hr : Manual.regNo w lo = 0 := hzero.mp h
    have hnone : ∀ r : Fin 32, ¬ (r = Manual.regNo w lo ∧ r ≠ 0) := by
      rintro r ⟨rfl, hne⟩
      exact hne hr
    simp only [hnone, if_false]
  · next h =>
    have hr : Manual.regNo w lo ≠ 0 := fun hc => h (hzero.mpr hc)
    congr 1
    funext r
    by_cases hreq : r = Manual.regNo w lo
    · subst hreq; simp [hr]
    · simp [hreq]

/-- An immediate of `n` bits, sign-extended by `SIGN_EXTEND_IMM(n)`. -/
theorem extendImm_eq {n : Nat} (hn : 0 < n) (hn' : n ≤ 32) {imm : U32} {x : BitVec n}
    (h : imm.toNat = x.toNat) : (signExtend (imm.setWidth 64) n).setWidth 32 = x.signExtend 32 := by
  have hnat : (imm.setWidth 64 : U64).toNat = x.toNat := by
    rw [BitVec.toNat_setWidth_of_le (by omega), h]
  have hlt : (imm.setWidth 64 : U64).toNat < 2 ^ n := hnat ▸ x.isLt
  have hext : (imm.setWidth 64 : U64).setWidth n = x := by
    apply BitVec.eq_of_toNat_eq
    rw [BitVec.toNat_setWidth, hnat, Nat.mod_eq_of_lt x.isLt]
  rw [signExtend_eq hn (by omega) hlt, hext]
  apply BitVec.eq_of_getLsbD_eq
  intro j hj
  have hj' : j < 64 := by omega
  rw [BitVec.getLsbD_setWidth, BitVec.getLsbD_signExtend, BitVec.getLsbD_signExtend]
  simp [hj, hj']

theorem immI_eq (w : U32) :
    (signExtend ((field w 20 0xfff).setWidth 64) 12).setWidth 32 = Manual.immI w :=
  extendImm_eq (by omega) (by omega) (field_toNat w 20 12 (by omega))

theorem immU_eq (w : U32) : w &&& 0xfffff000 = Manual.immU w := by
  have hmask : ∀ j : Fin 32, (0xfffff000 : U32).getLsbD j = decide (12 ≤ (j : Nat)) := by decide
  apply BitVec.eq_of_getLsbD_eq
  intro j hj
  rw [BitVec.getLsbD_and, hmask ⟨j, hj⟩, Manual.immU, BitVec.getLsbD_append]
  by_cases h : j < 12
  · simp [h]
  · have hlt : j - 12 < 20 := by omega
    have hge : 12 ≤ j := by omega
    simp [h, hlt, hge, hj, Nat.add_sub_cancel' (Nat.le_of_not_lt h)]

theorem shamt_eq (w : U32) : (field w 20 0xfff &&& 0x1f).toNat = Manual.shamt w := by
  have hno : (field w 20 0xfff).toNat = (w.extractLsb' 20 12).toNat :=
    field_toNat w 20 12 (by omega)
  have hand : (field w 20 0xfff &&& 0x1f).toNat = (field w 20 0xfff).toNat % 2 ^ 5 := by
    rw [BitVec.toNat_and]
    exact Nat.and_two_pow_sub_one_eq_mod _ 5
  rw [hand, hno, Manual.shamt, BitVec.extractLsb'_toNat, BitVec.extractLsb'_toNat]
  omega

theorem addImm_eq (a : U32) (imm : U64) :
    (a.setWidth 64 + imm).setWidth 32 = a + imm.setWidth 32 := by
  rw [BitVec.setWidth_add _ _ (by omega)]
  simp

theorem pc_succ_eq (pc : U64) :
    ((pc.setWidth 32 + 4 : U32).setWidth 64 : U64) = BitVec.ofNat 64 ((pc.toNat + 4) % 2 ^ 32) := by
  apply BitVec.eq_of_toNat_eq
  have h4 : (pc.setWidth 32 + 4 : U32).toNat = (pc.toNat % 2 ^ 32 + 4) % 2 ^ 32 := by
    rw [BitVec.toNat_add, BitVec.toNat_setWidth]; rfl
  rw [BitVec.toNat_setWidth, h4, BitVec.toNat_ofNat]
  omega

/-! ### Execution -/

/-- Executing `w` as an instruction of class `c` returns; it writes `v` to the destination register
    unless that is x0, advances the PC by four modulo 2^32, and leaves every other register, CSR,
    mode bit, memory byte and the store queue alone. -/
def Computes (junk : Junk) (c : Iclass) (s : RiscvState) (m : Memory) (w v : U32) : Prop :=
  ∃ i', Step.execute.run (.new junk c s m w) = .ok () i' ∧
    i'.state = { s with
      pc := BitVec.ofNat 64 ((s.pc.toNat + 4) % 2 ^ 32)
      x := fun r => if r = Manual.regNo w 7 ∧ r ≠ 0 then v.setWidth 64 else s.x r } ∧
    i'.memory = m ∧ i'.mOpsMemory = []

section Families

open RiscvInstruction (new)

variable {junk : Junk} {c : Iclass} {s : RiscvState} {m : Memory} {w : U32}

/-- A body that only writes RD. -/
theorem computes_of_putRd {v : U32} (hsize : c.instrSize = 4)
    (hrd : (new junk c s m w).decode.rd = field w 7 0x1f)
    (h : (Step.step c).run (new junk c s m w).decode = .ok () ((new junk c s m w).decode.putRd v)) :
    Computes junk c s m w v := by
  refine ⟨_, Step.execute_of_ok (by simpa using h), ?_, ?_, ?_⟩
  · simp only [RiscvInstruction.putRd, RiscvInstruction.decode_state, RiscvInstruction.new_state,
      RiscvInstruction.decode_nextPc, hrd, setReg_field, RiscvState.setPc]
    have hnext : (new junk c s m w).nextPc = s.pc.setWidth 32 + 4 := by rw [← hsize]; rfl
    rw [hnext, pc_succ_eq]
  · simp [RiscvInstruction.putRd]
  · simp [RiscvInstruction.putRd]

theorem instrSize_of_format (h : c.format = .r ∨ c.format = .i ∨ c.format = .u) :
    c.instrSize = 4 := by
  rcases h with h | h | h <;> simp [Iclass.instrSize, h]

theorem computes_alu (hc : c.format = .r) {f : U32 → U32 → U32} (hs : Step.step c = Step.alu f) :
    Computes junk c s m w
      (f (Manual.operand s (Manual.regNo w 15)) (Manual.operand s (Manual.regNo w 20))) := by
  have hdec : (new junk c s m w).decode = { new junk c s m w with
      rs2 := field w 20 0x1f, rs1 := field w 15 0x1f, rd := field w 7 0x1f } := by
    simp [RiscvInstruction.decode, hc]
  refine computes_of_putRd (instrSize_of_format (Or.inl hc)) (by rw [hdec]) ?_
  rw [hs, Step.run_alu (by rw [hdec]; exact field_toNat_lt w 15)
    (by rw [hdec]; exact field_toNat_lt w 20) (by rw [hdec]; exact field_toNat_lt w 7)]
  rw [← regVal_field, ← regVal_field, hdec]
  rfl

/-- The decoded fields of an I-type encoding. -/
theorem decode_itype (junk : Junk) (s : RiscvState) (m : Memory) (w : U32) (hc : c.format = .i) :
    (new junk c s m w).decode = { new junk c s m w with
      imm := field w 20 0xfff, rs1 := field w 15 0x1f, rd := field w 7 0x1f } := by
  simp [RiscvInstruction.decode, hc]

theorem computes_aluImm (hc : c.format = .i) {f : U32 → U64 → U32} {g : U32 → U32 → U32}
    (hs : Step.step c = Step.aluImm f) (hg : ∀ a imm, f a imm = g a (imm.setWidth 32)) :
    Computes junk c s m w (g (Manual.operand s (Manual.regNo w 15)) (Manual.immI w)) := by
  have hdec := decode_itype junk s m w hc
  refine computes_of_putRd (instrSize_of_format (Or.inr (Or.inl hc))) (by rw [hdec]) ?_
  rw [hs, Step.run_aluImm (by rw [hdec]; exact field_toNat_lt w 15)
    (by rw [hdec]; exact field_toNat_lt w 7), hg, ← regVal_field, ← immI_eq, hdec]
  rfl

theorem computes_shiftImm (hc : c.format = .i) {f : U32 → Nat → U32}
    (hs : Step.step c = Step.shiftImm f) :
    Computes junk c s m w (f (Manual.operand s (Manual.regNo w 15)) (Manual.shamt w)) := by
  have hdec := decode_itype junk s m w hc
  refine computes_of_putRd (instrSize_of_format (Or.inr (Or.inl hc))) (by rw [hdec]) ?_
  rw [hs, Step.run_shiftImm (by rw [hdec]; exact field_toNat_lt w 15)
    (by rw [hdec]; exact field_toNat_lt w 7), ← regVal_field, ← shamt_eq, hdec]
  rfl

/-- LUI and AUIPC: the U-immediate and possibly the PC. -/
theorem computes_upper (hc : c.format = .u) {f : U32 → U32 → U32}
    (hs : Step.step c = do Step.setRd (f (← Step.pc) (← Step.imm))) :
    Computes junk c s m w (f (s.pc.setWidth 32) (Manual.immU w)) := by
  have hdec : (new junk c s m w).decode = { new junk c s m w with
      imm := w &&& 0xfffff000, rd := field w 7 0x1f } := by
    simp [RiscvInstruction.decode, hc]
  refine computes_of_putRd (instrSize_of_format (Or.inr (Or.inr hc))) (by rw [hdec]) ?_
  rw [hs, ← immU_eq]
  simp only [EStateM.run_bind, Step.run_pc, Step.run_imm]
  rw [Step.run_setRd (by rw [hdec]; exact field_toNat_lt w 7), hdec]
  rfl

end Families

theorem shamt_lt (w : U32) : Manual.shamt w < 32 := (w.extractLsb' 20 5).isLt

/-- For every register state, memory and 32-bit word the factory maps to one of the eighteen
    classes: Execute writes to `rd` what the manual prescribes for the (low words of the) operands,
    also if `rd` is a source, drops it if `rd` is x0, and does nothing else but advance the PC. -/
theorem execute_computes_manual_result (junk : Junk) (s : RiscvState) (m : Memory) (w v : U32)
    (hv : Manual.result (newInstruction w) w (s.pc.setWidth 32)
      (Manual.operand s (Manual.regNo w 15)) (Manual.operand s (Manual.regNo w 20)) = some v) :
    Computes junk (newInstruction w) s m w v := by
  generalize newInstruction w = c at hv ⊢
  cases c <;> simp only [Manual.result, Option.some.injEq, reduceCtorEq] at hv <;> subst hv
  case add => exact computes_alu rfl rfl
  case sub => exact computes_alu rfl rfl
  case slt => exact computes_alu (f := fun a b => Step.bit (a.slt b)) rfl rfl
  case sltu => exact computes_alu (f := fun a b => Step.bit (a.ult b)) rfl rfl
  case xor => exact computes_alu rfl rfl
  case or => exact computes_alu rfl rfl
  case and => exact computes_alu rfl rfl
  case addi => exact computes_aluImm rfl rfl addImm_eq
  case slti =>
    exact computes_aluImm (g := fun a imm => Step.bit (a.slt imm)) rfl rfl fun _ _ => rfl
  case sltiu =>
    exact computes_aluImm (g := fun a imm => Step.bit (a.ult imm)) rfl rfl fun _ _ => rfl
  case xori => exact computes_aluImm rfl rfl fun _ _ => rfl
  case ori => exact computes_aluImm rfl rfl fun _ _ => rfl
  case andi => exact computes_aluImm rfl rfl fun _ _ => rfl
  case slli => exact computes_shiftImm rfl rfl
  case srli => exact computes_shiftImm rfl rfl
  case srai =>
    rw [← sra_eq _ (shamt_lt w)]
    exact computes_shiftImm rfl rfl
  case lui => exact computes_upper (f := fun _ imm => imm) rfl rfl
  case auipc => exact computes_upper rfl rfl

/-- `addi x5,x5,-1` with x5 = 0 wraps: the destination is the source. -/
theorem execute_computes_addi_wrap :
    let m : Memory := { physMem := { oracle := { rand := fun _ => 0, heap := fun _ => 0 } } }
    newInstruction 0xfff28293 = .addi ∧
      Computes {} .addi { pc := 0xfffffffc } m 0xfff28293 0xffffffff := by
  intro m
  exact ⟨by decide, execute_computes_manual_result {} { pc := 0xfffffffc } m 0xfff28293 0xffffffff
    (by decide)⟩

end Dimebox
