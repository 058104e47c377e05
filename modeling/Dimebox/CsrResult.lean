import Mathlib.Tactic.IntervalCases
import Dimebox.CsrLocality
import Dimebox.CsrInstructions
import Dimebox.ExecuteLaws

/-! What executing a CSR instruction leaves.

    All six bodies read the CSR into `rd` and then write it, or not. A CSR without a register behind
    it is a counter that refuses to be written, or unknown: the instruction traps, after `rd` has
    been written in the first case. -/

namespace Dimebox

namespace RiscvState

/-! ### What a CSR instruction leaves -/

/-- What refuses to write a CSR without a register behind it. -/
def csrRefusal (n : U32) : SimExceptions :=
  if csrAccessOkay n 3 true then .illegalInstructionUnknownCsr
  else .illegalInstructionPrivilegedCsr

/-- The state a CSR instruction leaves: it puts what the CSR `n` reads into `rd`, and if it writes,
    it writes `f` of it. -/
def csrResult (s : RiscvState) (n rd : U32) (next : U64) (writes : Bool) (f : U64 → U64) :
    RiscvState :=
  match csrReg n, s.csrCounter n with
  | some r, _ =>
    let t := s.setReg rd (((s.read r).setWidth 32 : U32).setWidth 64)
    (if writes then t.write r (f (s.read r)) else t).setPc next
  | none, some v =>
    let t := s.setReg rd ((v.setWidth 32 : U32).setWidth 64)
    if writes then t.trapState (csrRefusal n) 0 else t.setPc next
  | none, none => s.trapState .illegalInstructionUnknownCsr 0

theorem csrRefusal_cases (n : U32) : csrRefusal n = .illegalInstructionUnknownCsr ∨
    csrRefusal n = .illegalInstructionPrivilegedCsr := by
  unfold csrRefusal
  split
  · exact .inl rfl
  · exact .inr rfl

/-- At machine level every CSR may be read. -/
theorem csrAccessOkay_read (n : U32) : csrAccessOkay n 3 false = true := by
  have hlt : csrGroup n < 16 := by
    rw [csrGroup, BitVec.toNat_and]
    exact Nat.lt_of_le_of_lt Nat.and_le_right (by decide)
  unfold csrAccessOkay
  generalize csrGroup n = g at hlt
  interval_cases g <;> rfl

variable {n : U32}

theorem csr_of_counter_or_none (hn : n ≤ 0xfff) (hr : csrReg n = none) (s : RiscvState) :
    s.csr n 3 = match s.csrCounter n with
      | some v => .ok v
      | none => .error (.sim .illegalInstructionUnknownCsr) := by
  have haccess : validateCsrAccess n 3 false = .ok () := by
    rw [validateCsrAccess, if_neg (by rw [BitVec.lt_def]; rw [BitVec.le_def] at hn; omega),
      if_pos (csrAccessOkay_read n)]
  rw [csr, haccess]
  simp only [hr]
  cases s.csrCounter n <;> rfl

theorem setCsr_refused (hn : n ≤ 0xfff) (hr : csrReg n = none) (s : RiscvState) (v : U64) :
    s.setCsr n 3 v = .error (.sim (csrRefusal n)) := by
  rw [setCsr, validateCsrAccess, csrRefusal,
    if_neg (by rw [BitVec.lt_def]; rw [BitVec.le_def] at hn; omega)]
  split
  · simp only [hr]
    rfl
  · rfl

end RiscvState

namespace Step

variable {i : RiscvInstruction}

theorem run_setCsrImm {v : U64} {s : RiscvState} (h : i.state.setCsr i.imm 3 v = .ok s) :
    (setCsrImm v).run i = .ok () { i with state := s } := by
  have hcsr : i.state.setCsr i.imm i.state.privilegeLevel v = .ok s := h
  rw [setCsrImm, EStateM.run_bind, EStateM.run_get]
  simp only [EStateM.run_bind, hcsr, Effect.run_lift_ok]
  rfl

theorem run_setCsrImm_error {v : U64} {f : Fault} (h : i.state.setCsr i.imm 3 v = .error f) :
    (setCsrImm v).run i = .error f i := by
  have hcsr : i.state.setCsr i.imm i.state.privilegeLevel v = .error f := h
  rw [setCsrImm, EStateM.run_bind, EStateM.run_get]
  simp only [EStateM.run_bind, hcsr, Effect.run_lift_error]

/-- What is left of an instruction that reads a CSR, if the CSR has no register behind it. -/
theorem run_csrBody_none {writes : Bool} {value : StepM U64} {f : U64 → U64}
    (hrd : i.rd.toNat < 32) (hn : i.imm ≤ 0xfff) (hvalue : Gives value i f)
    (hr : RiscvState.csrReg i.imm = none) : (csrBody writes value).run i =
      match i.state.csrCounter i.imm with
      | some v =>
        if writes then .error (.sim (RiscvState.csrRefusal i.imm)) (i.putRd (v.setWidth 32))
        else .ok () (i.putRd (v.setWidth 32))
      | none => .error (.sim .illegalInstructionUnknownCsr) i := by
  have hcsr := RiscvState.csr_of_counter_or_none hn hr i.state
  cases hcounter : i.state.csrCounter i.imm with
  | none =>
    rw [hcounter] at hcsr
    rw [csrBody, EStateM.run_bind, run_csrImm_error hcsr]
  | some v =>
    rw [hcounter] at hcsr
    rw [run_csrBody_read hrd hcsr]
    cases writes with
    | false => rfl
    | true =>
      have hset : (setCsrImm (f v)).run (i.putRd (v.setWidth 32)) =
          .error (.sim (RiscvState.csrRefusal i.imm)) (i.putRd (v.setWidth 32)) :=
        run_setCsrImm_error (RiscvState.setCsr_refused hn hr _ _)
      simp only [if_true, EStateM.run_bind, hvalue v hcsr, hset]

theorem run_csrBody_reg {writes : Bool} {value : StepM U64} {f : U64 → U64}
    (hrd : i.rd.toNat < 32) (hvalue : Gives value i f) {r : Creg}
    (hr : RiscvState.csrReg i.imm = some r) : (csrBody writes value).run i =
      .ok () (if writes then { i with state :=
          (i.putRd ((i.state.read r).setWidth 32)).state.write r (f (i.state.read r)) }
        else i.putRd ((i.state.read r).setWidth 32)) := by
  have hcsr := RiscvState.csr_eq_read hr i.state
  rw [run_csrBody_read hrd hcsr]
  cases writes with
  | false => rfl
  | true =>
    have hset := run_setCsrImm (i := i.putRd ((i.state.read r).setWidth 32))
      (RiscvState.setCsr_of_reg hr _ (f (i.state.read r)))
    simp only [if_true, EStateM.run_bind, hvalue _ hcsr, hset]
    rfl

/-- An illegal instruction traps. -/
theorem execute_of_illegal {i₁ : RiscvInstruction} {e : SimExceptions}
    (h : (step i.decode.iclass).run i.decode = .error (.sim e) i₁)
    (he : e = .illegalInstructionUnknownCsr ∨ e = .illegalInstructionPrivilegedCsr) :
    execute.run i = .ok () { i₁ with state := i₁.state.trapState e 0 } := by
  rw [execute_of_sim h]
  exact run_exception_of_ok (i₁.state.illegal_eq (by tauto) _)

/-- Executing a CSR instruction. -/
theorem execute_csr (hc : i.iclass.isCsr) : ∃ i', execute.run i = .ok () i' ∧
    i'.state = i.state.csrResult i.decode.imm i.decode.rd (i.nextPc.setWidth 64)
      (i.iclass.writesCsr i.decode.rs1) i.decode.csrValue ∧
    i'.memory = i.memory ∧ i'.mOpsMemory = i.mOpsMemory := by
  have hf : i.iclass.format = .i := by
    cases hi : i.iclass <;> rw [hi] at hc <;> first | rfl | exact absurd hc (by decide)
  have hfields : i.decode.rs1.toNat < 32 ∧ i.decode.rd.toNat < 32 ∧ i.decode.imm ≤ 0xfff := by
    simp only [RiscvInstruction.decode, hf]
    refine ⟨field_toNat_lt _ _, field_toNat_lt _ _, ?_⟩
    rw [field, BitVec.le_def, BitVec.toNat_and]
    exact Nat.and_le_right
  obtain ⟨hrs1, hrd, hn⟩ := hfields
  obtain ⟨value, hstep, hvalue⟩ := step_csr (i := i.decode) (by simpa using hc) hrs1 hrd
  rw [i.decode_iclass] at hstep
  cases hr : RiscvState.csrReg i.decode.imm with
  | some r =>
    rw [run_csrBody_reg hrd hvalue hr] at hstep
    refine ⟨_, execute_of_ok (by rw [i.decode_iclass]; exact hstep), ?_⟩
    cases hw : i.iclass.writesCsr i.decode.rs1 <;>
      simp [RiscvState.csrResult, hr, RiscvInstruction.putRd, RiscvState.write]
  | none =>
    have hbody := @run_csrBody_none _ (i.iclass.writesCsr i.decode.rs1) _ _ hrd hn hvalue hr
    rw [i.decode_state] at hbody
    cases hcounter : i.state.csrCounter i.decode.imm with
    | none =>
      rw [hcounter] at hbody
      have htrap := execute_of_illegal (by rw [i.decode_iclass, hstep, hbody]) (by simp)
      refine ⟨_, htrap, ?_⟩
      simp [RiscvState.csrResult, hr, hcounter]
    | some v =>
      rw [hcounter] at hbody
      cases hw : i.iclass.writesCsr i.decode.rs1 with
      | false =>
        rw [hw] at hbody hstep
        refine ⟨_, execute_of_ok (by rw [i.decode_iclass, hstep, hbody]; rfl), ?_⟩
        simp [RiscvState.csrResult, hr, hcounter, RiscvInstruction.putRd]
      | true =>
        rw [hw] at hbody hstep
        have htrap := execute_of_illegal (by rw [i.decode_iclass, hstep, hbody]; rfl)
          (RiscvState.csrRefusal_cases i.decode.imm)
        refine ⟨_, htrap, ?_⟩
        simp [RiscvState.csrResult, hr, hcounter, RiscvInstruction.putRd]

end Step

end Dimebox
