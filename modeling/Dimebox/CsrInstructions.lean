import Dimebox.Jumps

/-! CSR instructions.

    Each reads its CSR into `rd` and then writes it, CSRRS, CSRRC and their immediate forms only if
    the field `rs1` is not zero. The immediate forms of set and clear add and subtract the
    immediate. -/

namespace Dimebox

/-- What a CSR instruction writes to a CSR that reads `v`. -/
def RiscvInstruction.csrValue (i : RiscvInstruction) (v : U64) : U64 :=
  match i.iclass with
  | .csrrw => i.rs1Val.setWidth 64
  | .csrrs => v ||| i.rs1Val.setWidth 64
  | .csrrc => v &&& (~~~i.rs1Val).setWidth 64
  | .csrrwi => i.rs1.setWidth 64
  | .csrrsi => v + i.rs1.setWidth 64
  | _ => v - i.rs1.setWidth 64

namespace Step

variable {i i₁ : RiscvInstruction}

/-- A CSR instruction that went through: `rd` holds what the CSR read, and the CSR was written, or
    was not to be written. -/
inductive CsrDone (i : RiscvInstruction) : RiscvInstruction → Prop where
  | read {v : U64} (csr : i.state.csr i.imm 3 = .ok v) (writes : i.iclass.writesCsr i.rs1 = false) :
      CsrDone i (i.putRd (v.setWidth 32))
  | written {r : Creg} (reg : RiscvState.csrReg i.imm = some r) (writes : i.iclass.writesCsr i.rs1) :
      CsrDone i { i with state :=
        (i.putRd ((i.state.read r).setWidth 32)).state.write r (i.csrValue (i.state.read r)) }

theorem csr_of_reg {s : RiscvState} {n level : U32} {r : Creg} {v : U64}
    (hr : RiscvState.csrReg n = some r) (h : s.csr n level = .ok v) : v = s.read r := by
  unfold RiscvState.csr at h
  cases hv : RiscvState.validateCsrAccess n level false with
  | error f => rw [hv] at h; cases h
  | ok u => rw [hv, hr] at h; exact (Except.ok.inj h).symm

theorem csrImm_ok {v : U64} (h : csrImm.run i = .ok v i₁) : i.state.csr i.imm 3 = .ok v ∧ i₁ = i := by
  rw [csrImm, EStateM.run_bind, EStateM.run_get] at h
  simp only at h
  cases hv : i.state.csr i.imm i.state.privilegeLevel with
  | error f => rw [hv] at h; cases h
  | ok w => rw [hv] at h; cases h; exact ⟨hv, rfl⟩

theorem run_csrImm {v : U64} (h : i.state.csr i.imm 3 = .ok v) : csrImm.run i = .ok v i := by
  have hcsr : i.state.csr i.imm i.state.privilegeLevel = .ok v := h
  rw [csrImm, EStateM.run_bind, EStateM.run_get]
  simp only [hcsr, Effect.run_lift_ok]

theorem run_csrImm_error {f : Fault} (h : i.state.csr i.imm 3 = .error f) :
    csrImm.run i = .error f i := by
  have hcsr : i.state.csr i.imm i.state.privilegeLevel = .error f := h
  rw [csrImm, EStateM.run_bind, EStateM.run_get]
  simp only [hcsr, Effect.run_lift_error]

/-- A value that is computed from what the CSR reads. -/
theorem run_value_of_csr {v : U64} (f : U64 → RiscvInstruction → U64)
    (hv : i.state.csr i.imm 3 = .ok v) (w : U32) :
    (do return f (← csrImm) (← get) : StepM U64).run (i.putRd w) =
      .ok (f v (i.putRd w)) (i.putRd w) := by
  have hcsr : (i.putRd w).state.csr (i.putRd w).imm (i.putRd w).state.privilegeLevel = .ok v :=
    (csr_putRd i w i.imm).trans hv
  simp only [csrImm, EStateM.run_bind, EStateM.run_get, hcsr, Effect.run_lift_ok, EStateM.run_pure]

/-! ### The six bodies -/

/-- The read of a CSR into `rd`, then, if the instruction writes, the write of a value computed from
    what was read. -/
def csrBody (writes : Bool) (value : StepM U64) : StepM Unit := do
  setRd ((← csrImm).setWidth 32)
  if writes then setCsrImm (← value)

/-- The value to write is `f` of what the CSR reads. -/
def Gives (value : StepM U64) (i : RiscvInstruction) (f : U64 → U64) : Prop :=
  ∀ v, i.state.csr i.imm 3 = .ok v →
    value.run (i.putRd (v.setWidth 32)) = .ok (f v) (i.putRd (v.setWidth 32))

theorem run_csrBody_read {writes : Bool} {value : StepM U64} {v : U64} (hrd : i.rd.toNat < 32)
    (h : i.state.csr i.imm 3 = .ok v) :
    (csrBody writes value).run i =
      (do if writes then setCsrImm (← value)).run (i.putRd (v.setWidth 32)) := by
  rw [csrBody, EStateM.run_bind, run_csrImm h]
  simp only [EStateM.run_bind, run_setRd hrd]

theorem run_csrModify {value : StepM U64} (hrd : i.rd.toNat < 32) :
    (csrModify value).run i = (csrBody (i.rs1 ≠ 0) value).run i := by
  cases h : i.state.csr i.imm 3 with
  | error f =>
    rw [csrModify, csrBody, EStateM.run_bind, EStateM.run_bind, run_csrImm_error h]
  | ok v =>
    have hrs1 : (i.putRd (v.setWidth 32)).rs1 = i.rs1 := rfl
    rw [run_csrBody_read hrd h, csrModify, EStateM.run_bind, run_csrImm h]
    simp only [EStateM.run_bind, run_setRd hrd, EStateM.run_get, hrs1, decide_eq_true_eq]

/-- Every CSR instruction is such a read and write. -/
theorem step_csr (hc : i.iclass.isCsr) (hrs1 : i.rs1.toNat < 32) (hrd : i.rd.toNat < 32) :
    ∃ value, (step i.iclass).run i = (csrBody (i.iclass.writesCsr i.rs1) value).run i ∧
      Gives value i i.csrValue := by
  cases hi : i.iclass <;> rw [hi] at hc <;> simp only [Iclass.isCsr, Bool.false_eq_true] at hc
  case csrrw =>
    refine ⟨pure (i.rs1Val.setWidth 64), ?_, fun v _ => by
      simp only [RiscvInstruction.csrValue, hi]; rfl⟩
    rw [step, EStateM.run_bind, run_rs1 hrs1]
    rfl
  case csrrs =>
    refine ⟨do return (← csrImm) ||| i.rs1Val.setWidth 64, ?_, fun v hv => ?_⟩
    · rw [step, EStateM.run_bind, run_rs1 hrs1]
      exact run_csrModify hrd
    · simp only [RiscvInstruction.csrValue, hi]
      exact run_value_of_csr (fun v _ => v ||| i.rs1Val.setWidth 64) hv _
  case csrrc =>
    refine ⟨do return (← csrImm) &&& (~~~i.rs1Val).setWidth 64, ?_, fun v hv => ?_⟩
    · rw [step, EStateM.run_bind, run_rs1 hrs1]
      exact run_csrModify hrd
    · simp only [RiscvInstruction.csrValue, hi]
      exact run_value_of_csr (fun v _ => v &&& (~~~i.rs1Val).setWidth 64) hv _
  case csrrwi =>
    exact ⟨do return (← get).rs1.setWidth 64, rfl, fun v _ => by
      simp only [RiscvInstruction.csrValue, hi]; rfl⟩
  case csrrsi =>
    refine ⟨do return (← csrImm) + (← get).rs1.setWidth 64, run_csrModify hrd, fun v hv => ?_⟩
    simp only [RiscvInstruction.csrValue, hi]
    exact run_value_of_csr (fun v i => v + i.rs1.setWidth 64) hv _
  case csrrci =>
    refine ⟨do return (← csrImm) - (← get).rs1.setWidth 64, run_csrModify hrd, fun v hv => ?_⟩
    simp only [RiscvInstruction.csrValue, hi]
    exact run_value_of_csr (fun v i => v - i.rs1.setWidth 64) hv _

theorem csrBody_done {value : StepM U64} (hrd : i.rd.toNat < 32) (hvalue : Gives value i i.csrValue)
    (h : (csrBody (i.iclass.writesCsr i.rs1) value).run i = .ok () i₁) : CsrDone i i₁ := by
  cases hv : i.state.csr i.imm 3 with
  | error f =>
    rw [csrBody, EStateM.run_bind, run_csrImm_error hv] at h
    cases h
  | ok v =>
    rw [run_csrBody_read hrd hv] at h
    cases hw : i.iclass.writesCsr i.rs1 with
    | false =>
      rw [hw] at h
      cases h
      exact .read hv hw
    | true =>
      rw [hw, if_pos rfl, EStateM.run_bind, hvalue v hv] at h
      simp only at h
      rw [setCsrImm, EStateM.run_bind, EStateM.run_get] at h
      obtain ⟨s, i₂, hs, h⟩ := Effect.ok_of_bind h
      cases hset : (i.putRd (v.setWidth 32)).state.setCsr (i.putRd (v.setWidth 32)).imm
          (i.putRd (v.setWidth 32)).state.privilegeLevel (i.csrValue v) with
      | error f => rw [hset] at hs; cases hs
      | ok s' =>
        rw [hset] at hs
        cases hs
        cases h
        obtain ⟨r, hr, rfl⟩ := setCsr_ok hset
        obtain rfl := csr_of_reg hr hv
        exact .written hr hw

/-- A CSR instruction that returns. -/
theorem csr_ok (hc : i.iclass.isCsr) (h : (step i.iclass).run i.decode = .ok () i₁) :
    CsrDone i.decode i₁ := by
  have hregs : i.decode.rs1.toNat < 32 ∧ i.decode.rd.toNat < 32 := by
    have hf : i.iclass.format = .i := by
      cases hi : i.iclass <;> rw [hi] at hc <;> first | rfl | exact absurd hc (by decide)
    simp only [RiscvInstruction.decode, hf]
    exact ⟨field_toNat_lt _ _, field_toNat_lt _ _⟩
  obtain ⟨hrs1, hrd⟩ := hregs
  have hclass := i.decode_iclass
  obtain ⟨value, hstep, hvalue⟩ := step_csr (i := i.decode) (by rwa [hclass]) hrs1 hrd
  rw [← hclass, hstep] at h
  exact csrBody_done hrd hvalue h

/-- A body that returns leaves the control registers alone, but for the one a CSR instruction
    writes. -/
theorem step_reg (h : (step i.iclass).run i.decode = .ok () i₁) :
    i₁.state.reg = i.state.reg ∨ ∃ r v, i.iclass.isCsr ∧ i.iclass.writesCsr i.decode.rs1 ∧
      RiscvState.csrReg i.decode.imm = some r ∧ i₁.state.reg = (i.state.write r v).reg := by
  have hclosed : Closed fun i i' : RiscvInstruction => i'.state.reg = i.state.reg :=
    { refl := fun _ => rfl, trans := fun h h' => h'.trans h
      setRd := fun hs => by rw [RiscvState.setGp_ok hs]
      read := fun _ _ _ _ _ => rfl, mbuf := fun _ _ => rfl, queue := fun _ _ _ => rfl }
  have hputRd : ∀ v, (i.decode.putRd v).state.reg = i.state.reg := by
    intro v
    rw [RiscvInstruction.putRd, RiscvState.setReg, i.decode_state]
    split <;> rfl
  rcases Iclass.cases_kind i.iclass with hc | hc | hc | hc
  · have hreg := hclosed.step hc i.decode
    rw [h, i.decode_state] at hreg
    exact .inl hreg
  · obtain ⟨-, s, hs, rfl⟩ := jump_ok hc h
    rw [← i.decode_state]
    rcases hs with rfl | ⟨v, hv⟩
    · exact .inl rfl
    · exact .inl (by rw [RiscvState.setGp_ok hv])
  · cases csr_ok hc h with
    | read => exact .inl (hputRd _)
    | @written r hr hw =>
      rw [i.decode_iclass] at hw
      refine .inr ⟨r, i.decode.csrValue (i.decode.state.read r), hc, hw, hr, ?_⟩
      have hpc : ∀ v, (i.decode.putRd v).state.pc = i.state.pc := by
        intro v
        rw [RiscvInstruction.putRd, RiscvState.setReg, i.decode_state]
        split <;> rfl
      simp only [RiscvState.write, hputRd, hpc]
  · have hreg := hclosed.addi16sp
      (fun v => moves_setSp hclosed.refl fun hs => by rw [RiscvState.setGp_ok hs]) i.decode
    rw [hc] at h
    rw [h, i.decode_state] at hreg
    exact .inl hreg

end Step

end Dimebox
