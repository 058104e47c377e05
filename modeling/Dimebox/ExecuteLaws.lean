import Dimebox.StepThrows

/-! How `Execute` can end.

    An instruction that returns advances the PC. One that throws traps, or it is an MRET or a WFI:
    nothing else throws the two pseudo traps. The state a trap is taken on is the one the instruction
    started with, up to MTVAL and, for a CSR instruction that is refused, `rd`. -/

namespace Dimebox

open Step (Raises)

namespace RiscvState

/-- The state after WFI. -/
def slept (s : RiscvState) : RiscvState :=
  { s with
    machineState := s.machineState ||| 0x10
    reg := Function.update (Function.update (Function.update s.reg .mcause 0) .mtval 0) .mepc
      (s.pc + 4) }

theorem wfi_eq (s : RiscvState) (opcode : U32) :
    s.processException .processWfi opcode = .ok s.slept := by
  simp only [processException, setMcause, setMtval, setMepc, setLowPowerMode, write, legal, slept]
  rfl

/-- A trap of an instruction; a misaligned jump keeps the MTVAL it set. -/
theorem processException_isSync (s : RiscvState) {e : SimExceptions} (he : e.isSync)
    (opcode : U32) : ∃ mtval, s.processException e opcode = .ok (s.trapState e mtval) ∧
      (mtval = 0 ∨ e = .instructionAddressMisaligned ∧ mtval = s.reg .mtval) := by
  cases e <;> simp only [SimExceptions.isSync, Bool.false_eq_true] at he
  case envCallUmode | envCallMmode => exact ⟨0, s.ecall_eq (by simp) opcode, .inl rfl⟩
  case instructionAddressMisaligned =>
    exact ⟨s.reg .mtval, s.misaligned_eq opcode, .inr ⟨rfl, rfl⟩⟩
  all_goals exact ⟨0, s.illegal_eq (by simp) opcode, .inl rfl⟩

section TrapState

variable (s : RiscvState) (e : SimExceptions) (mtval : U64)

@[simp] theorem pc_trapState : (s.trapState e mtval).pc = s.mtvec := rfl
@[simp] theorem x_trapState : (s.trapState e mtval).x = s.x := rfl

theorem reg_trapState : (s.trapState e mtval).reg = s.trapRegs s.mip (causeOf e) mtval := rfl

@[simp] theorem reg_trapState_mepc : (s.trapState e mtval).reg .mepc = s.pc := by
  simp [reg_trapState, trapRegs]

@[simp] theorem reg_trapState_mtval : (s.trapState e mtval).reg .mtval = mtval := by
  simp [reg_trapState, trapRegs]

@[simp] theorem reg_trapState_mcause : (s.trapState e mtval).reg .mcause = causeOf e := by
  simp [reg_trapState, trapRegs]

@[simp] theorem reg_trapState_mstatus : (s.trapState e mtval).reg .mstatus
    = pushed (s.reg .mstatus) s.currentPrivilegeLevel := by
  simp [reg_trapState, trapRegs]

/-- The other control registers. -/
theorem reg_trapState_other {r : Creg} (h₁ : r ≠ .mepc) (h₂ : r ≠ .mtval) (h₃ : r ≠ .mcause)
    (h₄ : r ≠ .mstatus) : (s.trapState e mtval).reg r = s.reg r := by
  rw [reg_trapState, trapRegs_mip]
  simp [h₁, h₂, h₃, h₄]

@[simp] theorem level_trapState : (s.trapState e mtval).currentPrivilegeLevel = 3 :=
  setPrivilegeLevel_level s 3

end TrapState

end RiscvState

/-- What the state of an instruction that traps has in common with the one it started with. -/
structure TrapBase (s s₁ : RiscvState) : Prop where
  pc : s₁.pc = s.pc
  machineState : s₁.machineState = s.machineState
  reg : ∀ r ≠ .mtval, s₁.reg r = s.reg r

namespace Step

variable {c : Iclass} {i i₁ i' : RiscvInstruction} {e : SimExceptions}

theorem putRd_base (i : RiscvInstruction) (v : U32) : TrapBase i.state (i.putRd v).state := by
  rw [RiscvInstruction.putRd, RiscvState.setReg]
  split
  · exact ⟨rfl, rfl, fun _ _ => rfl⟩
  · exact ⟨rfl, rfl, fun _ _ => rfl⟩

theorem Raises.base (h : Raises c i e i₁) (he : e.isSync) : TrapBase i.state i₁.state := by
  cases h with
  | sync | mret | wfi => exact ⟨rfl, rfl, fun _ _ => rfl⟩
  | misaligned target => exact ⟨rfl, rfl, fun r hr => Function.update_of_ne hr _ _⟩
  | load => cases he
  | refused => exact putRd_base i _

/-- The ways `Execute` returns. -/
inductive Outcome (i : RiscvInstruction) : RiscvInstruction → Prop where
  /-- the body returned -/
  | advanced {i₁ : RiscvInstruction} (run : (step i.iclass).run i.decode = .ok () i₁) :
      Outcome i { i₁ with state := i₁.state.setPc (i₁.nextPc.setWidth 64) }
  /-- the body threw, and the trap was taken -/
  | trapped {e : SimExceptions} {i₁ : RiscvInstruction} {mtval : U64}
      (run : (step i.iclass).run i.decode = .error (.sim e) i₁)
      (raises : Raises i.iclass i.decode e i₁) (sync : e.isSync)
      (taken : i₁.state.processException e i₁.encoding = .ok (i₁.state.trapState e mtval))
      (value : mtval = 0 ∨ e = .instructionAddressMisaligned ∧ mtval = i₁.state.reg .mtval) :
      Outcome i { i₁ with state := i₁.state.trapState e mtval }
  | returned (hc : i.iclass = .mret) (level : i.state.currentPrivilegeLevel = 3) :
      Outcome i { i.decode with state := i.state.returned }
  | slept (hc : i.iclass = .wfi) (level : i.state.currentPrivilegeLevel ≠ 0) :
      Outcome i { i.decode with state := i.state.slept }

theorem execute_outcome (h : execute.run i = .ok () i') : Outcome i i' := by
  rcases execute_ok h with ⟨i₁, hrun, rfl⟩ | ⟨e, i₁, s, hrun, hs, rfl⟩
  · rw [RiscvInstruction.decode_iclass] at hrun
    exact .advanced hrun
  · rw [RiscvInstruction.decode_iclass] at hrun
    have hraises := raises_of_step i.iclass i.decode e i₁ hrun
    have hsync : e.isSync → Outcome i { i₁ with state := s } := by
      intro he
      obtain ⟨mtval, hs', hv⟩ := i₁.state.processException_isSync he i₁.encoding
      obtain rfl : s = i₁.state.trapState e mtval := Except.ok.inj (hs.symm.trans hs')
      exact .trapped hrun hraises he hs' hv
    cases hraises with
    | sync trap | refused trap => exact hsync trap
    | misaligned => exact hsync rfl
    | mret hc level =>
      rw [RiscvState.mret_eq, RiscvInstruction.decode_state] at hs
      rw [← Except.ok.inj hs]
      exact .returned hc (by simpa using level)
    | wfi hc level =>
      rw [RiscvState.wfi_eq, RiscvInstruction.decode_state] at hs
      rw [← Except.ok.inj hs]
      exact .slept hc (by simpa using level)
    | load => cases hs

/-- A trap finds the PC, the mode and the control registers but MTVAL as the instruction did. -/
theorem raises_base (h : Raises i.iclass i.decode e i₁) (he : e.isSync) :
    TrapBase i.state i₁.state := by
  have hbase := h.base he
  rwa [RiscvInstruction.decode_state] at hbase

/-- No body touches the machine state. -/
theorem step_machineState (c : Iclass) (i : RiscvInstruction) :
    (Effect.final ((step c).run i)).state.machineState = i.state.machineState := by
  refine step_moves (R := fun i i' => i'.state.machineState = i.state.machineState)
    (fun _ => rfl) (fun h h' => h'.trans h) ?_ c i
  intro i i' hm
  cases hm with
  | setGp hs => rw [RiscvState.setGp_ok hs]
  | write | jump | read | mbuf | queue => rfl

end Step

end Dimebox
