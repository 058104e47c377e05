import Dimebox.ExecuteLaws

/-! Jumps and branches.

    Every jump computes a 64-bit target and gives it to `SetPC`, with its own size as the alignment;
    JAL, JALR and C.JAL set `rd` to the address after the jump. A branch that is not taken is a jump
    to the next instruction. -/

namespace Dimebox

/-- The target a jump gives to `SetPC`. -/
def RiscvInstruction.jumpTarget (i : RiscvInstruction) : U64 :=
  let pc : U64 := (i.state.pc.setWidth 32 : U32).setWidth 64
  let branch := fun taken : Bool => pc + if taken then i.immVal 13 else 4
  match i.iclass with
  | .jal => pc + i.immVal 20
  | .jalr => (i.rs1Val.setWidth 64 + i.immVal 12) &&& 0xfffffffe
  | .beq => branch (i.rs1Val = i.rs2Val)
  | .bne => branch (i.rs1Val ≠ i.rs2Val)
  | .blt => branch (i.rs1Val.slt i.rs2Val)
  | .bltu => branch (i.rs1Val.ult i.rs2Val)
  | .bge => branch (!i.rs1Val.slt i.rs2Val)
  | .bgeu => branch (!i.rs1Val.ult i.rs2Val)
  | .cBeqz => pc + if i.rs1Val = 0 then i.immVal 8 else 2
  | _ => pc + i.immVal 11

/-- The jumps that set `rd`. -/
def Iclass.links : Iclass → Bool
  | .jal | .jalr | .cJal => true
  | _ => false

namespace Step

variable {i i₁ : RiscvInstruction} {e : SimExceptions}

/-- The mask `SetPC` tests a target with. -/
def alignmentMask (s : RiscvState) (alignment : U64) : U64 :=
  if s.compressedExtensionEnabled then 1 else alignment - 1

theorem run_setPc (target alignment : U64) (i : RiscvInstruction) :
    (setPc target alignment).run i = if target &&& alignmentMask i.state alignment ≠ 0
      then .error (.sim .instructionAddressMisaligned)
        { i with state := i.state.write .mtval target }
      else .ok () { i with nextPc := target.setWidth 32 } := by
  rw [setPc, EStateM.run_bind, EStateM.run_get, alignmentMask]
  simp only
  generalize (if i.state.compressedExtensionEnabled then (1 : U64) else alignment - 1) = mask
  split <;> rfl

theorem run_branch (h₁ : i.rs1.toNat < 32) (h₂ : i.rs2.toNat < 32) (cond : U32 → U32 → Bool) :
    (branch cond).run i = (setPc ((i.state.pc.setWidth 32 : U32).setWidth 64 +
      if cond i.rs1Val i.rs2Val then i.immVal 13 else 4) 4).run i := by
  simp only [branch, EStateM.run_bind, run_rs1 h₁, run_rs2 h₂]
  split <;> rfl

/-- What a jump does. -/
def jump (i : RiscvInstruction) : StepM Unit :=
  let go := setPc i.jumpTarget (i.iclass.instrSize.setWidth 64)
  if i.iclass.links then do
    go
    setRd ((← pc) + i.iclass.instrSize)
  else go

/-- A register number of three bits of which `rvc2reg` gets two. -/
theorem rvc2reg_toNat_lt (e : U32) (shift : Nat) :
    (RiscvInstruction.rvc2reg (field e shift 0x3)).toNat < 32 := by
  have hlt : (field e shift 0x3).toNat ≤ 3 := by
    rw [field, BitVec.toNat_and]
    exact Nat.and_le_right
  rw [RiscvInstruction.rvc2reg, BitVec.toNat_add]
  have h8 : (8 : U32).toNat = 8 := rfl
  omega

/-- The register numbers of a jump. -/
theorem decode_jump_regs (i : RiscvInstruction) :
    (i.iclass.format = .i ∨ i.iclass.format = .b ∨ i.iclass.format = .cb → i.decode.rs1.toNat < 32) ∧
      (i.iclass.format = .b → i.decode.rs2.toNat < 32) := by
  refine ⟨?_, fun hf => ?_⟩
  · rintro (hf | hf | hf) <;> simp only [RiscvInstruction.decode, hf]
    · exact field_toNat_lt _ _
    · exact field_toNat_lt _ _
    · exact rvc2reg_toNat_lt _ _
  · simp only [RiscvInstruction.decode, hf]
    exact field_toNat_lt _ _

/-- Every jump. -/
theorem step_jump (hc : i.iclass.isJump) :
    (step i.iclass).run i.decode = (jump i.decode).run i.decode := by
  obtain ⟨h₁, h₂⟩ := decode_jump_regs i
  have hclass := i.decode_iclass
  generalize i.decode = j at h₁ h₂ hclass ⊢
  generalize i.iclass = c at hc h₁ h₂ hclass ⊢
  subst hclass
  cases hj : j.iclass <;> rw [hj] at hc h₁ h₂ <;> simp only [Iclass.isJump, Bool.false_eq_true] at hc
  case jal | cJ | cJal =>
    simp only [step, jump, RiscvInstruction.jumpTarget, hj, Iclass.instrSize, Iclass.format,
      BitVec.reduceSetWidth, BitVec.ofNat_eq_ofNat, EStateM.run_bind, run_pc,
      run_signExtendImm, Iclass.links, Bool.false_eq_true, if_true, if_false]
  case jalr =>
    simp only [step, jump, RiscvInstruction.jumpTarget, hj, Iclass.instrSize, Iclass.format,
      BitVec.reduceSetWidth, BitVec.ofNat_eq_ofNat, EStateM.run_bind,
      run_rs1 (h₁ (.inl rfl)), run_signExtendImm, Iclass.links, if_true]
  case cBeqz =>
    simp only [step, jump, RiscvInstruction.jumpTarget, hj, Iclass.instrSize, Iclass.format,
      BitVec.reduceSetWidth, BitVec.ofNat_eq_ofNat, EStateM.run_bind,
      run_rs1 (h₁ (.inr (.inr rfl))), Iclass.links, Bool.false_eq_true, if_false]
    split <;> simp only [EStateM.run_bind, run_signExtendImm, EStateM.run_pure, run_pc]
  all_goals
    simp only [step, jump, RiscvInstruction.jumpTarget, hj, Iclass.instrSize, Iclass.format,
      BitVec.reduceSetWidth, BitVec.ofNat_eq_ofNat,
      run_branch (h₁ (.inr (.inl rfl))) (h₂ rfl), Iclass.links, Bool.false_eq_true, if_false]

/-- The state of a jump with `rd` set, or as it was. -/
def Linked (i : RiscvInstruction) (s : RiscvState) : Prop :=
  s = i.state ∨ ∃ v : U32, i.state.setGp i.rd (v.setWidth 64) = .ok s

theorem setRd_cases (v : U32) (i : RiscvInstruction) :
    (∃ s, Linked i s ∧ (setRd v).run i = .ok () { i with state := s }) ∨
      (setRd v).run i = .error .undefined i := by
  rw [setRd, EStateM.run_bind, EStateM.run_get]
  simp only [EStateM.run_bind]
  cases hs : i.state.setGp i.rd (v.setWidth 64) with
  | ok s => exact .inl ⟨s, .inr ⟨v, hs⟩, rfl⟩
  | error f =>
    unfold RiscvState.setGp at hs
    split at hs
    · cases hs
    · split at hs
      · cases hs
      · cases hs; exact .inr rfl

/-- A jump with an aligned target sets the next PC, and perhaps `rd`. -/
theorem run_jump_aligned
    (h : i.jumpTarget &&& alignmentMask i.state (i.iclass.instrSize.setWidth 64) = 0) :
    (∃ s, Linked i s ∧
      (jump i).run i = .ok () { i with nextPc := i.jumpTarget.setWidth 32, state := s }) ∨
      (jump i).run i = .error .undefined { i with nextPc := i.jumpTarget.setWidth 32 } := by
  have hset := run_setPc i.jumpTarget (i.iclass.instrSize.setWidth 64) i
  rw [if_neg (not_not_intro h)] at hset
  rw [jump]
  split
  · rw [EStateM.run_bind, hset]
    dsimp only
    rw [EStateM.run_bind, run_pc]
    dsimp only
    rcases setRd_cases (i.state.pc.setWidth 32 + i.iclass.instrSize)
      { i with nextPc := i.jumpTarget.setWidth 32 } with ⟨s, hs, hrun⟩ | hrun
    · exact .inl ⟨s, hs, hrun⟩
    · exact .inr hrun
  · exact .inl ⟨i.state, .inl rfl, hset⟩

/-- A jump with a misaligned target traps, and MTVAL holds the target then. -/
theorem run_jump_misaligned
    (h : i.jumpTarget &&& alignmentMask i.state (i.iclass.instrSize.setWidth 64) ≠ 0) :
    (jump i).run i = .error (.sim .instructionAddressMisaligned)
      { i with state := i.state.write .mtval i.jumpTarget } := by
  have hset := run_setPc i.jumpTarget (i.iclass.instrSize.setWidth 64) i
  rw [if_pos h] at hset
  rw [jump]
  split
  · rw [EStateM.run_bind, hset]
  · exact hset

/-- A jump that goes through. -/
theorem jump_ok (hc : i.iclass.isJump) (h : (step i.iclass).run i.decode = .ok () i₁) :
    i.decode.jumpTarget &&& alignmentMask i.state (i.iclass.instrSize.setWidth 64) = 0 ∧
      ∃ s, Linked i.decode s ∧
        i₁ = { i.decode with nextPc := i.decode.jumpTarget.setWidth 32, state := s } := by
  rw [← i.decode_state, ← i.decode_iclass]
  rw [step_jump hc] at h
  by_cases haligned : i.decode.jumpTarget &&& alignmentMask i.decode.state
      (i.decode.iclass.instrSize.setWidth 64) = 0
  · rcases run_jump_aligned haligned with ⟨s, hs, hrun⟩ | hrun <;> rw [h] at hrun
    · exact ⟨haligned, s, hs, (EStateM.Result.ok.inj hrun).2⟩
    · cases hrun
  · rw [run_jump_misaligned haligned] at h
    cases h

/-- A jump that traps. -/
theorem jump_raises (hc : i.iclass.isJump)
    (h : (step i.iclass).run i.decode = .error (.sim e) i₁) :
    i.decode.jumpTarget &&& alignmentMask i.state (i.iclass.instrSize.setWidth 64) ≠ 0 ∧
      i₁ = { i.decode with state := i.decode.state.write .mtval i.decode.jumpTarget } := by
  rw [← i.decode_state, ← i.decode_iclass]
  rw [step_jump hc] at h
  by_cases haligned : i.decode.jumpTarget &&& alignmentMask i.decode.state
      (i.decode.iclass.instrSize.setWidth 64) = 0
  · rcases run_jump_aligned haligned with ⟨s, -, hrun⟩ | hrun <;> rw [h] at hrun <;> cases hrun
  · rw [run_jump_misaligned haligned] at h
    exact ⟨haligned, (EStateM.Result.error.inj h).2.symm⟩

end Step

end Dimebox
