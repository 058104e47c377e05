import Dimebox.StepLaws

/-! Trap entry and MRET.

    A trap saves the privilege level in MSTATUS.MPP (bits 12..11), MIE (bit 3) in MPIE (bit 7) and
    the PC in MEPC; MRET restores all three. `PushPrivilegeLevel` clears bits 11, 10, 7 and 3 before
    it inserts the level, so an old bit 12 survives: a trap from user mode then finds MPP = 10,
    which `SetMSTATUS` replaces by the old MPP. -/

namespace Dimebox

/-- The traps and interrupts `ProcessException` takes. -/
def SimExceptions.isTrap : SimExceptions → Bool
  | .machineTimerInt | .machineExternalInt | .envCallUmode | .envCallMmode
  | .instructionAddressMisaligned | .illegalInstructionUnknownInstr
  | .illegalInstructionUnimplInstr | .illegalInstructionPrivilegedInstr
  | .illegalInstructionUnknownCsr | .illegalInstructionPrivilegedCsr => true
  | _ => false

namespace RiscvState

/-! ### Bits of MSTATUS -/

/-- Bits 12 and 11 of a value. -/
theorem and_mpp_eq (v : U64) (b₁₂ b₁₁ : Bool) :
    v &&& 0x1800 = (if b₁₂ then 0x1000 else 0) ||| (if b₁₁ then 0x800 else 0) ↔
      v.getLsbD 12 = b₁₂ ∧ v.getLsbD 11 = b₁₁ := by
  have hmask : ∀ j : Fin 64, (0x1800 : U64).getLsbD j = decide ((j : Nat) = 12 ∨ (j : Nat) = 11) := by
    decide
  have h12 : ∀ j : Fin 64, (0x1000 : U64).getLsbD j = decide ((j : Nat) = 12) := by decide
  have h11 : ∀ j : Fin 64, (0x800 : U64).getLsbD j = decide ((j : Nat) = 11) := by decide
  constructor
  · intro h
    have hb₁₂ := congrArg (·.getLsbD 12) h
    have hb₁₁ := congrArg (·.getLsbD 11) h
    clear h
    cases b₁₂ <;> cases b₁₁ <;> exact ⟨by simpa using hb₁₂, by simpa using hb₁₁⟩
  · rintro ⟨h₁₂, h₁₁⟩
    apply BitVec.eq_of_getLsbD_eq
    intro j hj
    rw [BitVec.getLsbD_and, hmask ⟨j, hj⟩, BitVec.getLsbD_or]
    by_cases e₁₂ : j = 12
    · subst e₁₂; cases b₁₂ <;> cases b₁₁ <;> simp_all
    · by_cases e₁₁ : j = 11
      · subst e₁₁; cases b₁₂ <;> cases b₁₁ <;> simp_all
      · have hc₁₂ := h12 ⟨j, hj⟩
        have hc₁₁ := h11 ⟨j, hj⟩
        cases b₁₂ <;> cases b₁₁ <;> simp_all

/-- MPP 01 or 10 is what `SetMSTATUS` refuses. -/
theorem mpp_illegal_iff (v : U64) :
    (v &&& 0x1800 = 0x800 ∨ v &&& 0x1800 = 0x1000) ↔ v.getLsbD 12 ≠ v.getLsbD 11 := by
  have h01 := and_mpp_eq v false true
  have h10 := and_mpp_eq v true false
  simp only [Bool.false_eq_true, if_false, if_true] at h01 h10
  have e01 : (0 : U64) ||| 0x800 = 0x800 := by decide
  have e10 : (0x1000 : U64) ||| 0 = 0x1000 := by decide
  rw [e01] at h01
  rw [e10] at h10
  rw [h01, h10]
  cases v.getLsbD 12 <;> cases v.getLsbD 11 <;> simp

/-- MIE and MPIE pass the filter of `SetMSTATUS`. -/
theorem getLsbD_legalMstatus {j : Nat} (hj : j = 3 ∨ j = 7) (old v : U64) :
    (legalMstatus old v).getLsbD j = v.getLsbD j := by
  rw [legalMstatus]
  rcases hj with rfl | rfl <;> split <;> simp

/-- MPP is kept if it is 00 or 11, else the old one stays. -/
theorem getLsbD_legalMstatus_mpp {j : Nat} (hj : j = 11 ∨ j = 12) (old v : U64) :
    (legalMstatus old v).getLsbD j =
      if v.getLsbD 12 = v.getLsbD 11 then v.getLsbD j else (shown .mstatus old).getLsbD j := by
  rw [legalMstatus]
  simp only [mpp_illegal_iff]
  have h12 : (v &&& 0x7fa21e9d).getLsbD 12 = v.getLsbD 12 := by simp
  have h11 : (v &&& 0x7fa21e9d).getLsbD 11 = v.getLsbD 11 := by simp
  rw [h12, h11]
  by_cases heq : v.getLsbD 12 = v.getLsbD 11
  · rw [if_neg (not_not_intro heq), if_pos heq]
    rcases hj with rfl | rfl <;> simp
  · rw [if_pos heq, if_neg heq]
    rcases hj with rfl | rfl <;> simp

/-- The getter shows the bits a trap uses. -/
theorem getLsbD_shown_mstatus {j : Nat} (hj : j = 3 ∨ j = 7 ∨ j = 11 ∨ j = 12) (v : U64) :
    (shown .mstatus v).getLsbD j = v.getLsbD j := by
  rcases hj with rfl | rfl | rfl | rfl <;> simp [shown]

/-! ### Trap entry -/

theorem setPrivilegeLevel_level (s : RiscvState) (level : U32) :
    (s.setPrivilegeLevel level).currentPrivilegeLevel = level &&& 3 := by
  rw [currentPrivilegeLevel, setPrivilegeLevel]
  apply BitVec.eq_of_getLsbD_eq
  intro j hj
  simp only [BitVec.getLsbD_and, BitVec.getLsbD_or, BitVec.getLsbD_not, hj, decide_true,
    Bool.true_and]
  cases s.machineState.getLsbD j <;> cases (3 : U32).getLsbD j <;> cases level.getLsbD j <;> rfl

/-- What `PushPrivilegeLevel` stores in MSTATUS. -/
def pushed (stored : U64) (level : U32) : U64 :=
  let mstatus : U32 := (shown .mstatus stored).setWidth 32
  let mie := (mstatus >>> 3) &&& 1
  legalMstatus stored (((mstatus &&& ~~~(0xc88 : U32)) ||| (level <<< 11) ||| (mie <<< 7)).setWidth 64)

theorem pushPrivilegeLevel_eq (s : RiscvState) :
    s.pushPrivilegeLevel = { s with
      machineState := (s.machineState &&& ~~~3) ||| 3
      reg := Function.update s.reg .mstatus
        (pushed (s.reg .mstatus) s.currentPrivilegeLevel) } := rfl

/-- The control registers after a trap. -/
def trapRegs (s : RiscvState) (mip mcause mtval : U64) : Creg → U64 :=
  let f := Function.update s.reg .mip mip
  let f := Function.update f .mstatus (pushed (s.reg .mstatus) s.currentPrivilegeLevel)
  let f := Function.update f .mcause mcause
  let f := Function.update f .mtval mtval
  Function.update f .mepc s.pc

/-- The cause `ProcessException` records for a trap. -/
def causeOf (e : SimExceptions) : U64 := (e.code &&& 0xf).setWidth 64

theorem level_clearLowPowerMode (s : RiscvState) :
    s.clearLowPowerMode.currentPrivilegeLevel = s.currentPrivilegeLevel := by
  rw [currentPrivilegeLevel, clearLowPowerMode]
  apply BitVec.eq_of_getLsbD_eq
  intro j hj
  have hbit : ∀ k : Fin 32, ((~~~(0x10 : U32)).getLsbD k && (3 : U32).getLsbD k)
      = (3 : U32).getLsbD k := by decide
  rw [BitVec.getLsbD_and, BitVec.getLsbD_and, Bool.and_assoc, hbit ⟨j, hj⟩,
    currentPrivilegeLevel, BitVec.getLsbD_and]

/-- An interrupt, in closed form: the pending bit is cleared and low power mode left. -/
theorem takeInterrupt_eq (s : RiscvState) (e : SimExceptions) (bit : Nat) :
    s.takeInterrupt e bit = { s with
      pc := s.mtvec + (((((e.code &&& 0xf) ||| 0x80000000).setWidth 64) &&& 0xfffffff) * 4)
      machineState := ((s.machineState &&& ~~~0x10) &&& ~~~3) ||| 3
      reg := s.trapRegs (s.mip &&& ~~~(1#64 <<< bit))
        (((e.code &&& 0xf) ||| 0x80000000).setWidth 64) 0 } := by
  have hlevel : s.machineState &&& ~~~0x10 &&& 3 = s.machineState &&& 3 := level_clearLowPowerMode s
  simp only [takeInterrupt, pushPrivilegeLevel_eq, setMip, setMcause, setMtval, setMepc, setPc,
    write, legal, mip, mtvec, mcause, read, shown, trapRegs, clearLowPowerMode,
    currentPrivilegeLevel, hlevel, Function.update_apply, reduceCtorEq, if_true, if_false]

/-- The vector of an interrupt. -/
theorem pc_takeInterrupt (s : RiscvState) {e : SimExceptions} (bit : Nat)
    (he : e = .machineExternalInt ∨ e = .machineTimerInt) :
    (s.takeInterrupt e bit).pc = s.mtvec + causeOf e * 4 := by
  rw [takeInterrupt_eq]
  rcases he with rfl | rfl <;> rfl

/-- A synchronous trap, as `ProcessException` leaves it. -/
def trapState (s : RiscvState) (e : SimExceptions) (mtval : U64) : RiscvState :=
  { s with
    pc := s.mtvec
    machineState := (s.machineState &&& ~~~3) ||| 3
    reg := s.trapRegs s.mip (causeOf e) mtval }

theorem trapRegs_mip (s : RiscvState) (mcause mtval : U64) :
    s.trapRegs s.mip mcause mtval = Function.update (Function.update (Function.update
      (Function.update s.reg .mstatus (pushed (s.reg .mstatus) s.currentPrivilegeLevel))
      .mcause mcause) .mtval mtval) .mepc s.pc := by
  have hmip : Function.update s.reg .mip s.mip = s.reg := Function.update_eq_self _ _
  rw [trapRegs, hmip]

/-- ECALL. -/
theorem ecall_eq (s : RiscvState) {e : SimExceptions} (he : e = .envCallUmode ∨ e = .envCallMmode)
    (opcode : U32) : s.processException e opcode = .ok (s.trapState e 0) := by
  rw [trapState, trapRegs_mip]
  rcases he with rfl | rfl <;>
  simp only [processException, pushPrivilegeLevel_eq, setMcause, setMtval, setMepc, setPc, write,
    legal, mtvec, read, shown, causeOf, Function.update_apply, reduceCtorEq, if_false]

/-- A misaligned jump target; MTVAL was set when it was detected. -/
theorem misaligned_eq (s : RiscvState) (opcode : U32) :
    s.processException .instructionAddressMisaligned opcode
      = .ok (s.trapState .instructionAddressMisaligned (s.reg .mtval)) := by
  have hmtval : ∀ f : Creg → U64, f .mtval = s.reg .mtval →
      Function.update f .mtval (s.reg .mtval) = f := by
    intro f hf
    rw [← hf, Function.update_eq_self]
  simp only [processException, pushPrivilegeLevel_eq, setMcause, setMepc, setPc, write, legal,
    mtvec, read, shown, currentPrivilegeLevel, Function.update_apply, reduceCtorEq, if_false]
  rw [trapState, trapRegs_mip, hmtval _ (by simp),
    Function.update_comm (by decide : Creg.mcause ≠ Creg.mstatus)]
  rfl

/-- The illegal instruction causes. -/
theorem illegal_eq (s : RiscvState) {e : SimExceptions}
    (he : e = .illegalInstructionUnknownInstr ∨ e = .illegalInstructionUnimplInstr ∨
      e = .illegalInstructionPrivilegedInstr ∨ e = .illegalInstructionUnknownCsr ∨
      e = .illegalInstructionPrivilegedCsr) (opcode : U32) :
    s.processException e opcode = .ok (s.trapState e 0) := by
  rw [trapState, trapRegs_mip]
  rcases he with rfl | rfl | rfl | rfl | rfl <;>
  · simp only [processException, pushPrivilegeLevel_eq, setMcause, setMtval, setMepc, setPc, write,
      legal, mtvec, read, shown, currentPrivilegeLevel, Function.update_apply, reduceCtorEq,
      if_false]
    rw [Function.update_comm (by decide : Creg.mtval ≠ Creg.mstatus),
      Function.update_comm (by decide : Creg.mcause ≠ Creg.mstatus)]
    rfl

/-- What a trap leaves behind that MRET uses. -/
structure Trapped (s s₁ : RiscvState) : Prop where
  mepc : s₁.reg .mepc = s.pc
  misa : s₁.reg .misa = s.reg .misa
  mstatus : s₁.reg .mstatus = pushed (s.reg .mstatus) s.currentPrivilegeLevel
  level : s₁.currentPrivilegeLevel = 3

theorem trapped_of_regs {s s₁ : RiscvState} {mip mcause mtval : U64} (base : U32)
    (hreg : s₁.reg = s.trapRegs mip mcause mtval) (hms : s₁.machineState = (base &&& ~~~3) ||| 3) :
    Trapped s s₁ := by
  refine ⟨?_, ?_, ?_, ?_⟩
  · rw [hreg]; simp [trapRegs]
  · rw [hreg]; simp [trapRegs]
  · rw [hreg]; simp [trapRegs]
  · rw [currentPrivilegeLevel, hms]
    exact setPrivilegeLevel_level { machineState := base } 3

theorem processException_isTrap (s : RiscvState) {e : SimExceptions} (he : e.isTrap)
    (opcode : U32) : ∃ s₁, s.processException e opcode = .ok s₁ ∧ Trapped s s₁ := by
  cases e <;> simp only [SimExceptions.isTrap, Bool.false_eq_true] at he
  case machineTimerInt | machineExternalInt =>
    refine ⟨_, rfl, ?_⟩
    rw [takeInterrupt_eq]
    exact trapped_of_regs _ rfl rfl
  case envCallUmode => exact ⟨_, s.ecall_eq (by simp) opcode, trapped_of_regs _ rfl rfl⟩
  case envCallMmode => exact ⟨_, s.ecall_eq (by simp) opcode, trapped_of_regs _ rfl rfl⟩
  case instructionAddressMisaligned =>
    exact ⟨_, s.misaligned_eq opcode, trapped_of_regs _ rfl rfl⟩
  all_goals exact ⟨_, s.illegal_eq (by simp) opcode, trapped_of_regs _ rfl rfl⟩

theorem globalInterruptsEnabled_eq (s : RiscvState) :
    s.globalInterruptsEnabled = (s.reg .mstatus).getLsbD 3 := by
  have hbit : ∀ v : U64, decide (v &&& 0x8 ≠ 0) = v.getLsbD 3 := by
    intro v
    have h8 : (0x8 : U64) = BitVec.twoPow 64 3 := by decide
    have hne : BitVec.twoPow 64 3 ≠ 0 := by decide
    rw [h8, BitVec.and_twoPow]
    cases v.getLsbD 3
    · simp
    · exact decide_eq_true hne
  rw [globalInterruptsEnabled, hbit]
  exact getLsbD_shown_mstatus (by simp) _

/-- Interrupts are enabled, and this one is pending and enabled. -/
def enabledAndPending (s : RiscvState) (bit : Nat) : Prop :=
  s.globalInterruptsEnabled ∧ s.mip.getLsbD bit ∧ s.mie.getLsbD bit

instance (s : RiscvState) (bit : Nat) : Decidable (s.enabledAndPending bit) :=
  inferInstanceAs (Decidable (_ ∧ _ ∧ _))

/-- `InterruptPending`: external before timer. -/
theorem interruptPending_eq (s : RiscvState) : s.interruptPending =
    if s.enabledAndPending 11 then some .machineExternalInt
    else if s.enabledAndPending 7 then some .machineTimerInt
    else none := by
  have hbit : ∀ (v : U64) (n : Nat), (v >>> n) &&& 1 = 1 ↔ v.getLsbD n := by
    intro v n
    have hone : (1 : U64) = BitVec.twoPow 64 0 := by decide
    rw [hone, BitVec.and_twoPow, BitVec.getLsbD_ushiftRight, Nat.add_zero]
    cases v.getLsbD n <;> simp [BitVec.twoPow]
  have hzero : ∀ {v : U64} {n : Nat}, v.getLsbD n → v ≠ 0 := by
    rintro v n h rfl
    simp at h
  unfold interruptPending
  simp only [hbit]
  split
  · next hoff =>
    have hnone : ∀ n, ¬ s.enabledAndPending n := by
      rintro n ⟨hg, hp, he⟩
      simp only [hg, Bool.not_true, Bool.false_or, Bool.or_eq_true, decide_eq_true_eq] at hoff
      exact hoff.elim (hzero hp) (hzero he)
    rw [if_neg (hnone 11), if_neg (hnone 7)]
  · next hon =>
    have hg : s.globalInterruptsEnabled := by
      by_contra hg
      simp [hg] at hon
    have heq : ∀ n, s.enabledAndPending n ↔ s.mip.getLsbD n ∧ s.mie.getLsbD n := fun _ =>
      and_iff_right hg
    simp only [heq]

/-- The interrupts `InterruptPending` finds, and their bits. -/
theorem interruptPending_some {s : RiscvState} {e : SimExceptions}
    (h : s.interruptPending = some e) :
    e = .machineExternalInt ∧ s.enabledAndPending 11 ∨
      e = .machineTimerInt ∧ s.enabledAndPending 7 ∧ ¬ s.enabledAndPending 11 := by
  rw [interruptPending_eq] at h
  split at h
  · next hext => exact .inl ⟨(Option.some.inj h).symm, hext⟩
  · next hext =>
    split at h
    · next htimer => exact .inr ⟨(Option.some.inj h).symm, htimer, hext⟩
    · cases h

theorem interruptPending_isTrap {s : RiscvState} {e : SimExceptions}
    (h : s.interruptPending = some e) : e.isTrap := by
  rcases interruptPending_some h with ⟨rfl, -⟩ | ⟨rfl, -, -⟩ <;> rfl

/-! ### MRET -/

/-- What `PopPrivilegeLevel` stores in MSTATUS. -/
def popped (stored : U64) : U64 :=
  let mstatus : U32 := (shown .mstatus stored).setWidth 32
  let mpie := (mstatus >>> 7) &&& 1
  legalMstatus stored
    (((mstatus &&& ~~~(0x1888 : U32)) ||| (mpie <<< 3) ||| (1#32 <<< 7)).setWidth 64)

/-- The level in MPP. -/
def mpp (stored : U64) : U32 := (((shown .mstatus stored).setWidth 32 : U32) >>> 11) &&& 3

/-- The state after MRET. -/
def returned (s : RiscvState) : RiscvState :=
  { s with
    pc := if s.compressedExtensionEnabled then s.reg .mepc else s.reg .mepc &&& ~~~0x3
    machineState := (s.machineState &&& ~~~3) ||| mpp (s.reg .mstatus)
    reg := Function.update s.reg .mstatus (popped (s.reg .mstatus)) }

theorem popPrivilegeLevel_eq (s : RiscvState) :
    s.popPrivilegeLevel = { s with
      machineState := (s.machineState &&& ~~~3) ||| mpp (s.reg .mstatus)
      reg := Function.update s.reg .mstatus (popped (s.reg .mstatus)) } := rfl

theorem mret_eq (s : RiscvState) (opcode : U32) :
    s.processException .processMret opcode = .ok s.returned := by
  simp only [processException, popPrivilegeLevel_eq, setPc, compressedExtensionEnabled, misa, mepc,
    read, shown, returned, Function.update_apply, reduceCtorEq, if_false]
  rfl

/-- The low two bits of a word. -/
theorem and_three_eq (x : U32) :
    x &&& 3 = (if x.getLsbD 1 then 2 else 0) ||| (if x.getLsbD 0 then 1 else 0) := by
  have htwo : ∀ y : BitVec 2,
      y.setWidth 32 = (if y.getLsbD 1 then 2 else 0) ||| (if y.getLsbD 0 then (1 : U32) else 0) := by
    decide
  have hand : x &&& 3 = (x.setWidth 2).setWidth 32 := by
    apply BitVec.eq_of_toNat_eq
    rw [BitVec.toNat_and, BitVec.toNat_setWidth, BitVec.toNat_setWidth]
    have hmod : x.toNat &&& (3 : U32).toNat = x.toNat % 2 ^ 2 :=
      Nat.and_two_pow_sub_one_eq_mod x.toNat 2
    rw [hmod]
    omega
  rw [hand, htwo]
  simp

/-- The level MRET returns to, by the bits of MPP. -/
theorem mpp_eq (stored : U64) :
    mpp stored = (if stored.getLsbD 12 then 2 else 0) ||| (if stored.getLsbD 11 then 1 else 0) := by
  rw [mpp, and_three_eq, ← getLsbD_shown_mstatus (j := 12) (by simp),
    ← getLsbD_shown_mstatus (j := 11) (by simp)]
  simp

theorem getLsbD_popped_mie (stored : U64) : (popped stored).getLsbD 3 = stored.getLsbD 7 := by
  rw [popped, getLsbD_legalMstatus (Or.inl rfl), ← getLsbD_shown_mstatus (j := 7) (by simp)]
  simp

theorem getLsbD_pushed_mpie (stored : U64) (level : U32) :
    (pushed stored level).getLsbD 7 = stored.getLsbD 3 := by
  rw [pushed, getLsbD_legalMstatus (Or.inr rfl), ← getLsbD_shown_mstatus (j := 3) (by simp)]
  simp

/-- The level a trap from level `level` returns to. -/
theorem mpp_pushed (stored : U64) {level : U32} (hlevel : level = 0 ∨ level = 3) :
    mpp (pushed stored level) = level ↔ ¬ (level = 0 ∧ stored.getLsbD 12) := by
  obtain ⟨v, hv⟩ : ∃ v : U64, v =
      (((shown .mstatus stored).setWidth 32 &&& ~~~(0xc88 : U32)) ||| (level <<< 11) |||
        (((((shown .mstatus stored).setWidth 32 : U32) >>> 3) &&& 1) <<< 7)).setWidth 64 := ⟨_, rfl⟩
  have hpushed : pushed stored level = legalMstatus stored v := by rw [hv]; rfl
  have hshown := getLsbD_shown_mstatus (j := 12) (by simp) stored
  have h12 : v.getLsbD 12 = (stored.getLsbD 12 || level.getLsbD 1) := by
    rw [hv, ← hshown]; simp
  have h11 : v.getLsbD 11 = level.getLsbD 0 := by rw [hv]; simp
  rw [mpp_eq, hpushed, getLsbD_legalMstatus_mpp (Or.inr rfl), getLsbD_legalMstatus_mpp (Or.inl rfl),
    h12, h11, hshown]
  rcases hlevel with rfl | rfl
  · -- from user mode MPP is 00 or 10, and 10 gives way to the old MPP
    cases h : stored.getLsbD 12
    · simp
    · cases (shown .mstatus stored).getLsbD 11 <;> simp
  · simp

end RiscvState

/-- MRET in machine mode. -/
theorem execute_mret {i : RiscvInstruction} (hc : i.iclass = .mret)
    (hlevel : i.state.currentPrivilegeLevel = 3) :
    ∃ i', Step.execute.run i = .ok () i' ∧ i'.state = i.state.returned := by
  have hstep : (Step.step .mret).run i.decode = .error (.sim .processMret) i.decode := by
    simp [Step.step, EStateM.run_bind, hlevel, Step.throwSim]
  exact ⟨_, (Step.execute_of_sim (by simpa [hc] using hstep)).trans
    (Step.run_exception_of_ok (RiscvState.mret_eq _ _)), by simp⟩

namespace RiscvState

/-- The PC is aligned for the current MISA.C. -/
def PcAligned (s : RiscvState) : Prop :=
  s.pc &&& (if s.compressedExtensionEnabled then 1 else 3) = 0

instance (s : RiscvState) : Decidable s.PcAligned := inferInstanceAs (Decidable (_ = _))

/-- `ProcessException` takes the trap `e` in `s`, and an MRET executed in any state `h` that has
    the control registers and the mode the trap left gives the level, MIE and the PC back. -/
def TrapReturns (s : RiscvState) (e : SimExceptions) (opcode : U32) : Prop :=
  ∃ s₁, s.processException e opcode = .ok s₁ ∧
    ∀ (h : RiscvState) (junk : Junk) (m : Memory), h.reg = s₁.reg →
      h.machineState = s₁.machineState →
      ∃ i', Step.execute.run (.new junk (newInstruction 0x30200073) h m 0x30200073) = .ok () i' ∧
        i'.state.currentPrivilegeLevel = s.currentPrivilegeLevel ∧
        i'.state.globalInterruptsEnabled = s.globalInterruptsEnabled ∧ i'.state.pc = s.pc

/-- Clearing the low two bits of an aligned address. -/
theorem and_not_three_eq_self {p : U64} (h : p &&& 3 = 0) : p &&& ~~~0x3 = p := by
  apply BitVec.eq_of_getLsbD_eq
  intro j hj
  have hbit := congrArg (·.getLsbD j) h
  simp only [BitVec.getLsbD_and, BitVec.getLsbD_not, hj, decide_true, Bool.true_and] at hbit ⊢
  cases hp : p.getLsbD j
  · rfl
  · rw [hp, Bool.true_and] at hbit
    rw [hbit]
    simp

/-- MRET out of the state a trap left, or one with the same control registers and mode. -/
theorem returned_of_trapped {s s₁ h : RiscvState} (ht : Trapped s s₁) (hreg : h.reg = s₁.reg)
    (hpc : s.PcAligned) :
    h.returned.currentPrivilegeLevel = mpp (pushed (s.reg .mstatus) s.currentPrivilegeLevel) ∧
      h.returned.globalInterruptsEnabled = s.globalInterruptsEnabled ∧ h.returned.pc = s.pc := by
  refine ⟨?_, ?_, ?_⟩
  · have hlevel := h.setPrivilegeLevel_level (mpp (h.reg .mstatus))
    rw [hreg, ht.mstatus] at hlevel
    have hand : ∀ stored : U64, mpp stored &&& 3 = mpp stored := by
      intro stored
      rw [mpp, BitVec.and_assoc, BitVec.and_self]
    rw [hand] at hlevel
    rw [returned, hreg, ht.mstatus]
    exact hlevel
  · rw [globalInterruptsEnabled_eq, globalInterruptsEnabled_eq]
    have hmie : (h.returned.reg .mstatus) = popped (h.reg .mstatus) := by simp [returned]
    rw [hmie, getLsbD_popped_mie, hreg, ht.mstatus, getLsbD_pushed_mpie]
  · have hc : h.compressedExtensionEnabled = s.compressedExtensionEnabled := by
      rw [compressedExtensionEnabled, compressedExtensionEnabled, misa, misa, read, read, hreg,
        ht.misa]
    have hmepc : h.returned.pc =
        if s.compressedExtensionEnabled then s.pc else s.pc &&& ~~~0x3 := by
      rw [returned, hc, hreg, ht.mepc]
    rw [hmepc]
    unfold PcAligned at hpc
    split
    · rfl
    · next hne =>
      rw [if_neg hne] at hpc
      exact and_not_three_eq_self hpc

/-- Trap entry and MRET are inverse except for a trap taken in user mode while bit 12 of MSTATUS
    (the upper bit of MPP) is set: that one does not return to user mode. -/
theorem trapReturns_iff (s : RiscvState) (e : SimExceptions) (opcode : U32) (he : e.isTrap)
    (hlevel : s.currentPrivilegeLevel = 0 ∨ s.currentPrivilegeLevel = 3) (hpc : s.PcAligned) :
    s.TrapReturns e opcode ↔ ¬ (s.currentPrivilegeLevel = 0 ∧ s.mstatus.getLsbD 12) := by
  have hmret : newInstruction 0x30200073 = .mret := by decide
  have hmstatus : s.mstatus.getLsbD 12 = (s.reg .mstatus).getLsbD 12 :=
    getLsbD_shown_mstatus (by simp) _
  obtain ⟨s₁, hs₁, ht⟩ := s.processException_isTrap he opcode
  rw [hmstatus, ← mpp_pushed _ hlevel, TrapReturns, hmret]
  constructor
  · rintro ⟨s₁', hs₁', hret⟩
    obtain rfl : s₁ = s₁' := Except.ok.inj (hs₁.symm.trans hs₁')
    let m : Memory := { physMem := { oracle := { rand := fun _ => 0, heap := fun _ => 0 } } }
    obtain ⟨i', hrun, hlev, -, -⟩ := hret s₁ {} m rfl rfl
    obtain ⟨i'', hrun', hstate⟩ := execute_mret (i := .new {} .mret s₁ m 0x30200073) rfl ht.level
    obtain rfl : i' = i'' := (EStateM.Result.ok.inj (hrun.symm.trans hrun')).2
    rw [hstate, RiscvInstruction.new_state, (returned_of_trapped ht rfl hpc).1] at hlev
    exact hlev
  · intro hmpp
    refine ⟨s₁, hs₁, fun h junk m hreg hms => ?_⟩
    have hmode : h.currentPrivilegeLevel = 3 := by
      rw [currentPrivilegeLevel, hms]; exact ht.level
    obtain ⟨i', hrun, hstate⟩ := execute_mret (i := .new junk .mret h m 0x30200073) rfl hmode
    obtain ⟨hlev, hmie, hpc'⟩ := returned_of_trapped ht hreg hpc
    rw [RiscvInstruction.new_state] at hstate
    exact ⟨i', hrun, by rw [hstate, hlev, hmpp], by rw [hstate, hmie], by rw [hstate, hpc']⟩

/-- A timer interrupt in machine mode with MIE set, MPP = 11. -/
theorem trapReturns_timer_in_machine_mode :
    let s : RiscvState :=
      { pc := 0x80000102
        reg := fun | .mstatus => 0x1808 | .misa => definedMisaValue | _ => 0 }
    s.PcAligned ∧ s.TrapReturns .machineTimerInt 0 := by
  intro s
  exact ⟨by decide, (trapReturns_iff s .machineTimerInt 0 rfl (by decide) (by decide)).mpr
    (by decide)⟩

/-- ECALL in user mode with MPP = 11: MRET returns to machine mode. -/
theorem ecall_in_user_mode_returns_to_machine_mode :
    let s : RiscvState :=
      { pc := 0x80000100, machineState := 0
        reg := fun | .mstatus => 0x1808 | .misa => definedMisaValue | _ => 0 }
    s.currentPrivilegeLevel = 0 ∧ s.PcAligned ∧ ¬ s.TrapReturns .envCallUmode 0x73 := by
  intro s
  refine ⟨by decide, by decide, ?_⟩
  rintro ⟨s₁, hs₁, hret⟩
  obtain rfl : s.trapState .envCallUmode 0 = s₁ :=
    Except.ok.inj ((s.ecall_eq (by simp) 0x73).symm.trans hs₁)
  obtain ⟨i', hrun, hlev, -, -⟩ := hret _ {}
    { physMem := { oracle := { rand := fun _ => 0, heap := fun _ => 0 } } } rfl rfl
  obtain ⟨i'', hrun', hstate⟩ := execute_mret
    (i := .new {} .mret (s.trapState .envCallUmode 0)
      { physMem := { oracle := { rand := fun _ => 0, heap := fun _ => 0 } } } 0x30200073)
    rfl (by decide)
  obtain rfl : i' = i'' := (EStateM.Result.ok.inj (hrun.symm.trans hrun')).2
  rw [hstate] at hlev
  exact absurd hlev (by decide)

end RiscvState

end Dimebox
