import Dimebox.StepThrows

/-! Are exceptions precise?

    `Execute` takes the trap on the working state as the body left it, and `Writeback` commits it.
    What a body did before it threw is therefore visible, and there is one kind of body that does
    something: a CSR instruction whose CSR can be read and not written has set `rd` by then. -/

namespace Dimebox

open RiscvState

/-- Registers and memory are as before, and only PC, MEPC, MCAUSE, MTVAL, MSTATUS and the privilege
    level may differ. -/
structure Precise (s : RiscvState) (m : Memory) (s' : RiscvState) (m' : Memory) : Prop where
  x : s'.x = s.x
  memory : m' = m
  reg : ∀ r, r ≠ .mepc → r ≠ .mcause → r ≠ .mtval → r ≠ .mstatus → s'.reg r = s.reg r
  mode : s'.machineState &&& ~~~3 = s.machineState &&& ~~~3
  rest : { s' with
    x := s.x, reg := s.reg, pc := s.pc, machineState := s.machineState } = s

/-- A CSR instruction that writes an implemented read-only CSR, with an `rd` that does not hold the
    CSR's value already. -/
def OverwritesRd (s : RiscvState) (w : U32) : Prop :=
  (newInstruction w).writesCsr (field w 15 0x1f) ∧ field w 7 0x1f ≠ 0 ∧
    ∃ v, s.csrCounter (field w 20 0xfff) = some v ∧
      s.regVal (field w 7 0x1f) ≠ (v.setWidth 32 : U32).setWidth 64

namespace RiscvState

theorem sync_eq (s : RiscvState) {e : SimExceptions} (he : e.isSync) (opcode : U32) :
    ∃ mtval, s.processException e opcode = .ok (s.trapState e mtval) := by
  cases e <;> simp only [SimExceptions.isSync, Bool.false_eq_true] at he
  case envCallUmode | envCallMmode => exact ⟨0, s.ecall_eq (by simp) opcode⟩
  case instructionAddressMisaligned => exact ⟨_, s.misaligned_eq opcode⟩
  all_goals exact ⟨0, s.illegal_eq (by simp) opcode⟩

/-- A computed CSR can be read. -/
theorem csr_of_counter {s : RiscvState} {n : U32} {v : U64} (h : s.csrCounter n = some v) :
    s.csr n 3 = .ok v := by
  have hn : n = BitVec.ofNat 32 n.toNat := by simp
  unfold csrCounter at h
  split at h
  case h_11 => cases h
  all_goals
    next heq =>
    rw [heq] at hn
    rw [hn, ← Option.some.inj h]
    rfl

theorem counter_of_csr {s : RiscvState} {n : U32} {v : U64} (h : s.csr n 3 = .ok v)
    (hr : csrReg n = none) : s.csrCounter n = some v := by
  unfold csr at h
  cases hv : validateCsrAccess n 3 false with
  | error f => rw [hv] at h; cases h
  | ok u =>
    rw [hv, hr] at h
    cases hc : s.csrCounter n with
    | none => rw [hc] at h; cases h
    | some v' => rw [hc] at h; exact congrArg some (Except.ok.inj h)

/-- The trap of a state that differs from `s` in general registers and MTVAL only, committed to
    `s`. -/
theorem precise_update_iff (s : RiscvState) (m : Memory) (e : SimExceptions) (mtval : U64)
    (x : Fin 32 → U64) {reg : Creg → U64} (hreg : ∀ r, r ≠ .mtval → reg r = s.reg r) :
    Precise s m (s.update ({ s with x := x, reg := reg }.trapState e mtval)) m ↔ x = s.x := by
  rw [update_eq]
  constructor
  · intro h
    exact h.x
  · intro h
    refine ⟨h, rfl, ?_, ?_, rfl⟩
    · intro r h₁ h₂ h₃ h₄
      have htrap : ({ s with x := x, reg := reg }.trapState e mtval).reg r = s.reg r := by
        rw [← hreg r h₃]
        simp only [trapState, trapRegs_mip]
        simp [h₁, h₂, h₃, h₄]
      simp only [committed, read, htrap]
      simp
    · simp only [trapState]
      apply BitVec.eq_of_getLsbD_eq
      intro j hj
      simp only [BitVec.getLsbD_and, BitVec.getLsbD_or, BitVec.getLsbD_not, hj, decide_true,
        Bool.true_and]
      cases s.machineState.getLsbD j <;> cases (3 : U32).getLsbD j <;> rfl

theorem setReg_eq (s : RiscvState) (idx : U32) (v : U64) :
    s.setReg idx v = { s with x := (s.setReg idx v).x } := by
  rw [setReg]
  split <;> rfl

theorem setReg_x_eq_iff (s : RiscvState) {idx : U32} (v : U64) :
    (s.setReg idx v).x = s.x ↔ ¬ (idx ≠ 0 ∧ s.regVal idx ≠ v) := by
  rw [setReg, regVal]
  by_cases h0 : idx = 0
  · rw [if_pos h0]
    exact ⟨fun _ h => h.1 h0, fun _ => rfl⟩
  · rw [if_neg h0, if_neg h0]
    simp only [Function.update_eq_self_iff]
    exact ⟨fun h hne => hne.2 h.symm, fun h => (not_not.mp fun hne => h ⟨h0, hne⟩).symm⟩

end RiscvState

section Trap

variable {junk : Junk} {s : RiscvState} {m : Memory} {w : U32}

/-- The trap is taken on what the body left, and committed; nothing was queued. -/
theorem execute_writeback_of_throw {i i₁ : RiscvInstruction} {e : SimExceptions} (he : e.isSync)
    (h : (Step.step i.decode.iclass).run i.decode = .error (.sim e) i₁)
    (hops : i₁.mOpsMemory = []) (core : RiscvState) :
    ∃ i' mtval, Step.execute.run i = .ok () i' ∧ i'.memory = i₁.memory ∧
      (writeback i').run (core, i'.memory)
        = .ok () (core.update (i₁.state.trapState e mtval), i₁.memory) := by
  obtain ⟨mtval, hs⟩ := i₁.state.sync_eq he i₁.encoding
  refine ⟨{ i₁ with state := i₁.state.trapState e mtval }, mtval, ?_, rfl, ?_⟩
  · rw [Step.execute_of_sim h, Step.run_exception_of_ok hs]
  · rw [writeback, EStateM.run_bind, EStateM.run_modify]
    simp only
    rw [hops, writebackOps, Effect.run_focus, EStateM.run_pure, Effect.mapState_ok]

theorem format_of_writesCsr {c : Iclass} {rs1 : U32} (h : c.writesCsr rs1) : c.format = .i := by
  cases c <;> first | rfl | cases h

/-- The fields of a CSR instruction. -/
theorem decode_csr (junk : Junk) (s : RiscvState) (m : Memory) (w : U32) {c : Iclass} {rs1 : U32}
    (h : c.writesCsr rs1) :
    (RiscvInstruction.new junk c s m w).decode.rs1 = field w 15 0x1f ∧
    (RiscvInstruction.new junk c s m w).decode.rd = field w 7 0x1f ∧
    (RiscvInstruction.new junk c s m w).decode.imm = field w 20 0xfff := by
  have hf := format_of_writesCsr h
  simp [RiscvInstruction.decode, hf]

/-- What happened to an instruction that threw, in terms of what the body left. -/
theorem precise_of_thrown {i₁ : RiscvInstruction} {e : SimExceptions}
    (hthrown : Step.Thrown (newInstruction w)
      (RiscvInstruction.new junk (newInstruction w) s m w).decode e i₁)
    (hsync : e.isSync) : i₁.mOpsMemory = [] ∧ i₁.memory = m ∧ ∀ mtval,
      Precise s m (s.update (i₁.state.trapState e mtval)) m ↔ ¬ OverwritesRd s w := by
  obtain ⟨i, hi⟩ : ∃ i, i = (RiscvInstruction.new junk (newInstruction w) s m w).decode := ⟨_, rfl⟩
  have hstate : i.state = s := by rw [hi]; simp
  have hops : i.mOpsMemory = [] := by rw [hi]; simp
  have hmem : i.memory = m := by rw [hi]; simp
  rw [← hi] at hthrown
  cases hthrown with
  | plain _ hcsr =>
    refine ⟨hops, hmem, fun mtval => ?_⟩
    rw [hstate]
    refine (precise_update_iff s m e mtval s.x fun _ _ => rfl).trans (iff_of_true rfl ?_)
    rintro ⟨hw, -, v, hv, -⟩
    obtain ⟨h₁, -, h₃⟩ := decode_csr junk s m w hw
    rw [← hi] at h₁ h₃
    rw [h₁, h₃, hstate] at hcsr
    exact hcsr hw v (csr_of_counter hv)
  | misaligned target hcsr =>
    refine ⟨hops, hmem, fun mtval => ?_⟩
    simp only [hstate]
    refine (precise_update_iff s m _ mtval s.x (fun r hr => ?_)).trans (iff_of_true rfl ?_)
    · rw [Function.update_of_ne hr]
    · rintro ⟨hw, -⟩
      obtain ⟨h₁, -, -⟩ := decode_csr junk s m w hw
      rw [← hi] at h₁
      rw [h₁, hw] at hcsr
      cases hcsr
  | load => cases hsync
  | @refused _ v _ hw hrd hread hro =>
    refine ⟨hops, hmem, fun mtval => ?_⟩
    obtain ⟨h₁, h₂, h₃⟩ := decode_csr junk s m w hw
    rw [← hi] at h₁ h₂ h₃
    rw [h₁] at hw
    rw [hstate, h₃] at hread
    rw [h₃] at hro
    have hv := counter_of_csr hread hro
    have hput : (i.putRd (v.setWidth 32)).state
        = s.setReg (field w 7 0x1f) ((v.setWidth 32 : U32).setWidth 64) := by
      rw [RiscvInstruction.putRd, hstate, h₂]
    have hover : OverwritesRd s w ↔ field w 7 0x1f ≠ 0 ∧
        s.regVal (field w 7 0x1f) ≠ (v.setWidth 32 : U32).setWidth 64 := by
      constructor
      · rintro ⟨-, hne, v', hv', hval⟩
        obtain rfl : v = v' := Option.some.inj (hv.symm.trans hv')
        exact ⟨hne, hval⟩
      · rintro ⟨hne, hval⟩
        exact ⟨hw, hne, v, hv, hval⟩
    rw [hput, setReg_eq, hover, ← setReg_x_eq_iff]
    exact precise_update_iff s m e mtval _ fun _ _ => rfl

end Trap

/-- For every state, memory and word whose body throws a trap: either the load address is outside
    the configured range and `Execute` ends the simulation, or `Execute` and `Writeback` return and
    the exception is precise exactly if the word is not a CSR instruction that overwrites `rd` and
    then has its write refused. -/
theorem exception_precise_iff (junk : Junk) (s : RiscvState) (m : Memory) (w : U32)
    (e : SimExceptions) (i₁ : RiscvInstruction)
    (h : (Step.step (newInstruction w)).run
      (RiscvInstruction.new junk (newInstruction w) s m w).decode = .error (.sim e) i₁)
    (hmret : e ≠ .processMret) (hwfi : e ≠ .processWfi) :
    (e = .generationError ∧ ∃ what i',
      Step.execute.run (.new junk (newInstruction w) s m w) = .error (.runtimeError what) i') ∨
    ∃ i' s' m', Step.execute.run (.new junk (newInstruction w) s m w) = .ok () i' ∧
      (writeback i').run (s, i'.memory) = .ok () (s', m') ∧
      (Precise s m s' m' ↔ ¬ OverwritesRd s w) := by
  have hthrown := Step.thrown_of_step (newInstruction w) _ e i₁ h
  have hbody : (Step.step (RiscvInstruction.new junk (newInstruction w) s m w).decode.iclass).run
      (RiscvInstruction.new junk (newInstruction w) s m w).decode = .error (.sim e) i₁ := by
    rw [RiscvInstruction.decode_iclass]
    exact h
  by_cases hgen : e = .generationError
  · refine .inl ⟨hgen, ?_⟩
    subst hgen
    exact ⟨_, _, by rw [Step.execute_of_sim hbody, Step.run_exception_of_error rfl]⟩
  · have hsync : e.isSync := by
      cases hthrown with
      | plain htrap => exact htrap.resolve_right (not_or.mpr ⟨hmret, hwfi⟩)
      | misaligned => rfl
      | load => exact absurd rfl hgen
      | refused htrap => exact htrap
    obtain ⟨hops, hmem, hprecise⟩ := precise_of_thrown hthrown hsync
    obtain ⟨i', mtval, hrun, -, hwb⟩ := execute_writeback_of_throw hsync hbody hops s
    rw [hmem] at hwb
    exact .inr ⟨i', _, m, hrun, hwb, hprecise mtval⟩

/-- An unknown word. -/
theorem exception_precise_unknown_word :
    let s : RiscvState := { pc := 0x80000000, x := fun _ => 5 }
    let m : Memory := { physMem := { oracle := { rand := fun _ => 0, heap := fun _ => 0 } } }
    ∃ i' s' m', Step.execute.run (.new {} (newInstruction 0xffffffff) s m 0xffffffff) = .ok () i' ∧
      (writeback i').run (s, i'.memory) = .ok () (s', m') ∧ Precise s m s' m' := by
  intro s m
  have hclass : newInstruction 0xffffffff = .unknownInstruction := by decide
  rcases exception_precise_iff {} s m 0xffffffff .illegalInstructionUnknownInstr _
    (by rw [hclass]; rfl) (by decide) (by decide) with ⟨hgen, -⟩ | ⟨i', s', m', hrun, hwb, hiff⟩
  · cases hgen
  · refine ⟨i', s', m', hrun, hwb, hiff.mpr ?_⟩
    rintro ⟨hw, -⟩
    rw [hclass] at hw
    cases hw

/-- `csrrw a0,cycle,x0`: the body throws, the trap is committed, and `a0` holds the counter. -/
theorem csrrw_cycle_not_precise :
    let s : RiscvState := { pc := 0x80000000, clock := 7 }
    let m : Memory := { physMem := { oracle := { rand := fun _ => 0, heap := fun _ => 0 } } }
    ∃ i₁ i' s' m', (Step.step (newInstruction 0xc0001573)).run
        (RiscvInstruction.new {} (newInstruction 0xc0001573) s m 0xc0001573).decode
          = .error (.sim .illegalInstructionPrivilegedCsr) i₁ ∧
      Step.execute.run (.new {} (newInstruction 0xc0001573) s m 0xc0001573) = .ok () i' ∧
      (writeback i').run (s, i'.memory) = .ok () (s', m') ∧ ¬ Precise s m s' m' := by
  intro s m
  obtain ⟨i, hi⟩ : ∃ i, i = RiscvInstruction.new {} (newInstruction 0xc0001573) s m 0xc0001573 :=
    ⟨_, rfl⟩
  obtain ⟨hthrow, hlen, hx⟩ :
      Effect.thrown ((Step.step (newInstruction 0xc0001573)).run i.decode)
        = some (.sim .illegalInstructionPrivilegedCsr) ∧
      (Effect.final ((Step.step (newInstruction 0xc0001573)).run i.decode)).mOpsMemory.length = 0 ∧
      (Effect.final ((Step.step (newInstruction 0xc0001573)).run i.decode)).state.x 10 = 7 := by
    rw [hi]
    decide +kernel
  have hrun := Effect.error_of_thrown hthrow
  generalize Effect.final ((Step.step (newInstruction 0xc0001573)).run i.decode) = i₁
    at hlen hx hrun
  have hbody : (Step.step i.decode.iclass).run i.decode
      = .error (.sim .illegalInstructionPrivilegedCsr) i₁ := by
    rw [RiscvInstruction.decode_iclass, hi]
    rw [hi] at hrun
    exact hrun
  obtain ⟨i', mtval, hexec, -, hwb⟩ := execute_writeback_of_throw (by rfl) hbody
    (List.length_eq_zero_iff.mp hlen) s
  rw [hi] at hrun hexec
  refine ⟨i₁, i', _, _, hrun, hexec, hwb, fun h => ?_⟩
  have hx' := congrFun h.x 10
  rw [update_eq] at hx'
  have h70 : (7 : U64) = 0 := by
    rw [← hx]
    exact hx'
  exact absurd h70 (by decide)

end Dimebox
