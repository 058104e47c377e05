import Dimebox.Runs

/-! WFI, the interrupt that ends it, and the return.

    WFI leaves the PC where it is and saves the address after itself in MEPC. The interrupt that
    wakes the core saves the PC in MEPC once more, so MEPC is the address of the WFI by the time the
    handler returns. -/

namespace Dimebox

namespace RiscvState

/-- MRET goes to MEPC, with or without its low two bits. -/
theorem pc_returned (s : RiscvState) :
    s.returned.pc = s.mepc ∨ s.returned.pc = s.mepc &&& ~~~0x3 := by
  simp only [returned, mepc, read, shown]
  split
  · exact .inl rfl
  · exact .inr rfl

/-- Neither is the address four bytes on. -/
theorem and_not_three_ne_add_four (p : U64) : p &&& ~~~0x3 ≠ p + 4 := by
  intro h
  have hmask : ∀ x : U64, (x &&& 3).toNat = x.toNat % 4 := by
    intro x
    rw [BitVec.toNat_and]
    exact Nat.and_two_pow_sub_one_eq_mod x.toNat 2
  have hlow : ((p &&& ~~~0x3) &&& 3).toNat = 0 := by
    rw [BitVec.and_assoc]
    simp
  -- the low bits are clear on both sides, so nothing was cut off
  rw [h, hmask, BitVec.toNat_add] at hlow
  have h4 : (4 : U64).toNat = 4 := rfl
  have hp : p &&& 3 = 0 := by
    apply BitVec.eq_of_toNat_eq
    rw [hmask]
    show p.toNat % 4 = 0
    omega
  rw [and_not_three_eq_self hp] at h
  bv_omega

end RiscvState

/-- WFI in machine mode stays where it is. -/
theorem execute_wfi {i : RiscvInstruction} (hc : i.iclass = .wfi)
    (hlevel : i.state.currentPrivilegeLevel = 3) :
    ∃ i', Step.execute.run i = .ok () i' ∧ i'.state.pc = i.state.pc := by
  have hstep : (Step.step .wfi).run i.decode = .error (.sim .processWfi) i.decode := by
    simp [Step.step, EStateM.run_bind, hlevel, RiscvState.wfiEnabled, Step.throwSim]
  exact ⟨_, (Step.execute_of_sim (by simpa [hc] using hstep)).trans
    (Step.run_exception_of_ok (RiscvState.wfi_eq _ _)), by simp [RiscvState.slept]⟩

namespace RiscvSimulator

/-- `StepCore` of core `k` executes `i` and completes. -/
structure Executes (k : Nat) (s : RiscvSimulator) (i : RiscvInstruction) (s' : RiscvSimulator) :
    Prop where
  prepared : ∃ core pc s₁, (prepare k).run s = .ok (.ok (core, pc, i)) s₁
  completed : (stepCore k).run s = .ok .executed s'

/-- Core `k` does nothing; interrupts may be signalled to it. -/
def Rests (k : Nat) (s s' : RiscvSimulator) : Prop :=
  ∃ (core : RiscvState) (es : List SimExceptions), s.cores[k]? = some core ∧
    s'.cores[k]? = some (es.foldl RiscvState.signal core)

/-- The PC a completed step leaves. -/
theorem Executes.pc_eq {k : Nat} {s s' : RiscvSimulator} {i : RiscvInstruction}
    (h : Executes k s i s') {P : U64 → Prop}
    (hP : ∀ m i', Step.execute.run { i with memory := m } = .ok () i' → P i'.state.pc) :
    ∃ core, s'.cores[k]? = some core ∧ P core.pc := by
  obtain ⟨⟨core, pc, t, hprep⟩, hrun⟩ := h
  obtain ⟨i₁, i', s₁, hc⟩ := stepCore_executed hrun
  obtain ⟨core', pc', hprep', -, hcores⟩ := hc.prepared
  rw [hprep] at hprep'
  cases hprep'
  have hlt : k < s.cores.length := (List.getElem?_eq_some_iff.mp (prepare_ok hprep).1).1
  refine ⟨_, by rw [hcores, List.getElem?_set_self hlt], ?_⟩
  rw [pc_setEndTest, RiscvState.pc_update]
  exact hP _ i' hc.executed

/-- A WFI of core `k` at address `p`, the interrupt that ends it, and the return. -/
structure WfiRun (k : Nat) (p : U64) where
  start : RiscvSimulator
  asleep : RiscvSimulator
  woken : RiscvSimulator
  handled : RiscvSimulator
  returned : RiscvSimulator
  wfi : RiscvInstruction
  interrupt : SimExceptions
  entered : RiscvState
  mret : RiscvInstruction
  /-- the WFI is executed, in machine mode at `p` -/
  sleeps : Executes k start wfi asleep
  wfi_class : wfi.iclass = .wfi
  wfi_level : wfi.state.currentPrivilegeLevel = 3
  wfi_pc : wfi.state.pc = p
  wfi_aligned : wfi.state.PcAligned
  /-- then interrupts are signalled to the core -/
  rests : Rests k asleep woken
  /-- the next `StepCore` finds an enabled one pending and enters its handler -/
  delivers : ∃ core, woken.cores[k]? = some core ∧
    (RiscvState.copy (woken.host.storage woken.calls) core).interruptPending = some interrupt ∧
    (RiscvState.copy (woken.host.storage woken.calls) core).processInterrupt interrupt = .ok entered
  /-- the handler runs, its first instruction in that same call -/
  handler : Relation.ReflTransGen (fun s s' => (∃ i, Executes k s i s') ∨ Rests k s s') woken handled
  /-- and ends with an MRET that finds the control registers as the interrupt left them -/
  returns : Executes k handled mret returned
  mret_class : mret.iclass = .mret
  mret_level : mret.state.currentPrivilegeLevel = 3
  mret_csrs : ∀ r ≠ .mip, mret.state.read r = entered.read r

/-- The next instruction of the core is the one after the WFI. -/
def WfiRun.ResumesAfterWfi {k : Nat} {p : U64} (r : WfiRun k p) : Prop :=
  r.returned.cores[k]?.map RiscvState.pc = some (p + 4)

/-- The core sleeps at the WFI. -/
theorem WfiRun.pc_asleep {k : Nat} {p : U64} (r : WfiRun k p) :
    ∃ core, r.asleep.cores[k]? = some core ∧ core.pc = p := by
  refine r.sleeps.pc_eq (P := (· = p)) fun m i' hrun => ?_
  obtain ⟨i'', hrun', hpc⟩ := execute_wfi (i := { r.wfi with memory := m }) r.wfi_class r.wfi_level
  obtain rfl : i' = i'' := (EStateM.Result.ok.inj (hrun.symm.trans hrun')).2
  exact hpc.trans r.wfi_pc

/-- The interrupt saves the address of the WFI. -/
theorem WfiRun.mepc_entered {k : Nat} {p : U64} (r : WfiRun k p) : r.entered.mepc = p := by
  obtain ⟨core, hcore, hpc⟩ := r.pc_asleep
  obtain ⟨core', es, hcore', hwoken⟩ := r.rests
  obtain ⟨core'', hcore'', hpending, hprocess⟩ := r.delivers
  obtain rfl : core = core' := Option.some.inj (hcore.symm.trans hcore')
  obtain rfl := Option.some.inj (hwoken.symm.trans hcore'')
  obtain ⟨s₁, hs₁, htrap⟩ := RiscvState.processException_isTrap
    (RiscvState.copy (r.woken.host.storage r.woken.calls) (es.foldl RiscvState.signal core))
    (RiscvState.interruptPending_isTrap hpending) 0
  obtain rfl : r.entered = s₁ := Except.ok.inj (hprocess.symm.trans hs₁)
  have hmepc := htrap.mepc
  obtain ⟨mip, hmip⟩ := core.foldl_signal es
  rw [RiscvState.pc_copy, hmip] at hmepc
  exact hmepc.trans hpc

/-- After the handler the core never resumes behind the WFI: it is back at the WFI. -/
theorem wfi_never_resumes_after_itself (k : Nat) (p : U64) (r : WfiRun k p) :
    ¬ r.ResumesAfterWfi := by
  have hmepc : r.mret.state.mepc = p := (r.mret_csrs .mepc (by decide)).trans r.mepc_entered
  obtain ⟨core, hcore, hpc⟩ := r.returns.pc_eq (P := fun pc => pc = p ∨ pc = p &&& ~~~0x3)
    fun m i' hrun => by
      obtain ⟨i'', hrun', hstate⟩ := execute_mret (i := { r.mret with memory := m })
        r.mret_class r.mret_level
      obtain rfl : i' = i'' := (EStateM.Result.ok.inj (hrun.symm.trans hrun')).2
      have hret := r.mret.state.pc_returned
      rw [hmepc] at hret
      rw [hstate]
      exact hret
  intro hresumes
  rw [WfiRun.ResumesAfterWfi, hcore, Option.map_some, Option.some.injEq] at hresumes
  rcases hpc with hpc | hpc
  · rw [hpc] at hresumes
    bv_omega
  · rw [hpc] at hresumes
    exact RiscvState.and_not_three_ne_add_four p hresumes

/-- The instruction `StepCore` executes and the state it completes in. -/
def stepResult (k : Nat) (s : RiscvSimulator) : Option (RiscvInstruction × RiscvSimulator) :=
  match (prepare k).run s, (stepCore k).run s with
  | .ok (.ok (_, _, i)) _, .ok .executed s' => some (i, s')
  | _, _ => none

theorem executes_of_stepResult {k : Nat} {s s' : RiscvSimulator} {i : RiscvInstruction}
    (h : stepResult k s = some (i, s')) : Executes k s i s' := by
  unfold stepResult at h
  split at h
  · next core pc i' s₁ s₂ hprep hrun =>
    cases h
    exact ⟨⟨core, pc, s₁, hprep⟩, hrun⟩
  · cases h

/-- A WFI at 0x80000000, an MRET in the vector of the timer interrupt, and a core that has the timer
    interrupt enabled. -/
def wfiMachine : RiscvSimulator :=
  let s := Effect.final (startGo.run (init {} (.simple 0x80000000
    ([0x73, 0, 0x50, 0x10] ++ List.replicate 24 0 ++ [0x73, 0, 0x20, 0x30]) {})))
  { s with
    cores := [{
      pc := 0x80000000
      reg := fun
        | .misa => RiscvState.definedMisaValue
        | .mstatus => 0x8
        | .mie => 0x80
        | .mtvec => 0x80000000
        | _ => 0 }] }

/-- The machine after the WFI, with the timer signalled. -/
def wfiWoken : RiscvSimulator :=
  let s := ((stepResult 0 wfiMachine).map Prod.snd).getD wfiMachine
  { s with cores := s.cores.map fun core => core.signal .machineTimerInt }

/-- The copy of its core that takes the interrupt. -/
def wfiWokenCopy : RiscvState :=
  RiscvState.copy (wfiWoken.host.storage wfiWoken.calls) ((wfiWoken.cores[0]?).getD {})

theorem wfiMachine_sleeps : ∃ i s', stepResult 0 wfiMachine = some (i, s') ∧ i.iclass = .wfi ∧
    i.state.currentPrivilegeLevel = 3 ∧ i.state.pc = 0x80000000 ∧ i.state.PcAligned ∧
    s'.cores.length = 1 := by
  have hval : (stepResult 0 wfiMachine).map (fun r => (r.1.iclass, r.1.state.currentPrivilegeLevel,
      r.1.state.pc, decide r.1.state.PcAligned, r.2.cores.length))
      = some (.wfi, 3, 0x80000000, true, 1) := by
    decide +kernel
  cases hrun : stepResult 0 wfiMachine with
  | none => rw [hrun] at hval; cases hval
  | some r =>
    obtain ⟨i, s'⟩ := r
    rw [hrun] at hval
    simp only [Option.map_some, Option.some.injEq, Prod.mk.injEq, decide_eq_true_eq] at hval
    exact ⟨i, s', rfl, hval⟩

theorem wfiWoken_returns : ∃ i s', stepResult 0 wfiWoken = some (i, s') ∧ i.iclass = .mret ∧
    i.state.currentPrivilegeLevel = 3 ∧
    (∀ r, i.state.read r = (wfiWokenCopy.takeInterrupt .machineTimerInt 7).read r) ∧
    s'.cores[0]?.map RiscvState.pc = some 0x80000000 := by
  have hval : (stepResult 0 wfiWoken).map (fun r => (r.1.iclass, r.1.state.currentPrivilegeLevel,
      decide (RiscvState.updateOrder.map r.1.state.read
        = RiscvState.updateOrder.map (wfiWokenCopy.takeInterrupt .machineTimerInt 7).read),
      r.2.cores[0]?.map RiscvState.pc))
      = some (.mret, 3, true, some 0x80000000) := by
    decide +kernel
  cases hrun : stepResult 0 wfiWoken with
  | none => rw [hrun] at hval; cases hval
  | some r =>
    obtain ⟨i, s'⟩ := r
    rw [hrun] at hval
    simp only [Option.map_some, Option.some.injEq, Prod.mk.injEq, decide_eq_true_eq] at hval
    obtain ⟨hclass, hlevel, hcsrs, hpc⟩ := hval
    exact ⟨i, s', rfl, hclass, hlevel, fun r => List.map_inj_left.mp hcsrs r
      (RiscvState.mem_updateOrder r), hpc⟩

theorem wfiWoken_pending : wfiWokenCopy.interruptPending = some .machineTimerInt := by
  decide +kernel

/-- The timer interrupt ends the WFI at 0x80000000, and after the MRET the core is at 0x80000000
    again. -/
theorem wfi_repeats_after_timer_interrupt : ∃ r : WfiRun 0 0x80000000,
    r.returned.cores[0]?.map RiscvState.pc = some 0x80000000 ∧ ¬ r.ResumesAfterWfi := by
  obtain ⟨i, s₁, hsleeps, hclass, hlevel, hpc, haligned, hlength⟩ := wfiMachine_sleeps
  obtain ⟨i', s₂, hreturns, hclass', hlevel', hcsrs, hpc'⟩ := wfiWoken_returns
  obtain ⟨core, hcore⟩ := List.length_eq_one_iff.mp hlength
  have hwoken : wfiWoken = { s₁ with cores := [core.signal .machineTimerInt] } := by
    rw [wfiWoken, hsleeps]
    simp [hcore]
  have hcopy : wfiWokenCopy = RiscvState.copy (wfiWoken.host.storage wfiWoken.calls)
      (core.signal .machineTimerInt) := by
    rw [wfiWokenCopy]
    rw [hwoken]
    rfl
  have hpending := wfiWoken_pending
  rw [hcopy] at hpending hcsrs
  refine ⟨{
    start := wfiMachine, asleep := s₁, woken := wfiWoken, handled := wfiWoken, returned := s₂
    wfi := i, interrupt := .machineTimerInt, mret := i'
    entered := (RiscvState.copy (wfiWoken.host.storage wfiWoken.calls)
      (core.signal .machineTimerInt)).takeInterrupt .machineTimerInt 7
    sleeps := executes_of_stepResult hsleeps
    wfi_class := hclass, wfi_level := hlevel, wfi_pc := hpc, wfi_aligned := haligned
    rests := ⟨core, [.machineTimerInt], by rw [hcore]; rfl, by rw [hwoken]; rfl⟩
    delivers := ⟨core.signal .machineTimerInt, by rw [hwoken]; rfl, hpending, rfl⟩
    handler := .refl
    returns := executes_of_stepResult hreturns
    mret_class := hclass', mret_level := hlevel', mret_csrs := fun r _ => hcsrs r }, hpc', ?_⟩
  rw [WfiRun.ResumesAfterWfi, hpc']
  decide

end RiscvSimulator

end Dimebox
