import Dimebox.CsrInstructions
import Dimebox.Runs

/-! Delivery of interrupts.

    An interrupt is taken on the working copy of a step, and delivered when the step is committed: a
    step that returns early drops it with the copy. Delivery clears MSTATUS.MIE, and nothing but an
    MRET or a CSR instruction that writes MSTATUS sets it again, so two deliveries are never nested
    by accident. -/

namespace Dimebox

namespace RiscvState

/-! ### MSTATUS.MIE -/

theorem getLsbD_pushed_mie (stored : U64) (level : U32) :
    (pushed stored level).getLsbD 3 = false := by
  rw [pushed, getLsbD_legalMstatus (.inl rfl)]
  simp

theorem globalInterruptsEnabled_congr {s t : RiscvState} (h : t.reg .mstatus = s.reg .mstatus) :
    t.globalInterruptsEnabled = s.globalInterruptsEnabled := by
  rw [globalInterruptsEnabled_eq, globalInterruptsEnabled_eq, h]

/-- A trap disables interrupts. -/
theorem Trapped.disabled {s s₁ : RiscvState} (h : Trapped s s₁) :
    s₁.globalInterruptsEnabled = false := by
  rw [globalInterruptsEnabled_eq, h.mstatus]
  exact getLsbD_pushed_mie _ _

/-- An interrupt clears its pending bit, and MIE. -/
theorem takeInterrupt_clears (s : RiscvState) (e : SimExceptions) {bit : Nat} (hbit : bit < 64) :
    (s.takeInterrupt e bit).globalInterruptsEnabled = false ∧
      (s.takeInterrupt e bit).mip.getLsbD bit = false := by
  rw [takeInterrupt_eq]
  refine ⟨(trapped_of_regs (s := s) _ rfl rfl).disabled, ?_⟩
  simp [mip, read, shown, trapRegs, hbit]

end RiscvState

namespace RiscvSimulator

/-! ### One execution -/

/-- The step that executed `x` took the interrupt `e` before it fetched. -/
def Execution.Delivers (x : Execution) (e : SimExceptions) : Prop :=
  ∃ storage work, (RiscvState.copy storage x.core).interruptPending = some e ∧
    (RiscvState.copy storage x.core).processInterrupt e = .ok work ∧ FetchedOn work x.pc x.before

/-- `x` is an MRET or writes MSTATUS, and sets MIE. -/
structure Execution.SetsMie (x : Execution) : Prop where
  before : x.before.state.globalInterruptsEnabled = false
  after : x.after.state.globalInterruptsEnabled = true
  instruction : x.before.iclass = .mret ∨
    x.before.iclass.isCsr ∧ x.before.iclass.writesCsr x.before.decode.rs1 ∧
      RiscvState.csrReg x.before.decode.imm = some .mstatus

/-- An instruction that sets MIE. -/
theorem setsMie_of_execute {i i' : RiscvInstruction} (h : Step.execute.run i = .ok () i')
    (hi : i.state.globalInterruptsEnabled = false) (hi' : i'.state.globalInterruptsEnabled = true) :
    i.iclass = .mret ∨ i.iclass.isCsr ∧ i.iclass.writesCsr i.decode.rs1 ∧
      RiscvState.csrReg i.decode.imm = some .mstatus := by
  have hkept : i'.state.reg .mstatus ≠ i.state.reg .mstatus := by
    intro heq
    rw [RiscvState.globalInterruptsEnabled_congr heq, hi] at hi'
    cases hi'
  cases Step.execute_outcome h with
  | advanced run =>
    rcases Step.step_reg run with hreg | ⟨r, v, hc, hw, hr, hreg⟩
    · exact absurd (congrFun hreg .mstatus) hkept
    · by_cases hms : r = .mstatus
      · exact .inr ⟨hc, hw, by rw [hr, hms]⟩
      · refine absurd ((congrFun hreg .mstatus).trans ?_) hkept
        simp [RiscvState.write, Ne.symm hms]
  | @trapped e i₁ mtval run raises sync taken value =>
    have htrapped : RiscvState.Trapped i₁.state (i₁.state.trapState e mtval) :=
      RiscvState.trapped_of_regs _ rfl rfl
    rw [htrapped.disabled] at hi'
    cases hi'
  | returned hc => exact .inl hc
  | slept => exact absurd (by simp [RiscvState.slept]) hkept

/-- What is pending on a core is pending on the working copies of its steps. -/
theorem Execution.Delivers.pending {x : Execution} {e : SimExceptions} (h : x.Delivers e) :
    x.core.interruptPending = some e := by
  obtain ⟨storage, work, hpending, -⟩ := h
  rwa [RiscvState.copy, RiscvState.interruptPending_update] at hpending

/-- Delivery clears MIE and the pending bit, before the instruction is executed. -/
theorem Execution.Delivers.clears {x : Execution} {e : SimExceptions} (h : x.Delivers e) :
    x.before.state.globalInterruptsEnabled = false ∧
      x.before.state.mip.getLsbD (RiscvState.causeOf e).toNat = false := by
  obtain ⟨storage, work, hpending, hprocess, hfetched⟩ := h
  have hwork : work.globalInterruptsEnabled = false ∧
      work.mip.getLsbD (RiscvState.causeOf e).toNat = false := by
    generalize RiscvState.copy storage x.core = s at hpending hprocess
    rcases RiscvState.interruptPending_some hpending with ⟨rfl, -⟩ | ⟨rfl, -, -⟩
    · rw [← Except.ok.inj hprocess]
      exact s.takeInterrupt_clears _ (by decide)
    · rw [← Except.ok.inj hprocess]
      exact s.takeInterrupt_clears _ (by decide)
  rw [hfetched.state]
  exact hwork

/-- Every execution of a core with an interrupt pending delivers it. -/
theorem Commits.delivers {x : Execution} {core core' : RiscvState} (h : Commits x core core')
    {e : SimExceptions} (he : core.interruptPending = some e) : x.Delivers e := by
  obtain ⟨storage, work, hserviced, hfetched⟩ := h.prepared.fetchedOn
  have hpending : (RiscvState.copy storage core).interruptPending = some e := by
    rw [RiscvState.copy, RiscvState.interruptPending_update]
    exact he
  rw [serviceInterrupt, hpending] at hserviced
  exact ⟨storage, work, by rw [h.core_eq]; exact hpending, by rw [h.core_eq]; exact hserviced,
    hfetched⟩

/-- MIE is set after an execution because it was set before it and no interrupt was delivered, or
    because the execution set it. -/
theorem Commits.mie {x : Execution} {core core' : RiscvState} (h : Commits x core core')
    (hmie : core'.globalInterruptsEnabled) :
    (core.globalInterruptsEnabled ∧ ∀ e, ¬ x.Delivers e) ∨ x.SetsMie := by
  obtain ⟨b, rfl⟩ := h.committed
  have hafter : x.after.state.globalInterruptsEnabled := by
    rw [← RiscvState.globalInterruptsEnabled_update core]
    generalize core.update x.after.state = core' at hmie
    exact hmie
  cases hbefore : x.before.state.globalInterruptsEnabled with
  | false => exact .inr ⟨hbefore, hafter, setsMie_of_execute h.run hbefore hafter⟩
  | true =>
    refine .inl ⟨?_, fun e he => ?_⟩
    · obtain ⟨storage, work, hserviced, hfetched⟩ := h.prepared.fetchedOn
      have hcopy := RiscvState.globalInterruptsEnabled_update storage core
      change (RiscvState.copy storage core).globalInterruptsEnabled = _ at hcopy
      generalize RiscvState.copy storage core = s at hserviced hcopy
      rw [hfetched.state] at hbefore
      change work.globalInterruptsEnabled = true at hbefore
      rcases serviceInterrupt_ok hserviced with ⟨-, rfl⟩ | ⟨e, bit, -, he, rfl⟩
      · rw [← hcopy]
        exact hbefore
      · have hlt : bit < 64 := by omega
        rw [(s.takeInterrupt_clears e hlt).1] at hbefore
        cases hbefore
    · rw [he.clears.1] at hbefore
      cases hbefore

/-! ### Runs -/

/-- MIE of core `k` is set after a run because it was set before it, or because one of its
    instructions set it. -/
theorem Run.mie {s s' : RiscvSimulator} {xs : List Execution} (h : Run s xs s') {k : Nat}
    {core' : RiscvState} (hcore' : s'.cores[k]? = some core')
    (hmie : core'.globalInterruptsEnabled) :
    (∃ core, s.cores[k]? = some core ∧ core.globalInterruptsEnabled) ∨
      ∃ z ∈ xs, z.k = k ∧ z.SetsMie := by
  induction h generalizing core' with
  | refl => exact .inl ⟨core', hcore', hmie⟩
  | @tail s₁ s' xs o _ hstep ih =>
    have hearlier : ∀ {core}, s₁.cores[k]? = some core → core.globalInterruptsEnabled →
        (∃ core, s.cores[k]? = some core ∧ core.globalInterruptsEnabled) ∨
          ∃ z ∈ xs ++ o.toList, z.k = k ∧ z.SetsMie := by
      intro core hcore hm
      rcases ih hcore hm with hstart | ⟨z, hz, hset⟩
      · exact .inl hstart
      · exact .inr ⟨z, List.mem_append_left _ hz, hset⟩
    obtain ⟨core, hcore, ⟨-, es, rfl⟩ | ⟨x, rfl, hxk, hx⟩⟩ := hstep.core_cases hcore'
    · refine hearlier hcore ?_
      obtain ⟨mip, hmip⟩ := core.foldl_signal es
      rw [hmip] at hmie
      rw [← hmie]
      exact (RiscvState.globalInterruptsEnabled_congr (by simp)).symm
    · rcases hx.mie hmie with ⟨hm, -⟩ | hset
      · exact hearlier hcore hm
      · exact .inr ⟨x, by simp, hxk, hset⟩

/-- In every run an interrupt is delivered only when MIE is set and its bit is set in MIP and MIE,
    external before timer; the delivery clears MIE and the bit in MIP; and between two deliveries to
    the same core, the handler's first instruction included, an MRET or a write of MSTATUS of that
    core has set MIE. -/
theorem interrupts_do_not_nest (s s' : RiscvSimulator) (xs : List Execution) (hrun : Run s xs s') :
    (∀ x ∈ xs, ∀ e, x.Delivers e →
      (e = .machineExternalInt ∧ x.core.enabledAndPending 11 ∨
        e = .machineTimerInt ∧ x.core.enabledAndPending 7 ∧ ¬ x.core.enabledAndPending 11) ∧
      x.before.state.globalInterruptsEnabled = false ∧
      x.before.state.mip.getLsbD (RiscvState.causeOf e).toNat = false) ∧
    ∀ l₁ x l₂ y l₃ e e', xs = l₁ ++ x :: (l₂ ++ y :: l₃) → x.k = y.k → x.Delivers e →
      y.Delivers e' → ∃ z ∈ x :: l₂, z.k = x.k ∧ z.SetsMie := by
  refine ⟨fun x _ e he => ⟨RiscvState.interruptPending_some he.pending, he.clears⟩, ?_⟩
  rintro l₁ x l₂ y l₃ e e' rfl hk hx hy
  obtain ⟨s₁, s₂, -, hstepx, hrest⟩ := hrun.split
  obtain ⟨t₁, t₂, hbetween, hstepy, -⟩ := hrest.split
  -- MIE is set when `y` is delivered
  obtain ⟨core, core', hcore, -, hycommits⟩ := hstepy.commits
  have hmie : core.globalInterruptsEnabled := by
    have hpending := hy.pending
    rw [hycommits.core_eq] at hpending
    rcases RiscvState.interruptPending_some hpending with ⟨-, h, -⟩ | ⟨-, ⟨h, -⟩, -⟩ <;> exact h
  rw [← hk] at hcore
  rcases Run.mie hbetween hcore hmie with ⟨core₂, hcore₂, hm⟩ | ⟨z, hz, hset⟩
  · -- so it is set right after `x`, which cleared it
    obtain ⟨core₁, core₂', -, hcore₂', hxcommits⟩ := hstepx.commits
    obtain rfl := Option.some.inj (hcore₂.symm.trans hcore₂')
    rcases hxcommits.mie hm with ⟨-, hnone⟩ | hset
    · exact absurd hx (hnone e)
    · exact ⟨x, List.mem_cons_self, rfl, hset⟩
  · exact ⟨z, List.mem_cons_of_mem x hz, hset⟩

/-- A core with both interrupts pending, and handlers that enable interrupts first. -/
def nestingMachine : RiscvSimulator :=
  let s := init {} (.simple 0x8000001c
    ([0x73, 0x60, 0x04, 0x30] ++ List.replicate 12 0 ++ [0x73, 0x60, 0x04, 0x30]) {})
  { s with
    memory := (s.host.loadTestImage s.memory).2
    cores := [{
      pc := 0x80000000
      reg := fun
        | .mtvec => 0x80000000
        | .mstatus => 0x8
        | .mie => 0x880
        | .mip => 0x880
        | _ => 0 }] }

/-- The external interrupt is delivered, its handler sets MIE, and the timer interrupt follows. -/
theorem nestingMachine_nests_on_purpose : ∃ x y s', Run nestingMachine [x, y] s' ∧
    x.Delivers .machineExternalInt ∧ y.Delivers .machineTimerInt ∧ x.SetsMie := by
  have hview : (execution 0 nestingMachine).bind (fun r => (execution 0 r.2).map fun r' =>
      (r.1.k, r'.1.k, r.1.core.interruptPending, r'.1.core.interruptPending))
      = some (0, 0, some .machineExternalInt, some .machineTimerInt) := by
    decide +kernel
  cases hx : execution 0 nestingMachine with
  | none => rw [hx] at hview; cases hview
  | some r =>
    obtain ⟨x, s₁⟩ := r
    rw [hx, Option.bind_some] at hview
    cases hy : execution 0 s₁ with
    | none => rw [hy] at hview; cases hview
    | some r =>
      obtain ⟨y, s'⟩ := r
      rw [hy] at hview
      simp only [Option.map_some, Option.some.injEq, Prod.mk.injEq] at hview
      obtain ⟨hxk, hyk, hxe, hye⟩ := hview
      have hstepx := SimStep.of_execution hx
      have hstepy := SimStep.of_execution hy
      have hrun : Run nestingMachine [x, y] s' := ((Trace.Run.refl _).tail hstepx).tail hstepy
      obtain ⟨cx, cx', -, -, hcx⟩ := hstepx.commits
      obtain ⟨cy, cy', -, -, hcy⟩ := hstepy.commits
      have hdx : x.Delivers .machineExternalInt := hcx.delivers (by rw [← hcx.core_eq]; exact hxe)
      have hdy : y.Delivers .machineTimerInt := hcy.delivers (by rw [← hcy.core_eq]; exact hye)
      obtain ⟨z, hz, -, hset⟩ := (interrupts_do_not_nest _ _ _ hrun).2 [] x [] y [] _ _ rfl
        (hxk.trans hyk.symm) hdx hdy
      rw [List.mem_singleton] at hz
      rw [hz] at hset
      exact ⟨x, y, s', hrun, hdx, hdy, hset⟩

end RiscvSimulator

end Dimebox
