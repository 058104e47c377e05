import Dimebox.Interrupts

/-! Sleeping cores.

    A core that executed WFI is skipped by `StepCore` until an interrupt can be delivered to it. The
    wake-up is decided on the working copy, like any delivery: the copy leaves low power mode and
    the first instruction of the step is the one at the vector. A pending interrupt stays pending
    until the core is stepped, and keeps the core among the ready ones. -/

namespace Dimebox

namespace RiscvState

/-- An enabled interrupt is pending. -/
def Wakeable (s : RiscvState) : Prop := s.enabledAndPending 11 ∨ s.enabledAndPending 7

instance (s : RiscvState) : Decidable s.Wakeable := inferInstanceAs (Decidable (_ ∨ _))

theorem interruptPending_isSome (s : RiscvState) : s.interruptPending.isSome ↔ s.Wakeable := by
  rw [interruptPending_eq, Wakeable]
  by_cases h₁ : s.enabledAndPending 11
  · simp [h₁]
  · by_cases h₂ : s.enabledAndPending 7 <;> simp [h₁, h₂]

theorem interruptPending_eq_none {s : RiscvState} (h : ¬ s.Wakeable) : s.interruptPending = none := by
  rw [← interruptPending_isSome] at h
  exact Option.not_isSome_iff_eq_none.mp h

theorem lowPowerMode_copy (storage core : RiscvState) :
    (copy storage core).lowPowerMode = core.lowPowerMode := by
  rw [lowPowerMode, lowPowerMode, copy, update_eq]

theorem lowPowerMode_takeInterrupt (s : RiscvState) (e : SimExceptions) (bit : Nat) :
    (s.takeInterrupt e bit).lowPowerMode = false := by
  have hbit : (((s.machineState &&& ~~~0x10) &&& ~~~3) ||| 3) &&& 0x10 = 0 := by
    rw [BitVec.and_or_distrib_right, BitVec.and_assoc, BitVec.and_assoc]
    simp
  rw [lowPowerMode, takeInterrupt_eq]
  dsimp only
  rw [hbit]
  rfl

/-! ### Signals -/

/-- Nothing but MIP has changed. -/
def Rested (core core' : RiscvState) : Prop :=
  ∃ mip, core' = { core with reg := Function.update core.reg .mip mip }

/-- A pending interrupt stays pending, whatever is signalled. -/
theorem enabledAndPending_signal {s : RiscvState} {bit : Nat} (h : s.enabledAndPending bit)
    (e : SimExceptions) : (s.signal e).enabledAndPending bit := by
  obtain ⟨hg, hp, he⟩ := h
  have hset : ∀ v, (s.setMip (s.mip ||| v)).enabledAndPending bit := by
    intro v
    refine ⟨?_, ?_, he⟩
    · rw [globalInterruptsEnabled_congr (s := s) (by simp [setMip, write])]
      exact hg
    · simp [mip, setMip, write, read, shown, legal] at hp ⊢
      exact .inl hp
  unfold signal
  split
  · exact hset _
  · exact hset _
  · exact ⟨hg, hp, he⟩

theorem Wakeable.signals {s : RiscvState} (h : s.Wakeable) (es : List SimExceptions) :
    (es.foldl signal s).Wakeable :=
  List.foldlRecOn es signal h fun _ h e _ =>
    h.imp (enabledAndPending_signal · e) (enabledAndPending_signal · e)

end RiscvState

namespace RiscvSimulator

/-! ### One step -/

/-- A step of a core that is asleep and cannot be woken does nothing. -/
theorem stepCore_asleep {s : RiscvSimulator} {k : Nat} {core : RiscvState}
    (hcore : s.cores[k]? = some core) (hasleep : core.lowPowerMode) (hw : ¬ core.Wakeable) :
    (stepCore k).run s = .ok (.returned .asleep) { s with calls := s.calls + 1 } := by
  have hserviced : serviceInterrupt (RiscvState.copy (s.host.storage s.calls) core)
      = .ok (RiscvState.copy (s.host.storage s.calls) core) := by
    have hnone : (RiscvState.copy (s.host.storage s.calls) core).interruptPending = none := by
      rw [RiscvState.copy, RiscvState.interruptPending_update]
      exact RiscvState.interruptPending_eq_none hw
    rw [serviceInterrupt, hnone]
  have hlow := (RiscvState.lowPowerMode_copy (s.host.storage s.calls) core).trans hasleep
  have hprep : (prepare k).run s = .ok (.error .asleep) { s with calls := s.calls + 1 } := by
    simp only [prepare, nextCall, EStateM.run_bind, EStateM.run_get, EStateM.run_set,
      EStateM.run_pure, hcore, hserviced, Effect.run_lift_ok, hlow, if_true]
  rw [stepCore, EStateM.run_bind, hprep]
  rfl

/-- A step of core `k` with interrupt `e` pending wakes it: its working state is not asleep, and what
    is fetched and, if there is no debug server, executed is the instruction at the vector. -/
def WakesAt (k : Nat) (s : RiscvSimulator) (core : RiscvState) (e : SimExceptions) : Prop :=
  ∃ work, serviceInterrupt (RiscvState.copy (s.host.storage s.calls) core) = .ok work ∧
    work.lowPowerMode = false ∧ work.pc = core.mtvec + RiscvState.causeOf e * 4 ∧
    ∀ c w m, (fetch work (work.pc.setWidth 32)).run s.memory = .ok (c, w) m →
      s.debugServer = none →
      (prepare k).run s = .ok (.ok (core, work.pc.setWidth 32,
        .new (s.host.junk s.calls) c work m w)) { s with calls := s.calls + 1, memory := m }

theorem wakesAt_of_pending {s : RiscvSimulator} {k : Nat} {core : RiscvState} {e : SimExceptions}
    (hcore : s.cores[k]? = some core) (he : core.interruptPending = some e) : WakesAt k s core e := by
  have hpending : (RiscvState.copy (s.host.storage s.calls) core).interruptPending = some e := by
    rw [RiscvState.copy, RiscvState.interruptPending_update]
    exact he
  have hmtvec : (RiscvState.copy (s.host.storage s.calls) core).mtvec = core.mtvec :=
    RiscvState.read_update_of_plain _ _ (by decide) (by decide) (by decide)
  obtain ⟨bit, hbit, hprocess⟩ : ∃ bit, (e = .machineExternalInt ∨ e = .machineTimerInt) ∧
      serviceInterrupt (RiscvState.copy (s.host.storage s.calls) core)
        = .ok ((RiscvState.copy (s.host.storage s.calls) core).takeInterrupt e bit) := by
    rw [serviceInterrupt, hpending]
    rcases RiscvState.interruptPending_some he with ⟨rfl, -⟩ | ⟨rfl, -, -⟩
    · exact ⟨11, .inl rfl, rfl⟩
    · exact ⟨7, .inr rfl, rfl⟩
  refine ⟨_, hprocess, RiscvState.lowPowerMode_takeInterrupt _ _ _, ?_, fun c w m hfetch hnone => ?_⟩
  · rw [RiscvState.pc_takeInterrupt _ _ hbit, hmtvec]
  · exact prepare_of_fetch hcore hprocess (RiscvState.lowPowerMode_takeInterrupt _ _ _) hfetch hnone

/-- `x` woke a core that had been asleep as `core`. -/
structure WokenBy (core : RiscvState) (x : Execution) : Prop where
  rested : core.Rested x.core
  enabled : x.core.Wakeable
  awake : x.before.state.lowPowerMode = false
  vector : ∃ e, x.Delivers e ∧ x.pc = (x.core.mtvec + RiscvState.causeOf e * 4).setWidth 32

/-- A core that is asleep executes an instruction only if it is woken. -/
theorem Commits.wokenBy {x : Execution} {core core' : RiscvState} (h : Commits x core core')
    (hasleep : core.lowPowerMode) : WokenBy core x := by
  obtain ⟨storage, work, hserviced, hfetched⟩ := h.prepared.fetchedOn
  have hmtvec : (RiscvState.copy storage core).mtvec = core.mtvec :=
    RiscvState.read_update_of_plain _ _ (by decide) (by decide) (by decide)
  have hlow := (RiscvState.lowPowerMode_copy storage core).trans hasleep
  have hpending : (RiscvState.copy storage core).interruptPending = core.interruptPending :=
    RiscvState.interruptPending_update _ _
  generalize RiscvState.copy storage core = s at hserviced hmtvec hlow hpending
  rcases serviceInterrupt_ok hserviced with ⟨-, rfl⟩ | ⟨e, bit, hsome, he, rfl⟩
  · have hawake := hfetched.awake
    rw [hlow] at hawake
    cases hawake
  · rw [hpending] at hsome
    have hvector : x.pc = (core.mtvec + RiscvState.causeOf e * 4).setWidth 32 := by
      rw [hfetched.pc_eq, RiscvState.pc_takeInterrupt _ _ (he.imp And.left And.left), hmtvec]
    refine ⟨⟨core.reg .mip, ?_⟩, ?_, ?_, e, h.delivers hsome, ?_⟩
    · rw [h.core_eq, Function.update_eq_self]
    · rw [h.core_eq, ← RiscvState.interruptPending_isSome, hsome]
      rfl
    · rw [hfetched.state]
      exact hfetched.awake
    · rw [h.core_eq]
      exact hvector

/-! ### Runs -/

/-- Between its own instructions a core is signalled, and nothing else. -/
theorem Run.signalled {s s' : RiscvSimulator} {xs : List Execution} (h : Run s xs s') {k : Nat}
    {core : RiscvState} (hcore : s.cores[k]? = some core) (hxs : ∀ x ∈ xs, x.k ≠ k) :
    ∃ es : List SimExceptions, s'.cores[k]? = some (es.foldl RiscvState.signal core) := by
  induction h with
  | refl => exact ⟨[], hcore⟩
  | @tail s₁ s' xs o _ hstep ih =>
    obtain ⟨es, hes⟩ := ih fun x hx => hxs x (List.mem_append_left _ hx)
    obtain ⟨core', hcore'⟩ := hstep.core_some hes
    obtain ⟨core₁, hcore₁, ⟨-, es', rfl⟩ | ⟨x, rfl, hxk, -⟩⟩ := hstep.core_cases hcore'
    · obtain rfl := Option.some.inj (hes.symm.trans hcore₁)
      exact ⟨es ++ es', by rw [hcore', List.foldl_append]⟩
    · exact absurd hxk (hxs x (by simp))

/-- A core with an enabled interrupt pending is ready until it is stepped. -/
theorem getReadyCpus_of_wakeable {s t : RiscvSimulator} {k : Nat} {core : RiscvState}
    {cpus : List Nat} (hcore : s.cores[k]? = some core) (hw : core.Wakeable)
    (hend : core.endTest = false) (h : getReadyCpus.run s = .ok cpus t) : k ∈ cpus := by
  have hready : core.ready = true := by
    simp [RiscvState.ready, hend, (RiscvState.interruptPending_isSome core).mpr hw]
  exact ((getReadyCpus_ok h).2.2 k).mpr ⟨core, hcore, hready⟩

/-- In every run a core that is asleep executes nothing and keeps everything but MIP, until a step
    finds an enabled interrupt pending, leaves low power mode and fetches at the vector of that
    interrupt; a step before that returns at once. An enabled interrupt that is pending on a core
    whose test has not ended keeps the core among the ready ones until it is stepped. -/
theorem sleeps_until_enabled_interrupt (s s' : RiscvSimulator) (xs : List Execution)
    (hrun : Run s xs s') (k : Nat) (core : RiscvState) (hcore : s.cores[k]? = some core) :
    (core.lowPowerMode →
      ((∀ x ∈ xs, x.k ≠ k) ∧ ∃ core', s'.cores[k]? = some core' ∧ core.Rested core') ∨
      ∃ l₁ x l₂, xs = l₁ ++ x :: l₂ ∧ (∀ y ∈ l₁, y.k ≠ k) ∧ x.k = k ∧ WokenBy core x) ∧
    (∀ core', s'.cores[k]? = some core' → core'.lowPowerMode → ¬ core'.Wakeable →
      (stepCore k).run s' = .ok (.returned .asleep) { s' with calls := s'.calls + 1 }) ∧
    (∀ core' e, s'.cores[k]? = some core' → core'.interruptPending = some e →
      WakesAt k s' core' e) ∧
    (core.Wakeable → core.endTest = false → (∀ x ∈ xs, x.k ≠ k) →
      ∀ cpus t, getReadyCpus.run s' = .ok cpus t → k ∈ cpus) := by
  have hrests : ∀ {l t}, Run s l t → (∀ x ∈ l, x.k ≠ k) →
      ∃ (es : List SimExceptions) (mip : U64), t.cores[k]? = some (es.foldl RiscvState.signal core) ∧
        es.foldl RiscvState.signal core = { core with reg := Function.update core.reg .mip mip } := by
    intro l t hl hne
    obtain ⟨es, hes⟩ := Run.signalled hl hcore hne
    obtain ⟨mip, hmip⟩ := core.foldl_signal es
    exact ⟨es, mip, hes, hmip⟩
  refine ⟨fun hasleep => ?_, fun core' hcore' => stepCore_asleep hcore',
    fun core' e hcore' => wakesAt_of_pending hcore', fun hw hend hne cpus t hready => ?_⟩
  · by_cases hne : ∀ x ∈ xs, x.k ≠ k
    · obtain ⟨es, mip, hes, hmip⟩ := hrests hrun hne
      exact .inl ⟨hne, _, hes, mip, hmip⟩
    · -- the first instruction of the core
      cases hfind : xs.find? (fun x => x.k = k) with
      | none => exact absurd (fun x hx => by simpa using List.find?_eq_none.mp hfind x hx) hne
      | some x =>
        obtain ⟨hxk, l₁, l₂, rfl, hl₁⟩ := List.find?_eq_some_iff_append.mp hfind
        have hbefore : ∀ y ∈ l₁, y.k ≠ k := fun y hy => by simpa using hl₁ y hy
        have hk : x.k = k := by simpa using hxk
        obtain ⟨s₁, s₂, hpre, hstep, -⟩ := hrun.split
        obtain ⟨es, mip, hes, hmip⟩ := hrests hpre hbefore
        obtain ⟨core₁, core₂, hcore₁, -, hcommits⟩ := hstep.commits
        rw [hk, hes] at hcore₁
        obtain rfl := Option.some.inj hcore₁
        rw [hmip] at hcommits
        have hwoken := hcommits.wokenBy hasleep
        refine .inr ⟨l₁, x, l₂, rfl, hbefore, hk, ⟨mip, hcommits.core_eq⟩, hwoken.enabled,
          hwoken.awake, hwoken.vector⟩
  · obtain ⟨es, mip, hes, hmip⟩ := hrests hrun hne
    refine getReadyCpus_of_wakeable hes (hw.signals es) ?_ hready
    rw [hmip]
    exact hend

/-- A core asleep with the timer interrupt pending, and a NOP in its vector. -/
def sleepingMachine : RiscvSimulator :=
  let s := init {} (.simple 0x8000001c [0x13, 0, 0, 0] {})
  { s with
    memory := (s.host.loadTestImage s.memory).2
    cores := [{
      pc := 0x80000000
      machineState := 0x13
      reg := fun
        | .mtvec => 0x80000000
        | .mstatus => 0x8
        | .mie => 0x80
        | .mip => 0x80
        | _ => 0 }] }

/-- Its step wakes it, and executes the NOP. -/
theorem sleepingMachine_wakes : ∃ core x s', sleepingMachine.cores[0]? = some core ∧
    core.lowPowerMode ∧ Run sleepingMachine [x] s' ∧ WokenBy core x ∧ x.pc = 0x8000001c := by
  have hview : (execution 0 sleepingMachine).map (fun r => (r.1.k, r.1.pc))
      = some (0, 0x8000001c) := by
    decide +kernel
  cases hx : execution 0 sleepingMachine with
  | none => rw [hx] at hview; cases hview
  | some r =>
    obtain ⟨x, s'⟩ := r
    rw [hx] at hview
    simp only [Option.map_some, Option.some.injEq, Prod.mk.injEq] at hview
    have hrun : Run sleepingMachine [x] s' := (Trace.Run.refl _).tail (SimStep.of_execution hx)
    have hsleeps := (sleeps_until_enabled_interrupt _ _ _ hrun 0 _ rfl).1 (by decide +kernel)
    rcases hsleeps with ⟨hne, -⟩ | ⟨l₁, y, l₂, hl, -, -, hy⟩
    · exact absurd hview.1 (hne x (by simp))
    · obtain ⟨rfl, rfl⟩ : x = y ∧ l₁ = [] := by
        cases l₁ with
        | nil => exact ⟨(List.cons.inj hl).1, rfl⟩
        | cons a l => simp at hl
      exact ⟨_, x, s', rfl, by decide +kernel, hrun, hy, hview.2⟩

end RiscvSimulator

end Dimebox
