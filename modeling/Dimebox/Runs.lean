import Dimebox.Lib.Trace
import Dimebox.Commit
import Dimebox.Decoder
import Dimebox.ExecuteLaws
import Dimebox.Atomicity

/-! Runs of the simulator.

    A run is any interleaving of `StepCore` calls, clock and device ticks and calls of
    `GetReadyCpus`; the loop of `Go` is one. It is listed by the instructions that were executed.
    What a run does to one core is said once (`SimStep.core_cases`): devices signal it, or one of its
    instructions is executed on a copy and committed. -/

namespace Dimebox

/-- Signals change MIP and nothing else. -/
theorem RiscvState.foldl_signal (es : List SimExceptions) (s : RiscvState) :
    ∃ mip, es.foldl signal s = { s with reg := Function.update s.reg .mip mip } := by
  induction es generalizing s with
  | nil => exact ⟨s.reg .mip, by rw [Function.update_eq_self]; rfl⟩
  | cons e es ih =>
    have hsignal : ∃ mip, s.signal e = { s with reg := Function.update s.reg .mip mip } := by
      unfold signal
      split
      · exact ⟨_, rfl⟩
      · exact ⟨_, rfl⟩
      · exact ⟨s.reg .mip, by rw [Function.update_eq_self]⟩
    obtain ⟨mip, hmip⟩ := hsignal
    obtain ⟨mip', hmip'⟩ := ih (s.signal e)
    refine ⟨mip', ?_⟩
    rw [List.foldl_cons, hmip', hmip]
    simp only [Function.update_idem]

namespace RiscvSimulator

open Relation (ReflTransGen)

/-- An instruction that core `k` executed: the core and the PC it was fetched for, and the
    instruction object before and after `Execute`. -/
structure Execution where
  k : Nat
  core : RiscvState
  pc : U32
  before : RiscvInstruction
  after : RiscvInstruction

/-- One step of a run, with the instruction it executed, if any. -/
inductive SimStep : RiscvSimulator → Option Execution → RiscvSimulator → Prop where
  | executed {k : Nat} {s s₁ s' : RiscvSimulator} {core : RiscvState} {pc : U32}
      {i i' : RiscvInstruction} (prepared : (prepare k).run s = .ok (.ok (core, pc, i)) s₁)
      (run : Step.execute.run { i with memory := s₁.memory } = .ok () i')
      (step : (stepCore k).run s = .ok .executed s') :
      SimStep s (some { k, core, pc, before := { i with memory := s₁.memory }, after := i' }) s'
  | returned {k : Nat} {s s' : RiscvSimulator} {why : EarlyReturn}
      (step : (stepCore k).run s = .ok (.returned why) s') : SimStep s none s'
  | failed {k : Nat} {s s' : RiscvSimulator} {what : List Char}
      (step : (stepCore k).run s = .error (.runtimeError what) s') : SimStep s none s'
  | clock (s : RiscvSimulator) : SimStep s none { s with clock := s.clock + 1 }
  | devices {s s' : RiscvSimulator} (tick : serviceDevices.run s = .ok () s') : SimStep s none s'
  | ready {s s' : RiscvSimulator} {cpus : List Nat} (run : getReadyCpus.run s = .ok cpus s') :
      SimStep s none s'
  /-- `LoadTestImage`, and the bookkeeping of `Go` -/
  | go (s : RiscvSimulator) (memory : Memory) (rcode instrCount : Int) :
      SimStep s none { s with memory, rcode, instrCount }

/-- A run, with the instructions it executed. -/
abbrev Run : RiscvSimulator → List Execution → RiscvSimulator → Prop := Trace.Run SimStep

/-! ### The instruction a step executes -/

/-- `StepCore` of `core` fetched for `pc` and is about to execute `i`: a copy of the core, after a
    pending interrupt and what the debug client changed. -/
inductive Prepared (core : RiscvState) : U32 → RiscvInstruction → Prop where
  | intro {storage work client : RiscvState} {junk : Junk} {c : Iclass} {w : U32} {m : Memory}
      (serviced : serviceInterrupt (RiscvState.copy storage core) = .ok work)
      (awake : work.lowPowerMode = false)
      (decoded : c = newInstruction w ∨ c = newInstruction16 work w)
      (edits : ReflTransGen ClientEdit work client) :
      Prepared core (work.pc.setWidth 32) { RiscvInstruction.new junk c work m w with state := client }

theorem Prepared.with_memory {core : RiscvState} {pc : U32} {i : RiscvInstruction}
    (h : Prepared core pc i) (m : Memory) : Prepared core pc { i with memory := m } := by
  obtain ⟨serviced, awake, decoded, edits⟩ := h
  exact .intro serviced awake decoded edits

/-- The client writes general registers and the PC. -/
theorem clientEdits_frame {work client : RiscvState} (h : ReflTransGen ClientEdit work client) :
    client = { work with pc := client.pc, x := client.x } := by
  induction h with
  | refl => rfl
  | tail _ hedit ih =>
    cases hedit with
    | gp hs => rw [RiscvState.setGp_ok hs, ih]
    | sp | pc => rw [ih]; rfl

/-- What a step took from its core: the working state, and the instruction object over it. -/
structure FetchedOn (work : RiscvState) (pc : U32) (i : RiscvInstruction) : Prop where
  awake : work.lowPowerMode = false
  pc_eq : pc = work.pc.setWidth 32
  nextPc : i.nextPc = pc + i.iclass.instrSize
  size : i.iclass.instrSize = 4 ∨ i.iclass.instrSize = 2 ∧ work.compressedExtensionEnabled
  state : i.state = { work with pc := i.state.pc, x := i.state.x }
  edits : ReflTransGen ClientEdit work i.state

theorem Prepared.fetchedOn {core : RiscvState} {pc : U32} {i : RiscvInstruction}
    (h : Prepared core pc i) : ∃ storage work,
      serviceInterrupt (RiscvState.copy storage core) = .ok work ∧ FetchedOn work pc i := by
  obtain ⟨serviced, awake, decoded, edits⟩ := h
  refine ⟨_, _, serviced, awake, rfl, rfl, ?_, clientEdits_frame edits, edits⟩
  rcases decoded with rfl | rfl
  · exact .inl (instrSize_newInstruction _)
  · simp only [RiscvInstruction.new_iclass, Iclass.instrSize]
    split
    all_goals
      first
        | exact .inl rfl
        | refine .inr ⟨rfl, ?_⟩
          by_contra hc
          rw [newInstruction16_of_disabled (by simpa using hc)] at *
          contradiction

/-- The interrupt a step takes first, if one is pending. -/
theorem serviceInterrupt_ok {s work : RiscvState} (h : serviceInterrupt s = .ok work) :
    (s.interruptPending = none ∧ work = s) ∨ ∃ e bit, s.interruptPending = some e ∧
      (e = .machineExternalInt ∧ bit = 11 ∨ e = .machineTimerInt ∧ bit = 7) ∧
      work = s.takeInterrupt e bit := by
  unfold serviceInterrupt at h
  split at h
  · next e he =>
    rcases RiscvState.interruptPending_some he with ⟨rfl, -⟩ | ⟨rfl, -, -⟩
    · exact .inr ⟨_, 11, he, .inl ⟨rfl, rfl⟩, (Except.ok.inj h).symm⟩
    · exact .inr ⟨_, 7, he, .inr ⟨rfl, rfl⟩, (Except.ok.inj h).symm⟩
  · next he => exact .inl ⟨he, (Except.ok.inj h).symm⟩

theorem fetch_decoded {work : RiscvState} {pc : U32} {c : Iclass} {w : U32} {m m' : Memory}
    (h : (fetch work pc).run m = .ok (c, w) m') :
    c = newInstruction w ∨ c = newInstruction16 work w := by
  obtain ⟨r, m₁, -, h⟩ := Effect.ok_of_bind h
  obtain ⟨m₂, m₃, -, h⟩ := Effect.ok_of_bind h
  dsimp only at h
  split at h
  · cases h; exact .inr rfl
  · obtain ⟨r', m₄, -, h⟩ := Effect.ok_of_bind h
    obtain ⟨m₅, m₆, -, h⟩ := Effect.ok_of_bind h
    cases h
    exact .inl rfl

/-- The client edits the copy. -/
theorem debugPreStepChecks_edits {cpu cpu' : RiscvState} {pc : U32} {goOn : Bool}
    {s s' : RiscvSimulator} (h : (debugPreStepChecks cpu pc).run s = .ok (goOn, cpu') s') :
    ReflTransGen ClientEdit cpu cpu' := by
  rw [debugPreStepChecks, debugChecks, EStateM.run_bind, EStateM.run_get] at h
  dsimp only at h
  cases hd : s.debugServer with
  | none => rw [hd] at h; cases h; exact .refl
  | some server =>
    rw [hd] at h
    have hedits := edits_of_steps
      (acts_preStepChecks_cpu { server, cpu, memory := s.memory, pc := pc.setWidth 64 })
    rw [Effect.run_focus, EStateM.run_bind] at h
    rw [EStateM.run_bind] at hedits
    cases hrun : DebugServer.preStepChecks.run
        { server, cpu, memory := s.memory, pc := pc.setWidth 64 } with
    | ok b d => rw [hrun] at h hedits; cases h; exact hedits
    | error f d => rw [hrun] at h; cases h

/-- `StepCore` up to `Execute` without what the debug server said. -/
theorem prepare_fetched {k : Nat} {s s₁ : RiscvSimulator} {core : RiscvState} {pc : U32}
    {i : RiscvInstruction} (h : (prepare k).run s = .ok (.ok (core, pc, i)) s₁) :
    ∃ work c w m client, s.cores[k]? = some core ∧
      serviceInterrupt (RiscvState.copy (s.host.storage s.calls) core) = .ok work ∧
      work.lowPowerMode = false ∧ pc = work.pc.setWidth 32 ∧
      (fetch work pc).run s.memory = .ok (c, w) m ∧ ReflTransGen ClientEdit work client ∧
      i = { RiscvInstruction.new (s.host.junk s.calls) c work m w with state := client } := by
  obtain ⟨work, c, w, m, client, hcore, hserviced, hawake, hpc, hfetch, hdebug, hi⟩ :=
    prepare_checked h
  exact ⟨work, c, w, m, client, hcore, hserviced, hawake, hpc, hfetch,
    debugPreStepChecks_edits hdebug, hi⟩

theorem prepare_prepared {k : Nat} {s s₁ : RiscvSimulator} {core : RiscvState} {pc : U32}
    {i : RiscvInstruction} (h : (prepare k).run s = .ok (.ok (core, pc, i)) s₁) :
    s.cores[k]? = some core ∧ Prepared core pc i := by
  obtain ⟨work, c, w, m, client, hcore, hserviced, hawake, rfl, hfetch, hedits, rfl⟩ :=
    prepare_fetched h
  exact ⟨hcore, .intro hserviced hawake (fetch_decoded hfetch) hedits⟩

/-- `StepCore` up to `Execute`, of an instruction that can be fetched. -/
theorem prepare_of_fetch {s : RiscvSimulator} {k : Nat} {core work : RiscvState} {c : Iclass}
    {w : U32} {m : Memory} (hcore : s.cores[k]? = some core)
    (hserviced : serviceInterrupt (RiscvState.copy (s.host.storage s.calls) core) = .ok work)
    (hawake : work.lowPowerMode = false)
    (hfetch : (fetch work (work.pc.setWidth 32)).run s.memory = .ok (c, w) m)
    (hnone : s.debugServer = none) :
    (prepare k).run s = .ok (.ok (core, work.pc.setWidth 32,
      .new (s.host.junk s.calls) c work m w)) { s with calls := s.calls + 1, memory := m } := by
  have htry : (tryFetch work (work.pc.setWidth 32)).run { s with calls := s.calls + 1 }
      = .ok (some (c, w)) { s with calls := s.calls + 1, memory := m } := by
    rw [tryFetch, onMemory, Effect.run_focus, Effect.run_tryCatch, ← bind_pure_comp,
      EStateM.run_bind]
    dsimp only
    rw [hfetch]
    rfl
  have hdebug : (debugPreStepChecks work (work.pc.setWidth 32)).run
      { s with calls := s.calls + 1, memory := m }
      = .ok (true, work) { s with calls := s.calls + 1, memory := m } := by
    rw [debugPreStepChecks, debugChecks, EStateM.run_bind, EStateM.run_get]
    dsimp only
    rw [hnone]
    rfl
  simp only [prepare, nextCall, EStateM.run_bind, EStateM.run_get, EStateM.run_set,
    EStateM.run_pure, hcore, hserviced, Effect.run_lift_ok, hawake, Bool.false_eq_true, if_false,
    htry, hdebug, Bool.not_true]
  rfl

/-! ### What a step does to a core -/

/-- Every core is as before, up to signals. -/
def Signalled (s s' : RiscvSimulator) : Prop :=
  ∀ k : Nat, ∃ es : List SimExceptions,
    s'.cores[k]? = s.cores[k]?.map fun core => es.foldl RiscvState.signal core

theorem Signalled.of_cores {s s' : RiscvSimulator} (h : s'.cores = s.cores) : Signalled s s' :=
  fun k => ⟨[], by rw [h]; exact Option.map_id'.symm⟩

theorem Signalled.refl (s : RiscvSimulator) : Signalled s s := .of_cores rfl

theorem Signalled.trans {s s' s'' : RiscvSimulator} (h : Signalled s s') (h' : Signalled s' s'') :
    Signalled s s'' := by
  intro k
  obtain ⟨es, hes⟩ := h k
  obtain ⟨es', hes'⟩ := h' k
  refine ⟨es ++ es', ?_⟩
  rw [hes', hes, Option.map_map]
  simp only [Function.comp_def, List.foldl_append]

theorem signalled_signal (e : SimExceptions) : Effect.Moves Signalled (signal e) := by
  intro s
  rw [signal, EStateM.run_bind, EStateM.run_get]
  dsimp only
  cases hc : s.cores with
  | nil => exact .refl s
  | cons core cores =>
    intro k
    cases k with
    | zero => exact ⟨[e], by rw [hc]; rfl⟩
    | succ k => exact ⟨[], by rw [hc]; exact Option.map_id'.symm⟩

/-- What holds of the parts of `ServiceDevices` holds of it. -/
theorem moves_serviceDevices {R : RiscvSimulator → RiscvSimulator → Prop} (hr : ∀ s, R s s)
    (ht : ∀ {a b c}, R a b → R b c → R a c) (hcall : Effect.Moves R nextCall)
    (hmodify : ∀ f, Effect.Moves R (modifyDevices f)) (hsignal : ∀ e, Effect.Moves R (signal e)) :
    Effect.Moves R serviceDevices := by
  have hbind : ∀ {α β : Type} {x : SimM α} {f : α → SimM β}, Effect.Moves R x →
      (∀ a, Effect.Moves R (f a)) → Effect.Moves R (x >>= f) := fun hx hf =>
    Effect.moves_bind (R := R) ht hx hf
  have hget : Effect.Moves R (get : SimM RiscvSimulator) := hr
  have hpure : ∀ u : Unit, Effect.Moves R (pure u : SimM Unit) := fun _ => hr
  have huart : Effect.Moves R (do
      if (← get).memory.deviceObjects.uart1.isImplemented then
        let call ← nextCall
        let stdin := (← get).host.stdin call
        modifyDevices fun d => { d with uart1 := d.uart1.advanceClock.serviceIos stdin }
        if (← get).memory.deviceObjects.uart1.interruptPending then signal .machineExternalInt) := by
    refine hbind hget fun s => ?_
    split
    · refine hbind hcall fun _ => hbind hget fun _ => hbind (hmodify _) fun _ =>
        hbind hget fun _ => ?_
      split
      · exact hsignal _
      · exact hpure _
    · exact hpure _
  refine hbind hget fun s => ?_
  split
  · refine hbind (hmodify _) fun _ => hbind hget fun _ => ?_
    split
    · exact hbind (hsignal _) fun _ => huart
    · exact huart
  · exact huart

theorem signalled_serviceDevices : Effect.Moves Signalled serviceDevices :=
  moves_serviceDevices .refl .trans (fun _ => .of_cores rfl) (fun _ _ => .of_cores rfl)
    signalled_signal

/-- The end of test is a flag. -/
theorem setEndTest_eq (isaTest : Bool) (c : Iclass) (pc : U32) (core : RiscvState) :
    ∃ b, setEndTest isaTest c pc core = { core with endTest := b } := by
  unfold setEndTest
  split <;> dsimp only <;> split
  · exact ⟨_, rfl⟩
  · split <;> exact ⟨_, rfl⟩
  · exact ⟨core.endTest, rfl⟩
  · split
    · exact ⟨core.endTest, rfl⟩
    · exact ⟨_, rfl⟩

@[simp] theorem pc_setEndTest (isaTest : Bool) (c : Iclass) (pc : U32) (core : RiscvState) :
    (setEndTest isaTest c pc core).pc = core.pc := by
  obtain ⟨b, hb⟩ := setEndTest_eq isaTest c pc core
  rw [hb]

/-- The execution `x` of `core`, and the core it leaves. -/
structure Commits (x : Execution) (core core' : RiscvState) : Prop where
  core_eq : x.core = core
  prepared : Prepared core x.pc x.before
  run : Step.execute.run x.before = .ok () x.after
  committed : ∃ b, core' = { core.update x.after.state with endTest := b }

/-- A step signals a core, or executes one of its instructions. -/
theorem SimStep.core_cases {s s' : RiscvSimulator} {o : Option Execution} (h : SimStep s o s')
    {k : Nat} {core' : RiscvState} (hk : s'.cores[k]? = some core') :
    ∃ core, s.cores[k]? = some core ∧
      (((∀ x ∈ o, x.k ≠ k) ∧ ∃ es : List SimExceptions, core' = es.foldl RiscvState.signal core) ∨
        ∃ x, o = some x ∧ x.k = k ∧ Commits x core core') := by
  have hsignalled : Signalled s s' → (∀ x ∈ o, x.k ≠ k) → ∃ core, s.cores[k]? = some core ∧
      (((∀ x ∈ o, x.k ≠ k) ∧ ∃ es : List SimExceptions, core' = es.foldl RiscvState.signal core) ∨
        ∃ x, o = some x ∧ x.k = k ∧ Commits x core core') := by
    intro hs hne
    obtain ⟨es, hes⟩ := hs k
    rw [hk] at hes
    cases hcore : s.cores[k]? with
    | none => rw [hcore] at hes; cases hes
    | some core =>
      rw [hcore] at hes
      exact ⟨core, rfl, .inl ⟨hne, es, Option.some.inj hes⟩⟩
  cases h with
  | @executed j _ s₁ _ core pc i i' prepared run step =>
    obtain ⟨hcore, hprep⟩ := prepare_prepared prepared
    obtain ⟨i₁, i₁', t, hc⟩ := stepCore_executed step
    obtain ⟨core₁, pc₁, hprep₁, -, hcores⟩ := hc.prepared
    rw [prepared] at hprep₁
    cases hprep₁
    obtain rfl : i' = i₁' := (EStateM.Result.ok.inj (run.symm.trans hc.executed)).2
    by_cases hj : j = k
    · subst hj
      have hlt := (List.getElem?_eq_some_iff.mp hcore).1
      rw [hcores, List.getElem?_set_self hlt] at hk
      obtain ⟨b, hb⟩ := setEndTest_eq s₁.simCfg.isaTest i'.iclass pc (core.update i'.state)
      exact ⟨core, hcore, .inr ⟨_, rfl, rfl, rfl, hprep.with_memory _, run, b,
        (Option.some.inj hk).symm.trans hb⟩⟩
    · rw [hcores, List.getElem?_set_ne hj] at hk
      exact ⟨core', hk, .inl ⟨by simpa using hj, [], rfl⟩⟩
  | returned step => exact hsignalled (.of_cores (stepCore_returned step).cores) (by simp)
  | failed step => exact hsignalled (.of_cores (stepCore_runtimeError step).cores) (by simp)
  | clock | go => exact hsignalled (.of_cores rfl) (by simp)
  | devices tick =>
    have hs := signalled_serviceDevices s
    rw [tick] at hs
    exact hsignalled hs (by simp)
  | ready run =>
    obtain ⟨rfl, -⟩ := getReadyCpus_ok run
    exact hsignalled (.of_cores rfl) (by simp)

/-- Cores do not go away. -/
theorem SimStep.core_some {s s' : RiscvSimulator} {o : Option Execution} (h : SimStep s o s')
    {k : Nat} {core : RiscvState} (hk : s.cores[k]? = some core) :
    ∃ core', s'.cores[k]? = some core' := by
  have hsignalled : Signalled s s' → ∃ core', s'.cores[k]? = some core' := by
    intro hs
    obtain ⟨es, hes⟩ := hs k
    exact ⟨_, by rw [hes, hk]; rfl⟩
  cases h with
  | executed prepared run step =>
    obtain ⟨i₁, i₁', t, hc⟩ := stepCore_executed step
    obtain ⟨core₁, pc₁, -, -, hcores⟩ := hc.prepared
    have hlt := (List.getElem?_eq_some_iff.mp hk).1
    exact ⟨_, List.getElem?_eq_some_iff.mpr ⟨by rw [hcores, List.length_set]; exact hlt, rfl⟩⟩
  | returned step => exact hsignalled (.of_cores (stepCore_returned step).cores)
  | failed step => exact hsignalled (.of_cores (stepCore_runtimeError step).cores)
  | clock | go => exact hsignalled (.of_cores rfl)
  | devices tick =>
    have hs := signalled_serviceDevices s
    rw [tick] at hs
    exact hsignalled hs
  | ready run =>
    obtain ⟨rfl, -⟩ := getReadyCpus_ok run
    exact hsignalled (.of_cores rfl)

/-- What an execution did to the core it belongs to. -/
theorem SimStep.commits {s s' : RiscvSimulator} {x : Execution} (h : SimStep s (some x) s') :
    ∃ core core', s.cores[x.k]? = some core ∧ s'.cores[x.k]? = some core' ∧
      Commits x core core' := by
  have hk : ∃ core', s'.cores[x.k]? = some core' := by
    cases h with
    | executed prepared run step =>
      obtain ⟨i₁, i₁', t, hc⟩ := stepCore_executed step
      obtain ⟨core₁, pc₁, hprep₁, -, hcores⟩ := hc.prepared
      have hlt := (List.getElem?_eq_some_iff.mp (prepare_prepared hprep₁).1).1
      exact ⟨_, by rw [hcores, List.getElem?_set_self hlt]⟩
  obtain ⟨core', hcore'⟩ := hk
  obtain ⟨core, hcore, ⟨hne, -⟩ | ⟨y, hy, -, hcommits⟩⟩ := h.core_cases hcore'
  · exact absurd rfl (hne x rfl)
  · cases hy
    exact ⟨core, core', hcore, hcore', hcommits⟩

/-! ### Invariants of cores -/

section Invariant

variable {P : RiscvState → Prop} {ok : Execution → Prop}
  (hsignal : ∀ {core} e, P core → P (core.signal e))
  (hexec : ∀ {x core core'}, Commits x core core' → ok x → P core → P core')
  {s s' : RiscvSimulator} {xs : List Execution}
include hsignal hexec

/-- A run keeps what signals keep and executions that meet `ok` keep, of every core. -/
theorem Run.cores_invariant (h : Run s xs s') (hs : ∀ core ∈ s.cores, P core)
    (hok : ∀ x ∈ xs, ok x) : ∀ core ∈ s'.cores, P core := by
  refine h.invariant (P := fun s => ∀ core ∈ s.cores, P core) ?_ hok hs
  intro s o s' hstep hlabel hpre core' hcore'
  obtain ⟨k, hk⟩ := List.getElem?_of_mem hcore'
  obtain ⟨core, hcore, ⟨-, es, rfl⟩ | ⟨x, rfl, -, hx⟩⟩ := hstep.core_cases hk
  · exact List.foldlRecOn es RiscvState.signal (hpre core (List.mem_of_getElem? hcore))
      fun _ h e _ => hsignal e h
  · exact hexec hx (hlabel x rfl) (hpre core (List.mem_of_getElem? hcore))

/-- So every instruction of the run was executed on a core that has it. -/
theorem Run.executions_invariant (h : Run s xs s') (hs : ∀ core ∈ s.cores, P core)
    (hok : ∀ x ∈ xs, ok x) {x : Execution} (hx : x ∈ xs) :
    ∃ core core', P core ∧ Commits x core core' := by
  obtain ⟨l₁, l₂, rfl⟩ := List.append_of_mem hx
  obtain ⟨s₁, s₂, hpre, hstep, -⟩ := h.split
  obtain ⟨core, core', hcore, -, hcommits⟩ := hstep.commits
  have hinv := Run.cores_invariant hsignal hexec hpre hs
    fun y hy => hok y (List.mem_append_left _ hy)
  exact ⟨core, core', hinv core (List.mem_of_getElem? hcore), hcommits⟩

end Invariant

/-- What `StepCore` executes, and the state it completes in. -/
def execution (k : Nat) (s : RiscvSimulator) : Option (Execution × RiscvSimulator) :=
  match (prepare k).run s with
  | .ok (.ok (core, pc, i)) s₁ =>
    let before := { i with memory := s₁.memory }
    match Step.execute.run before, (stepCore k).run s with
    | .ok _ after, .ok .executed s' => some ({ k, core, pc, before, after }, s')
    | _, _ => none
  | _ => none

theorem SimStep.of_execution {k : Nat} {s s' : RiscvSimulator} {x : Execution}
    (h : execution k s = some (x, s')) : SimStep s (some x) s' := by
  unfold execution at h
  split at h
  · next hprep =>
    dsimp only at h
    split at h
    · next hrun hstep =>
      cases h
      exact .executed hprep hrun hstep
    · cases h
  · cases h

/-- The image of the host in memory. -/
def loaded (s : RiscvSimulator) : RiscvSimulator :=
  { s with memory := (s.host.loadTestImage s.memory).2 }

theorem Run.loaded (s : RiscvSimulator) : Run s [] s.loaded :=
  (Trace.Run.refl s).tail_silent (.go s _ s.rcode s.instrCount)

/-! ### The loop of `Go` -/

/-- One turn of the loop of `StepCores`. -/
theorem stepCores_cons {k : Nat} {ks : List Nat} {events : List Event} {s s' : RiscvSimulator}
    (h : (stepCores (k :: ks)).run s = .ok events s') :
    (s.rcode ≠ 0 ∧ events = [] ∧ s' = s) ∨
    (∃ what s₁, (stepCore k).run s = .error (.runtimeError what) s₁ ∧ events = [] ∧
      s' = { s₁ with rcode := -1 }) ∨
    ∃ e later s₁, (stepCore k).run s = .ok e s₁ ∧ (stepCores ks).run s₁ = .ok later s' ∧
      events = (k, e) :: later := by
  rw [stepCores, EStateM.run_bind, EStateM.run_get] at h
  dsimp only at h
  split at h
  · next hr => cases h; exact .inl ⟨hr, rfl, rfl⟩
  · obtain ⟨r, s₁, hr, h⟩ := Effect.ok_of_bind h
    rw [Effect.run_tryCatch, ← bind_pure_comp, EStateM.run_bind] at hr
    cases hstep : (stepCore k).run s with
    | ok e s₂ =>
      rw [hstep] at hr
      cases hr
      obtain ⟨later, s₃, hlater, h⟩ := Effect.ok_of_bind h
      cases h
      exact .inr (.inr ⟨e, later, s₁, rfl, hlater, rfl⟩)
    | error f s₂ =>
      rw [hstep] at hr
      cases f with
      | runtimeError what =>
        cases hr
        cases h
        exact .inr (.inl ⟨what, s₂, rfl, rfl, rfl⟩)
      | _ => cases hr

/-- It has stepped a core if nothing has failed in the end. -/
theorem stepCores_cons_of_rcode {k : Nat} {ks : List Nat} {events : List Event}
    {s s' : RiscvSimulator} (h : (stepCores (k :: ks)).run s = .ok events s') (hr : s'.rcode = 0) :
    ∃ e later s₁, (stepCore k).run s = .ok e s₁ ∧ (stepCores ks).run s₁ = .ok later s' ∧
      events = (k, e) :: later := by
  rcases stepCores_cons h with ⟨hfailed, -, rfl⟩ | ⟨what, s₁, -, -, rfl⟩ | hstepped
  · exact absurd hr hfailed
  · have hminus : (-1 : Int) = 0 := hr
    omega
  · exact hstepped

/-- The parts of a turn. -/
theorem turn_ok {ready ready' : List Nat} {events : List Event} {s s' : RiscvSimulator}
    (h : (turn ready).run s = .ok (events, ready') s') :
    ∃ s₁ s₂, (stepCores ready).run s = .ok events s₁ ∧
      serviceDevices.run { s₁ with clock := s₁.clock + 1 } = .ok () s₂ ∧
      getReadyCpus.run s₂ = .ok ready' s' := by
  have hafter : ∀ {evs : List Event} {t : RiscvSimulator}, (do
      advanceClock
      serviceDevices
      return (evs, ← getReadyCpus) : SimM (List Event × List Nat)).run t = .ok (events, ready') s' →
      evs = events ∧ ∃ s₂, serviceDevices.run { t with clock := t.clock + 1 } = .ok () s₂ ∧
        getReadyCpus.run s₂ = .ok ready' s' := by
    intro evs t h
    obtain ⟨_, s₁, hclock, h⟩ := Effect.ok_of_bind h
    obtain ⟨_, s₂, hserve, h⟩ := Effect.ok_of_bind h
    obtain ⟨r, s₃, hready, h⟩ := Effect.ok_of_bind h
    cases h
    cases hclock
    exact ⟨rfl, s₂, hserve, hready⟩
  rw [turn] at h
  split at h
  · obtain ⟨evs, s₁, hsteps, h⟩ := Effect.ok_of_bind h
    obtain ⟨rfl, s₂, hserve, hready⟩ := hafter h
    exact ⟨s₁, s₂, hsteps, hserve, hready⟩
  · next hempty =>
    obtain rfl : ready = [] := by simpa using hempty
    obtain ⟨evs, s₁, hsteps, h⟩ := Effect.ok_of_bind h
    obtain ⟨rfl, s₂, hserve, hready⟩ := hafter h
    exact ⟨s₁, s₂, hsteps, hserve, hready⟩

/-- A step that completed is a step of a run. -/
theorem SimStep.of_executed {k : Nat} {s s' : RiscvSimulator}
    (h : (stepCore k).run s = .ok .executed s') : ∃ x, x.k = k ∧ SimStep s (some x) s' := by
  obtain ⟨i, i', s₁, hc⟩ := stepCore_executed h
  obtain ⟨core, pc, hprep, -, -⟩ := hc.prepared
  exact ⟨_, rfl, .executed hprep hc.executed h⟩

theorem stepCores_runs (ks : List Nat) {events : List Event} {s s' : RiscvSimulator}
    (h : (stepCores ks).run s = .ok events s') : ∃ xs, Run s xs s' := by
  induction ks generalizing events s with
  | nil => cases h; exact ⟨[], .refl _⟩
  | cons k ks ih =>
    rcases stepCores_cons h with ⟨-, -, rfl⟩ | ⟨what, s₁, hstep, -, rfl⟩ |
      ⟨e, later, s₁, hstep, hlater, -⟩
    · exact ⟨[], .refl _⟩
    · exact ⟨[], (Trace.Run.single (SimStep.failed hstep)).tail_silent
        (.go s₁ s₁.memory (-1) s₁.instrCount)⟩
    · obtain ⟨xs, hxs⟩ := ih hlater
      cases e with
      | returned why => exact ⟨xs, (Trace.Run.single (SimStep.returned hstep)).trans hxs⟩
      | executed =>
        obtain ⟨x, -, hx⟩ := SimStep.of_executed hstep
        exact ⟨x :: xs, (Trace.Run.single hx).trans hxs⟩

theorem turn_runs {ready : List Nat} {r : List Event × List Nat} {s s' : RiscvSimulator}
    (h : (turn ready).run s = .ok r s') : ∃ xs, Run s xs s' := by
  obtain ⟨events, ready'⟩ := r
  obtain ⟨s₁, s₂, hsteps, hserve, hready⟩ := turn_ok h
  obtain ⟨xs, hxs⟩ := stepCores_runs ready hsteps
  exact ⟨_, ((hxs.tail (.clock s₁)).tail (.devices hserve)).tail (.ready hready)⟩

theorem loop_runs (n : Nat) {ready : List Nat} {r : Bool × List Event} {s s' : RiscvSimulator}
    (h : (loop n ready).run s = .ok r s') : ∃ xs, Run s xs s' := by
  induction n generalizing ready r s with
  | zero => cases h; exact ⟨[], .refl _⟩
  | succ n ih =>
    rw [loop, EStateM.run_bind, EStateM.run_get] at h
    dsimp only at h
    split at h
    · obtain ⟨⟨first, ready'⟩, s₁, hturn, h⟩ := Effect.ok_of_bind h
      obtain ⟨⟨left', later⟩, s₂, hloop, h⟩ := Effect.ok_of_bind h
      cases h
      obtain ⟨xs, hxs⟩ := turn_runs hturn
      obtain ⟨ys, hys⟩ := ih hloop
      exact ⟨xs ++ ys, hxs.trans hys⟩
    · cases h; exact ⟨[], .refl _⟩

theorem startGo_runs {r : Except Int (List Nat)} {s s' : RiscvSimulator}
    (h : startGo.run s = .ok r s') : ∃ xs, Run s xs s' := by
  rw [startGo, EStateM.run_bind, EStateM.run_get] at h
  obtain ⟨_, s₁, hset, h⟩ := Effect.ok_of_bind h
  cases hset
  have hload : Run s [] { s with
      rcode := (s.host.loadTestImage s.memory).1, memory := (s.host.loadTestImage s.memory).2 } :=
    (Trace.Run.refl s).tail_silent (.go s _ _ s.instrCount)
  split at h
  · cases h; exact ⟨[], hload⟩
  · obtain ⟨ready, s₂, hready, h⟩ := Effect.ok_of_bind h
    obtain ⟨_, s₃, hmodify, h⟩ := Effect.ok_of_bind h
    cases h
    cases hmodify
    exact ⟨_, (hload.tail (.ready hready)).tail (.go s₂ s₂.memory s₂.rcode 0)⟩

/-- `Go` is a run. -/
theorem go_runs {n : Nat} {r : Option Int × List Event} {s s' : RiscvSimulator}
    (h : (go n).run s = .ok r s') : ∃ xs, Run s xs s' := by
  obtain ⟨start, s₁, hstart, h⟩ := Effect.ok_of_bind h
  obtain ⟨xs, hxs⟩ := startGo_runs hstart
  cases start with
  | error rcode => cases h; exact ⟨xs, hxs⟩
  | ok ready =>
    obtain ⟨⟨left, events⟩, s₂, hloop, h⟩ := Effect.ok_of_bind h
    obtain ⟨ys, hys⟩ := loop_runs n hloop
    dsimp only at h
    split at h
    · cases h; exact ⟨_, hxs.trans hys⟩
    · obtain ⟨_, s₃, hmodify, h⟩ := Effect.ok_of_bind h
      obtain ⟨_, s₄, hget, h⟩ := Effect.ok_of_bind h
      cases h
      cases hget
      cases hmodify
      exact ⟨_, (hxs.trans hys).tail (.go s₂ s₂.memory _ s₂.instrCount)⟩

end RiscvSimulator

end Dimebox
