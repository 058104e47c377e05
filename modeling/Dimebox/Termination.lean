import Dimebox.Lib.Loop
import Dimebox.Budget
import Dimebox.Sleep

/-! Does a simulation with a budget end?

    A round of the loop of `Go` with a ready core executes an instruction, fails or throws, so there
    are finitely many of them. While every core that has not halted is asleep the loop keeps ticking
    the devices, in the hope that one of them wakes a core. It ends if and only if that hope is never
    in vain. -/

namespace Dimebox.RiscvSimulator

/-- One round of the loop of `Go`. -/
def iteration (c : RiscvSimulator × List Nat) : Option (RiscvSimulator × List Nat) :=
  if c.1.goesOn c.2 then
    match (turn c.2).run c.1 with
    | .ok (_, ready) s => some (s, ready)
    | .error _ _ => none
  else none

theorem iteration_some {s s' : RiscvSimulator} {ready ready' : List Nat} :
    iteration (s, ready) = some (s', ready') ↔
      s.goesOn ready ∧ ∃ events, (turn ready).run s = .ok (events, ready') s' := by
  rw [iteration]
  constructor
  · intro h
    split at h
    · next hgo =>
      cases hturn : (turn ready).run s with
      | error f s₁ => simp only [hturn] at h; cases h
      | ok r s₁ => simp only [hturn] at h; cases h; exact ⟨hgo, r.1, rfl⟩
    · cases h
  · rintro ⟨hgo, events, hturn⟩
    rw [if_pos hgo]
    simp only [hturn]

/-- The loop was left: its condition failed, or a round threw. -/
def Left : EStateM.Result Fault RiscvSimulator (Bool × List Event) → Prop
  | .ok r _ => r.1
  | .error _ _ => True

theorem left_of_iterate (t : Nat) {s : RiscvSimulator} {ready : List Nat}
    (h : Loop.iterate iteration t (s, ready) = none) : Left ((loop t ready).run s) := by
  induction t generalizing s ready with
  | zero => cases h
  | succ t ih =>
    by_cases hgo : s.goesOn ready
    · cases hturn : (turn ready).run s with
      | error f s₁ =>
        rw [loop_of_goesOn hgo, EStateM.run_bind, hturn]
        trivial
      | ok r s₁ =>
        obtain ⟨events, ready'⟩ := r
        have hnext : iteration (s, ready) = some (s₁, ready') := iteration_some.mpr ⟨hgo, _, hturn⟩
        rw [Loop.iterate, hnext] at h
        have hrest := ih h
        rw [loop_cons hgo hturn]
        cases hloop : (loop t ready').run s₁ with
        | error f s₂ => trivial
        | ok r s₂ => rw [hloop] at hrest; exact hrest
    · rw [loop_of_done hgo]
      rfl

theorem iterate_of_left (t : Nat) {s : RiscvSimulator} {ready : List Nat}
    (h : Left ((loop t ready).run s)) : Loop.iterate iteration (t + 1) (s, ready) = none := by
  induction t generalizing s ready with
  | zero =>
    by_cases hgo : s.goesOn ready
    · rw [loop, EStateM.run_bind, EStateM.run_get] at h
      dsimp only at h
      rw [hgo] at h
      cases h
    · rw [Loop.iterate, iteration, if_neg hgo]
      rfl
  | succ t ih =>
    by_cases hgo : s.goesOn ready
    · cases hturn : (turn ready).run s with
      | error f s₁ =>
        have hnone : iteration (s, ready) = none := by
          rw [iteration, if_pos hgo]
          simp only [hturn]
        rw [Loop.iterate, hnone]
        rfl
      | ok r s₁ =>
        obtain ⟨events, ready'⟩ := r
        have hnext : iteration (s, ready) = some (s₁, ready') := iteration_some.mpr ⟨hgo, _, hturn⟩
        rw [Loop.iterate, hnext]
        refine ih ?_
        rw [loop_cons hgo hturn] at h
        cases hloop : (loop t ready').run s₁ with
        | error f s₂ => trivial
        | ok r s₂ => rw [hloop] at h; exact h
    · rw [Loop.iterate, iteration, if_neg hgo]
      rfl

/-- The loop is left after some number of rounds if and only if it ends. -/
theorem left_iff_ends {s : RiscvSimulator} {ready : List Nat} :
    (∃ t, Left ((loop t ready).run s)) ↔ Loop.Ends iteration (s, ready) :=
  ⟨fun ⟨t, h⟩ => ⟨t + 1, iterate_of_left t h⟩, fun ⟨t, h⟩ => ⟨t, left_of_iterate t h⟩⟩

/-! ### Rounds in which no core is ready -/

/-- What a tick of the clock and the devices leaves alone. -/
structure Idle (s s' : RiscvSimulator) : Prop where
  maxInstrs : s'.simCfg.maxInstrs = s.simCfg.maxInstrs
  debugServer : s'.debugServer = s.debugServer
  rcode : s'.rcode = s.rcode
  instrCount : s'.instrCount = s.instrCount
  asleep : s'.cores.map RiscvState.lowPowerMode = s.cores.map RiscvState.lowPowerMode

theorem Idle.refl (s : RiscvSimulator) : Idle s s := ⟨rfl, rfl, rfl, rfl, rfl⟩

theorem Idle.trans {s s' s'' : RiscvSimulator} (h : Idle s s') (h' : Idle s' s'') : Idle s s'' :=
  ⟨h'.maxInstrs.trans h.maxInstrs, h'.debugServer.trans h.debugServer, h'.rcode.trans h.rcode,
    h'.instrCount.trans h.instrCount, h'.asleep.trans h.asleep⟩

theorem Idle.cores {s s' : RiscvSimulator} (h : Idle s s') (hs : s.cores ≠ []) : s'.cores ≠ [] := by
  intro hnil
  have hmap := h.asleep
  rw [hnil, List.map_nil] at hmap
  exact hs (List.map_eq_nil_iff.mp hmap.symm)

theorem Idle.sleepingCores {s s' : RiscvSimulator} (h : Idle s s') :
    s'.sleepingCores = s.sleepingCores := by
  have hany : ∀ t : RiscvSimulator, t.sleepingCores = (t.cores.map RiscvState.lowPowerMode).any id := by
    intro t
    rw [RiscvSimulator.sleepingCores, List.any_map]
    rfl
  rw [hany, hany, h.asleep]

theorem Idle.goesOn {s s' : RiscvSimulator} (h : Idle s s') (ready : List Nat) :
    s'.goesOn ready = s.goesOn ready := by
  have hexceeded : s'.instructionCountExceeded = s.instructionCountExceeded := by
    rw [instructionCountExceeded, instructionCountExceeded, h.maxInstrs, h.instrCount]
  rw [RiscvSimulator.goesOn, RiscvSimulator.goesOn, h.rcode, hexceeded, h.sleepingCores]

/-- If there is a core, `x` returns, and does nothing but tick. -/
def Idles {α : Type} (x : SimM α) : Prop :=
  ∀ s : RiscvSimulator, s.cores ≠ [] → ∃ a s', x.run s = .ok a s' ∧ Idle s s'

section Idles

variable {α β : Type}

theorem idles_pure (a : α) : Idles (pure a : SimM α) := fun s _ => ⟨a, s, rfl, .refl s⟩

theorem idles_get : Idles (get : SimM RiscvSimulator) := fun s _ => ⟨s, s, rfl, .refl s⟩

theorem idles_bind {x : SimM α} {f : α → SimM β} (hx : Idles x) (hf : ∀ a, Idles (f a)) :
    Idles (x >>= f) := by
  intro s hs
  obtain ⟨a, s₁, hrun, hidle⟩ := hx s hs
  obtain ⟨b, s₂, hrun', hidle'⟩ := hf a s₁ (hidle.cores hs)
  exact ⟨b, s₂, by rw [EStateM.run_bind, hrun]; exact hrun', hidle.trans hidle'⟩

theorem idles_nextCall : Idles nextCall := fun _ _ => ⟨_, _, rfl, rfl, rfl, rfl, rfl, rfl⟩

theorem idles_modifyDevices (f : Devices → Devices) : Idles (modifyDevices f) :=
  fun _ _ => ⟨_, _, rfl, rfl, rfl, rfl, rfl, rfl⟩

theorem idles_signal (e : SimExceptions) : Idles (signal e) := by
  intro s hs
  rw [signal, EStateM.run_bind, EStateM.run_get]
  dsimp only
  cases hc : s.cores with
  | nil => exact absurd hc hs
  | cons core cores =>
    refine ⟨(), _, rfl, rfl, rfl, rfl, rfl, ?_⟩
    have hlow : (core.signal e).lowPowerMode = core.lowPowerMode := by
      obtain ⟨mip, hmip⟩ := core.foldl_signal [e]
      have hsignal : core.signal e = { core with reg := Function.update core.reg .mip mip } := hmip
      rw [hsignal]
      rfl
    rw [hc, List.map_cons, List.map_cons, hlow]

theorem idles_serviceDevices : Idles serviceDevices := by
  have huart : Idles (do
      if (← get).memory.deviceObjects.uart1.isImplemented then
        let call ← nextCall
        let stdin := (← get).host.stdin call
        modifyDevices fun d => { d with uart1 := d.uart1.advanceClock.serviceIos stdin }
        if (← get).memory.deviceObjects.uart1.interruptPending then signal .machineExternalInt) := by
    refine idles_bind idles_get fun s => ?_
    split
    · refine idles_bind idles_nextCall fun _ => idles_bind idles_get fun _ =>
        idles_bind (idles_modifyDevices _) fun _ => idles_bind idles_get fun _ => ?_
      split
      · exact idles_signal _
      · exact idles_pure _
    · exact idles_pure _
  refine idles_bind idles_get fun s => ?_
  split
  · refine idles_bind (idles_modifyDevices _) fun _ => idles_bind idles_get fun _ => ?_
    split
    · exact idles_bind (idles_signal _) fun _ => huart
    · exact huart
  · exact huart

/-- What follows the steps of a turn. -/
theorem idles_tick (events : List Event) : Idles (do
    advanceClock
    serviceDevices
    return (events, ← getReadyCpus) : SimM (List Event × List Nat)) :=
  idles_bind (fun _ _ => ⟨_, _, rfl, rfl, rfl, rfl, rfl, rfl⟩) fun _ =>
    idles_bind idles_serviceDevices fun _ =>
    idles_bind (idles_bind idles_nextCall fun _ => idles_bind idles_get fun _ => idles_pure _)
      fun _ => idles_pure _

end Idles

/-- A round with no core ready, and one asleep, completes. -/
theorem turn_nil {s : RiscvSimulator} (h : s.goesOn []) :
    ∃ ready s', iteration (s, []) = some (s', ready) ∧ Idle s s' := by
  have hcores : s.cores ≠ [] := by
    intro hnil
    rw [goesOn, RiscvSimulator.sleepingCores, hnil] at h
    simp at h
  obtain ⟨⟨events, ready⟩, s', hrun, hidle⟩ := idles_tick [] s hcores
  exact ⟨ready, s', iteration_some.mpr ⟨h, events, hrun⟩, hidle⟩

/-! ### Rounds with a ready core -/

/-- The working state of a step of a ready core is awake. -/
theorem awake_of_ready {storage core work : RiscvState} (hready : core.ready)
    (h : serviceInterrupt (RiscvState.copy storage core) = .ok work) :
    work.lowPowerMode = false := by
  have hlow := RiscvState.lowPowerMode_copy storage core
  have hpending : (RiscvState.copy storage core).interruptPending = core.interruptPending :=
    RiscvState.interruptPending_update _ _
  generalize RiscvState.copy storage core = s at h hlow hpending
  rcases serviceInterrupt_ok h with ⟨hnone, rfl⟩ | ⟨e, bit, -, -, rfl⟩
  · rw [hpending] at hnone
    rw [hlow]
    rw [RiscvState.ready, hnone] at hready
    simp only [Option.isSome_none, Bool.or_false, Bool.and_eq_true, Bool.not_eq_true'] at hready
    exact hready.2
  · exact RiscvState.lowPowerMode_takeInterrupt _ _ _

theorem tryFetch_state {work : RiscvState} {pc : U32} {r : Option (Iclass × U32)}
    {s s' : RiscvSimulator} (h : (tryFetch work pc).run s = .ok r s') :
    ∃ m, s' = { s with memory := m } := by
  rw [tryFetch, onMemory, Effect.run_focus] at h
  generalize EStateM.run _ _ = result at h
  cases result with
  | ok a m => cases h; exact ⟨m, rfl⟩
  | error f m => cases h

/-- A step without a debug server: what it leaves alone, and how it ends. -/
theorem prepare_alone {k : Nat} {s s₁ : RiscvSimulator} (hd : s.debugServer = none)
    {r : Except EarlyReturn (RiscvState × U32 × RiscvInstruction)}
    (h : (prepare k).run s = .ok r s₁) :
    s₁.debugServer = none ∧ s₁.instrCount = s.instrCount ∧
      (r = .error .fetchError → s₁.rcode = -1) ∧ r ≠ .error .refused ∧
      ∀ core, s.cores[k]? = some core → core.ready → r ≠ .error .asleep := by
  obtain ⟨call, s₂, hcall, h⟩ := Effect.ok_of_bind h
  obtain ⟨s₃, s₄, hget, h⟩ := Effect.ok_of_bind h
  cases hcall
  cases hget
  dsimp only at h
  cases hcore : s.cores[k]? with
  | none => rw [hcore] at h; cases h
  | some core =>
    rw [hcore] at h
    obtain ⟨work, s₅, hwork, h⟩ := Effect.ok_of_bind h
    cases hserviced : serviceInterrupt (RiscvState.copy (s.host.storage s.calls) core) with
    | error f => rw [hserviced] at hwork; cases hwork
    | ok work' =>
      rw [hserviced] at hwork
      cases hwork
      split at h
      · next hasleep =>
        cases h
        refine ⟨hd, rfl, by simp, by simp, fun core' hcore' hready => ?_⟩
        obtain rfl := Option.some.inj hcore'
        rw [awake_of_ready hready hserviced] at hasleep
        cases hasleep
      · obtain ⟨r', s₆, hfetch, h⟩ := Effect.ok_of_bind h
        obtain ⟨m, rfl⟩ := tryFetch_state hfetch
        cases r' with
        | none =>
          obtain ⟨_, s₇, hmodify, h⟩ := Effect.ok_of_bind h
          cases hmodify
          cases h
          exact ⟨hd, rfl, fun _ => rfl, by simp, by simp⟩
        | some r' =>
          obtain ⟨s₇, s₈, hmem, h⟩ := Effect.ok_of_bind h
          cases hmem
          obtain ⟨⟨goOn, client⟩, s₉, hdebug, h⟩ := Effect.ok_of_bind h
          rw [debugPreStepChecks, debugChecks, EStateM.run_bind, EStateM.run_get] at hdebug
          simp only [hd] at hdebug
          cases hdebug
          cases h
          exact ⟨rfl, rfl, by simp, by simp, by simp⟩

theorem commit_alone {k : Nat} {s s' : RiscvSimulator} {core : RiscvState} {pc : U32}
    {i : RiscvInstruction} (hd : s.debugServer = none) (h : (commit k core pc i).run s = .ok () s') :
    s'.debugServer = none ∧ s'.instrCount = s.instrCount + 1 := by
  obtain ⟨core', s₁, hwriteback, h⟩ := Effect.ok_of_bind h
  obtain ⟨s₂, s₃, hget, h⟩ := Effect.ok_of_bind h
  obtain ⟨_, s₄, hset, h⟩ := Effect.ok_of_bind h
  obtain ⟨_, s₅, hcount, h⟩ := Effect.ok_of_bind h
  obtain ⟨⟨goOn, core''⟩, s₆, hdebug, h⟩ := Effect.ok_of_bind h
  have hs₁ : s₁.debugServer = none ∧ s₁.instrCount = s.instrCount := by
    rw [writeback_run_eq] at hwriteback
    generalize core.update i.state = committed at hwriteback
    cases hops : (writebackOps i.mOpsMemory).run s.memory with
    | error f m => rw [hops] at hwriteback; cases hwriteback
    | ok u m => rw [hops] at hwriteback; cases hwriteback; exact ⟨hd, rfl⟩
  obtain ⟨hd₁, hcount₁⟩ := hs₁
  cases hget
  generalize setEndTest s₁.simCfg.isaTest i.iclass pc core' = ended at hset hcount hdebug h
  cases hset
  rcases countInstr_cases _ with hc | hc
  · cases hcount.symm.trans hc
    rw [debugPostStepChecks, debugChecks, EStateM.run_bind, EStateM.run_get] at hdebug
    simp only [hd₁] at hdebug
    cases hdebug
    cases h
    exact ⟨rfl, congrArg (· + 1) hcount₁⟩
  · cases hcount.symm.trans hc

/-- A step without a debug server that returned. -/
theorem stepCore_alone {k : Nat} {s s' : RiscvSimulator} {e : StepEvent}
    (hd : s.debugServer = none) (h : (stepCore k).run s = .ok e s') :
    s'.debugServer = none ∧ s.instrCount ≤ s'.instrCount ∧
      ∀ core, s.cores[k]? = some core → core.ready →
        s.instrCount < s'.instrCount ∨ s'.rcode ≠ 0 := by
  obtain ⟨r, s₁, hprep, h⟩ := Effect.ok_of_bind h
  obtain ⟨hd₁, hcount₁, hfetch, hrefused, hasleep⟩ := prepare_alone hd hprep
  cases r with
  | error why =>
    cases h
    refine ⟨hd₁, le_of_eq hcount₁.symm, fun core hcore hready => .inr ?_⟩
    cases why with
    | asleep => exact absurd rfl (hasleep core hcore hready)
    | fetchError => rw [hfetch rfl]; decide
    | refused => exact absurd rfl hrefused
  | ok r =>
    obtain ⟨core, pc, i⟩ := r
    obtain ⟨i', s₂, hexec, h⟩ := Effect.ok_of_bind h
    obtain ⟨_, s₃, hcommit, h⟩ := Effect.ok_of_bind h
    cases h
    obtain ⟨m, hfinal, -⟩ := final_execute i s₁
    rw [hexec] at hfinal
    obtain rfl : s₂ = { s₁ with memory := m } := hfinal
    obtain ⟨hd', hcount'⟩ := commit_alone (s := { s₁ with memory := m }) hd₁ hcommit
    have hcount : s'.instrCount = s.instrCount + 1 := by rw [hcount', ← hcount₁]
    exact ⟨hd', by omega, fun _ _ _ => .inl (by omega)⟩

theorem stepCores_of_failed (ks : List Nat) {s : RiscvSimulator} (h : s.rcode ≠ 0) :
    (stepCores ks).run s = .ok [] s := by
  cases ks with
  | nil => rfl
  | cons k ks =>
    rw [stepCores, EStateM.run_bind, EStateM.run_get]
    dsimp only
    rw [if_pos h]
    rfl

theorem rcode_of_stepCores {ks : List Nat} {s s' : RiscvSimulator} {events : List Event}
    (h : (stepCores ks).run s = .ok events s') (hr : s'.rcode = 0) : s.rcode = 0 := by
  by_contra hne
  rw [stepCores_of_failed ks hne] at h
  cases h
  exact hne hr

theorem stepCores_alone (ks : List Nat) {events : List Event} {s s' : RiscvSimulator}
    (hd : s.debugServer = none) (h : (stepCores ks).run s = .ok events s') :
    s'.rcode ≠ 0 ∨ s'.debugServer = none ∧ s.instrCount ≤ s'.instrCount := by
  induction ks generalizing events s with
  | nil => cases h; exact .inr ⟨hd, le_refl _⟩
  | cons k ks ih =>
    rcases stepCores_cons h with ⟨hr, -, rfl⟩ | ⟨what, s₁, -, -, rfl⟩ |
      ⟨e, later, s₁, hstep, hlater, -⟩
    · exact .inl hr
    · exact .inl (by simp)
    · obtain ⟨hd₁, hle, -⟩ := stepCore_alone hd hstep
      refine (ih hd₁ hlater).imp_right fun ⟨hd', hle'⟩ => ⟨hd', ?_⟩
      omega

/-- The ready cores of a round are ready. -/
def ReadyOn (s : RiscvSimulator) (ready : List Nat) : Prop :=
  ∀ k ∈ ready, ∃ core, s.cores[k]? = some core ∧ core.ready

theorem getReadyCpus_readyOn {s s' : RiscvSimulator} {ready : List Nat}
    (h : getReadyCpus.run s = .ok ready s') : ReadyOn s' ready := by
  obtain ⟨rfl, -, hready⟩ := getReadyCpus_ok h
  exact fun k hk => (hready k).mp hk

/-- What a loop without a debug server keeps. -/
structure Alone (c : RiscvSimulator × List Nat) : Prop where
  debugServer : c.1.debugServer = none
  ready : ReadyOn c.1 c.2

/-- The number of instructions the budget still allows, and one more. -/
def allowance (c : RiscvSimulator × List Nat) : Nat :=
  (c.1.simCfg.maxInstrs + 1 - c.1.instrCount).toNat

/-- What follows the steps of a round. -/
theorem idle_of_tick {s₁ s₂ s' : RiscvSimulator} {ready : List Nat} (hcores : s₁.cores ≠ [])
    (hserve : serviceDevices.run { s₁ with clock := s₁.clock + 1 } = .ok () s₂)
    (hget : getReadyCpus.run s₂ = .ok ready s') : Idle s₁ s' := by
  obtain ⟨_, s₃, hrun, hidle⟩ := idles_serviceDevices { s₁ with clock := s₁.clock + 1 } hcores
  cases hserve.symm.trans hrun
  have hticked : Idle s₁ { s₁ with clock := s₁.clock + 1 } := ⟨rfl, rfl, rfl, rfl, rfl⟩
  refine (hticked.trans hidle).trans ?_
  obtain ⟨rfl, -⟩ := getReadyCpus_ok hget
  exact ⟨rfl, rfl, rfl, rfl, rfl⟩

theorem Run.core_some {s s' : RiscvSimulator} {xs : List Execution} (h : Run s xs s') {k : Nat}
    {core : RiscvState} (hk : s.cores[k]? = some core) :
    ∃ core', s'.cores[k]? = some core' := by
  have hany : ∀ x ∈ xs, True := fun _ _ => trivial
  exact h.invariant (P := fun s => ∃ core, s.cores[k]? = some core)
    (fun hstep _ ⟨_, hcore⟩ => hstep.core_some hcore) hany ⟨core, hk⟩

/-- A round with a ready core ends the loop or uses up some of the budget. -/
theorem iteration_ready {s s' : RiscvSimulator} {ready ready' : List Nat}
    (halone : Alone (s, ready)) (hready : ready ≠ [])
    (h : iteration (s, ready) = some (s', ready')) :
    s'.rcode ≠ 0 ∨ Alone (s', ready') ∧ s.instrCount < s'.instrCount := by
  obtain ⟨hgo, events, hturn⟩ := iteration_some.mp h
  obtain ⟨s₁, s₂, hsteps, hserve, hget⟩ := turn_ok hturn
  obtain ⟨k, ks, rfl⟩ := List.exists_cons_of_ne_nil hready
  obtain ⟨core, hcore, hcoreReady⟩ := halone.ready k (List.mem_cons_self ..)
  have hidle : Idle s₁ s' := by
    obtain ⟨xs, hxs⟩ := stepCores_runs (k :: ks) hsteps
    obtain ⟨core₁, hcore₁⟩ := hxs.core_some hcore
    exact idle_of_tick (List.ne_nil_of_mem (List.mem_of_getElem? hcore₁)) hserve hget
  have hrcode : s.rcode = 0 := by
    rw [goesOn, Bool.and_eq_true, Bool.and_eq_true, decide_eq_true_eq] at hgo
    exact hgo.1.1
  rw [hidle.rcode, hidle.instrCount]
  rcases stepCores_cons hsteps with ⟨hr, -, -⟩ | ⟨what, t, -, -, rfl⟩ |
    ⟨e, later, t, hstep, hlater, -⟩
  · exact absurd hrcode hr
  · exact .inl (by simp)
  · obtain ⟨hd, hle, hmore⟩ := stepCore_alone halone.debugServer hstep
    rcases stepCores_alone ks hd hlater with hr | ⟨hd', hle'⟩
    · exact .inl hr
    · rcases hmore core hcore hcoreReady with hlt | hr
      · refine .inr ⟨⟨hidle.debugServer.trans hd', getReadyCpus_readyOn hget⟩, ?_⟩
        exact lt_of_lt_of_le hlt hle'
      · -- the fetch failed, and no further core is stepped
        rw [stepCores_of_failed ks hr] at hlater
        cases hlater
        exact .inl hr

/-! ### The loop -/

/-- If no core is ready after `n` rounds while one is asleep, some later round finds a core ready. -/
def WakesAfter (c : RiscvSimulator × List Nat) (n : Nat) : Prop :=
  ∀ s, Loop.iterate iteration n c = some (s, []) → s.goesOn [] →
    ∃ m s' ready, Loop.iterate iteration m (s, []) = some (s', ready) ∧ ready ≠ []

/-- The invariant of a loop that ends. -/
structure Wakeful (c : RiscvSimulator × List Nat) : Prop where
  alone : Alone c
  limited : 0 ≤ c.1.simCfg.maxInstrs
  wakes : ∀ n, WakesAfter c n

theorem WakesAfter.later {c c' : RiscvSimulator × List Nat} {m n : Nat} (h : WakesAfter c (m + n))
    (hc : Loop.iterate iteration m c = some c') : WakesAfter c' n := by
  intro s hs
  refine h s ?_
  rw [Loop.iterate_add, hc]
  exact hs

theorem iterate_one (c : RiscvSimulator × List Nat) : Loop.iterate iteration 1 c = iteration c := by
  rw [Loop.iterate]
  cases iteration c <;> rfl

theorem ends_of_failed {s : RiscvSimulator} (h : s.rcode ≠ 0) (ready : List Nat) :
    Loop.Ends iteration (s, ready) := by
  refine Loop.ends_of_none ?_
  have hdone : ¬ s.goesOn ready := by
    rw [goesOn, decide_eq_false h]
    simp
  rw [iteration, if_neg hdone]

/-- A round with a ready core is progress. -/
theorem progress_ready {s : RiscvSimulator} {ready : List Nat} (h : Wakeful (s, ready))
    (hready : ready ≠ []) : Loop.Ends iteration (s, ready) ∨
      ∃ c', iteration (s, ready) = some c' ∧ Wakeful c' ∧ allowance c' < allowance (s, ready) := by
  cases hnext : iteration (s, ready) with
  | none => exact .inl (Loop.ends_of_none hnext)
  | some c' =>
    obtain ⟨s', ready'⟩ := c'
    have hone : Loop.iterate iteration 1 (s, ready) = some (s', ready') := by
      rw [iterate_one, hnext]
    obtain ⟨hgo, events, hturn⟩ := iteration_some.mp hnext
    have hmax := turn_maxInstrs hturn
    have hlimited : 0 ≤ s.simCfg.maxInstrs := h.limited
    have hcount := count_le_of_goesOn h.limited hgo
    rcases iteration_ready h.alone hready hnext with hr | ⟨halone, hlt⟩
    · exact .inl (Loop.ends_of_iterate hone (ends_of_failed hr ready'))
    · refine .inr ⟨(s', ready'), rfl, ⟨halone, ?_, fun n => ?_⟩, ?_⟩
      · rw [hmax]
        exact hlimited
      · exact (h.wakes (1 + n)).later hone
      · simp only [allowance, hmax]
        dsimp only at hcount
        omega

/-- The first round that finds a core ready. -/
theorem first_ready (m : Nat) {s s' : RiscvSimulator} {ready : List Nat}
    (h : Loop.iterate iteration m (s, []) = some (s', ready)) (hready : ready ≠ []) :
    ∃ n s₁ ready₁, Loop.iterate iteration n (s, []) = some (s₁, ready₁) ∧ ready₁ ≠ [] ∧
      Idle s s₁ ∧ ReadyOn s₁ ready₁ := by
  induction m generalizing s with
  | zero =>
    cases h
    exact absurd rfl hready
  | succ m ih =>
    rw [Loop.iterate] at h
    cases hnext : iteration (s, []) with
    | none => rw [hnext] at h; cases h
    | some c =>
      obtain ⟨s₁, ready₁⟩ := c
      rw [hnext] at h
      obtain ⟨hgo, events, hturn⟩ := iteration_some.mp hnext
      obtain ⟨ready₂, s₂, hnext', hidle⟩ := turn_nil hgo
      cases hnext.symm.trans hnext'
      by_cases hnil : ready₁ = []
      · subst hnil
        obtain ⟨n, s₂, ready₂, hn, hne, hidle', hon⟩ := ih h
        refine ⟨n + 1, s₂, ready₂, ?_, hne, hidle.trans hidle', hon⟩
        rw [Loop.iterate, hnext]
        exact hn
      · obtain ⟨t₁, t₂, -, -, hget⟩ := turn_ok hturn
        exact ⟨1, s₁, ready₁, by rw [iterate_one, hnext], hnil, hidle, getReadyCpus_readyOn hget⟩

theorem progress {c : RiscvSimulator × List Nat} (h : Wakeful c) : Loop.Ends iteration c ∨
    ∃ n c', Loop.iterate iteration n c = some c' ∧ Wakeful c' ∧ allowance c' < allowance c := by
  obtain ⟨s, ready⟩ := c
  by_cases hnil : ready = []
  · subst hnil
    by_cases hgo : s.goesOn []
    · obtain ⟨m, s', ready', hm, hne⟩ := h.wakes 0 s rfl hgo
      obtain ⟨n, s₁, ready₁, hn, hne₁, hidle, hon⟩ := first_ready m hm hne
      have hwakeful : Wakeful (s₁, ready₁) := by
        refine ⟨⟨hidle.debugServer.trans h.alone.debugServer, hon⟩, ?_, fun k => ?_⟩
        · rw [hidle.maxInstrs]
          exact h.limited
        · exact (h.wakes (n + k)).later hn
      have hallowance : allowance (s₁, ready₁) = allowance (s, []) := by
        simp only [allowance, hidle.maxInstrs, hidle.instrCount]
      rcases progress_ready hwakeful hne₁ with hends | ⟨c', hnext, hc', hlt⟩
      · exact .inl (Loop.ends_of_iterate hn hends)
      · refine .inr ⟨n + 1, c', ?_, hc', hallowance ▸ hlt⟩
        rw [Loop.iterate_add, hn]
        exact (iterate_one _).trans hnext
    · exact .inl (Loop.ends_of_none (by rw [iteration, if_neg hgo]))
  · rcases progress_ready h hnil with hends | ⟨c', hnext, hc', hlt⟩
    · exact .inl hends
    · exact .inr ⟨1, c', (iterate_one _).trans hnext, hc', hlt⟩

/-- If no later round finds a core ready, the loop does not end. -/
theorem not_ends_of_asleep {s : RiscvSimulator} (hgo : s.goesOn [])
    (hasleep : ∀ m s' ready, Loop.iterate iteration m (s, []) = some (s', ready) → ready = []) :
    ¬ Loop.Ends iteration (s, []) := by
  refine Loop.not_ends_of_invariant (I := fun c => c.2 = [] ∧ c.1.goesOn [] ∧
    ∀ m s' ready, Loop.iterate iteration m c = some (s', ready) → ready = []) ?_
    ⟨rfl, hgo, hasleep⟩
  rintro ⟨t, ready⟩ ⟨hready, hgo, hasleep⟩
  obtain rfl : ready = [] := hready
  obtain ⟨ready', t', hnext, hidle⟩ := turn_nil hgo
  have hone : Loop.iterate iteration 1 (t, []) = some (t', ready') := (iterate_one _).trans hnext
  refine ⟨(t', ready'), hnext, hasleep 1 t' ready' hone, ?_, fun m s' ready hm => ?_⟩
  · rw [hidle.goesOn]
    exact hgo
  · refine hasleep (1 + m) s' ready ?_
    rw [Loop.iterate_add, hone]
    exact hm

/-- A loop with a budget and without a debug server ends if and only if it always wakes again. -/
theorem ends_iff_wakes {c : RiscvSimulator × List Nat} (halone : Alone c)
    (hlimited : 0 ≤ c.1.simCfg.maxInstrs) :
    Loop.Ends iteration c ↔ ∀ n, WakesAfter c n := by
  constructor
  · intro hends n s hn hgo
    by_contra hnone
    refine not_ends_of_asleep hgo (fun m s' ready hm => ?_) (hends.later hn)
    by_contra hne
    exact hnone ⟨m, s', ready, hm, hne⟩
  · exact fun hwakes => Loop.ends_of_progress allowance (fun c hc => progress hc)
      ⟨halone, hlimited, hwakes⟩

/-! ### `Go` -/

/-- `Go` has left its loop, or was never in it. -/
def Finished : EStateM.Result Fault RiscvSimulator (Option Int × List Event) → Prop
  | .ok r _ => r.1.isSome
  | .error _ _ => True

theorem finished_go_iff {s s₁ : RiscvSimulator} {ready : List Nat} (t : Nat)
    (hstart : startGo.run s = .ok (.ok ready) s₁) :
    Finished ((go t).run s) ↔ Left ((loop t ready).run s₁) := by
  cases hloop : (loop t ready).run s₁ with
  | ok r s₂ =>
    obtain ⟨left, events⟩ := r
    obtain ⟨rcode, hgo⟩ := go_of_loop hstart hloop
    rw [hgo]
    cases left with
    | false => exact Iff.rfl
    | true => exact ⟨fun _ => rfl, fun _ => rfl⟩
  | error f s₂ =>
    rw [go, EStateM.run_bind, hstart]
    dsimp only
    rw [EStateM.run_bind, hloop]
    exact ⟨fun _ => trivial, fun _ => trivial⟩

theorem startGo_alone {s s₁ : RiscvSimulator} {ready : List Nat} (hd : s.debugServer = none)
    (h : startGo.run s = .ok (.ok ready) s₁) :
    Alone (s₁, ready) ∧ s₁.simCfg = s.simCfg := by
  rw [startGo, EStateM.run_bind, EStateM.run_get] at h
  obtain ⟨_, s₂, hset, h⟩ := Effect.ok_of_bind h
  cases hset
  split at h
  · cases h
  · obtain ⟨ready', s₃, hget, h⟩ := Effect.ok_of_bind h
    obtain ⟨_, s₄, hmodify, h⟩ := Effect.ok_of_bind h
    have hon := getReadyCpus_readyOn hget
    cases h
    cases hmodify
    rw [getReadyCpus, EStateM.run_bind] at hget
    cases hget
    exact ⟨⟨hd, hon⟩, rfl⟩

/-- With a budget and without a debug server, `Go` is done after finitely many rounds if and only if
    whenever no core is ready while one is asleep, some later round finds a core ready. -/
theorem bounded_simulation_ends_iff (simCfg : SimConfig) (host : Host)
    (hlimited : 0 ≤ simCfg.maxInstrs) (hd : (init simCfg host).debugServer = none)
    (ready : List Nat) (s : RiscvSimulator)
    (hloaded : startGo.run (init simCfg host) = .ok (.ok ready) s) :
    (∃ turns, Finished ((go turns).run (init simCfg host))) ↔ ∀ n, WakesAfter (s, ready) n := by
  obtain ⟨halone, hcfg⟩ := startGo_alone hd hloaded
  have hmax : 0 ≤ s.simCfg.maxInstrs := by rw [hcfg]; exact hlimited
  simp only [finished_go_iff _ hloaded]
  rw [left_iff_ends]
  exact ends_iff_wakes halone hmax

/-- A jump to itself ends the test in its first round. -/
theorem jump_to_self_ends :
    let start := init { resetAddress := 0x80000000 } (.simple 0x80000000 [0x6f, 0, 0, 0] {})
    ∃ ready s, startGo.run start = .ok (.ok ready) s ∧ Finished ((go 1).run start) ∧
      ∀ n, WakesAfter (s, ready) n := by
  intro start
  have hview : ((Effect.result ((go 1).run start)).bind Prod.fst).isSome ∧
      (Effect.result (startGo.run start)).map Except.toOption = some (some [0]) := by
    decide +kernel
  obtain ⟨hgo, hstart⟩ := hview
  have hfinished : Finished ((go 1).run start) := by
    cases hrun : (go 1).run start with
    | error f s => trivial
    | ok r s => rw [hrun] at hgo; exact hgo
  have hloaded := Effect.ok_ok_of_result hstart
  have hends : ∃ turns, Finished ((go turns).run start) := ⟨1, hfinished⟩
  exact ⟨_, _, hloaded, hfinished,
    (bounded_simulation_ends_iff _ _ (by decide) (by decide) _ _ hloaded).mp hends⟩

theorem serviceDevices_none {s : RiscvSimulator}
    (htimer : s.memory.deviceObjects.timer.isImplemented = false)
    (huart : s.memory.deviceObjects.uart1.isImplemented = false) :
    serviceDevices.run s = .ok () s := by
  rw [serviceDevices, EStateM.run_bind, EStateM.run_get]
  simp only [htimer, Bool.false_eq_true, if_false]
  rw [EStateM.run_bind, EStateM.run_get]
  simp only [huart, Bool.false_eq_true, if_false]
  rfl

/-- Nothing will wake a core. -/
structure Stuck (c : RiscvSimulator × List Nat) : Prop where
  ready : c.2 = []
  goesOn : c.1.goesOn []
  noCore : c.1.readyCores = []
  noTimer : c.1.memory.deviceObjects.timer.isImplemented = false
  noUart : c.1.memory.deviceObjects.uart1.isImplemented = false

theorem Stuck.next {c : RiscvSimulator × List Nat} (h : Stuck c) :
    ∃ c', iteration c = some c' ∧ Stuck c' := by
  obtain ⟨s, ready⟩ := c
  obtain ⟨hready, hgo, hnone, htimer, huart⟩ := h
  obtain rfl : ready = [] := hready
  have hshuffle : s.host.shuffle s.calls s.readyCores = [] := by
    rw [hnone]
    exact List.perm_nil.mp (s.host.shuffle_perm _ _)
  have hturn : (turn []).run s
      = .ok ([], []) { s with clock := s.clock + 1, calls := s.calls + 1 } := by
    have hserve : serviceDevices.run { s with clock := s.clock + 1 }
        = .ok () { s with clock := s.clock + 1 } := serviceDevices_none htimer huart
    have hget : getReadyCpus.run { s with clock := s.clock + 1 }
        = .ok [] { s with clock := s.clock + 1, calls := s.calls + 1 } := by
      rw [← hshuffle]
      rfl
    change (do
      advanceClock
      serviceDevices
      return ([], ← getReadyCpus) : SimM (List Event × List Nat)).run s = _
    rw [EStateM.run_bind, advanceClock, EStateM.run_modify]
    dsimp only
    rw [EStateM.run_bind, hserve]
    dsimp only
    rw [EStateM.run_bind, hget]
    rfl
  exact ⟨_, iteration_some.mpr ⟨hgo, [], hturn⟩, rfl, hgo, hnone, htimer, huart⟩

/-- WFI out of reset, with no device: the loop goes on for ever. -/
theorem wfi_never_ends :
    ¬ ∀ (simCfg : SimConfig) (host : Host), 0 ≤ simCfg.maxInstrs →
      (init simCfg host).debugServer = none →
      ∃ turns, Finished ((go turns).run (init simCfg host)) := by
  intro hall
  obtain ⟨turns, hfinished⟩ := hall { resetAddress := 0x80000000 }
    (.simple 0x80000000 [0x73, 0, 0x50, 0x10] {}) (by decide) (by decide)
  generalize hs₀ : init { resetAddress := 0x80000000 } (.simple 0x80000000 [0x73, 0, 0x50, 0x10] {})
    = start at hfinished
  obtain ⟨hready, hview⟩ :
      (Effect.result (startGo.run start)).map Except.toOption = some (some [0]) ∧
      (iteration (Effect.final (startGo.run start), [0])).map (fun c => (c.2, c.1.goesOn [],
        c.1.readyCores, c.1.memory.deviceObjects.timer.isImplemented,
        c.1.memory.deviceObjects.uart1.isImplemented)) = some ([], true, [], false, false) := by
    rw [← hs₀]
    decide +kernel
  rw [finished_go_iff turns (Effect.ok_ok_of_result hready)] at hfinished
  have hends := left_iff_ends.mp ⟨turns, hfinished⟩
  cases hc : iteration (Effect.final (startGo.run start), [0]) with
  | none => rw [hc] at hview; cases hview
  | some c =>
    rw [hc] at hview
    simp only [Option.map_some, Option.some.injEq, Prod.mk.injEq] at hview
    obtain ⟨hready, hgo, hnone, htimer, huart⟩ := hview
    exact Loop.not_ends_of_invariant (I := Stuck) (fun _ => Stuck.next)
      ⟨hready, hgo, hnone, htimer, huart⟩ (hends.later ((iterate_one _).trans hc))

end Dimebox.RiscvSimulator
