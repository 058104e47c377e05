import Dimebox.ClientLooks
import Dimebox.HartRuns
import Dimebox.Schedule
import Dimebox.Termination

/-! Runs of `Go` as runs of the harts of the manual.

    Without devices, with no interrupt enabled and pending, and with no debug client or one that
    writes nothing, nothing but instructions changes what the harts have: the client decides how far
    a core gets, and its reads settle bytes of memory, but what is executed is what the harts execute
    in the same order, over bytes in agreement with the image, which are the same from the first
    instruction to the last, or to the first that the harts do not have. -/

namespace Dimebox

open Manual (Hart Harts)

namespace RiscvSimulator

/-- The client, if there is one, writes nothing. -/
def Inspected (s : RiscvSimulator) : Prop := ∀ server ∈ s.debugServer, server.Inspected

/-- Nothing but instructions and such a client can do anything. -/
structure Watched (s : RiscvSimulator) : Prop where
  cores : ∀ core ∈ s.cores, core.lowPowerMode = false ∧ core.interruptPending = none
  inspected : s.Inspected
  ram : s.memory.LittleRam
  devices : s.memory.devices = []
  timer : s.memory.deviceObjects.timer.isImplemented = false
  uart : s.memory.deviceObjects.uart1.isImplemented = false

/-- The simulator after checks of the debug server that read memory at most. -/
structure Checked (s s' : RiscvSimulator) : Prop where
  rest : ∃ p debugServer, s' = { s with debugServer, memory := { s.memory with physMem := p } }
  grows : Cells.Grows s.memory.physMem.seen s'.memory.physMem.seen
  inspected : s'.Inspected

theorem debugChecks_looks {checks : DebugM Bool} {s s' : RiscvSimulator} {work cpu : RiscvState}
    {pc : U32} {goOn : Bool} (hdev : s.memory.devices = []) (hs : s.Inspected)
    (hchecks : ∀ d : DebugSession, d.server.Inspected → Looks d (Effect.final (checks.run d)))
    (h : (debugChecks checks work pc).run s = .ok (goOn, cpu) s') : cpu = work ∧ Checked s s' := by
  rw [debugChecks, EStateM.run_bind, EStateM.run_get] at h
  dsimp only at h
  cases hserver : s.debugServer with
  | none =>
    rw [hserver] at h
    cases h
    exact ⟨rfl, ⟨s.memory.physMem, s.debugServer, rfl⟩, .refl _, hs⟩
  | some server =>
    rw [hserver] at h
    have hlooks := hchecks { server, cpu := work, memory := s.memory, pc := pc.setWidth 64 }
      (hs server hserver)
    dsimp only at h
    rw [Effect.run_focus, EStateM.run_bind] at h
    cases hrun : checks.run { server, cpu := work, memory := s.memory, pc := pc.setWidth 64 } with
    | error f d => rw [hrun] at h; cases h
    | ok b d =>
      rw [hrun] at h hlooks
      cases h
      obtain ⟨p, hp, hgrows⟩ := hlooks.memory hdev
      refine ⟨hlooks.cpu, ⟨p, some d.server, ?_⟩, ?_, ?_⟩
      · exact congrArg (fun m => { s with debugServer := some d.server, memory := m }) hp
      · exact (congrArg (fun m : Memory => Cells.Grows s.memory.physMem.seen m.physMem.seen) hp).mpr
          hgrows
      · rintro server' hserver'
        cases hserver'
        exact hlooks.inspected (hs server hserver)

/-- `StepCore` up to `Execute`, after a fetch. -/
theorem prepare_run_of_fetch {s : RiscvSimulator} {k : Nat} {core work : RiscvState} {c : Iclass}
    {w : U32} {m : Memory} (hcore : s.cores[k]? = some core)
    (hserviced : serviceInterrupt (RiscvState.copy (s.host.storage s.calls) core) = .ok work)
    (hawake : work.lowPowerMode = false)
    (hfetch : (fetch work (work.pc.setWidth 32)).run s.memory = .ok (c, w) m) :
    (prepare k).run s = match (debugPreStepChecks work (work.pc.setWidth 32)).run
        { s with calls := s.calls + 1, memory := m } with
      | .ok (goOn, client) s₁ => .ok (if goOn then .ok (core, work.pc.setWidth 32,
          { RiscvInstruction.new (s.host.junk s.calls) c work m w with state := client })
          else .error .refused) s₁
      | .error f s₁ => .error f s₁ := by
  have htry : (tryFetch work (work.pc.setWidth 32)).run { s with calls := s.calls + 1 }
      = .ok (some (c, w)) { s with calls := s.calls + 1, memory := m } := by
    rw [tryFetch, onMemory, Effect.run_focus, Effect.run_tryCatch, ← bind_pure_comp,
      EStateM.run_bind]
    dsimp only
    rw [hfetch]
    rfl
  simp only [prepare, nextCall, EStateM.run_bind, EStateM.run_get, EStateM.run_set,
    EStateM.run_pure, hcore, hserviced, Effect.run_lift_ok, hawake, Bool.false_eq_true, if_false,
    htry]
  cases (debugPreStepChecks work (work.pc.setWidth 32)).run
    { s with calls := s.calls + 1, memory := m } with
  | error f s₁ => rfl
  | ok r s₁ =>
    obtain ⟨goOn, client⟩ := r
    cases goOn <;> rfl

/-- `StepCore` from `Writeback` on, after its stores. -/
theorem commit_watched {i : RiscvInstruction} {s s' : RiscvSimulator} {m : Memory} {k : Nat}
    {core : RiscvState} {pc : U32} (hops : (writebackOps i.mOpsMemory).run s.memory = .ok () m)
    (hdev : m.devices = []) (hs : s.Inspected) (h : (commit k core pc i).run s = .ok () s') :
    ∃ s₁, Checked s₁ s' ∧ s₁ = { s with
      cores := s.cores.set k (setEndTest s.simCfg.isaTest i.iclass pc (core.update i.state))
      memory := m
      instrCount := s.instrCount + 1 } := by
  rw [commit, EStateM.run_bind, writeback_run_eq, hops] at h
  generalize core.update i.state = committed at h ⊢
  simp only [setCore, EStateM.run_bind, EStateM.run_get, EStateM.run_modify] at h
  generalize setEndTest s.simCfg.isaTest i.iclass pc committed = ended at h ⊢
  generalize hs₁ : ({ s with
    cores := (s.cores.set k committed).set k ended, memory := m } : RiscvSimulator) = s₁ at h
  rcases countInstr_cases s₁ with hcount | hcount
  · obtain ⟨debugServer, hpost⟩ := debugPostStepChecks_run ended pc
      { s₁ with instrCount := s₁.instrCount + 1 }
    obtain ⟨-, hchecked⟩ := debugChecks_looks (by rw [← hs₁]; exact hdev) (by rw [← hs₁]; exact hs)
      (fun d _ => DebugServer.looks_postStepChecks d) hpost
    rw [hcount] at h
    dsimp only at h
    rw [hpost] at h
    cases h
    refine ⟨{ s₁ with instrCount := s₁.instrCount + 1 }, ?_, ?_⟩
    · have hcores : s₁.cores.set k ended = s₁.cores := by
        rw [← hs₁]
        simp
      simpa [hcores] using hchecked
    · rw [← hs₁]
      simp
  · rw [hcount] at h
    cases h

/-! ### Steps -/

theorem Checked.watched {s s' : RiscvSimulator} (h : Checked s s') (hs : s.Watched) : s'.Watched := by
  obtain ⟨⟨p, debugServer, rfl⟩, -, hinspected⟩ := h
  exact ⟨hs.cores, hinspected, ⟨hs.ram.range.withPhysMem _, hs.ram.host⟩, hs.devices, hs.timer,
    hs.uart⟩

/-- The harts do not see the checks. -/
theorem Checked.leads {s s' : RiscvSimulator} (h : Checked s s') :
    Simulation.Leads Stands Harts.step s [] s' := by
  obtain ⟨⟨p, debugServer, rfl⟩, hgrows, -⟩ := h
  exact .of_same fun M hM => ⟨hM.harts, fun a v hv => hM.bytes a v (hgrows _ v hv)⟩

/-- The cores that executed an instruction, in the order they did. -/
def executedBy (events : List Event) : List Nat :=
  (events.filter fun e => e.2 = .executed).map Prod.fst

@[simp] theorem executedBy_append (es es' : List Event) :
    executedBy (es ++ es') = executedBy es ++ executedBy es' := by simp [executedBy]

theorem executedBy_cons (e : Event) (es : List Event) :
    executedBy (e :: es) = executedBy [e] ++ executedBy es := executedBy_append [e] es

/-- Core `k` is about to execute an instruction it has fetched, and hart `k` has no step, whatever
    memory will settle. -/
def Foreign (s : RiscvSimulator) (k : Nat) : Prop :=
  ∃ r s₁, (prepare k).run s = .ok (.ok r) s₁ ∧ ∀ M, Stands s₁ M → Stands s M ∧ M.step k = none

/-- The step of a core that is watched. -/
theorem stepCore_watched {s s' : RiscvSimulator} (hs : s.Watched) {k : Nat} {e : StepEvent}
    (hk : k < s.cores.length) (h : (stepCore k).run s = .ok e s') :
    e = .executed ∧ s.Foreign k ∨
      s'.Watched ∧ s'.cores.length = s.cores.length ∧
        Simulation.Leads Stands Harts.step s (executedBy [(k, e)]) s' := by
  have hcore := List.getElem?_eq_getElem hk
  generalize s.cores[k] = core at hcore
  obtain ⟨hawake, hquiet⟩ := hs.cores core (List.mem_of_getElem? hcore)
  obtain ⟨work, hwork⟩ : ∃ work, work = RiscvState.copy (s.host.storage s.calls) core := ⟨_, rfl⟩
  have hhart : work.hart = core.hart := by rw [hwork, RiscvState.copy, hart_update]
  have hmode : work.lowPowerMode = false := by rw [hwork, RiscvState.lowPowerMode_copy, hawake]
  have hpending : work.interruptPending = none := by
    rw [hwork, RiscvState.copy, RiscvState.interruptPending_update, hquiet]
  have hserviced : serviceInterrupt work = .ok work := by rw [serviceInterrupt, hpending]
  obtain ⟨c, w, p, hfetch, hgrows, hexecution⟩ := instruction_simulates hs.ram
    (Memory.deviceAt_nil hs.devices) hcore hhart (s.host.junk s.calls)
  have hprep := prepare_run_of_fetch hcore (by rw [← hwork]; exact hserviced) hmode hfetch
  obtain ⟨s₀, hs₀⟩ : ∃ s₀ : RiscvSimulator, s₀ = { s with
      calls := s.calls + 1
      memory := { s.memory with physMem := p } } := ⟨_, rfl⟩
  have hfetched : Simulation.Leads Stands Harts.step s [] s₀ := by
    rw [hs₀]
    exact .of_same fun M hM => ⟨hM.harts, fun a v hv => hM.bytes a v (hgrows _ v hv)⟩
  have hwatched : s₀.Watched := by
    rw [hs₀]
    exact ⟨hs.cores, hs.inspected, ⟨hs.ram.range.withPhysMem _, hs.ram.host⟩, hs.devices, hs.timer,
      hs.uart⟩
  rw [← hs₀] at hprep
  rw [Foreign, hprep]
  rw [stepCore, EStateM.run_bind, hprep] at h
  cases hdebug : (debugPreStepChecks work (work.pc.setWidth 32)).run s₀ with
  | error f s₁ => rw [hdebug] at h; cases h
  | ok r s₁ =>
    obtain ⟨goOn, client⟩ := r
    obtain ⟨hclient, hchecked⟩ := debugChecks_looks hwatched.devices hwatched.inspected
      (fun d hd => DebugServer.looks_preStepChecks hd) hdebug
    rw [hdebug] at h
    cases goOn with
    | false =>
      cases h
      refine .inr ⟨hchecked.watched hwatched, ?_, hfetched.trans hchecked.leads⟩
      obtain ⟨_, _, hs₁⟩ := hchecked.rest
      rw [hs₁, hs₀]
    | true =>
      subst hclient
      obtain ⟨instr, s₂, hexec, h⟩ := Effect.ok_of_bind h
      obtain ⟨_, s₃, hcommit, h⟩ := Effect.ok_of_bind h
      cases h
      obtain ⟨⟨p₁, debugServer, hs₁⟩, hgrows₁, hinspected⟩ := hchecked
      have hmem₁ : s₁.memory = { s.memory with physMem := p₁ } := by rw [hs₁, hs₀]
      have hseen : Cells.Grows p.seen p₁.seen := by
        rw [hmem₁, hs₀] at hgrows₁
        exact hgrows₁
      rcases hexecution p₁ hseen with hnone | ⟨hne, accesses, i', p', hexecutes, hleads⟩
      · refine .inl ⟨rfl, _, s₁, rfl, fun M hM => ?_⟩
        have hcores : s₁.cores = s.cores := by rw [hs₁, hs₀]
        obtain ⟨b, hres, rfl⟩ := hM.exists_bytes
        rw [hmem₁] at hres
        have hover : s₁.hartsOver b = s.hartsOver b := by rw [hartsOver, hartsOver, hcores]
        rw [hover]
        exact ⟨stands_hartsOver ((hres.of_grows hseen).of_grows hgrows), hnone b hres⟩
      have hsame : ({ RiscvInstruction.new (s.host.junk s.calls) c client
          { s.memory with physMem := p } w with state := client, memory := s₁.memory } :
            RiscvInstruction)
          = .new (s.host.junk s.calls) c client { s.memory with physMem := p₁ } w := by
        rw [hmem₁]
        rfl
      rw [execute_run, hsame, hexecutes.run] at hexec
      cases hexec
      obtain ⟨s₄, hchecked, hs₄⟩ := commit_watched (s := { s₁ with memory := instr.memory })
        hexecutes.stores hs.devices hinspected hcommit
      have hiclass : instr.iclass = c := execute_iclass hexecutes.run
      have hcores : s₄.cores = s.cores.set k (setEndTest s.simCfg.isaTest instr.iclass
          (client.pc.setWidth 32) (core.update instr.state)) := by rw [hs₄, hs₁, hs₀]
      have hmem : s₄.memory = { s.memory with physMem := p' } := by rw [hs₄]
      have hfollower := follower_of_execute hwork hmode hpending hexecutes.state hexecutes.narrow
        (hiclass.symm ▸ hne) s.simCfg.isaTest
      have hwatched₄ : s₄.Watched := by
        refine ⟨fun core' hcore' => ?_, ?_, ?_, ?_, ?_, ?_⟩
        · rw [hcores] at hcore'
          rcases List.mem_or_eq_of_mem_set hcore' with hin | rfl
          · exact hs.cores core' hin
          · exact ⟨hfollower.awake, hfollower.quiet⟩
        · rw [hs₄]
          exact hinspected
        · rw [hmem]
          exact ⟨hs.ram.range.withPhysMem _, hs.ram.host⟩
        all_goals rw [hmem]
        · exact hs.devices
        · exact hs.timer
        · exact hs.uart
      have hinstr : Simulation.Leads Stands Harts.step s [k] s₄ := by
        refine hleads s₄ ?_ (by rw [hmem])
        rw [hcores, List.map_set, (keeps_setEndTest _ _ _ _).1, hart_update]
      refine .inr ⟨hchecked.watched hwatched₄, ?_, hinstr.trans hchecked.leads⟩
      obtain ⟨_, _, hs'⟩ := hchecked.rest
      rw [hs', hcores, List.length_set]

/-! ### Rounds -/

/-- The steps of a round: who executed in each, and the simulator after it. -/
def stepTrail : List Nat → RiscvSimulator → Simulation.Path RiscvSimulator Nat
  | [], _ => []
  | k :: ks, s =>
    if s.rcode ≠ 0 then []
    else match (stepCore k).run s with
      | .ok e s' => (executedBy [(k, e)], s') :: stepTrail ks s'
      | .error _ _ => []

theorem stepTrail_cons {s s' : RiscvSimulator} {k : Nat} {ks : List Nat} {e : StepEvent}
    (hr : s.rcode = 0) (hstep : (stepCore k).run s = .ok e s') :
    stepTrail (k :: ks) s = (executedBy [(k, e)], s') :: stepTrail ks s' := by
  rw [stepTrail, if_neg (by rw [hr]; decide), hstep]

/-- The trail of a loop: every step, and the end of every round. -/
def trail : Nat → List Nat → RiscvSimulator → Simulation.Path RiscvSimulator Nat
  | 0, _, _ => []
  | n + 1, ready, s =>
    if s.goesOn ready then
      match (turn ready).run s with
      | .ok (_, ready') s' => stepTrail ready s ++ ([], s') :: trail n ready' s'
      | .error _ _ => stepTrail ready s
    else []

/-- The path comes to an instruction that its hart does not have, and is matched up to there. -/
def Departs (s : RiscvSimulator) (path : Simulation.Path RiscvSimulator Nat) : Prop :=
  ∃ done k s' rest, path = done ++ ([k], s') :: rest ∧
    Simulation.LeadsAlong Stands Harts.step s done ∧ (Simulation.last s done).Foreign k

theorem Departs.append_right {s : RiscvSimulator} {path : Simulation.Path RiscvSimulator Nat}
    (h : s.Departs path) (path' : Simulation.Path RiscvSimulator Nat) :
    s.Departs (path ++ path') := by
  obtain ⟨done, k, s', rest, rfl, hdone, hforeign⟩ := h
  exact ⟨done, k, s', rest ++ path', List.append_assoc .., hdone, hforeign⟩

theorem Departs.append_left {s s' : RiscvSimulator} {path path' : Simulation.Path RiscvSimulator Nat}
    (h : Simulation.LeadsAlong Stands Harts.step s path) (hlast : Simulation.last s path = s')
    (h' : s'.Departs path') : s.Departs (path ++ path') := by
  obtain ⟨done, k, s₁, rest, rfl, hdone, hforeign⟩ := h'
  subst hlast
  refine ⟨path ++ done, k, s₁, rest, (List.append_assoc ..).symm, h.append hdone, ?_⟩
  rw [Simulation.last_append]
  exact hforeign

/-- The trail of a round that did not fail is what it did, in its order. -/
theorem stepTrail_of_stepCores (ks : List Nat) {s s' : RiscvSimulator} {events : List Event}
    (h : (stepCores ks).run s = .ok events s') (hr : s'.rcode = 0) :
    Simulation.labels (stepTrail ks s) = executedBy events ∧
      Simulation.last s (stepTrail ks s) = s' := by
  induction ks generalizing s events with
  | nil =>
    cases h
    exact ⟨rfl, rfl⟩
  | cons k ks ih =>
    obtain ⟨e, later, s₁, hstep, hlater, rfl⟩ := stepCores_cons_of_rcode h hr
    obtain ⟨hlabels, hlast⟩ := ih hlater
    rw [stepTrail_cons (rcode_of_stepCores h hr) hstep, Simulation.labels_cons, hlabels]
    exact ⟨(executedBy_cons (k, e) later).symm, hlast⟩

/-- The steps of a round that did not fail. -/
theorem stepCores_watched (ks : List Nat) {s s' : RiscvSimulator} {events : List Event}
    (hs : s.Watched) (hks : ∀ k ∈ ks, k < s.cores.length)
    (h : (stepCores ks).run s = .ok events s') (hr : s'.rcode = 0) :
    s.Departs (stepTrail ks s) ∨ s'.Watched ∧ s'.cores.length = s.cores.length ∧
      Simulation.LeadsAlong Stands Harts.step s (stepTrail ks s) := by
  induction ks generalizing s events with
  | nil =>
    cases h
    exact .inr ⟨hs, rfl, trivial⟩
  | cons k ks ih =>
    have hr₀ := rcode_of_stepCores h hr
    obtain ⟨e, later, s₁, hstep, hlater, rfl⟩ := stepCores_cons_of_rcode h hr
    rw [stepTrail_cons hr₀ hstep]
    rcases stepCore_watched hs (hks k List.mem_cons_self) hstep with
      ⟨rfl, hforeign⟩ | ⟨hwatched, hlen, hleads⟩
    · exact .inl ⟨[], k, s₁, stepTrail ks s₁, rfl, trivial, hforeign⟩
    rcases ih hwatched (fun k' hk' => by
      rw [hlen]
      exact hks k' (List.mem_cons_of_mem _ hk')) hlater with hdeparts | ⟨hwatched', hlen', hrest⟩
    · have hfirst : Simulation.LeadsAlong Stands Harts.step s [(executedBy [(k, e)], s₁)] :=
        ⟨hleads, trivial⟩
      exact .inl (Departs.append_left hfirst rfl hdeparts)
    · exact .inr ⟨hwatched', hlen'.trans hlen, hleads, hrest⟩

/-- The clock and the numbering of calls are not compared. -/
theorem stands_tick {s : RiscvSimulator} (clock : U64) (calls : Nat) (M : Harts) :
    Stands { s with clock, calls } M ↔ Stands s M :=
  ⟨fun h => ⟨h.harts, h.bytes⟩, fun h => ⟨h.harts, h.bytes⟩⟩

theorem Watched.tick {s : RiscvSimulator} (hs : s.Watched) (clock : U64) (calls : Nat) :
    Watched { s with clock, calls } :=
  ⟨hs.cores, hs.inspected, hs.ram, hs.devices, hs.timer, hs.uart⟩

/-- The round of a trail. -/
theorem trail_succ {n : Nat} {ready ready' : List Nat} {s s' : RiscvSimulator} {events : List Event}
    (hgo : s.goesOn ready) (hturn : (turn ready).run s = .ok (events, ready') s') :
    trail (n + 1) ready s = (stepTrail ready s ++ [([], s')]) ++ trail n ready' s' := by
  rw [trail, if_pos hgo, hturn]
  simp

/-- Its steps. -/
theorem stepTrail_of_turn {ready ready' : List Nat} {s s' : RiscvSimulator} {events : List Event}
    (h : (turn ready).run s = .ok (events, ready') s') (hr : s'.rcode = 0) :
    Simulation.labels (stepTrail ready s) = executedBy events := by
  obtain ⟨s₁, s₂, hsteps, hserve, hget⟩ := turn_ok h
  have hr₁ : s₁.rcode = 0 := (sameServer_after_steps hserve hget).2.symm.trans hr
  exact (stepTrail_of_stepCores ready hsteps hr₁).1

/-- The trail of a loop that did not fail is what it did, in its order. -/
theorem trail_of_loop (n : Nat) {ready : List Nat} {s s' : RiscvSimulator} {left : Bool}
    {events : List Event} (h : (loop n ready).run s = .ok (left, events) s') (hr : s'.rcode = 0) :
    Simulation.labels (trail n ready s) = executedBy events ∧
      Simulation.last s (trail n ready s) = s' := by
  induction n generalizing s ready left events with
  | zero =>
    cases h
    exact ⟨rfl, rfl⟩
  | succ n ih =>
    by_cases hgo : s.goesOn ready
    · obtain ⟨first, ready', s₁, r', hturn, hloop⟩ := turn_of_loop hgo h
      rw [loop_cons hgo hturn, hloop] at h
      cases h
      have hround := stepTrail_of_turn hturn (rcode_of_turn hloop hr)
      obtain ⟨hlabels, hlast⟩ := ih hloop
      rw [trail_succ hgo hturn]
      refine ⟨?_, ?_⟩
      · simp [hround, hlabels]
      · rw [Simulation.last_append, Simulation.last_append]
        exact hlast
    · rw [loop_of_done hgo] at h
      cases h
      rw [trail, if_neg hgo]
      exact ⟨rfl, rfl⟩

/-- A round that did not fail. -/
theorem turn_watched {ready ready' : List Nat} {s s' : RiscvSimulator} {events : List Event}
    (hs : s.Watched) (hready : ∀ k ∈ ready, k < s.cores.length)
    (h : (turn ready).run s = .ok (events, ready') s') (hr : s'.rcode = 0) :
    s.Departs (stepTrail ready s) ∨ s'.Watched ∧ (∀ k ∈ ready', k < s'.cores.length) ∧
      Simulation.LeadsAlong Stands Harts.step s (stepTrail ready s ++ [([], s')]) := by
  obtain ⟨s₁, s₂, hsteps, hserve, hget⟩ := turn_ok h
  have hr₁ : s₁.rcode = 0 := (sameServer_after_steps hserve hget).2.symm.trans hr
  obtain ⟨rfl, -, hmem⟩ := getReadyCpus_ok hget
  rcases stepCores_watched ready hs hready hsteps hr₁ with hdeparts | ⟨hwatched, -, hleads⟩
  · exact .inl hdeparts
  · have hclock := hwatched.tick (s₁.clock + 1) s₁.calls
    rw [serviceDevices_none hclock.timer hclock.uart] at hserve
    cases hserve
    refine .inr ⟨hclock.tick _ _, fun k hk => ?_, hleads.append ?_⟩
    · obtain ⟨core, hcore, -⟩ := (hmem k).mp hk
      exact (List.getElem?_eq_some_iff.mp hcore).1
    · rw [(stepTrail_of_stepCores ready hsteps hr₁).2]
      exact ⟨.of_same fun M hM => (stands_tick (s := s₁) (s₁.clock + 1) (s₁.calls + 1) M).mp hM,
        trivial⟩

theorem loop_watched (n : Nat) {ready : List Nat} {s s' : RiscvSimulator} {left : Bool}
    {events : List Event} (hs : s.Watched) (hready : ∀ k ∈ ready, k < s.cores.length)
    (h : (loop n ready).run s = .ok (left, events) s') (hr : s'.rcode = 0) :
    s.Departs (trail n ready s) ∨ Simulation.LeadsAlong Stands Harts.step s (trail n ready s) := by
  induction n generalizing s ready left events with
  | zero => exact .inr trivial
  | succ n ih =>
    by_cases hgo : s.goesOn ready
    · obtain ⟨first, ready', s₁, r', hturn, hloop⟩ := turn_of_loop hgo h
      rw [trail_succ hgo hturn]
      rcases turn_watched hs hready hturn (rcode_of_turn hloop hr) with hdeparts |
        ⟨hwatched, hready', hleads⟩
      · exact .inl ((hdeparts.append_right _).append_right _)
      · have hlast : Simulation.last s (stepTrail ready s ++ [([], s₁)]) = s₁ := by
          rw [Simulation.last_append]
          rfl
        rcases ih hwatched hready' hloop with hdeparts | hrest
        · exact .inl (Departs.append_left hleads hlast hdeparts)
        · exact .inr (hleads.append (hlast.symm ▸ hrest))
    · rw [trail, if_neg hgo]
      exact .inr trivial

/-! ### Whole simulations -/

/-- Every core starts at the reset address with zero in every register. -/
def startHarts (simCfg : SimConfig) (bytes : U32 → Byte) : Harts where
  harts := List.replicate simCfg.numCores { pc := simCfg.resetAddress.setWidth 32, x := fun _ => 0 }
  bytes := bytes

/-- A core at reset. -/
theorem hart_reset (storage : RiscvState) (a : U64) :
    (RiscvState.reset storage a).hart = { pc := a.setWidth 32, x := fun _ => 0 } ∧
      (RiscvState.reset storage a).lowPowerMode = false :=
  ⟨by simp [RiscvState.reset, RiscvState.setMisa, RiscvState.write, RiscvState.hart], by
    change decide (RiscvState.machineMode &&& 0x10 = 0x10) = false
    decide⟩

theorem harts_init (simCfg : SimConfig) (host : Host) :
    (init simCfg host).cores.map RiscvState.hart
      = List.replicate simCfg.numCores { pc := simCfg.resetAddress.setWidth 32, x := fun _ => 0 } := by
  rw [init, List.map_map]
  refine List.eq_replicate_iff.mpr ⟨by simp, fun h hh => ?_⟩
  obtain ⟨i, -, rfl⟩ := List.mem_map.mp hh
  exact (hart_reset _ _).1

/-- What `Go` starts its loop with, for an image whose loading changed RAM only. -/
theorem startGo_watched {simCfg : SimConfig} {host : Host} {ready : List Nat} {s : RiscvSimulator}
    (hdevices : simCfg.devices = []) (hlooks : (init simCfg host).Inspected)
    (hquiet : ∀ core ∈ (init simCfg host).cores, core.interruptPending = none)
    {p : PhysicalMemory} (hload : (host.loadTestImage (init simCfg host).memory).2
      = { (init simCfg host).memory with physMem := p })
    (h : startGo.run (init simCfg host) = .ok (.ok ready) s) :
    s.Watched ∧ (∀ k ∈ ready, k < s.cores.length) ∧ s.memory.physMem = p ∧
      s.cores = (init simCfg host).cores ∧ s.debugServer = (init simCfg host).debugServer := by
  have hmem : (init simCfg host).memory = {
      sizeInBits := 32, physicalAddressLo := 0, physicalAddressHi := 0xffffffff
      physMem := { oracle := host.oracle } } := by
    rw [init, hdevices]
    rfl
  have hawake : ∀ core ∈ (init simCfg host).cores, core.lowPowerMode = false := by
    intro core hcore
    obtain ⟨i, -, rfl⟩ := List.mem_map.mp hcore
    exact (hart_reset _ _).2
  have hhost : (init simCfg host).host = host := rfl
  rw [startGo, EStateM.run_bind, EStateM.run_get] at h
  dsimp only at h
  rw [EStateM.run_bind, EStateM.run_set, hhost] at h
  dsimp only at h
  generalize init simCfg host = s₀ at *
  split at h
  · cases h
  · obtain ⟨r, s₁, hget, h⟩ := Effect.ok_of_bind h
    obtain ⟨_, s₂, hmodify, h⟩ := Effect.ok_of_bind h
    cases h
    cases hmodify
    obtain ⟨rfl, -, hready⟩ := getReadyCpus_ok hget
    rw [hload, hmem]
    refine ⟨⟨fun core hcore => ⟨hawake core hcore, hquiet core hcore⟩, hlooks, ⟨⟨rfl, rfl, rfl⟩, rfl⟩,
      rfl, rfl, rfl⟩, fun k hk => ?_, rfl, rfl, rfl⟩
    obtain ⟨core, hcore, -⟩ := (hready k).mp hk
    exact (List.getElem?_eq_some_iff.mp hcore).1

/-- What the client of a configured server is going to send. -/
theorem inspected_init (simCfg : SimConfig) {host : Host}
    (h : ∀ message ∈ host.client.incoming, DebugServer.inspects message) :
    (init simCfg host).Inspected := by
  rintro server hserver
  rw [init, setupDebugServer] at hserver
  split at hserver
  · cases hserver
    exact h
  · cases hserver

/-- For every number of cores, image and order of stepping, without devices, and for every debug
    client that writes neither registers nor memory: the trail of Go's loop is what the cores
    executed, and there are bytes, in agreement with the loaded image, over which the harts of the
    manual, started at the reset address and executing one instruction each in the order in which
    the simulator's cores do, have the PCs, registers and bytes of the simulation after every step
    and at the end of every round, up to the first instruction that is fetched for a core and that
    its hart does not have. -/
theorem simulation_follows_harts (simCfg : SimConfig) (host : Host) (p : PhysicalMemory)
    (hdevices : simCfg.devices = [])
    (hlooks : ∀ message ∈ host.client.incoming, DebugServer.inspects message)
    (hquiet : ∀ core ∈ (init simCfg host).cores, core.interruptPending = none)
    (hload : (host.loadTestImage (init simCfg host).memory).2
      = { (init simCfg host).memory with physMem := p })
    (n : Nat) {ready : List Nat} {s s' : RiscvSimulator} {left : Bool} {events : List Event}
    (hstart : startGo.run (init simCfg host) = .ok (.ok ready) s)
    (hloop : (loop n ready).run s = .ok (left, events) s') (hr : s'.rcode = 0) :
    Simulation.labels (trail n ready s) = executedBy events ∧
    Simulation.last s (trail n ready s) = s' ∧
    ∃ bytes : U32 → Byte, (∀ a v, p.seen (a.setWidth 64) = some v → bytes a = v) ∧
      Stands s (startHarts simCfg bytes) ∧
      (Simulation.Matches Stands Harts.step (startHarts simCfg bytes) (trail n ready s) ∨
        ∃ done k s₁ rest, trail n ready s = done ++ ([k], s₁) :: rest ∧
          Simulation.Matches Stands Harts.step (startHarts simCfg bytes) done ∧
          (Simulation.last s done).Foreign k ∧
          (startHarts simCfg bytes).run (Simulation.labels done ++ [k]) = none) := by
  obtain ⟨hwatched, hready, hmem, hcores, -⟩ :=
    startGo_watched hdevices (inspected_init simCfg hlooks) hquiet hload hstart
  obtain ⟨hlabels, hlast⟩ := trail_of_loop n hloop hr
  refine ⟨hlabels, hlast, ?_⟩
  have hstartHarts : ∀ M, Stands s M → M = startHarts simCfg M.bytes ∧
      ∀ a v, p.seen (a.setWidth 64) = some v → M.bytes a = v := by
    rintro ⟨harts, bytes⟩ hM
    have hharts : harts = s.cores.map RiscvState.hart := hM.harts
    rw [hcores, harts_init] at hharts
    subst hharts
    exact ⟨rfl, fun a v hv => hM.bytes a v (by rw [hmem]; exact hv)⟩
  rcases loop_watched n hwatched hready hloop hr with
    ⟨done, k, s₁, rest, htrail, hdone, hforeign⟩ | hleads
  · -- the bytes are chosen at the core that is about to execute
    obtain ⟨r, s₂, hprepare, hnone⟩ := id hforeign
    obtain ⟨M', hM'⟩ := exists_stands s₂
    obtain ⟨hstands, hstep⟩ := hnone M' hM'
    obtain ⟨M, hM, hmatches, hrun⟩ := hdone.matched hstands
    obtain ⟨heq, hbytes⟩ := hstartHarts M hM
    refine ⟨M.bytes, hbytes, heq ▸ hM, .inr ⟨done, k, s₁, rest, htrail, heq ▸ hmatches, hforeign,
      ?_⟩⟩
    rw [← heq, Harts.run, Simulation.run_append, hrun, Option.bind_some, Simulation.run_singleton]
    exact hstep
  · obtain ⟨M', hM'⟩ := exists_stands (Simulation.last s (trail n ready s))
    obtain ⟨M, hM, hmatches, -⟩ := hleads.matched hM'
    obtain ⟨heq, hbytes⟩ := hstartHarts M hM
    exact ⟨M.bytes, hbytes, heq ▸ hM, .inl (heq ▸ hmatches)⟩

/-- The simple host stores a short image in RAM. -/
theorem simple_loads {m : Memory} (hm : m.DefaultRange) (hdev : ∀ a, m.deviceAt a = none) (a : U64)
    (bytes : List Byte) (h : 0 < bytes.length) (h' : bytes.length ≤ 32) (client : TcpServer) :
    (Host.simple a bytes client).loadTestImage m
      = (0, { m with physMem := m.physMem.putBytes (Memory.low32 a) true bytes }) := by
  have hrun := Memory.writePhysicalMemory_run hm (a := a) (hdev _) h h' (Nat.le_refl bytes.length) true
  rw [List.take_length] at hrun
  rw [Host.simple]
  dsimp only
  rw [hrun]

/-- What the image gives is there for every choice of the other bytes. -/
theorem loadBytes_of_seen {p : PhysicalMemory} {bytes : U32 → Byte}
    (hbytes : ∀ a v, p.seen (a.setWidth 64) = some v → bytes a = v) {a : U32} (vs : List Byte)
    (h : ((List.range vs.length).map fun k => p.seen ((a + BitVec.ofNat 32 k).setWidth 64))
      = vs.map some) : Manual.loadBytes bytes a vs.length = vs := by
  refine List.map_injective_iff.mpr (Option.some_injective _) (Eq.trans ?_ h)
  rw [Manual.loadBytes, List.map_map]
  refine List.map_congr_left fun k hk => ?_
  have hmem : p.seen ((a + BitVec.ofNat 32 k).setWidth 64) ∈ vs.map some := by
    rw [← h]
    exact List.mem_map_of_mem hk
  obtain ⟨v, -, hv⟩ := List.mem_map.mp hmem
  rw [Function.comp_apply, hbytes _ v hv.symm, hv]

/-- A hart at the reset address, with `addi x1,x0,5` there. -/
theorem step_addi_five {M : Harts} {k : Nat} {h : Hart} (hk : M.harts[k]? = some h)
    (hh : h = { pc := 0x80000000, x := fun _ => 0 })
    (hbytes : Manual.loadBytes M.bytes 0x80000000 4 = [0x93, 0x00, 0x50, 0x00]) :
    M.step k = some { M with
      harts := M.harts.set k { h.putRd 0x00500093 5 with pc := 0x80000004 } } := by
  have hw : M.word h = 0x00500093 := by
    rw [Harts.word, hh, hbytes]
    decide
  refine Harts.step_eq_some.mpr ⟨h, .addi, _, M.bytes, hk, by rw [hh]; decide, by rw [hw]; decide,
    rfl, ?_, rfl⟩
  rw [hw, hh]
  rfl

/-- A hart at a jump to itself after it. -/
theorem step_jal_self {M : Harts} {k : Nat} {h : Hart} (hk : M.harts[k]? = some h)
    (hpc : h.pc = 0x80000004)
    (hbytes : Manual.loadBytes M.bytes 0x80000004 4 = [0x6f, 0x00, 0x00, 0x00]) :
    M.step k = some { M with harts := M.harts.set k (h.putRd 0x0000006f (h.pc + 4)) } := by
  have hw : M.word h = 0x0000006f := by
    rw [Harts.word, hpc, hbytes]
    decide
  have hself : h.destination .jal 0x0000006f = h.pc := by
    rw [Hart.destination, hpc]
    rfl
  refine Harts.step_eq_some.mpr ⟨h, .jal, _, M.bytes, hk, by rw [hpc]; decide, by rw [hw]; decide,
    by rw [hw]; rfl, ?_, rfl⟩
  rw [hw, Hart.execute, if_pos (by rfl), hself, if_pos (by rw [hpc]; decide)]
  rfl

/-- Two harts at reset, each taking both steps. -/
theorem run_two_fives {bytes : U32 → Byte}
    (hfirst : Manual.loadBytes bytes 0x80000000 4 = [0x93, 0x00, 0x50, 0x00])
    (hsecond : Manual.loadBytes bytes 0x80000004 4 = [0x6f, 0x00, 0x00, 0x00]) :
    (startHarts { resetAddress := 0x80000000, numCores := 2, gdbPort := 1234 } bytes).run
      [0, 1, 0, 1] ≠ none := by
  obtain ⟨h, hh⟩ : ∃ h : Hart, h = { pc := 0x80000000, x := fun _ => 0 } := ⟨_, rfl⟩
  obtain ⟨h₁, hh₁⟩ : ∃ h₁ : Hart, h₁ = { h.putRd 0x00500093 5 with pc := 0x80000004 } := ⟨_, rfl⟩
  obtain ⟨h₂, hh₂⟩ : ∃ h₂ : Hart, h₂ = h₁.putRd 0x0000006f (h₁.pc + 4) := ⟨_, rfl⟩
  have hpc₁ : h₁.pc = 0x80000004 := by rw [hh₁]
  have hstart : startHarts { resetAddress := 0x80000000, numCores := 2, gdbPort := 1234 } bytes
      = { harts := [h, h], bytes } := by
    rw [hh]
    rfl
  have hadd₀ : Harts.step 0 { harts := [h, h], bytes } = some { harts := [h₁, h], bytes } := by
    rw [step_addi_five rfl hh hfirst, hh₁]
    rfl
  have hadd₁ : Harts.step 1 { harts := [h₁, h], bytes } = some { harts := [h₁, h₁], bytes } := by
    rw [step_addi_five rfl hh hfirst, hh₁]
    rfl
  have hjal₀ : Harts.step 0 { harts := [h₁, h₁], bytes } = some { harts := [h₂, h₁], bytes } := by
    rw [step_jal_self rfl hpc₁ hsecond, hh₂]
    rfl
  have hjal₁ : Harts.step 1 { harts := [h₂, h₁], bytes } = some { harts := [h₂, h₂], bytes } := by
    rw [step_jal_self rfl hpc₁ hsecond, hh₂]
    rfl
  rw [hstart, Harts.run, Simulation.run_cons, hadd₀, Option.bind_some, Simulation.run_cons, hadd₁,
    Option.bind_some, Simulation.run_cons, hjal₀, Option.bind_some, Simulation.run_cons, hjal₁]
  simp

/-- Two cores, `addi x1,x0,5` and a jump to itself, and a client that looks at memory, steps, looks
    at the registers and goes on: two rounds of two steps, matched to their end. -/
theorem inspected_cores_follow_harts :
    ∃ (s s' : RiscvSimulator) (left : Bool) (events : List Event) (bytes : U32 → Byte),
      startGo.run (init { resetAddress := 0x80000000, numCores := 2, gdbPort := 1234 }
        (.simple 0x80000000 [0x93, 0x00, 0x50, 0x00, 0x6f, 0x00, 0x00, 0x00] { incoming :=
          [some "$m80000000,4#55".toList, some "$s#73".toList, some "$g#67".toList,
            some "$c#63".toList] })) = .ok (.ok [0, 1]) s ∧
      (loop 2 [0, 1]).run s = .ok (left, events) s' ∧
      Simulation.labels (trail 2 [0, 1] s) = [0, 1, 0, 1] ∧
      Simulation.last s (trail 2 [0, 1] s) = s' ∧
      Simulation.Matches Stands Harts.step
        (startHarts { resetAddress := 0x80000000, numCores := 2, gdbPort := 1234 } bytes)
        (trail 2 [0, 1] s) := by
  obtain ⟨simCfg, hcfg⟩ : ∃ simCfg : SimConfig,
      simCfg = { resetAddress := 0x80000000, numCores := 2, gdbPort := 1234 } := ⟨_, rfl⟩
  obtain ⟨client, hclient⟩ : ∃ client : TcpServer, client = { incoming :=
      [some "$m80000000,4#55".toList, some "$s#73".toList, some "$g#67".toList,
        some "$c#63".toList] } := ⟨_, rfl⟩
  obtain ⟨host, hhost⟩ : ∃ host : Host, host = .simple 0x80000000
      [0x93, 0x00, 0x50, 0x00, 0x6f, 0x00, 0x00, 0x00] client := ⟨_, rfl⟩
  obtain ⟨hready, hcpus, hr⟩ :
      (Effect.result (startGo.run (init simCfg host))).map Except.toOption = some (some [0, 1]) ∧
      (Effect.result ((loop 2 [0, 1]).run (Effect.final (startGo.run (init simCfg host))))).map
        (fun r => executedBy r.2) = some [0, 1, 0, 1] ∧
      (Effect.final ((loop 2 [0, 1]).run (Effect.final (startGo.run (init simCfg host))))).rcode
        = 0 := by
    subst hcfg hhost hclient
    decide +kernel
  have hstart := Effect.ok_ok_of_result hready
  have hlooks : ∀ message ∈ host.client.incoming, DebugServer.inspects message := by
    subst hhost hclient
    decide +kernel
  have hquiet : ∀ core ∈ (init simCfg host).cores, core.interruptPending = none := by
    subst hcfg hhost hclient
    decide +kernel
  have hload : (host.loadTestImage (init simCfg host).memory).2 = { (init simCfg host).memory with
      physMem := (init simCfg host).memory.physMem.putBytes (Memory.low32 0x80000000) true
        [0x93, 0x00, 0x50, 0x00, 0x6f, 0x00, 0x00, 0x00] } := by
    subst hcfg hhost
    exact congrArg Prod.snd (simple_loads ⟨rfl, rfl, rfl⟩ (Memory.deviceAt_nil rfl) 0x80000000 _
      (by decide) (by decide) client)
  have hfirst : (List.range [0x93, 0x00, 0x50, 0x00].length).map (fun k =>
      ((init simCfg host).memory.physMem.putBytes (Memory.low32 0x80000000) true
        [0x93, 0x00, 0x50, 0x00, 0x6f, 0x00, 0x00, 0x00]).seen
          ((0x80000000 + BitVec.ofNat 32 k : U32).setWidth 64))
      = [0x93, 0x00, 0x50, 0x00].map some := by
    subst hcfg hhost hclient
    decide +kernel
  have hsecond : (List.range [0x6f, 0x00, 0x00, 0x00].length).map (fun k =>
      ((init simCfg host).memory.physMem.putBytes (Memory.low32 0x80000000) true
        [0x93, 0x00, 0x50, 0x00, 0x6f, 0x00, 0x00, 0x00]).seen
          ((0x80000004 + BitVec.ofNat 32 k : U32).setWidth 64))
      = [0x6f, 0x00, 0x00, 0x00].map some := by
    subst hcfg hhost hclient
    decide +kernel
  rw [← hcfg, ← hclient, ← hhost]
  generalize Effect.final (startGo.run (init simCfg host)) = s at hstart hcpus hr
  cases hloop : (loop 2 [0, 1]).run s with
  | error f s' => rw [hloop] at hcpus; cases hcpus
  | ok r s' =>
    obtain ⟨left, events⟩ := r
    rw [hloop] at hcpus hr
    obtain ⟨hlabels, hlast, bytes, hbytes, -, hmatches⟩ :=
      simulation_follows_harts simCfg host _ (by rw [hcfg]) hlooks hquiet hload 2 hstart hloop hr
    have hevents : executedBy events = [0, 1, 0, 1] := Option.some.inj hcpus
    rw [hevents] at hlabels
    rcases hmatches with hmatches | ⟨done, k, s₁, rest, htrail, -, -, hnone⟩
    · exact ⟨s, s', left, events, bytes, hstart, hloop, hlabels, hlast, hmatches⟩
    · -- both harts have all their steps
      rw [htrail, Simulation.labels_append, Simulation.labels_cons, ← List.append_assoc] at hlabels
      have hrun := run_two_fives (loadBytes_of_seen hbytes [0x93, 0x00, 0x50, 0x00] hfirst)
        (loadBytes_of_seen hbytes [0x6f, 0x00, 0x00, 0x00] hsecond)
      rw [← hcfg, ← hlabels, Harts.run, Simulation.run_append] at hrun
      rw [Harts.run] at hnone
      rw [hnone] at hrun
      exact absurd rfl hrun

end RiscvSimulator

end Dimebox
