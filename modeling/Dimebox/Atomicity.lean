import Dimebox.Simulator
import Dimebox.DebugFrame

/-! One step of a core is all or nothing.

    `StepCore` has three phases. Up to `Execute` it works on a copy of the core and only reads RAM,
    apart from what the debug client writes; `Execute` works on the copy, reads RAM and queues its
    stores; `Writeback` commits the copy and the queue. A call that ends in the first two phases has
    not touched the core. -/

namespace Dimebox.RiscvSimulator

/-- The writes that were done for the debug client so far. -/
def clientWrites (s : RiscvSimulator) : List (U64 × Int) :=
  s.debugServer.elim [] DebugServer.clientWrites

/-- The cores are as before, and so is RAM apart from what was written for the client. -/
structure Untouched (s s' : RiscvSimulator) : Prop where
  cores : s'.cores = s.cores
  ram : ∃ log, s'.clientWrites = s.clientWrites ++ log ∧
    Memory.RamFrame (s.memory.clientSpan log) s.memory s'.memory

theorem Untouched.of_frame {s s' : RiscvSimulator} (hcores : s'.cores = s.cores)
    (hlog : s'.clientWrites = s.clientWrites) (h : Memory.RamFrame [] s.memory s'.memory) :
    Untouched s s' := ⟨hcores, [], by rw [hlog, List.append_nil], h⟩

theorem Untouched.refl (s : RiscvSimulator) : Untouched s s := .of_frame rfl rfl (.refl _)

theorem Untouched.trans {s s' s'' : RiscvSimulator} (h : Untouched s s') (h' : Untouched s' s'') :
    Untouched s s'' := by
  obtain ⟨hcores, log, hlog, hf⟩ := h
  obtain ⟨hcores', log', hlog', hf'⟩ := h'
  exact ⟨hcores'.trans hcores, log ++ log', by rw [hlog', hlog, List.append_assoc],
    hf.trans_client hf'⟩

/-! ### Up to `Execute` -/

theorem untouched_bind {α β : Type} {x : SimM α} {f : α → SimM β} (hx : Effect.Moves Untouched x)
    (hf : ∀ a, Effect.Moves Untouched (f a)) : Effect.Moves Untouched (x >>= f) :=
  Effect.moves_bind (R := Untouched) .trans hx hf

theorem fetch_frame (work : RiscvState) (pc : U32) :
    Effect.Moves (Memory.RamFrame []) (fetch work pc) := by
  refine Memory.frame_bind (Memory.readMemory_frame _ _ _ _ _ _ _) fun _ =>
    Memory.frame_bind (fun m => .refl m) fun _ => ?_
  dsimp only
  split
  · exact Effect.moves_pure .refl _
  · exact Memory.frame_bind (Memory.readMemory_frame _ _ _ _ _ _ _) fun _ =>
      Memory.frame_bind (fun m => .refl m) fun _ => Effect.moves_pure .refl _

theorem untouched_tryFetch (work : RiscvState) (pc : U32) :
    Effect.Moves Untouched (tryFetch work pc) := by
  refine Effect.moves_focus (Q := Memory.RamFrame []) ?_ fun s m h => .of_frame rfl rfl h
  refine Effect.moves_tryCatch (R := Memory.RamFrame []) .trans ?_ fun f => ?_
  · rw [← bind_pure_comp]
    exact Memory.frame_bind (fetch_frame work pc) fun _ => Effect.moves_pure .refl _
  · split
    · exact Effect.moves_pure .refl _
    · exact Effect.moves_throw .refl _

/-- What the client does before a step. -/
theorem acts_preStepChecks_cpu : DebugServer.Acts (do
    let goOn ← DebugServer.preStepChecks
    return (goOn, (← get).cpu)) :=
  DebugServer.acts_bind DebugServer.acts_preStepChecks fun _ =>
    DebugServer.acts_bind DebugServer.acts_get fun _ => DebugServer.acts_pure _

theorem untouched_debugPreStepChecks (cpu : RiscvState) (pc : U32) :
    Effect.Moves Untouched (debugPreStepChecks cpu pc) := by
  intro s
  rw [debugPreStepChecks, debugChecks, EStateM.run_bind, EStateM.run_get]
  dsimp only
  cases hd : s.debugServer with
  | none => exact .refl s
  | some server =>
    obtain ⟨log, hlog, hf⟩ := sessionFrame_of_steps
      (acts_preStepChecks_cpu { server, cpu, memory := s.memory, pc := pc.setWidth 64 })
    rw [Effect.run_focus, Effect.final_mapState]
    exact ⟨rfl, log, by simp only [clientWrites, hd, Option.elim_some]; exact hlog, hf⟩

theorem untouched_prepare (k : Nat) : Effect.Moves Untouched (prepare k) := by
  refine untouched_bind (fun s => .of_frame rfl rfl (.refl _)) fun call =>
    untouched_bind (fun s => .refl s) fun s => ?_
  cases s.cores[k]? with
  | none => exact Effect.moves_throw .refl _
  | some core =>
    refine untouched_bind (Effect.moves_lift .refl _) fun work => ?_
    dsimp only
    split
    · exact Effect.moves_pure .refl _
    · refine untouched_bind (untouched_tryFetch work _) fun r => ?_
      cases r with
      | none =>
        exact untouched_bind (fun s => .of_frame rfl rfl (.refl _)) fun _ =>
          Effect.moves_pure .refl _
      | some r =>
        obtain ⟨iclass, encoding⟩ := r
        refine untouched_bind (fun s => .refl s) fun _ =>
          untouched_bind (untouched_debugPreStepChecks work _) fun r => ?_
        split
        · exact Effect.moves_pure .refl _
        · exact Effect.moves_pure .refl _

theorem tryFetch_some {work : RiscvState} {pc : U32} {c : Iclass} {w : U32}
    {s s' : RiscvSimulator} (h : (tryFetch work pc).run s = .ok (some (c, w)) s') :
    ∃ m, (fetch work pc).run s.memory = .ok (c, w) m ∧ s' = { s with memory := m } := by
  rw [tryFetch, onMemory, Effect.run_focus, Effect.run_tryCatch, ← bind_pure_comp,
    EStateM.run_bind] at h
  cases hf : (fetch work pc).run s.memory with
  | ok r m => rw [hf] at h; cases h; exact ⟨m, rfl, rfl⟩
  | error f m =>
    rw [hf] at h
    cases f <;> cases h

/-- `StepCore` up to `Execute`, read backwards. -/
theorem prepare_checked {k : Nat} {s s₁ : RiscvSimulator} {core : RiscvState} {pc : U32}
    {i : RiscvInstruction} (h : (prepare k).run s = .ok (.ok (core, pc, i)) s₁) :
    ∃ work c w m client, s.cores[k]? = some core ∧
      serviceInterrupt (RiscvState.copy (s.host.storage s.calls) core) = .ok work ∧
      work.lowPowerMode = false ∧ pc = work.pc.setWidth 32 ∧
      (fetch work pc).run s.memory = .ok (c, w) m ∧
      (debugPreStepChecks work pc).run { s with calls := s.calls + 1, memory := m } =
        .ok (true, client) s₁ ∧
      i = { RiscvInstruction.new (s.host.junk s.calls) c work m w with state := client } := by
  obtain ⟨call, s₂, hcall, h⟩ := Effect.ok_of_bind h
  obtain ⟨s₃, s₄, hget, h⟩ := Effect.ok_of_bind h
  cases hcall
  cases hget
  dsimp only at h
  cases hcore : s.cores[k]? with
  | none => rw [hcore] at h; cases h
  | some core' =>
    rw [hcore] at h
    obtain ⟨work, s₅, hwork, h⟩ := Effect.ok_of_bind h
    cases hserviced : serviceInterrupt (RiscvState.copy (s.host.storage s.calls) core') with
    | error f => rw [hserviced] at hwork; cases hwork
    | ok work' =>
      rw [hserviced] at hwork
      cases hwork
      split at h
      · cases h
      · next hawake =>
        obtain ⟨r, s₆, hfetch, h⟩ := Effect.ok_of_bind h
        cases r with
        | none =>
          obtain ⟨-, s₇, -, h⟩ := Effect.ok_of_bind h
          cases h
        | some r =>
          obtain ⟨c, w⟩ := r
          obtain ⟨m, hfetched, rfl⟩ := tryFetch_some hfetch
          obtain ⟨s₇, s₈, hmem, h⟩ := Effect.ok_of_bind h
          cases hmem
          obtain ⟨⟨goOn, client⟩, s₉, hdebug, h⟩ := Effect.ok_of_bind h
          dsimp only at h
          cases goOn with
          | false => cases h
          | true =>
            cases h
            exact ⟨_, c, w, m, client, rfl, hserviced, by simpa using hawake, rfl, hfetched,
              hdebug, rfl⟩

/-- The instruction `StepCore` is about to execute belongs to core `k` and has queued nothing. -/
theorem prepare_ok {k : Nat} {s s₁ : RiscvSimulator} {core : RiscvState} {pc : U32}
    {i : RiscvInstruction} (h : (prepare k).run s = .ok (.ok (core, pc, i)) s₁) :
    s.cores[k]? = some core ∧ i.mOpsMemory = [] := by
  obtain ⟨_, _, _, _, _, hcore, -, -, -, -, -, rfl⟩ := prepare_checked h
  exact ⟨hcore, rfl⟩

/-- `GetReadyCpus` asks the host for an order of the cores that are ready. -/
theorem getReadyCpus_ok {s s' : RiscvSimulator} {cpus : List Nat}
    (h : getReadyCpus.run s = .ok cpus s') : s' = { s with calls := s.calls + 1 } ∧ cpus.Nodup ∧
      ∀ k, k ∈ cpus ↔ ∃ core, s.cores[k]? = some core ∧ core.ready := by
  rw [getReadyCpus, EStateM.run_bind] at h
  cases h
  have hperm := s.host.shuffle_perm s.calls s.readyCores
  refine ⟨rfl, hperm.nodup_iff.mpr (List.nodup_range.filter _), fun k => ?_⟩
  refine hperm.mem_iff.trans ?_
  rw [readyCores, List.mem_filter, List.mem_range]
  constructor
  · rintro ⟨hlt, hready⟩
    rw [List.getElem?_eq_getElem hlt] at hready
    exact ⟨_, List.getElem?_eq_getElem hlt, hready⟩
  · rintro ⟨core, hcore, hready⟩
    refine ⟨(List.getElem?_eq_some_iff.mp hcore).1, ?_⟩
    rw [hcore]
    exact hready

/-! ### `Execute` -/

theorem execute_run (i : RiscvInstruction) (s : RiscvSimulator) :
    (execute i).run s = match Step.execute.run { i with memory := s.memory } with
      | .ok _ i' => .ok i' { s with memory := i'.memory }
      | .error f i' => .error f { s with memory := i'.memory } := by
  rw [execute, Effect.run_focus, EStateM.run_bind]
  cases Step.execute.run { i with memory := s.memory } <;> rfl

/-- `Execute` changes nothing but memory, and there no byte that has a value. -/
theorem final_execute (i : RiscvInstruction) (s : RiscvSimulator) : ∃ m,
    Effect.final ((execute i).run s) = { s with memory := m } ∧ Memory.RamFrame [] s.memory m := by
  have hloads := execute_loadsOnly { i with memory := s.memory }
  rw [execute_run]
  cases hrun : Step.execute.run { i with memory := s.memory } with
  | ok u i' => rw [hrun] at hloads; exact ⟨i'.memory, rfl, hloads.ram⟩
  | error f i' => rw [hrun] at hloads; exact ⟨i'.memory, rfl, hloads.ram⟩

theorem untouched_execute (i : RiscvInstruction) : Effect.Moves Untouched (execute i) := by
  intro s
  obtain ⟨m, hfinal, hframe⟩ := final_execute i s
  rw [hfinal]
  exact .of_frame rfl rfl hframe

/-! ### From `Writeback` on -/

theorem writeback_run_eq (i : RiscvInstruction) (k : Nat) (core : RiscvState) (s : RiscvSimulator) :
    (writeback k core i).run s = match (writebackOps i.mOpsMemory).run s.memory with
      | .ok _ m => .ok (core.update i.state)
        { s with cores := s.cores.set k (core.update i.state), memory := m }
      | .error f m =>
        .error f { s with cores := s.cores.set k (core.update i.state), memory := m } := by
  rw [writeback, Effect.run_focus, EStateM.run_bind, writeback_run]
  generalize core.update i.state = committed
  cases (writebackOps i.mOpsMemory).run s.memory <;> rfl

theorem debugPostStepChecks_run (cpu : RiscvState) (pc : U32) (s : RiscvSimulator) :
    ∃ debugServer, (debugPostStepChecks cpu pc).run s = .ok (true, cpu) { s with debugServer } := by
  rw [debugPostStepChecks, debugChecks, EStateM.run_bind, EStateM.run_get]
  dsimp only
  cases hd : s.debugServer with
  | none => exact ⟨s.debugServer, rfl⟩
  | some server =>
    obtain ⟨server', hrun⟩ := DebugServer.postStepChecks_run
      { server, cpu, memory := s.memory, pc := pc.setWidth 64 }
    rw [Effect.run_focus, EStateM.run_bind, hrun]
    exact ⟨some server', rfl⟩

theorem countInstr_cases (s : RiscvSimulator) :
    countInstr.run s = .ok () { s with instrCount := s.instrCount + 1 } ∨
      countInstr.run s = .error .undefined s := by
  rw [countInstr, EStateM.run_bind, EStateM.run_get]
  dsimp only
  split
  · exact .inr rfl
  · exact .inl rfl

/-- `StepCore` from `Writeback` on, once the queued stores are done. -/
theorem commit_of_ops {i : RiscvInstruction} {s : RiscvSimulator} {m : Memory}
    (hops : (writebackOps i.mOpsMemory).run s.memory = .ok () m) (k : Nat) (core : RiscvState)
    (pc : U32) :
    (∃ s', (commit k core pc i).run s = .ok () s' ∧
      s'.cores = s.cores.set k
        (setEndTest s.simCfg.isaTest i.iclass pc (core.update i.state)) ∧
      s'.memory = m) ∨
    ∃ s', (commit k core pc i).run s = .error .undefined s' := by
  rw [commit, EStateM.run_bind, writeback_run_eq, hops]
  generalize core.update i.state = committed
  simp only [setCore, EStateM.run_bind, EStateM.run_get, EStateM.run_modify]
  generalize setEndTest s.simCfg.isaTest i.iclass pc committed = ended
  generalize hs₁ : ({ s with
    cores := (s.cores.set k committed).set k ended, memory := m } : RiscvSimulator) = s₁
  rcases countInstr_cases s₁ with hcount | hcount
  · obtain ⟨debugServer, hpost⟩ := debugPostStepChecks_run ended pc
      { s₁ with instrCount := s₁.instrCount + 1 }
    rw [hcount]
    dsimp only
    rw [hpost]
    refine .inl ⟨_, rfl, ?_, ?_⟩
    · rw [← hs₁]; simp
    · rw [← hs₁]
  · rw [hcount]
    exact .inr ⟨s₁, rfl⟩

/-- What a commit that returns leaves, and what it can throw. -/
theorem commit_cases {i : RiscvInstruction} (hq : ∀ a ∈ i.mOpsMemory, a.WellSized) (k : Nat)
    (core : RiscvState) (pc : U32) (s : RiscvSimulator) :
    (∃ s', (commit k core pc i).run s = .ok () s' ∧
      s'.cores = s.cores.set k
        (setEndTest s.simCfg.isaTest i.iclass pc (core.update i.state)) ∧
      s'.memory = i.mOpsMemory.foldl MemoryAccess.apply s.memory) ∨
    ∃ f s', (commit k core pc i).run s = .error f s' ∧ ∀ what, f ≠ .runtimeError what := by
  rcases writebackOps_cases i.mOpsMemory s.memory hq with hrun | ⟨f, m', hrun, hf⟩
  · rcases commit_of_ops hrun k core pc with hok | ⟨s', herr⟩
    · exact .inl hok
    · exact .inr ⟨.undefined, s', herr, by simp⟩
  · rw [commit, EStateM.run_bind, writeback_run_eq, hrun]
    exact .inr ⟨f, _, rfl, hf⟩

/-! ### The whole step -/

/-- A step that completed: the instruction `i` it executed, the object `i'` after `Execute`, and what
    `Writeback` did with it. -/
structure Committed (k : Nat) (s : RiscvSimulator) (i i' : RiscvInstruction) (s₁ s' : RiscvSimulator) :
    Prop where
  /-- up to `Execute` nothing was touched -/
  prepared : ∃ core pc, (prepare k).run s = .ok (.ok (core, pc, i)) s₁ ∧ Untouched s s₁ ∧
    s'.cores = s.cores.set k
      (setEndTest s₁.simCfg.isaTest i'.iclass pc (core.update i'.state))
  executed : Step.execute.run { i with memory := s₁.memory } = .ok () i'
  /-- nor was RAM by `Execute` -/
  loads : Memory.RamFrame [] s₁.memory i'.memory
  /-- every queued store is applied, once and in order -/
  stores : s'.memory = i'.mOpsMemory.foldl MemoryAccess.apply i'.memory
  /-- which is the following run of byte writes -/
  writes : Cells.Run i'.memory.physMem.seen (i'.mOpsMemory.flatMap (MemoryAccess.ramWrites i'.memory))
    s'.memory.physMem.seen

/-- The ways `StepCore` can end. -/
theorem stepCore_cases (k : Nat) (s : RiscvSimulator) :
    (∃ why s', (stepCore k).run s = .ok (.returned why) s' ∧ Untouched s s') ∨
    (∃ f s', (stepCore k).run s = .error f s' ∧ ((∃ what, f = .runtimeError what) → Untouched s s')) ∨
    ∃ i i' s₁ s', (stepCore k).run s = .ok .executed s' ∧ Committed k s i i' s₁ s' := by
  have hprep : Untouched s (Effect.final ((prepare k).run s)) := untouched_prepare k s
  rw [stepCore, EStateM.run_bind]
  cases hp : (prepare k).run s with
  | error f s₁ =>
    rw [hp] at hprep
    exact .inr (.inl ⟨f, s₁, rfl, fun _ => hprep⟩)
  | ok r s₁ =>
    rw [hp] at hprep
    cases r with
    | error why => exact .inl ⟨why, s₁, rfl, hprep⟩
    | ok r =>
      obtain ⟨core, pc, i⟩ := r
      obtain ⟨-, hqueue⟩ := prepare_ok hp
      have hexec := untouched_execute i s₁
      have hloads := execute_loadsOnly { i with memory := s₁.memory }
      dsimp only
      rw [EStateM.run_bind]
      rw [execute_run] at hexec ⊢
      cases he : Step.execute.run { i with memory := s₁.memory } with
      | error f i' =>
        rw [he] at hexec
        exact .inr (.inl ⟨f, _, rfl, fun _ => hprep.trans hexec⟩)
      | ok u i' =>
        rw [he] at hexec hloads
        have hq : ∀ a ∈ i'.mOpsMemory, a.WellSized :=
          hloads.queue (by simp [hqueue])
        dsimp only
        rw [EStateM.run_bind]
        rcases commit_cases hq k core pc { s₁ with memory := i'.memory } with
          ⟨s', hc, hcores, hmem⟩ | ⟨f, s', hc, hf⟩
        · rw [hc]
          refine .inr (.inr ⟨i, i', s₁, s', rfl, ⟨core, pc, hp, hprep, ?_⟩, he, hloads.ram, hmem, ?_⟩)
          · have hsame : s₁.cores = s.cores := hprep.cores
            rw [hcores, ← hsame]
          · rw [hmem]
            exact run_apply _ _ _ (Memory.SameMap.refl _) hq
        · rw [hc]
          exact .inr (.inl ⟨f, s', rfl, fun ⟨what, h⟩ => absurd h (hf what)⟩)

section Inversion

variable {k : Nat} {s s' : RiscvSimulator}

theorem stepCore_returned {why : EarlyReturn} (h : (stepCore k).run s = .ok (.returned why) s') :
    Untouched s s' := by
  rcases stepCore_cases k s with ⟨_, _, h', hu⟩ | ⟨_, _, h', -⟩ | ⟨_, _, _, _, h', -⟩
  · rw [h] at h'; cases h'; exact hu
  · rw [h] at h'; cases h'
  · rw [h] at h'; cases h'

theorem stepCore_runtimeError {what : List Char}
    (h : (stepCore k).run s = .error (.runtimeError what) s') : Untouched s s' := by
  rcases stepCore_cases k s with ⟨_, _, h', -⟩ | ⟨_, _, h', hu⟩ | ⟨_, _, _, _, h', -⟩
  · rw [h] at h'; cases h'
  · rw [h] at h'; cases h'; exact hu ⟨what, rfl⟩
  · rw [h] at h'; cases h'

theorem stepCore_executed (h : (stepCore k).run s = .ok .executed s') :
    ∃ i i' s₁, Committed k s i i' s₁ s' := by
  rcases stepCore_cases k s with ⟨_, _, h', -⟩ | ⟨_, _, h', -⟩ | ⟨i, i', s₁, _, h', hc⟩
  · rw [h] at h'; cases h'
  · rw [h] at h'; cases h'
  · rw [h] at h'; cases h'; exact ⟨i, i', s₁, hc⟩

end Inversion

/-- `Execute` alone leaves the cores and every byte of RAM as they are, so that every later read
    returns what it held. A step that returns early or ends with `std::runtime_error` has not
    touched the cores, nor RAM apart from the bytes it wrote for the debug client; a step that
    completes has applied every queued store once and in order. -/
theorem step_is_all_or_nothing :
    (∀ (s : RiscvSimulator) (i : RiscvInstruction),
      let s' := Effect.final ((execute i).run s)
      s'.cores = s.cores ∧ ∀ a v, s.memory.physMem.seen a = some v →
        s'.memory.physMem.seen a = some v ∧ ∀ init, ∃ rcode p,
          (PhysicalMemory.read a init 1).run s'.memory.physMem = .ok (rcode, [v]) p) ∧
    ∀ (k : Nat) (s : RiscvSimulator),
      (∀ why s', (stepCore k).run s = .ok (.returned why) s' → Untouched s s') ∧
      (∀ what s', (stepCore k).run s = .error (.runtimeError what) s' → Untouched s s') ∧
      (∀ s', (stepCore k).run s = .ok .executed s' → ∃ i i' s₁, Committed k s i i' s₁ s') := by
  refine ⟨fun s i => ?_, fun k s => ⟨?_, ?_, ?_⟩⟩
  · obtain ⟨m, hfinal, hframe⟩ := final_execute i s
    simp only [hfinal]
    refine ⟨trivial, fun a v hv => ?_⟩
    have hkept := hframe.keeps.grows a v hv
    exact ⟨hkept, PhysicalMemory.read_of_seen hkept⟩
  · exact fun why s' hrun => stepCore_returned hrun
  · exact fun what s' hrun => stepCore_runtimeError hrun
  · exact fun s' hrun => stepCore_executed hrun

/-- SW x0,0(x0) at the reset address, with the image loaded. -/
def storeMachine : RiscvSimulator :=
  Effect.final (startGo.run (init { resetAddress := 0x80000000 }
    (.simple 0x80000000 [0x23, 0x20, 0, 0] {})))

theorem step_is_all_or_nothing_for_a_store : ∃ s' i i' s₁,
    (stepCore 0).run storeMachine = .ok .executed s' ∧ Committed 0 storeMachine i i' s₁ s' := by
  obtain ⟨s', hrun⟩ : ∃ s', (stepCore 0).run storeMachine = .ok .executed s' :=
    Effect.ok_of_result (by decide +kernel)
  obtain ⟨i, i', s₁, hc⟩ := (step_is_all_or_nothing.2 0 storeMachine).2.2 s' hrun
  exact ⟨s', i, i', s₁, hrun, hc⟩

/-- LW x1,0(x0) out of reset. `rand` returns one number after the other. -/
def loadMachine : RiscvSimulator :=
  init {} { Host.simple 0 [] {} with
    oracle := { rand := fun k => BitVec.ofNat 8 k, heap := fun _ => 0 } }

/-- The load draws the initial values of its block, and those of the next block are others than
    without the load. -/
theorem load_shifts_random_bytes : ¬ ∀ (s : RiscvSimulator) (i : RiscvInstruction) (a : U64),
    let s' := Effect.final ((execute i).run s)
    s'.cores = s.cores ∧
      (Effect.result ((PhysicalMemory.read a false 1).run s'.memory.physMem)).map Prod.snd =
        (Effect.result ((PhysicalMemory.read a false 1).run s.memory.physMem)).map Prod.snd := by
  intro hall
  obtain ⟨-, hsame⟩ := hall loadMachine (.new {} .lw {} loadMachine.memory 0x2083) 32
  exact absurd hsame (by decide +kernel)

end Dimebox.RiscvSimulator
