import Dimebox.HartSimulation

/-! Programs that end on the harts of the manual end on the simulator.

    The harts go on in rounds, as `Go` does: in every round those that are not at a jump to
    themselves execute one instruction each, in an order nobody knows. A program that comes to a
    postcondition within so many rounds, whatever the orders and whatever the bytes no image gave,
    is run to its end by `Go`, which returns zero with the postcondition. -/

namespace Dimebox

open Manual (Hart Harts)

namespace Manual.Harts

def pcOf (M : Harts) (k : Nat) : Option U32 := M.harts[k]?.map Hart.pc

/-- The harts `ks` execute one instruction each; left are those whose PC changed. -/
def turn : List Nat → Harts → Option (Harts × List Nat)
  | [], M => some (M, [])
  | k :: ks, M =>
    (M.step k).bind fun M₁ =>
      (turn ks M₁).map fun r => (r.1, if M₁.pcOf k = M.pcOf k then r.2 else k :: r.2)

/-- Within `n` rounds of the harts `ks` no hart is left, and `post` holds, in whatever order they
    execute. -/
def Finishes (post : Harts → Prop) : Nat → List Nat → Harts → Prop
  | 0, ks, M => ks = [] ∧ post M
  | n + 1, ks, M =>
    if ks = [] then post M
    else ∀ order, order.Perm ks → ∃ M' going, turn order M = some (M', going) ∧
      Finishes post n going M'

@[simp] theorem turn_nil (M : Harts) : turn [] M = some (M, []) := rfl

theorem turn_cons {k : Nat} {ks : List Nat} {M M' : Harts} {going : List Nat}
    (h : turn (k :: ks) M = some (M', going)) : ∃ M₁ later, M.step k = some M₁ ∧
      turn ks M₁ = some (M', later) ∧
      going = if M₁.pcOf k = M.pcOf k then later else k :: later := by
  obtain ⟨M₁, hstep, h⟩ := Option.bind_eq_some_iff.mp h
  obtain ⟨⟨M₂, later⟩, hturn, h⟩ := Option.map_eq_some_iff.mp h
  cases h
  exact ⟨M₁, later, hstep, hturn, rfl⟩

theorem turn_cons_of {k : Nat} {ks : List Nat} {M M₁ M' : Harts} {later : List Nat}
    (hstep : M.step k = some M₁) (hturn : turn ks M₁ = some (M', later)) :
    turn (k :: ks) M = some (M', if M₁.pcOf k = M.pcOf k then later else k :: later) := by
  rw [turn, hstep, Option.bind_some, hturn]
  rfl

theorem finishes_nil {post : Harts → Prop} {n : Nat} {M : Harts} :
    Finishes post n [] M ↔ post M := by
  cases n with
  | zero => simp [Finishes]
  | succ n => simp [Finishes]

theorem Finishes.perm {post : Harts → Prop} {n : Nat} {ks ks' : List Nat} {M : Harts}
    (hp : ks.Perm ks') (h : Finishes post n ks M) : Finishes post n ks' M := by
  rcases eq_or_ne ks [] with rfl | hks
  · rwa [List.nil_perm.mp hp]
  · have hks' : ks' ≠ [] := fun h => hks (by rw [h] at hp; exact List.perm_nil.mp hp)
    cases n with
    | zero => exact absurd h.1 hks
    | succ n =>
      rw [Finishes, if_neg hks] at h
      rw [Finishes, if_neg hks']
      exact fun order ho => h order (ho.trans hp.symm)

/-- A round of a program that ends. -/
theorem Finishes.turn {post : Harts → Prop} {n : Nat} {ks order : List Nat} {M : Harts}
    (h : Finishes post n ks M) (hne : ks ≠ []) (ho : order.Perm ks) : ∃ n' M' going,
      n = n' + 1 ∧ Harts.turn order M = some (M', going) ∧ Finishes post n' going M' := by
  cases n with
  | zero => exact absurd h.1 hne
  | succ n =>
    rw [Finishes, if_neg hne] at h
    obtain ⟨M', going, hturn, hrest⟩ := h order ho
    exact ⟨n, M', going, rfl, hturn, hrest⟩

end Manual.Harts

namespace RiscvSimulator

/-! ### One step -/

/-- Nothing but instructions can happen. -/
structure Bare (s : RiscvSimulator) : Prop extends Watched s where
  debugServer : s.debugServer = none

/-- The simulator after a step of core `k` that left `core` and `m`. -/
def stepped (s : RiscvSimulator) (k : Nat) (core : RiscvState) (m : Memory) : RiscvSimulator :=
  { s with
    calls := s.calls + 1
    cores := s.cores.set k core
    memory := m
    instrCount := s.instrCount + 1 }

/-- How a step ends whose instruction executes: the counter may have reached its limit. -/
def Steps (s : RiscvSimulator) (k : Nat) (s' : RiscvSimulator) : Prop :=
  if s.instrCount = 0x7fffffff then ∃ s₁, (stepCore k).run s = .error .undefined s₁
  else (stepCore k).run s = .ok .executed s'

theorem commit_run {i : RiscvInstruction} {s : RiscvSimulator} {m : Memory}
    (hops : (writebackOps i.mOpsMemory).run s.memory = .ok () m) (hnone : s.debugServer = none)
    (k : Nat) (core : RiscvState) (pc : U32) :
    if s.instrCount = 0x7fffffff then ∃ s₁, (commit k core pc i).run s = .error .undefined s₁
    else (commit k core pc i).run s = .ok () { s with
      cores := s.cores.set k (setEndTest s.simCfg.isaTest i.iclass pc (core.update i.state))
      memory := m
      instrCount := s.instrCount + 1 } := by
  rw [commit, EStateM.run_bind, writeback_run_eq, hops]
  generalize core.update i.state = committed
  simp only [setCore, EStateM.run_bind, EStateM.run_get, EStateM.run_modify, countInstr]
  split
  · exact ⟨_, rfl⟩
  · simp only [EStateM.run_set, debugPostStepChecks, debugChecks, EStateM.run_bind, EStateM.run_get,
      hnone, EStateM.run_pure]
    simp

/-- A step whose instruction executes. -/
theorem steps_of_execute {s : RiscvSimulator} {k : Nat} {core work : RiscvState} {c : Iclass}
    {w : U32} {m m' : Memory} {i' : RiscvInstruction} (hcore : s.cores[k]? = some core)
    (hserviced : serviceInterrupt (RiscvState.copy (s.host.storage s.calls) core) = .ok work)
    (hawake : work.lowPowerMode = false)
    (hfetch : (fetch work (work.pc.setWidth 32)).run s.memory = .ok (c, w) m)
    (hnone : s.debugServer = none)
    (hrun : Step.execute.run (.new (s.host.junk s.calls) c work m w) = .ok () i')
    (hops : (writebackOps i'.mOpsMemory).run i'.memory = .ok () m') :
    s.Steps k (s.stepped k (setEndTest s.simCfg.isaTest i'.iclass (work.pc.setWidth 32)
      (core.update i'.state)) m') := by
  have hprep := prepare_of_fetch hcore hserviced hawake hfetch hnone
  have hexec := execute_run (.new (s.host.junk s.calls) c work m w)
    { s with calls := s.calls + 1, memory := m }
  have hsame : ({ RiscvInstruction.new (s.host.junk s.calls) c work m w with memory := m } :
      RiscvInstruction) = .new (s.host.junk s.calls) c work m w := rfl
  rw [hsame, hrun] at hexec
  have hcommit := commit_run (s := { s with calls := s.calls + 1, memory := i'.memory }) hops hnone
    k core (work.pc.setWidth 32)
  rw [Steps]
  split
  · next hmax =>
    rw [if_pos hmax] at hcommit
    obtain ⟨s₁, hcommit⟩ := hcommit
    refine ⟨s₁, ?_⟩
    rw [stepCore, EStateM.run_bind, hprep]
    simp only [EStateM.run_bind, hexec, hcommit]
  · next hcount =>
    rw [if_neg hcount] at hcommit
    rw [stepCore, EStateM.run_bind, hprep]
    simp only [EStateM.run_bind, hexec, hcommit]
    rfl

/-- The step of core `k` is the step of hart `k`, unless hart `k` has none. -/
theorem stepCore_simulates {s : RiscvSimulator} (hs : s.Bare) {k : Nat} {core : RiscvState}
    (hk : s.cores[k]? = some core) :
    (∃ M, Stands s M ∧ M.step k = none) ∨ ∃ core' p, Follower core core' ∧
      s.Steps k (s.stepped k core' { s.memory with physMem := p }) ∧
      Simulation.Leads Stands Harts.step s [k]
        (s.stepped k core' { s.memory with physMem := p }) := by
  obtain ⟨hawake, hquiet⟩ := hs.cores core (List.mem_of_getElem? hk)
  obtain ⟨work, hwork⟩ : ∃ work, work = RiscvState.copy (s.host.storage s.calls) core := ⟨_, rfl⟩
  have hhart : work.hart = core.hart := by rw [hwork, RiscvState.copy, hart_update]
  have hmode : work.lowPowerMode = false := by rw [hwork, RiscvState.lowPowerMode_copy, hawake]
  have hpending : work.interruptPending = none := by
    rw [hwork, RiscvState.copy, RiscvState.interruptPending_update, hquiet]
  have hserviced : serviceInterrupt work = .ok work := by rw [serviceInterrupt, hpending]
  obtain ⟨c, w, p, hfetch, hgrows, hexecution⟩ := instruction_simulates hs.ram
    (Memory.deviceAt_nil hs.devices) hk hhart (s.host.junk s.calls)
  rcases hexecution p (.refl _) with hnone | ⟨hne, accesses, i', p', hexecutes, hleads⟩
  · have hres : Cells.Resolves (fun a => (p.seen a).getD 0) p.seen := fun a v h => by simp [h]
    exact .inl ⟨_, stands_hartsOver (hres.of_grows hgrows), hnone _ hres⟩
  · have hiclass : i'.iclass = c := execute_iclass hexecutes.run
    refine .inr ⟨_, p', follower_of_execute hwork hmode hpending hexecutes.state hexecutes.narrow
      (hiclass.symm ▸ hne) _, steps_of_execute hk (by rw [← hwork]; exact hserviced) hmode hfetch
      hs.debugServer hexecutes.run hexecutes.stores, hleads _ ?_ rfl⟩
    rw [stepped, List.map_set, (keeps_setEndTest _ _ _ _).1, hart_update]

theorem Bare.stepped {s : RiscvSimulator} (hs : s.Bare) {core core' : RiscvState} (k : Nat)
    (hf : Follower core core') (p : PhysicalMemory) :
    (s.stepped k core' { s.memory with physMem := p }).Bare := by
  refine ⟨⟨fun c hc => ?_, hs.inspected, ⟨hs.ram.range.withPhysMem _, hs.ram.host⟩, hs.devices,
    hs.timer, hs.uart⟩, hs.debugServer⟩
  rcases List.mem_or_eq_of_mem_set hc with h | rfl
  · exact hs.cores c h
  · exact ⟨hf.awake, hf.quiet⟩

theorem Bare.tick {s : RiscvSimulator} (hs : s.Bare) (clock : U64) (calls : Nat) :
    Bare { s with clock, calls } := ⟨hs.toWatched.tick clock calls, hs.debugServer⟩

/-! ### Rounds -/

/-- Core `k` has not ended its test. -/
def running (s : RiscvSimulator) (k : Nat) : Bool :=
  (s.cores[k]?.map fun core => !core.endTest).getD false

theorem readyCores_eq {s : RiscvSimulator} (hs : s.Bare) :
    s.readyCores = (List.range s.cores.length).filter s.running := by
  refine List.filter_congr fun k _ => ?_
  rw [running]
  cases hk : s.cores[k]? with
  | none => rfl
  | some core =>
    obtain ⟨hawake, -⟩ := hs.cores core (List.mem_of_getElem? hk)
    simp [RiscvState.ready, hawake]

theorem mem_readyCores {s : RiscvSimulator} (hs : s.Bare) {k : Nat} :
    k ∈ s.readyCores ↔ s.running k := by
  rw [readyCores_eq hs, List.mem_filter, List.mem_range]
  refine and_iff_right_of_imp fun h => ?_
  by_contra hlt
  rw [running, List.getElem?_eq_none (by omega)] at h
  cases h

theorem nodup_readyCores (s : RiscvSimulator) : s.readyCores.Nodup := List.nodup_range.filter _

theorem length_readyCores_le (s : RiscvSimulator) : s.readyCores.length ≤ s.cores.length :=
  (List.length_filter_le _ _).trans_eq List.length_range

/-- The PC of a hart is the one of its core. -/
theorem Stands.pcOf {s : RiscvSimulator} {M : Harts} (h : Stands s M) (k : Nat) :
    M.pcOf k = s.cores[k]?.map fun core => core.hart.pc := by
  rw [Harts.pcOf, h.harts, List.getElem?_map, Option.map_map]
  rfl

/-- What the steps `ks` of a round do when none of them fails. -/
structure Turned (s : RiscvSimulator) (ks : List Nat) (s' : RiscvSimulator) : Prop where
  bare : s'.Bare
  rcode : s'.rcode = s.rcode
  simCfg : s'.simCfg = s.simCfg
  length : s'.cores.length = s.cores.length
  instrCount : s'.instrCount = s.instrCount + ks.length
  others : ∀ k, k ∉ ks → s'.cores[k]? = s.cores[k]?
  harts : ∀ M', Stands s' M' → ∃ M, Stands s M ∧ M.turn ks = some (M', ks.filter s'.running)

/-- The steps of the cores `ks`, from where the harts can execute them. -/
theorem stepCores_turned (ks : List Nat) {s : RiscvSimulator} (hs : s.Bare) (hr : s.rcode = 0)
    (hnodup : ks.Nodup) (hrunning : ∀ k ∈ ks, s.running k)
    (hroom : s.instrCount + ks.length ≤ 0x7fffffff)
    (hturn : ∀ M, Stands s M → (M.turn ks).isSome) :
    ∃ events s', (stepCores ks).run s = .ok events s' ∧ s.Turned ks s' := by
  induction ks generalizing s with
  | nil =>
    exact ⟨[], s, rfl, hs, rfl, rfl, rfl, by simp, fun _ _ => rfl, fun M hM => ⟨M, hM, rfl⟩⟩
  | cons k ks ih =>
    rw [List.length_cons, Nat.cast_succ] at hroom
    obtain ⟨core, hk, hgoes⟩ : ∃ core, s.cores[k]? = some core ∧ core.endTest = false := by
      have h := hrunning k List.mem_cons_self
      rw [running] at h
      cases hk : s.cores[k]? with
      | none => rw [hk] at h; cases h
      | some core => exact ⟨core, rfl, by simpa [hk] using h⟩
    obtain ⟨hnot, hnodup⟩ := List.nodup_cons.mp hnodup
    rcases stepCore_simulates hs hk with ⟨M, hM, hnone⟩ | ⟨core', p, hf, hsteps, hleads⟩
    · -- the harts can execute this step
      obtain ⟨⟨M', going⟩, hM'⟩ := Option.isSome_iff_exists.mp (hturn M hM)
      obtain ⟨M₁, -, hstep, -⟩ := Harts.turn_cons hM'
      rw [hnone] at hstep
      cases hstep
    rw [Steps, if_neg (by omega)] at hsteps
    obtain ⟨s₁, hs₁⟩ : ∃ s₁, s₁ = s.stepped k core' { s.memory with physMem := p } := ⟨_, rfl⟩
    have hbare : s₁.Bare := hs₁ ▸ hs.stepped k hf p
    rw [← hs₁] at hsteps hleads
    have hcores : s₁.cores = s.cores.set k core' := by rw [hs₁]; rfl
    have hlength : s₁.cores.length = s.cores.length := by rw [hcores, List.length_set]
    have hcount : s₁.instrCount = s.instrCount + 1 := by rw [hs₁]; rfl
    have hat : s₁.cores[k]? = some core' := by
      rw [hcores, List.getElem?_set_self (List.getElem?_eq_some_iff.mp hk).1]
    have hframe : ∀ j, j ≠ k → s₁.cores[j]? = s.cores[j]? := fun j hj => by
      rw [hcores, List.getElem?_set_ne (Ne.symm hj)]
    have hrunning₁ : ∀ j ∈ ks, s₁.running j := fun j hj => by
      rw [running, hframe j fun h => hnot (h ▸ hj)]
      exact hrunning j (List.mem_cons_of_mem k hj)
    have hrcode : s₁.rcode = s.rcode := by rw [hs₁]; rfl
    have hturn₁ : ∀ M₁, Stands s₁ M₁ → (M₁.turn ks).isSome := by
      intro M₁ hM₁
      obtain ⟨M, hM, hstep⟩ := hleads M₁ hM₁
      obtain ⟨⟨M', going⟩, hM'⟩ := Option.isSome_iff_exists.mp (hturn M hM)
      obtain ⟨M₂, later, hstep', hlater, -⟩ := Harts.turn_cons hM'
      rw [Simulation.run_singleton, hstep'] at hstep
      rw [← Option.some.inj hstep, hlater]
      rfl
    obtain ⟨events, s', hrun, ht⟩ := ih hbare (hrcode.trans hr) hnodup hrunning₁ (by omega) hturn₁
    refine ⟨(k, .executed) :: events, s', ?_, ht.bare, ht.rcode.trans hrcode, ?_,
      ht.length.trans hlength, ?_, fun j hj => ?_, fun M' hM' => ?_⟩
    · rw [stepCores, EStateM.run_bind, EStateM.run_get]
      dsimp only
      rw [if_neg (by rw [hr]; decide), EStateM.run_bind, Effect.run_tryCatch, ← bind_pure_comp,
        EStateM.run_bind, hsteps]
      dsimp only
      rw [EStateM.run_pure]
      dsimp only
      rw [EStateM.run_bind, hrun]
      rfl
    · rw [ht.simCfg, hs₁]
      rfl
    · rw [ht.instrCount, hcount, List.length_cons]
      push_cast
      omega
    · rw [List.mem_cons, not_or] at hj
      rw [ht.others j hj.2, hframe j hj.1]
    · obtain ⟨M₁, hM₁, hlater⟩ := ht.harts M' hM'
      obtain ⟨M, hM, hstep⟩ := hleads M₁ hM₁
      rw [Simulation.run_singleton] at hstep
      refine ⟨M, hM, ?_⟩
      rw [Harts.turn_cons_of hstep hlater, hM₁.pcOf, hM.pcOf, hat, hk]
      have hends : s'.running k = !core'.endTest := by
        rw [running, ht.others k hnot, hat]
        rfl
      rw [List.filter_cons, hends, hf.endTest, hgoes]
      simp only [Option.map_some, Option.some.injEq, Bool.false_or, Bool.not_eq_eq_eq_not,
        Bool.not_true, decide_eq_false_iff_not, ite_not]

/-- A round from where the harts can execute one. -/
theorem turn_turned {ready : List Nat} {s : RiscvSimulator} (hs : s.Bare) (hr : s.rcode = 0)
    (hready : ready.Perm s.readyCores) (hroom : s.instrCount + ready.length ≤ 0x7fffffff)
    (hturn : ∀ M, Stands s M → (M.turn ready).isSome) :
    ∃ events ready' s', (turn ready).run s = .ok (events, ready') s' ∧ s.Turned ready s' ∧
      ready'.Perm s'.readyCores ∧ (ready.filter s'.running).Perm ready' := by
  have hmem : ∀ k, k ∈ ready ↔ s.running k := fun k => hready.mem_iff.trans (mem_readyCores hs)
  have hnodup : ready.Nodup := hready.nodup_iff.mpr s.nodup_readyCores
  obtain ⟨events, s₁, hsteps, ht⟩ := stepCores_turned ready hs hr hnodup
    (fun k hk => (hmem k).mp hk) hroom hturn
  have hclock := ht.bare.tick (s₁.clock + 1) s₁.calls
  obtain ⟨s₂, hs₂⟩ : ∃ s₂, s₂ = { s₁ with clock := s₁.clock + 1 } := ⟨_, rfl⟩
  obtain ⟨s', hs'⟩ : ∃ s', s' = { s₂ with calls := s₂.calls + 1 } := ⟨_, rfl⟩
  have hbare : s'.Bare := by rw [hs', hs₂]; exact hclock.tick _ _
  have hshuffled := s'.host.shuffle_perm s₂.calls s'.readyCores
  refine ⟨events, s'.host.shuffle s₂.calls s'.readyCores, s', ?_, ⟨hbare, ?_, ?_, ?_, ?_,
    fun k hk => ?_, fun M' hM' => ?_⟩, hshuffled, ?_⟩
  · have hafter : ((do
        advanceClock
        serviceDevices
        return (events, ← getReadyCpus)) : SimM (List Event × List Nat)).run s₁
          = .ok (events, s'.host.shuffle s₂.calls s'.readyCores) s' := by
      rw [EStateM.run_bind, advanceClock, EStateM.run_modify]
      dsimp only
      rw [EStateM.run_bind, serviceDevices_none hclock.timer hclock.uart, hs', hs₂]
      rfl
    rw [turn]
    split
    · rw [EStateM.run_bind, hsteps]
      exact hafter
    · next hempty =>
      obtain rfl : ready = [] := by simpa using hempty
      cases hsteps
      exact hafter
  · rw [hs', hs₂]; exact ht.rcode
  · rw [hs', hs₂]; exact ht.simCfg
  · rw [hs', hs₂]; exact ht.length
  · rw [hs', hs₂]; exact ht.instrCount
  · rw [hs', hs₂]; exact ht.others k hk
  · have hM₁ : Stands s₁ M' := by
      rw [hs', hs₂] at hM'
      exact (stands_tick _ _ M').mp hM'
    obtain ⟨M, hM, hharts⟩ := ht.harts M' hM₁
    have hsame : s'.running = s₁.running := by rw [hs', hs₂]; rfl
    exact ⟨M, hM, by rw [hsame]; exact hharts⟩
  · refine (List.perm_ext_iff_of_nodup (hnodup.filter _) s'.nodup_readyCores).mpr
      (fun k => ?_) |>.trans hshuffled.symm
    rw [List.mem_filter, mem_readyCores hbare]
    refine and_iff_right_of_imp fun hk => ?_
    -- a core that was not stepped is as it was
    by_contra hnot
    have hothers : s'.cores[k]? = s.cores[k]? := by rw [hs', hs₂]; exact ht.others k hnot
    rw [running, hothers] at hk
    exact hnot ((hmem k).mpr hk)

/-- Neither the counter nor the budget ends `n` rounds. -/
def Room (s : RiscvSimulator) (n : Nat) : Prop :=
  s.instrCount + n * s.cores.length ≤ 0x7fffffff ∧
    (0 ≤ s.simCfg.maxInstrs → s.instrCount + n * s.cores.length ≤ s.simCfg.maxInstrs)

theorem goesOn_of_room {s : RiscvSimulator} {n : Nat} (hr : s.rcode = 0) (hroom : s.Room n)
    {ready : List Nat} (hne : ready ≠ []) : s.goesOn ready := by
  have hbudget : s.instructionCountExceeded = false := by
    rw [instructionCountExceeded]
    split
    · rfl
    · have hbudget := hroom.2 (by omega)
      have hpos : (0 : Int) ≤ n * s.cores.length := by positivity
      exact decide_eq_false (by omega)
  simp [goesOn, hr, hbudget, hne]

/-- No core is left. -/
theorem loop_ends {post : Harts → Prop} {s : RiscvSimulator} (hs : s.Bare) (hr : s.rcode = 0)
    (hready : [].Perm s.readyCores) (hpost : ∀ M, Stands s M → post M) (n : Nat) :
    ∃ events s', (loop n []).run s = .ok (true, events) s' ∧ s'.rcode = 0 ∧ s'.allHalted ∧
      ∀ M, Stands s' M → post M := by
  have hdone : ¬ s.goesOn [] := by
    have hasleep : s.sleepingCores = false :=
      List.any_eq_false.mpr fun core hcore => by simp [(hs.cores core hcore).1]
    simp [goesOn, hasleep]
  refine ⟨[], s, loop_of_done hdone n, hr, ?_, hpost⟩
  refine List.all_eq_true.mpr fun core hcore => ?_
  obtain ⟨k, hlt, rfl⟩ := List.getElem_of_mem hcore
  have hnot : ¬ s.running k := fun h => by
    have hmem := (mem_readyCores hs).mpr h
    rw [List.nil_perm.mp hready] at hmem
    cases hmem
  simpa [running, RiscvState.halted, List.getElem?_eq_getElem hlt] using hnot

/-- The loop of a program that ends. -/
theorem loop_finishes {post : Harts → Prop} (n : Nat) {s : RiscvSimulator} {ready : List Nat}
    (hs : s.Bare) (hr : s.rcode = 0) (hready : ready.Perm s.readyCores) (hroom : s.Room n)
    (hfin : ∀ M, Stands s M → M.Finishes post n ready) :
    ∃ events s', (loop n ready).run s = .ok (true, events) s' ∧ s'.rcode = 0 ∧ s'.allHalted ∧
      ∀ M, Stands s' M → post M := by
  induction n generalizing s ready with
  | zero =>
    obtain ⟨M, hM⟩ := exists_stands s
    obtain rfl := (hfin M hM).1
    exact loop_ends hs hr hready (fun M hM => (hfin M hM).2) 0
  | succ n ih =>
    rcases eq_or_ne ready [] with rfl | hne
    · exact loop_ends hs hr hready (fun M hM => Harts.finishes_nil.mp (hfin M hM)) (n + 1)
    have hle : ready.length ≤ s.cores.length := hready.length_eq.trans_le s.length_readyCores_le
    have hgo := goesOn_of_room hr hroom hne
    obtain ⟨hroom₁, hroom₂⟩ := hroom
    rw [Nat.cast_succ, add_mul, one_mul] at hroom₁ hroom₂
    have hpos : (0 : Int) ≤ n * s.cores.length := by positivity
    have hrooms : s.instrCount + ready.length ≤ 0x7fffffff := by omega
    obtain ⟨events, ready', s', hturn, ht, hready', hgoing⟩ := turn_turned hs hr hready hrooms
      fun M hM => by
        obtain ⟨_, _, _, _, hM', _⟩ := (hfin M hM).turn hne (.refl ready)
        rw [hM']
        rfl
    have hroom' : s'.Room n := by
      rw [Room, ht.instrCount, ht.length, ht.simCfg]
      exact ⟨by omega, fun hmax => by have := hroom₂ hmax; omega⟩
    obtain ⟨events', s'', hloop, hr', hhalted, hpost⟩ := ih ht.bare (ht.rcode.trans hr) hready' hroom'
      fun M' hM' => by
        obtain ⟨M, hM, hM'⟩ := ht.harts M' hM'
        obtain ⟨n', M₁, going, hn, hsame, hrest⟩ := (hfin M hM).turn hne (.refl ready)
        rw [hM'] at hsame
        cases hn
        cases hsame
        exact hrest.perm hgoing
    refine ⟨events ++ events', s'', ?_, hr', hhalted, hpost⟩
    rw [loop_cons hgo hturn, hloop]

/-! ### Whole simulations -/

/-- The start of `Go` with an image that loads. -/
theorem startGo_of_load {s : RiscvSimulator} {m : Memory}
    (hload : s.host.loadTestImage s.memory = (0, m)) : ∃ ready s₁,
      startGo.run s = .ok (.ok ready) s₁ ∧ ready.Perm s₁.readyCores ∧ s₁.rcode = 0 ∧
        s₁.instrCount = 0 ∧ s₁.simCfg = s.simCfg := by
  obtain ⟨s₁, hs₁⟩ : ∃ s₁ : RiscvSimulator, s₁ = { s with
      rcode := 0
      memory := m
      calls := s.calls + 1
      instrCount := 0 } := ⟨_, rfl⟩
  refine ⟨s.host.shuffle s.calls s₁.readyCores, s₁, ?_, s.host.shuffle_perm _ _, ?_, ?_, ?_⟩
  · rw [startGo, EStateM.run_bind, EStateM.run_get]
    simp only [hload]
    rw [hs₁]
    rfl
  all_goals rw [hs₁]

/-- `Go` around a loop that is left with every core halted. -/
theorem go_of_halted {s s₁ s' : RiscvSimulator} {ready : List Nat} {events : List Event} {n : Nat}
    (hstart : startGo.run s = .ok (.ok ready) s₁)
    (hloop : (loop n ready).run s₁ = .ok (true, events) s') (hr : s'.rcode = 0)
    (hhalted : s'.allHalted) : (go n).run s = .ok (some 0, events) s' := by
  have hsame : { s' with rcode := 0 } = s' := by rw [← hr]
  rw [go, EStateM.run_bind, hstart]
  dsimp only
  rw [EStateM.run_bind, hloop]
  simp only [Bool.not_true, Bool.false_eq_true, if_false, EStateM.run_bind, EStateM.run_modify,
    EStateM.run_get, EStateM.run_pure, hhalted, if_true, hr, hsame]

/-- For every number of cores, image and order of stepping, without devices and without a debug
    server: a program that, from the reset address, comes to `post` on the harts of the manual within
    `n` rounds, whatever the orders of the rounds and whatever the bytes the image does not give, is
    run to its end by `Go` if the budget allows `n` rounds. `Go` returns zero, and every machine the
    simulator then stands for satisfies `post`. -/
theorem go_runs_programs (simCfg : SimConfig) (host : Host) (p : PhysicalMemory)
    (hdevices : simCfg.devices = []) (hport : (init simCfg host).debugServer = none)
    (hquiet : ∀ core ∈ (init simCfg host).cores, core.interruptPending = none)
    (hload : host.loadTestImage (init simCfg host).memory
      = (0, { (init simCfg host).memory with physMem := p })) (n : Nat)
    (hcount : n * simCfg.numCores ≤ 0x7fffffff)
    (hbudget : 0 ≤ simCfg.maxInstrs → (n * simCfg.numCores : Int) ≤ simCfg.maxInstrs)
    (post : Harts → Prop)
    (hfin : ∀ bytes : U32 → Byte, (∀ a v, p.seen (a.setWidth 64) = some v → bytes a = v) →
      (startHarts simCfg bytes).Finishes post n (List.range simCfg.numCores)) :
    ∃ events s', (go n).run (init simCfg host) = .ok (some 0, events) s' ∧
      (∃ M, Stands s' M) ∧ ∀ M, Stands s' M → post M := by
  obtain ⟨ready, s, hstart, hready, hr, hzero, hcfg⟩ := startGo_of_load (s := init simCfg host) hload
  have hlooks : (init simCfg host).Inspected := fun server h => by
    rw [hport] at h
    cases h
  obtain ⟨hwatched, -, hmem, hcores, hserver⟩ :=
    startGo_watched hdevices hlooks hquiet (congrArg Prod.snd hload) hstart
  have hbare : s.Bare := ⟨hwatched, hserver.trans hport⟩
  have hlength : s.cores.length = simCfg.numCores := by rw [hcores, init]; simp
  have hall : s.readyCores = List.range simCfg.numCores := by
    rw [readyCores_eq hbare, hlength]
    refine List.filter_eq_self.mpr fun k hk => ?_
    have hfresh : (init simCfg host).cores[k]?
        = some (.reset (host.storage k) simCfg.resetAddress) := by
      rw [init, List.getElem?_map, List.getElem?_range (List.mem_range.mp hk)]
      rfl
    rw [running, hcores, hfresh]
    rfl
  have hroom : s.Room n := by
    have hmax : (init simCfg host).simCfg = simCfg := rfl
    rw [Room, hzero, hlength, hcfg, hmax]
    exact ⟨by omega, fun h => by have := hbudget h; omega⟩
  obtain ⟨events, s', hloop, hr', hhalted, hpost⟩ := loop_finishes n hbare hr hready hroom
    fun M hM => by
      have hbytes : ∀ a v, p.seen (a.setWidth 64) = some v → M.bytes a = v :=
        fun a v h => hM.bytes a v (by rw [hmem]; exact h)
      have hsame : M = startHarts simCfg M.bytes := by
        obtain ⟨harts, bytes⟩ := M
        have hharts : harts = s.cores.map RiscvState.hart := hM.harts
        rw [hcores, harts_init] at hharts
        rw [hharts]
        rfl
      have hend := hfin M.bytes hbytes
      rw [← hsame, ← hall] at hend
      exact hend.perm hready.symm
  exact ⟨events, s', go_of_halted hstart hloop hr' hhalted, exists_stands s', hpost⟩

/-- `addi x1,x0,5` and a jump to itself come to five in `x1`, whatever the other bytes. -/
theorem five_finishes {bytes : U32 → Byte}
    (hfirst : Manual.loadBytes bytes 0x80000000 4 = [0x93, 0x00, 0x50, 0x00])
    (hsecond : Manual.loadBytes bytes 0x80000004 4 = [0x6f, 0x00, 0x00, 0x00]) :
    (startHarts { resetAddress := 0x80000000 } bytes).Finishes
      (fun M => M.harts.map (fun h => h.x 1) = [5]) 2 [0] := by
  obtain ⟨h, hh⟩ : ∃ h : Hart, h = { pc := 0x80000000, x := fun _ => 0 } := ⟨_, rfl⟩
  obtain ⟨h₁, hh₁⟩ : ∃ h₁ : Hart, h₁ = { h.putRd 0x00500093 5 with pc := 0x80000004 } := ⟨_, rfl⟩
  have hadd : Harts.step 0 { harts := [h], bytes } = some { harts := [h₁], bytes } := by
    rw [step_addi_five rfl hh hfirst, hh₁]
    rfl
  have hpc₁ : h₁.pc = 0x80000004 := by rw [hh₁]
  obtain ⟨h₂, hh₂⟩ : ∃ h₂ : Hart, h₂ = h₁.putRd 0x0000006f (h₁.pc + 4) := ⟨_, rfl⟩
  have hjump : Harts.step 0 { harts := [h₁], bytes } = some { harts := [h₂], bytes } := by
    rw [step_jal_self rfl hpc₁ hsecond, hh₂]
    rfl
  have hstart : startHarts { resetAddress := 0x80000000 } bytes = { harts := [h], bytes } := by
    rw [hh]
    rfl
  rw [hstart]
  intro order ho
  obtain rfl := List.perm_singleton.mp ho
  have hgoes : Harts.pcOf { harts := [h₁], bytes } 0 ≠ Harts.pcOf { harts := [h], bytes } 0 := by
    have hpcs : (some h₁.pc : Option U32) ≠ some h.pc := by
      rw [hpc₁, hh]
      decide
    exact hpcs
  have hstays : Harts.pcOf { harts := [h₂], bytes } 0 = Harts.pcOf { harts := [h₁], bytes } 0 := by
    rw [Harts.pcOf, Harts.pcOf, hh₂]
    rfl
  have hround := Harts.turn_cons_of hadd (Harts.turn_nil _)
  rw [if_neg hgoes] at hround
  refine ⟨_, _, hround, fun order ho => ?_⟩
  obtain rfl := List.perm_singleton.mp ho
  have hround := Harts.turn_cons_of hjump (Harts.turn_nil _)
  rw [if_pos hstays] at hround
  refine ⟨_, _, hround, Harts.finishes_nil.mpr ?_⟩
  rw [hh₂, hh₁, hh]
  rfl

/-- One core with that program in RAM. -/
theorem runs_five : ∃ events s',
    (go 2).run (init { resetAddress := 0x80000000 } (.simple 0x80000000
      [0x93, 0x00, 0x50, 0x00, 0x6f, 0x00, 0x00, 0x00] {})) = .ok (some 0, events) s' ∧
      (∃ M, Stands s' M) ∧ ∀ M, Stands s' M → M.harts.map (fun h => h.x 1) = [5] := by
  have hquiet : ∀ core ∈ (init { resetAddress := 0x80000000 } (.simple 0x80000000
      [0x93, 0x00, 0x50, 0x00, 0x6f, 0x00, 0x00, 0x00] {})).cores, core.interruptPending = none := by
    decide +kernel
  refine go_runs_programs _ _ _ rfl rfl hquiet (simple_loads ⟨rfl, rfl, rfl⟩
    (Memory.deviceAt_nil rfl) 0x80000000 _ (by decide) (by decide) {}) 2 (by decide) (by decide) _
    fun bytes hbytes => five_finishes (loadBytes_of_seen hbytes [0x93, 0x00, 0x50, 0x00] ?_)
      (loadBytes_of_seen hbytes [0x6f, 0x00, 0x00, 0x00] ?_)
  · decide +kernel
  · decide +kernel

end RiscvSimulator

end Dimebox
