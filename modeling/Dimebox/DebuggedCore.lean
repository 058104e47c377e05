import Dimebox.Counters

/-! The core the debug server follows.

    The server is configured with the number of a core. `core_match` is meant to tell whether the
    core that is stepped is that one, but is called with the number itself and always says yes; and
    every core gets the number zero from its constructor, so that `mhartid` could not tell them
    apart either. With one core there is nothing to tell apart. -/

namespace Dimebox.RiscvSimulator

/-- A part of a step leaves the debug server alone: it does what it does without one, and the server
    stays as it is. Nothing is polled, acknowledged or stopped. -/
def LeavesDebugger {α : Type} (x : SimM α) (s : RiscvSimulator) : Prop :=
  x.run s = Effect.mapState (fun s' => { s' with debugServer := s.debugServer })
    (x.run { s with debugServer := none })

theorem LeavesDebugger.final {α : Type} {x : SimM α} {s : RiscvSimulator} (h : LeavesDebugger x s) :
    (Effect.final (x.run s)).debugServer = s.debugServer := by
  rw [h, Effect.final_mapState]

/-- The initial poll is over, or there is no debug server. -/
def PastStart (s : RiscvSimulator) : Prop := ∀ d ∈ s.debugServer, d.atStart = false

/-- `mhartid` of a core. -/
def mhartid (core : RiscvState) : Except Fault U64 := core.csr 0xf14 3

/-- The debug server follows core `k`. -/
structure Follows (k : U32) (s : RiscvSimulator) : Prop where
  /-- a step of another core leaves the server alone -/
  step : s.PastStart → ∀ j < s.cores.length, j ≠ k.toNat → LeavesDebugger (stepCore j) s
  /-- also behind `Execute`, in the step of the initial poll -/
  after : ∀ j < s.cores.length, j ≠ k.toNat → ∀ core pc i i' s₁ s₂,
    (prepare j).run s = .ok (.ok (core, pc, i)) s₁ → (execute i).run s₁ = .ok i' s₂ →
    s₂.PastStart → LeavesDebugger (commit j core pc i') s₂
  /-- core `k` can be told by its `mhartid` -/
  identified : ∀ core, s.cores[k.toNat]? = some core → mhartid core = .ok (k.setWidth 64)
  distinct : ∀ (i j : Nat) (c c' : RiscvState), i ≠ j → s.cores[i]? = some c → s.cores[j]? = some c' →
    mhartid c ≠ mhartid c'

/-- Whatever the host does, and in whatever order the cores are stepped. -/
def FollowsConfigured (simCfg : SimConfig) : Prop :=
  ∀ (host : Host) (xs : List Execution) (s : RiscvSimulator), Run (init simCfg host) xs s →
    Follows simCfg.gdbCoreId s

/-! ### Numbers of cores -/

theorem mhartid_eq (core : RiscvState) : mhartid core = .ok (core.id.setWidth 64) := rfl

theorem run_mhartid {simCfg : SimConfig} {host : Host} {xs : List Execution} {s : RiscvSimulator}
    (h : Run (init simCfg host) xs s) {k : Nat} {core : RiscvState} (hk : s.cores[k]? = some core) :
    mhartid core = .ok 0 := by
  rw [mhartid_eq, (run_uncounted h core (List.mem_of_getElem? hk)).1]
  rfl

/-- No core appears after `Init`. -/
theorem run_core_lt {simCfg : SimConfig} {host : Host} {xs : List Execution} {s : RiscvSimulator}
    (h : Run (init simCfg host) xs s) : s.cores.length ≤ simCfg.numCores := by
  have hany : ∀ x ∈ xs, True := fun _ _ => trivial
  refine Trace.Run.invariant (P := fun s => s.cores.length ≤ simCfg.numCores) ?_ h hany ?_
  · intro s o s' hstep _ hle
    by_contra hlt
    obtain ⟨core', hcore'⟩ : ∃ core', s'.cores[simCfg.numCores]? = some core' :=
      ⟨_, List.getElem?_eq_getElem (Nat.lt_of_not_le hlt)⟩
    obtain ⟨core, hcore, -⟩ := hstep.core_cases hcore'
    have := (List.getElem?_eq_some_iff.mp hcore).1
    omega
  · simp [init]

/-- One core is followed. -/
theorem follows_of_one {simCfg : SimConfig} {host : Host} {xs : List Execution}
    {s : RiscvSimulator} (h : Run (init simCfg host) xs s)
    (hk : simCfg.gdbCoreId.toNat < simCfg.numCores) (hone : simCfg.numCores = 1) :
    Follows simCfg.gdbCoreId s := by
  have hlen := run_core_lt h
  have hnat : simCfg.gdbCoreId.toNat = 0 := by omega
  have hzero : simCfg.gdbCoreId = 0 := BitVec.eq_of_toNat_eq hnat
  constructor
  · intro _ j hj hne
    rw [hnat] at hne
    omega
  · intro j hj hne
    rw [hnat] at hne
    omega
  · intro core hcore
    rw [run_mhartid h hcore, hzero]
    rfl
  · intro i j c c' hne hi hj
    have hi := (List.getElem?_eq_some_iff.mp hi).1
    have hj := (List.getElem?_eq_some_iff.mp hj).1
    omega

/-- Two cores have the same number. -/
theorem not_distinct {simCfg : SimConfig} (host : Host) (htwo : 2 ≤ simCfg.numCores) :
    ¬ Follows simCfg.gdbCoreId (init simCfg host) := by
  intro h
  have hcore : ∀ i, i < simCfg.numCores → (init simCfg host).cores[i]? =
      some (.reset (host.storage i) simCfg.resetAddress) := by
    intro i hi
    rw [init, List.getElem?_map, List.getElem?_range hi]
    rfl
  exact h.distinct 0 1 _ _ (by decide) (hcore 0 (by omega)) (hcore 1 (by omega)) rfl

/-- For every configuration: the debug server follows the configured core, in every run, exactly if
    there is no other. -/
theorem follows_configured_iff (simCfg : SimConfig)
    (hk : simCfg.gdbCoreId.toNat < simCfg.numCores) :
    FollowsConfigured simCfg ↔ simCfg.numCores = 1 := by
  constructor
  · intro h
    by_contra hone
    exact not_distinct (.simple 0 [] {}) (by omega) (h _ [] _ (.refl _))
  · exact fun hone host xs s hrun => follows_of_one hrun hk hone

theorem one_core_is_followed : FollowsConfigured { gdbPort := 1234 } :=
  (follows_configured_iff { gdbPort := 1234 } (by decide)).mpr rfl

/-! ### A step request stops every core -/

/-- Two cores at a NOP, and a client that steps core 0 once. -/
def twoCores : RiscvSimulator :=
  let host := Host.simple 0 [0x13, 0, 0, 0] { incoming := [some "$s#73".toList] }
  let s := init { numCores := 2, gdbPort := 1234 } host
  { s with memory := (host.loadTestImage s.memory).2 }

/-- They after the step. -/
def steppedOnce : RiscvSimulator := Effect.final ((stepCore 0).run twoCores)

theorem run_steppedOnce : ∃ xs, Run (init twoCores.simCfg twoCores.host) xs steppedOnce := by
  obtain ⟨s', hstep⟩ : ∃ s', (stepCore 0).run twoCores = .ok .executed s' :=
    Effect.ok_of_result (by decide +kernel)
  have hfinal : steppedOnce = s' := by rw [steppedOnce, hstep, Effect.final_ok]
  obtain ⟨i, i', s₁, hc⟩ := stepCore_executed hstep
  obtain ⟨core, pc, hprepared, -⟩ := hc.prepared
  have hload : SimStep (init twoCores.simCfg twoCores.host) none twoCores := .go _ _ _ _
  rw [hfinal]
  exact ⟨_, (Trace.Run.refl _).tail_silent hload |>.trans
    (.single (.executed hprepared hc.executed hstep))⟩

/-- Core 1 is stopped by the step request that was meant for core 0. -/
theorem step_request_stops_other_core : ¬ ∀ simCfg : SimConfig,
    simCfg.gdbCoreId.toNat < simCfg.numCores → FollowsConfigured simCfg := by
  intro h
  obtain ⟨xs, hrun⟩ := run_steppedOnce
  have hfollows := h twoCores.simCfg (by decide) _ _ _ hrun
  have hlen : 1 < steppedOnce.cores.length := by decide +kernel
  have hstart : (steppedOnce.debugServer.map DebugServer.atStart) = some false := by decide +kernel
  have hstep : (steppedOnce.debugServer.map DebugServer.doStep) = some true := by decide +kernel
  have hafter : ((Effect.final ((stepCore 1).run steppedOnce)).debugServer.map DebugServer.doStep) =
      some false := by decide +kernel
  have hpast : steppedOnce.PastStart := by
    intro d hd
    rw [Option.mem_def.mp hd] at hstart
    exact Option.some.inj hstart
  have hleaves := (hfollows.step hpast 1 hlen (by decide)).final
  rw [hleaves, hstep] at hafter
  exact absurd hafter (by decide)

end Dimebox.RiscvSimulator
