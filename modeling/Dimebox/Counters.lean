import Dimebox.PcAlignment

/-! The counters of a core.

    `IncrementInstrCount`, `AdvanceTimer` and the `AdvanceClock` of a core exist and are called by
    nobody: the simulator counts instructions and clock cycles of its own. The members of `State`
    that only they change are copied and committed at every step and stay as the constructor left
    them, so that a core reads zero from its counters however much it has executed. -/

namespace Dimebox

namespace RiscvState

/-- The counters of a core, and its number. -/
structure SameCounters (s t : RiscvState) : Prop where
  id : t.id = s.id
  clock : t.clock = s.clock
  instrCount : t.instrCount = s.instrCount
  timer : t.timer = s.timer

theorem SameCounters.refl (s : RiscvState) : SameCounters s s := ⟨rfl, rfl, rfl, rfl⟩

theorem SameCounters.trans {s t u : RiscvState} (h : SameCounters s t) (h' : SameCounters t u) :
    SameCounters s u :=
  ⟨h'.id.trans h.id, h'.clock.trans h.clock, h'.instrCount.trans h.instrCount,
    h'.timer.trans h.timer⟩

theorem sameCounters_update (s t : RiscvState) : SameCounters t (s.update t) := by
  rw [update_eq]
  exact ⟨rfl, rfl, rfl, rfl⟩

theorem sameCounters_processException {s s' : RiscvState} {e : SimExceptions} {opcode : U32}
    (h : s.processException e opcode = .ok s') : SameCounters s s' := by
  by_cases he : e.isSync
  · obtain ⟨mtval, hs, -⟩ := s.processException_isSync he opcode
    rw [← Except.ok.inj (hs.symm.trans h)]
    exact ⟨rfl, rfl, rfl, rfl⟩
  · cases e <;> first | exact absurd rfl he | skip
    case processMret =>
      rw [mret_eq] at h
      rw [← Except.ok.inj h]
      exact ⟨rfl, rfl, rfl, rfl⟩
    case processWfi =>
      rw [wfi_eq] at h
      rw [← Except.ok.inj h]
      exact ⟨rfl, rfl, rfl, rfl⟩
    case machineTimerInt | machineExternalInt =>
      rw [← Except.ok.inj h, takeInterrupt_eq]
      exact ⟨rfl, rfl, rfl, rfl⟩
    all_goals cases h

theorem sameCounters_signal (s : RiscvState) (e : SimExceptions) : SameCounters s (s.signal e) := by
  cases e <;> exact ⟨rfl, rfl, rfl, rfl⟩

/-- The counters as the constructor leaves them. -/
def Uncounted (s : RiscvState) : Prop := s.id = 0 ∧ s.clock = 0 ∧ s.instrCount = 0 ∧ s.timer = 0

theorem Uncounted.of_same {s t : RiscvState} (h : s.Uncounted) (hst : SameCounters s t) :
    t.Uncounted :=
  ⟨hst.id.trans h.1, hst.clock.trans h.2.1, hst.instrCount.trans h.2.2.1, hst.timer.trans h.2.2.2⟩

end RiscvState

open RiscvState (SameCounters)

namespace Step

variable {i i' : RiscvInstruction}

/-- No body counts. -/
theorem step_sameCounters (c : Iclass) (i : RiscvInstruction) :
    SameCounters i.state (Effect.final ((step c).run i)).state := by
  refine step_moves (R := fun i i' => SameCounters i.state i'.state) (fun i => .refl i.state)
    (fun h h' => h.trans h') ?_ c i
  intro i i' hm
  cases hm with
  | setGp hs =>
    rw [RiscvState.setGp_ok hs]
    exact ⟨rfl, rfl, rfl, rfl⟩
  | write | jump | read | mbuf | queue => exact ⟨rfl, rfl, rfl, rfl⟩

theorem execute_sameCounters (h : execute.run i = .ok () i') : SameCounters i.state i'.state := by
  rcases execute_ok h with ⟨i₁, hrun, rfl⟩ | ⟨e, i₁, s, hrun, hs, rfl⟩
  · have hstep := step_sameCounters i.decode.iclass i.decode
    rw [hrun, i.decode_state] at hstep
    exact hstep.trans ⟨rfl, rfl, rfl, rfl⟩
  · have hstep := step_sameCounters i.decode.iclass i.decode
    rw [hrun, i.decode_state] at hstep
    exact hstep.trans (RiscvState.sameCounters_processException hs)

end Step

/-! ### Runs -/

namespace RiscvSimulator

theorem Prepared.sameCounters {core : RiscvState} {pc : U32} {i : RiscvInstruction}
    (h : Prepared core pc i) : SameCounters core i.state := by
  obtain ⟨storage, work, hserviced, hfetched⟩ := h.fetchedOn
  have hcopy : SameCounters core (RiscvState.copy storage core) :=
    RiscvState.sameCounters_update storage core
  have hwork : SameCounters (RiscvState.copy storage core) work := by
    unfold serviceInterrupt at hserviced
    split at hserviced
    · exact RiscvState.sameCounters_processException hserviced
    · rw [← Except.ok.inj hserviced]
      exact .refl _
  refine (hcopy.trans hwork).trans ?_
  rw [hfetched.state]
  exact ⟨rfl, rfl, rfl, rfl⟩

theorem Commits.sameCounters {x : Execution} {core core' : RiscvState} (h : Commits x core core') :
    SameCounters core core' := by
  obtain ⟨b, rfl⟩ := h.committed
  have hafter := h.prepared.sameCounters.trans (Step.execute_sameCounters h.run)
  refine (hafter.trans (RiscvState.sameCounters_update core x.after.state)).trans ?_
  generalize core.update x.after.state = t
  exact ⟨rfl, rfl, rfl, rfl⟩

/-- No core ever counts, and every core has the number zero. -/
theorem run_uncounted {simCfg : SimConfig} {host : Host} {xs : List Execution} {s : RiscvSimulator}
    (h : Run (init simCfg host) xs s) : ∀ core ∈ s.cores, core.Uncounted := by
  have hany : ∀ x ∈ xs, True := fun _ _ => trivial
  refine h.cores_invariant (P := RiscvState.Uncounted) ?_ ?_ ?_ hany
  · exact fun e hcore => hcore.of_same (RiscvState.sameCounters_signal _ e)
  · exact fun hx _ hcore => hcore.of_same hx.sameCounters
  · intro core hcore
    obtain ⟨k, -, rfl⟩ := List.mem_map.mp hcore
    exact ⟨rfl, rfl, rfl, rfl⟩

theorem executed_uncounted {simCfg : SimConfig} {host : Host} {xs₁ xs₂ : List Execution}
    {x : Execution} {s : RiscvSimulator} (h : Run (init simCfg host) (xs₁ ++ x :: xs₂) s) :
    x.before.state.Uncounted := by
  obtain ⟨s₁, s₂, hpre, hstep, -⟩ := h.split
  obtain ⟨core, core', hcore, -, hcommits⟩ := hstep.commits
  exact (run_uncounted hpre core (List.mem_of_getElem? hcore)).of_same
    hcommits.prepared.sameCounters

/-- The number of instructions core `k` has retired. -/
def retired (k : Nat) (xs : List Execution) : Nat := xs.countP fun x => x.k = k

/-- The 64-bit cycle count, as an instruction reads it in two halves. -/
def readCycle (s : RiscvState) : Except Fault Nat := do
  let high ← s.csr 0xc80 3
  let low ← s.csr 0xc00 3
  return high.toNat * 2 ^ 32 + low.toNat

/-- The counters of a state that never counted. -/
theorem uncounted_reads {s : RiscvState} (h : s.Uncounted) :
    s.csr 0xc82 3 = .ok 0 ∧ s.csr 0xc02 3 = .ok 0 ∧ readCycle s = .ok 0 := by
  obtain ⟨-, hclock, hinstr, -⟩ := h
  have hcsr : ∀ n, RiscvState.validateCsrAccess n 3 false = .ok () →
      RiscvState.csrReg n = none → s.csrCounter n = some 0 → s.csr n 3 = .ok 0 := by
    intro n hvalid hreg hcounter
    rw [RiscvState.csr, hvalid, hreg, hcounter]
    rfl
  have hhigh := hcsr 0xc80 rfl rfl (by simp [RiscvState.csrCounter, hclock])
  have hlow := hcsr 0xc00 rfl rfl (by simp [RiscvState.csrCounter, hclock])
  refine ⟨hcsr 0xc82 rfl rfl (by simp [RiscvState.csrCounter, hinstr]),
    hcsr 0xc02 rfl rfl (by simp [RiscvState.csrCounter, hinstr]), ?_⟩
  rw [readCycle, hhigh, hlow]
  rfl

/-- In every run from reset the instruction counter reads right, in both halves, exactly while no
    instruction of the core has retired, or a multiple of 2^64. The cycle counter never goes
    back. -/
theorem instret_counts_iff (simCfg : SimConfig) (host : Host) (xs : List Execution)
    (s : RiscvSimulator) (hrun : Run (init simCfg host) xs s) :
    (∀ xs₁ x xs₂, xs = xs₁ ++ x :: xs₂ →
      (x.before.state.csr 0xc82 3 = .ok (BitVec.ofNat 64 (retired x.k xs₁ / 2 ^ 32 % 2 ^ 32)) ∧
        x.before.state.csr 0xc02 3 = .ok (BitVec.ofNat 64 (retired x.k xs₁ % 2 ^ 32)) ↔
        2 ^ 64 ∣ retired x.k xs₁)) ∧
      ∀ xs₁ x xs₂ y xs₃, xs = xs₁ ++ x :: (xs₂ ++ y :: xs₃) →
        ∃ c c', readCycle x.before.state = .ok c ∧ readCycle y.before.state = .ok c' ∧ c ≤ c' := by
  constructor
  · rintro xs₁ x xs₂ rfl
    obtain ⟨hhigh, hlow, -⟩ := uncounted_reads (executed_uncounted hrun)
    generalize retired x.k xs₁ = n
    have hzero : ∀ m, m < 2 ^ 64 →
        ((.ok 0 : Except Fault U64) = .ok (BitVec.ofNat 64 m) ↔ m = 0) := by
      intro m hm
      refine ⟨fun h => ?_, fun h => by rw [h]; rfl⟩
      have hnat := congrArg BitVec.toNat (Except.ok.inj h)
      rw [BitVec.toNat_ofNat, Nat.mod_eq_of_lt hm] at hnat
      exact hnat.symm
    rw [hhigh, hlow, hzero _ (by omega), hzero _ (by omega)]
    omega
  · rintro xs₁ x xs₂ y xs₃ rfl
    obtain ⟨-, -, hx⟩ := uncounted_reads (executed_uncounted hrun)
    rw [← List.cons_append, ← List.append_assoc] at hrun
    obtain ⟨-, -, hy⟩ := uncounted_reads (executed_uncounted hrun)
    exact ⟨0, 0, hx, hy, le_refl 0⟩

/-- `csrr x1,instret` out of reset. -/
theorem first_instret_counts :
    let start := init { resetAddress := 0x80000000 }
      (.simple 0x80000000 [0xf3, 0x20, 0x20, 0xc0] {})
    ∃ x s, Run start [x] s ∧ x.before.iclass = .csrrs ∧
      x.before.state.csr 0xc82 3 = .ok (BitVec.ofNat 64 (retired x.k [] / 2 ^ 32 % 2 ^ 32)) ∧
      x.before.state.csr 0xc02 3 = .ok (BitVec.ofNat 64 (retired x.k [] % 2 ^ 32)) := by
  intro start
  have hview : (execution 0 start.loaded).map (fun r => r.1.before.iclass) = some .csrrs := by
    decide +kernel
  cases hx : execution 0 start.loaded with
  | none => rw [hx] at hview; cases hview
  | some r =>
    obtain ⟨x, s⟩ := r
    rw [hx] at hview
    have hrun : Run start [x] s := (Run.loaded start).tail (.of_execution hx)
    have hreads := ((instret_counts_iff _ _ [x] s hrun).1 [] x [] rfl).mpr (Nat.dvd_zero _)
    exact ⟨x, s, hrun, Option.some.inj hview, hreads⟩

/-- A NOP and `csrr x1,instret` out of reset: one instruction has retired and zero is read. -/
theorem instret_does_not_count :
    ¬ ∀ (simCfg : SimConfig) (host : Host) (xs₁ : List Execution) (x : Execution)
        (s : RiscvSimulator), simCfg.numCores = 1 → Run (init simCfg host) (xs₁ ++ [x]) s →
      x.before.iclass.isCsr →
        x.before.state.csr 0xc02 3 = .ok (BitVec.ofNat 64 (xs₁.length % 2 ^ 32)) := by
  intro hall
  let start := init { resetAddress := 0x80000000 }
    (.simple 0x80000000 [0x13, 0, 0, 0, 0xf3, 0x20, 0x20, 0xc0] {})
  have hview : (execution 0 start.loaded).bind (fun r =>
      (execution 0 r.2).map fun r' => r'.1.before.iclass.isCsr) = some true := by
    decide +kernel
  cases hx : execution 0 start.loaded with
  | none => rw [hx] at hview; cases hview
  | some r =>
    obtain ⟨x, s₁⟩ := r
    rw [hx] at hview
    change (execution 0 s₁).map (fun r' => r'.1.before.iclass.isCsr) = some true at hview
    cases hy : execution 0 s₁ with
    | none => rw [hy] at hview; cases hview
    | some r' =>
      obtain ⟨y, s₂⟩ := r'
      rw [hy] at hview
      have hrun : Run start ([x] ++ [y]) s₂ :=
        ((Run.loaded start).tail (.of_execution hx)).tail (.of_execution hy)
      have hread := hall _ _ [x] y s₂ rfl hrun (Option.some.inj hview)
      rw [(uncounted_reads (executed_uncounted hrun)).2.1] at hread
      have hone : BitVec.ofNat 64 ([x].length % 2 ^ 32) = (1 : U64) := rfl
      rw [hone] at hread
      exact absurd (Except.ok.inj hread) (by decide)

end RiscvSimulator

end Dimebox
