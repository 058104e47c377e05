import Dimebox.DebuggedCore
import Dimebox.Schedule

/-! The instruction budget, round by round.

    A round executes at most one instruction on every ready core, and begins although the budget is
    used up to the last instruction. So the budget of a single core is respected as long as no round
    begins there with the core ready, and a round that does and executes is beyond it. -/

namespace Dimebox.RiscvSimulator

/-! ### What a step counts -/

/-- The number of instructions stays. -/
def SameCount (s s' : RiscvSimulator) : Prop := s'.instrCount = s.instrCount

theorem SameCount.refl (s : RiscvSimulator) : SameCount s s := rfl

theorem SameCount.trans {s s' s'' : RiscvSimulator} (h : SameCount s s') (h' : SameCount s' s'') :
    SameCount s s'' := Eq.trans h' h

theorem sameCount_bind {α β : Type} {x : SimM α} {f : α → SimM β} (hx : Effect.Moves SameCount x)
    (hf : ∀ a, Effect.Moves SameCount (f a)) : Effect.Moves SameCount (x >>= f) :=
  Effect.moves_bind (R := SameCount) .trans hx hf

theorem sameCount_debugChecks (checks : DebugM Bool) (cpu : RiscvState) (pc : U32) :
    Effect.Moves SameCount (debugChecks checks cpu pc) := by
  intro s
  rw [debugChecks, EStateM.run_bind, EStateM.run_get]
  dsimp only
  cases s.debugServer with
  | none => rfl
  | some server =>
    rw [Effect.run_focus, Effect.final_mapState]
    rfl

theorem sameCount_prepare (k : Nat) : Effect.Moves SameCount (prepare k) := by
  refine sameCount_bind (fun _ => rfl) fun call => sameCount_bind (fun _ => rfl) fun s => ?_
  cases s.cores[k]? with
  | none => exact Effect.moves_throw .refl _
  | some core =>
    refine sameCount_bind (Effect.moves_lift .refl _) fun work => ?_
    dsimp only
    split
    · exact Effect.moves_pure .refl _
    · have hfetch : Effect.Moves SameCount (tryFetch work (work.pc.setWidth 32)) := by
        intro s
        rw [tryFetch, onMemory, Effect.run_focus, Effect.final_mapState]
        rfl
      refine sameCount_bind hfetch fun r => ?_
      cases r with
      | none => exact sameCount_bind (fun _ => rfl) fun _ => Effect.moves_pure .refl _
      | some r =>
        refine sameCount_bind (fun _ => rfl) fun _ =>
          sameCount_bind (sameCount_debugChecks _ _ _) fun r => ?_
        split
        · exact Effect.moves_pure .refl _
        · exact Effect.moves_pure .refl _

theorem sameCount_serviceDevices : Effect.Moves SameCount serviceDevices := by
  refine moves_serviceDevices .refl .trans (fun _ => rfl) (fun _ _ => rfl) ?_
  intro e s
  rw [signal, EStateM.run_bind, EStateM.run_get]
  dsimp only
  cases s.cores with
  | nil => rfl
  | cons core cores => rfl

variable {n : Int}

/-- From `n` instructions on, a part of a step that counts none. -/
theorem triple_sameCount {α : Type} {x : SimM α} (hx : Effect.Moves SameCount x) :
    Effect.Triple (·.instrCount = n) x (fun _ s => s.instrCount = n)
      (fun _ s => s.instrCount ≤ n + 1) := by
  refine Effect.triple_keep (fun s hs => Eq.trans (hx s) hs) fun e s hs => ?_
  omega

/-- `StepCore` from `Writeback` on counts one. -/
theorem triple_commit_count (k : Nat) (core : RiscvState) (pc : U32) (i : RiscvInstruction) :
    Effect.Triple (·.instrCount = n) (commit k core pc i) (fun _ s => s.instrCount = n + 1)
      (fun _ s => s.instrCount ≤ n + 1) := by
  have hwriteback : Effect.Moves SameCount (writeback k core i) := by
    intro s
    rw [writeback_run_eq]
    cases (writebackOps i.mOpsMemory).run s.memory <;> rfl
  have hcount : Effect.Triple (·.instrCount = n) countInstr (fun _ s => s.instrCount = n + 1)
      (fun _ s => s.instrCount ≤ n + 1) := by
    intro s hs
    rcases countInstr_cases s with hrun | hrun <;> rw [hrun] <;> dsimp only <;> omega
  have hafter : ∀ {α : Type} {x : SimM α}, Effect.Moves SameCount x → Effect.Triple
      (·.instrCount = n + 1) x (fun _ s => s.instrCount = n + 1) (fun _ s => s.instrCount ≤ n + 1) :=
    fun hx => Effect.triple_keep (fun s hs => Eq.trans (hx s) hs) fun _ _ hs => le_of_eq hs
  refine Effect.triple_bind (triple_sameCount hwriteback) fun core => ?_
  refine Effect.triple_bind (triple_sameCount fun _ => rfl) fun s => ?_
  refine Effect.triple_bind (triple_sameCount fun _ => rfl) fun _ => ?_
  refine Effect.triple_bind hcount fun _ => ?_
  refine Effect.triple_bind (hafter (sameCount_debugChecks _ _ _)) fun r => ?_
  exact hafter fun _ => rfl

/-- A step counts one instruction if it executes it. -/
theorem triple_stepCore_count (k : Nat) :
    Effect.Triple (·.instrCount = n) (stepCore k)
      (fun e s => s.instrCount = if e = .executed then n + 1 else n)
      (fun _ s => s.instrCount ≤ n + 1) := by
  refine Effect.triple_bind (triple_sameCount (sameCount_prepare k)) fun r => ?_
  cases r with
  | error why => exact fun s hs => hs
  | ok r =>
    obtain ⟨core, pc, i⟩ := r
    have hexecute : Effect.Moves SameCount (execute i) := by
      intro s
      obtain ⟨m, hfinal, -⟩ := final_execute i s
      rw [hfinal]
      rfl
    exact Effect.triple_bind (triple_sameCount hexecute) fun i' =>
      Effect.triple_bind (triple_commit_count k core pc i') fun _ s hs => hs

theorem stepCore_count_le (k : Nat) (s : RiscvSimulator) :
    (Effect.final ((stepCore k).run s)).instrCount ≤ s.instrCount + 1 := by
  have hstep := triple_stepCore_count (n := s.instrCount) k s rfl
  cases hrun : (stepCore k).run s with
  | error f s' =>
    rw [hrun] at hstep
    exact hstep
  | ok e s' =>
    rw [hrun] at hstep
    dsimp only at hstep
    rw [Effect.final_ok, hstep]
    split <;> omega

/-! ### What a round counts -/

/-- One for every core, at most. -/
theorem stepCores_count_le (ks : List Nat) (s : RiscvSimulator) :
    (Effect.final ((stepCores ks).run s)).instrCount ≤ s.instrCount + ks.length := by
  induction ks generalizing s with
  | nil => simp [stepCores]
  | cons k ks ih =>
    rw [stepCores, EStateM.run_bind, EStateM.run_get]
    dsimp only
    split
    · rw [EStateM.run_pure, Effect.final_ok]
      omega
    · have hstep := stepCore_count_le k s
      rw [EStateM.run_bind, Effect.run_tryCatch, ← bind_pure_comp, EStateM.run_bind]
      rw [List.length_cons]
      cases hrun : (stepCore k).run s with
      | error f s₁ =>
        rw [hrun, Effect.final_error] at hstep
        cases f with
        | runtimeError what =>
          change s₁.instrCount ≤ _
          omega
        | sim | mblock | outOfRange | undefined =>
          change s₁.instrCount ≤ _
          omega
      | ok e s₁ =>
        rw [hrun, Effect.final_ok] at hstep
        have hrest := ih s₁
        change (Effect.final ((do return (k, e) :: (← stepCores ks) : SimM (List Event)).run
          s₁)).instrCount ≤ _
        rw [EStateM.run_bind]
        cases hlater : (stepCores ks).run s₁ with
        | error f s₂ =>
          rw [hlater, Effect.final_error] at hrest
          rw [Effect.final_error]
          omega
        | ok later s₂ =>
          rw [hlater, Effect.final_ok] at hrest
          change s₂.instrCount ≤ _
          omega

/-- What follows the steps of a round. -/
theorem after_count_le (events : List Event) {s : RiscvSimulator} {m : Int} (h : s.instrCount ≤ m) :
    (Effect.final ((do
      advanceClock
      serviceDevices
      return (events, ← getReadyCpus) : SimM (List Event × List Nat)).run s)).instrCount ≤ m := by
  have hafter : Effect.Moves SameCount (do
      advanceClock
      serviceDevices
      return (events, ← getReadyCpus) : SimM (List Event × List Nat)) :=
    sameCount_bind (fun _ => rfl) fun _ => sameCount_bind sameCount_serviceDevices fun _ =>
      sameCount_bind (fun _ => rfl) fun _ => Effect.moves_pure .refl _
  exact le_of_eq_of_le (hafter s) h

theorem turn_count_le (ready : List Nat) (s : RiscvSimulator) :
    (Effect.final ((turn ready).run s)).instrCount ≤ s.instrCount + ready.length := by
  rw [turn]
  split
  · have hsteps := stepCores_count_le ready s
    rw [EStateM.run_bind]
    cases hrun : (stepCores ready).run s with
    | error f s₁ =>
      rw [hrun] at hsteps
      exact hsteps
    | ok events s₁ =>
      rw [hrun] at hsteps
      exact after_count_le events hsteps
  · exact after_count_le [] (by omega)

/-! ### The rounds of a run -/

theorem goesOn_of_rounds (t : Nat) {s : RiscvSimulator} {ready : List Nat} :
    ∀ round ∈ rounds t ready s, round.1.goesOn round.2 := by
  induction t generalizing s ready with
  | zero => simp [rounds]
  | succ t ih =>
    intro round hround
    rw [rounds] at hround
    split at hround
    · next hgo =>
      split at hround
      · rcases List.mem_cons.mp hround with rfl | hlater
        · exact hgo
        · exact ih round hlater
      · rw [List.mem_singleton] at hround
        rw [hround]
        exact hgo
    · cases hround

/-- A round begins in a state of the run, with the budget of the start. -/
theorem run_of_rounds (t : Nat) {s₀ s : RiscvSimulator} {ready : List Nat}
    (h : ∃ xs, Run s₀ xs s) : ∀ round ∈ rounds t ready s,
      (∃ xs, Run s₀ xs round.1) ∧ round.1.simCfg.maxInstrs = s.simCfg.maxInstrs := by
  induction t generalizing s ready with
  | zero => simp [rounds]
  | succ t ih =>
    intro round hround
    rw [rounds] at hround
    split at hround
    · split at hround
      · next events ready' s' hturn =>
        rcases List.mem_cons.mp hround with rfl | hlater
        · exact ⟨h, rfl⟩
        · obtain ⟨xs, hxs⟩ := h
          obtain ⟨ys, hys⟩ := turn_runs hturn
          obtain ⟨hrun, hmax⟩ := ih ⟨xs ++ ys, hxs.trans hys⟩ round hlater
          exact ⟨hrun, hmax.trans (turn_maxInstrs hturn)⟩
      · rw [List.mem_singleton] at hround
        rw [hround]
        exact ⟨h, rfl⟩
    · cases hround

/-- The budget suffices for a loop if it does for each of its rounds. -/
theorem loop_count_le (t : Nat) {s : RiscvSimulator} {ready : List Nat} {m : Int}
    (hs : s.instrCount ≤ m)
    (h : ∀ round ∈ rounds t ready s, round.1.instrCount + round.2.length ≤ m) :
    (Effect.final ((loop t ready).run s)).instrCount ≤ m := by
  induction t generalizing s ready with
  | zero => exact hs
  | succ t ih =>
    by_cases hgo : s.goesOn ready
    · have hturn := turn_count_le ready s
      cases hrun : (turn ready).run s with
      | error f s₁ =>
        have hround := h (s, ready) (by rw [rounds, if_pos hgo, hrun]; exact List.mem_singleton_self _)
        rw [hrun] at hturn
        rw [loop_of_goesOn hgo, EStateM.run_bind, hrun]
        exact hturn.trans hround
      | ok r s₁ =>
        obtain ⟨events, ready'⟩ := r
        rw [hrun, Effect.final_ok] at hturn
        rw [rounds_cons hgo hrun] at h
        have hround := h (s, ready) List.mem_cons_self
        have hrest := ih (hturn.trans hround) fun round hmem => h round (List.mem_cons_of_mem _ hmem)
        rw [loop_cons hgo hrun]
        cases hloop : (loop t ready').run s₁ with
        | error f s₂ =>
          rw [hloop] at hrest
          exact hrest
        | ok r s₂ =>
          rw [hloop] at hrest
          exact hrest
    · rw [loop_of_done hgo]
      exact hs

/-- A round that begins within the budget and ends beyond it is the last one. -/
theorem loop_overrun (t : Nat) {s s' : RiscvSimulator} {ready ready' : List Nat}
    {round : RiscvSimulator × List Nat} {events : List Event} (h : round ∈ rounds t ready s)
    (hturn : (turn round.2).run round.1 = .ok (events, ready') s')
    (hover : s'.instructionCountExceeded) :
    ∃ events', (loop t ready).run s = .ok (true, events') s' := by
  induction t generalizing s ready with
  | zero => cases h
  | succ t ih =>
    rw [rounds] at h
    split at h
    · next hgo =>
      split at h
      · next first ready₁ s₁ hfirst =>
        rw [loop_cons hgo hfirst]
        rcases List.mem_cons.mp h with rfl | hlater
        · cases hfirst.symm.trans hturn
          have hdone : ¬ s'.goesOn ready' := by simp [goesOn, hover]
          rw [loop_of_done hdone]
          exact ⟨_, rfl⟩
        · obtain ⟨events', hloop⟩ := ih hlater
          rw [hloop]
          exact ⟨_, rfl⟩
      · next f s₁ hfirst =>
        rw [List.mem_singleton] at h
        cases h
        cases hfirst.symm.trans hturn
    · cases h

/-! ### A single core -/

/-- The rounds of `Go`: the simulator and the ready cores at the beginning of each. -/
def roundsOfGo (t : Nat) (s : RiscvSimulator) : List (RiscvSimulator × List Nat) :=
  match startGo.run s with
  | .ok (.ok ready) s₁ => rounds t ready s₁
  | _ => []

/-- A single core is ready or not. -/
theorem ready_of_one {s : RiscvSimulator} {ready : List Nat} (hone : s.cores.length ≤ 1)
    (h : s.ReadyList ready) : ready = [] ∨ ready = [0] := by
  have hzero : ∀ k ∈ ready, k = 0 := by
    intro k hk
    obtain ⟨core, hcore, -⟩ := (h.mem_iff k).mp hk
    have hlt := (List.getElem?_eq_some_iff.mp hcore).1
    omega
  cases ready with
  | nil => exact .inl rfl
  | cons k ks =>
    obtain rfl := hzero k List.mem_cons_self
    cases ks with
    | nil => exact .inr rfl
    | cons j js =>
      obtain rfl := hzero j (List.mem_cons_of_mem _ List.mem_cons_self)
      exact absurd h.nodup (by simp)

/-- The step of a round of a single core that returned. -/
theorem turn_one {s s' : RiscvSimulator} {ready : List Nat} {events : List Event}
    (h : (turn [0]).run s = .ok (events, ready) s') (hexecuted : (0, .executed) ∈ events) :
    s'.instrCount = s.instrCount + 1 := by
  obtain ⟨s₁, s₂, hsteps, hserve, hget⟩ := turn_ok h
  have hsame := sameCount_serviceDevices { s₁ with clock := s₁.clock + 1 }
  rw [hserve] at hsame
  obtain ⟨rfl, -, -⟩ := getReadyCpus_ok hget
  have hcount : s₁.instrCount = s.instrCount + 1 := by
    rcases stepCores_cons hsteps with ⟨-, rfl, -⟩ | ⟨what, s₃, -, rfl, -⟩ |
      ⟨e, later, s₃, hstep, hlater, rfl⟩
    · cases hexecuted
    · cases hexecuted
    · cases hlater
      have he : (0, StepEvent.executed) = (0, e) := List.mem_singleton.mp hexecuted
      obtain rfl : .executed = e := congrArg Prod.snd he
      exact (triple_stepCore_count 0).ok rfl hstep
  exact Eq.trans hsame hcount

/-- On a single core, a run of `Go` in which no round begins with the budget used up and the core
    ready stays within the budget, whether it returns, throws or is still going on. A round that
    does begin so takes it beyond the budget as soon as its step executes. -/
theorem budget_respected_by_rounds (simCfg : SimConfig) (host : Host) (hone : simCfg.numCores = 1)
    (hlimited : 0 ≤ simCfg.maxInstrs) (t : Nat) :
    ((∀ round ∈ roundsOfGo t (init simCfg host),
        ¬ (round.1.instrCount = simCfg.maxInstrs ∧ round.2 ≠ [])) →
      (Effect.final ((go t).run (init simCfg host))).instrCount ≤ simCfg.maxInstrs) ∧
    ∀ round ∈ roundsOfGo t (init simCfg host),
      round.1.instrCount = simCfg.maxInstrs ∧ round.2 ≠ [] →
      ∀ events ready s', (turn round.2).run round.1 = .ok (events, ready) s' →
        (0, .executed) ∈ events → ∃ rcode events' s, (go t).run (init simCfg host)
          = .ok (some rcode, events') s ∧ s.instrCount = simCfg.maxInstrs + 1 := by
  rcases startGo_cases (init simCfg host) with ⟨rcode, s₁, hstart, hcount⟩ |
    ⟨ready, s₁, hstart, hcount, hcfg⟩
  · have hnone : roundsOfGo t (init simCfg host) = [] := by rw [roundsOfGo, hstart]
    rw [hnone]
    refine ⟨fun _ => ?_, fun round hround => by cases hround⟩
    rw [go, EStateM.run_bind, hstart]
    exact le_of_eq_of_le hcount hlimited
  · have hrounds : roundsOfGo t (init simCfg host) = rounds t ready s₁ := by rw [roundsOfGo, hstart]
    have hmax : s₁.simCfg.maxInstrs = simCfg.maxInstrs := by
      rw [hcfg]
      rfl
    rw [hrounds]
    have hbegins : ∀ round ∈ rounds t ready s₁, (round.2 = [] ∨ round.2 = [0]) ∧
        round.1.simCfg.maxInstrs = simCfg.maxInstrs ∧ round.1.instrCount ≤ simCfg.maxInstrs := by
      intro round hround
      obtain ⟨⟨xs, hrun⟩, hcfg'⟩ := run_of_rounds t (startGo_runs hstart) round hround
      have hlength := run_core_lt hrun
      have hlist := readyList_of_rounds t (readyList_of_startGo hstart) round hround
      have hsame : round.1.simCfg.maxInstrs = simCfg.maxInstrs := hcfg'.trans hmax
      refine ⟨ready_of_one (by omega) hlist, hsame, ?_⟩
      have hle := count_le_of_goesOn (by omega) (goesOn_of_rounds t round hround)
      omega
    constructor
    · intro hfree
      have hle : ∀ round ∈ rounds t ready s₁, round.1.instrCount + round.2.length
          ≤ simCfg.maxInstrs := by
        intro round hround
        obtain ⟨hready | hready, -, hcount'⟩ := hbegins round hround
        · rw [hready, List.length_nil]
          omega
        · have hroom := hfree round hround
          rw [hready] at hroom ⊢
          simp only [ne_eq, List.cons_ne_nil, not_false_eq_true, and_true] at hroom
          rw [List.length_singleton]
          omega
      have hloop := loop_count_le t (by omega) hle
      rw [go, EStateM.run_bind, hstart]
      dsimp only
      rw [EStateM.run_bind]
      cases hrun : (loop t ready).run s₁ with
      | error f s₂ =>
        rw [hrun] at hloop
        exact hloop
      | ok r s₂ =>
        rw [hrun] at hloop
        obtain ⟨left, events⟩ := r
        cases left with
        | false => exact hloop
        | true => exact hloop
    · rintro round hround ⟨hused, hne⟩ events ready' s' hturn hexecuted
      obtain ⟨hready, hsame, -⟩ := hbegins round hround
      have hready : round.2 = [0] := hready.resolve_left hne
      rw [hready] at hturn
      have hcount' := turn_one hturn hexecuted
      have hmax' := turn_maxInstrs hturn
      have hover : s'.instructionCountExceeded := (exceeded_iff (by omega)).mpr (by omega)
      rw [← hready] at hturn
      obtain ⟨events', hloop⟩ := loop_overrun t hround hturn hover
      obtain ⟨rcode, hgo⟩ := go_of_loop hstart hloop
      refine ⟨rcode, events', _, hgo, ?_⟩
      dsimp only
      omega

/-- A jump to itself, which ends the test, and a budget of one instruction: there is one round. -/
theorem jump_to_self_respects_budget :
    let start := init { resetAddress := 0x80000000, maxInstrs := 1 }
      (.simple 0x80000000 [0x6f, 0, 0, 0] {})
    (roundsOfGo 2 start).map (fun round => (round.1.instrCount, round.2)) = [(0, [0])] ∧
      (Effect.final ((go 2).run start)).instrCount ≤ 1 := by
  intro start
  have hrounds : (roundsOfGo 2 start).map (fun round => (round.1.instrCount, round.2))
      = [(0, [0])] := by decide +kernel
  obtain ⟨hkeeps, -⟩ := budget_respected_by_rounds { resetAddress := 0x80000000, maxInstrs := 1 }
    (.simple 0x80000000 [0x6f, 0, 0, 0] {}) rfl (by decide) 2
  refine ⟨hrounds, hkeeps fun round hround hused => ?_⟩
  have hmem := List.mem_map_of_mem (f := fun round => (round.1.instrCount, round.2)) hround
  rw [hrounds, List.mem_singleton] at hmem
  have hzero : round.1.instrCount = 0 := congrArg Prod.fst hmem
  have hone : round.1.instrCount = 1 := hused.1
  omega

/-- The same program and a budget of no instruction: one is executed. -/
theorem jump_to_self_overruns_budget :
    ¬ ∀ (simCfg : SimConfig) (host : Host), simCfg.numCores = 1 → 0 ≤ simCfg.maxInstrs →
      ∀ turns rcode events s, (go turns).run (init simCfg host) = .ok (some rcode, events) s →
        s.instrCount ≤ simCfg.maxInstrs := by
  intro hall
  let simCfg : SimConfig := { resetAddress := 0x80000000, maxInstrs := 0 }
  let host : Host := .simple 0x80000000 [0x6f, 0, 0, 0] {}
  have hview : ((Effect.result ((go 1).run (init simCfg host))).bind Prod.fst).isSome ∧
      (Effect.final ((go 1).run (init simCfg host))).instrCount = 1 := by
    decide +kernel
  cases hgo : (go 1).run (init simCfg host) with
  | error f s => rw [hgo] at hview; cases hview.1
  | ok r s =>
    obtain ⟨rcode, events⟩ := r
    rw [hgo] at hview
    cases rcode with
    | none => cases hview.1
    | some rcode =>
      have hle := hall simCfg host rfl (by decide) 1 rcode events s hgo
      have hcount : s.instrCount = 1 := hview.2
      rw [hcount] at hle
      exact absurd hle (by decide)

end Dimebox.RiscvSimulator
