import Dimebox.Runs

/-! The instruction budget.

    `InstructionCountExceeded` compares with `>` and is asked before a turn of the loop, so that the
    loop goes on when the budget is used up to the last instruction. No step looks at the budget or
    changes it. -/

namespace Dimebox.RiscvSimulator

open Effect (Commutes commutes_bind commutes_get_bind commutes_pure commutes_throw commutes_focus)

/-- The same simulation with another budget. -/
def withMaxInstrs (n : Int) (s : RiscvSimulator) : RiscvSimulator :=
  { s with simCfg := { s.simCfg with maxInstrs := n } }

/-! ### No step looks at the budget -/

section Commutes

variable (n : Int)

theorem commutes_debugChecks (checks : DebugM Bool) (cpu : RiscvState) (pc : U32) :
    Commutes (withMaxInstrs n) (debugChecks checks cpu pc) := by
  refine commutes_get_bind (fun _ => rfl) fun s => ?_
  cases s.debugServer with
  | none => exact commutes_pure _
  | some server => exact commutes_focus (by intro s; rfl) (by intro t s; rfl) _

theorem commutes_prepare (k : Nat) : Commutes (withMaxInstrs n) (prepare k) := by
  refine commutes_bind (fun _ => rfl) fun call => commutes_get_bind (fun _ => rfl) fun s => ?_
  cases s.cores[k]? with
  | none => exact commutes_throw _
  | some core =>
    refine commutes_bind (Effect.commutes_lift _) fun work => ?_
    dsimp only
    split
    · exact commutes_pure _
    · have hfetch : Commutes (withMaxInstrs n) (tryFetch work (work.pc.setWidth 32)) :=
        commutes_focus (by intro s; rfl) (by intro t s; rfl) _
      refine commutes_bind hfetch fun r => ?_
      cases r with
      | none => exact commutes_bind (fun _ => rfl) fun _ => commutes_pure _
      | some r =>
        refine commutes_get_bind (fun _ => rfl) fun _ =>
          commutes_bind (commutes_debugChecks n _ _ _) fun r => ?_
        split
        · exact commutes_pure _
        · exact commutes_pure _

theorem commutes_countInstr : Commutes (withMaxInstrs n) countInstr := by
  intro s
  rw [countInstr, EStateM.run_bind, EStateM.run_bind, EStateM.run_get, EStateM.run_get]
  dsimp only [withMaxInstrs]
  split
  · rfl
  · rfl

theorem commutes_commit (k : Nat) (core : RiscvState) (pc : U32) (i : RiscvInstruction) :
    Commutes (withMaxInstrs n) (commit k core pc i) := by
  have hwriteback : Commutes (withMaxInstrs n) (writeback k core i) :=
    commutes_focus (by intro s; rfl) (by intro t s; rfl) _
  exact commutes_bind hwriteback fun core => commutes_get_bind (fun _ => rfl) fun _ =>
    commutes_bind (fun _ => rfl) fun _ => commutes_bind (commutes_countInstr n) fun _ =>
    commutes_bind (commutes_debugChecks n _ _ _) fun _ => fun _ => rfl

theorem commutes_stepCore (k : Nat) : Commutes (withMaxInstrs n) (stepCore k) := by
  refine commutes_bind (commutes_prepare n k) fun r => ?_
  cases r with
  | error why => exact commutes_pure _
  | ok r =>
    obtain ⟨core, pc, i⟩ := r
    have hexecute : Commutes (withMaxInstrs n) (execute i) :=
      commutes_focus (by intro s; rfl) (by intro t s; rfl) _
    exact commutes_bind hexecute fun i' => commutes_bind (commutes_commit n k core pc i') fun _ =>
      commutes_pure _

theorem commutes_stepCores (ks : List Nat) : Commutes (withMaxInstrs n) (stepCores ks) := by
  induction ks with
  | nil => exact commutes_pure _
  | cons k ks ih =>
    refine commutes_get_bind (fun _ => rfl) fun s => ?_
    split
    · exact commutes_pure _
    · refine commutes_bind (Effect.commutes_tryCatch ?_ fun f => ?_) fun r => ?_
      · rw [← bind_pure_comp]
        exact commutes_bind (commutes_stepCore n k) fun _ => commutes_pure _
      · split
        · exact commutes_bind (fun _ => rfl) fun _ => commutes_pure _
        · exact commutes_throw _
      · cases r with
        | none => exact commutes_pure _
        | some e => exact commutes_bind ih fun _ => commutes_pure _

theorem commutes_signal (e : SimExceptions) : Commutes (withMaxInstrs n) (signal e) := by
  intro s
  obtain ⟨simCfg, host, clock, cores, memory, instrCount, rcode, debugServer, calls⟩ := s
  cases cores with
  | nil => rfl
  | cons core cores => rfl

theorem commutes_serviceDevices : Commutes (withMaxInstrs n) serviceDevices := by
  have hmodify : ∀ f, Commutes (withMaxInstrs n) (modifyDevices f) := fun _ _ => rfl
  have huart : Commutes (withMaxInstrs n) (do
      if (← get).memory.deviceObjects.uart1.isImplemented then
        let call ← nextCall
        let stdin := (← get).host.stdin call
        modifyDevices fun d => { d with uart1 := d.uart1.advanceClock.serviceIos stdin }
        if (← get).memory.deviceObjects.uart1.interruptPending then signal .machineExternalInt) := by
    refine commutes_get_bind (fun _ => rfl) fun s => ?_
    split
    · refine commutes_bind (fun _ => rfl) fun _ => commutes_get_bind (fun _ => rfl) fun _ =>
        commutes_bind (hmodify _) fun _ => commutes_get_bind (fun _ => rfl) fun _ => ?_
      split
      · exact commutes_signal n _
      · exact commutes_pure _
    · exact commutes_pure _
  refine commutes_get_bind (fun _ => rfl) fun s => ?_
  split
  · refine commutes_bind (hmodify _) fun _ => commutes_get_bind (fun _ => rfl) fun _ => ?_
    split
    · exact commutes_bind (commutes_signal n _) fun _ => huart
    · exact huart
  · exact huart

theorem commutes_turn (ready : List Nat) : Commutes (withMaxInstrs n) (turn ready) := by
  have hready : Commutes (withMaxInstrs n) getReadyCpus := fun _ => rfl
  have hafter : ∀ events, Commutes (withMaxInstrs n) (do
      advanceClock
      serviceDevices
      return (events, ← getReadyCpus) : SimM (List Event × List Nat)) := fun events =>
    commutes_bind (fun _ => rfl) fun _ => commutes_bind (commutes_serviceDevices n) fun _ =>
    commutes_bind hready fun _ => commutes_pure _
  rw [turn]
  split
  · exact commutes_bind (commutes_stepCores n ready) hafter
  · exact commutes_bind (commutes_pure _) hafter

end Commutes

/-! ### The loop -/

theorem exceeded_iff {s : RiscvSimulator} (h : 0 ≤ s.simCfg.maxInstrs) :
    s.instructionCountExceeded ↔ s.simCfg.maxInstrs < s.instrCount := by
  rw [instructionCountExceeded, if_neg (by omega)]
  exact decide_eq_true_iff

theorem count_le_of_goesOn {s : RiscvSimulator} {ready : List Nat} (h : 0 ≤ s.simCfg.maxInstrs)
    (hgo : s.goesOn ready) : s.instrCount ≤ s.simCfg.maxInstrs := by
  rw [← not_lt, ← exceeded_iff h]
  intro hexceeded
  rw [goesOn, hexceeded] at hgo
  simp at hgo

theorem loop_of_goesOn {s : RiscvSimulator} {ready : List Nat} (h : s.goesOn ready) (t : Nat) :
    (loop (t + 1) ready).run s = (do
      let (events, ready) ← turn ready
      let (left, later) ← loop t ready
      return (left, events ++ later) : SimM (Bool × List Event)).run s := by
  rw [loop, EStateM.run_bind, EStateM.run_get]
  dsimp only
  rw [if_pos h]

theorem loop_of_done {s : RiscvSimulator} {ready : List Nat} (h : ¬ s.goesOn ready) (t : Nat) :
    (loop t ready).run s = .ok (true, []) s := by
  rw [Bool.not_eq_true] at h
  cases t with
  | zero =>
    rw [loop, EStateM.run_bind, EStateM.run_get]
    dsimp only
    rw [h]
    rfl
  | succ t =>
    rw [loop, EStateM.run_bind, EStateM.run_get]
    dsimp only
    rw [h]
    rfl

/-- The loop that goes on, turn by turn. -/
theorem loop_cons {s s₁ : RiscvSimulator} {ready ready' : List Nat} {events : List Event}
    (h : s.goesOn ready) (hturn : (turn ready).run s = .ok (events, ready') s₁) (t : Nat) :
    (loop (t + 1) ready).run s = match (loop t ready').run s₁ with
      | .ok r s' => .ok (r.1, events ++ r.2) s'
      | .error f s' => .error f s' := by
  rw [loop_of_goesOn h, EStateM.run_bind, hturn]
  dsimp only
  rw [EStateM.run_bind]
  cases (loop t ready').run s₁ <;> rfl

/-- The turn of a loop that returned. -/
theorem turn_of_loop {s s' : RiscvSimulator} {ready : List Nat} {r : Bool × List Event} {t : Nat}
    (h : s.goesOn ready) (hloop : (loop (t + 1) ready).run s = .ok r s') :
    ∃ events ready' s₁ r', (turn ready).run s = .ok (events, ready') s₁ ∧
      (loop t ready').run s₁ = .ok r' s' := by
  rw [loop_of_goesOn h] at hloop
  obtain ⟨⟨events, ready'⟩, s₁, hturn, hloop⟩ := Effect.ok_of_bind hloop
  obtain ⟨r', s₂, hrest, hloop⟩ := Effect.ok_of_bind hloop
  cases hloop
  exact ⟨events, ready', s₁, r', hturn, hrest⟩

/-- A turn keeps the budget. -/
theorem turn_maxInstrs {s s₁ : RiscvSimulator} {ready : List Nat} {r : List Event × List Nat}
    (h : (turn ready).run s = .ok r s₁) : s₁.simCfg.maxInstrs = s.simCfg.maxInstrs := by
  have hfixed := (commutes_turn s.simCfg.maxInstrs ready).fixed (s := s) rfl
  rw [h] at hfixed
  have hs₁ : s₁ = withMaxInstrs s.simCfg.maxInstrs s₁ := hfixed.symm
  rw [hs₁]
  rfl

/-! ### `Go` -/

/-- How the start ends: no image, or nothing counted yet. -/
theorem startGo_cases (s : RiscvSimulator) :
    (∃ rcode s₁, startGo.run s = .ok (.error rcode) s₁ ∧ s₁.instrCount = s.instrCount) ∨
    ∃ ready s₁, startGo.run s = .ok (.ok ready) s₁ ∧ s₁.instrCount = 0 ∧ s₁.simCfg = s.simCfg := by
  rw [startGo, EStateM.run_bind, EStateM.run_get]
  dsimp only
  rw [EStateM.run_bind, EStateM.run_set]
  dsimp only
  split
  · exact .inl ⟨_, _, rfl, rfl⟩
  · exact .inr ⟨_, _, rfl, rfl, rfl⟩

theorem go_of_loop {s s₁ s' : RiscvSimulator} {ready : List Nat} {left : Bool}
    {events : List Event} {t : Nat} (hstart : startGo.run s = .ok (.ok ready) s₁)
    (hloop : (loop t ready).run s₁ = .ok (left, events) s') :
    ∃ rcode, (go t).run s = .ok (if left then some rcode else none, events)
      { s' with rcode := if left then rcode else s'.rcode } := by
  rw [go, EStateM.run_bind, hstart]
  dsimp only
  rw [EStateM.run_bind, hloop]
  cases left with
  | false => exact ⟨0, rfl⟩
  | true => exact ⟨_, rfl⟩

end Dimebox.RiscvSimulator
