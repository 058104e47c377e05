import Dimebox.Budget
import Dimebox.Rounds
import Dimebox.Lib.Fairness

/-! How often the cores are stepped.

    In every round of its loop `Go` steps the cores that are ready when the round begins, in a random
    order. Only a failure cuts a round short, and then it was the last. So of two cores that are ready
    whenever a round begins, none is ever stepped three times while the other waits. -/

namespace Dimebox.RiscvSimulator

/-- The rounds of `loop`: the simulator and the ready cores at the beginning of each. -/
def rounds : Nat → List Nat → RiscvSimulator → List (RiscvSimulator × List Nat)
  | 0, _, _ => []
  | n + 1, ready, s =>
    if s.goesOn ready then
      match (turn ready).run s with
      | .ok (_, ready') s' => (s, ready) :: rounds n ready' s'
      | .error _ _ => [(s, ready)]
    else []

theorem rounds_of_done {s : RiscvSimulator} {ready : List Nat} (h : ¬ s.goesOn ready) (n : Nat) :
    rounds n ready s = [] := by
  cases n with
  | zero => rfl
  | succ n => rw [rounds, if_neg h]

theorem rounds_cons {s s₁ : RiscvSimulator} {ready ready' : List Nat} {events : List Event}
    (h : s.goesOn ready) (hturn : (turn ready).run s = .ok (events, ready') s₁) (n : Nat) :
    rounds (n + 1) ready s = (s, ready) :: rounds n ready' s₁ := by
  rw [rounds, if_pos h, hturn]

/-- Core `k` is ready. -/
def IsReady (s : RiscvSimulator) (k : Nat) : Prop :=
  ∃ core, s.cores[k]? = some core ∧ core.ready

/-- The ready cores, each once. -/
structure ReadyList (s : RiscvSimulator) (ready : List Nat) : Prop where
  nodup : ready.Nodup
  mem_iff : ∀ k, k ∈ ready ↔ s.IsReady k

theorem readyList_of_getReadyCpus {s s' : RiscvSimulator} {ready : List Nat}
    (h : getReadyCpus.run s = .ok ready s') : s'.ReadyList ready := by
  obtain ⟨rfl, hnodup, hmem⟩ := getReadyCpus_ok h
  exact ⟨hnodup, hmem⟩

theorem readyList_of_turn {s s' : RiscvSimulator} {ready ready' : List Nat} {events : List Event}
    (h : (turn ready).run s = .ok (events, ready') s') : s'.ReadyList ready' := by
  obtain ⟨s₁, s₂, -, -, hget⟩ := turn_ok h
  exact readyList_of_getReadyCpus hget

/-- The loop begins with the cores that are ready. -/
theorem readyList_of_startGo {s s' : RiscvSimulator} {ready : List Nat}
    (h : startGo.run s = .ok (.ok ready) s') : s'.ReadyList ready := by
  obtain ⟨_, s₁, hload, h⟩ := Effect.ok_of_bind h
  dsimp only at h
  obtain ⟨_, s₂, hset, h⟩ := Effect.ok_of_bind h
  split at h
  · cases h
  · obtain ⟨r, s₃, hget, h⟩ := Effect.ok_of_bind h
    obtain ⟨_, s₄, hmodify, h⟩ := Effect.ok_of_bind h
    cases h
    cases hmodify
    obtain ⟨hnodup, hmem⟩ := readyList_of_getReadyCpus hget
    exact ⟨hnodup, hmem⟩

theorem readyList_of_rounds (n : Nat) {s : RiscvSimulator} {ready : List Nat}
    (h : s.ReadyList ready) : ∀ round ∈ rounds n ready s, round.1.ReadyList round.2 := by
  induction n generalizing s ready with
  | zero => simp [rounds]
  | succ n ih =>
    intro round hround
    rw [rounds] at hround
    split at hround
    · split at hround
      · next events ready' s' hturn =>
        rcases List.mem_cons.mp hround with rfl | hlater
        · exact h
        · exact ih (readyList_of_turn hturn) round hlater
      · rw [List.mem_singleton] at hround
        rw [hround]
        exact h
    · cases hround

/-! ### Who is stepped -/

/-- `StepCores` steps the cores in their order, all of them unless there is a failure. -/
theorem stepCores_order (ks : List Nat) {s s' : RiscvSimulator} {events : List Event}
    (h : (stepCores ks).run s = .ok events s') :
    events.map Prod.fst <+: ks ∧ (s'.rcode = 0 → events.map Prod.fst = ks) := by
  induction ks generalizing s events with
  | nil =>
    cases h
    exact ⟨List.prefix_rfl, fun _ => rfl⟩
  | cons k ks ih =>
    rcases stepCores_cons h with ⟨hfailed, rfl, rfl⟩ | ⟨what, s₁, -, rfl, rfl⟩ |
      ⟨e, later, s₁, -, hlater, rfl⟩
    · exact ⟨List.nil_prefix, fun hr => absurd hr hfailed⟩
    · refine ⟨List.nil_prefix, fun hr => ?_⟩
      have hminus : (-1 : Int) = 0 := hr
      omega
    · obtain ⟨hstart, hall⟩ := ih hlater
      exact ⟨List.cons_prefix_cons.mpr ⟨rfl, hstart⟩, fun hr => congrArg (k :: ·) (hall hr)⟩

theorem turn_order {s s' : RiscvSimulator} {ready ready' : List Nat} {events : List Event}
    (h : (turn ready).run s = .ok (events, ready') s') :
    events.map Prod.fst <+: ready ∧ (s'.rcode = 0 → events.map Prod.fst = ready) := by
  obtain ⟨s₁, s₂, hsteps, hserve, hget⟩ := turn_ok h
  have hsame := sameServer_after_steps hserve hget
  obtain ⟨hstart, hall⟩ := stepCores_order ready hsteps
  exact ⟨hstart, fun hr => hall (hsame.2.symm.trans hr)⟩

/-- The loop ends where a round failed. -/
theorem rcode_of_turn {n : Nat} {ready : List Nat} {s s' : RiscvSimulator} {r : Bool × List Event}
    (h : (loop n ready).run s = .ok r s') (hr : s'.rcode = 0) : s.rcode = 0 := by
  by_contra hne
  have hdone : ¬ s.goesOn ready := by simp [goesOn, hne]
  rw [loop_of_done hdone] at h
  cases h
  exact hne hr

/-- The steps of the loop are those of its rounds, one after the other. -/
theorem loop_order (n : Nat) {ready : List Nat} {s s' : RiscvSimulator} {left : Bool}
    {events : List Event} (h : (loop n ready).run s = .ok (left, events) s') :
    events.map Prod.fst <+: ((rounds n ready s).map Prod.snd).flatten ∧
      (s'.rcode = 0 → events.map Prod.fst = ((rounds n ready s).map Prod.snd).flatten) := by
  induction n generalizing s ready left events with
  | zero =>
    cases h
    exact ⟨List.nil_prefix, fun _ => rfl⟩
  | succ n ih =>
    by_cases hgo : s.goesOn ready
    · obtain ⟨first, ready', s₁, ⟨left', later⟩, hturn, hloop⟩ := turn_of_loop hgo h
      rw [loop_cons hgo hturn, hloop] at h
      cases h
      obtain ⟨hfirst, hfull⟩ := turn_order hturn
      rw [rounds_cons hgo hturn, List.map_cons, List.flatten_cons, List.map_append]
      by_cases hr : s₁.rcode = 0
      · rw [hfull hr]
        obtain ⟨hlater, hall⟩ := ih hloop
        exact ⟨(List.prefix_append_right_inj ready).mpr hlater,
          fun hr' => congrArg (ready ++ ·) (hall hr')⟩
      · -- this round failed, and was the last
        have hdone : ¬ s₁.goesOn ready' := by simp [goesOn, hr]
        rw [loop_of_done hdone] at hloop
        cases hloop
        rw [List.map_nil, List.append_nil]
        exact ⟨hfirst.trans (List.prefix_append ready _), fun hr' => absurd hr' hr⟩
    · rw [loop_of_done hgo] at h
      cases h
      exact ⟨List.nil_prefix, fun _ => by rw [rounds_of_done hgo]; rfl⟩

/-- `Go` steps in every round exactly the cores that are ready when the round begins, each once, and
    only a failure cuts a round, the last one, short. Of two cores that are ready whenever a round
    begins, neither gets more than two steps ahead of the other in any stretch of the simulation. -/
theorem go_steps_fairly (n : Nat) {s₀ s s' : RiscvSimulator} {ready : List Nat} {left : Bool}
    {events : List Event} (hstart : startGo.run s₀ = .ok (.ok ready) s)
    (hloop : (loop n ready).run s = .ok (left, events) s') :
    (∀ round ∈ rounds n ready s, round.1.ReadyList round.2) ∧
    events.map Prod.fst <+: ((rounds n ready s).map Prod.snd).flatten ∧
    (s'.rcode = 0 → events.map Prod.fst = ((rounds n ready s).map Prod.snd).flatten) ∧
    ∀ j k, (∀ round ∈ rounds n ready s, round.1.IsReady j ∧ round.1.IsReady k) →
      ∀ l, l <:+: events.map Prod.fst → l.count j ≤ l.count k + 2 := by
  have hlists := readyList_of_rounds n (readyList_of_startGo hstart)
  obtain ⟨hsteps, hall⟩ := loop_order n hloop
  refine ⟨hlists, hsteps, hall, fun j k hready l hl => ?_⟩
  have hround : ∀ r ∈ (rounds n ready s).map Prod.snd, r.Nodup ∧ j ∈ r ∧ k ∈ r := by
    intro r hr
    obtain ⟨round, hmem, rfl⟩ := List.mem_map.mp hr
    obtain ⟨hj, hk⟩ := hready round hmem
    exact ⟨(hlists round hmem).nodup, ((hlists round hmem).mem_iff j).mpr hj,
      ((hlists round hmem).mem_iff k).mpr hk⟩
  exact Fairness.count_le_of_stretch (fun r hr => (hround r hr).1) (fun r hr => (hround r hr).2.1)
    (fun r hr => (hround r hr).2.2) (hl.trans hsteps.isInfix)

/-- Two cores at a NOP and a jump to itself: two rounds. -/
theorem two_cores_take_turns : ∃ (s s' : RiscvSimulator) (left : Bool) (events : List Event),
    startGo.run (init { resetAddress := 0x80000000, numCores := 2 }
      (.simple 0x80000000 [0x13, 0, 0, 0, 0x6f, 0, 0, 0] {})) = .ok (.ok [0, 1]) s ∧
    (loop 2 [0, 1]).run s = .ok (left, events) s' ∧ events.map Prod.fst = [0, 1, 0, 1] ∧
    events.map Prod.fst = ((rounds 2 [0, 1] s).map Prod.snd).flatten := by
  obtain ⟨s₀, hs₀⟩ : ∃ s₀, s₀ = init { resetAddress := 0x80000000, numCores := 2 }
      (.simple 0x80000000 [0x13, 0, 0, 0, 0x6f, 0, 0, 0] {}) := ⟨_, rfl⟩
  obtain ⟨hready, hcpus, hr⟩ :
      (Effect.result (startGo.run s₀)).map Except.toOption = some (some [0, 1]) ∧
      (Effect.result ((loop 2 [0, 1]).run (Effect.final (startGo.run s₀)))).map
        (fun r => r.2.map Prod.fst) = some [0, 1, 0, 1] ∧
      (Effect.final ((loop 2 [0, 1]).run (Effect.final (startGo.run s₀)))).rcode = 0 := by
    subst hs₀
    decide +kernel
  have hstart := Effect.ok_ok_of_result hready
  cases hloop : (loop 2 [0, 1]).run (Effect.final (startGo.run s₀)) with
  | error f s' => rw [hloop] at hcpus; cases hcpus
  | ok r s' =>
    obtain ⟨left, events⟩ := r
    rw [hloop] at hcpus hr
    obtain ⟨-, -, hall, -⟩ := go_steps_fairly 2 hstart hloop
    subst hs₀
    exact ⟨_, s', left, events, hstart, hloop, Option.some.inj hcpus, hall hr⟩

end Dimebox.RiscvSimulator
