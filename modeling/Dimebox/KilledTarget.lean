import Dimebox.Runs

/-! Killing the target.

    A client that kills the target makes `Poll` return false, and `StepCore` refuses to execute. The
    end of the test is set on `state_updates`, the copy that `StepCore` drops when it returns; the
    core `Go` looks at stays ready. The next turn steps it again, and the server, which has nothing
    left to poll for, lets it run. -/

namespace Dimebox.RiscvSimulator

/-- Whether the test has ended on core `k`. -/
def ended (s : RiscvSimulator) (k : Nat) : Option Bool := s.cores[k]?.map RiscvState.halted

/-- `Go` treats the same cores as halted. -/
def SameEnded (s s' : RiscvSimulator) : Prop := ∀ k, s'.ended k = s.ended k

theorem SameEnded.refl (s : RiscvSimulator) : SameEnded s s := fun _ => rfl

theorem SameEnded.trans {s s' s'' : RiscvSimulator} (h : SameEnded s s') (h' : SameEnded s' s'') :
    SameEnded s s'' := fun k => (h' k).trans (h k)

theorem ended_of_cores {s s' : RiscvSimulator} (h : s'.cores = s.cores) (k : Nat) :
    s'.ended k = s.ended k := by
  rw [ended, ended, h]

/-! ### Steps -/

/-- A step ends the test on the core it executes an instruction on, if on any. -/
theorem stepCore_ended {k j : Nat} {e : StepEvent} {s s' : RiscvSimulator}
    (h : (stepCore k).run s = .ok e s') (hj : (k, e) ≠ (j, .executed)) :
    s'.ended j = s.ended j := by
  cases e with
  | returned why => exact ended_of_cores (stepCore_returned h).cores j
  | executed =>
    obtain ⟨i, i', s₁, hc⟩ := stepCore_executed h
    obtain ⟨core, pc, -, -, hcores⟩ := hc.prepared
    have hne : k ≠ j := fun hkj => hj (by rw [hkj])
    rw [ended, ended, hcores, List.getElem?_set_ne hne]

/-- `StepCores` steps cores of its list in their order, and cores it executes nothing on do not
    end. -/
theorem stepCores_ended (ks : List Nat) {events : List Event} {s s' : RiscvSimulator}
    (h : (stepCores ks).run s = .ok events s') :
    (events.map Prod.fst).Sublist ks ∧ ∀ j, (j, .executed) ∉ events → s'.ended j = s.ended j := by
  induction ks generalizing events s with
  | nil => cases h; exact ⟨.slnil, fun _ _ => rfl⟩
  | cons k ks ih =>
    rcases stepCores_cons h with ⟨-, rfl, rfl⟩ | ⟨what, s₁, hstep, rfl, rfl⟩ |
      ⟨e, later, s₁, hstep, hlater, rfl⟩
    · exact ⟨List.nil_sublist _, fun j _ => rfl⟩
    · exact ⟨List.nil_sublist _, fun j _ => ended_of_cores (stepCore_runtimeError hstep).cores j⟩
    · obtain ⟨hsub, hend⟩ := ih hlater
      refine ⟨hsub.cons_cons k, fun j hj => ?_⟩
      rw [List.mem_cons, not_or] at hj
      exact (hend j hj.2).trans (stepCore_ended hstep fun hkj => hj.1 hkj.symm)

/-! ### Devices and ready cores -/

theorem Signalled.sameEnded {s s' : RiscvSimulator} (h : Signalled s s') : SameEnded s s' := by
  intro k
  obtain ⟨es, hes⟩ := h k
  rw [ended, ended, hes, Option.map_map]
  congr 1
  funext core
  obtain ⟨mip, hmip⟩ := core.foldl_signal es
  rw [Function.comp_apply, hmip]
  rfl

/-- What `GetReadyCpus` returns: distinct cores on which the test has not ended. -/
structure Stepping (s : RiscvSimulator) (ready : List Nat) : Prop where
  nodup : ready.Nodup
  running : ∀ k ∈ ready, s.ended k = some false

theorem stepping_getReadyCpus {s s' : RiscvSimulator} {ready : List Nat}
    (h : getReadyCpus.run s = .ok ready s') : Stepping s' ready ∧ SameEnded s s' := by
  obtain ⟨rfl, hnodup, hready⟩ := getReadyCpus_ok h
  refine ⟨⟨hnodup, fun k hk => ?_⟩, fun _ => rfl⟩
  obtain ⟨core, hcore, hr⟩ := (hready k).mp hk
  simp only [RiscvState.ready, Bool.and_eq_true, Bool.not_eq_true'] at hr
  show s.ended k = some false
  rw [ended, hcore]
  simp [RiscvState.halted, hr.1]

/-! ### The loop -/

/-- Core `k` was refused a step, and has executed nothing since. -/
def KilledSince (k : Nat) (events : List Event) : Prop :=
  ∃ earlier later, events = earlier ++ (k, .returned .refused) :: later ∧ (k, .executed) ∉ later

theorem KilledSince.of_append {k : Nat} {first later : List Event}
    (h : KilledSince k (first ++ later)) :
    KilledSince k later ∨ (k, .returned .refused) ∈ first ∧ (k, .executed) ∉ later := by
  obtain ⟨l₁, l₂, heq, hno⟩ := h
  rcases List.append_eq_append_iff.mp heq with ⟨c, -, rfl⟩ | ⟨c, rfl, hc⟩
  · exact .inl ⟨c, l₂, rfl, hno⟩
  · cases c with
    | nil => exact .inl ⟨[], l₂, hc.symm, hno⟩
    | cons x c =>
      obtain ⟨rfl, rfl⟩ := List.cons.inj hc
      refine .inr ⟨by simp, fun hlater => hno (List.mem_append_right c hlater)⟩

/-- What a turn does to the ends of tests. -/
theorem turn_ended {ready ready' : List Nat} {events : List Event} {s s' : RiscvSimulator}
    (hs : Stepping s ready) (h : (turn ready).run s = .ok (events, ready') s') :
    Stepping s' ready' ∧ (∀ k, (k, .executed) ∉ events → s'.ended k = s.ended k) ∧
      ∀ k, (k, .returned .refused) ∈ events → s'.ended k = some false := by
  obtain ⟨s₁, s₂, hsteps, hserve, hready⟩ := turn_ok h
  have hsame : SameEnded s₁ s₂ := by
    have hsignalled := signalled_serviceDevices { s₁ with clock := s₁.clock + 1 }
    rw [hserve] at hsignalled
    exact hsignalled.sameEnded
  obtain ⟨hsub, hend⟩ := stepCores_ended ready hsteps
  obtain ⟨hstepping, hsame'⟩ := stepping_getReadyCpus hready
  have hkept : ∀ k, (k, .executed) ∉ events → s'.ended k = s.ended k := fun k hk =>
    ((hsame.trans hsame') k).trans (hend k hk)
  refine ⟨hstepping, hkept, fun k hk => ?_⟩
  -- a core is stepped once in a turn, so the refused step is its only one
  have honce : (k, .executed) ∉ events := by
    intro hexec
    have heq := List.inj_on_of_nodup_map (hsub.nodup hs.nodup) hk hexec rfl
    cases heq
  have hmem : k ∈ ready := hsub.subset (List.mem_map_of_mem hk)
  rw [hkept k honce, hs.running k hmem]

/-- While the loop runs, the test does not end on a core that executes nothing, and has not ended on
    a core that was refused a step and has executed nothing since. -/
theorem loop_ended (n : Nat) {ready : List Nat} {left : Bool} {events : List Event}
    {s s' : RiscvSimulator} (hs : Stepping s ready)
    (h : (loop n ready).run s = .ok (left, events) s') :
    (∀ k, (k, .executed) ∉ events → s'.ended k = s.ended k) ∧
      ∀ k, KilledSince k events → s'.ended k = some false := by
  induction n generalizing ready left events s with
  | zero =>
    cases h
    refine ⟨fun _ _ => rfl, ?_⟩
    rintro k ⟨_, _, h, _⟩
    simp at h
  | succ n ih =>
    rw [loop, EStateM.run_bind, EStateM.run_get] at h
    dsimp only at h
    split at h
    · obtain ⟨⟨first, ready'⟩, s₁, hturn, h⟩ := Effect.ok_of_bind h
      obtain ⟨⟨left', later⟩, s₂, hloop, h⟩ := Effect.ok_of_bind h
      cases h
      obtain ⟨hs₁, hkept, hrefused⟩ := turn_ended hs hturn
      obtain ⟨hkept', hkilled⟩ := ih hs₁ hloop
      refine ⟨fun k hk => ?_, fun k hk => ?_⟩
      · rw [List.mem_append, not_or] at hk
        exact (hkept' k hk.2).trans (hkept k hk.1)
      · rcases hk.of_append with hk | ⟨hmem, hno⟩
        · exact hkilled k hk
        · rw [hkept' k hno, hrefused k hmem]
    · cases h
      refine ⟨fun _ _ => rfl, ?_⟩
      rintro k ⟨_, _, h, _⟩
      simp at h

/-! ### `Go` -/

/-- A run of `Go` from `s` refuses core `k` a step. -/
def Killed (s : RiscvSimulator) (k : Nat) : Prop :=
  ∃ n r events s', (go n).run s = .ok (r, events) s' ∧ (k, .returned .refused) ∈ events

/-- Once core `k` is killed it executes nothing, and `Go` leaves its loop with the core halted. -/
def StopsWhenKilled (s : RiscvSimulator) (k : Nat) : Prop :=
  Killed s k → ∃ n rcode events s', (go n).run s = .ok (some rcode, events) s' ∧
    KilledSince k events ∧ s'.ended k = some true

theorem startGo_stepping {s s' : RiscvSimulator} {ready : List Nat}
    (h : startGo.run s = .ok (.ok ready) s') : Stepping s' ready := by
  rw [startGo, EStateM.run_bind, EStateM.run_get] at h
  obtain ⟨_, s₁, hset, h⟩ := Effect.ok_of_bind h
  split at h
  · cases h
  · obtain ⟨r, s₂, hready, h⟩ := Effect.ok_of_bind h
    obtain ⟨_, s₃, hmodify, h⟩ := Effect.ok_of_bind h
    cases h
    cases hmodify
    obtain ⟨⟨hnodup, hrunning⟩, -⟩ := stepping_getReadyCpus hready
    exact ⟨hnodup, hrunning⟩

/-- A run of `Go`: a core that was refused a step has executed an instruction since, or the test has
    not ended on it. -/
theorem go_ended {n : Nat} {r : Option Int} {events : List Event} {s s' : RiscvSimulator}
    (h : (go n).run s = .ok (r, events) s') {k : Nat} (hk : KilledSince k events) :
    s'.ended k = some false := by
  obtain ⟨start, s₁, hstart, h⟩ := Effect.ok_of_bind h
  cases start with
  | error rcode =>
    cases h
    obtain ⟨_, _, h, _⟩ := hk
    simp at h
  | ok ready =>
    obtain ⟨⟨left, events'⟩, s₂, hloop, h⟩ := Effect.ok_of_bind h
    have hend := (loop_ended n (startGo_stepping hstart) hloop).2 k
    dsimp only at h
    split at h
    · cases h; exact hend hk
    · obtain ⟨_, s₃, hmodify, h⟩ := Effect.ok_of_bind h
      obtain ⟨_, s₄, hget, h⟩ := Effect.ok_of_bind h
      cases h
      cases hget
      cases hmodify
      exact hend hk

/-- A killed target never stops. -/
theorem killed_target_never_stops (s : RiscvSimulator) (k : Nat) (hkilled : Killed s k) :
    ¬ StopsWhenKilled s k := by
  intro hstops
  obtain ⟨n, rcode, events, s', hrun, hsince, hhalted⟩ := hstops hkilled
  rw [go_ended hrun hsince] at hhalted
  cases hhalted

/-- A jump to self at the reset address, and a client that sends `k` and hangs up. -/
def killedMachine : RiscvSimulator :=
  init { resetAddress := 0x80000000, gdbPort := 1234 }
    (.simple 0x80000000 [0x6f, 0, 0, 0] { incoming := [some "$k#6b".toList] })

/-- `Go` refuses the first step, executes the second and returns 0. -/
theorem killedMachine_run : ∃ s', (go 2).run killedMachine
    = .ok (some 0, [(0, .returned .refused), (0, .executed)]) s' :=
  Effect.ok_of_result (by decide +kernel)

theorem killedMachine_killed : Killed killedMachine 0 := by
  obtain ⟨s', hrun⟩ := killedMachine_run
  exact ⟨2, _, _, s', hrun, by simp⟩

/-- The client's `k` refuses one step. -/
theorem killedMachine_never_stops :
    Killed killedMachine 0 ∧ ¬ StopsWhenKilled killedMachine 0 :=
  ⟨killedMachine_killed, killed_target_never_stops killedMachine 0 killedMachine_killed⟩

/-- The jump is executed after the kill, and only it ends the test. -/
theorem killed_target_executes_again :
    (∃ s', (go 2).run killedMachine
      = .ok (some 0, [(0, .returned .refused), (0, .executed)]) s') ∧
    ¬ StopsWhenKilled killedMachine 0 := by
  refine ⟨killedMachine_run, fun hstops => ?_⟩
  obtain ⟨n, rcode, events, s', hrun, hsince, hhalted⟩ := hstops killedMachine_killed
  rw [go_ended hrun hsince] at hhalted
  cases hhalted

end Dimebox.RiscvSimulator
