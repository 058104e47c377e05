import Dimebox.Schedule
import Dimebox.Termination

/-! How long an interrupt waits.

    Devices are served at the end of a round and signal core 0. A core for which an enabled interrupt
    is pending is ready, whether it is asleep or not, so the next round steps it, and the step starts
    at the vector. Timer and UART alike: an interrupt waits for one round at most. -/

namespace Dimebox

/-- The interrupts that implemented devices have pending, in the order they are signalled. -/
def Devices.due (d : Devices) : List SimExceptions :=
  (if d.timer.isImplemented && d.timer.interruptPending then [.machineTimerInt] else []) ++
    if d.uart1.isImplemented && d.uart1.interruptPending then [.machineExternalInt] else []

theorem Devices.mem_due {d : Devices} {e : SimExceptions} (h : e ∈ d.due) :
    e = .machineTimerInt ∨ e = .machineExternalInt := by
  rw [due, List.mem_append] at h
  rcases h with h | h <;> split at h <;> simp at h <;> simp [h]

/-- A tick of a timer that has `d + 1` ticks to go. -/
theorem MachineTimer.advanceTimer_expires {t : MachineTimer} {d : Nat} (hadvance : t.timerAdvance = 1)
    (hticks : t.timer.toNat + (d + 1) = t.timerCompare.toNat) :
    t.advanceTimer.timer.toNat = t.timer.toNat + 1 ∧
      t.advanceTimer.interruptPending = decide (d = 0) := by
  have hlt := t.timerCompare.isLt
  have hcount : (t.timer + t.timerAdvance).toNat = t.timer.toNat + 1 := by
    have hone : (1 : U64).toNat = 1 := rfl
    rw [hadvance, BitVec.toNat_add, hone, Nat.mod_eq_of_lt (by omega)]
  have hne : t.timerCompare ≠ 0 := by
    intro hzero
    have hzero' : t.timerCompare.toNat = 0 := by rw [hzero]; rfl
    omega
  have hle : t.timerCompare ≤ t.timer + t.timerAdvance ↔ d = 0 := by
    rw [BitVec.le_def, hcount]
    omega
  refine ⟨hcount, ?_⟩
  rw [interruptPending, advanceTimer]
  simp only [bne_iff_ne.mpr hne, hle, Bool.true_and]

namespace RiscvState

/-- A signal leaves a bit of MIP on. -/
theorem mip_signal_of_mip {s : RiscvState} {bit : Nat} (h : s.mip.getLsbD bit) (e : SimExceptions) :
    (s.signal e).mip.getLsbD bit := by
  have hset : ∀ v, (s.setMip (s.mip ||| v)).mip.getLsbD bit := by
    intro v
    simp [mip, setMip, write, read, shown, legal] at h ⊢
    exact .inl h
  unfold signal
  split
  · exact hset _
  · exact hset _
  · exact h

theorem mip_signal {e : SimExceptions} (he : e = .machineTimerInt ∨ e = .machineExternalInt)
    (s : RiscvState) : (s.signal e).mip.getLsbD (causeOf e).toNat := by
  rcases he with rfl | rfl
  · simp [signal, mip, setMip, write, read, shown, legal, causeOf, SimExceptions.code]
  · simp [signal, mip, setMip, write, read, shown, legal, causeOf, SimExceptions.code]

/-- A signalled interrupt is pending. -/
theorem mip_of_signalled {e : SimExceptions} (he : e = .machineTimerInt ∨ e = .machineExternalInt)
    {es : List SimExceptions} (hmem : e ∈ es) (s : RiscvState) :
    (es.foldl signal s).mip.getLsbD (causeOf e).toNat := by
  have hkeeps : ∀ (l : List SimExceptions) {t : RiscvState}, t.mip.getLsbD (causeOf e).toNat →
      (l.foldl signal t).mip.getLsbD (causeOf e).toNat := fun l t ht =>
    List.foldlRecOn (motive := fun t => t.mip.getLsbD (causeOf e).toNat) l signal ht
      fun _ h e' _ => mip_signal_of_mip h e'
  obtain ⟨es₁, es₂, rfl⟩ := List.append_of_mem hmem
  rw [List.foldl_append, List.foldl_cons]
  exact hkeeps es₂ (mip_signal he _)

end RiscvState

theorem UartPl011.isImplemented_serve (u : UartPl011) (stdin : Option Byte) :
    (u.advanceClock.serviceIos stdin).isImplemented = u.isImplemented := by
  have hreceive : ∀ v : UartPl011, (v.receive stdin).isImplemented = v.isImplemented := by
    intro v
    unfold receive
    split
    · rfl
    · dsimp only
      split <;> rfl
  exact hreceive _

namespace RiscvSimulator

/-! ### The devices -/

theorem modifyHead_self (cores : List RiscvState) :
    cores.modifyHead (fun core => core) = cores := congrFun List.modifyHead_id cores

theorem signal_ok {e : SimExceptions} {s s' : RiscvSimulator} (h : (signal e).run s = .ok () s') :
    s' = { s with cores := s.cores.modifyHead (RiscvState.signal · e) } := by
  rw [signal, EStateM.run_bind, EStateM.run_get] at h
  dsimp only at h
  cases hcores : s.cores with
  | nil => rw [hcores] at h; cases h
  | cons core cores => rw [hcores] at h; cases h; rfl

/-- A device is served, and signals if it has an interrupt pending then. -/
theorem serve_ok {e : SimExceptions} {f : Devices → Devices} {p : Devices → Bool}
    {s s' : RiscvSimulator} (h : (do
      modifyDevices f
      if p (← get).memory.deviceObjects then signal e : SimM Unit).run s = .ok () s') :
    s' = { s with
      cores := s.cores.modifyHead fun core =>
        (if p (f s.memory.deviceObjects) then [e] else []).foldl RiscvState.signal core
      memory := { s.memory with deviceObjects := f s.memory.deviceObjects } } := by
  obtain ⟨_, s₁, hmodify, h⟩ := Effect.ok_of_bind h
  obtain ⟨s₂, s₃, hget, h⟩ := Effect.ok_of_bind h
  cases hmodify
  cases hget
  dsimp only at h
  split at h
  · next hpending =>
    rw [signal_ok h, if_pos hpending]
    rfl
  · next hpending =>
    cases h
    rw [if_neg hpending]
    simp only [List.foldl_nil, modifyHead_self]

/-- The part of `ServiceDevices` that is about the UART. -/
theorem serveUart_ok {s s' : RiscvSimulator} (h : (do
      if (← get).memory.deviceObjects.uart1.isImplemented then
        let call ← nextCall
        let stdin := (← get).host.stdin call
        modifyDevices fun d => { d with uart1 := d.uart1.advanceClock.serviceIos stdin }
        if (← get).memory.deviceObjects.uart1.interruptPending then
          signal .machineExternalInt : SimM Unit).run s = .ok () s') :
    ∃ (uart1 : UartPl011) (calls : Nat),
      s' = { s with
        cores := s.cores.modifyHead fun core =>
          (if uart1.isImplemented && uart1.interruptPending then [.machineExternalInt]
            else []).foldl RiscvState.signal core
        memory := { s.memory with
          deviceObjects := { s.memory.deviceObjects with uart1 := uart1 } }
        calls } ∧
      (s.memory.deviceObjects.uart1.isImplemented = false →
        uart1 = s.memory.deviceObjects.uart1) := by
  obtain ⟨s₁, s₂, hget, h⟩ := Effect.ok_of_bind h
  cases hget
  split at h
  · next himpl =>
    obtain ⟨call, s₃, hcall, h⟩ := Effect.ok_of_bind h
    obtain ⟨s₄, s₅, hget, h⟩ := Effect.ok_of_bind h
    cases hcall
    cases hget
    have hserve := serve_ok (p := fun d => d.uart1.interruptPending) h
    refine ⟨s.memory.deviceObjects.uart1.advanceClock.serviceIos (s.host.stdin s.calls), s.calls + 1,
      hserve.trans ?_, fun hnot => ?_⟩
    · simp only [UartPl011.isImplemented_serve, himpl, Bool.true_and]
    · rw [himpl] at hnot
      cases hnot
  · next himpl =>
    cases h
    refine ⟨s.memory.deviceObjects.uart1, s.calls, ?_, fun _ => rfl⟩
    simp only [himpl, Bool.false_and, Bool.false_eq_true, if_false, List.foldl_nil, modifyHead_self]

/-- `ServiceDevices`: the timer is advanced, and what the devices have due then is signalled. -/
theorem serviceDevices_ok {s s' : RiscvSimulator} (h : serviceDevices.run s = .ok () s') :
    ∃ (timer : MachineTimer) (uart1 : UartPl011) (calls : Nat),
      s' = { s with
        cores := s.cores.modifyHead fun core =>
          (Devices.due { timer, uart1 }).foldl RiscvState.signal core
        memory := { s.memory with deviceObjects := { timer, uart1 } }
        calls } ∧
      timer = (if s.memory.deviceObjects.timer.isImplemented
        then s.memory.deviceObjects.timer.advanceTimer else s.memory.deviceObjects.timer) ∧
      (s.memory.deviceObjects.uart1.isImplemented = false →
        uart1 = s.memory.deviceObjects.uart1) := by
  rw [serviceDevices] at h
  obtain ⟨s₁, s₂, hget, h⟩ := Effect.ok_of_bind h
  cases hget
  split at h
  · next himpl =>
    obtain ⟨_, s₃, hmodify, h⟩ := Effect.ok_of_bind h
    cases hmodify
    obtain ⟨s₄, s₅, hget, h⟩ := Effect.ok_of_bind h
    cases hget
    have himpl' : s.memory.deviceObjects.timer.advanceTimer.isImplemented = true := himpl
    split at h
    · next hpending =>
      have hpending' : s.memory.deviceObjects.timer.advanceTimer.interruptPending = true := hpending
      obtain ⟨_, s₆, hsignal, h⟩ := Effect.ok_of_bind h
      obtain ⟨uart1, calls, rfl, hsame⟩ := serveUart_ok h
      rw [signal_ok hsignal] at hsame ⊢
      refine ⟨_, uart1, calls, ?_, (if_pos himpl).symm, hsame⟩
      simp only [Devices.due, himpl', hpending', List.modifyHead_modifyHead]
      rfl
    · next hpending =>
      have hpending' : s.memory.deviceObjects.timer.advanceTimer.interruptPending = false := by
        simpa using hpending
      obtain ⟨uart1, calls, rfl, hsame⟩ := serveUart_ok h
      refine ⟨_, uart1, calls, ?_, (if_pos himpl).symm, hsame⟩
      simp only [Devices.due, himpl', hpending', Bool.and_false, Bool.false_eq_true, if_false,
        List.nil_append]
  · next himpl =>
    obtain ⟨uart1, calls, rfl, hsame⟩ := serveUart_ok h
    refine ⟨_, uart1, calls, ?_, (if_neg himpl).symm, hsame⟩
    simp [Devices.due, himpl]

/-! ### The step of a ready core -/

/-- A ready core executes unless its fetch fails or the debug client refuses. -/
theorem prepare_ready {k : Nat} {s s₁ : RiscvSimulator} {core : RiscvState} {why : EarlyReturn}
    (hcore : s.cores[k]? = some core) (hready : core.ready)
    (h : (prepare k).run s = .ok (.error why) s₁) :
    why = .fetchError ∧ s₁.rcode = -1 ∨ why = .refused := by
  obtain ⟨call, s₂, hcall, h⟩ := Effect.ok_of_bind h
  obtain ⟨s₃, s₄, hget, h⟩ := Effect.ok_of_bind h
  cases hcall
  cases hget
  dsimp only at h
  rw [hcore] at h
  obtain ⟨work, s₅, hwork, h⟩ := Effect.ok_of_bind h
  cases hserviced : serviceInterrupt (RiscvState.copy (s.host.storage s.calls) core) with
  | error f => rw [hserviced] at hwork; cases hwork
  | ok work' =>
    rw [hserviced] at hwork
    cases hwork
    rw [if_neg (by rw [awake_of_ready hready hserviced]; decide)] at h
    obtain ⟨r, s₆, hfetch, h⟩ := Effect.ok_of_bind h
    cases r with
    | none =>
      obtain ⟨_, s₇, hmodify, h⟩ := Effect.ok_of_bind h
      cases hmodify
      cases h
      exact .inl ⟨rfl, rfl⟩
    | some r =>
      obtain ⟨s₇, s₈, hmem, h⟩ := Effect.ok_of_bind h
      obtain ⟨⟨goOn, client⟩, s₉, hdebug, h⟩ := Effect.ok_of_bind h
      dsimp only at h
      split at h
      · cases h
        exact .inr rfl
      · cases h

theorem stepCore_ready {k : Nat} {s s' : RiscvSimulator} {core : RiscvState} {e : StepEvent}
    (hcore : s.cores[k]? = some core) (hready : core.ready) (h : (stepCore k).run s = .ok e s') :
    e = .executed ∨ s'.rcode = -1 ∨ e = .returned .refused := by
  obtain ⟨r, s₁, hprep, h⟩ := Effect.ok_of_bind h
  cases r with
  | error why =>
    cases h
    rcases prepare_ready hcore hready hprep with ⟨-, hr⟩ | rfl
    · exact .inr (.inl hr)
    · exact .inr (.inr rfl)
  | ok r =>
    obtain ⟨core', pc, i⟩ := r
    obtain ⟨i', s₂, -, h⟩ := Effect.ok_of_bind h
    obtain ⟨_, s₃, -, h⟩ := Effect.ok_of_bind h
    cases h
    exact .inl rfl

/-- A step leaves the other cores alone. -/
theorem cores_stepCore {j k : Nat} {s s' : RiscvSimulator} {e : StepEvent}
    (h : (stepCore j).run s = .ok e s') (hne : j ≠ k) : s'.cores[k]? = s.cores[k]? := by
  cases e with
  | returned why => rw [(stepCore_returned h).cores]
  | executed =>
    obtain ⟨i, i', s₁, hc⟩ := stepCore_executed h
    obtain ⟨core, pc, -, -, hcores⟩ := hc.prepared
    rw [hcores, List.getElem?_set_ne hne]

theorem runs_of_stepCore {j : Nat} {s s' : RiscvSimulator} {e : StepEvent}
    (h : (stepCore j).run s = .ok e s') : ∃ xs, Run s xs s' ∧ ∀ x ∈ xs, x.k = j := by
  cases e with
  | returned why => exact ⟨[], Trace.Run.single (SimStep.returned h), by simp⟩
  | executed =>
    obtain ⟨x, hxj, hx⟩ := SimStep.of_executed h
    exact ⟨[x], Trace.Run.single hx, by simpa using hxj⟩

/-- The steps of a round that did not fail are those of its cores. -/
theorem runs_of_stepCores (ks : List Nat) {events : List Event} {s s' : RiscvSimulator}
    (h : (stepCores ks).run s = .ok events s') (hr : s'.rcode = 0) :
    ∃ xs, Run s xs s' ∧ ∀ x ∈ xs, x.k ∈ ks := by
  induction ks generalizing events s with
  | nil => cases h; exact ⟨[], .refl _, by simp⟩
  | cons j ks ih =>
    obtain ⟨e, later, s₁, hstep, hlater, -⟩ := stepCores_cons_of_rcode h hr
    obtain ⟨xs, hxs, hj⟩ := runs_of_stepCore hstep
    obtain ⟨ys, hys, hks⟩ := ih hlater
    refine ⟨xs ++ ys, hxs.trans hys, fun x hx => ?_⟩
    rcases List.mem_append.mp hx with hx | hx
    · exact List.mem_cons.mpr (.inl (hj x hx))
    · exact List.mem_cons_of_mem j (hks x hx)

/-- The step of one core in a round that did not fail: the core is as it was when the round began,
    and the other steps are those of other cores. -/
theorem stepCores_reaches {k : Nat} (ks : List Nat) {events : List Event} {s s' : RiscvSimulator}
    (hk : k ∈ ks) (hnodup : ks.Nodup) (h : (stepCores ks).run s = .ok events s')
    (hr : s'.rcode = 0) :
    ∃ e s₁ s₂ xs ys, (k, e) ∈ events ∧ Run s xs s₁ ∧ s₁.cores[k]? = s.cores[k]? ∧
      (s.debugServer = none → s₁.debugServer = none) ∧ (stepCore k).run s₁ = .ok e s₂ ∧
      s₂.rcode = 0 ∧ Run s₂ ys s' ∧ (∀ x ∈ xs, x.k ≠ k) ∧ ∀ y ∈ ys, y.k ≠ k := by
  induction ks generalizing events s with
  | nil => cases hk
  | cons j ks ih =>
    obtain ⟨hj, hks⟩ := List.nodup_cons.mp hnodup
    obtain ⟨e, later, s₁, hstep, hlater, rfl⟩ := stepCores_cons_of_rcode h hr
    by_cases hjk : j = k
    · subst hjk
      obtain ⟨ys, hys, hmem⟩ := runs_of_stepCores ks hlater hr
      exact ⟨e, s, s₁, [], ys, List.mem_cons_self, .refl s, rfl, id, hstep,
        rcode_of_stepCores hlater hr, hys, by simp,
        fun y hy hyk => hj (hyk ▸ hmem y hy)⟩
    · have hk' : k ∈ ks := (List.mem_cons.mp hk).resolve_left (Ne.symm hjk)
      obtain ⟨e', s₂, s₃, xs, ys, hmem, hxs, hcore, hserver, hstep', hr', hys, hne, hne'⟩ :=
        ih hk' hks hlater
      obtain ⟨zs, hzs, hzj⟩ := runs_of_stepCore hstep
      refine ⟨e', s₂, s₃, zs ++ xs, ys, List.mem_cons_of_mem _ hmem, hzs.trans hxs,
        hcore.trans (cores_stepCore hstep hjk), fun hd => hserver (stepCore_alone hd hstep).1,
        hstep', hr', hys, fun x hx => ?_, hne'⟩
      rcases List.mem_append.mp hx with hx | hx
      · rw [hzj x hx]
        exact hjk
      · exact hne x hx

/-! ### An interrupt waits for one round -/

/-- A delivered interrupt starts at its vector. -/
theorem Execution.Delivers.vector {x : Execution} {e : SimExceptions} (h : x.Delivers e) :
    x.pc = (x.core.mtvec + RiscvState.causeOf e * 4).setWidth 32 := by
  obtain ⟨storage, work, hpending, hprocess, hfetched⟩ := h
  have hmtvec : (RiscvState.copy storage x.core).mtvec = x.core.mtvec :=
    RiscvState.read_update_of_plain _ _ (by decide) (by decide) (by decide)
  generalize RiscvState.copy storage x.core = s at hpending hprocess hmtvec
  rw [hfetched.pc_eq, ← hmtvec]
  rcases RiscvState.interruptPending_some hpending with ⟨rfl, -⟩ | ⟨rfl, -, -⟩
  · rw [← Except.ok.inj hprocess, RiscvState.pc_takeInterrupt _ _ (.inl rfl)]
  · rw [← Except.ok.inj hprocess, RiscvState.pc_takeInterrupt _ _ (.inr rfl)]

/-- What the devices have due at the end of a round is pending on core 0. -/
theorem mip_of_turn {s t : RiscvSimulator} {ready ready' : List Nat} {events : List Event}
    {core : RiscvState} {e : SimExceptions} (h : (turn ready).run s = .ok (events, ready') t)
    (hdue : e ∈ t.memory.deviceObjects.due) (hcore : t.cores[0]? = some core) :
    core.mip.getLsbD (RiscvState.causeOf e).toNat := by
  obtain ⟨s₁, s₂, -, hserve, hget⟩ := turn_ok h
  obtain ⟨rfl, -, -⟩ := getReadyCpus_ok hget
  obtain ⟨timer, uart1, calls, rfl, -, -⟩ := serviceDevices_ok hserve
  dsimp only at hcore hdue
  cases hcores : s₁.cores with
  | nil => rw [hcores] at hcore; cases hcore
  | cons first cores =>
    rw [hcores] at hcore
    obtain rfl := Option.some.inj hcore
    exact RiscvState.mip_of_signalled (Devices.mem_due hdue) hdue first

/-- Core 0 took interrupt `e`: its only instruction between `s` and `s'`, on the core as it was, is
    the one at the vector. -/
structure Takes (e : SimExceptions) (s : RiscvSimulator) (core : RiscvState) (s' : RiscvSimulator)
    (before : List Execution) (x : Execution) (after : List Execution) : Prop where
  run : Run s (before ++ x :: after) s'
  others : ∀ y ∈ before ++ after, y.k ≠ 0
  first : x.k = 0
  core_eq : x.core = core
  delivers : x.Delivers e
  vector : x.pc = (core.mtvec + RiscvState.causeOf e * 4).setWidth 32

/-- The next round steps a core 0 with an enabled interrupt pending, and the step takes it. -/
theorem takes_of_turn {t t' : RiscvSimulator} {ready ready' : List Nat} {events : List Event}
    {core : RiscvState} {e : SimExceptions} (hlist : t.ReadyList ready)
    (hcore : t.cores[0]? = some core) (he : core.interruptPending = some e)
    (hend : core.endTest = false) (h : (turn ready).run t = .ok (events, ready') t')
    (hr : t'.rcode = 0) :
    (t.debugServer ≠ none ∧ (0, .returned .refused) ∈ events) ∨
      (0, .executed) ∈ events ∧ ∃ before x after, Takes e t core t' before x after := by
  have hready : core.ready = true := by simp [RiscvState.ready, hend, he]
  have hmem : 0 ∈ ready := (hlist.mem_iff 0).mpr ⟨core, hcore, hready⟩
  obtain ⟨s₁, s₂, hsteps, hserve, hget⟩ := turn_ok h
  have hr₁ : s₁.rcode = 0 := (sameServer_after_steps hserve hget).2.symm.trans hr
  obtain ⟨how, u, u', xs, ys, hevent, hxs, hcoreu, hserver, hstep, hru, hys, hbefore, hafter⟩ :=
    stepCores_reaches ready hmem hlist.nodup hsteps hr₁
  rw [hcore] at hcoreu
  rcases stepCore_ready hcoreu hready hstep with rfl | hfailed | rfl
  · obtain ⟨x, hxk, hx⟩ := SimStep.of_executed hstep
    obtain ⟨core₁, core₂, hcore₁, -, hcommits⟩ := hx.commits
    rw [hxk, hcoreu] at hcore₁
    obtain rfl := Option.some.inj hcore₁
    have hdelivers := hcommits.delivers he
    have hvector := hdelivers.vector
    rw [hcommits.core_eq] at hvector
    have hrest : Run u (x :: ys) t' :=
      ((((Trace.Run.single hx).trans hys).tail_silent (.clock s₁)).tail_silent
        (.devices hserve)).tail_silent (.ready hget)
    refine .inr ⟨hevent, xs, x, ys, hxs.trans hrest, fun y hy => ?_, hxk, hcommits.core_eq,
      hdelivers, hvector⟩
    exact (List.mem_append.mp hy).elim (hbefore y) (hafter y)
  · rw [hru] at hfailed
    cases hfailed
  · refine .inl ⟨fun hd => ?_, hevent⟩
    obtain ⟨r, u₁, hprep, hrest⟩ := Effect.ok_of_bind hstep
    obtain ⟨-, -, -, hrefused, -⟩ := prepare_alone (hserver hd) hprep
    cases r with
    | error why => cases hrest; exact hrefused rfl
    | ok r =>
      obtain ⟨core', pc, i⟩ := r
      obtain ⟨i', u₂, -, hrest⟩ := Effect.ok_of_bind hrest
      obtain ⟨_, u₃, -, hrest⟩ := Effect.ok_of_bind hrest
      cases hrest

/-- An interrupt that a device has pending at the end of a round, and that core 0 has enabled, is
    delivered in the next round, before core 0 does anything else: asleep or awake, core 0 is stepped,
    and starts at the vector of the external interrupt if that is among those pending and enabled,
    else at the vector of the timer interrupt. Only a failure or a debug client can prevent it. -/
theorem due_interrupt_is_delivered_next {s t t' : RiscvSimulator} {ready ready' ready'' : List Nat}
    {events events' : List Event} {core : RiscvState} {e : SimExceptions}
    (hturn : (turn ready).run s = .ok (events, ready') t)
    (hdue : e ∈ t.memory.deviceObjects.due) (hcore : t.cores[0]? = some core)
    (hend : core.endTest = false) (hmie : core.globalInterruptsEnabled)
    (henabled : core.mie.getLsbD (RiscvState.causeOf e).toNat)
    (hnext : (turn ready').run t = .ok (events', ready'') t') (hr : t'.rcode = 0) :
    (t.debugServer ≠ none ∧ (0, .returned .refused) ∈ events') ∨
      (0, .executed) ∈ events' ∧ (e = .machineExternalInt → core.enabledAndPending 11) ∧
        ∃ before x after, Takes
          (if core.enabledAndPending 11 then .machineExternalInt else .machineTimerInt)
          t core t' before x after := by
  have hpending := mip_of_turn hturn hdue hcore
  have hfirst : e = .machineExternalInt → core.enabledAndPending 11 := by
    rintro rfl
    exact ⟨hmie, hpending, henabled⟩
  have htaken : core.interruptPending
      = some (if core.enabledAndPending 11 then .machineExternalInt else .machineTimerInt) := by
    rw [RiscvState.interruptPending_eq]
    split
    · rfl
    · next hext =>
      rcases Devices.mem_due hdue with rfl | rfl
      · have htimer : core.enabledAndPending 7 := ⟨hmie, hpending, henabled⟩
        rw [if_pos htimer]
      · exact absurd (hfirst rfl) hext
  rcases takes_of_turn (readyList_of_turn hturn) hcore htaken hend hnext hr with
    hrefused | ⟨hexecuted, htakes⟩
  · exact .inl hrefused
  · exact .inr ⟨hexecuted, hfirst, htakes⟩

/-- A core that is asleep at 0x80000000, a timer that expires after `ticks` rounds, and a NOP in the
    vector of its interrupt. -/
def clockedMachine (ticks : U64) : RiscvSimulator :=
  let s := init { devices := [(0x2000000, "MACHINE_TIMER")] } (.simple 0x8000001c [0x13, 0, 0, 0] {})
  let m := (s.host.loadTestImage s.memory).2
  { s with
    memory := { m with
      deviceObjects := { m.deviceObjects with
        timer := { m.deviceObjects.timer with timerCompare := ticks } } }
    cores := [{
      pc := 0x80000000
      machineState := 0x13
      reg := fun
        | .mtvec => 0x80000000
        | .mstatus => 0x8
        | .mie => 0x80
        | _ => 0 }] }

/-- The timer expires in the first round, and the second delivers its interrupt. -/
theorem clockedMachine_delivers : ∃ (t t' : RiscvSimulator) (core : RiscvState)
    (before after : List Execution) (x : Execution),
    (turn []).run (clockedMachine 1) = .ok ([], [0]) t ∧
    (turn [0]).run t = .ok ([(0, .executed)], [0]) t' ∧
    Takes .machineTimerInt t core t' before x after := by
  obtain ⟨s, hs⟩ : ∃ s, s = clockedMachine 1 := ⟨_, rfl⟩
  obtain ⟨hfirst, hsecond, hdue, hcore, hnone, hr⟩ :
      Effect.result ((turn []).run s) = some ([], [0]) ∧
      Effect.result ((turn [0]).run (Effect.final ((turn []).run s))) = some ([(0, .executed)], [0]) ∧
      SimExceptions.machineTimerInt ∈ (Effect.final ((turn []).run s)).memory.deviceObjects.due ∧
      (Effect.final ((turn []).run s)).cores[0]?.map (fun core : RiscvState => (core.endTest,
        core.globalInterruptsEnabled, core.mie.getLsbD 7, decide (core.enabledAndPending 11)))
        = some (false, true, true, false) ∧
      (Effect.final ((turn []).run s)).debugServer.isNone ∧
      (Effect.final ((turn [0]).run (Effect.final ((turn []).run s)))).rcode = 0 := by
    subst hs
    decide +kernel
  obtain ⟨t, ht⟩ := Effect.ok_of_result hfirst
  rw [ht, Effect.final_ok] at hsecond hdue hcore hnone hr
  obtain ⟨t', ht'⟩ := Effect.ok_of_result hsecond
  rw [ht', Effect.final_ok] at hr
  obtain ⟨core, hfound, hview⟩ := Option.map_eq_some_iff.mp hcore
  simp only [Prod.mk.injEq, decide_eq_false_iff_not] at hview
  obtain ⟨hend, hmie, henabled, hext⟩ := hview
  rcases due_interrupt_is_delivered_next ht hdue hfound hend hmie henabled ht' hr with
    ⟨hserver, -⟩ | ⟨-, -, before, x, after, htakes⟩
  · exact absurd (Option.isNone_iff_eq_none.mp hnone) hserver
  · rw [if_neg hext] at htakes
    subst hs
    exact ⟨t, t', core, before, after, x, ht, ht', htakes⟩

/-! ### Sleeping until the timer expires -/

/-- No core is ready, core 0 waits for the timer, which has `d` ticks to go, and nothing else can wake
    anyone. -/
structure Waiting (s : RiscvSimulator) (core : RiscvState) (d : Nat) : Prop where
  goesOn : s.goesOn []
  idle : ∀ k, ¬ s.IsReady k
  first : s.cores[0]? = some core
  running : core.endTest = false
  mie : core.globalInterruptsEnabled
  enabled : core.mie.getLsbD 7
  implemented : s.memory.deviceObjects.timer.isImplemented = true
  advance : s.memory.deviceObjects.timer.timerAdvance = 1
  ticks : s.memory.deviceObjects.timer.timer.toNat + d
    = s.memory.deviceObjects.timer.timerCompare.toNat
  uart : s.memory.deviceObjects.uart1.isImplemented = false

/-- No enabled interrupt is pending on the core that waits. -/
theorem Waiting.not_wakeable {s : RiscvSimulator} {core : RiscvState} {d : Nat}
    (h : Waiting s core d) : ¬ core.Wakeable := by
  intro hw
  refine h.idle 0 ⟨core, h.first, ?_⟩
  simp [RiscvState.ready, h.running, (RiscvState.interruptPending_isSome core).mpr hw]

/-- The timer interrupt is pending and enabled once it is signalled, and the external one is not. -/
theorem Waiting.signalled {s : RiscvSimulator} {core : RiscvState} {d : Nat}
    (h : Waiting s core d) :
    (core.signal .machineTimerInt).interruptPending = some .machineTimerInt := by
  have hmie : (core.signal .machineTimerInt).globalInterruptsEnabled :=
    (RiscvState.globalInterruptsEnabled_congr (by simp [RiscvState.signal, RiscvState.setMip,
      RiscvState.write])).trans h.mie
  have hsame : (core.signal .machineTimerInt).mie = core.mie := by
    simp [RiscvState.signal, RiscvState.setMip, RiscvState.write, RiscvState.mie, RiscvState.read]
  have hpending : (core.signal .machineTimerInt).mip.getLsbD 7 :=
    RiscvState.mip_signal (.inl rfl) core
  have htimer : (core.signal .machineTimerInt).enabledAndPending 7 :=
    ⟨hmie, hpending, by rw [hsame]; exact h.enabled⟩
  have hext : ¬ (core.signal .machineTimerInt).enabledAndPending 11 := by
    rintro ⟨-, hp, he⟩
    refine h.not_wakeable (.inl ⟨h.mie, ?_, by rw [hsame] at he; exact he⟩)
    simpa [RiscvState.signal, RiscvState.mip, RiscvState.setMip, RiscvState.write, RiscvState.read,
      RiscvState.shown, RiscvState.legal] using hp
  rw [RiscvState.interruptPending_eq, if_neg hext, if_pos htimer]

theorem Waiting.endTest_signal {s : RiscvSimulator} {core : RiscvState} {d : Nat}
    (h : Waiting s core d) : (core.signal .machineTimerInt).endTest = false := by
  obtain ⟨mip, hmip⟩ := core.foldl_signal [.machineTimerInt]
  have hsignal : core.signal .machineTimerInt
      = { core with reg := Function.update core.reg .mip mip } := hmip
  rw [hsignal]
  exact h.running

/-- A round in which nobody is ready serves the devices. -/
theorem serves_of_turn_nil {s t : RiscvSimulator} {events : List Event} {ready : List Nat}
    (h : (turn []).run s = .ok (events, ready) t) :
    events = [] ∧ t.debugServer = s.debugServer ∧
      t.cores = s.cores.modifyHead (fun core =>
        t.memory.deviceObjects.due.foldl RiscvState.signal core) ∧
      t.memory.deviceObjects.timer = (if s.memory.deviceObjects.timer.isImplemented
        then s.memory.deviceObjects.timer.advanceTimer else s.memory.deviceObjects.timer) ∧
      (s.memory.deviceObjects.uart1.isImplemented = false →
        t.memory.deviceObjects.uart1 = s.memory.deviceObjects.uart1) := by
  obtain ⟨s₁, s₂, hsteps, hserve, hget⟩ := turn_ok h
  cases hsteps
  obtain ⟨timer, uart1, calls, rfl, htimer, huart⟩ := serviceDevices_ok hserve
  obtain ⟨rfl, -, -⟩ := getReadyCpus_ok hget
  exact ⟨rfl, rfl, rfl, htimer, huart⟩

theorem silent_of_turn_nil {s t : RiscvSimulator} {r : List Event × List Nat}
    (h : (turn []).run s = .ok r t) : Run s [] t := by
  obtain ⟨events, ready⟩ := r
  obtain ⟨s₁, s₂, hsteps, hserve, hget⟩ := turn_ok h
  cases hsteps
  exact (((Trace.Run.refl s).tail_silent (.clock s)).tail_silent (.devices hserve)).tail_silent
    (.ready hget)

theorem Takes.of_silent {e : SimExceptions} {s t s' : RiscvSimulator} {core : RiscvState}
    {before after : List Execution} {x : Execution} (hsilent : Run s [] t)
    (h : Takes e t core s' before x after) : Takes e s core s' before x after :=
  ⟨hsilent.trans h.run, h.others, h.first, h.core_eq, h.delivers, h.vector⟩

theorem Waiting.cores_eq {s : RiscvSimulator} {core : RiscvState} {d : Nat}
    (h : Waiting s core d) : ∃ others, s.cores = core :: others := by
  have hfirst := h.first
  cases hcores : s.cores with
  | nil => rw [hcores] at hfirst; cases hfirst
  | cons first others =>
    rw [hcores] at hfirst
    obtain rfl := Option.some.inj hfirst
    exact ⟨others, rfl⟩

theorem Waiting.idle_of_turn {s t : RiscvSimulator} {core : RiscvState} {d : Nat}
    {events : List Event} {ready : List Nat} (h : Waiting s core d)
    (hturn : (RiscvSimulator.turn []).run s = .ok (events, ready) t) : Idle s t := by
  obtain ⟨others, hcores⟩ := h.cores_eq
  obtain ⟨s₁, s₂, hsteps, hserve, hget⟩ := turn_ok hturn
  cases hsteps
  exact idle_of_tick (by rw [hcores]; exact List.cons_ne_nil _ _) hserve hget

/-- The timer before it expires: nothing is due, and nobody becomes ready. -/
theorem Waiting.turn_early {s t : RiscvSimulator} {core : RiscvState} {d : Nat}
    {events : List Event} {ready : List Nat} (h : Waiting s core (d + 1)) (hd : d ≠ 0)
    (hturn : (turn []).run s = .ok (events, ready) t) : ready = [] ∧ Waiting t core d := by
  obtain ⟨-, -, hcores, htimer, huart⟩ := serves_of_turn_nil hturn
  rw [if_pos h.implemented] at htimer
  replace huart := huart h.uart
  obtain ⟨hcount, hpending⟩ := MachineTimer.advanceTimer_expires h.advance h.ticks
  have hdue : t.memory.deviceObjects.due = [] := by
    simp [Devices.due, htimer, huart, h.uart, hpending, hd]
  rw [hdue] at hcores
  replace hcores : t.cores = s.cores := hcores.trans (modifyHead_self _)
  have hnone : ∀ k, ¬ t.IsReady k := by
    rintro k ⟨c, hc, hready⟩
    rw [hcores] at hc
    exact h.idle k ⟨c, hc, hready⟩
  refine ⟨List.eq_nil_iff_forall_not_mem.mpr fun k hk =>
    hnone k (((readyList_of_turn hturn).mem_iff k).mp hk), ?_, hnone, ?_, h.running, h.mie, h.enabled,
    ?_, ?_, ?_, ?_⟩
  · rw [(h.idle_of_turn hturn).goesOn]
    exact h.goesOn
  · rw [hcores]
    exact h.first
  · rw [htimer]
    exact h.implemented
  · rw [htimer]
    exact h.advance
  · have hticks := h.ticks
    rw [htimer, hcount]
    change _ = s.memory.deviceObjects.timer.timerCompare.toNat
    omega
  · rw [huart]
    exact h.uart

/-- The timer expires: core 0 is signalled, and is the only one that is ready. -/
theorem Waiting.turn_expires {s t : RiscvSimulator} {core : RiscvState} {events : List Event}
    {ready : List Nat} (h : Waiting s core 1) (hturn : (turn []).run s = .ok (events, ready) t) :
    ready = [0] ∧ t.goesOn [0] ∧ t.cores[0]? = some (core.signal .machineTimerInt) := by
  obtain ⟨-, -, hcores, htimer, huart⟩ := serves_of_turn_nil hturn
  rw [if_pos h.implemented] at htimer
  replace huart := huart h.uart
  obtain ⟨-, hpending⟩ := MachineTimer.advanceTimer_expires (d := 0) h.advance h.ticks
  have himpl : s.memory.deviceObjects.timer.advanceTimer.isImplemented = true := h.implemented
  have hdue : t.memory.deviceObjects.due = [.machineTimerInt] := by
    simp [Devices.due, htimer, huart, h.uart, hpending, himpl]
  obtain ⟨others, hothers⟩ := h.cores_eq
  rw [hdue, hothers] at hcores
  replace hcores : t.cores = core.signal .machineTimerInt :: others := hcores
  have hlist := readyList_of_turn hturn
  have honly : ∀ k, k ∈ ready ↔ k ∈ [0] := by
    intro k
    rw [hlist.mem_iff, List.mem_singleton]
    constructor
    · rintro ⟨c, hc, hready⟩
      rw [hcores] at hc
      cases k with
      | zero => rfl
      | succ k => exact absurd ⟨c, by rw [hothers]; exact hc, hready⟩ (h.idle (k + 1))
    · rintro rfl
      refine ⟨core.signal .machineTimerInt, by rw [hcores]; rfl, ?_⟩
      simp [RiscvState.ready, h.endTest_signal, h.signalled]
  refine ⟨List.perm_singleton.mp ((List.perm_ext_iff_of_nodup hlist.nodup
    (List.nodup_singleton 0)).mpr honly), ?_, by rw [hcores]; rfl⟩
  have hgo := h.goesOn
  rw [← (h.idle_of_turn hturn).goesOn] at hgo
  simp only [RiscvSimulator.goesOn, Bool.and_eq_true] at hgo ⊢
  exact ⟨hgo.1, rfl⟩

/-- A core that waits for the timer, which has `d` ticks to go, is left alone for exactly `d` rounds,
    in which nothing is executed. In the round after them it is the only one to be stepped, and it
    takes the timer interrupt. -/
theorem alarm_rings_on_time {s s' : RiscvSimulator} {core : RiscvState} {d : Nat} {left : Bool}
    {events : List Event} (hwaiting : Waiting s core d) (hd : 0 < d)
    (hloop : (loop (d + 1) []).run s = .ok (left, events) s') (hr : s'.rcode = 0) :
    (rounds (d + 1) [] s).map Prod.snd = List.replicate d [] ++ [[0]] ∧
      ((s.debugServer ≠ none ∧ events = [(0, .returned .refused)]) ∨
        events = [(0, .executed)] ∧ ∃ before x after,
          Takes .machineTimerInt s (core.signal .machineTimerInt) s' before x after) := by
  induction d generalizing s events left with
  | zero => omega
  | succ d ih =>
    obtain ⟨first, ready, t, ⟨left', later⟩, hturn, hrest⟩ := turn_of_loop hwaiting.goesOn hloop
    rw [loop_cons hwaiting.goesOn hturn, hrest] at hloop
    obtain ⟨rfl, hserver, -⟩ := serves_of_turn_nil hturn
    cases hloop
    rw [rounds_cons hwaiting.goesOn hturn, List.map_cons, List.replicate_succ, List.cons_append,
      List.nil_append, ← hserver]
    by_cases hzero : d = 0
    · subst hzero
      obtain ⟨rfl, hgo, hcore⟩ := hwaiting.turn_expires hturn
      obtain ⟨steps, ready', t', r', hturn', hleft⟩ := turn_of_loop hgo hrest
      rw [loop_cons hgo hturn', hleft] at hrest
      cases hleft
      cases hrest
      refine ⟨by rw [rounds_cons hgo hturn']; rfl, ?_⟩
      have hone := (turn_order hturn').2 hr
      obtain ⟨step, rfl⟩ : ∃ step, steps = [step] := List.length_eq_one_iff.mp (by
        rw [← List.length_map, hone]
        rfl)
      rw [List.append_nil]
      rcases takes_of_turn (readyList_of_turn hturn) hcore hwaiting.signalled
        hwaiting.endTest_signal hturn' hr with ⟨hd', hmem⟩ | ⟨hmem, before, x, after, htakes⟩
      · rw [List.mem_singleton] at hmem
        exact .inl ⟨hd', by rw [← hmem]⟩
      · rw [List.mem_singleton] at hmem
        exact .inr ⟨by rw [← hmem], before, x, after, htakes.of_silent (silent_of_turn_nil hturn)⟩
    · obtain ⟨rfl, hwaiting'⟩ := hwaiting.turn_early hzero hturn
      obtain ⟨hrounds, hends⟩ := ih hwaiting' (Nat.pos_of_ne_zero hzero) hrest
      refine ⟨congrArg (List.cons []) hrounds, hends.imp_right ?_⟩
      rintro ⟨hevents, before, x, after, htakes⟩
      exact ⟨hevents, before, x, after, htakes.of_silent (silent_of_turn_nil hturn)⟩

/-- The timer expires in the third round, and the fourth delivers its interrupt. -/
theorem clockedMachine_rings : ∃ (s' : RiscvSimulator) (left : Bool) (core : RiscvState)
    (before after : List Execution) (x : Execution),
    (loop 4 []).run (clockedMachine 3) = .ok (left, [(0, .executed)]) s' ∧
    (rounds 4 [] (clockedMachine 3)).map Prod.snd = [[], [], [], [0]] ∧
    Takes .machineTimerInt (clockedMachine 3) (core.signal .machineTimerInt) s' before x after := by
  obtain ⟨s, hs⟩ : ∃ s, s = clockedMachine 3 := ⟨_, rfl⟩
  obtain ⟨hevents, hr, hnone⟩ :
      (Effect.result ((loop 4 []).run s)).map Prod.snd = some [(0, .executed)] ∧
      (Effect.final ((loop 4 []).run s)).rcode = 0 ∧ s.debugServer.isNone := by
    subst hs
    decide +kernel
  obtain ⟨core, hcores, hready⟩ : ∃ core, s.cores = [core] ∧ core.ready = false := by
    subst hs
    exact ⟨_, rfl, by decide +kernel⟩
  have hwaiting : Waiting s core 3 := by
    have hfirst : s.cores[0]? = some core := by rw [hcores]; rfl
    refine ⟨?_, fun k => ?_, hfirst, ?_, ?_, ?_, ?_, ?_, ?_, ?_⟩
    · subst hs
      decide +kernel
    · rintro ⟨c, hc, hc'⟩
      rw [hcores] at hc
      obtain rfl := List.mem_singleton.mp (List.mem_of_getElem? hc)
      rw [hready] at hc'
      cases hc'
    all_goals
      subst hs
      obtain rfl := (List.cons.inj hcores).1
      decide +kernel
  cases hloop : (loop 4 []).run s with
  | error f s' => rw [hloop] at hevents; cases hevents
  | ok r s' =>
    obtain ⟨left, events⟩ := r
    rw [hloop, Effect.final_ok] at hr
    rw [hloop] at hevents
    obtain rfl : events = [(0, .executed)] := Option.some.inj hevents
    obtain ⟨hrounds, ⟨hserver, -⟩ | ⟨-, before, x, after, htakes⟩⟩ :=
      alarm_rings_on_time hwaiting (by decide) hloop hr
    · exact absurd (Option.isNone_iff_eq_none.mp hnone) hserver
    · subst hs
      exact ⟨s', left, core, before, after, x, hloop, hrounds, htakes⟩

end RiscvSimulator

end Dimebox
