import Dimebox.Polling

/-! Debug sessions.

    A round is what the server sees of one call of `StepCore`: the check before the step, the
    execution, the check after it. The core, the memory and the PC it is called with are arbitrary.
    A session is a sequence of rounds; it ends with a round that throws. `go_session` says that the
    server of every run of `Go` goes through a session. -/

namespace Dimebox

namespace DebugServer

/-! ### The checks -/

/-- Why `PreStepChecks` polls, and what it sends before. -/
inductive Stops (s : DebugSession) : List Event → Prop where
  | start (h : s.server.atStart = true ∨ s.server.doStep = true) : Stops s []
  | hit {log : List Event} (started : s.server.atStart = false) (free : s.server.doStep = false)
      (hit : s.server.breakpointHit s.pc = true)
      (sent : log = [.sent (stopReply s.cpu s.pc)] ∨ log = [.failed]) : Stops s log

/-- What `PreStepChecks` did. -/
inductive Checked (s : DebugSession) : Bool → List Event → DebugSession → Prop where
  | passed (started : s.server.atStart = false) (free : s.server.doStep = false)
      (miss : s.server.breakpointHit s.pc = false) : Checked s true [] s
  | polled {ack log : List Event} {s₁ s' : DebugSession} (stops : Stops s ack)
      (flags : s₁.server.flags = { s.server.flags with
        atStart := false, listening := true, doStep := s.server.atStart && s.server.doStep })
      (polled : Polled s₁ log s') :
      Checked s (!s'.server.doShutdown) (ack ++ .listening s₁.server.serverSocket :: log) s'

theorem pollLogged_polled {s s' : DebugSession} {goOn : Bool} {log : List Event}
    (h : pollLogged.run s = .ok (goOn, log) s') (hd : s.server.deferResponse = false) :
    ∃ s₁ later, s₁.server.flags = { s.server.flags with listening := true } ∧
      s₁.server.serverSocket = s.server.serverSocket ∧ Polled s₁ later s' ∧
      goOn = !s'.server.doShutdown ∧ log = .listening s₁.server.serverSocket :: later := by
  obtain ⟨_, s₁, hlisten, h⟩ := Effect.ok_of_bind h
  cases hlisten
  obtain ⟨s₂, s₃, hget, h⟩ := Effect.ok_of_bind h
  cases hget
  obtain ⟨later, s₄, hloop, h⟩ := Effect.ok_of_bind h
  obtain ⟨s₅, s₆, hget, h⟩ := Effect.ok_of_bind h
  cases hget
  cases h
  refine ⟨_, later, ?_, ?_, pollLoopLogged_polled _ (Nat.lt_succ_self _) ?_ ?_ hloop, rfl, rfl⟩
  · rfl
  · rfl
  · rfl
  · exact hd

theorem acknowledgeLogged_ok {pc : U64} {s s' : DebugSession} {log : List Event}
    (h : (acknowledgeLogged pc).run s = .ok log s') :
    (log = [.sent (stopReply s.cpu pc)] ∨ log = [.failed]) ∧
      ∃ listening, s'.server.flags = { s.server.flags with listening } := by
  obtain ⟨s₁, s₂, hget, h⟩ := Effect.ok_of_bind h
  cases hget
  obtain ⟨⟨b, log'⟩, s₃, hwrite, h⟩ := Effect.ok_of_bind h
  cases h
  rcases writeLogged_ok hwrite with ⟨-, -, rfl, hf⟩ | ⟨-, -, rfl, hf, -⟩
  · exact ⟨.inr rfl, _, hf⟩
  · exact ⟨.inl rfl, _, hf⟩

theorem preStepLogged_checked {s s' : DebugSession} {goOn : Bool} {log : List Event}
    (hd : s.server.deferResponse = false) (h : preStepLogged.run s = .ok (goOn, log) s') :
    Checked s goOn log s' := by
  rw [preStepLogged, EStateM.run_bind, EStateM.run_get] at h
  dsimp only at h
  have hmatch : s.server.coreMatch s.server.core = true := decide_eq_true rfl
  cases hstart : s.server.atStart with
  | true =>
    rw [hstart, if_pos rfl] at h
    obtain ⟨_, s₁, hmodify, h⟩ := Effect.ok_of_bind h
    cases hmodify
    obtain ⟨s₂, later, hflags, -, hpolled, rfl, rfl⟩ := pollLogged_polled h hd
    refine .polled (.start (.inl hstart)) ?_ hpolled
    rw [hflags]
    simp [flags, hstart]
  | false =>
    rw [hstart, if_neg Bool.false_ne_true, hmatch, if_neg (by decide)] at h
    cases hstep : s.server.doStep with
    | true =>
      rw [hstep, if_pos rfl] at h
      obtain ⟨_, s₁, hmodify, h⟩ := Effect.ok_of_bind h
      cases hmodify
      obtain ⟨s₂, later, hflags, -, hpolled, rfl, rfl⟩ := pollLogged_polled h hd
      refine .polled (.start (.inr hstep)) ?_ hpolled
      rw [hflags]
      simp [flags, hstart]
    | false =>
      rw [hstep, if_neg Bool.false_ne_true] at h
      cases hhit : s.server.breakpointHit s.pc with
      | true =>
        rw [hhit, if_pos rfl] at h
        obtain ⟨ack, s₁, hack, h⟩ := Effect.ok_of_bind h
        obtain ⟨⟨goOn', log'⟩, s₂, hpoll, h⟩ := Effect.ok_of_bind h
        cases h
        obtain ⟨hsent, listening, hflags₁⟩ := acknowledgeLogged_ok hack
        obtain ⟨s₂, later, hflags, -, hpolled, rfl, rfl⟩ := pollLogged_polled hpoll
          ((congrArg Flags.deferResponse hflags₁).trans hd)
        refine .polled (.hit hstart hstep hhit hsent) ?_ hpolled
        rw [hflags, hflags₁]
        simp [flags, hstart, hstep]
      | false =>
        rw [hhit, if_neg Bool.false_ne_true] at h
        cases h
        exact .passed hstart hstep hhit

/-- What `PostStepChecks` did. -/
theorem postStepLogged_ok {s s' : DebugSession} {goOn : Bool} {log : List Event}
    (hstart : s.server.atStart = false) (h : postStepLogged.run s = .ok (goOn, log) s') :
    (∃ listening, s'.server.flags = { s.server.flags with listening }) ∧
      (s.server.doStep = false ∧ log = [] ∨ s.server.doStep = true ∧
        (log = [.sent (stopReply s.cpu s.pc)] ∨ log = [.failed])) := by
  rw [postStepLogged, EStateM.run_bind, EStateM.run_get] at h
  dsimp only at h
  have hmatch : s.server.coreMatch s.server.core = true := decide_eq_true rfl
  rw [hstart, if_neg Bool.false_ne_true, hmatch, Bool.true_and] at h
  cases hstep : s.server.doStep with
  | false =>
    rw [hstep, if_neg Bool.false_ne_true] at h
    cases h
    exact ⟨⟨_, rfl⟩, .inl ⟨rfl, rfl⟩⟩
  | true =>
    rw [hstep, if_pos rfl] at h
    obtain ⟨ack, s₁, hack, h⟩ := Effect.ok_of_bind h
    cases h
    obtain ⟨hsent, hflags⟩ := acknowledgeLogged_ok hack
    exact ⟨hflags, .inr ⟨rfl, hsent⟩⟩

/-! ### Flags -/

/-- `Poll` leaves the flags that do not concern it. -/
theorem Polled.kept {s s' : DebugSession} {log : List Event} (h : Polled s log s') :
    s'.server.atStart = s.server.atStart ∧
      s'.server.deferResponse = s.server.deferResponse := by
  induction h with
  | last hended =>
    cases hended with
    | failed _ _ _ hf => exact ⟨congrArg Flags.atStart hf, congrArg Flags.deferResponse hf⟩
    | resumed _ _ hf => exact ⟨congrArg Flags.atStart hf, congrArg Flags.deferResponse hf⟩
  | next hord _ ih =>
    exact ⟨ih.1.trans (congrArg Flags.atStart hord.flags),
      ih.2.trans (congrArg Flags.deferResponse hord.flags)⟩

theorem Checked.kept {s s' : DebugSession} {goOn : Bool} {log : List Event}
    (h : Checked s goOn log s') :
    s'.server.atStart = false ∧ s'.server.deferResponse = s.server.deferResponse := by
  cases h with
  | passed started => exact ⟨started, rfl⟩
  | polled _ hf hpolled =>
    exact ⟨hpolled.kept.1.trans (congrArg Flags.atStart hf),
      hpolled.kept.2.trans (congrArg Flags.deferResponse hf)⟩

/-- The checks execute nothing. -/
theorem Checked.executed_not_mem {s s' : DebugSession} {goOn : Bool} {log : List Event}
    (h : Checked s goOn log s') : .executed ∉ log := by
  cases h with
  | passed => simp
  | @polled ack log s₁ s' stops _ hpolled =>
    have hlog : .executed ∉ log := fun h =>
      absurd (List.all_eq_true.mp hpolled.all_exchanged _ h) Bool.false_ne_true
    have hack : .executed ∉ ack := by
      cases stops with
      | start => simp
      | hit _ _ _ hsent => rcases hsent with rfl | rfl <;> simp
    simp [hack, hlog]

/-! ### Rounds and sessions -/

/-- What the server `d` goes through in a call of `StepCore`: whether an instruction is executed,
    what can be seen, and the server afterwards, unless the call throws. -/
inductive Round (d : DebugServer) : Bool → List Event → Option DebugServer → Prop where
  /-- the core is asleep, or its instruction cannot be fetched -/
  | returned : Round d false [] (some d)
  | ended : Round d false [] none
  | refused {s s' : DebugSession} {log : List Event}
      (pre : preStepLogged.run s = .ok (false, log) s') (hs : s.server = d) :
      Round d false log (some s'.server)
  | broken {s s' : DebugSession} {f : Fault} (pre : preStepLogged.run s = .error f s')
      (hs : s.server = d) : Round d false [.failed] none
  | threw {s s' : DebugSession} {log : List Event}
      (pre : preStepLogged.run s = .ok (true, log) s') (hs : s.server = d) : Round d false log none
  | executed {s s₁ s₂ s' : DebugSession} {goOn : Bool} {log later : List Event}
      (pre : preStepLogged.run s = .ok (true, log) s₁) (hs : s.server = d)
      (post : postStepLogged.run s₂ = .ok (goOn, later) s') (hs₂ : s₂.server = s₁.server) :
      Round d true (log ++ .executed :: later) (some s'.server)

/-- A round of a server whose responses are not deferred. -/
theorem Round.count {d : DebugServer} {ran : Bool} {log : List Event} {o : Option DebugServer}
    (h : Round d ran log o) (hd : d.deferResponse = false) :
    log.count .executed = ran.toNat ∧ ∀ d' ∈ o, d'.deferResponse = false := by
  cases h with
  | returned => exact ⟨rfl, by simpa using hd⟩
  | ended => exact ⟨rfl, by simp⟩
  | refused pre hs =>
    subst hs
    have hchecked := preStepLogged_checked hd pre
    exact ⟨List.count_eq_zero.mpr hchecked.executed_not_mem, by simp [hchecked.kept.2, hd]⟩
  | broken => exact ⟨rfl, by simp⟩
  | threw pre hs =>
    subst hs
    have hchecked := preStepLogged_checked hd pre
    exact ⟨List.count_eq_zero.mpr hchecked.executed_not_mem, by simp⟩
  | @executed s s₁ s₂ s' goOn log later pre hs post hs₂ =>
    subst hs
    have hchecked := preStepLogged_checked hd pre
    obtain ⟨⟨listening, hf⟩, hlater⟩ := postStepLogged_ok (by rw [hs₂]; exact hchecked.kept.1) post
    have hcount : later.count .executed = 0 := by
      rcases hlater with ⟨-, rfl⟩ | ⟨-, rfl | rfl⟩ <;> rfl
    rw [List.count_append, List.count_cons_self, List.count_eq_zero.mpr hchecked.executed_not_mem,
      hcount]
    refine ⟨rfl, fun d' hd' => ?_⟩
    obtain rfl := Option.some.inj hd'
    have hdefer : s'.server.deferResponse = s₂.server.deferResponse :=
      congrArg Flags.deferResponse hf
    rw [hdefer, hs₂, hchecked.kept.2, hd]

/-- A session of the server `d`: what was seen of it, and the server now, unless a call threw. -/
inductive Session (d : DebugServer) : List Event → Option DebugServer → Prop where
  | start : Session d [] (some d)
  | round {d₁ : DebugServer} {o : Option DebugServer} {ran : Bool} {es log : List Event}
      (session : Session d es (some d₁)) (round : Round d₁ ran log o) : Session d (es ++ log) o

theorem Session.deferResponse {d : DebugServer} {es : List Event} {o : Option DebugServer}
    (h : Session d es o) (hd : d.deferResponse = false) : ∀ d' ∈ o, d'.deferResponse = false := by
  induction h with
  | start => simpa using hd
  | round _ hround ih => exact (hround.count (ih _ rfl)).2

/-- A session of one round, computed. -/
theorem Session.of_round {t : DebugSession} {goOn : Bool} {log later : List Event}
    (hpre : Effect.result (preStepLogged.run t) = some (true, log))
    (hpost : Effect.result (postStepLogged.run (Effect.final (preStepLogged.run t)))
      = some (goOn, later)) : ∃ d, Session t.server (log ++ .executed :: later) (some d) := by
  obtain ⟨s₁, hpre⟩ := Effect.ok_of_result hpre
  rw [hpre] at hpost
  obtain ⟨s', hpost⟩ := Effect.ok_of_result hpost
  exact ⟨s'.server, Session.start.round (.executed hpre rfl hpost rfl)⟩

end DebugServer

namespace RiscvSimulator

open DebugServer (preStepLogged postStepLogged Round Session)

/-! ### The server of a simulation -/

/-- The simulation has the server `d`. -/
def Serves (d : DebugServer) (s : RiscvSimulator) : Prop := s.debugServer = some d

/-- A check of the server that is run with a log. -/
theorem triple_debugChecks {checks : DebugM Bool} {logged : DebugM (Bool × List DebugServer.Event)}
    (herased : Prod.fst <$> logged = checks) (cpu : RiscvState) (pc : U32) (d : DebugServer) :
    Effect.Triple (Serves d) (debugChecks checks cpu pc)
      (fun r s => ∃ t t' log, logged.run t = .ok (r.1, log) t' ∧ t.server = d ∧ Serves t'.server s)
      fun _ _ => ∃ t f t', logged.run t = .error f t' ∧ t.server = d := by
  intro s hs
  rw [debugChecks, EStateM.run_bind, EStateM.run_get]
  dsimp only
  rw [show s.debugServer = some d from hs]
  dsimp only
  rw [Effect.run_focus, EStateM.run_bind, ← herased, ← bind_pure_comp, EStateM.run_bind]
  generalize ht : ({ server := d, cpu, memory := s.memory, pc := pc.setWidth 64 } :
    DebugSession) = t
  have hserver : t.server = d := by rw [← ht]
  cases hrun : logged.run t with
  | ok r t' => exact ⟨t, t', r.2, hrun, hserver, rfl⟩
  | error f t' => exact ⟨t, f, t', hrun, hserver⟩

/-- The check before the step has let the core go on. -/
def Passed (d : DebugServer) (s : RiscvSimulator) : Prop :=
  ∃ t t' log, preStepLogged.run t = .ok (true, log) t' ∧ t.server = d ∧ Serves t'.server s

/-- `StepCore` throws. -/
def Threw (d : DebugServer) (_ : Fault) (_ : RiscvSimulator) : Prop := ∃ log, Round d false log none

section Parts

variable {α : Type} {x : SimM α} (d : DebugServer)
  (hx : ∀ s, (Effect.final (x.run s)).debugServer = s.debugServer)
include hx

/-- A part of `StepCore` before the check. -/
theorem triple_serves : Effect.Triple (Serves d) x (fun _ => Serves d) (Threw d) :=
  Effect.triple_keep (fun s hs => (hx s).trans hs) fun _ _ _ => ⟨_, .ended⟩

/-- A part of `StepCore` after the check. -/
theorem triple_passed : Effect.Triple (Passed d) x (fun _ => Passed d) (Threw d) := by
  refine Effect.triple_keep (fun s hs => ?_) fun _ _ ⟨_, _, _, hrun, hserver, _⟩ =>
    ⟨_, .threw hrun hserver⟩
  obtain ⟨t, t', log, hrun, hserver, hs⟩ := hs
  exact ⟨t, t', log, hrun, hserver, (hx s).trans hs⟩

end Parts

theorem triple_prepare (k : Nat) (d : DebugServer) :
    Effect.Triple (Serves d) (prepare k)
      (fun r s => match r with
        | .error _ => ∃ log d', Round d false log (some d') ∧ Serves d' s
        | .ok _ => Passed d s) (Threw d) := by
  refine Effect.triple_bind (triple_serves d fun _ => rfl) fun call =>
    Effect.triple_bind (triple_serves d fun _ => rfl) fun s => ?_
  cases s.cores[k]? with
  | none => exact fun _ _ => ⟨_, .ended⟩
  | some core =>
    refine Effect.triple_bind (triple_serves d fun s₁ => ?_) fun work => ?_
    · cases serviceInterrupt (RiscvState.copy (s.host.storage call) core) <;> rfl
    dsimp only
    split
    · exact fun _ hs => ⟨_, _, .returned, hs⟩
    · refine Effect.triple_bind (triple_serves d fun s₁ => ?_) fun r => ?_
      · rw [tryFetch, onMemory, Effect.run_focus, Effect.final_mapState]
      cases r with
      | none => exact fun _ hs => ⟨_, _, .returned, hs⟩
      | some r =>
        refine Effect.triple_bind (triple_serves d fun _ => rfl) fun s₁ => ?_
        have hchecks := triple_debugChecks DebugServer.preStepLogged_erased work
          (work.pc.setWidth 32) d
        refine Effect.triple_bind (hchecks.weaken (fun _ _ h => h) ?_) fun r => ?_
        · rintro _ _ ⟨_, _, _, hrun, hserver⟩
          exact ⟨_, .broken hrun hserver⟩
        · obtain ⟨goOn, work'⟩ := r
          rintro s₂ ⟨t, t', log, hrun, hserver, hs⟩
          cases goOn with
          | false => exact ⟨_, _, .refused hrun hserver, hs⟩
          | true => exact ⟨t, t', log, hrun, hserver, hs⟩

theorem triple_commit (k : Nat) (core : RiscvState) (pc : U32) (i : RiscvInstruction)
    (d : DebugServer) :
    Effect.Triple (Passed d) (commit k core pc i)
      (fun _ s => ∃ log d', Round d true log (some d') ∧ Serves d' s) (Threw d) := by
  refine Effect.triple_bind (triple_passed d fun s => ?_) fun core => ?_
  · rw [writeback, Effect.run_focus, Effect.final_mapState]
  refine Effect.triple_bind (triple_passed d fun _ => rfl) fun s => ?_
  refine Effect.triple_bind (triple_passed d fun _ => rfl) fun _ => ?_
  refine Effect.triple_bind (triple_passed d fun s => ?_) fun _ => ?_
  · rw [countInstr, EStateM.run_bind, EStateM.run_get]
    dsimp only
    split
    · rfl
    · rfl
  · rintro s₁ ⟨t, t', log, hrun, hserver, hs⟩
    have hchecks := triple_debugChecks DebugServer.postStepLogged_erased
      (setEndTest s.simCfg.isaTest i.iclass pc core) pc t'.server
    refine Effect.triple_bind (Q := fun _ s => ∃ log d', Round d true log (some d') ∧ Serves d' s)
      (hchecks.weaken ?_ ?_) (fun _ _ h => h) s₁ hs
    · rintro r s₂ ⟨t₂, t₃, later, hpost, hserver₂, hs₂⟩
      exact ⟨_, _, .executed hrun hserver hpost hserver₂, hs₂⟩
    · exact fun _ _ _ => ⟨_, .threw hrun hserver⟩

/-- Every call of `StepCore` is a round. -/
theorem triple_stepCore (k : Nat) (d : DebugServer) :
    Effect.Triple (Serves d) (stepCore k)
      (fun e s => ∃ log d', Round d (e = .executed) log (some d') ∧ Serves d' s) (Threw d) := by
  refine Effect.triple_bind (triple_prepare k d) fun r => ?_
  cases r with
  | error why => exact fun _ h => h
  | ok r =>
    obtain ⟨core, pc, i⟩ := r
    refine Effect.triple_bind (triple_passed d fun s => ?_) fun i' => ?_
    · rw [execute, Effect.run_focus, Effect.final_mapState]
    · exact Effect.triple_bind (triple_commit k core pc i' d) fun _ _ h => h

/-! ### The loop of `Go` -/

/-- How many instructions a list of steps executed. -/
def executedCount (events : List Event) : Nat := events.countP (·.2 = .executed)

/-- The server of a simulation that started with `d` has gone through a session in which as many
    instructions were executed as in `events`, and is still there unless the simulation gives up. -/
def Followed (d : DebugServer) (events : List Event) (s : RiscvSimulator) : Prop :=
  ∃ es o, Session d es o ∧ es.count .executed = executedCount events ∧
    (s.rcode = 0 → ∃ d', o = some d' ∧ Serves d' s)

/-- The server and the return code stay. -/
def SameServer (s s' : RiscvSimulator) : Prop :=
  s'.debugServer = s.debugServer ∧ s'.rcode = s.rcode

theorem Followed.of_same {d : DebugServer} {events : List Event} {s s' : RiscvSimulator}
    (h : Followed d events s) (hs : SameServer s s') : Followed d events s' := by
  obtain ⟨es, o, hsession, hcount, ho⟩ := h
  refine ⟨es, o, hsession, hcount, fun hr => ?_⟩
  obtain ⟨d', rfl, hserves⟩ := ho (hs.2.symm.trans hr)
  exact ⟨d', rfl, hs.1.trans hserves⟩

theorem sameServer_serviceDevices : Effect.Moves SameServer serviceDevices := by
  refine moves_serviceDevices (fun _ => ⟨rfl, rfl⟩)
    (fun h h' => ⟨h'.1.trans h.1, h'.2.trans h.2⟩) (fun _ => ⟨rfl, rfl⟩) (fun _ _ => ⟨rfl, rfl⟩) ?_
  intro e s
  rw [signal, EStateM.run_bind, EStateM.run_get]
  dsimp only
  cases s.cores with
  | nil => exact ⟨rfl, rfl⟩
  | cons core cores => exact ⟨rfl, rfl⟩

/-- What follows the steps of a round. -/
theorem sameServer_after_steps {ready : List Nat} {s s₁ s' : RiscvSimulator}
    (hserve : serviceDevices.run { s with clock := s.clock + 1 } = .ok () s₁)
    (hget : getReadyCpus.run s₁ = .ok ready s') : SameServer s s' := by
  have hsame := sameServer_serviceDevices { s with clock := s.clock + 1 }
  rw [hserve] at hsame
  cases hget
  exact hsame

section Following

variable {d : DebugServer} (hd : d.deferResponse = false)
include hd

/-- A step that returned extends the session. -/
theorem Followed.step {events : List Event} {s s' : RiscvSimulator} {k : Nat} {e : StepEvent}
    (h : Followed d events s) (hr : s.rcode = 0) (hstep : (stepCore k).run s = .ok e s') :
    Followed d (events ++ [(k, e)]) s' := by
  obtain ⟨es, o, hsession, hcount, ho⟩ := h
  obtain ⟨d₁, rfl, hserves⟩ := ho hr
  obtain ⟨log, d', hround, hserves'⟩ := (triple_stepCore k d₁).ok hserves hstep
  refine ⟨es ++ log, some d', hsession.round hround, ?_, fun _ => ⟨d', rfl, hserves'⟩⟩
  rw [List.count_append, hcount, (hround.count (hsession.deferResponse hd _ rfl)).1]
  cases e with
  | executed => simp [executedCount]
  | returned why => simp [executedCount]

/-- A step that threw is the last one. -/
theorem Followed.throw {events : List Event} {s s' : RiscvSimulator} {k : Nat} {f : Fault}
    (h : Followed d events s) (hr : s.rcode = 0) (hstep : (stepCore k).run s = .error f s') :
    Followed d events { s' with rcode := -1 } := by
  obtain ⟨es, o, hsession, hcount, ho⟩ := h
  obtain ⟨d₁, rfl, hserves⟩ := ho hr
  obtain ⟨log, hround⟩ := (triple_stepCore k d₁).error hserves hstep
  refine ⟨es ++ log, none, hsession.round hround, ?_, fun hr' => absurd hr' (by simp)⟩
  rw [List.count_append, hcount, (hround.count (hsession.deferResponse hd _ rfl)).1]
  rfl

theorem stepCores_followed (ks : List Nat) {events later : List Event} {s s' : RiscvSimulator}
    (hs : Followed d events s) (h : (stepCores ks).run s = .ok later s') :
    Followed d (events ++ later) s' := by
  induction ks generalizing events later s with
  | nil =>
    cases h
    rw [List.append_nil]
    exact hs
  | cons k ks ih =>
    by_cases hr : s.rcode = 0
    · rcases stepCores_cons h with ⟨hr', -⟩ | ⟨what, s₁, hstep, rfl, rfl⟩ |
        ⟨e, later', s₁, hstep, hlater, rfl⟩
      · exact absurd hr hr'
      · rw [List.append_nil]
        exact hs.throw hd hr hstep
      · have hfollowed := ih (hs.step hd hr hstep) hlater
        rwa [List.append_assoc] at hfollowed
    · rw [stepCores, EStateM.run_bind, EStateM.run_get] at h
      dsimp only at h
      rw [if_pos hr] at h
      cases h
      rw [List.append_nil]
      exact hs

theorem turn_followed {ready ready' : List Nat} {events later : List Event} {s s' : RiscvSimulator}
    (hs : Followed d events s) (h : (turn ready).run s = .ok (later, ready') s') :
    Followed d (events ++ later) s' := by
  obtain ⟨s₁, s₂, hsteps, hserve, hget⟩ := turn_ok h
  exact (stepCores_followed hd ready hs hsteps).of_same (sameServer_after_steps hserve hget)

theorem loop_followed (n : Nat) {ready : List Nat} {left : Bool} {events later : List Event}
    {s s' : RiscvSimulator} (hs : Followed d events s)
    (h : (loop n ready).run s = .ok (left, later) s') : Followed d (events ++ later) s' := by
  induction n generalizing ready left events later s with
  | zero =>
    cases h
    rw [List.append_nil]
    exact hs
  | succ n ih =>
    rw [loop, EStateM.run_bind, EStateM.run_get] at h
    dsimp only at h
    split at h
    · obtain ⟨⟨first, ready'⟩, s₁, hturn, h⟩ := Effect.ok_of_bind h
      obtain ⟨⟨left', rest⟩, s₂, hloop, h⟩ := Effect.ok_of_bind h
      cases h
      have hfollowed := ih (turn_followed hd hs hturn) hloop
      rwa [List.append_assoc] at hfollowed
    · cases h
      rw [List.append_nil]
      exact hs

/-- The server of a run of `Go` goes through a session in which the instructions of the run are
    executed. -/
theorem go_session {n : Nat} {r : Option Int} {events : List Event} {s s' : RiscvSimulator}
    (hs : Serves d s) (h : (go n).run s = .ok (r, events) s') :
    ∃ es o, Session d es o ∧ es.count .executed = executedCount events := by
  obtain ⟨start, s₁, hstart, h⟩ := Effect.ok_of_bind h
  cases start with
  | error rcode => cases h; exact ⟨[], _, .start, rfl⟩
  | ok ready =>
    have hserves : Serves d s₁ := by
      rw [startGo, EStateM.run_bind, EStateM.run_get] at hstart
      obtain ⟨_, s₂, hset, hstart⟩ := Effect.ok_of_bind hstart
      cases hset
      split at hstart
      · cases hstart
      · cases hstart; exact hs
    have hstarted : Followed d [] s₁ := ⟨[], some d, .start, rfl, fun _ => ⟨d, rfl, hserves⟩⟩
    obtain ⟨⟨left, later⟩, s₂, hloop, h⟩ := Effect.ok_of_bind h
    obtain ⟨es, o, hsession, hcount, -⟩ := loop_followed hd n hstarted hloop
    have hevents : events = later := by
      dsimp only at h
      split at h
      · cases h; rfl
      · cases h; rfl
    exact ⟨es, o, hsession, by rw [hcount, hevents]; rfl⟩

end Following

end RiscvSimulator

end Dimebox
