import Mathlib.Data.List.Induction
import Dimebox.StoppedTarget
import Dimebox.Transmission

/-! The stepping protocol.

    A step or a continue lets the core run; when it has stopped again the server says so with a `T`
    packet, and only then it listens. A session without failures is read by the following automaton:
    the flags of the server keep up with it from round to round (`Follows`).

                 s            executed             T          listening
          idle ─────▶ stepping ───────▶ stepped ─────▶ told ──────────▶ idle
                 c            executed             T          listening
          idle ─────▶ resumed ────────▶ running ─────▶ halted ────────▶ idle
                                         │ executed↺

          anything else ──▶ dead -/

namespace Dimebox

namespace DebugServer

/-- The server listens or reads a request. -/
def waits : Event → Bool
  | .listening _ | .request _ => true
  | _ => false

/-- A stop reply is sent. -/
def stops : Event → Bool
  | .sent packet => IsStopReply packet
  | _ => false

/-! ### The automaton -/

inductive Phase where | idle | stepping | stepped | told | resumed | running | halted | dead
  deriving DecidableEq

/-- One event. -/
def advance : Phase → Event → Phase
  | .idle, .listening _ | .told, .listening _ | .halted, .listening _ => .idle
  | .idle, .request pdata =>
    if Asks pdata .step then .stepping else if Asks pdata .continue then .resumed else .idle
  | .stepping, .executed => .stepped
  | .resumed, .executed | .running, .executed => .running
  | .stepped, .sent packet => if IsStopReply packet then .told else .stepped
  | .running, .sent packet => if IsStopReply packet then .halted else .running
  | q, .sent packet => if IsStopReply packet then .dead else q
  | _, _ => .dead

/-- The phase a trace leaves the session in. -/
def phase (es : List Event) : Phase := es.foldl advance .idle

theorem phase_append (es log : List Event) : phase (es ++ log) = log.foldl advance (phase es) :=
  List.foldl_append

theorem foldl_advance_dead (es : List Event) : es.foldl advance .dead = .dead := by
  induction es with
  | nil => rfl
  | cons e es ih =>
    have hdead : advance .dead e = .dead := by
      cases e with
      | sent packet => simp [advance]
      | listening | request | failed | executed => rfl
    rw [List.foldl_cons, hdead]
    exact ih

/-- Packets that are no stop replies do not count. -/
theorem foldl_advance_quiet {log : List Event}
    (h : ∀ e ∈ log, ∃ packet, e = .sent packet ∧ ¬ IsStopReply packet) (q : Phase) :
    log.foldl advance q = q := by
  induction log generalizing q with
  | nil => rfl
  | cons e log ih =>
    obtain ⟨packet, rfl, hp⟩ := h e List.mem_cons_self
    have hstays : advance q (.sent packet) = q := by cases q <;> simp [advance, hp]
    rw [List.foldl_cons, hstays]
    exact ih (fun e he => h e (List.mem_cons_of_mem _ he)) q

/-! ### Rounds -/

theorem isStopReply_stopReply (cpu : RiscvState) (pc : U64) : IsStopReply (stopReply cpu pc) := by
  rfl

/-- A session without failures in which the target is not killed. -/
structure Orderly (es : List Event) : Prop where
  succeeds : .failed ∉ es
  lives : es.any kills = false

theorem Orderly.left {es log : List Event} (h : Orderly (es ++ log)) : Orderly es := by
  obtain ⟨hf, hk⟩ := h
  rw [List.any_append, Bool.or_eq_false_iff] at hk
  exact ⟨fun hmem => hf (List.mem_append_left _ hmem), hk.1⟩

theorem Orderly.right {es log : List Event} (h : Orderly (es ++ log)) : Orderly log := by
  obtain ⟨hf, hk⟩ := h
  rw [List.any_append, Bool.or_eq_false_iff] at hk
  exact ⟨fun hmem => hf (List.mem_append_right _ hmem), hk.2⟩

/-- A `Poll` in which nothing fails ends with a step or a continue. -/
theorem Polled.advances {s s' : DebugSession} {log : List Event} (h : Polled s log s')
    (hlog : Orderly log) :
    s'.server.doShutdown = s.server.doShutdown ∧
      (log.foldl advance .idle = .stepping ∧ s'.server.doStep = true ∨
        log.foldl advance .idle = .resumed ∧ s'.server.doStep = s.server.doStep) := by
  induction h with
  | @last s s' log hended =>
    cases hended with
    | failed hfailed => exact absurd hfailed hlog.succeeds
    | @resumed pdata s' hr asked hf =>
      have hstep : s'.server.doStep = (s.server.doStep || decide (Asks pdata .step)) :=
        congrArg Flags.doStep hf
      refine ⟨congrArg Flags.doShutdown hf, ?_⟩
      rw [List.foldl_cons]
      by_cases hs : Asks pdata .step
      · rw [show advance .idle (.request pdata) = .stepping by simp [advance, hs], hstep]
        exact .inl ⟨rfl, by simp [hs]⟩
      · have hc : Asks pdata .continue := hr.resolve_left hs
        rw [show advance .idle (.request pdata) = .resumed by simp [advance, hs, hc], hstep]
        exact .inr ⟨rfl, by simp [hs]⟩
  | @next s s₁ s' pdata log later hord rest ih =>
    have hsplit : Orderly ((.request pdata :: log) ++ later) := hlog
    have hlater := hsplit.right
    have hstays : advance .idle (.request pdata) = .idle := by
      have hr := hord.stays
      rw [Resumes, not_or] at hr
      simp [advance, hr]
    have hkill : ¬ Asks pdata .killTarget := by
      have hk := hlog.lives
      rw [List.any_cons, Bool.or_eq_false_iff] at hk
      exact of_decide_eq_false hk.1
    have hshutdown : s₁.server.doShutdown = s.server.doShutdown := by
      have hf : s₁.server.doShutdown = (s.server.doShutdown || decide (Asks pdata .killTarget)) :=
        congrArg Flags.doShutdown hord.flags
      rw [hf]
      simp [hkill]
    have hdoStep : s₁.server.doStep = s.server.doStep := congrArg Flags.doStep hord.flags
    rw [List.foldl_cons, List.foldl_append, hstays, foldl_advance_quiet hord.quiet, ← hshutdown,
      ← hdoStep]
    exact ih hlater

/-- How the flags of a server agree with the phase of its session between rounds. -/
inductive Follows (d : DebugServer) : Phase → Prop where
  | start (h : d.atStart = true) (hs : d.doStep = false) (hd : d.doShutdown = false) :
      Follows d .idle
  | told (h : d.atStart = false) (hs : d.doStep = true) (hd : d.doShutdown = false) :
      Follows d .told
  | running (h : d.atStart = false) (hs : d.doStep = false) (hd : d.doShutdown = false) :
      Follows d .running

/-- The phase and the step flag after the check before a step. -/
inductive Resumed : Phase → Bool → Prop where
  | stepping : Resumed .stepping true
  | resumed : Resumed .resumed false
  | running : Resumed .running false

theorem Checked.advances {s s' : DebugSession} {goOn : Bool} {log : List Event} {q : Phase}
    (h : Checked s goOn log s') (hq : Follows s.server q) (hlog : Orderly log) :
    goOn = true ∧ s'.server.doShutdown = false ∧
      Resumed (log.foldl advance q) s'.server.doStep := by
  cases h with
  | passed started free miss =>
    cases hq with
    | start h => rw [h] at started; cases started
    | told _ hs => rw [hs] at free; cases free
    | running _ _ hd => exact ⟨rfl, hd, by rw [free]; exact .running⟩
  | @polled ack log s₁ s' why hf hpolled =>
    have hdoStep : s₁.server.doStep = (s.server.atStart && s.server.doStep) :=
      congrArg Flags.doStep hf
    have hdoShutdown : s₁.server.doShutdown = s.server.doShutdown := congrArg Flags.doShutdown hf
    have hstopped : advance (ack.foldl advance q) (.listening s₁.server.serverSocket) = .idle ∧
        s₁.server.doStep = false ∧ s₁.server.doShutdown = false := by
      rw [hdoStep, hdoShutdown]
      cases why with
      | start h =>
        cases hq with
        | start _ hs hd => exact ⟨rfl, by rw [hs, Bool.and_false], hd⟩
        | told hstart _ hd => exact ⟨rfl, by rw [hstart, Bool.false_and], hd⟩
        | running hstart hs => exact absurd h (by rw [hstart, hs]; decide)
      | hit started free hit sent =>
        cases hq with
        | start h => rw [h] at started; cases started
        | told _ hs => rw [hs] at free; cases free
        | running _ _ hd =>
          rcases sent with rfl | rfl
          · refine ⟨?_, by rw [started, Bool.false_and], hd⟩
            simp [advance, isStopReply_stopReply]
          · exact absurd (List.mem_append_left _ List.mem_cons_self) hlog.succeeds
    obtain ⟨hidle, hstep, hshutdown⟩ := hstopped
    have hsplit : Orderly ((ack ++ [.listening s₁.server.serverSocket]) ++ log) := by
      rw [List.append_assoc]
      exact hlog
    obtain ⟨hdown, hadvances⟩ := hpolled.advances hsplit.right
    rw [List.foldl_append, List.foldl_cons, hidle]
    refine ⟨by rw [hdown, hshutdown]; rfl, hdown.trans hshutdown, ?_⟩
    rcases hadvances with ⟨hq, hs⟩ | ⟨hq, hs⟩
    · rw [hq, hs]
      exact .stepping
    · rw [hq, hs, hstep]
      exact .resumed

theorem Round.advances {d : DebugServer} {ran : Bool} {log : List Event} {o : Option DebugServer}
    {q : Phase} (h : Round d ran log o) (hd : d.deferResponse = false) (hq : Follows d q)
    (hlog : Orderly log) :
    log.foldl advance q ≠ .dead ∧ ∀ d' ∈ o, Follows d' (log.foldl advance q) := by
  have hlive : ∀ {q : Phase} {b : Bool}, Resumed q b → q ≠ .dead := by
    intro q b h
    cases h <;> decide
  cases h with
  | returned =>
    refine ⟨by cases hq <;> decide, ?_⟩
    simpa using hq
  | ended => exact ⟨by cases hq <;> decide, by simp⟩
  | refused pre hs =>
    subst hs
    exact absurd ((preStepLogged_checked hd pre).advances hq hlog).1 Bool.false_ne_true
  | broken => exact absurd List.mem_cons_self hlog.succeeds
  | threw pre hs =>
    subst hs
    exact ⟨hlive ((preStepLogged_checked hd pre).advances hq hlog).2.2, by simp⟩
  | @executed s s₁ s₂ s' goOn log later pre hs post hs₂ =>
    subst hs
    have hchecked := preStepLogged_checked hd pre
    obtain ⟨-, hshutdown, hresumed⟩ := hchecked.advances hq hlog.left
    obtain ⟨⟨listening, hf⟩, hlater⟩ := postStepLogged_ok (by rw [hs₂]; exact hchecked.kept.1) post
    have hstart' : s'.server.atStart = false := by
      rw [show s'.server.atStart = s₂.server.atStart from congrArg Flags.atStart hf, hs₂]
      exact hchecked.kept.1
    have hshutdown' : s'.server.doShutdown = false := by
      rw [show s'.server.doShutdown = s₂.server.doShutdown from congrArg Flags.doShutdown hf, hs₂]
      exact hshutdown
    have hstep' : s'.server.doStep = s₁.server.doStep := by
      rw [show s'.server.doStep = s₂.server.doStep from congrArg Flags.doStep hf, hs₂]
    rw [hs₂] at hlater
    rw [List.foldl_append, List.foldl_cons]
    generalize hq' : log.foldl advance q = q' at hresumed ⊢
    generalize hb : s₁.server.doStep = b at hresumed hlater hstep'
    have hrunning : b = false → later.foldl advance .running = .running ∧
        Follows s'.server .running := by
      rintro rfl
      rcases hlater with ⟨-, rfl⟩ | ⟨h, -⟩
      · exact ⟨rfl, .running hstart' hstep' hshutdown'⟩
      · cases h
    cases hresumed with
    | stepping =>
      rcases hlater with ⟨h, -⟩ | ⟨-, rfl | rfl⟩
      · cases h
      · have htold : [Event.sent (stopReply s₂.cpu s₂.pc)].foldl advance
            (advance .stepping .executed) = .told := by
          simp [advance, isStopReply_stopReply]
        rw [htold]
        exact ⟨by decide, by simpa using .told hstart' hstep' hshutdown'⟩
      · exact absurd (by simp) hlog.succeeds
    | resumed =>
      obtain ⟨hq, hfollows⟩ := hrunning rfl
      rw [show advance .resumed .executed = .running from rfl, hq]
      exact ⟨by decide, by simpa using hfollows⟩
    | running =>
      obtain ⟨hq, hfollows⟩ := hrunning rfl
      rw [show advance .running .executed = .running from rfl, hq]
      exact ⟨by decide, by simpa using hfollows⟩

theorem Session.advances {d : DebugServer} {es : List Event} {o : Option DebugServer}
    (h : Session d es o) (hd : d.deferResponse = false) (hq : Follows d .idle)
    (hes : Orderly es) : phase es ≠ .dead ∧ ∀ d' ∈ o, Follows d' (phase es) := by
  induction h with
  | start => exact ⟨by decide, fun d' hd' => by cases hd'; exact hq⟩
  | round hsession hround ih =>
    obtain ⟨-, hfollows⟩ := ih hes.left
    rw [phase_append]
    exact hround.advances (hsession.deferResponse hd _ rfl) (hfollows _ rfl) hes.right

/-! ### What the automaton accepts -/

/-- Nothing is read in `share`. -/
def Share (share : List Event) : Prop := ∀ e ∈ share, waits e = false

/-- Stop replies that have been sent since the core was let go. -/
def replies : Phase → Nat
  | .told | .halted => 1
  | _ => 0

/-- Instructions that have been executed since a step was asked for. -/
def ran : Phase → Nat
  | .stepping => 0
  | _ => 1

theorem replies_advance {q : Phase} {e : Event} (hw : waits e = false)
    (h : advance q e ≠ .dead) :
    (if stops e then 1 else 0) + replies q = replies (advance q e) := by
  cases e with
  | listening | request => cases hw
  | sent packet => by_cases hp : IsStopReply packet <;> cases q <;> simp_all [advance, stops, replies]
  | failed => cases q <;> simp_all [advance]
  | executed => cases q <;> simp_all [advance, stops, replies]

/-- A step that was asked for. -/
def IsStep (q : Phase) : Prop := q = .stepping ∨ q = .stepped ∨ q = .told

theorem ran_advance {q : Phase} {e : Event} (hw : waits e = false) (h : advance q e ≠ .dead)
    (hq : IsStep q) :
    (if e = .executed then 1 else 0) + ran q = ran (advance q e) ∧ IsStep (advance q e) := by
  cases e with
  | listening | request => cases hw
  | sent packet =>
    rcases hq with rfl | rfl | rfl <;> by_cases hp : IsStopReply packet <;>
      simp_all [advance, ran, IsStep]
  | failed => rcases hq with rfl | rfl | rfl <;> simp_all [advance]
  | executed => rcases hq with rfl | rfl | rfl <;> simp_all [advance, ran, IsStep]

theorem foldl_live {q : Phase} {e : Event} {es : List Event}
    (h : (e :: es).foldl advance q ≠ .dead) : advance q e ≠ .dead := by
  intro hdead
  rw [List.foldl_cons, hdead, foldl_advance_dead] at h
  exact h rfl

theorem replies_share {share : List Event} (hs : Share share) {q : Phase}
    (hlive : share.foldl advance q ≠ .dead) :
    share.countP stops + replies q = replies (share.foldl advance q) := by
  induction share generalizing q with
  | nil => rw [List.countP_nil, Nat.zero_add]; rfl
  | cons e share ih =>
    have hstep := replies_advance (hs e List.mem_cons_self) (foldl_live hlive)
    rw [List.foldl_cons] at hlive ⊢
    have hrest := ih (fun e he => hs e (List.mem_cons_of_mem _ he)) hlive
    rw [List.countP_cons]
    omega

theorem ran_share {share : List Event} (hs : Share share) {q : Phase}
    (hlive : share.foldl advance q ≠ .dead) (hq : IsStep q) :
    share.count .executed + ran q = ran (share.foldl advance q) ∧
      IsStep (share.foldl advance q) := by
  induction share generalizing q with
  | nil => exact ⟨by rw [List.count_nil, Nat.zero_add]; rfl, hq⟩
  | cons e share ih =>
    obtain ⟨hstep, hq'⟩ := ran_advance (hs e List.mem_cons_self) (foldl_live hlive) hq
    rw [List.foldl_cons] at hlive ⊢
    obtain ⟨hrest, hend⟩ := ih (fun e he => hs e (List.mem_cons_of_mem _ he)) hlive hq'
    refine ⟨?_, hend⟩
    rw [List.count_cons]
    simp only [beq_iff_eq]
    omega

/-- A core that was told to go on. -/
def IsRun (q : Phase) : Prop := q = .resumed ∨ q = .running ∨ q = .halted

theorem isRun_share {share : List Event} (hs : Share share) {q : Phase}
    (hlive : share.foldl advance q ≠ .dead) (hq : IsRun q) : IsRun (share.foldl advance q) := by
  induction share generalizing q with
  | nil => exact hq
  | cons e share ih =>
    have hstep := foldl_live hlive
    rw [List.foldl_cons] at hlive ⊢
    refine ih (fun e he => hs e (List.mem_cons_of_mem _ he)) hlive ?_
    have hw := hs e List.mem_cons_self
    cases e with
    | listening | request => cases hw
    | sent packet =>
      rcases hq with rfl | rfl | rfl <;> by_cases hp : IsStopReply packet <;>
        simp_all [advance, IsRun]
    | failed => rcases hq with rfl | rfl | rfl <;> simp_all [advance]
    | executed => rcases hq with rfl | rfl | rfl <;> simp_all [advance, IsRun]

/-- It has to execute something to get anywhere. -/
theorem executed_share {share : List Event} (hno : .executed ∉ share) :
    share.foldl advance .resumed = .resumed ∨ share.foldl advance .resumed = .dead := by
  induction share with
  | nil => exact .inl rfl
  | cons e share ih =>
    rw [List.mem_cons, not_or] at hno
    have hstays : advance .resumed e = .resumed ∨ advance .resumed e = .dead := by
      cases e with
      | listening | request | failed => exact .inr rfl
      | executed => exact absurd rfl hno.1
      | sent packet => simp only [advance]; split <;> simp
    rw [List.foldl_cons]
    rcases hstays with h | h
    · rw [h]
      exact ih hno.2
    · rw [h]
      exact .inr (foldl_advance_dead share)

/-! ### Outstanding requests -/

/-- A step or a continue was read and not answered yet; if `done`, an instruction was executed
    since. -/
def Outstanding (es : List Event) (done : Bool) : Prop :=
  ∃ before pdata share, es = before ++ .request pdata :: share ∧ Resumes pdata ∧ Share share ∧
    (∀ e ∈ share, stops e = false) ∧ (done → .executed ∈ share)

theorem Outstanding.append {es : List Event} {done : Bool} (h : Outstanding es done) {e : Event}
    (hw : waits e = false) (hs : stops e = false) :
    Outstanding (es ++ [e]) (done || decide (e = .executed)) := by
  obtain ⟨before, pdata, share, rfl, hr, hshare, hstops, hdone⟩ := h
  refine ⟨before, pdata, share ++ [e], by simp, hr, ?_, ?_, fun h => ?_⟩
  · intro e' he'
    rcases List.mem_append.mp he' with he' | he'
    · exact hshare e' he'
    · rw [List.mem_singleton.mp he']; exact hw
  · intro e' he'
    rcases List.mem_append.mp he' with he' | he'
    · exact hstops e' he'
    · rw [List.mem_singleton.mp he']; exact hs
  · rw [Bool.or_eq_true, decide_eq_true_iff] at h
    rcases h with h | rfl
    · exact List.mem_append_left _ (hdone h)
    · simp

/-- The request that was just read. -/
theorem outstanding_request (es : List Event) {pdata : List Char} (h : Resumes pdata) :
    Outstanding (es ++ [.request pdata]) false :=
  ⟨es, pdata, [], rfl, h, by simp [Share], by simp, by simp⟩

theorem outstanding_of_phase (es : List Event) :
    (phase es = .stepping ∨ phase es = .resumed → Outstanding es false) ∧
      (phase es = .stepped ∨ phase es = .running → Outstanding es true) := by
  induction es using List.reverseRecOn with
  | nil => exact ⟨fun h => absurd h (by decide), fun h => absurd h (by decide)⟩
  | append_singleton es e ih =>
    rw [phase_append, List.foldl_cons, List.foldl_nil]
    cases e with
    | listening client => cases hq : phase es <;> simp [advance]
    | failed => cases hq : phase es <;> simp [advance]
    | request pdata =>
      cases hq : phase es with
      | idle =>
        by_cases hr : Resumes pdata
        · have hout := outstanding_request es hr
          refine ⟨fun _ => hout, fun h => ?_⟩
          simp only [advance] at h
          split at h
          · simp at h
          · split at h <;> simp at h
        · rw [Resumes, not_or] at hr
          simp [advance, hr]
      | stepping | stepped | told | resumed | running | halted | dead => simp [advance]
    | executed =>
      cases hq : phase es with
      | stepping => exact ⟨by simp [advance], fun _ => (ih.1 (.inl hq)).append rfl rfl⟩
      | resumed => exact ⟨by simp [advance], fun _ => (ih.1 (.inr hq)).append rfl rfl⟩
      | running => exact ⟨by simp [advance], fun _ => (ih.2 (.inr hq)).append rfl rfl⟩
      | idle | stepped | told | halted | dead => simp [advance]
    | sent packet =>
      by_cases hp : IsStopReply packet
      · cases hq : phase es <;> simp [advance, hp]
      · have hstops : stops (.sent packet) = false := decide_eq_false hp
        have hstays : advance (phase es) (.sent packet) = phase es := by
          cases phase es <;> simp [advance, hp]
        rw [hstays]
        exact ⟨fun h => (ih.1 h).append rfl hstops, fun h => (ih.2 h).append rfl hstops⟩

/-! ### The protocol -/

/-- The server listens or reads next; or nothing has been seen since, and the session goes on. -/
def Over (rest : List Event) (o : Option DebugServer) : Prop :=
  (∃ e later, rest = e :: later ∧ waits e = true) ∨ rest = [] ∧ o ≠ none

/-- The protocol between client and server, over a session that is now at `o`. -/
structure SteppingProtocol (es : List Event) (o : Option DebugServer) : Prop where
  /-- a step is followed by one instruction and one stop reply before the server waits -/
  step : ∀ before pdata share rest, es = before ++ .request pdata :: (share ++ rest) →
    Share share → Over rest o → Asks pdata .step →
    share.count .executed = 1 ∧ share.countP stops = 1
  /-- a continue is followed by an instruction, and by one stop reply before the server waits -/
  goOn : ∀ before pdata share rest, es = before ++ .request pdata :: (share ++ rest) →
    Share share → Over rest o → Asks pdata .continue →
    1 ≤ share.count .executed ∧ share.countP stops = if rest = [] then 0 else 1
  /-- after a continue the server waits if a check finds a breakpoint, and only then -/
  hit : ∀ before pdata share, es = before ++ .request pdata :: share → Share share →
    Asks pdata .continue → ∀ t goOn log t', some t.server = o →
    preStepLogged.run t = .ok (goOn, log) t' →
    ((∃ e ∈ log, waits e = true) ↔ t.server.breakpointHit t.pc = true)
  /-- a stop reply answers a step or a continue after which an instruction was executed -/
  stop : ∀ before packet after, es = before ++ .sent packet :: after → IsStopReply packet →
    Outstanding before true

/-- A request is read in phase `idle`. -/
theorem phase_before_request {before later : List Event} {pdata : List Char}
    (h : phase (before ++ .request pdata :: later) ≠ .dead) : phase before = .idle := by
  rw [phase_append] at h
  have hlive := foldl_live h
  cases hq : phase before <;> simp_all [advance]

/-- The server waits when the core has stopped. -/
theorem phase_before_wait {before later : List Event} {e : Event} (hw : waits e = true)
    (h : phase (before ++ e :: later) ≠ .dead) :
    phase before = .idle ∨ phase before = .told ∨ phase before = .halted := by
  rw [phase_append] at h
  have hlive := foldl_live h
  cases e with
  | listening client => cases hq : phase before <;> simp_all [advance]
  | request pdata => cases hq : phase before <;> simp_all [advance]
  | sent | failed | executed => cases hw

/-- How the share of a request ends. -/
theorem phase_over {es before share rest : List Event} {pdata : List Char}
    {o : Option DebugServer} (hes : es = before ++ .request pdata :: (share ++ rest))
    (hlive : phase es ≠ .dead) (hfollows : ∀ d' ∈ o, Follows d' (phase es)) (hover : Over rest o) :
    share.foldl advance (advance .idle (.request pdata)) ≠ .dead ∧
    (rest ≠ [] ∧ (share.foldl advance (advance .idle (.request pdata)) = .idle ∨
        share.foldl advance (advance .idle (.request pdata)) = .told ∨
        share.foldl advance (advance .idle (.request pdata)) = .halted) ∨
      rest = [] ∧ ∃ d', Follows d' (share.foldl advance (advance .idle (.request pdata)))) := by
  subst hes
  have hidle := phase_before_request hlive
  have hshare : phase (before ++ .request pdata :: share) =
      share.foldl advance (advance .idle (.request pdata)) := by
    rw [phase_append, hidle, List.foldl_cons]
  have hassoc : before ++ .request pdata :: (share ++ rest) =
      (before ++ .request pdata :: share) ++ rest := by simp
  rw [hassoc] at hlive hfollows
  rw [← hshare]
  refine ⟨fun hdead => ?_, ?_⟩
  · rw [phase_append, hdead, foldl_advance_dead] at hlive
    exact hlive rfl
  · rcases hover with ⟨e, later, rfl, hw⟩ | ⟨rfl, ho⟩
    · exact .inl ⟨by simp, phase_before_wait hw hlive⟩
    · obtain ⟨d', hd'⟩ := Option.ne_none_iff_exists'.mp ho
      rw [List.append_nil] at hfollows
      exact .inr ⟨rfl, d', hfollows d' hd'⟩

section Accepted

variable {es : List Event} {o : Option DebugServer} (hlive : phase es ≠ .dead)
  (hfollows : ∀ d' ∈ o, Follows d' (phase es)) {before share rest : List Event}
  {pdata : List Char} (hes : es = before ++ .request pdata :: (share ++ rest)) (hshare : Share share)
include hlive hfollows hes hshare

theorem step_share (hover : Over rest o) (hs : Asks pdata .step) :
    share.count .executed = 1 ∧ share.countP stops = 1 := by
  obtain ⟨hlive', hend⟩ := phase_over hes hlive hfollows hover
  rw [show advance .idle (.request pdata) = .stepping by simp [advance, hs]] at hlive' hend
  obtain ⟨hran, hstep⟩ := ran_share hshare hlive' (.inl rfl)
  have hreplies := replies_share hshare hlive'
  have htold : share.foldl advance .stepping = .told := by
    rcases hend with ⟨-, hq | hq | hq⟩ | ⟨-, d', hd'⟩
    · rw [hq] at hstep; exact absurd hstep (by simp [IsStep])
    · exact hq
    · rw [hq] at hstep; exact absurd hstep (by simp [IsStep])
    · generalize share.foldl advance .stepping = q at hd' hstep
      cases hd' with
      | told => rfl
      | start | running => exact absurd hstep (by simp [IsStep])
  rw [htold] at hran hreplies
  exact ⟨hran, hreplies⟩

theorem goOn_share (hover : Over rest o) (hc : Asks pdata .continue) :
    1 ≤ share.count .executed ∧ share.countP stops = if rest = [] then 0 else 1 := by
  obtain ⟨hlive', hend⟩ := phase_over hes hlive hfollows hover
  have hs : ¬ Asks pdata .step := hc.ne (by decide)
  rw [show advance .idle (.request pdata) = .resumed by simp [advance, hs, hc]] at hlive' hend
  have hrun := isRun_share hshare hlive' (.inl rfl)
  have hreplies := replies_share hshare hlive'
  have hstopped : rest ≠ [] ∧ share.foldl advance .resumed = .halted ∨
      rest = [] ∧ share.foldl advance .resumed = .running := by
    rcases hend with ⟨hrest, hq | hq | hq⟩ | ⟨hrest, d', hd'⟩
    · rw [hq] at hrun; exact absurd hrun (by simp [IsRun])
    · rw [hq] at hrun; exact absurd hrun (by simp [IsRun])
    · exact .inl ⟨hrest, hq⟩
    · refine .inr ⟨hrest, ?_⟩
      generalize share.foldl advance .resumed = q at hd' hrun
      cases hd' with
      | running => rfl
      | start | told => exact absurd hrun (by simp [IsRun])
  have hexecuted : .executed ∈ share := by
    by_contra hno
    rcases executed_share hno with h | h
    · rcases hstopped with ⟨-, hq⟩ | ⟨-, hq⟩
      · rw [hq] at h; cases h
      · rw [hq] at h; cases h
    · exact hlive' h
  refine ⟨List.count_pos_iff.mpr hexecuted, ?_⟩
  rcases hstopped with ⟨hrest, hq⟩ | ⟨hrest, hq⟩
  · rw [if_neg hrest]
    rw [hq] at hreplies
    exact hreplies
  · rw [if_pos hrest]
    rw [hq] at hreplies
    exact hreplies

end Accepted

/-- A core that was told to go on and has not been stopped since. -/
theorem follows_running {es before share : List Event} {pdata : List Char} {d : DebugServer}
    (hlive : phase es ≠ .dead) (hfollows : Follows d (phase es))
    (hes : es = before ++ .request pdata :: share) (hshare : Share share)
    (hc : Asks pdata .continue) : d.atStart = false ∧ d.doStep = false := by
  subst hes
  have hs : ¬ Asks pdata .step := hc.ne (by decide)
  have hidle := phase_before_request hlive
  rw [phase_append, hidle, List.foldl_cons,
    show advance .idle (.request pdata) = .resumed by simp [advance, hs, hc]] at hlive hfollows
  have hrun := isRun_share hshare hlive (.inl rfl)
  generalize share.foldl advance .resumed = q at hfollows hrun
  cases hfollows with
  | running hstart hstep => exact ⟨hstart, hstep⟩
  | start | told => exact absurd hrun (by simp [IsRun])

/-- A core that runs is stopped by a breakpoint, and by nothing else. -/
theorem Checked.waits_iff {s s' : DebugSession} {goOn : Bool} {log : List Event}
    (h : Checked s goOn log s') (hstart : s.server.atStart = false)
    (hstep : s.server.doStep = false) :
    (∃ e ∈ log, waits e = true) ↔ s.server.breakpointHit s.pc = true := by
  cases h with
  | passed _ _ miss => simp [miss]
  | polled why =>
    cases why with
    | start h => exact absurd h (by rw [hstart, hstep]; decide)
    | hit _ _ hhit =>
      refine ⟨fun _ => hhit, fun _ => ⟨_, List.mem_append_right _ List.mem_cons_self, rfl⟩⟩

/-- Every session without failures in which the target is not killed keeps to the protocol, and what
    is seen of it is what the socket has sent: in all, and whenever the server begins to listen. -/
theorem sessions_keep_stepping_protocol (core : U32) (client : TcpServer) {es : List Event}
    {o : Option DebugServer} (h : Session { core, serverSocket := client } es o)
    (hes : Orderly es) : SteppingProtocol es o ∧ Transmitted client es o := by
  refine ⟨?_, h.transmitted⟩
  obtain ⟨hlive, hfollows⟩ := h.advances rfl (.start rfl rfl rfl) hes
  constructor
  · intro before pdata share rest heq hshare hover hs
    exact step_share hlive hfollows heq hshare hover hs
  · intro before pdata share rest heq hshare hover hc
    exact goOn_share hlive hfollows heq hshare hover hc
  · intro before pdata share heq hshare hc t goOn log t' ho hrun
    have hd := h.deferResponse rfl t.server ho.symm
    obtain ⟨hstart, hstep⟩ := follows_running hlive (hfollows t.server ho.symm) heq hshare hc
    exact (preStepLogged_checked hd hrun).waits_iff hstart hstep
  · rintro before packet after rfl hp
    rw [phase_append] at hlive
    have hstep := foldl_live hlive
    refine (outstanding_of_phase before).2 ?_
    cases hq : phase before <;> simp_all [advance]

/-- A client that steps once. -/
def stepClient : TcpServer := { incoming := [some "$s#73".toList] }

/-- What is seen of it. -/
def stepTrace : List Event :=
  [.listening stepClient, .request "s".toList, .sent "+".toList, .executed, .sent (stopReply {} 0)]

theorem stepTrace_session : ∃ d, Session (connected stepClient).server stepTrace (some d) := by
  have hpre : Effect.result (preStepLogged.run (connected stepClient)) =
      some (true, [.listening stepClient, .request "s".toList, .sent "+".toList]) := by
    decide +kernel
  have hpost : Effect.result (postStepLogged.run
      (Effect.final (preStepLogged.run (connected stepClient)))) =
      some (true, [.sent (stopReply {} 0)]) := by decide +kernel
  exact Session.of_round hpre hpost

theorem stepTrace_keeps_stepping_protocol : Orderly stepTrace ∧
    ∃ d, Session (connected stepClient).server stepTrace (some d) ∧
      SteppingProtocol stepTrace (some d) ∧ Transmitted stepClient stepTrace (some d) := by
  have horderly : Orderly stepTrace := ⟨by decide, by decide⟩
  obtain ⟨d, hsession⟩ := stepTrace_session
  exact ⟨horderly, d, hsession, sessions_keep_stepping_protocol 0 stepClient hsession horderly⟩

end DebugServer

end Dimebox
