import Dimebox.Rounds

/-! A stopped target.

    While `Poll` listens the core is stopped; it should move again only if the client asks for it, or
    after the client killed it. `Poll` has other ways out: a read or a write that fails and a message
    that does not decode end listening too, and `Poll` returns true all the same. So the core moves on
    request as long as whenever `Poll` starts to listen, the client gets as far as a step, a continue
    or a kill (`asking`).

                 listening            executed
          free ────────────▶ waiting ──────────▶ moved
               ◀────────────
                step, continue

          kill, from free or waiting  ──▶ killed -/

namespace Dimebox

namespace DebugServer

/-- In `es`, an instruction is executed after `Poll` started to listen only if the client asked for a
    step or to go on or killed the target in between, or had killed it before. -/
def MovesOnRequest (es : List Event) : Prop :=
  ∀ before client between after,
    es = before ++ .listening client :: (between ++ .executed :: after) → .executed ∉ between →
    between.any moves ∨ before.any kills

/-- In `es`, each time `Poll` starts to listen the client asks for a step or to go on or kills the
    target before anything goes wrong, or it has killed the target before. -/
def AsksWhenStopped (es : List Event) : Prop :=
  ∀ before client after, es = before ++ .listening client :: after →
    client.asking ∨ before.any kills

theorem kills_le_moves {e : Event} (h : kills e) : moves e := by
  cases e with
  | request pdata => exact decide_eq_true (.inr (of_decide_eq_true h))
  | listening | sent | failed | executed => exact absurd h Bool.false_ne_true

/-- `Poll` lets a core that is not killed go although it was not asked to, exactly if the client does
    not get as far as to ask. -/
theorem pollLogged_unasked_iff {s s' : DebugSession} {goOn : Bool} {log : List Event}
    (h : pollLogged.run s = .ok (goOn, log) s') (hd : s.server.deferResponse = false)
    (hs : s.server.doShutdown = false) :
    goOn = true ∧ log.any moves = false ↔ s.server.serverSocket.asking = false := by
  obtain ⟨s₁, later, hflags, hsocket, hpolled, rfl, rfl⟩ := pollLogged_polled h hd
  have hmoves : (.listening s₁.server.serverSocket :: later).any moves = later.any moves := by
    rw [List.any_cons]
    exact Bool.false_or _
  rw [hmoves, ← hsocket, hpolled.any_moves]
  refine ⟨fun h => h.2, fun hask => ⟨?_, hask⟩⟩
  rw [Bool.not_eq_true', Bool.eq_false_iff]
  intro hshutdown
  rcases hpolled.shutdown hshutdown with hs₁ | hkills
  · rw [show s₁.server.doShutdown = s.server.doShutdown from congrArg Flags.doShutdown hflags,
      hs] at hs₁
    cases hs₁
  · obtain ⟨e, he, hkill⟩ := List.any_eq_true.mp hkills
    have hmoved : later.any moves = true := List.any_eq_true.mpr ⟨e, he, kills_le_moves hkill⟩
    rw [hpolled.any_moves, hask] at hmoved
    cases hmoved

/-! ### Watching the target -/

inductive Watch where | free | waiting | killed | moved
  deriving DecidableEq

/-- One event. -/
def watch : Watch → Event → Watch
  | .free, .listening _ => .waiting
  | .free, .request pdata => if Asks pdata .killTarget then .killed else .free
  | .waiting, .request pdata =>
    if Asks pdata .killTarget then .killed else if Resumes pdata then .free else .waiting
  | .waiting, .executed => .moved
  | q, _ => q

theorem foldl_watch_killed (es : List Event) : es.foldl watch .killed = .killed := by
  induction es with
  | nil => rfl
  | cons e es ih =>
    rw [List.foldl_cons, watch.eq_def]
    exact ih

theorem foldl_watch_moved (es : List Event) : es.foldl watch .moved = .moved := by
  induction es with
  | nil => rfl
  | cons e es ih =>
    rw [List.foldl_cons, watch.eq_def]
    exact ih

/-- Exchanges with the client do not stop the core. -/
theorem foldl_watch_exchanged {log : List Event} (hlog : log.all exchanged) {q : Watch}
    (hq : q = .free ∨ q = .killed) : log.foldl watch q = .free ∨ log.foldl watch q = .killed := by
  induction log generalizing q with
  | nil => exact hq
  | cons e log ih =>
    rw [List.all_cons, Bool.and_eq_true] at hlog
    rw [List.foldl_cons]
    refine ih hlog.2 ?_
    rcases hq with rfl | rfl
    · cases e with
      | request pdata => simp only [watch]; split <;> simp
      | sent | failed => exact .inl rfl
      | listening | executed => exact absurd hlog.1 Bool.false_ne_true
    · exact .inr (foldl_watch_killed [e])

/-- A request to move, among what is exchanged, lets a stopped core go. -/
theorem foldl_watch_moves {log : List Event} (hlog : log.all exchanged) (hmoves : log.any moves) :
    log.foldl watch .waiting = .free ∨ log.foldl watch .waiting = .killed := by
  induction log with
  | nil => exact absurd hmoves Bool.false_ne_true
  | cons e log ih =>
    rw [List.all_cons, Bool.and_eq_true] at hlog
    rw [List.any_cons, Bool.or_eq_true] at hmoves
    rw [List.foldl_cons]
    cases e with
    | request pdata =>
      simp only [watch]
      split
      · exact .inr (foldl_watch_killed log)
      · next hkill =>
        split
        · exact foldl_watch_exchanged hlog.2 (.inl rfl)
        · next hresumes =>
          refine ih hlog.2 (hmoves.resolve_left fun h => ?_)
          exact (of_decide_eq_true h).elim hresumes hkill
    | sent | failed => exact ih hlog.2 (hmoves.resolve_left Bool.false_ne_true)
    | listening | executed => exact absurd hlog.1 Bool.false_ne_true

/-- Once killed, the target is not watched any more. -/
theorem foldl_watch_kills {es : List Event} (h : es.any kills) {q : Watch} :
    es.foldl watch q = .killed ∨ es.foldl watch q = .moved := by
  induction es generalizing q with
  | nil => exact absurd h Bool.false_ne_true
  | cons e es ih =>
    rw [List.any_cons, Bool.or_eq_true] at h
    rw [List.foldl_cons]
    rcases h with h | h
    · cases e with
      | request pdata =>
        have hkill : Asks pdata .killTarget := of_decide_eq_true h
        cases q with
        | free | waiting =>
          simp only [watch, if_pos hkill]
          exact .inl (foldl_watch_killed es)
        | killed => exact .inl (foldl_watch_killed es)
        | moved => exact .inr (foldl_watch_moved es)
      | listening | sent | failed | executed => exact absurd h Bool.false_ne_true
    · exact ih h

/-- Only the client kills the target. -/
theorem foldl_watch_ne_killed {es : List Event} (h : es.any kills = false) {q : Watch}
    (hq : q ≠ .killed) : es.foldl watch q ≠ .killed := by
  induction es generalizing q with
  | nil => exact hq
  | cons e es ih =>
    rw [List.any_cons, Bool.or_eq_false_iff] at h
    rw [List.foldl_cons]
    refine ih h.2 ?_
    cases e with
    | request pdata =>
      have hkill : ¬ Asks pdata .killTarget := of_decide_eq_false h.1
      cases q with
      | free => simp [watch, hkill]
      | waiting => simp only [watch, if_neg hkill]; split <;> simp
      | killed => exact hq
      | moved => simp [watch]
    | listening | sent | failed | executed => cases q <;> simp_all [watch]

/-- A stopped core waits for a request. -/
theorem foldl_watch_waiting {es : List Event} (h : es.any moves = false) (hexec : .executed ∉ es) :
    es.foldl watch .waiting = .waiting := by
  induction es with
  | nil => rfl
  | cons e es ih =>
    rw [List.any_cons, Bool.or_eq_false_iff] at h
    rw [List.mem_cons, not_or] at hexec
    rw [List.foldl_cons]
    have hwaits : watch .waiting e = .waiting := by
      cases e with
      | request pdata =>
        have hmoves : ¬ Moves pdata := of_decide_eq_false h.1
        simp only [watch, if_neg fun hk => hmoves (.inr hk), if_neg fun hr => hmoves (.inl hr)]
      | executed => exact absurd rfl hexec.1
      | listening | sent | failed => rfl
    rw [hwaits]
    exact ih h.2 hexec.2

theorem movesOnRequest_of_watch {es : List Event} (h : es.foldl watch .free ≠ .moved) :
    MovesOnRequest es := by
  rintro before client between after rfl hexec
  by_contra hno
  rw [not_or, Bool.not_eq_true, Bool.not_eq_true] at hno
  refine h ?_
  rw [List.foldl_append, List.foldl_cons]
  have hkilled := foldl_watch_ne_killed hno.2 (q := .free) (by decide)
  have hstop : watch (before.foldl watch .free) (.listening client) = .waiting ∨
      watch (before.foldl watch .free) (.listening client) = .moved := by
    cases hq : before.foldl watch .free with
    | free | waiting => exact .inl rfl
    | killed => exact absurd hq hkilled
    | moved => exact .inr rfl
  rcases hstop with hstop | hstop
  · rw [hstop, List.foldl_append, foldl_watch_waiting hno.1 hexec]
    exact foldl_watch_moved after
  · rw [hstop]
    exact foldl_watch_moved _

/-! ### Rounds and sessions -/

/-- Between rounds the core is not stopped. -/
def Released (es : List Event) : Prop :=
  es.foldl watch .free = .free ∨ es.foldl watch .free = .killed

theorem Released.append_exchanged {es log : List Event} (h : Released es) (hlog : log.all exchanged) :
    Released (es ++ log) := by
  rw [Released, List.foldl_append]
  exact foldl_watch_exchanged hlog h

theorem AsksWhenStopped.of_append {es log : List Event} (h : AsksWhenStopped (es ++ log)) :
    AsksWhenStopped es := by
  rintro before client after rfl
  exact h before client (after ++ log) (by simp)

/-- A check before a step leaves the core released. -/
theorem Checked.released {s s' : DebugSession} {goOn : Bool} {es log : List Event}
    (h : Checked s goOn log s') (hes : Released es) (hask : AsksWhenStopped (es ++ log)) :
    Released (es ++ log) := by
  cases h with
  | passed => rw [List.append_nil]; exact hes
  | @polled ack log s₁ s' stops _ hpolled =>
    have hack : ack.all exchanged := by
      cases stops with
      | start => rfl
      | hit _ _ _ hsent => rcases hsent with rfl | rfl <;> rfl
    have hbefore := hes.append_exchanged hack
    rw [← List.append_assoc] at hask ⊢
    rw [Released, List.foldl_append, List.foldl_cons]
    rcases hbefore with hfree | hkilled
    · rw [hfree]
      refine foldl_watch_moves hpolled.all_exchanged ?_
      rw [hpolled.any_moves]
      refine (hask _ _ _ rfl).resolve_right fun hkills => ?_
      rcases foldl_watch_kills hkills with h | h
      · rw [hfree] at h; cases h
      · rw [hfree] at h; cases h
    · rw [hkilled]
      exact .inr (foldl_watch_killed log)

/-- An instruction that is executed by a released core. -/
theorem Released.executed {es later : List Event} (h : Released es) (hlater : later.all exchanged) :
    Released (es ++ .executed :: later) := by
  rw [Released, List.foldl_append, List.foldl_cons]
  refine foldl_watch_exchanged hlater ?_
  rcases h with h | h
  · rw [h]; exact .inl rfl
  · rw [h]; exact .inr rfl

theorem Round.released {d : DebugServer} {ran : Bool} {es log : List Event}
    {o : Option DebugServer} (h : Round d ran log o) (hd : d.deferResponse = false)
    (hes : Released es) (hask : AsksWhenStopped (es ++ log)) : Released (es ++ log) := by
  cases h with
  | returned => rw [List.append_nil]; exact hes
  | ended => rw [List.append_nil]; exact hes
  | refused pre hs =>
    subst hs
    exact (preStepLogged_checked hd pre).released hes hask
  | broken => exact hes.append_exchanged rfl
  | threw pre hs =>
    subst hs
    exact (preStepLogged_checked hd pre).released hes hask
  | executed pre hs post hs₂ =>
    subst hs
    have hchecked := preStepLogged_checked hd pre
    obtain ⟨-, hlater⟩ := postStepLogged_ok (by rw [hs₂]; exact hchecked.kept.1) post
    rw [← List.append_assoc] at hask ⊢
    refine (hchecked.released hes hask.of_append).executed ?_
    rcases hlater with ⟨-, rfl⟩ | ⟨-, rfl | rfl⟩ <;> rfl

theorem Session.released {d : DebugServer} {es : List Event} {o : Option DebugServer}
    (h : Session d es o) (hd : d.deferResponse = false) (hask : AsksWhenStopped es) :
    Released es := by
  induction h with
  | start => exact .inl rfl
  | round hsession hround ih =>
    exact hround.released (hsession.deferResponse hd _ rfl) (ih hask.of_append) hask

/-- In every session in which the client asks each time the core is stopped, a stopped target moves
    on request only. -/
theorem stopped_target_moves_on_request (core : U32) (client : TcpServer) {es : List Event}
    {o : Option DebugServer} (h : Session { core, serverSocket := client } es o)
    (hask : AsksWhenStopped es) : MovesOnRequest es := by
  have hreleased := h.released rfl hask
  refine movesOnRequest_of_watch ?_
  rcases hreleased with hq | hq
  · rw [hq]; decide
  · rw [hq]; decide

/-- A client of a core that has just been reset. -/
def connected (client : TcpServer) : DebugSession where
  server := { core := 0, serverSocket := client }
  cpu := {}
  memory := { physMem := { oracle := { rand := fun _ => 0, heap := fun _ => 0 } } }
  pc := 0

/-- A client that lets the core go on. -/
def goOnClient : TcpServer := { incoming := [some "$c#63".toList] }

theorem goOnClient_session : ∃ d, Session (connected goOnClient).server
    [.listening goOnClient, .request "c".toList, .sent "+".toList, .executed] (some d) := by
  have hpre : Effect.result (preStepLogged.run (connected goOnClient)) =
      some (true, [.listening goOnClient, .request "c".toList, .sent "+".toList]) := by
    decide +kernel
  have hpost : Effect.result (postStepLogged.run
      (Effect.final (preStepLogged.run (connected goOnClient)))) = some (true, []) := by
    decide +kernel
  exact Session.of_round hpre hpost

theorem goOnClient_asks : AsksWhenStopped
    [.listening goOnClient, .request "c".toList, .sent "+".toList, .executed] := by
  intro before client after h
  cases before with
  | nil =>
    cases h
    exact .inl (by decide)
  | cons e before =>
    have hmem : .listening client ∈
        [.request "c".toList, .sent "+".toList, (.executed : Event)] := by
      rw [(List.cons.inj h).2]
      exact List.mem_append_right _ List.mem_cons_self
    simp at hmem

/-- The client lets the core go on, and the core goes on. -/
theorem goOnClient_moves_on_request :
    AsksWhenStopped [.listening goOnClient, .request "c".toList, .sent "+".toList, .executed] ∧
    MovesOnRequest [.listening goOnClient, .request "c".toList, .sent "+".toList, .executed] := by
  obtain ⟨d, hsession⟩ := goOnClient_session
  exact ⟨goOnClient_asks, stopped_target_moves_on_request 0 goOnClient hsession goOnClient_asks⟩

/-- A client that sends a step request with a wrong checksum. -/
def badChecksum : TcpServer := { incoming := [some "$s#00".toList] }

theorem badChecksum_session : ∃ d, Session (connected badChecksum).server
    [.listening badChecksum, .failed, .executed] (some d) := by
  have hpre : Effect.result (preStepLogged.run (connected badChecksum)) =
      some (true, [.listening badChecksum, .failed]) := by decide +kernel
  have hpost : Effect.result (postStepLogged.run
      (Effect.final (preStepLogged.run (connected badChecksum)))) = some (true, []) := by
    decide +kernel
  exact Session.of_round hpre hpost

end DebugServer

namespace RiscvSimulator

open DebugServer (Session MovesOnRequest badChecksum badChecksum_session)

/-- A jump to self at the reset address, and a client whose first message has a wrong checksum. -/
def badChecksumMachine : RiscvSimulator :=
  init { resetAddress := 0x80000000, gdbPort := 1234 }
    (.simple 0x80000000 [0x6f, 0, 0, 0] badChecksum)

/-- The jump is executed although the client has asked for nothing. -/
theorem bad_checksum_resumes :
    (∃ s', (go 1).run badChecksumMachine = .ok (some 0, [(0, .executed)]) s') ∧
    ∃ es o, Session { core := 0, serverSocket := badChecksum } es o ∧ ¬ MovesOnRequest es := by
  refine ⟨Effect.ok_of_result (by decide +kernel), ?_⟩
  obtain ⟨d, hsession⟩ := badChecksum_session
  refine ⟨_, _, hsession, fun h => ?_⟩
  have hno := h [] badChecksum [.failed] [] rfl (by decide)
  exact absurd hno (by decide)

end RiscvSimulator

end Dimebox
