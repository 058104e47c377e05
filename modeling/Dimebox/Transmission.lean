import Dimebox.Rounds

/-! What a session sends.

    The packets in the log of a check are those that were written to the socket meanwhile, and where
    the server begins to listen, the socket has sent what stands in the log before. So the log of a
    session tells what the client is sent, and when. -/

namespace Dimebox

theorem TcpServer.read_sent (t : TcpServer) : t.read.2.sent = t.sent := by
  unfold read
  split <;> rfl

/-- A write that succeeds sends its bytes. -/
theorem TcpServer.write_sent (t : TcpServer) (bytes : List Char) :
    (t.write bytes).2.sent = t.sent ++ if (t.write bytes).1 then [bytes] else [] := by
  unfold write
  split
  · exact (List.append_nil _).symm
  · rfl
  · rfl

namespace DebugServer

/-- The packets that were sent. -/
def packets (es : List Event) : List (List Char) := es.filterMap fun
  | .sent packet => some packet
  | _ => none

theorem packets_append (es log : List Event) : packets (es ++ log) = packets es ++ packets log :=
  List.filterMap_append

/-- From `t` to `t'` the socket has sent the packets of the log, in the order of the log. -/
structure Sends (t : TcpServer) (log : List Event) (t' : TcpServer) : Prop where
  sent : t'.sent = t.sent ++ packets log
  /-- at every point where the server begins to listen as well -/
  listening : ∀ before client after, log = before ++ .listening client :: after →
    client.sent = t.sent ++ packets before

namespace Sends

variable {t t₁ t' : TcpServer} {log later : List Event}

theorem nil (h : t'.sent = t.sent) : Sends t [] t' := by
  refine ⟨h.trans (List.append_nil _).symm, fun before client after heq => ?_⟩
  simp at heq

theorem single {e : Event} (h : t'.sent = t.sent ++ packets [e])
    (he : ∀ client, e = .listening client → client.sent = t.sent) : Sends t [e] t' := by
  refine ⟨h, fun before client after heq => ?_⟩
  cases before with
  | nil =>
    rw [he client (List.cons.inj heq).1]
    exact (List.append_nil _).symm
  | cons e' before => simp at heq

theorem append (h : Sends t log t₁) (h' : Sends t₁ later t') : Sends t (log ++ later) t' := by
  refine ⟨?_, fun before client after heq => ?_⟩
  · rw [h'.sent, h.sent, packets_append, List.append_assoc]
  · rcases List.append_eq_append_iff.mp heq with ⟨rest, rfl, hlater⟩ | ⟨rest, hlog, hafter⟩
    · rw [h'.listening rest client after hlater, h.sent, packets_append, List.append_assoc]
    · cases rest with
      | nil =>
        rw [List.append_nil] at hlog
        subst hlog
        have hfirst := h'.listening [] client after hafter.symm
        rw [hfirst, h.sent]
        exact List.append_nil _
      | cons e rest =>
        obtain ⟨rfl, -⟩ := List.cons.inj hafter
        exact h.listening before client rest hlog

end Sends

/-! ### The checks -/

section Checks

variable {s s' : DebugSession} {log : List Event}

theorem writeLogged_sends {bytes : List Char} {b : Bool}
    (h : (writeLogged bytes).run s = .ok (b, log) s') :
    Sends s.server.serverSocket log s'.server.serverSocket := by
  have hsent := TcpServer.write_sent s.server.serverSocket bytes
  obtain ⟨written, s₁, hwrite, h⟩ := Effect.ok_of_bind h
  cases hwrite
  cases hb : (s.server.serverSocket.write bytes).1 with
  | true =>
    rw [hb, if_pos rfl] at hsent h
    cases h
    exact .single hsent fun client hclient => by cases hclient
  | false =>
    rw [hb, if_neg Bool.false_ne_true] at hsent h
    cases h
    exact .single hsent fun client hclient => by cases hclient

theorem dispatch_serverSocket {pdata response : List Char}
    (h : (dispatch pdata).run s = .ok response s') :
    s'.server.serverSocket = s.server.serverSocket := by
  cases dispatch_dispatched h with
  | empty | «continue» | step | kill => rfl
  | ordinary _ _ _ same => exact same.serverSocket

theorem answerLogged_sends {pdata : List Char} (h : (answerLogged pdata).run s = .ok log s') :
    Sends s.server.serverSocket log s'.server.serverSocket := by
  obtain ⟨response, s₁, hresponse, h⟩ := Effect.ok_of_bind h
  rw [Effect.run_tryCatch, ← bind_pure_comp, EStateM.run_bind] at hresponse
  cases hrun : (dispatch pdata).run s with
  | error f s₂ =>
    rw [hrun] at hresponse
    cases f with
    | runtimeError what => exact absurd rfl (dispatch_noRuntimeError hrun what)
    | sim | mblock | outOfRange | undefined => cases hresponse
  | ok packet s₂ =>
    rw [hrun] at hresponse
    cases hresponse
    rw [← dispatch_serverSocket hrun]
    dsimp only at h
    split at h
    · cases h
      exact .nil rfl
    · obtain ⟨deferred, s₃, htake, h⟩ := Effect.ok_of_bind h
      cases htake
      split at h
      · cases h
        exact .nil rfl
      · obtain ⟨⟨b, log'⟩, s₄, hwrite, h⟩ := Effect.ok_of_bind h
        cases h
        have hsent := writeLogged_sends hwrite
        exact hsent

theorem serveLogged_sends {pdata : List Char} (h : (serveLogged pdata).run s = .ok log s') :
    Sends s.server.serverSocket log s'.server.serverSocket := by
  rw [serveLogged] at h
  dsimp only at h
  have hanswer : ∀ {s₁ : DebugSession} {acked : Bool} {ack : List Event},
      Sends s.server.serverSocket ack s₁.server.serverSocket →
      (if acked then do return ack ++ (← answerLogged pdata) else return ack : DebugM _).run s₁
        = .ok log s' → Sends s.server.serverSocket log s'.server.serverSocket := by
    intro s₁ acked ack hack h
    split at h
    · obtain ⟨answer, s₂, hrun, h⟩ := Effect.ok_of_bind h
      cases h
      exact hack.append (answerLogged_sends hrun)
    · cases h
      exact hack
  split at h
  · obtain ⟨⟨acked, ack⟩, s₁, hwrite, h⟩ := Effect.ok_of_bind h
    exact hanswer (writeLogged_sends hwrite) h
  · have hnone : Sends s.server.serverSocket [] s.server.serverSocket := .nil rfl
    exact @hanswer s true [] hnone h

theorem messageLogged_sends (h : messageLogged.run s = .ok log s') :
    Sends s.server.serverSocket log s'.server.serverSocket := by
  have hread := TcpServer.read_sent s.server.serverSocket
  have hquiet : ∀ {e : Event} {t : TcpServer}, t.sent = s.server.serverSocket.sent →
      packets [e] = [] → (∀ client, e ≠ .listening client) →
      Sends s.server.serverSocket [e] t := by
    intro e t ht hpackets hnot
    refine .single ?_ fun client hclient => absurd hclient (hnot client)
    rw [ht, hpackets, List.append_nil]
  obtain ⟨r, s₁, hsocket, h⟩ := Effect.ok_of_bind h
  cases hsocket
  dsimp only at h
  split at h
  · cases h
    exact hquiet hread rfl (by simp)
  · split at h
    · cases h
      exact hquiet hread rfl (by simp)
    · next clientRequest _ =>
      obtain ⟨answer, s₂, hserve, h⟩ := Effect.ok_of_bind h
      cases h
      have hrequest : Sends s.server.serverSocket [.request clientRequest]
          s.server.serverSocket.read.2 := hquiet hread rfl (by simp)
      exact hrequest.append (serveLogged_sends hserve)

theorem pollLoopLogged_sends (n : Nat) (h : (pollLoopLogged n).run s = .ok log s') :
    Sends s.server.serverSocket log s'.server.serverSocket := by
  induction n generalizing s log with
  | zero =>
    cases h
    exact .nil rfl
  | succ n ih =>
    rw [pollLoopLogged, EStateM.run_bind, EStateM.run_get] at h
    dsimp only at h
    split at h
    · obtain ⟨first, s₁, hmessage, h⟩ := Effect.ok_of_bind h
      obtain ⟨rest, s₂, hrest, h⟩ := Effect.ok_of_bind h
      cases h
      exact (messageLogged_sends hmessage).append (ih hrest)
    · cases h
      exact .nil rfl

theorem pollLogged_sends {goOn : Bool} (h : pollLogged.run s = .ok (goOn, log) s') :
    Sends s.server.serverSocket log s'.server.serverSocket := by
  obtain ⟨_, s₁, hlisten, h⟩ := Effect.ok_of_bind h
  cases hlisten
  obtain ⟨s₂, s₃, hget, h⟩ := Effect.ok_of_bind h
  cases hget
  obtain ⟨later, s₄, hloop, h⟩ := Effect.ok_of_bind h
  obtain ⟨s₅, s₆, hget, h⟩ := Effect.ok_of_bind h
  cases hget
  cases h
  have hlistens : Sends s.server.serverSocket [.listening s.server.serverSocket]
      s.server.serverSocket := by
    refine .single (List.append_nil _).symm fun client hclient => ?_
    cases hclient
    rfl
  have hloop := pollLoopLogged_sends _ hloop
  exact hlistens.append hloop

theorem acknowledgeLogged_sends {pc : U64} (h : (acknowledgeLogged pc).run s = .ok log s') :
    Sends s.server.serverSocket log s'.server.serverSocket := by
  obtain ⟨s₁, s₂, hget, h⟩ := Effect.ok_of_bind h
  cases hget
  obtain ⟨⟨b, log'⟩, s₃, hwrite, h⟩ := Effect.ok_of_bind h
  cases h
  exact writeLogged_sends hwrite

theorem preStepLogged_sends {goOn : Bool} (h : preStepLogged.run s = .ok (goOn, log) s') :
    Sends s.server.serverSocket log s'.server.serverSocket := by
  rw [preStepLogged, EStateM.run_bind, EStateM.run_get] at h
  dsimp only at h
  split at h
  · obtain ⟨_, s₁, hmodify, h⟩ := Effect.ok_of_bind h
    cases hmodify
    have hpoll := pollLogged_sends h
    exact hpoll
  · split at h
    · cases h
      exact .nil rfl
    · split at h
      · obtain ⟨_, s₁, hmodify, h⟩ := Effect.ok_of_bind h
        cases hmodify
        have hpoll := pollLogged_sends h
        exact hpoll
      · split at h
        · obtain ⟨ack, s₁, hack, h⟩ := Effect.ok_of_bind h
          obtain ⟨⟨goOn', log'⟩, s₂, hpoll, h⟩ := Effect.ok_of_bind h
          cases h
          exact (acknowledgeLogged_sends hack).append (pollLogged_sends hpoll)
        · cases h
          exact .nil rfl

theorem postStepLogged_sends {goOn : Bool} (h : postStepLogged.run s = .ok (goOn, log) s') :
    Sends s.server.serverSocket log s'.server.serverSocket := by
  rw [postStepLogged, EStateM.run_bind, EStateM.run_get] at h
  dsimp only at h
  split at h
  · cases h
    exact .nil rfl
  · split at h
    · obtain ⟨ack, s₁, hack, h⟩ := Effect.ok_of_bind h
      cases h
      exact acknowledgeLogged_sends hack
    · cases h
      exact .nil rfl

end Checks

/-! ### Sessions -/

/-- Over a session that is now at `o`, the socket `client` has sent the packets of the session, each
    where it stands among the events. -/
structure Transmitted (client : TcpServer) (es : List Event) (o : Option DebugServer) : Prop where
  sent : ∀ d ∈ o, d.serverSocket.sent = client.sent ++ packets es
  listening : ∀ before t after, es = before ++ .listening t :: after →
    t.sent = client.sent ++ packets before

theorem Round.sends {d : DebugServer} {ran : Bool} {log : List Event} {o : Option DebugServer}
    (h : Round d ran log o) : ∃ t, Sends d.serverSocket log t ∧ ∀ d' ∈ o, d'.serverSocket = t := by
  cases h with
  | returned => exact ⟨d.serverSocket, .nil rfl, by simp⟩
  | ended => exact ⟨d.serverSocket, .nil rfl, by simp⟩
  | refused pre hs =>
    subst hs
    exact ⟨_, preStepLogged_sends pre, by simp⟩
  | broken =>
    refine ⟨d.serverSocket, .single (List.append_nil _).symm fun client hclient => ?_, by simp⟩
    cases hclient
  | threw pre hs =>
    subst hs
    exact ⟨_, preStepLogged_sends pre, by simp⟩
  | @executed s s₁ s₂ s' goOn log later pre hs post hs₂ =>
    subst hs
    have hexecuted : Sends s₁.server.serverSocket [.executed] s₂.server.serverSocket := by
      refine .single ?_ fun client hclient => by cases hclient
      rw [hs₂]
      exact (List.append_nil _).symm
    exact ⟨_, (preStepLogged_sends pre).append (hexecuted.append (postStepLogged_sends post)),
      by simp⟩

theorem Session.transmitted {d : DebugServer} {es : List Event} {o : Option DebugServer}
    (h : Session d es o) : Transmitted d.serverSocket es o := by
  have hsends : ∃ t, Sends d.serverSocket es t ∧ ∀ d' ∈ o, d'.serverSocket = t := by
    induction h with
    | start => exact ⟨_, .nil rfl, by simp⟩
    | round _ hround ih =>
      obtain ⟨t, hes, hd⟩ := ih
      obtain ⟨t', hlog, hd'⟩ := hround.sends
      rw [hd _ rfl] at hlog
      exact ⟨t', hes.append hlog, hd'⟩
  obtain ⟨t, hsends, ht⟩ := hsends
  refine ⟨fun d' hd' => ?_, hsends.listening⟩
  rw [ht d' hd']
  exact hsends.sent

end DebugServer

end Dimebox
