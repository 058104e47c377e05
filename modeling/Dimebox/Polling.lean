import Dimebox.Session

/-! What `Poll` does with the client's messages.

    A message fails, is answered and the server goes on listening, or lets the core run. `Polled`
    strings messages together until one of them ends listening. Whether that is a request or a failure
    can be told from what the client has sent (`asking`). -/

namespace Dimebox

namespace DebugServer

instance (pdata : List Char) (a : Rsp.Action) : Decidable (Asks pdata a) :=
  inferInstanceAs (Decidable (_ = _))

instance (pdata : List Char) : Decidable (Resumes pdata) := inferInstanceAs (Decidable (_ ∨ _))

theorem not_asks_nil (a : Rsp.Action) : ¬ Asks [] a := by
  have hnil : Rsp.action [] = .ok none := rfl
  rw [Asks, hnil]
  exact fun h => by cases h

theorem not_resumes_nil : ¬ Resumes [] := fun h => h.elim (not_asks_nil _) (not_asks_nil _)

/-- The request lets the core run or kills it. -/
def Moves (pdata : List Char) : Prop := Resumes pdata ∨ Asks pdata .killTarget

instance (pdata : List Char) : Decidable (Moves pdata) := inferInstanceAs (Decidable (_ ∨ _))

/-- A request that lets the core run or kills it was read. -/
def moves : Event → Bool
  | .request pdata => Moves pdata
  | _ => false

/-- A request that kills the core was read. -/
def kills : Event → Bool
  | .request pdata => Asks pdata .killTarget
  | _ => false

/-- Something was read or written, or failed to be. -/
def exchanged : Event → Bool
  | .request _ | .sent _ | .failed => true
  | _ => false

/-- A client that sends `incoming` asks for a step or to go on, or kills the target, before anything
    goes wrong: its messages up to then can be read and decoded, and are acknowledged and answered. -/
def asking : List (Option (List Char)) → List Bool → Bool
  | some message :: incoming, writeFails =>
    match Rsp.decode message with
    | .error _ => false
    | .ok [] => asking incoming writeFails
    | .ok pdata => Moves pdata || (writeFails.head? ≠ some true &&
        (writeFails.drop 1).head? ≠ some true && asking incoming (writeFails.drop 2))
  | _, _ => false

end DebugServer

def TcpServer.asking (t : TcpServer) : Bool := DebugServer.asking t.incoming t.writeFails

/-- The next write fails. -/
def TcpServer.fails (t : TcpServer) : Bool := t.writeFails.head? = some true

theorem TcpServer.write_fst (t : TcpServer) (bytes : List Char) : (t.write bytes).1 = !t.fails := by
  unfold write fails
  split
  · next h => rw [h]; rfl
  · next h => rw [h]; rfl
  · next h => rw [h]; rfl

theorem TcpServer.write_snd (t : TcpServer) (bytes : List Char) :
    (t.write bytes).2.incoming = t.incoming ∧
      (t.write bytes).2.writeFails = t.writeFails.drop 1 := by
  unfold write
  split
  · next h => rw [h]; exact ⟨rfl, rfl⟩
  · next h => rw [h]; exact ⟨rfl, rfl⟩
  · next h => rw [h]; exact ⟨rfl, rfl⟩

namespace DebugServer

/-! ### One answer -/

theorem Asks.ne {pdata : List Char} {a b : Rsp.Action} (h : Asks pdata a) (hab : a ≠ b) :
    ¬ Asks pdata b := fun hb => hab (Option.some.inj (Except.ok.inj (h.symm.trans hb)))

theorem writeLogged_ok {bytes : List Char} {s s' : DebugSession} {b : Bool} {log : List Event}
    (h : (writeLogged bytes).run s = .ok (b, log) s') :
    (s.server.serverSocket.fails = true ∧ b = false ∧ log = [.failed] ∧
      s'.server.flags = { s.server.flags with listening := false }) ∨
    (s.server.serverSocket.fails = false ∧ b = true ∧ log = [.sent bytes] ∧
      s'.server.flags = s.server.flags ∧
      s'.server.serverSocket.incoming = s.server.serverSocket.incoming ∧
      s'.server.serverSocket.writeFails = s.server.serverSocket.writeFails.drop 1) := by
  have hfst := TcpServer.write_fst s.server.serverSocket bytes
  obtain ⟨hincoming, hwriteFails⟩ := TcpServer.write_snd s.server.serverSocket bytes
  obtain ⟨written, s₁, hwrite, h⟩ := Effect.ok_of_bind h
  cases hwrite
  rw [hfst] at h
  cases hfails : s.server.serverSocket.fails with
  | true =>
    rw [hfails] at h
    cases h
    exact .inl ⟨rfl, rfl, rfl, by simp [flags]⟩
  | false =>
    rw [hfails] at h
    cases h
    exact .inr ⟨rfl, rfl, rfl, by simp [flags], hincoming, hwriteFails⟩

/-- What the server did from `Dispatch` on. -/
inductive Answered (s : DebugSession) (pdata : List Char) : List Event → DebugSession → Prop where
  | empty (h : pdata = []) : Answered s pdata [] s
  | resumed {s' : DebugSession} (h : Resumes pdata) (flags : s'.server.flags = { s.server.flags with
      listening := false, doStep := s.server.doStep || decide (Asks pdata .step) }) :
      Answered s pdata [] s'
  | sent {packet : List Char} {s' : DebugSession} (hne : pdata ≠ []) (h : ¬ Resumes pdata)
      (hp : ¬ IsStopReply packet) (written : s.server.serverSocket.fails = false)
      (flags : s'.server.flags = { s.server.flags with
        doShutdown := s.server.doShutdown || decide (Asks pdata .killTarget) })
      (incoming : s'.server.serverSocket.incoming = s.server.serverSocket.incoming)
      (writeFails : s'.server.serverSocket.writeFails = s.server.serverSocket.writeFails.drop 1) :
      Answered s pdata [.sent packet] s'
  | failed {s' : DebugSession} (hne : pdata ≠ []) (h : ¬ Resumes pdata)
      (refused : s.server.serverSocket.fails = true)
      (flags : s'.server.flags = { s.server.flags with
        listening := false
        doShutdown := s.server.doShutdown || decide (Asks pdata .killTarget) }) :
      Answered s pdata [.failed] s'

/-- A response that is not deferred is sent, or the write fails. -/
theorem answered_write {s s₁ : DebugSession} {pdata packet : List Char} (hne : pdata ≠ [])
    (hr : ¬ Resumes pdata) (hp : ¬ IsStopReply packet) (hd : s.server.deferResponse = false)
    (hflags : s₁.server.flags = { s.server.flags with
      doShutdown := s.server.doShutdown || decide (Asks pdata .killTarget) })
    (hsocket : s₁.server.serverSocket = s.server.serverSocket) {log : List Event}
    {s' : DebugSession}
    (h : (do
      if ← takeDeferResponse then
        stopListening
        return []
      else return (← writeLogged packet).2 : DebugM _).run s₁ = .ok log s') :
    Answered s pdata log s' := by
  simp only [flags, Flags.mk.injEq] at hflags
  obtain ⟨deferred, s₂, htake, h⟩ := Effect.ok_of_bind h
  cases htake
  dsimp only at h
  rw [hflags.2.2.1, hd, if_neg Bool.false_ne_true] at h
  obtain ⟨⟨b, log'⟩, s₃, hwrite, h⟩ := Effect.ok_of_bind h
  cases h
  rcases writeLogged_ok hwrite with ⟨hfails, -, rfl, hflags'⟩ |
    ⟨hfails, -, rfl, hflags', hincoming, hwriteFails⟩
  · rw [hsocket] at hfails
    refine .failed hne hr hfails ?_
    rw [hflags']
    simp [flags, hflags, hd]
  · rw [hsocket] at hfails hincoming hwriteFails
    refine .sent hne hr hp hfails ?_ hincoming hwriteFails
    rw [hflags']
    simp [flags, hflags, hd]

theorem length_encode_ne (text : List Char) : (Rsp.encode text).length ≠ 0 := by
  simp [Rsp.encode]

theorem answerLogged_answered {s s' : DebugSession} {pdata : List Char} {log : List Event}
    (hd : s.server.deferResponse = false)
    (h : (answerLogged pdata).run s = .ok log s') : Answered s pdata log s' := by
  obtain ⟨response, s₁, hresponse, h⟩ := Effect.ok_of_bind h
  rw [Effect.run_tryCatch, ← bind_pure_comp, EStateM.run_bind] at hresponse
  cases hrun : (dispatch pdata).run s with
  | error f s₂ =>
    rw [hrun] at hresponse
    cases f with
    | runtimeError what => exact absurd rfl (dispatch_noRuntimeError hrun what)
    | sim | mblock | outOfRange | undefined => cases hresponse
  | ok packet s₂ =>
    rw [hrun] at hresponse
    cases hresponse
    dsimp only at h
    cases dispatch_dispatched hrun with
    | empty hnil => cases h; exact .empty hnil
    | «continue» hasks =>
      rw [if_neg (length_encode_ne _)] at h
      cases h
      refine .resumed (.inr hasks) ?_
      simp [flags, hd, hasks.ne (by decide : Rsp.Action.continue ≠ .step)]
    | step hasks =>
      rw [if_neg (length_encode_ne _)] at h
      cases h
      refine .resumed (.inl hasks) ?_
      simp [flags, hd, hasks]
    | kill hasks =>
      rw [if_neg (length_encode_ne _)] at h
      have hr : ¬ Resumes pdata := fun hr => hr.elim (hasks.ne (by decide)) (hasks.ne (by decide))
      refine answered_write ?_ hr (not_isStopReply (by decide)) hd ?_ ?_ h
      · rintro rfl
        exact not_asks_nil _ hasks
      · simp [flags, hd, hasks]
      · rfl
    | ordinary hne hr hk same ht =>
      rw [if_neg (length_encode_ne _)] at h
      refine answered_write hne hr ht hd ?_ same.serverSocket h
      rw [same.flags]
      simp [flags, hk]

/-! ### One message -/

/-- A message after which the server does not listen any more. -/
inductive Ended (s : DebugSession) : List Event → DebugSession → Prop where
  | failed {log : List Event} {s' : DebugSession} (failed : .failed ∈ log)
      (exchange : log.all exchanged)
      (asked : s.server.serverSocket.asking = log.any moves)
      (flags : s'.server.flags = { s.server.flags with
        listening := false, doShutdown := s'.server.doShutdown })
      (shutdown : s'.server.doShutdown → s.server.doShutdown || log.any kills) : Ended s log s'
  | resumed {pdata : List Char} {s' : DebugSession} (h : Resumes pdata)
      (asked : s.server.serverSocket.asking)
      (flags : s'.server.flags = { s.server.flags with
        listening := false, doStep := s.server.doStep || decide (Asks pdata .step) }) :
      Ended s [.request pdata, .sent ['+']] s'

/-- A request that was answered, and the server listens on. -/
structure Ordinary (s : DebugSession) (pdata : List Char) (log : List Event) (s' : DebugSession) :
    Prop where
  stays : ¬ Resumes pdata
  quiet : ∀ e ∈ log, ∃ packet, e = .sent packet ∧ ¬ IsStopReply packet
  asked : s.server.serverSocket.asking =
    (decide (Asks pdata .killTarget) || s'.server.serverSocket.asking)
  flags : s'.server.flags = { s.server.flags with
    doShutdown := s.server.doShutdown || decide (Asks pdata .killTarget) }
  read : s'.server.serverSocket.incoming.length < s.server.serverSocket.incoming.length

/-- What a message did. -/
inductive Messaged (s : DebugSession) : List Event → DebugSession → Prop where
  | ended {log : List Event} {s' : DebugSession} (h : Ended s log s') : Messaged s log s'
  | ordinary {pdata : List Char} {log : List Event} {s' : DebugSession}
      (h : Ordinary s pdata log s') : Messaged s (.request pdata :: log) s'

/-- A message that was decoded. -/
theorem serveLogged_messaged {s s₁ s' : DebugSession} {message pdata : List Char}
    {log : List Event} (hd : s.server.deferResponse = false)
    (hin : s.server.serverSocket.incoming = some message :: s₁.server.serverSocket.incoming)
    (hdecode : Rsp.decode message = .ok pdata) (hflags : s₁.server.flags = s.server.flags)
    (hfails : s₁.server.serverSocket.writeFails = s.server.serverSocket.writeFails)
    (h : (serveLogged pdata).run s₁ = .ok log s') : Messaged s (.request pdata :: log) s' := by
  have hd₁ : s₁.server.deferResponse = false := (congrArg Flags.deferResponse hflags).trans hd
  rw [serveLogged] at h
  dsimp only at h
  cases pdata with
  | nil =>
    rw [Rsp.acknowledge, if_neg (by decide)] at h
    obtain ⟨acked, s₂, hack, h⟩ := Effect.ok_of_bind h
    cases hack
    obtain ⟨log', s₃, hanswer, h⟩ := Effect.ok_of_bind h
    cases h
    cases answerLogged_answered hd₁ hanswer with
    | empty =>
      refine .ordinary ⟨not_resumes_nil, by simp, ?_, ?_, by simp [hin]⟩
      · rw [TcpServer.asking, hin, asking, hdecode, ← hfails]
        simp [TcpServer.asking, not_asks_nil]
      · rw [hflags]
        simp [flags, not_asks_nil]
    | resumed hr => exact absurd hr not_resumes_nil
    | sent hne => exact absurd rfl hne
    | failed hne => exact absurd rfl hne
  | cons c cs =>
    have hasking : s.server.serverSocket.asking = (decide (Moves (c :: cs)) ||
        (!s₁.server.serverSocket.fails &&
          decide ((s₁.server.serverSocket.writeFails.drop 1).head? ≠ some true) &&
        asking s₁.server.serverSocket.incoming (s₁.server.serverSocket.writeFails.drop 2))) := by
      rw [TcpServer.asking, hin, asking, hdecode, ← hfails, TcpServer.fails, decide_not]
    rw [Rsp.acknowledge, if_pos (by simp), if_pos (by simp)] at h
    obtain ⟨⟨acked, ack⟩, s₂, hwrite, h⟩ := Effect.ok_of_bind h
    dsimp only at h
    rcases writeLogged_ok hwrite with ⟨hack, rfl, rfl, hflags'⟩ |
      ⟨hack, rfl, rfl, hflags', hincoming, hwriteFails⟩
    · cases h
      rw [hack] at hasking
      simp only [flags, Flags.mk.injEq] at hflags hflags'
      refine .ended (.failed (by simp) (by simp [exchanged]) ?_ ?_ fun h => ?_)
      · rw [hasking]
        simp [moves]
      · simp [flags, hflags, hflags']
      · rw [← hflags.2.2.2.1, ← hflags'.2.2.2.1, h]
        rfl
    · obtain ⟨log', s₃, hanswer, h⟩ := Effect.ok_of_bind h
      cases h
      have hd₂ : s₂.server.deferResponse = false :=
        (congrArg Flags.deferResponse hflags').trans hd₁
      rw [hack] at hasking
      simp only [flags, Flags.mk.injEq] at hflags hflags'
      cases answerLogged_answered hd₂ hanswer with
      | empty hnil => cases hnil
      | resumed hr hf =>
        refine .ended (.resumed hr ?_ ?_)
        · rw [hasking]
          simp [Moves, hr]
        · rw [hf]
          simp [flags, hflags, hflags']
      | sent hne hr hp written hf incoming writeFails =>
        refine .ordinary ⟨hr, ?_, ?_, ?_, ?_⟩
        · intro e he
          rcases List.mem_pair.mp he with rfl | rfl
          · exact ⟨_, rfl, by decide⟩
          · exact ⟨_, rfl, hp⟩
        · rw [TcpServer.fails, decide_eq_false_iff_not, hwriteFails] at written
          rw [hasking, decide_eq_true written, TcpServer.asking, incoming, writeFails, hincoming,
            hwriteFails]
          simp [Moves, hr]
        · rw [hf]
          simp [flags, hflags, hflags']
        · rw [incoming, hincoming, hin]
          simp
      | failed hne hr refused hf =>
        rw [TcpServer.fails, decide_eq_true_iff, hwriteFails] at refused
        have hshutdown : s'.server.doShutdown = _ := congrArg Flags.doShutdown hf
        refine .ended (.failed (by simp) (by simp [exchanged]) ?_ ?_ fun h => ?_)
        · rw [hasking, decide_eq_false (not_not.mpr refused)]
          simp [moves]
        · rw [hf]
          simp_all [flags]
        · rw [hshutdown] at h
          simpa [kills, hflags, hflags'] using h

theorem messageLogged_messaged {s s' : DebugSession} {log : List Event}
    (hd : s.server.deferResponse = false) (h : messageLogged.run s = .ok log s') :
    Messaged s log s' := by
  have hfailed : s.server.serverSocket.asking = false → s'.server.flags =
      { s.server.flags with listening := false } → log = [.failed] → Messaged s log s' := by
    rintro hasking hflags rfl
    have hshutdown : s'.server.doShutdown = s.server.doShutdown := congrArg Flags.doShutdown hflags
    refine .ended (.failed (by simp) (by simp [exchanged]) hasking ?_ fun h => ?_)
    · rw [hflags, hshutdown]
      rfl
    · rw [← hshutdown, h]
      rfl
  obtain ⟨r, s₁, hread, h⟩ := Effect.ok_of_bind h
  cases hin : s.server.serverSocket.incoming with
  | nil =>
    have hr : s.server.serverSocket.read.1 = some [] := by rw [TcpServer.read, hin]
    cases hread
    rw [hr] at h
    cases h
    exact hfailed (by rw [TcpServer.asking, hin]; rfl) rfl rfl
  | cons r' incoming =>
    have hr : s.server.serverSocket.read = (r', { s.server.serverSocket with incoming }) := by
      rw [TcpServer.read, hin]
    cases hread
    rw [hr] at h
    cases r' with
    | none =>
      cases h
      exact hfailed (by rw [TcpServer.asking, hin]; rfl) rfl rfl
    | some message =>
      dsimp only at h
      cases hdecode : Rsp.decode message with
      | error f =>
        rw [hdecode] at h
        cases h
        exact hfailed (by rw [TcpServer.asking, hin, asking, hdecode]) rfl rfl
      | ok pdata =>
        rw [hdecode] at h
        obtain ⟨log', s₂, hserve, h⟩ := Effect.ok_of_bind h
        cases h
        refine serveLogged_messaged hd ?_ hdecode ?_ ?_ hserve
        · exact hin
        · rfl
        · rfl

/-! ### The loop -/

/-- What the loop of `Poll` did. -/
inductive Polled : DebugSession → List Event → DebugSession → Prop where
  | last {s s' : DebugSession} {log : List Event} (h : Ended s log s') : Polled s log s'
  | next {s s₁ s' : DebugSession} {pdata : List Char} {log later : List Event}
      (h : Ordinary s pdata log s₁) (rest : Polled s₁ later s') :
      Polled s (.request pdata :: (log ++ later)) s'

theorem pollLoopLogged_polled (n : Nat) {s s' : DebugSession} {log : List Event}
    (hn : s.server.serverSocket.incoming.length < n) (hl : s.server.listening = true)
    (hd : s.server.deferResponse = false) (h : (pollLoopLogged n).run s = .ok log s') :
    Polled s log s' := by
  induction n generalizing s log with
  | zero => exact absurd hn (Nat.not_lt_zero _)
  | succ n ih =>
    rw [pollLoopLogged, EStateM.run_bind, EStateM.run_get] at h
    dsimp only at h
    rw [if_pos hl] at h
    obtain ⟨log', s₁, hmessage, h⟩ := Effect.ok_of_bind h
    obtain ⟨later, s₂, hrest, h⟩ := Effect.ok_of_bind h
    cases h
    cases messageLogged_messaged hd hmessage with
    | ended hended =>
      have hl₁ : s₁.server.listening = false := by
        cases hended with
        | failed _ _ _ hf => exact congrArg Flags.listening hf
        | resumed _ _ hf => exact congrArg Flags.listening hf
      have hstop : later = [] ∧ s' = s₁ := by
        cases n with
        | zero => cases hrest; exact ⟨rfl, rfl⟩
        | succ n =>
          rw [pollLoopLogged, EStateM.run_bind, EStateM.run_get] at hrest
          dsimp only at hrest
          rw [if_neg (by simp [hl₁])] at hrest
          cases hrest
          exact ⟨rfl, rfl⟩
      obtain ⟨rfl, rfl⟩ := hstop
      rw [List.append_nil]
      exact .last hended
    | ordinary hord =>
      have hread := hord.read
      exact .next hord (ih (by omega) ((congrArg Flags.listening hord.flags).trans hl)
        ((congrArg Flags.deferResponse hord.flags).trans hd) hrest)

theorem Ordinary.all_exchanged {s s' : DebugSession} {pdata : List Char} {log : List Event}
    (h : Ordinary s pdata log s') : log.all exchanged := by
  rw [List.all_eq_true]
  intro e he
  obtain ⟨packet, rfl, -⟩ := h.quiet e he
  rfl

theorem Polled.all_exchanged {s s' : DebugSession} {log : List Event} (h : Polled s log s') :
    log.all exchanged := by
  induction h with
  | last hended =>
    cases hended with
    | failed _ exchange => exact exchange
    | resumed => rfl
  | next hord rest ih =>
    rw [List.all_cons, List.all_append, hord.all_exchanged, ih]
    rfl

theorem Ordinary.any_moves {s s' : DebugSession} {pdata : List Char} {log : List Event}
    (h : Ordinary s pdata log s') : log.any moves = false := by
  rw [List.any_eq_false]
  intro e he
  obtain ⟨packet, rfl, -⟩ := h.quiet e he
  exact Bool.false_ne_true

/-- The client asked for a step or to go on, or killed the target, in a `Poll` that returned, if and
    only if its messages can be read, decoded and answered up to such a request. -/
theorem Polled.any_moves {s s' : DebugSession} {log : List Event} (h : Polled s log s') :
    log.any moves = s.server.serverSocket.asking := by
  induction h with
  | last hended =>
    cases hended with
    | failed _ _ asked => exact asked.symm
    | resumed hr asked => rw [asked]; simp [moves, Moves, hr]
  | next hord rest ih =>
    rw [List.any_cons, List.any_append, hord.any_moves, ih, hord.asked]
    simp [moves, Moves, hord.stays]

/-- Only a client that kills the target shuts the server down. -/
theorem Polled.shutdown {s s' : DebugSession} {log : List Event} (h : Polled s log s')
    (hs' : s'.server.doShutdown = true) : s.server.doShutdown = true ∨ log.any kills = true := by
  induction h with
  | last hended =>
    cases hended with
    | failed _ _ _ _ shutdown => exact Bool.or_eq_true _ _ ▸ shutdown hs'
    | resumed _ _ hf => exact .inl ((congrArg Flags.doShutdown hf).symm.trans hs')
  | @next s s₁ s' pdata log later hord rest ih =>
    rw [List.any_cons, List.any_append, Bool.or_eq_true, Bool.or_eq_true]
    rcases ih hs' with h | h
    · have hf : s₁.server.doShutdown = (s.server.doShutdown || decide (Asks pdata .killTarget)) :=
        congrArg Flags.doShutdown hord.flags
      rw [hf, Bool.or_eq_true] at h
      exact h.imp_right .inl
    · exact .inr (.inr (.inr h))

end DebugServer

end Dimebox
