import Dimebox.DebugFrame

/-! Debug clients that write neither registers nor memory.

    Such a client may look at anything, set and clear breakpoints, step, go on, end the session or
    send what no command is. Whatever it sends, the core of the session stays as it is, and memory
    only settles bytes that had no value yet. -/

namespace Dimebox

/-! ### The client -/

/-- No request to write a register or memory. -/
def DebugServer.looksOnly (pdata : List Char) : Bool :=
  match Rsp.action pdata with
  | .ok (some .writeRegister) => false
  | .ok (some .writeMemory) => false
  | _ => true

/-- Nor is one in what a read of the socket returns. -/
def DebugServer.inspects (message : Option (List Char)) : Bool :=
  match message.map Rsp.decode with
  | some (.ok pdata) => looksOnly pdata
  | _ => true

/-- All the client is going to send. -/
def DebugServer.Inspected (d : DebugServer) : Prop :=
  ∀ message ∈ d.serverSocket.incoming, inspects message

/-- What a session without writes does: the core stays, and memory settles more bytes. -/
structure Looks (s s' : DebugSession) : Prop where
  cpu : s'.cpu = s.cpu
  memory : s.memory.devices = [] → ∃ p, s'.memory = { s.memory with physMem := p } ∧
    Cells.Grows s.memory.physMem.seen p.seen
  incoming : s'.server.serverSocket.incoming <:+ s.server.serverSocket.incoming

namespace Looks

theorem of_same {s s' : DebugSession} (hcpu : s'.cpu = s.cpu) (hmem : s'.memory = s.memory)
    (hin : s'.server.serverSocket.incoming <:+ s.server.serverSocket.incoming) : Looks s s' :=
  ⟨hcpu, fun _ => ⟨s.memory.physMem, hmem, .refl _⟩, hin⟩

theorem refl (s : DebugSession) : Looks s s := .of_same rfl rfl (List.suffix_refl _)

theorem trans {s s' s'' : DebugSession} (h : Looks s s') (h' : Looks s' s'') : Looks s s'' := by
  refine ⟨h'.cpu.trans h.cpu, fun hdev => ?_, h'.incoming.trans h.incoming⟩
  obtain ⟨p, hp, hgrows⟩ := h.memory hdev
  obtain ⟨p', hp', hgrows'⟩ := h'.memory (by rw [hp]; exact hdev)
  rw [hp] at hp' hgrows'
  exact ⟨p', hp', hgrows.trans hgrows'⟩

theorem inspected {s s' : DebugSession} (h : Looks s s') (hs : s.server.Inspected) :
    s'.server.Inspected := fun message hm => hs message (h.incoming.mem hm)

end Looks

/-- A read without devices leaves everything but the block store. -/
theorem Memory.readPhysicalMemory_looks {m : Memory} (hdev : m.devices = []) (a : U64) (n : Int)
    (buf : List Byte) : ∃ p,
      Effect.final ((readPhysicalMemory a n buf false true).run m) = { m with physMem := p } ∧
      Cells.Grows m.physMem.seen p.seen := by
  have hkeeps := (readPhysicalMemory_frame a n buf false true m).keeps.grows
  suffices h : ∃ p, Effect.final ((readPhysicalMemory a n buf false true).run m)
      = { m with physMem := p } by
    obtain ⟨p, hp⟩ := h
    rw [hp] at hkeeps
    exact ⟨p, hp, hkeeps⟩
  cases hcheck : m.checkAddresses a n false with
  | error f =>
    rw [readPhysicalMemory_unchecked _ _ hcheck]
    exact ⟨m.physMem, rfl⟩
  | ok address =>
    rw [readPhysicalMemory_of_ram _ _ hcheck (deviceAt_nil hdev _), Effect.final_mapState]
    exact ⟨_, rfl⟩

namespace DebugServer

/-! ### Sessions -/

section Rules

variable {α β : Type}

theorem looks_pure (a : α) : Effect.Moves Looks (pure a : DebugM α) := Effect.moves_pure .refl a
theorem looks_throw (f : Fault) : Effect.Moves Looks (throw f : DebugM α) :=
  Effect.moves_throw .refl f
theorem looks_get : Effect.Moves Looks (get : DebugM DebugSession) := .refl

theorem looks_bind {x : DebugM α} {f : α → DebugM β} (hx : Effect.Moves Looks x)
    (hf : ∀ a, Effect.Moves Looks (f a)) : Effect.Moves Looks (x >>= f) :=
  Effect.moves_bind (R := Looks) .trans hx hf

theorem looks_map {x : DebugM α} (f : α → β) (hx : Effect.Moves Looks x) :
    Effect.Moves Looks (f <$> x) := by
  rw [← bind_pure_comp]
  exact looks_bind hx fun _ => looks_pure _

theorem looks_tryCatch {x : DebugM α} {k : Fault → DebugM α} (hx : Effect.Moves Looks x)
    (hk : ∀ f, Effect.Moves Looks (k f)) : Effect.Moves Looks (tryCatch x k) :=
  Effect.moves_tryCatch (R := Looks) .trans hx hk

theorem looks_ite {c : Prop} [Decidable c] {x y : DebugM α} (hx : Effect.Moves Looks x)
    (hy : Effect.Moves Looks y) : Effect.Moves Looks (if c then x else y) := by
  split
  · exact hx
  · exact hy

theorem looks_modifyServer {f : DebugServer → DebugServer}
    (h : ∀ d, (f d).serverSocket = d.serverSocket) : Effect.Moves Looks (modifyServer f) :=
  fun s => .of_same rfl rfl ((congrArg (fun t : TcpServer =>
    t.incoming <:+ s.server.serverSocket.incoming) (h s.server)).mpr (List.suffix_refl _))

end Rules

theorem looks_readMemory (pdata : List Char) : Effect.Moves Looks (readMemory pdata) := by
  have hread : ∀ (a : U64) (n : Int) (buf : List Byte),
      Effect.Moves Looks (onMemory (Memory.readPhysicalMemory a n buf false true)) := by
    intro a n buf s
    rw [onMemory, Effect.run_focus, Effect.final_mapState]
    exact ⟨rfl, fun hdev => Memory.readPhysicalMemory_looks hdev a n buf, List.suffix_refl _⟩
  rw [readMemory]
  split
  · exact looks_pure _
  · split
    · exact Effect.moves_throw_bind .refl _ _
    · refine looks_bind (looks_tryCatch (looks_map _ (hread _ _ _)) fun f => ?_) fun r => ?_
      · split
        · exact looks_throw _
        · exact looks_pure _
      · split
        · exact looks_pure _
        · split <;> exact looks_pure _

theorem looks_respond {pdata : List Char} {a : Option Rsp.Action} (hreg : a ≠ some .writeRegister)
    (hmem : a ≠ some .writeMemory) : Effect.Moves Looks (respond pdata a) := by
  have hflags : ∀ {f : DebugServer → DebugServer} (text : List Char),
      (∀ d, (f d).serverSocket = d.serverSocket) →
      Effect.Moves Looks (do modifyServer f; return text) :=
    fun _ hf => looks_bind (looks_modifyServer hf) fun _ => looks_pure _
  rw [respond.eq_def]
  split
  · exact hflags _ fun _ => rfl
  · rw [setBreakpoints]
    split
    · exact looks_pure _
    · split
      · exact hflags _ fun _ => rfl
      · split
        · exact hflags _ fun _ => rfl
        · exact looks_pure _
  · exact hflags _ fun _ => rfl
  · exact hflags _ fun _ => rfl
  · exact hflags _ fun _ => rfl
  · exact looks_bind looks_get fun _ => looks_pure _
  · rw [readRegister]
    refine looks_bind looks_get fun s => ?_
    split
    · exact looks_pure _
    · dsimp only
      split
      · exact looks_bind (Effect.moves_lift .refl _) fun _ => looks_pure _
      all_goals exact looks_pure _
  · exact absurd rfl hreg
  · exact looks_readMemory pdata
  · exact absurd rfl hmem
  · exact looks_pure _

theorem looks_dispatch {pdata : List Char} (h : looksOnly pdata) :
    Effect.Moves Looks (dispatch pdata) := by
  rw [dispatch]
  split
  · exact looks_pure _
  · cases ha : Rsp.action pdata with
    | error f => exact .refl
    | ok a =>
      have hnot : a ≠ some .writeRegister ∧ a ≠ some .writeMemory := by
        constructor
        all_goals
          rintro rfl
          rw [looksOnly, ha] at h
          cases h
      intro s
      rw [EStateM.run_bind, Effect.run_lift_ok]
      exact looks_bind (looks_respond hnot.1 hnot.2) (fun _ => looks_pure _) s

/-! ### Polling -/

theorem socketRead_run (s : DebugSession) : socketRead.run s = .ok s.server.serverSocket.read.1 { s with
    server := { s.server with serverSocket := s.server.serverSocket.read.2 } } := rfl

theorem looks_socketRead : Effect.Moves Looks socketRead := by
  intro s
  rw [socketRead_run]
  refine .of_same rfl rfl ?_
  dsimp only [Effect.final_ok]
  rw [TcpServer.read]
  split
  · exact List.suffix_refl _
  · next r rs hin =>
    rw [hin]
    exact List.suffix_cons r rs

theorem looks_socketWrite (bytes : List Char) : Effect.Moves Looks (socketWrite bytes) := by
  intro s
  refine .of_same rfl rfl ?_
  have hsame : (s.server.serverSocket.write bytes).2.incoming = s.server.serverSocket.incoming := by
    rw [TcpServer.write]
    split <;> rfl
  exact (congrArg (· <:+ s.server.serverSocket.incoming) hsame).mpr (List.suffix_refl _)

theorem looks_stopListening : Effect.Moves Looks stopListening := looks_modifyServer fun _ => rfl

theorem looks_takeDeferResponse : Effect.Moves Looks takeDeferResponse :=
  looks_bind looks_get fun _ => looks_bind (looks_modifyServer fun _ => rfl) fun _ => looks_pure _

/-- What becomes of a decoded request. -/
theorem looks_answer {clientRequest : List Char} (h : looksOnly clientRequest) :
    Effect.Moves Looks (do
      let response ← tryCatch (some <$> dispatch clientRequest) fun
        | .runtimeError _ => return none
        | f => throw f
      match response with
      | none => stopListening
      | some response =>
        if response.length = 0 then return ()
        if ← takeDeferResponse then stopListening
        else
          let _ ← socketWrite response) := by
  refine looks_bind (looks_tryCatch (looks_map _ (looks_dispatch h)) fun f => ?_) fun r => ?_
  · split
    · exact looks_pure _
    · exact looks_throw _
  · cases r with
    | none => exact looks_stopListening
    | some response =>
      refine looks_ite (looks_pure _) (looks_bind looks_takeDeferResponse fun _ => ?_)
      exact looks_ite looks_stopListening
        (looks_bind (looks_socketWrite _) fun _ => looks_pure _)

theorem looks_serve {clientRequest : List Char} (h : looksOnly clientRequest) :
    Effect.Moves Looks (serve clientRequest) := by
  rw [serve]
  dsimp only
  split
  · exact looks_bind (looks_socketWrite _) fun _ => looks_ite (looks_answer h) (looks_pure _)
  · exact looks_bind (looks_pure _) fun _ => looks_ite (looks_answer h) (looks_pure _)

theorem bind_looks {x : DebugM α} {f : α → DebugM β} {s : DebugSession}
    (hx : Looks s (Effect.final (x.run s)))
    (hf : ∀ a s₁, x.run s = .ok a s₁ → Looks s₁ (Effect.final ((f a).run s₁))) :
    Looks s (Effect.final ((x >>= f).run s)) := by
  rw [EStateM.run_bind]
  cases hrun : x.run s with
  | ok a s₁ =>
    rw [hrun] at hx
    exact hx.trans (hf a s₁ hrun)
  | error e s₁ =>
    rw [hrun] at hx
    exact hx

/-- What is read is what the client sends, or nothing. -/
theorem inspects_read {t : TcpServer} (h : ∀ message ∈ t.incoming, inspects message) :
    inspects t.read.1 := by
  rw [TcpServer.read]
  split
  · rfl
  · next r rs hin => exact h r (by rw [hin]; exact List.mem_cons_self)

/-- Every message that is handled is one the client was going to send. -/
theorem looks_pollLoop (n : Nat) {s : DebugSession} (hs : s.server.Inspected) :
    Looks s (Effect.final ((pollLoop n).run s)) := by
  induction n generalizing s with
  | zero => exact .refl s
  | succ n ih =>
    have hrest : ∀ {x : DebugM Unit} {s₁ : DebugSession}, Effect.Moves Looks x → s₁.server.Inspected →
        Looks s₁ (Effect.final ((x >>= fun _ => pollLoop n).run s₁)) := by
      intro x s₁ hx hs₁
      refine bind_looks (hx s₁) fun _ s₂ h₂ => ih ?_
      have hlooks := hx s₁
      rw [h₂] at hlooks
      exact hlooks.inspected hs₁
    rw [pollLoop, EStateM.run_bind, EStateM.run_get]
    dsimp only
    split
    · refine bind_looks (looks_socketRead s) fun message s₁ hread => ?_
      have hlooks := looks_socketRead s
      rw [hread] at hlooks
      have hs₁ := hlooks.inspected hs
      rw [socketRead_run] at hread
      obtain rfl : s.server.serverSocket.read.1 = message := by cases hread; rfl
      have hinspects := inspects_read hs
      cases hmessage : s.server.serverSocket.read.1 with
      | none => exact hrest looks_stopListening hs₁
      | some message =>
        rw [hmessage] at hinspects
        cases hdecode : Rsp.decode message with
        | error f =>
          dsimp only
          rw [hdecode]
          exact hrest looks_stopListening hs₁
        | ok pdata =>
          rw [inspects, Option.map_some, hdecode] at hinspects
          dsimp only
          rw [hdecode]
          exact hrest (looks_serve hinspects) hs₁
    · exact .refl s

theorem looks_poll {s : DebugSession} (hs : s.server.Inspected) :
    Looks s (Effect.final (poll.run s)) := by
  rw [poll]
  have hlisten : Effect.Moves Looks (modifyServer fun d => { d with listening := true }) :=
    looks_modifyServer fun _ => rfl
  refine bind_looks (hlisten s) fun _ s₁ h₁ => ?_
  cases h₁
  refine bind_looks (looks_get _) fun t s₂ h₂ => ?_
  cases h₂
  refine bind_looks (looks_pollLoop _ hs) fun _ s₃ _ => ?_
  exact looks_bind looks_get (fun _ => looks_pure _) s₃

theorem looks_preStepChecks {s : DebugSession} (hs : s.server.Inspected) :
    Looks s (Effect.final (preStepChecks.run s)) := by
  have hpoll : ∀ {x : DebugM Unit}, Effect.Moves Looks x →
      Looks s (Effect.final ((x >>= fun _ => poll).run s)) := by
    intro x hx
    refine bind_looks (hx s) fun _ s₁ h₁ => looks_poll ?_
    have hlooks := hx s
    rw [h₁] at hlooks
    exact hlooks.inspected hs
  rw [preStepChecks, EStateM.run_bind, EStateM.run_get]
  dsimp only
  split
  · exact hpoll (looks_modifyServer fun _ => rfl)
  · split
    · exact .refl s
    · split
      · exact hpoll (looks_modifyServer fun _ => rfl)
      · split
        · refine hpoll ?_
          exact looks_bind looks_get fun _ => looks_bind (looks_socketWrite _) fun _ => looks_pure _
        · exact .refl s

theorem looks_postStepChecks : Effect.Moves Looks postStepChecks := by
  rw [postStepChecks]
  refine looks_bind looks_get fun s => ?_
  dsimp only
  split
  · exact looks_bind (looks_modifyServer fun _ => rfl) fun _ => looks_pure _
  · split
    · refine looks_bind (looks_bind looks_get fun _ => looks_bind (looks_socketWrite _) fun _ =>
        looks_pure _) fun _ => looks_pure _
    · exact looks_pure _

end DebugServer

end Dimebox
