import Dimebox.Runs

/-! The course of a debug session.

    `Poll` and the checks around a step are run with a log of what can be seen from outside: that the
    server listens, which requests it reads, what it sends, and what goes wrong on the way. The logging
    versions do what the functions of the server do (`*_erased`). A session is a sequence of rounds,
    one for every call of `StepCore`. -/

namespace Dimebox

/-- Only `Hc-` makes the selection of a command look where it must not. -/
theorem Rsp.action_error {pdata : List Char} {f : Fault} (h : Rsp.action pdata = .error f) :
    pdata = "Hc-".toList ∧ f = .undefined := by
  have hskip : ∀ {c : Prop} [Decidable c] {a : Option Action} {y : Except Fault (Option Action)},
      (if c then .ok a else y) = .error f → y = .error f := by
    intro c _ a y hite
    split at hite
    · cases hite
    · exact hite
  unfold action at h
  replace h := hskip (hskip (hskip h))
  by_cases hc : pdata = "Hc-".toList
  · rw [if_pos hc] at h
    cases h
    exact ⟨hc, rfl⟩
  · rw [if_neg hc] at h
    repeat replace h := hskip h
    cases h

namespace DebugServer

deriving instance DecidableEq for TcpServer

/-- What can be seen of a session. -/
inductive Event where
  /-- `Poll` starts to listen to a client -/
  | listening (client : TcpServer)
  /-- a message was read and decoded -/
  | request (pdata : List Char)
  /-- something was sent -/
  | sent (packet : List Char)
  /-- a read, a decoding, a write or a request failed -/
  | failed
  /-- the core executed an instruction -/
  | executed
  deriving DecidableEq

/-! ### Logging -/

def writeLogged (bytes : List Char) : DebugM (Bool × List Event) := do
  let written ← socketWrite bytes
  return (written, if written then [.sent bytes] else [.failed])

/-- From `Dispatch` on. -/
def answerLogged (clientRequest : List Char) : DebugM (List Event) := do
  let response ← tryCatch (some <$> dispatch clientRequest) fun
    | .runtimeError _ => return none
    | f => throw f
  match response with
  | none => do
    stopListening
    return [.failed]
  | some response =>
    if response.length = 0 then return []
    if ← takeDeferResponse then
      stopListening
      return []
    else return (← writeLogged response).2

def serveLogged (clientRequest : List Char) : DebugM (List Event) := do
  let ack := Rsp.acknowledge clientRequest
  let (acked, log) ← if 0 < ack.length then writeLogged ack else pure (true, [])
  if acked then return log ++ (← answerLogged clientRequest) else return log

/-- One message of the loop of `Poll`. -/
def messageLogged : DebugM (List Event) := do
  match ← socketRead with
  | none => do
    stopListening
    return [.failed]
  | some message =>
    match Rsp.decode message with
    | .error _ => do
      stopListening
      return [.failed]
    | .ok clientRequest => return .request clientRequest :: (← serveLogged clientRequest)

def pollLoopLogged : Nat → DebugM (List Event)
  | 0 => return []
  | n + 1 => do
    if (← get).server.listening then
      let log ← messageLogged
      return log ++ (← pollLoopLogged n)
    else return []

def pollLogged : DebugM (Bool × List Event) := do
  modifyServer fun d => { d with listening := true }
  let client := (← get).server.serverSocket
  let log ← pollLoopLogged (client.incoming.length + 1)
  return (!(← get).server.doShutdown, .listening client :: log)

/-- What `AcknowledgeBreakpoint` sends. -/
def stopReply (cpu : RiscvState) (pc : U64) : List Char :=
  Rsp.encode ("T02".toList ++ "1d:".toList ++ encodeRegisterValue cpu.fp ++ ";".toList ++
    "1f:".toList ++ encodeRegisterValue cpu.sp ++ ";".toList ++
    "20:".toList ++ encodeRegisterValue pc ++ ";".toList)

def acknowledgeLogged (pc : U64) : DebugM (List Event) := do
  let s ← get
  return (← writeLogged (stopReply s.cpu pc)).2

def preStepLogged : DebugM (Bool × List Event) := do
  let s ← get
  let d := s.server
  if d.atStart then
    modifyServer fun d => { d with atStart := false }
    pollLogged
  else if !d.coreMatch d.core then return (true, [])
  else if d.doStep then
    modifyServer fun d => { d with doStep := false }
    pollLogged
  else if d.breakpointHit s.pc then
    let ack ← acknowledgeLogged s.pc
    let (goOn, log) ← pollLogged
    return (goOn, ack ++ log)
  else return (true, [])

def postStepLogged : DebugM (Bool × List Event) := do
  let s ← get
  let d := s.server
  if d.atStart then
    modifyServer fun d => { d with atStart := false }
    return (true, [])
  else if d.coreMatch d.core && d.doStep then return (true, ← acknowledgeLogged s.pc)
  else return (true, [])

/-! ### The log can be erased -/

section Erased

variable {α : Type}

theorem answerLogged_erased (clientRequest : List Char) (x : DebugM α) :
    (answerLogged clientRequest >>= fun _ => x) = (do
      let response ← tryCatch (some <$> dispatch clientRequest) fun
        | .runtimeError _ => return none
        | f => throw f
      match response with
      | none => stopListening
      | some response =>
        if response.length = 0 then return ()
        if ← takeDeferResponse then stopListening
        else
          let _ ← socketWrite response) >>= fun _ => x := by
  simp only [answerLogged, bind_assoc]
  congr 1
  funext response
  cases response with
  | none => simp only [bind_assoc, pure_bind]
  | some response =>
    dsimp only
    split
    · simp only [pure_bind]
    · simp only [bind_assoc]
      congr 1
      funext deferred
      cases deferred with
      | true => simp only [if_true, bind_assoc, pure_bind]
      | false => simp [writeLogged]

theorem serveLogged_erased (clientRequest : List Char) (x : DebugM α) :
    (serveLogged clientRequest >>= fun _ => x) = serve clientRequest >>= fun _ => x := by
  have hrest : ∀ (acked : Bool) (log : List Event), ((if acked then
        return log ++ (← answerLogged clientRequest) else return log : DebugM (List Event)) >>=
        fun _ => x) = (if acked then answerLogged clientRequest >>= fun _ => x else x) := by
    intro acked log
    cases acked with
    | true => simp only [if_true, bind_assoc, pure_bind]
    | false => simp
  rw [serveLogged, serve]
  dsimp only
  split
  · simp only [writeLogged, bind_assoc, pure_bind, hrest, answerLogged_erased]
    congr 1
    funext acked
    cases acked with
    | true =>
      rw [if_pos rfl, if_pos rfl]
      exact (bind_assoc _ _ _).symm
    | false => simp
  · rw [pure_bind, pure_bind, if_pos rfl, if_pos rfl]
    simp only [bind_assoc, pure_bind]
    exact (answerLogged_erased clientRequest x).trans (bind_assoc _ _ _)

theorem pollLoopLogged_erased (n : Nat) (x : DebugM α) :
    (pollLoopLogged n >>= fun _ => x) = pollLoop n >>= fun _ => x := by
  induction n with
  | zero => simp only [pollLoopLogged, pollLoop, pure_bind]
  | succ n ih =>
    rw [pollLoopLogged, pollLoop, bind_assoc, bind_assoc]
    congr 1
    funext s
    split
    · simp only [messageLogged, bind_assoc, pure_bind]
      congr 1
      funext r
      cases r with
      | none => simp only [bind_assoc, pure_bind, ih]
      | some message =>
        dsimp only
        cases Rsp.decode message with
        | error f => simp only [bind_assoc, pure_bind, ih]
        | ok clientRequest =>
          simp only [bind_assoc, pure_bind, ih]
          exact serveLogged_erased clientRequest _
    · simp only [pure_bind]

theorem pollLogged_erased : Prod.fst <$> pollLogged = poll := by
  simp only [pollLogged, poll, map_eq_pure_bind, bind_assoc, pure_bind]
  congr 1
  funext _
  congr 1
  funext s
  exact pollLoopLogged_erased _ _

theorem acknowledgeLogged_erased (pc : U64) (x : DebugM α) :
    (acknowledgeLogged pc >>= fun _ => x) = acknowledgeBreakpoint pc >>= fun _ => x := by
  simp only [acknowledgeLogged, acknowledgeBreakpoint, writeLogged, bind_assoc, pure_bind, stopReply]

theorem preStepLogged_erased : Prod.fst <$> preStepLogged = preStepChecks := by
  rw [preStepLogged, preStepChecks, map_bind]
  congr 1
  funext s
  dsimp only
  split
  · rw [map_bind, pollLogged_erased]
  · split
    · rw [map_pure]
    · split
      · rw [map_bind, pollLogged_erased]
      · split
        · rw [← acknowledgeLogged_erased, ← pollLogged_erased]
          simp only [map_eq_pure_bind, bind_assoc, pure_bind]
        · rw [map_pure]

theorem postStepLogged_erased : Prod.fst <$> postStepLogged = postStepChecks := by
  rw [postStepLogged, postStepChecks, map_bind]
  congr 1
  funext s
  dsimp only
  split
  · simp only [map_eq_pure_bind, bind_assoc, pure_bind]
  · split
    · rw [← acknowledgeLogged_erased]
      simp only [map_eq_pure_bind, bind_assoc, pure_bind]
    · rw [map_pure]

end Erased

/-! ### Requests -/

/-- The request selects the command `a`. -/
def Asks (pdata : List Char) (a : Rsp.Action) : Prop := Rsp.action pdata = .ok (some a)

/-- The request lets the core run. -/
def Resumes (pdata : List Char) : Prop := Asks pdata .step ∨ Asks pdata .continue

/-- A packet that tells the client where the core stopped. -/
def IsStopReply (packet : List Char) : Prop := packet.take 4 = "$T02".toList

instance (packet : List Char) : Decidable (IsStopReply packet) :=
  inferInstanceAs (Decidable (_ = _))

theorem not_isStopReply {text : List Char} (h : 'T' ∉ text) : ¬ IsStopReply (Rsp.encode text) := by
  intro hstop
  cases text with
  | nil => exact absurd (congrArg (·[1]?) hstop) (by simp [Rsp.encode])
  | cons c cs =>
    have hc : some c = some 'T' := congrArg (·[1]?) hstop
    exact h (by rw [Option.some.inj hc]; exact List.mem_cons_self)

theorem not_mem_encodeRegisterValue {c : Char} (hc : ∀ d < 16, Text.hexDigit d ≠ c) (v : U64) :
    c ∉ encodeRegisterValue v := by
  intro h
  obtain ⟨i, -, hi⟩ := List.mem_flatMap.mp h
  exact Text.not_mem_hexPadded hc _ _ hi

/-- `Poll` catches what this excludes. -/
def NoRuntimeError (f : Fault) : Prop := ∀ what, f ≠ .runtimeError what

/-- The server answers without a stop reply, or throws what `Poll` does not catch. -/
abbrev Answers (x : DebugM (List Char)) : Prop :=
  Effect.Yields (fun text => ¬ IsStopReply (Rsp.encode text)) NoRuntimeError x

theorem decodedPairs_error (encoded : List Char) (is : List Nat) {success : Bool} {rv : U32}
    {f : Fault} (h : decodedPairs encoded is success rv = .error f) : f = .undefined := by
  induction is generalizing success rv with
  | nil => cases h
  | cons i is ih =>
    rw [decodedPairs] at h
    split at h
    · cases h; rfl
    · split at h
      · exact ih h
      · exact ih h

theorem decodedLe4_error {encoded : List Char} {f : Fault} (h : decodedLe4 encoded = .error f) :
    f = .undefined := by
  unfold decodedLe4 at h
  cases hpairs : decodedPairs encoded [0, 1, 2, 3] true 0 with
  | error f' =>
    rw [hpairs] at h
    cases h
    exact decodedPairs_error encoded _ hpairs
  | ok r => rw [hpairs] at h; cases h

theorem scanBytes_error {pdata : List Char} {n pos : Nat} {f : Fault}
    (h : scanBytes pdata n pos = .error f) : f = .outOfRange := by
  induction n generalizing pos f with
  | zero => cases h
  | succ n ih =>
    rw [scanBytes] at h
    split at h
    · cases h; rfl
    · split at h
      · cases h
      · cases hrest : scanBytes pdata n (pos + 2) with
        | error f' =>
          rw [hrest] at h
          cases h
          exact ih hrest
        | ok rest => rw [hrest] at h; cases h

theorem noRuntimeError_undefined : NoRuntimeError .undefined := fun _ hf => by cases hf

theorem answers_pure {text : List Char} (h : 'T' ∉ text) : Answers (pure text) :=
  Effect.yields_pure (not_isStopReply h)

theorem answers_registerValue (v : U64) : Answers (pure (encodeRegisterValue v)) :=
  answers_pure (not_mem_encodeRegisterValue (by decide) v)

theorem answers_readRegister (pdata : List Char) : Answers (readRegister pdata) := by
  refine Effect.yields_get_bind fun s => ?_
  split
  · exact answers_pure (by decide)
  · dsimp only
    split
    · refine Effect.yields_bind (P := fun _ => True) ?_ fun v _ => answers_registerValue v
      refine Effect.yields_lift (fun _ _ => trivial) fun f hf => ?_
      rw [Step.gp_error hf]
      exact noRuntimeError_undefined
    · exact answers_registerValue _
    · exact answers_registerValue _
    · exact answers_pure (by decide)

theorem answers_storeRegister (pdata : List Char) (pos : Nat)
    {put : RiscvState → U64 → Except Fault RiscvState}
    (hput : ∀ {s : RiscvState} {v : U64} {f : Fault}, put s v = .error f → f = .undefined) :
    Answers (storeRegister pdata pos put) := by
  refine Effect.yields_bind (P := fun _ => True) ?_ fun r _ => ?_
  · refine Effect.yields_lift (fun _ _ => trivial) fun f hf => ?_
    rw [decodedLe4_error hf]
    exact noRuntimeError_undefined
  · split
    · exact answers_pure (by decide)
    · refine Effect.yields_get_bind fun s => ?_
      refine Effect.yields_bind (P := fun _ => True) ?_ fun cpu _ => ?_
      · refine Effect.yields_lift (fun _ _ => trivial) fun f hf => ?_
        rw [hput hf]
        exact noRuntimeError_undefined
      · exact Effect.yields_bind (P := fun _ => True) (fun _ _ => trivial)
          fun _ _ => answers_pure (by decide)

theorem answers_writeRegister (pdata : List Char) : Answers (writeRegister pdata) := by
  rw [writeRegister]
  split
  · exact answers_pure (by decide)
  · exact answers_pure (by decide)
  · dsimp only
    split
    · exact answers_storeRegister _ _ fun hf => Step.setGp_error hf
    · exact answers_storeRegister _ _ fun hf => by cases hf
    · exact answers_storeRegister _ _ fun hf => by cases hf
    · exact answers_pure (by decide)

theorem answers_readMemory (pdata : List Char) : Answers (readMemory pdata) := by
  rw [readMemory]
  split
  · exact answers_pure (by decide)
  · split
    · exact Effect.yields_throw_bind noRuntimeError_undefined _
    · refine Effect.yields_bind (P := fun _ => True) (Effect.yields_tryCatch (P := fun _ => True)
        (R := fun _ => True) (fun s _ => ?_) fun f _ => ?_) fun r _ => ?_
      · split
        · trivial
        · trivial
      · split
        · exact Effect.yields_throw noRuntimeError_undefined
        · exact Effect.yields_pure trivial
      · split
        · exact answers_pure (by decide)
        · split
          · exact answers_pure (by decide)
          · refine answers_pure fun h => ?_
            obtain ⟨b, -, hb⟩ := List.mem_flatMap.mp h
            exact Text.not_mem_hexPadded (by decide) _ _ hb

theorem answers_writeMemory (pdata : List Char) : Answers (writeMemory pdata) := by
  rw [writeMemory]
  split
  · exact answers_pure (by decide)
  · exact answers_pure (by decide)
  · next maddr msize pos _ _ =>
    split
    · exact Effect.yields_throw_bind noRuntimeError_undefined _
    · cases hscan : scanBytes pdata msize.toNat pos with
      | error f =>
        refine Effect.yields_throw ?_
        rw [scanBytes_error hscan]
        exact fun _ hf => by cases hf
      | ok r =>
        cases r with
        | none => exact answers_pure (by decide)
        | some mbytes =>
          refine Effect.yields_tryCatch (R := NoRuntimeError)
            (Effect.yields_bind (P := fun _ => True) ?_ fun _ _ => ?_) fun f hf => ?_
          · refine Effect.yields_focus fun m _ => ?_
            rcases Memory.writePhysicalMemory_cases m maddr msize
                (Nat.le_of_eq (length_scanBytes pdata _ _ hscan).symm) with
              ⟨rcode, hrun⟩ | ⟨f, m', hrun, -, hf⟩
            · rw [hrun]; trivial
            · rw [hrun]; exact hf
          · exact Effect.yields_bind (P := fun _ => True) (fun _ _ => trivial)
              fun _ _ => answers_pure (by decide)
          · split
            · exact answers_pure (by decide)
            · exact Effect.yields_throw hf

theorem answers_setBreakpoints (pdata : List Char) : Answers (setBreakpoints pdata) := by
  have hset : ∀ f : DebugServer → DebugServer, Answers (do modifyServer f; return "OK".toList) :=
    fun f => Effect.yields_bind (P := fun _ => True) (fun _ _ => trivial)
      fun _ _ => answers_pure (by decide)
  rw [setBreakpoints]
  split
  · exact answers_pure (by decide)
  · split
    · exact hset _
    · split
      · exact hset _
      · exact answers_pure (by decide)

/-- Only the base class answers with a `T`, that no trace runs. -/
theorem answers_base (a : Option Rsp.Action) : Answers (pure (Rsp.baseResponse a)) := by
  refine Effect.yields_pure ?_
  cases a with
  | none => decide
  | some a => cases a <;> decide

theorem answers_respond (pdata : List Char) (a : Option Rsp.Action) : Answers (respond pdata a) := by
  rw [respond.eq_def]
  have hset : ∀ (f : DebugServer → DebugServer) {text : List Char}, 'T' ∉ text →
      Answers (do modifyServer f; return text) := fun f text ht =>
    Effect.yields_bind (P := fun _ => True) (fun _ _ => trivial) fun _ _ => answers_pure ht
  split
  · exact hset _ (by decide)
  · exact answers_setBreakpoints pdata
  · exact hset _ (by decide)
  · exact hset _ (by decide)
  · exact hset _ (by decide)
  · refine Effect.yields_get_bind fun s => answers_pure ?_
    simp only [List.mem_append, List.mem_flatten, List.mem_map, not_or]
    refine ⟨⟨?_, not_mem_encodeRegisterValue (by decide) _⟩,
      not_mem_encodeRegisterValue (by decide) _⟩
    rintro ⟨_, ⟨i, -, rfl⟩, hi⟩
    exact not_mem_encodeRegisterValue (by decide) _ hi
  · exact answers_readRegister pdata
  · exact answers_writeRegister pdata
  · exact answers_readMemory pdata
  · exact answers_writeMemory pdata
  · exact answers_base _

/-- The flags of the server. -/
structure Flags where
  atStart : Bool
  listening : Bool
  deferResponse : Bool
  doShutdown : Bool
  doStep : Bool
  deriving DecidableEq

def flags (d : DebugServer) : Flags :=
  ⟨d.atStart, d.listening, d.deferResponse, d.doShutdown, d.doStep⟩

/-- The flags of the server and its socket stay as they are. -/
structure SameFlags (s s' : DebugSession) : Prop where
  flags : s'.server.flags = s.server.flags
  serverSocket : s'.server.serverSocket = s.server.serverSocket

theorem closed_sameFlags : Closed SameFlags where
  refl := fun _ => ⟨rfl, rfl⟩
  trans := fun h h' => ⟨h'.flags.trans h.flags, h'.serverSocket.trans h.serverSocket⟩
  cpu := fun _ => ⟨rfl, rfl⟩
  read := fun _ _ _ _ => ⟨rfl, rfl⟩
  written := fun _ _ => ⟨rfl, rfl⟩
  refused := fun _ _ => ⟨rfl, rfl⟩
  breakpoints := fun _ _ _ => ⟨rfl, rfl⟩

/-- What a request that was handled did to the flags. -/
inductive Dispatched (s : DebugSession) (pdata : List Char) : List Char → DebugSession → Prop where
  | empty (h : pdata = []) : Dispatched s pdata [] s
  | continue (h : Asks pdata .continue) : Dispatched s pdata (Rsp.encode []) { s with
      server := { s.server with listening := false, deferResponse := true } }
  | step (h : Asks pdata .step) : Dispatched s pdata (Rsp.encode []) { s with
      server := { s.server with deferResponse := true, doStep := true } }
  | kill (h : Asks pdata .killTarget) : Dispatched s pdata (Rsp.encode "X00".toList) { s with
      server := { s.server with doShutdown := true } }
  | ordinary {text : List Char} {s' : DebugSession} (hne : pdata ≠ []) (hr : ¬ Resumes pdata)
      (hk : ¬ Asks pdata .killTarget) (same : SameFlags s s') (ht : ¬ IsStopReply (Rsp.encode text)) :
      Dispatched s pdata (Rsp.encode text) s'

theorem dispatch_dispatched {pdata response : List Char} {s s' : DebugSession}
    (h : (dispatch pdata).run s = .ok response s') : Dispatched s pdata response s' := by
  rw [dispatch] at h
  split at h
  · next hlen =>
    cases h
    exact .empty (List.length_eq_zero_iff.mp hlen)
  · next hlen =>
    obtain ⟨a, s₁, ha, h⟩ := Effect.ok_of_bind h
    obtain ⟨text, s₂, htext, h⟩ := Effect.ok_of_bind h
    cases h
    cases haction : Rsp.action pdata with
    | error f => rw [haction] at ha; cases ha
    | ok a' =>
      rw [haction] at ha
      cases ha
      by_cases hcontinue : a = some .continue
      · subst hcontinue
        cases htext
        exact .continue haction
      by_cases hstep : a = some .step
      · subst hstep
        cases htext
        exact .step haction
      by_cases hkill : a = some .killTarget
      · subst hkill
        cases htext
        exact .kill haction
      have hsame := closed_sameFlags.respond pdata hcontinue hstep hkill s
      rw [htext] at hsame
      have hne : ∀ {b : Rsp.Action}, a ≠ some b → ¬ Asks pdata b := by
        intro b hb hasks
        exact hb (Except.ok.inj (haction.symm.trans hasks))
      exact .ordinary (fun hnil => hlen (by rw [hnil]; rfl))
        (fun hr => hr.elim (hne hstep) (hne hcontinue)) (hne hkill) hsame
        ((answers_respond pdata a).ok htext)

/-- `Poll` catches nothing of what `Dispatch` throws. -/
theorem dispatch_noRuntimeError {pdata : List Char} {s s' : DebugSession} {f : Fault}
    (h : (dispatch pdata).run s = .error f s') : NoRuntimeError f := by
  have hyields : Effect.Yields (fun _ => True) NoRuntimeError (dispatch pdata) := by
    rw [dispatch]
    split
    · exact Effect.yields_pure trivial
    · refine Effect.yields_bind (P := fun _ => True) ?_ fun a _ =>
        Effect.yields_bind (answers_respond pdata a) fun _ _ => Effect.yields_pure trivial
      refine Effect.yields_lift (fun _ _ => trivial) fun f hf => ?_
      rw [(Rsp.action_error hf).2]
      exact noRuntimeError_undefined
  exact hyields.error h

end DebugServer

end Dimebox
