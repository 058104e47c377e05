import Mathlib.Logic.Relation
import Dimebox.RamFrame
import Dimebox.DebugServer

/-! What a debug client can change.

    A session changes the server, reads memory, writes RAM for the client (`clientWrites` lists those
    writes) and sets general registers and the PC of the core it was given, to 32-bit values. Every
    command is a sequence of these effects. -/

namespace Dimebox

open Relation (ReflTransGen)

/-- The RAM bytes of a list of client writes. -/
def Memory.clientSpan (m : Memory) (log : List (U64 × Int)) : List U64 :=
  log.flatMap fun w => m.ramSpan w.1 w.2.toNat

theorem Memory.SameMap.clientSpan_eq {m m' : Memory} (h : SameMap m m') (log : List (U64 × Int)) :
    m'.clientSpan log = m.clientSpan log := by
  simp only [clientSpan, h.ramSpan_eq]

theorem Memory.RamFrame.trans_client {m m' m'' : Memory} {log log' : List (U64 × Int)}
    (h : RamFrame (m.clientSpan log) m m') (h' : RamFrame (m'.clientSpan log') m' m'') :
    RamFrame (m.clientSpan (log ++ log')) m m'' := by
  rw [h.toSameMap.clientSpan_eq] at h'
  have happend : m.clientSpan (log ++ log') = m.clientSpan log ++ m.clientSpan log' :=
    List.flatMap_append
  rw [happend]
  exact h.trans h'

/-- RAM keeps its values but for what is logged as written for the client in the meantime. -/
def SessionFrame (s s' : DebugSession) : Prop :=
  ∃ log, s'.server.clientWrites = s.server.clientWrites ++ log ∧
    Memory.RamFrame (s.memory.clientSpan log) s.memory s'.memory

theorem SessionFrame.of_frame {s s' : DebugSession}
    (hlog : s'.server.clientWrites = s.server.clientWrites)
    (h : Memory.RamFrame [] s.memory s'.memory) : SessionFrame s s' :=
  ⟨[], by rw [hlog, List.append_nil], h⟩

theorem SessionFrame.refl (s : DebugSession) : SessionFrame s s := .of_frame rfl (.refl _)

theorem SessionFrame.trans {s s' s'' : DebugSession} (h : SessionFrame s s')
    (h' : SessionFrame s' s'') : SessionFrame s s'' := by
  obtain ⟨log, hlog, hf⟩ := h
  obtain ⟨log', hlog', hf'⟩ := h'
  exact ⟨log ++ log', by rw [hlog', hlog, List.append_assoc], hf.trans_client hf'⟩

/-- One register write of the client. -/
inductive ClientEdit : RiscvState → RiscvState → Prop where
  | gp {s s' : RiscvState} {idx v : U32} (h : s.setGp idx (v.setWidth 64) = .ok s') : ClientEdit s s'
  | sp (s : RiscvState) (v : U32) : ClientEdit s (s.setSp (v.setWidth 64))
  | pc (s : RiscvState) (v : U32) : ClientEdit s (s.setPc (v.setWidth 64))

/-- One primitive effect of a session. -/
inductive SessionStep : DebugSession → DebugSession → Prop where
  | server (s : DebugSession) (d : DebugServer) (h : d.clientWrites = s.server.clientWrites) :
      SessionStep s { s with server := d }
  | cpu (s : DebugSession) {cpu : RiscvState} (h : ClientEdit s.cpu cpu) : SessionStep s { s with cpu }
  | memory (s : DebugSession) {m : Memory} (h : Memory.RamFrame [] s.memory m) :
      SessionStep s { s with memory := m }
  | written (s : DebugSession) (w : U64 × Int) {m : Memory}
      (h : Memory.RamFrame (s.memory.clientSpan [w]) s.memory m) :
      SessionStep s { s with
        memory := m
        server := { s.server with clientWrites := s.server.clientWrites ++ [w] } }

theorem SessionStep.frame {s s' : DebugSession} (h : SessionStep s s') : SessionFrame s s' := by
  cases h with
  | server d h => exact .of_frame h (.refl _)
  | cpu => exact .of_frame rfl (.refl _)
  | memory h => exact .of_frame rfl h
  | written w h => exact ⟨[w], rfl, h⟩

theorem sessionFrame_of_steps {s s' : DebugSession} (h : ReflTransGen SessionStep s s') :
    SessionFrame s s' := by
  induction h with
  | refl => exact .refl s
  | tail _ hstep ih => exact ih.trans hstep.frame

/-- The core of a session is changed by register writes of the client only. -/
theorem edits_of_steps {s s' : DebugSession} (h : ReflTransGen SessionStep s s') :
    ReflTransGen ClientEdit s.cpu s'.cpu := by
  induction h with
  | refl => exact .refl
  | tail _ hstep ih =>
    cases hstep with
    | cpu hedit => exact ih.tail hedit
    | server | memory | written => exact ih

namespace DebugServer

/-- Every run is a sequence of primitive effects. -/
def Acts (x : DebugM α) : Prop := Effect.Moves (ReflTransGen SessionStep) x

section Rules

variable {α β : Type}

theorem acts_pure (a : α) : Acts (pure a : DebugM α) := Effect.moves_pure (fun _ => .refl) a
theorem acts_throw (f : Fault) : Acts (throw f : DebugM α) := Effect.moves_throw (fun _ => .refl) f
theorem acts_get : Acts (get : DebugM DebugSession) := fun _ => .refl

theorem acts_lift (r : Except Fault α) : Acts (Effect.lift r : DebugM α) :=
  Effect.moves_lift (fun _ => .refl) r

theorem acts_bind {x : DebugM α} {f : α → DebugM β} (hx : Acts x) (hf : ∀ a, Acts (f a)) :
    Acts (x >>= f) := Effect.moves_bind (R := ReflTransGen SessionStep) .trans hx hf

theorem acts_map {x : DebugM α} (f : α → β) (hx : Acts x) : Acts (f <$> x) := by
  rw [← bind_pure_comp]
  exact acts_bind hx fun _ => acts_pure _

theorem acts_tryCatch {x : DebugM α} {h : Fault → DebugM α} (hx : Acts x)
    (hh : ∀ f, Acts (h f)) : Acts (tryCatch x h) :=
  Effect.moves_tryCatch (R := ReflTransGen SessionStep) .trans hx hh

theorem acts_ite {c : Prop} [Decidable c] {x y : DebugM α} (hx : Acts x) (hy : Acts y) :
    Acts (if c then x else y) := by
  split
  · exact hx
  · exact hy

theorem acts_modifyServer {f : DebugServer → DebugServer}
    (h : ∀ d, (f d).clientWrites = d.clientWrites) : Acts (modifyServer f) :=
  fun s => .single (.server s _ (h s.server))

end Rules

/-! ### Commands -/

/-- A relation that contains what the commands do to the core, to memory and to the breakpoints. -/
structure Closed (R : DebugSession → DebugSession → Prop) : Prop where
  refl : ∀ s, R s s
  trans : ∀ {s s' s''}, R s s' → R s' s'' → R s s''
  cpu : ∀ {s : DebugSession} {cpu : RiscvState}, ClientEdit s.cpu cpu → R s { s with cpu }
  read : ∀ (s : DebugSession) (a : U64) (n : Int) (buf : List Byte), R s { s with
    memory := Effect.final ((Memory.readPhysicalMemory a n buf false true).run s.memory) }
  written : ∀ {s : DebugSession} {a : U64} {n : Int} {buf : List Byte} {rcode : Int} {m : Memory},
    n.toNat ≤ buf.length →
    (Memory.writePhysicalMemory a n buf false false).run s.memory = .ok rcode m → R s { s with
      memory := m, server := { s.server with clientWrites := s.server.clientWrites ++ [(a, n)] } }
  refused : ∀ {s : DebugSession} {a : U64} {n : Int} {buf : List Byte} {f : Fault} {m : Memory},
    n.toNat ≤ buf.length →
    (Memory.writePhysicalMemory a n buf false false).run s.memory = .error f m →
    R s { s with memory := m }
  breakpoints : ∀ (s : DebugSession) (i d : List (U64 × U64)), R s { s with
    server := { s.server with instrBreakpoints := i, dataBreakpoints := d } }

theorem length_scanBytes (pdata : List Char) (n pos : Nat) {bytes : List Byte}
    (h : scanBytes pdata n pos = .ok (some bytes)) : bytes.length = n := by
  induction n generalizing pos bytes with
  | zero => cases h; rfl
  | succ n ih =>
    rw [scanBytes] at h
    split at h
    · cases h
    · split at h
      · cases h
      · cases hrest : scanBytes pdata n (pos + 2) with
        | error f => rw [hrest] at h; cases h
        | ok rest =>
          rw [hrest] at h
          cases rest with
          | none => cases h
          | some bs =>
            cases h
            rw [List.length_cons, ih (pos + 2) hrest]

/-- The same but for the core. -/
structure Steady (R : DebugSession → DebugSession → Prop) : Prop where
  refl : ∀ s, R s s
  trans : ∀ {s s' s''}, R s s' → R s' s'' → R s s''
  read : ∀ (s : DebugSession) (a : U64) (n : Int) (buf : List Byte), R s { s with
    memory := Effect.final ((Memory.readPhysicalMemory a n buf false true).run s.memory) }
  written : ∀ {s : DebugSession} {a : U64} {n : Int} {buf : List Byte} {rcode : Int} {m : Memory},
    n.toNat ≤ buf.length →
    (Memory.writePhysicalMemory a n buf false false).run s.memory = .ok rcode m → R s { s with
      memory := m, server := { s.server with clientWrites := s.server.clientWrites ++ [(a, n)] } }
  refused : ∀ {s : DebugSession} {a : U64} {n : Int} {buf : List Byte} {f : Fault} {m : Memory},
    n.toNat ≤ buf.length →
    (Memory.writePhysicalMemory a n buf false false).run s.memory = .error f m →
    R s { s with memory := m }
  breakpoints : ∀ (s : DebugSession) (i d : List (U64 × U64)), R s { s with
    server := { s.server with instrBreakpoints := i, dataBreakpoints := d } }

namespace Steady

variable {α β : Type} {R : DebugSession → DebugSession → Prop} (h : Steady R)
include h

theorem pure (a : α) : Effect.Moves R (pure a : DebugM α) := Effect.moves_pure h.refl a

theorem throw (f : Fault) : Effect.Moves R (throw f : DebugM α) := Effect.moves_throw h.refl f

theorem get : Effect.Moves R (get : DebugM DebugSession) := h.refl

theorem lift (r : Except Fault α) : Effect.Moves R (Effect.lift r : DebugM α) :=
  Effect.moves_lift h.refl r

theorem bind {x : DebugM α} {f : α → DebugM β} (hx : Effect.Moves R x)
    (hf : ∀ a, Effect.Moves R (f a)) : Effect.Moves R (x >>= f) :=
  Effect.moves_bind (R := R) h.trans hx hf

theorem map {x : DebugM α} (f : α → β) (hx : Effect.Moves R x) : Effect.Moves R (f <$> x) := by
  rw [← bind_pure_comp]
  exact h.bind hx fun _ => h.pure _

theorem tryCatch {x : DebugM α} {k : Fault → DebugM α} (hx : Effect.Moves R x)
    (hk : ∀ f, Effect.Moves R (k f)) : Effect.Moves R (tryCatch x k) :=
  Effect.moves_tryCatch (R := R) h.trans hx hk

theorem readRegister (pdata : List Char) : Effect.Moves R (readRegister pdata) := by
  refine h.bind h.get fun s => ?_
  split
  · exact h.pure _
  · dsimp only
    split
    · exact h.bind (h.lift _) fun _ => h.pure _
    all_goals exact h.pure _

theorem readMemory (pdata : List Char) : Effect.Moves R (readMemory pdata) := by
  rw [DebugServer.readMemory]
  split
  · exact h.pure _
  · have hread : ∀ (a : U64) (n : Int) (buf : List Byte),
        Effect.Moves R (onMemory (Memory.readPhysicalMemory a n buf false true)) := by
      intro a n buf s
      rw [onMemory, Effect.run_focus, Effect.final_mapState]
      exact h.read s a n buf
    split
    · exact Effect.moves_throw_bind h.refl _ _
    · refine h.bind (h.tryCatch (h.map _ (hread _ _ _)) fun f => ?_) fun r => ?_
      · split
        · exact h.throw _
        · exact h.pure _
      · split
        · exact h.pure _
        · split
          · exact h.pure _
          · exact h.pure _

/-- A write that is done is logged. -/
theorem write {a : U64} {n : Int} {buf : List Byte} (hbuf : n.toNat ≤ buf.length) :
    Effect.Moves R (do
      let _ ← onMemory (Memory.writePhysicalMemory a n buf false false)
      modifyServer fun d => { d with clientWrites := d.clientWrites ++ [(a, n)] }
      return "OK".toList) := by
  intro s
  rw [EStateM.run_bind, onMemory, Effect.run_focus]
  cases hrun : (Memory.writePhysicalMemory a n buf false false).run s.memory with
  | ok rcode m => exact h.written hbuf hrun
  | error f m => exact h.refused hbuf hrun

theorem writeMemory (pdata : List Char) : Effect.Moves R (writeMemory pdata) := by
  rw [DebugServer.writeMemory]
  split
  · exact h.pure _
  · exact h.pure _
  · next maddr msize pos _ _ =>
    split
    · exact Effect.moves_throw_bind h.refl _ _
    · cases hscan : scanBytes pdata msize.toNat pos with
      | error f => exact h.throw f
      | ok r =>
        cases r with
        | none => exact h.pure _
        | some mbytes =>
          have hlen := length_scanBytes pdata _ _ hscan
          refine h.tryCatch (h.write (Nat.le_of_eq hlen.symm)) fun f => ?_
          split
          · exact h.pure _
          · exact h.throw _

theorem setBreakpoints (pdata : List Char) : Effect.Moves R (setBreakpoints pdata) := by
  rw [DebugServer.setBreakpoints]
  split
  · exact h.pure _
  · split
    · exact h.bind (fun s => h.breakpoints s _ _) fun _ => h.pure _
    · split
      · exact h.bind (fun s => h.breakpoints s _ _) fun _ => h.pure _
      · exact h.pure _

/-- Every command but register writes and those that let the core run or kill it. -/
theorem respond (pdata : List Char) {a : Option Rsp.Action} (hwrite : a ≠ some .writeRegister)
    (hcontinue : a ≠ some .continue) (hstep : a ≠ some .step) (hkill : a ≠ some .killTarget) :
    Effect.Moves R (respond pdata a) := by
  rw [respond.eq_def]
  split
  · exact h.bind (fun s => h.breakpoints s _ _) fun _ => h.pure _
  · exact h.setBreakpoints pdata
  · exact absurd rfl hcontinue
  · exact absurd rfl hstep
  · exact absurd rfl hkill
  · exact h.bind h.get fun _ => h.pure _
  · exact h.readRegister pdata
  · exact absurd rfl hwrite
  · exact h.readMemory pdata
  · exact h.writeMemory pdata
  · exact h.pure _

end Steady

namespace Closed

variable {R : DebugSession → DebugSession → Prop} (h : Closed R)
include h

theorem steady : Steady R := ⟨h.refl, h.trans, h.read, h.written, h.refused, h.breakpoints⟩

theorem storeRegister (pdata : List Char) (pos : Nat)
    {put : RiscvState → U64 → Except Fault RiscvState}
    (hput : ∀ {s s' : RiscvState} {v : U32}, put s (v.setWidth 64) = .ok s' → ClientEdit s s') :
    Effect.Moves R (storeRegister pdata pos put) := by
  refine h.steady.bind (h.steady.lift _) fun r => ?_
  cases r with
  | none => exact h.steady.pure _
  | some rval =>
    intro s
    simp only
    rw [EStateM.run_bind, EStateM.run_get]
    simp only
    rw [EStateM.run_bind]
    cases hcpu : put s.cpu (rval.setWidth 64) with
    | error f => exact h.refl s
    | ok cpu => exact h.cpu (hput hcpu)

theorem writeRegister (pdata : List Char) : Effect.Moves R (writeRegister pdata) := by
  rw [DebugServer.writeRegister]
  split
  · exact h.steady.pure _
  · exact h.steady.pure _
  · dsimp only
    split
    · exact h.storeRegister _ _ fun hs => .gp hs
    · exact h.storeRegister _ _ fun hs => by cases hs; exact .sp _ _
    · exact h.storeRegister _ _ fun hs => by cases hs; exact .pc _ _
    · exact h.steady.pure _

/-- Every command but those that let the core run or kill it. -/
theorem respond (pdata : List Char) {a : Option Rsp.Action} (hcontinue : a ≠ some .continue)
    (hstep : a ≠ some .step) (hkill : a ≠ some .killTarget) : Effect.Moves R (respond pdata a) := by
  by_cases hwrite : a = some .writeRegister
  · rw [hwrite]
    exact h.writeRegister pdata
  · exact h.steady.respond pdata hwrite hcontinue hstep hkill

end Closed

theorem closed_session : Closed (ReflTransGen SessionStep) where
  refl := fun _ => .refl
  trans := .trans
  cpu := fun h => .single (.cpu _ h)
  read := fun s a n buf =>
    .single (.memory s (Memory.readPhysicalMemory_frame a n buf false true s.memory))
  written := by
    intro s a n buf rcode m hbuf hrun
    have hspan : s.memory.clientSpan [(a, n)] = s.memory.ramSpan a n.toNat :=
      List.flatMap_singleton _ _
    rcases Memory.writePhysicalMemory_cases s.memory a n hbuf with
      ⟨rcode', hrun'⟩ | ⟨f, m', hrun', -⟩
    · rw [hrun'] at hrun
      cases hrun
      exact .single (.written s (a, n) (by rw [hspan]; exact Memory.written_frame s.memory a hbuf))
    · rw [hrun'] at hrun
      cases hrun
  refused := by
    intro s a n buf f m hbuf hrun
    rcases Memory.writePhysicalMemory_cases s.memory a n hbuf with
      ⟨rcode', hrun'⟩ | ⟨f', m', hrun', hframe, -⟩
    · rw [hrun'] at hrun
      cases hrun
    · rw [hrun'] at hrun
      cases hrun
      exact .single (.memory s hframe)
  breakpoints := fun s _ _ => .single (.server s _ rfl)

theorem acts_respond (pdata : List Char) (a : Option Rsp.Action) : Acts (respond pdata a) := by
  have hflags : ∀ {f : DebugServer → DebugServer} (text : List Char),
      (∀ d, (f d).clientWrites = d.clientWrites) → Acts (do modifyServer f; return text) :=
    fun _ hf => acts_bind (acts_modifyServer hf) fun _ => acts_pure _
  by_cases hcontinue : a = some .continue
  · rw [hcontinue]; exact hflags _ fun _ => rfl
  by_cases hstep : a = some .step
  · rw [hstep]; exact hflags _ fun _ => rfl
  by_cases hkill : a = some .killTarget
  · rw [hkill]; exact hflags _ fun _ => rfl
  exact closed_session.respond pdata hcontinue hstep hkill

theorem acts_dispatch (pdata : List Char) : Acts (dispatch pdata) := by
  refine acts_ite (acts_pure _) ?_
  exact acts_bind (acts_lift _) fun _ =>
    acts_bind (acts_respond pdata _) fun _ => acts_pure _

/-! ### Polling -/

theorem acts_socketRead : Acts socketRead := fun s => .single (.server s _ rfl)
theorem acts_socketWrite (bytes : List Char) : Acts (socketWrite bytes) :=
  fun s => .single (.server s _ rfl)
theorem acts_stopListening : Acts stopListening := acts_modifyServer fun _ => rfl

theorem acts_takeDeferResponse : Acts takeDeferResponse :=
  acts_bind acts_get fun _ =>
    acts_bind (acts_modifyServer fun _ => rfl) fun _ => acts_pure _

/-- A decoded request is answered, unless the answer is deferred or the connection is gone. -/
theorem acts_answer (clientRequest : List Char) : Acts (do
    let response ← tryCatch (some <$> dispatch clientRequest) fun
      | .runtimeError _ => return none
      | f => throw f
    match response with
    | none => stopListening
    | some response =>
      if response.length = 0 then return ()
      if ← takeDeferResponse then stopListening
      else
        let _ ← socketWrite response) := by
  refine acts_bind (acts_tryCatch (acts_map _ (acts_dispatch _)) fun f => ?_) fun r => ?_
  · split
    · exact acts_pure _
    · exact acts_throw _
  · cases r with
    | none => exact acts_stopListening
    | some response =>
      refine acts_ite (acts_pure _) (acts_bind acts_takeDeferResponse fun _ => ?_)
      exact acts_ite acts_stopListening
        (acts_bind (acts_socketWrite _) fun _ => acts_pure _)

theorem acts_serve (clientRequest : List Char) : Acts (serve clientRequest) := by
  rw [serve]
  dsimp only
  split
  · exact acts_bind (acts_socketWrite _) fun _ =>
      acts_ite (acts_answer clientRequest) (acts_pure _)
  · exact acts_bind (acts_pure _) fun _ =>
      acts_ite (acts_answer clientRequest) (acts_pure _)

theorem acts_pollLoop (n : Nat) : Acts (pollLoop n) := by
  induction n with
  | zero => exact acts_pure _
  | succ n ih =>
    refine acts_bind acts_get fun s => acts_ite ?_ (acts_pure _)
    refine acts_bind acts_socketRead fun r => ?_
    cases r with
    | none => exact acts_bind acts_stopListening fun _ => ih
    | some message =>
      dsimp only
      cases Rsp.decode message with
      | error f => exact acts_bind acts_stopListening fun _ => ih
      | ok clientRequest => exact acts_bind (acts_serve _) fun _ => ih

theorem acts_poll : Acts poll := by
  refine acts_bind (acts_modifyServer fun _ => rfl) fun _ => acts_bind acts_get fun _ =>
    acts_bind (acts_pollLoop _) fun _ => acts_bind acts_get fun _ => acts_pure _

theorem acts_acknowledgeBreakpoint (pc : U64) : Acts (acknowledgeBreakpoint pc) :=
  acts_bind acts_get fun _ => acts_bind (acts_socketWrite _) fun _ => acts_pure _

theorem acts_preStepChecks : Acts preStepChecks := by
  refine acts_bind acts_get fun s => acts_ite ?_ (acts_ite (acts_pure _)
    (acts_ite ?_ (acts_ite ?_ (acts_pure _))))
  · exact acts_bind (acts_modifyServer fun _ => rfl) fun _ => acts_poll
  · exact acts_bind (acts_modifyServer fun _ => rfl) fun _ => acts_poll
  · exact acts_bind (acts_acknowledgeBreakpoint _) fun _ => acts_poll

/-- After the step the server only answers. -/
theorem postStepChecks_run (s : DebugSession) :
    ∃ server, postStepChecks.run s = .ok true { s with server } := by
  rw [postStepChecks, EStateM.run_bind, EStateM.run_get]
  dsimp only
  split
  · exact ⟨_, rfl⟩
  · split
    · exact ⟨_, rfl⟩
    · exact ⟨s.server, rfl⟩

end DebugServer

end Dimebox
