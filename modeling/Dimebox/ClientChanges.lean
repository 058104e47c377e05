import Dimebox.Session

/-! What a step makes of the changes the client made before it.

    The client is polled between the fetch and the execution of an instruction. By then the
    instruction has been read from memory, and its object knows where it goes on. A PC the client
    writes reaches the state the instruction runs on, but not the instruction; what it writes to
    memory at the PC comes too late as well. Which PC the client leaves is read off its requests
    (`preStepLogged_pc`). -/

namespace Dimebox

namespace DebugServer

/-! ### Requests that write the PC -/

/-- The value a request writes to the PC. -/
def pcWritten (pdata : List Char) : Option U64 :=
  if Rsp.action pdata ≠ .ok (some .writeRegister) then none
  else match Text.scanHex pdata.length (pdata.drop 1), Text.find '=' pdata with
    | some (n, _), some pos =>
      if regType (BitVec.ofNat 32 n) ≠ .pcReg then none
      else match decodedLe4 (pdata.drop (pos + 1)) with
        | .ok (some v) => some (v.setWidth 64)
        | _ => none
    | _, _ => none

/-- The requests of a log that were acknowledged; the others were not looked at. -/
def obeyed : List Event → List (List Char)
  | [] => []
  | .request pdata :: .sent _ :: es => pdata :: obeyed es
  | _ :: es => obeyed es

/-- The value that is written to the PC last. -/
def lastPc (requests : List (List Char)) : Option U64 := (requests.filterMap pcWritten).getLast?

theorem lastPc_append (xs ys : List (List Char)) :
    lastPc (xs ++ ys) = (lastPc ys).or (lastPc xs) := by
  rw [lastPc, List.filterMap_append, List.getLast?_append]
  rfl

/-- The PC after a command. -/
def PcAfter {α : Type} (v : Option U64) (x : DebugM α) : Prop :=
  ∀ s a s', x.run s = .ok a s' → s'.cpu.pc = v.getD s.cpu.pc

/-- The core stays as it is. -/
abbrev KeepsCpu {α : Type} (x : DebugM α) : Prop :=
  Effect.Moves (fun s s' : DebugSession => s'.cpu = s.cpu) x

theorem KeepsCpu.pcAfter {α : Type} {x : DebugM α} (h : KeepsCpu x) : PcAfter none x := by
  intro s a s' hrun
  have hs := h s
  rw [hrun] at hs
  exact congrArg RiscvState.pc hs

theorem steady_cpu : Steady fun s s' => s'.cpu = s.cpu where
  refl := fun _ => rfl
  trans := fun h h' => h'.trans h
  read := fun _ _ _ _ => rfl
  written := fun _ _ => rfl
  refused := fun _ _ => rfl
  breakpoints := fun _ _ _ => rfl

/-- Only a register write touches the core. -/
theorem keepsCpu_respond (pdata : List Char) {a : Option Rsp.Action}
    (ha : a ≠ some .writeRegister) : KeepsCpu (respond pdata a) := by
  have hset : ∀ (f : DebugServer → DebugServer) (text : List Char),
      KeepsCpu (do modifyServer f; return text) :=
    fun f text => steady_cpu.bind (fun _ => rfl) fun _ => steady_cpu.pure text
  by_cases hcontinue : a = some .continue
  · rw [hcontinue]; exact hset _ _
  by_cases hstep : a = some .step
  · rw [hstep]; exact hset _ _
  by_cases hkill : a = some .killTarget
  · rw [hkill]; exact hset _ _
  exact steady_cpu.respond pdata ha hcontinue hstep hkill

/-- A register write that was decoded puts the value. -/
theorem storeRegister_ok {pdata text : List Char} {pos : Nat}
    {put : RiscvState → U64 → Except Fault RiscvState} {s s' : DebugSession}
    (h : (storeRegister pdata pos put).run s = .ok text s') :
    (decodedLe4 (pdata.drop (pos + 1)) = .ok none ∧ s' = s) ∨
      ∃ v cpu, decodedLe4 (pdata.drop (pos + 1)) = .ok (some v) ∧
        put s.cpu (v.setWidth 64) = .ok cpu ∧ s' = { s with cpu } := by
  obtain ⟨r, s₁, hr, h⟩ := Effect.ok_of_bind h
  cases hdecoded : decodedLe4 (pdata.drop (pos + 1)) with
  | error f => rw [hdecoded] at hr; cases hr
  | ok r' =>
    rw [hdecoded] at hr
    cases hr
    cases r with
    | none => cases h; exact .inl ⟨rfl, rfl⟩
    | some v =>
      obtain ⟨s₂, s₃, hget, h⟩ := Effect.ok_of_bind h
      cases hget
      obtain ⟨cpu, s₄, hput, h⟩ := Effect.ok_of_bind h
      cases hcpu : put s.cpu (v.setWidth 64) with
      | error f => rw [hcpu] at hput; cases hput
      | ok cpu' =>
        rw [hcpu] at hput
        cases hput
        cases h
        exact .inr ⟨v, cpu, rfl, hcpu, rfl⟩

theorem pcAfter_writeRegister {pdata : List Char}
    (ha : Rsp.action pdata = .ok (some .writeRegister)) :
    PcAfter (pcWritten pdata) (writeRegister pdata) := by
  intro s text s' h
  rw [pcWritten, if_neg (not_not_intro ha)]
  rw [writeRegister] at h
  split at h
  · next hn =>
    cases h
    rw [hn]
    rfl
  · next r hn hpos =>
    cases h
    rw [hn, hpos]
    rfl
  · next n cs pos hn hpos =>
    rw [hn, hpos]
    dsimp only at h ⊢
    cases htype : regType (BitVec.ofNat 32 n) with
    | gpReg =>
      rw [htype] at h
      rcases storeRegister_ok h with ⟨-, rfl⟩ | ⟨v, cpu, -, hput, rfl⟩
      · rfl
      · rw [RiscvState.setGp_ok hput]
        rfl
    | spReg =>
      rw [htype] at h
      rcases storeRegister_ok h with ⟨-, rfl⟩ | ⟨v, cpu, -, hput, rfl⟩
      · rfl
      · cases hput
        rfl
    | pcReg =>
      rw [htype] at h
      rw [if_neg (not_not_intro rfl)]
      rcases storeRegister_ok h with ⟨hdecoded, rfl⟩ | ⟨v, cpu, hdecoded, hput, rfl⟩
      · rw [hdecoded]
        rfl
      · cases hput
        rw [hdecoded]
        rfl
    | badReg =>
      rw [htype] at h
      cases h
      rfl

/-- The PC after a request. -/
theorem pcAfter_dispatch (pdata : List Char) : PcAfter (pcWritten pdata) (dispatch pdata) := by
  intro s response s' h
  rw [dispatch] at h
  split at h
  · next hlen =>
    cases h
    rw [List.length_eq_zero_iff.mp hlen]
    rfl
  · obtain ⟨a, s₁, ha, h⟩ := Effect.ok_of_bind h
    obtain ⟨text, s₂, htext, h⟩ := Effect.ok_of_bind h
    cases h
    cases haction : Rsp.action pdata with
    | error f => rw [haction] at ha; cases ha
    | ok a' =>
      rw [haction] at ha
      cases ha
      by_cases hwrite : a = some .writeRegister
      · rw [hwrite] at haction htext
        exact pcAfter_writeRegister haction _ _ _ htext
      · have hnone : pcWritten pdata = none := by
          rw [pcWritten, if_pos]
          rw [haction]
          exact fun h => hwrite (Except.ok.inj h)
        rw [hnone]
        exact (keepsCpu_respond pdata hwrite).pcAfter _ _ _ htext

/-! ### The PC after a poll -/

theorem writeLogged_pc {bytes : List Char} {s s' : DebugSession} {b : Bool} {log : List Event}
    (h : (writeLogged bytes).run s = .ok (b, log) s') :
    s'.cpu.pc = s.cpu.pc ∧ (b = false ∧ log = [.failed] ∨ b = true ∧ log = [.sent bytes]) := by
  obtain ⟨written, s₁, hwrite, h⟩ := Effect.ok_of_bind h
  cases hwrite
  cases h
  refine ⟨rfl, ?_⟩
  cases (s.server.serverSocket.write bytes).1 with
  | true => exact .inr ⟨rfl, rfl⟩
  | false => exact .inl ⟨rfl, rfl⟩

/-- An answer is no request. -/
theorem answerLogged_pc {pdata : List Char} {s s' : DebugSession} {log : List Event}
    (h : (answerLogged pdata).run s = .ok log s') :
    s'.cpu.pc = (pcWritten pdata).getD s.cpu.pc ∧ ∀ es, obeyed (log ++ es) = obeyed es := by
  obtain ⟨response, s₁, hresponse, h⟩ := Effect.ok_of_bind h
  rw [Effect.run_tryCatch, ← bind_pure_comp, EStateM.run_bind] at hresponse
  cases hrun : (dispatch pdata).run s with
  | error f s₂ =>
    rw [hrun] at hresponse
    cases f with
    | runtimeError what => exact absurd rfl (dispatch_noRuntimeError hrun what)
    | sim | mblock | outOfRange | undefined => cases hresponse
  | ok packet s₂ =>
    have hpc := pcAfter_dispatch pdata _ _ _ hrun
    rw [hrun] at hresponse
    cases hresponse
    dsimp only at h
    split at h
    · cases h
      exact ⟨hpc, fun _ => rfl⟩
    · obtain ⟨deferred, s₃, htake, h⟩ := Effect.ok_of_bind h
      cases htake
      split at h
      · cases h
        exact ⟨hpc, fun _ => rfl⟩
      · obtain ⟨⟨b, log'⟩, s₄, hwrite, h⟩ := Effect.ok_of_bind h
        cases h
        obtain ⟨hsame, hlog⟩ := writeLogged_pc hwrite
        refine ⟨hsame.trans hpc, fun es => ?_⟩
        rcases hlog with ⟨-, rfl⟩ | ⟨-, rfl⟩ <;> rfl

/-- What follows the log of a message does not begin with an acknowledgment. -/
def BeginsMessage : List Event → Prop
  | .sent _ :: _ => False
  | _ => True

theorem serveLogged_pc {pdata : List Char} {s s' : DebugSession} {log : List Event}
    (h : (serveLogged pdata).run s = .ok log s') :
    ∃ requests, s'.cpu.pc = (lastPc requests).getD s.cpu.pc ∧
      ∀ es, BeginsMessage es → obeyed (.request pdata :: log ++ es) = requests ++ obeyed es := by
  rw [serveLogged] at h
  dsimp only at h
  cases pdata with
  | nil =>
    rw [Rsp.acknowledge, if_neg (by decide)] at h
    obtain ⟨acked, s₁, hack, h⟩ := Effect.ok_of_bind h
    cases hack
    obtain ⟨log', s₂, hanswer, h⟩ := Effect.ok_of_bind h
    cases h
    obtain ⟨hpc, -⟩ := answerLogged_pc hanswer
    have hnil : log' = [] := by
      cases hanswer
      rfl
    rw [hnil]
    refine ⟨[], hpc, fun es hes => ?_⟩
    cases es with
    | nil => rfl
    | cons e es => cases e <;> first | rfl | exact hes.elim
  | cons c cs =>
    rw [Rsp.acknowledge, if_pos (by simp), if_pos (by simp)] at h
    obtain ⟨⟨acked, ack⟩, s₁, hwrite, h⟩ := Effect.ok_of_bind h
    dsimp only at h
    obtain ⟨hsame, ⟨rfl, rfl⟩ | ⟨rfl, rfl⟩⟩ := writeLogged_pc hwrite
    · -- the acknowledgment was not sent, and the request is not looked at
      cases h
      exact ⟨[], hsame, fun es _ => rfl⟩
    · obtain ⟨log', s₂, hanswer, h⟩ := Effect.ok_of_bind h
      cases h
      obtain ⟨hpc, hlog⟩ := answerLogged_pc hanswer
      refine ⟨[c :: cs], ?_, fun es _ => ?_⟩
      · rw [hpc, hsame, lastPc, List.filterMap_cons, List.filterMap_nil]
        cases pcWritten (c :: cs) <;> rfl
      · exact congrArg ((c :: cs) :: ·) (hlog es)

theorem messageLogged_pc {s s' : DebugSession} {log : List Event}
    (h : messageLogged.run s = .ok log s') :
    BeginsMessage log ∧ log ≠ [] ∧ ∃ requests, s'.cpu.pc = (lastPc requests).getD s.cpu.pc ∧
      ∀ es, BeginsMessage es → obeyed (log ++ es) = requests ++ obeyed es := by
  obtain ⟨r, s₁, hread, h⟩ := Effect.ok_of_bind h
  cases hread
  split at h
  · cases h
    exact ⟨trivial, by simp, [], rfl, fun _ _ => rfl⟩
  · split at h
    · cases h
      exact ⟨trivial, by simp, [], rfl, fun _ _ => rfl⟩
    · obtain ⟨log', s₂, hserve, h⟩ := Effect.ok_of_bind h
      cases h
      obtain ⟨requests, hpc, hobeyed⟩ := serveLogged_pc hserve
      exact ⟨trivial, by simp, requests, hpc, hobeyed⟩

theorem pollLoopLogged_pc {n : Nat} {s s' : DebugSession} {log : List Event}
    (h : (pollLoopLogged n).run s = .ok log s') :
    BeginsMessage log ∧ s'.cpu.pc = (lastPc (obeyed log)).getD s.cpu.pc := by
  induction n generalizing s s' log with
  | zero =>
    cases h
    exact ⟨trivial, rfl⟩
  | succ n ih =>
    rw [pollLoopLogged, EStateM.run_bind, EStateM.run_get] at h
    dsimp only at h
    split at h
    · obtain ⟨first, s₁, hmessage, h⟩ := Effect.ok_of_bind h
      obtain ⟨later, s₂, hloop, h⟩ := Effect.ok_of_bind h
      cases h
      obtain ⟨hbegins, hne, requests, hpc, hobeyed⟩ := messageLogged_pc hmessage
      obtain ⟨hbegins', hpc'⟩ := ih hloop
      constructor
      · cases first with
        | nil => exact absurd rfl hne
        | cons e es => cases e <;> trivial
      · rw [hpc', hpc, hobeyed later hbegins', lastPc_append]
        cases lastPc (obeyed later) <;> rfl
    · cases h
      exact ⟨trivial, rfl⟩

theorem pollLogged_pc {s s' : DebugSession} {goOn : Bool} {log : List Event}
    (h : pollLogged.run s = .ok (goOn, log) s') :
    s'.cpu.pc = (lastPc (obeyed log)).getD s.cpu.pc ∧ BeginsMessage log := by
  obtain ⟨_, s₁, hlisten, h⟩ := Effect.ok_of_bind h
  cases hlisten
  obtain ⟨s₂, s₃, hget, h⟩ := Effect.ok_of_bind h
  cases hget
  obtain ⟨later, s₄, hloop, h⟩ := Effect.ok_of_bind h
  obtain ⟨s₅, s₆, hget, h⟩ := Effect.ok_of_bind h
  cases hget
  cases h
  exact ⟨(pollLoopLogged_pc hloop).2, trivial⟩

/-- The PC `PreStepChecks` leaves is the one the client wrote last, if it wrote one. -/
theorem preStepLogged_pc {s s' : DebugSession} {goOn : Bool} {log : List Event}
    (h : preStepLogged.run s = .ok (goOn, log) s') :
    s'.cpu.pc = (lastPc (obeyed log)).getD s.cpu.pc := by
  rw [preStepLogged, EStateM.run_bind, EStateM.run_get] at h
  dsimp only at h
  split at h
  · obtain ⟨_, s₁, hmodify, h⟩ := Effect.ok_of_bind h
    cases hmodify
    exact (pollLogged_pc h).1
  · split at h
    · cases h
      rfl
    · split at h
      · obtain ⟨_, s₁, hmodify, h⟩ := Effect.ok_of_bind h
        cases hmodify
        exact (pollLogged_pc h).1
      · split at h
        · obtain ⟨ack, s₁, hack, h⟩ := Effect.ok_of_bind h
          obtain ⟨⟨goOn', log'⟩, s₂, hpoll, h⟩ := Effect.ok_of_bind h
          cases h
          obtain ⟨s₃, s₄, hget, hack⟩ := Effect.ok_of_bind hack
          cases hget
          obtain ⟨⟨b, log''⟩, s₅, hwrite, hack⟩ := Effect.ok_of_bind hack
          cases hack
          obtain ⟨hsame, hlog⟩ := writeLogged_pc hwrite
          obtain ⟨hpc, -⟩ := pollLogged_pc hpoll
          rw [hpc, hsame]
          rcases hlog with ⟨-, rfl⟩ | ⟨-, rfl⟩ <;> rfl
        · cases h
          rfl

end DebugServer

namespace RiscvSimulator

open DebugServer (preStepLogged obeyed lastPc)

/-! ### A step with a poll -/

/-- A step of core `k` that was completed under a debug server, as far as the check before the
    execution: what was fetched, the log of the check, and what the client left behind. -/
structure PolledStep (k : Nat) (s s' : RiscvSimulator) where
  core : RiscvState
  work : RiscvState
  fetched : Iclass × U32
  memory : Memory
  server : DebugServer
  log : List DebugServer.Event
  left : DebugSession
  core_eq : s.cores[k]? = some core
  serviced : serviceInterrupt (RiscvState.copy (s.host.storage s.calls) core) = .ok work
  awake : work.lowPowerMode = false
  fetch_eq : (fetch work (work.pc.setWidth 32)).run s.memory = .ok fetched memory
  server_eq : s.debugServer = some server
  polled : preStepLogged.run { server, cpu := work, memory, pc := (work.pc.setWidth 32).setWidth 64 }
    = .ok (true, log) left
  completed : (stepCore k).run s = .ok .executed s'

/-- The check before the step, with its log. -/
theorem debugPreStepChecks_ok {work client : RiscvState} {pc : U32} {goOn : Bool}
    {s s₁ : RiscvSimulator} {d : DebugServer}
    (h : (debugPreStepChecks work pc).run s = .ok (goOn, client) s₁) (hd : s.debugServer = some d) :
    ∃ log t, preStepLogged.run { server := d, cpu := work, memory := s.memory, pc := pc.setWidth 64 }
        = .ok (goOn, log) t ∧ client = t.cpu ∧
      s₁ = { s with debugServer := some t.server, memory := t.memory } := by
  rw [debugPreStepChecks, debugChecks, EStateM.run_bind, EStateM.run_get] at h
  dsimp only at h
  rw [hd] at h
  dsimp only at h
  rw [Effect.run_focus, EStateM.run_bind, ← DebugServer.preStepLogged_erased, ← bind_pure_comp,
    EStateM.run_bind] at h
  cases hrun : preStepLogged.run
      { server := d, cpu := work, memory := s.memory, pc := pc.setWidth 64 } with
  | error f t => rw [hrun] at h; cases h
  | ok r t =>
    rw [hrun] at h
    cases h
    exact ⟨r.2, t, rfl, rfl, rfl⟩

/-- Every step under a debug server that executes its instruction is one. -/
theorem exists_polledStep {k : Nat} {s s' : RiscvSimulator} {d : DebugServer}
    (hd : s.debugServer = some d) (h : (stepCore k).run s = .ok .executed s') :
    Nonempty (PolledStep k s s') := by
  obtain ⟨i, i', s₁, hc⟩ := stepCore_executed h
  obtain ⟨core, pc, hprepared, -⟩ := hc.prepared
  obtain ⟨work, c, w, m, client, hcore, hserviced, hawake, rfl, hfetch, hdebug, -⟩ :=
    prepare_checked hprepared
  obtain ⟨log, t, hpolled, -, -⟩ := debugPreStepChecks_ok hdebug hd
  exact ⟨⟨core, work, (c, w), m, d, log, t, hcore, hserviced, hawake, hfetch, hd, hpolled, h⟩⟩

namespace PolledStep

variable {k : Nat} {s s' : RiscvSimulator} (x : PolledStep k s s')

/-- The PC of the fetch. -/
def pc : U32 := x.work.pc.setWidth 32

/-- The instruction `Execute` is called for, over the state and the memory the client left. -/
def instr : RiscvInstruction :=
  { RiscvInstruction.new (s.host.junk s.calls) x.fetched.1 x.work x.memory x.fetched.2 with
    state := x.left.cpu
    memory := x.left.memory }

/-- The instruction that is executed is the one memory holds, behind the poll, at the PC the client
    left, and the core goes on where that instruction leads. -/
def TakesEffect : Prop :=
  ∃ c w m, (fetch x.left.cpu (x.left.cpu.pc.setWidth 32)).run x.left.memory = .ok (c, w) m ∧
    x.instr = .new (s.host.junk s.calls) c x.left.cpu x.left.memory w ∧
    s'.cores[k]?.map RiscvState.pc = some (Effect.final (Step.execute.run
      (.new (s.host.junk s.calls) c x.left.cpu x.left.memory w))).state.pc

/-- The value the client wrote to the PC last, if it wrote any, is the PC, and memory holds at it
    the instruction that was fetched. -/
structure ChangesNothing : Prop where
  pc : ∀ v, lastPc (obeyed x.log) = some v → v.setWidth 32 = x.pc
  memory : ∃ m, (fetch x.work x.pc).run x.left.memory = .ok x.fetched m

/-- What the step goes through. -/
theorem parts : ∃ i s₁, (prepare k).run s = .ok (.ok (x.core, x.pc, i)) s₁ ∧
    { i with memory := s₁.memory } = x.instr ∧ ∃ i', Step.execute.run x.instr = .ok () i' ∧
      s'.cores[k]?.map RiscvState.pc = some i'.state.pc := by
  obtain ⟨i, i', s₁, hc⟩ := stepCore_executed x.completed
  obtain ⟨core, pc, hprepared, -, hcores⟩ := hc.prepared
  obtain ⟨work, c, w, m, client, hcore, hserviced, -, rfl, hfetch, hdebug, rfl⟩ :=
    prepare_checked hprepared
  obtain rfl := Option.some.inj (hcore.symm.trans x.core_eq)
  obtain rfl := Except.ok.inj (hserviced.symm.trans x.serviced)
  have hfetched := hfetch.symm.trans x.fetch_eq
  simp only [EStateM.Result.ok.injEq] at hfetched
  obtain ⟨hfetched, rfl⟩ := hfetched
  obtain ⟨log, t, hpolled, rfl, rfl⟩ := debugPreStepChecks_ok hdebug x.server_eq
  have hleft := hpolled.symm.trans x.polled
  simp only [EStateM.Result.ok.injEq] at hleft
  obtain ⟨-, rfl⟩ := hleft
  have hinstr : x.instr = { RiscvInstruction.new (s.host.junk s.calls) c x.work x.memory w with
      state := x.left.cpu, memory := x.left.memory } := by
    rw [instr, ← hfetched]
  refine ⟨_, _, hprepared, hinstr.symm, i', ?_, ?_⟩
  · rw [hinstr]
    exact hc.executed
  · have hlt := (List.getElem?_eq_some_iff.mp x.core_eq).1
    rw [hcores, List.getElem?_set_self hlt, Option.map_some, pc_setEndTest,
      RiscvState.pc_update]

/-- The PC the client left. -/
theorem left_pc : x.left.cpu.pc = (lastPc (obeyed x.log)).getD x.work.pc :=
  DebugServer.preStepLogged_pc x.polled

/-- The client edits registers and the PC. -/
theorem left_frame : x.left.cpu = { x.work with pc := x.left.cpu.pc, x := x.left.cpu.x } := by
  have hedits := edits_of_steps (acts_preStepChecks_cpu
    ⟨x.server, x.work, x.memory, (x.work.pc.setWidth 32).setWidth 64⟩)
  rw [EStateM.run_bind, ← DebugServer.preStepLogged_erased, ← bind_pure_comp, EStateM.run_bind,
    x.polled] at hedits
  exact clientEdits_frame hedits

/-- What is decoded does not depend on that. -/
theorem fetch_left (pc : U32) : fetch x.left.cpu pc = fetch x.work pc := by
  rw [x.left_frame]
  rfl

theorem takesEffect_iff : x.TakesEffect ↔
    x.left.cpu.pc.setWidth 32 = x.pc ∧
      ∃ m, (fetch x.work x.pc).run x.left.memory = .ok x.fetched m := by
  constructor
  · rintro ⟨c, w, m, hfetch, hinstr, -⟩
    have hclass : x.fetched.1 = c := congrArg RiscvInstruction.iclass hinstr
    have hword : x.fetched.2 = w := congrArg RiscvInstruction.encoding hinstr
    have hnext : x.pc + x.fetched.1.instrSize = x.left.cpu.pc.setWidth 32 + c.instrSize :=
      congrArg RiscvInstruction.nextPc hinstr
    rw [← hclass] at hnext
    have hpc : x.pc = x.left.cpu.pc.setWidth 32 := (BitVec.add_left_inj _).mp hnext
    refine ⟨hpc.symm, m, ?_⟩
    rw [x.fetch_left, ← hpc] at hfetch
    rw [hfetch, ← hclass, ← hword]
  · rintro ⟨hpc, m, hfetch⟩
    have hinstr : x.instr = .new (s.host.junk s.calls) x.fetched.1 x.left.cpu x.left.memory
        x.fetched.2 := by
      rw [instr, RiscvInstruction.new, RiscvInstruction.new, hpc]
      rfl
    obtain ⟨i, s₁, -, -, i', hrun, hcores⟩ := x.parts
    refine ⟨x.fetched.1, x.fetched.2, m, ?_, hinstr, ?_⟩
    · rw [x.fetch_left, hpc, hfetch]
    · rw [← hinstr, hrun]
      exact hcores

/-- The PC is as it was exactly if the value written to it last is. -/
theorem left_pc_iff : x.left.cpu.pc.setWidth 32 = x.pc ↔
    ∀ v, lastPc (obeyed x.log) = some v → v.setWidth 32 = x.pc := by
  rw [x.left_pc]
  cases lastPc (obeyed x.log) with
  | none => simp [pc]
  | some v => simp

/-- For every step under a debug server: what the client changed before it takes effect exactly if
    the client changed nothing about the instruction. -/
theorem client_changes_take_effect_iff : x.TakesEffect ↔ x.ChangesNothing := by
  rw [x.takesEffect_iff, x.left_pc_iff]
  exact ⟨fun ⟨hpc, hmem⟩ => ⟨hpc, hmem⟩, fun ⟨hpc, hmem⟩ => ⟨hpc, hmem⟩⟩

end PolledStep

/-! ### A jump by the client -/

/-- Eight NOPs, and a client that writes 0x10 to the PC and steps. -/
def jumpingClient : RiscvSimulator :=
  let host := Host.simple 0 [0x13, 0, 0, 0, 0x13, 0, 0, 0, 0x13, 0, 0, 0, 0x13, 0, 0, 0,
    0x13, 0, 0, 0, 0x13, 0, 0, 0, 0x13, 0, 0, 0, 0x13, 0, 0, 0]
    { incoming := [some (Rsp.encode "P20=10000000".toList), some (Rsp.encode "s".toList)] }
  let s := init { gdbPort := 1234 } host
  { s with memory := (host.loadTestImage s.memory).2 }

/-- The NOP at 0 is executed in place of the one at 0x10. -/
theorem client_jump_is_lost : ¬ ∀ (k : Nat) (s s' : RiscvSimulator) (x : PolledStep k s s'),
    x.TakesEffect := by
  intro h
  obtain ⟨s', hstep⟩ : ∃ s', (stepCore 0).run jumpingClient = .ok .executed s' :=
    Effect.ok_of_result (by decide +kernel)
  obtain ⟨x⟩ := exists_polledStep (s := jumpingClient) rfl hstep
  have hpc := (x.takesEffect_iff.mp (h 0 jumpingClient s' x)).1
  obtain ⟨i, s₁, hprepared, hinstr, -⟩ := x.parts
  have hstate : i.state = x.left.cpu := congrArg RiscvInstruction.state hinstr
  have hval : (Effect.result ((prepare 0).run jumpingClient)).map (fun r => match r with
      | .ok (_, pc, i) => some (pc, i.state.pc.setWidth 32)
      | .error _ => none) = some (some (0, 0x10)) := by decide +kernel
  rw [hprepared, Effect.result] at hval
  simp only [Option.map_some, Option.some.injEq, Prod.mk.injEq] at hval
  rw [← hstate, hval.2, hval.1] at hpc
  exact absurd hpc (by decide)

end RiscvSimulator

end Dimebox
