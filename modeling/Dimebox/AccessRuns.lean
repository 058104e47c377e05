import Dimebox.Atomicity
import Dimebox.AddressRange
import Dimebox.ZeroedSections

/-! What a run does to memory.

    The cores, the debug client and the image loader reach memory through `ReadPhysicalMemory` and
    `WritePhysicalMemory` alone, and devices move with `ServiceDevices` besides. So a relation that
    contains the physical accesses and the ticks contains every run of `Go`. -/

namespace Dimebox

namespace Memory

/-- A relation that contains what the physical accesses do. -/
structure AccessClosed (R : Memory → Memory → Prop) : Prop where
  refl : ∀ m, R m m
  trans : ∀ {m m' m''}, R m m' → R m' m'' → R m m''
  read : ∀ a n buf init, Effect.Moves R (readPhysicalMemory a n buf false init)
  write : ∀ a n buf iv, Effect.Moves R (writePhysicalMemory a n buf false iv)

/-- An access changes RAM, or is one of a device. -/
theorem accessClosed_of_parts {R : Memory → Memory → Prop} (hr : ∀ m, R m m)
    (ht : ∀ {m m' m''}, R m m' → R m' m'' → R m m'')
    (hram : ∀ (m : Memory) (p : PhysicalMemory), R m { m with physMem := p })
    (hread : ∀ (m : Memory) p pa n,
      R m { m with deviceObjects := (m.deviceObjects.read p m.hostEndianness pa n).2.2 })
    (hwrite : ∀ (m : Memory) p pa buf n,
      R m { m with deviceObjects := (m.deviceObjects.write p m.hostEndianness pa buf n).2 }) :
    AccessClosed R where
  refl := hr
  trans := ht
  read := by
    intro a n buf init m
    rw [readPhysicalMemory, EStateM.run_bind, EStateM.run_get]
    dsimp only
    rw [EStateM.run_bind]
    cases m.checkAddresses a n false with
    | error f => exact hr m
    | ok address =>
      rw [Effect.run_lift_ok]
      dsimp only
      cases m.deviceAt address with
      | some p =>
        dsimp only
        rw [readDeviceMemory, EStateM.run_bind, EStateM.run_get]
        dsimp only
        split
        · exact hr m
        · split
          · exact hread m p address n
          · exact hr m
      | none =>
        dsimp only
        rw [EStateM.run_bind, onPhysMem, Effect.run_focus]
        cases (PhysicalMemory.read address init n).run m.physMem with
        | ok r p => exact hram m p
        | error f p => exact hram m p
  write := by
    intro a n buf iv m
    rw [writePhysicalMemory, EStateM.run_bind, EStateM.run_get]
    dsimp only
    rw [EStateM.run_bind]
    cases m.checkAddresses a n false with
    | error f => exact hr m
    | ok address =>
      rw [Effect.run_lift_ok]
      dsimp only
      cases m.deviceAt address with
      | some p =>
        dsimp only
        rw [writeDeviceMemory, EStateM.run_bind, EStateM.run_get]
        dsimp only
        split
        · exact hr m
        · split
          · exact hwrite m p address buf n
          · exact hr m
      | none =>
        dsimp only
        rw [onPhysMem, Effect.run_focus, Effect.final_mapState]
        exact hram m _

namespace AccessClosed

variable {R : Memory → Memory → Prop} (h : AccessClosed R)
include h

theorem bind {α β : Type} {x : EStateM Fault Memory α} {f : α → EStateM Fault Memory β}
    (hx : Effect.Moves R x) (hf : ∀ a, Effect.Moves R (f a)) : Effect.Moves R (x >>= f) :=
  Effect.moves_bind (R := R) h.trans hx hf

theorem get : Effect.Moves R (get : EStateM Fault Memory Memory) := h.refl

/-- `ReadMemory`. -/
theorem readMemory (la : U64) (isData : Bool) (n : Int) (aligned : Bool) (buf : List Byte)
    (init : Bool) : Effect.Moves R (readMemory la isData n aligned buf false init) :=
  readMemory_moves h.refl h.trans false h.read la isData n aligned buf init

/-- `WriteMemory` is a sequence of physical writes. -/
theorem writeMemory (la : U64) (isData : Bool) (n : Int) (aligned : Bool) (buf : List Byte) :
    Effect.Moves R (writeMemory la isData n aligned buf false) := by
  have hblocks : ∀ (blocks blockOffset : Nat) (rcode : Int),
      Effect.Moves R (writeBlocks la buf false blocks blockOffset rcode) := by
    intro blocks
    induction blocks with
    | zero => exact fun _ _ => Effect.moves_pure h.refl _
    | succ blocks ih =>
      intro blockOffset rcode
      rw [writeBlocks]
      split
      · exact Effect.moves_pure h.refl _
      · exact h.bind (h.write _ _ _ _) fun _ => ih _ _
  have hwrite : Effect.Moves R (Memory.writeMemory la true n true buf false) := by
    rw [Memory.writeMemory]
    simp only [Bool.not_true, Bool.false_and, Bool.false_eq_true, if_false]
    split
    · exact h.write _ _ _ _
    · refine h.bind (hblocks _ _ _) fun r => ?_
      obtain ⟨rcode, blockOffset⟩ := r
      dsimp only
      split
      · exact h.write _ _ _ _
      · exact Effect.moves_pure h.refl _
  cases isData <;> cases aligned
  · exact Effect.moves_throw h.refl _
  all_goals exact hwrite

end AccessClosed

end Memory

/-! ### The image loader -/

namespace Elfio

variable {R : Memory → Memory → Prop} (h : Memory.AccessClosed R)
include h

theorem moves_tryWrite (a : U64) (n : Int) (buf : List Byte) (iv : Bool) :
    Effect.Moves R (tryWrite a n buf iv) := by
  refine Effect.moves_tryCatch (R := R) h.trans
    (h.bind (h.write a n buf iv) fun _ => Effect.moves_pure h.refl _) fun f => ?_
  split
  · exact Effect.moves_pure h.refl _
  · exact Effect.moves_throw h.refl _

theorem moves_loadBlocks (a : U64) (bytes : List Byte) (n blockOffset : Nat) :
    Effect.Moves R (loadBlocks a bytes n blockOffset) := by
  induction n generalizing blockOffset with
  | zero => exact Effect.moves_pure h.refl _
  | succ n ih =>
    refine h.bind (moves_tryWrite h _ _ _ _) fun b => ?_
    split
    · exact ih _
    · exact Effect.moves_pure h.refl _

theorem moves_loadSection (a : U64) (bytes : List Byte) (size : Int) :
    Effect.Moves R (loadSection a bytes size) := by
  refine h.bind h.get fun m => h.bind (Effect.moves_lift h.refl _) fun address =>
    h.bind (moves_loadBlocks h _ _ _ _) fun r => ?_
  obtain ⟨rcode, blockOffset⟩ := r
  dsimp only
  split
  · refine h.bind (moves_tryWrite h _ _ _ _) fun b => ?_
    split
    · exact Effect.moves_pure h.refl _
    · exact Effect.moves_pure h.refl _
  · exact Effect.moves_pure h.refl _

theorem moves_loadSections (loadAddress : U64) (n : Nat) (ss : List ElfSection) (count : Nat) :
    Effect.Moves R (loadSections loadAddress n ss count) := by
  induction n generalizing ss count with
  | zero => exact Effect.moves_pure h.refl _
  | succ n ih =>
    cases ss with
    | nil => exact ih _ _
    | cons s ss =>
      rw [loadSections]
      split
      · exact Effect.moves_throw h.refl _
      · split
        · exact ih _ _
        · dsimp only
          split
          · exact Effect.moves_pure h.refl _
          · split
            · exact Effect.moves_pure h.refl _
            · refine h.bind (moves_loadSection h _ _ _) fun rcode => ?_
              split
              · exact Effect.moves_pure h.refl _
              · exact ih _ _

theorem moves_loadTestImage (files : List ElfFile) : Effect.Moves R (loadTestImage files) := by
  induction files with
  | nil => exact Effect.moves_pure h.refl _
  | cons file files ih =>
    refine h.bind (moves_loadSections h _ _ _ _) fun rcode => ?_
    split
    · exact Effect.moves_pure h.refl _
    · exact ih

end Elfio

/-! ### The debug client -/

namespace DebugServer

variable {R : Memory → Memory → Prop} (h : Memory.AccessClosed R)
include h

/-- The relation that `R` is of sessions. -/
theorem closed_memory : Closed fun s s' => R s.memory s'.memory where
  refl := fun s => h.refl s.memory
  trans := h.trans
  cpu := fun {s} _ _ => h.refl s.memory
  read := fun s a n buf => h.read a n buf true s.memory
  written := by
    intro s a n buf rcode m _ hrun
    have hmoved := h.write a n buf false s.memory
    rwa [hrun] at hmoved
  refused := by
    intro s a n buf f m _ hrun
    have hmoved := h.write a n buf false s.memory
    rwa [hrun] at hmoved
  breakpoints := fun s _ _ => h.refl s.memory

/-- A session moves memory along `R`. -/
abbrev Accesses (R : Memory → Memory → Prop) {α : Type} (x : DebugM α) : Prop :=
  Effect.Moves (fun s s' : DebugSession => R s.memory s'.memory) x

theorem accesses_bind {α β : Type} {x : DebugM α} {f : α → DebugM β} (hx : Accesses R x)
    (hf : ∀ a, Accesses R (f a)) : Accesses R (x >>= f) :=
  (closed_memory h).steady.bind hx hf

theorem accesses_modifyServer (f : DebugServer → DebugServer) : Accesses R (modifyServer f) :=
  fun s => h.refl s.memory

theorem accesses_respond (pdata : List Char) (a : Option Rsp.Action) :
    Accesses R (respond pdata a) := by
  have hflags : ∀ (f : DebugServer → DebugServer) (text : List Char),
      Accesses R (do modifyServer f; return text) := fun f text =>
    accesses_bind h (accesses_modifyServer h f) fun _ => (closed_memory h).steady.pure text
  by_cases hcontinue : a = some .continue
  · rw [hcontinue]
    exact hflags _ _
  by_cases hstep : a = some .step
  · rw [hstep]
    exact hflags _ _
  by_cases hkill : a = some .killTarget
  · rw [hkill]
    exact hflags _ _
  exact (closed_memory h).respond pdata hcontinue hstep hkill

theorem accesses_dispatch (pdata : List Char) : Accesses R (dispatch pdata) := by
  unfold dispatch
  split
  · exact (closed_memory h).steady.pure _
  · exact accesses_bind h ((closed_memory h).steady.lift _) fun _ =>
      accesses_bind h (accesses_respond h pdata _) fun _ => (closed_memory h).steady.pure _

theorem accesses_socketRead : Accesses R socketRead := fun s => h.refl s.memory

theorem accesses_socketWrite (bytes : List Char) : Accesses R (socketWrite bytes) :=
  fun s => h.refl s.memory

theorem accesses_stopListening : Accesses R stopListening := accesses_modifyServer h _

/-- A decoded request is answered. -/
theorem accesses_answer (clientRequest : List Char) : Accesses R (do
    let response ← tryCatch (some <$> dispatch clientRequest) fun
      | .runtimeError _ => return none
      | f => throw f
    match response with
    | none => stopListening
    | some response =>
      if response.length = 0 then return ()
      if ← takeDeferResponse then stopListening
      else
        let _ ← socketWrite response) := by
  have hpure : ∀ {α : Type} (a : α), Accesses R (pure a : DebugM α) :=
    (closed_memory h).steady.pure
  refine accesses_bind h ((closed_memory h).steady.tryCatch
    ((closed_memory h).steady.map _ (accesses_dispatch h _)) fun f => ?_) fun r => ?_
  · split
    · exact hpure _
    · exact (closed_memory h).steady.throw _
  · cases r with
    | none => exact accesses_stopListening h
    | some response =>
      dsimp only
      split
      · exact hpure _
      · refine accesses_bind h (fun s => h.refl s.memory) fun defer => ?_
        split
        · exact accesses_stopListening h
        · exact accesses_bind h (accesses_socketWrite h _) fun _ => hpure _

theorem accesses_serve (clientRequest : List Char) : Accesses R (serve clientRequest) := by
  have hpure : ∀ {α : Type} (a : α), Accesses R (pure a : DebugM α) :=
    (closed_memory h).steady.pure
  rw [serve]
  dsimp only
  split
  · refine accesses_bind h (accesses_socketWrite h _) fun acked => ?_
    split
    · exact accesses_answer h clientRequest
    · exact hpure _
  · refine accesses_bind h (hpure _) fun acked => ?_
    split
    · exact accesses_answer h clientRequest
    · exact hpure _

theorem accesses_pollLoop (n : Nat) : Accesses R (pollLoop n) := by
  have hpure : Accesses R (pure () : DebugM Unit) := (closed_memory h).steady.pure _
  induction n with
  | zero => exact hpure
  | succ n ih =>
    refine accesses_bind h (closed_memory h).steady.get fun s => ?_
    split
    · refine accesses_bind h (accesses_socketRead h) fun r => ?_
      cases r with
      | none => exact accesses_bind h (accesses_stopListening h) fun _ => ih
      | some message =>
        dsimp only
        cases Rsp.decode message with
        | error f => exact accesses_bind h (accesses_stopListening h) fun _ => ih
        | ok clientRequest => exact accesses_bind h (accesses_serve h _) fun _ => ih
    · exact hpure

theorem accesses_poll : Accesses R poll :=
  accesses_bind h (accesses_modifyServer h _) fun _ =>
    accesses_bind h (closed_memory h).steady.get fun _ =>
      accesses_bind h (accesses_pollLoop h _) fun _ =>
        accesses_bind h (closed_memory h).steady.get fun _ => (closed_memory h).steady.pure _

theorem accesses_preStepChecks : Accesses R preStepChecks := by
  refine accesses_bind h (closed_memory h).steady.get fun s => ?_
  dsimp only
  split
  · exact accesses_bind h (accesses_modifyServer h _) fun _ => accesses_poll h
  · split
    · exact (closed_memory h).steady.pure _
    · split
      · exact accesses_bind h (accesses_modifyServer h _) fun _ => accesses_poll h
      · split
        · exact accesses_bind h (accesses_bind h (closed_memory h).steady.get fun _ =>
            accesses_bind h (accesses_socketWrite h _) fun _ => (closed_memory h).steady.pure _)
              fun _ => accesses_poll h
        · exact (closed_memory h).steady.pure _

end DebugServer

/-! ### A step of a core -/

/-- `Writeback`. -/
theorem moves_writebackOps {R : Memory → Memory → Prop} (h : Memory.AccessClosed R)
    (ops : List MemoryAccess) : Effect.Moves R (writebackOps ops) := by
  induction ops with
  | nil => exact Effect.moves_pure h.refl _
  | cons mop ops ih =>
    rw [writebackOps]
    split
    · exact h.bind (h.writeMemory _ _ _ _ _) fun _ => ih
    · exact ih

theorem moves_writeback {R : Memory → Memory → Prop} (h : Memory.AccessClosed R)
    (i : RiscvInstruction) :
    Effect.Moves (fun cm cm' : RiscvState × Memory => R cm.2 cm'.2) (writeback i) := by
  rw [writeback]
  refine Effect.moves_bind (R := fun cm cm' : RiscvState × Memory => R cm.2 cm'.2) h.trans
    ?_ fun _ => ?_
  · rintro ⟨core, m⟩
    exact h.refl m
  · exact Effect.moves_focus (Q := R) (moves_writebackOps h i.mOpsMemory) fun cm m hm => hm

namespace RiscvSimulator

variable {R : Memory → Memory → Prop}

/-- A run moves memory along `R`. -/
abbrev Accesses (R : Memory → Memory → Prop) {α : Type} (x : SimM α) : Prop :=
  Effect.Moves (fun s s' : RiscvSimulator => R s.memory s'.memory) x

section Step

variable (h : Memory.AccessClosed R)
include h

theorem accesses_bind {α β : Type} {x : SimM α} {f : α → SimM β} (hx : Accesses R x)
    (hf : ∀ a, Accesses R (f a)) : Accesses R (x >>= f) :=
  Effect.moves_bind (R := fun s s' : RiscvSimulator => R s.memory s'.memory) h.trans hx hf

theorem accesses_pure {α : Type} (a : α) : Accesses R (pure a : SimM α) := fun s => h.refl s.memory

theorem accesses_throw {α : Type} (f : Fault) : Accesses R (throw f : SimM α) :=
  fun s => h.refl s.memory

theorem accesses_get : Accesses R (get : SimM RiscvSimulator) := fun s => h.refl s.memory

theorem accesses_lift {α : Type} (r : Except Fault α) : Accesses R (Effect.lift r : SimM α) :=
  Effect.moves_lift (fun s : RiscvSimulator => h.refl s.memory) r

/-- A change of the other members. -/
theorem accesses_modify {f : RiscvSimulator → RiscvSimulator} (hf : ∀ s, (f s).memory = s.memory) :
    Accesses R (modify f : SimM Unit) := by
  intro s
  change R s.memory (f s).memory
  rw [hf]
  exact h.refl _

theorem moves_fetch (work : RiscvState) (pc : U32) : Effect.Moves R (fetch work pc) := by
  refine h.bind (h.readMemory _ _ _ _ _ _) fun _ => h.bind h.get fun _ => ?_
  dsimp only
  split
  · exact Effect.moves_pure h.refl _
  · exact h.bind (h.readMemory _ _ _ _ _ _) fun _ => h.bind h.get fun _ =>
      Effect.moves_pure h.refl _

theorem accesses_tryFetch (work : RiscvState) (pc : U32) : Accesses R (tryFetch work pc) := by
  refine Effect.moves_focus (Q := R) ?_ fun s m hm => hm
  refine Effect.moves_tryCatch (R := R) h.trans ?_ fun f => ?_
  · rw [← bind_pure_comp]
    exact h.bind (moves_fetch h work pc) fun _ => Effect.moves_pure h.refl _
  · split
    · exact Effect.moves_pure h.refl _
    · exact Effect.moves_throw h.refl _

theorem accesses_debugChecks {checks : DebugM Bool} (hchecks : DebugServer.Accesses R checks)
    (cpu : RiscvState) (pc : U32) : Accesses R (debugChecks checks cpu pc) := by
  refine accesses_bind h (accesses_get h) fun s => ?_
  cases s.debugServer with
  | none => exact accesses_pure h _
  | some server =>
    refine Effect.moves_focus (Q := fun s s' : DebugSession => R s.memory s'.memory) ?_
      fun s d hd => hd
    exact DebugServer.accesses_bind h hchecks fun _ =>
      DebugServer.accesses_bind h (DebugServer.closed_memory h).steady.get fun _ =>
        (DebugServer.closed_memory h).steady.pure _

theorem accesses_prepare (k : Nat) : Accesses R (prepare k) := by
  refine accesses_bind h (fun s => h.refl s.memory) fun call =>
    accesses_bind h (accesses_get h) fun s => ?_
  cases s.cores[k]? with
  | none => exact accesses_throw h _
  | some core =>
    refine accesses_bind h (accesses_lift h _) fun work => ?_
    dsimp only
    split
    · exact accesses_pure h _
    · refine accesses_bind h (accesses_tryFetch h work _) fun r => ?_
      cases r with
      | none =>
        exact accesses_bind h (accesses_modify h fun _ => rfl) fun _ => accesses_pure h _
      | some r =>
        obtain ⟨iclass, encoding⟩ := r
        refine accesses_bind h (accesses_get h) fun _ =>
          accesses_bind h (accesses_debugChecks h (DebugServer.accesses_preStepChecks h) work _)
            fun r => ?_
        split
        · exact accesses_pure h _
        · exact accesses_pure h _

theorem accesses_execute (i : RiscvInstruction) : Accesses R (execute i) := by
  refine Effect.moves_focus (Q := fun i i' : RiscvInstruction => R i.memory i'.memory) ?_
    fun s i hi => hi
  exact Effect.moves_bind (R := fun i i' : RiscvInstruction => R i.memory i'.memory) h.trans
    (Memory.execute_memory_moves h.refl h.trans h.read) fun _ i => h.refl i.memory

theorem accesses_writeback (k : Nat) (core : RiscvState) (i : RiscvInstruction) :
    Accesses R (writeback k core i) := by
  refine Effect.moves_focus (Q := fun cm cm' : RiscvState × Memory => R cm.2 cm'.2) ?_
    fun s cm hcm => hcm
  exact Effect.moves_bind (R := fun cm cm' : RiscvState × Memory => R cm.2 cm'.2) h.trans
    (moves_writeback h i) fun _ cm => h.refl cm.2

theorem accesses_commit (k : Nat) (core : RiscvState) (pc : U32) (i : RiscvInstruction) :
    Accesses R (commit k core pc i) := by
  have hpost : DebugServer.Accesses R DebugServer.postStepChecks := by
    intro s
    obtain ⟨server, hrun⟩ := DebugServer.postStepChecks_run s
    rw [hrun]
    exact h.refl s.memory
  have hcount : Accesses R countInstr := by
    intro s
    rw [countInstr, EStateM.run_bind, EStateM.run_get]
    dsimp only
    split
    · exact h.refl s.memory
    · exact h.refl s.memory
  exact accesses_bind h (accesses_writeback h k core i) fun core' =>
    accesses_bind h (accesses_get h) fun s =>
      accesses_bind h (accesses_modify h fun _ => rfl) fun _ =>
        accesses_bind h hcount fun _ =>
          accesses_bind h (accesses_debugChecks h hpost _ _) fun _ =>
            accesses_modify h fun _ => rfl

theorem accesses_stepCore (k : Nat) : Accesses R (stepCore k) := by
  refine accesses_bind h (accesses_prepare h k) fun r => ?_
  cases r with
  | error why => exact accesses_pure h _
  | ok r =>
    obtain ⟨core, pc, i⟩ := r
    exact accesses_bind h (accesses_execute h i) fun i' =>
      accesses_bind h (accesses_commit h k core pc i') fun _ => accesses_pure h _

theorem accesses_stepCores (ks : List Nat) : Accesses R (stepCores ks) := by
  induction ks with
  | nil => exact accesses_pure h _
  | cons k ks ih =>
    refine accesses_bind h (accesses_get h) fun s => ?_
    split
    · exact accesses_pure h _
    · refine accesses_bind h (Effect.moves_tryCatch
        (R := fun s s' : RiscvSimulator => R s.memory s'.memory) h.trans ?_ fun f => ?_) fun r => ?_
      · rw [← bind_pure_comp]
        exact accesses_bind h (accesses_stepCore h k) fun _ => accesses_pure h _
      · split
        · exact accesses_bind h (accesses_modify h fun _ => rfl) fun _ => accesses_pure h _
        · exact accesses_throw h _
      · cases r with
        | none => exact accesses_pure h _
        | some e => exact accesses_bind h ih fun _ => accesses_pure h _

end Step

/-! ### The loop of `Go` -/

/-- The relation contains the ticks of the devices as well. -/
structure RunClosed (R : Memory → Memory → Prop) : Prop extends Memory.AccessClosed R where
  timer : ∀ m : Memory, R m { m with
    deviceObjects := { m.deviceObjects with timer := m.deviceObjects.timer.advanceTimer } }
  uart : ∀ (m : Memory) (stdin : Option Byte), R m { m with
    deviceObjects := { m.deviceObjects with
      uart1 := m.deviceObjects.uart1.advanceClock.serviceIos stdin } }

section Loop

variable (h : RunClosed R)
include h

theorem accesses_signal (e : SimExceptions) : Accesses R (signal e) := by
  intro s
  rw [signal, EStateM.run_bind, EStateM.run_get]
  dsimp only
  cases s.cores with
  | nil => exact h.refl s.memory
  | cons core cores => exact h.refl s.memory

theorem accesses_serviceUart : Accesses R (do
    if (← get).memory.deviceObjects.uart1.isImplemented then
      let call ← nextCall
      let stdin := (← get).host.stdin call
      modifyDevices fun d => { d with uart1 := d.uart1.advanceClock.serviceIos stdin }
      if (← get).memory.deviceObjects.uart1.interruptPending then signal .machineExternalInt) := by
  have hc := h.toAccessClosed
  refine accesses_bind hc (accesses_get hc) fun s => ?_
  split
  · refine accesses_bind hc (fun s => hc.refl s.memory) fun call =>
      accesses_bind hc (accesses_get hc) fun s =>
        accesses_bind hc (fun s => h.uart s.memory _) fun _ =>
          accesses_bind hc (accesses_get hc) fun s => ?_
    split
    · exact accesses_signal h _
    · exact accesses_pure hc _
  · exact accesses_pure hc _

theorem accesses_serviceDevices : Accesses R serviceDevices := by
  have hc := h.toAccessClosed
  refine accesses_bind hc (accesses_get hc) fun s => ?_
  split
  · refine accesses_bind hc (fun s => h.timer s.memory) fun _ =>
      accesses_bind hc (accesses_get hc) fun s => ?_
    split
    · exact accesses_bind hc (accesses_signal h _) fun _ => accesses_serviceUart h
    · exact accesses_serviceUart h
  · exact accesses_serviceUart h

theorem accesses_getReadyCpus : Accesses R getReadyCpus := fun s => h.refl s.memory

theorem accesses_turn (ready : List Nat) : Accesses R (turn ready) := by
  have hc := h.toAccessClosed
  have hafter : ∀ events, Accesses R (do
      advanceClock
      serviceDevices
      return (events, ← getReadyCpus) : SimM (List Event × List Nat)) := fun events =>
    accesses_bind hc (accesses_modify hc fun _ => rfl) fun _ =>
      accesses_bind hc (accesses_serviceDevices h) fun _ =>
        accesses_bind hc (accesses_getReadyCpus h) fun _ => accesses_pure hc _
  rw [turn]
  split
  · exact accesses_bind hc (accesses_stepCores hc ready) fun events => hafter events
  · exact accesses_bind hc (accesses_pure hc _) fun events => hafter events

theorem accesses_loop (n : Nat) (ready : List Nat) : Accesses R (loop n ready) := by
  have hc := h.toAccessClosed
  induction n generalizing ready with
  | zero => exact accesses_bind hc (accesses_get hc) fun _ => accesses_pure hc _
  | succ n ih =>
    refine accesses_bind hc (accesses_get hc) fun s => ?_
    split
    · refine accesses_bind hc (accesses_turn h ready) fun r => ?_
      obtain ⟨events, ready'⟩ := r
      refine accesses_bind hc (ih ready') fun r => ?_
      obtain ⟨left, later⟩ := r
      exact accesses_pure hc _
    · exact accesses_pure hc _

/-- Every run of `Go`, returned or thrown, once the images are loaded. -/
theorem go_moves {s : RiscvSimulator} (hload : R s.memory (s.host.loadTestImage s.memory).2)
    (n : Nat) : R s.memory (Effect.final ((go n).run s)).memory := by
  have hc := h.toAccessClosed
  have hstart : ∃ r s₁, startGo.run s = .ok r s₁ ∧ s₁.memory = (s.host.loadTestImage s.memory).2 := by
    rw [startGo, EStateM.run_bind, EStateM.run_get]
    dsimp only
    rw [EStateM.run_bind, EStateM.run_set]
    dsimp only
    split
    · exact ⟨_, _, rfl, rfl⟩
    · exact ⟨_, _, rfl, rfl⟩
  obtain ⟨r, s₁, hrun, hmemory⟩ := hstart
  rw [← hmemory] at hload
  rw [go, EStateM.run_bind, hrun]
  dsimp only
  cases r with
  | error rcode => exact hload
  | ok ready =>
    refine h.trans hload (accesses_bind hc (accesses_loop h n ready) (fun r => ?_) s₁)
    obtain ⟨left, events⟩ := r
    dsimp only
    split
    · exact accesses_pure hc _
    · exact accesses_bind hc (accesses_modify hc fun _ => rfl) fun _ =>
        accesses_bind hc (accesses_get hc) fun _ => accesses_pure hc _

end Loop

end RiscvSimulator

end Dimebox
