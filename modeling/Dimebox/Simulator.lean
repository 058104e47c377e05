import Mathlib.Data.List.Perm.Basic
import Dimebox.Step
import Dimebox.DebugServer

/-! The simulator (`RiscvSimulator`): one step of a core, and the loop of `Go`.

    `StepCore` works on a copy of the core: a pending interrupt is taken on the copy, the debug
    client looks at the copy, the instruction runs on the copy, and only `Writeback` puts the copy
    back into the core. `Go` steps the ready cores in a random order, ticks the clock and serves the
    devices until no core is ready or asleep. Reading ELF images is left to the host. -/

namespace Dimebox

/-! ### Configuration and host -/

/-- `SimConfig`; `devices` in the order its iterator has. -/
structure SimConfig where
  resetAddress : U64 := 0
  numCores : Nat := 1
  maxInstrs : Int := 1000
  dram : List (U64 × U64) := []
  devices : List (U64 × String) := []
  gdbPort : U32 := 0
  gdbCoreId : U32 := 0
  isaTest : Bool := false

/-- `SetAddressRange`. -/
def SimConfig.setAddressRange (simCfg : SimConfig) (lo hi : U64) : SimConfig :=
  { simCfg with dram := simCfg.dram ++ [(lo, hi)] }

/-- `DefaultAddressRange`: `dram` is not looked at. -/
def SimConfig.defaultAddressRange (_ : SimConfig) : U64 × U64 := (0, 0xffffffff)

/-- What a simulation takes from outside. The calls that take something are numbered. -/
structure Host where
  /-- what the storage of a new core object held -/
  storage : Nat → RiscvState
  /-- what a new instruction object held -/
  junk : Nat → Junk
  /-- the character that waits on stdin -/
  stdin : Nat → Option Byte
  /-- `random_shuffle` -/
  shuffle : Nat → List Nat → List Nat
  shuffle_perm : ∀ n l, (shuffle n l).Perm l
  /-- `LoadTestImage`: return code and memory -/
  loadTestImage : Memory → Int × Memory
  oracle : Oracle
  client : TcpServer

/-- A host whose storage is zero, with no input and no shuffling, that loads `bytes` at `address`. -/
def Host.simple (address : U64) (bytes : List Byte) (client : TcpServer) : Host where
  storage := fun _ => {}
  junk := fun _ => {}
  stdin := fun _ => none
  shuffle := fun _ l => l
  shuffle_perm := fun _ l => .refl l
  loadTestImage := fun m =>
    match (Memory.writePhysicalMemory address bytes.length bytes false true).run m with
    | .ok rcode m => (rcode, m)
    | .error _ m => (-1, m)
  oracle := { rand := fun _ => 0, heap := fun _ => 0 }
  client := client

/-- `RiscvSimulator`; `calls` numbers the calls that ask the host. -/
structure RiscvSimulator where
  simCfg : SimConfig
  host : Host
  clock : U64 := 0
  cores : List RiscvState
  memory : Memory
  instrCount : Int := 0
  rcode : Int := 0
  debugServer : Option DebugServer := none
  calls : Nat := 0

abbrev SimM := EStateM Fault RiscvSimulator

namespace RiscvSimulator

/-! ### Construction -/

/-- The body of the device loop of `Init`; other devices are ignored. -/
def mapDevice (m : Memory) (md : U64 × String) : Memory :=
  if md.2 = "UART_PL011" then
    { m with
      deviceObjects := { m.deviceObjects with uart1 := m.deviceObjects.uart1.mapDevice md.1 }
      devices := m.devices ++ [.uart1] }
  else if md.2 = "MACHINE_TIMER" then
    { m with
      deviceObjects := { m.deviceObjects with timer := m.deviceObjects.timer.mapDevice md.1 }
      devices := m.devices ++ [.timer] }
  else m

/-- `SetupDebugServer`; the port is converted to `int`. -/
def setupDebugServer (client : TcpServer) (debugPort debugCoreId : U32) : Option DebugServer :=
  if 0 < debugPort.toInt then some { core := debugCoreId, serverSocket := client } else none

/-- `Init`. -/
def init (simCfg : SimConfig) (host : Host) : RiscvSimulator where
  simCfg := simCfg
  host := host
  cores := (List.range simCfg.numCores).map fun i => .reset (host.storage i) simCfg.resetAddress
  memory := simCfg.devices.foldl mapDevice
    { sizeInBits := 32
      physicalAddressLo := simCfg.defaultAddressRange.1
      physicalAddressHi := simCfg.defaultAddressRange.2
      physMem := { oracle := host.oracle } }
  debugServer := setupDebugServer host.client simCfg.gdbPort simCfg.gdbCoreId
  calls := simCfg.numCores

/-! ### One step of a core -/

/-- A call of a member function of `memory`. -/
def onMemory (x : EStateM Fault Memory α) : SimM α :=
  Effect.focus RiscvSimulator.memory (fun m s => { s with memory := m }) x

/-- Number a call. -/
def nextCall : SimM Nat := do
  let s ← get
  set { s with calls := s.calls + 1 }
  return s.calls

/-- Take a pending interrupt. -/
def serviceInterrupt (work : RiscvState) : Except Fault RiscvState :=
  match work.interruptPending with
  | some e => work.processInterrupt e
  | none => .ok work

/-- The instruction fetch: class and encoding. Two bytes are tried as a compressed instruction, in
    a word that is zero otherwise; if they are none, four bytes are fetched. -/
def fetch (work : RiscvState) (pc : U32) : EStateM Fault Memory (Iclass × U32) := do
  let r ← Memory.readMemory (pc.setWidth 64) false 2 true (List.replicate 4 0) false false
  let m ← get
  let buf := m.applyEndianness r.2 false 2 2
  let encoding := Devices.wordOfBytes m.hostEndianness buf
  let iclass := newInstruction16 work encoding
  if iclass ≠ .unknownInstruction then return (iclass, encoding)
  let r ← Memory.readMemory (pc.setWidth 64) false 4 true buf false false
  let m ← get
  let buf := m.applyEndianness r.2 false 4 4
  let encoding := Devices.wordOfBytes m.hostEndianness buf
  return (newInstruction encoding, encoding)

/-- The fetch inside its `try`: `none` after a `SIM_EXCEPTIONS`. -/
def tryFetch (work : RiscvState) (pc : U32) : SimM (Option (Iclass × U32)) :=
  onMemory (tryCatch (some <$> fetch work pc) fun
    | .sim _ => return none
    | f => throw f)

/-- `DebugPreStepChecks` or `DebugPostStepChecks` on `cpu`: the result, and `cpu` as the client left
    it. -/
def debugChecks (checks : DebugM Bool) (cpu : RiscvState) (pc : U32) : SimM (Bool × RiscvState) := do
  match (← get).debugServer with
  | none => return (true, cpu)
  | some server =>
    Effect.focus (fun s => { server, cpu, memory := s.memory, pc := pc.setWidth 64 })
      (fun d s => { s with debugServer := some d.server, memory := d.memory })
      (do
        let goOn ← checks
        return (goOn, (← get).cpu))

def debugPreStepChecks : RiscvState → U32 → SimM (Bool × RiscvState) :=
  debugChecks DebugServer.preStepChecks

def debugPostStepChecks : RiscvState → U32 → SimM (Bool × RiscvState) :=
  debugChecks DebugServer.postStepChecks

/-- `instr->Execute()`: the object afterwards. -/
def execute (instr : RiscvInstruction) : SimM RiscvInstruction :=
  Effect.focus (fun s => { instr with memory := s.memory }) (fun i s => { s with memory := i.memory })
    (do
      Step.execute
      get)

/-- `instr->Writeback(core,&memory)`: the core afterwards. -/
def writeback (k : Nat) (core : RiscvState) (instr : RiscvInstruction) : SimM RiscvState :=
  Effect.focus (fun s => (core, s.memory))
    (fun cm s => { s with cores := s.cores.set k cm.1, memory := cm.2 })
    (do
      Dimebox.writeback instr
      return (← get).1)

def setCore (k : Nat) (core : RiscvState) : SimM Unit :=
  modify fun s => { s with cores := s.cores.set k core }

/-- `instr_count++` of an `int`. -/
def countInstr : SimM Unit := do
  let s ← get
  if s.instrCount = 0x7fffffff then throw .undefined
  set { s with instrCount := s.instrCount + 1 }

/-- End of test: an ECALL of an ISA test, or an apparent jump to self by a core that is awake. -/
def setEndTest (isaTest : Bool) (iclass : Iclass) (pc : U32) (core : RiscvState) : RiscvState :=
  let core := if isaTest && iclass = .ecall then { core with endTest := true } else core
  if core.endTest then core
  else if core.lowPowerMode then core
  else { core with endTest := core.pc = pc.setWidth 64 }

/-- The early returns of `StepCore`. -/
inductive EarlyReturn where | asleep | fetchError | refused
  deriving DecidableEq

/-- How a call of `StepCore` returns. -/
inductive StepEvent where
  | returned (why : EarlyReturn)
  | executed
  deriving DecidableEq

/-- `StepCore` up to `Execute`: the core, its PC and the instruction to execute. -/
def prepare (k : Nat) : SimM (Except EarlyReturn (RiscvState × U32 × RiscvInstruction)) := do
  let call ← nextCall
  let s ← get
  match s.cores[k]? with
  | none => throw .undefined
  | some core =>
    let work ← Effect.lift (serviceInterrupt (RiscvState.copy (s.host.storage call) core))
    if work.lowPowerMode then return .error .asleep
    let pc : U32 := work.pc.setWidth 32
    match ← tryFetch work pc with
    | none =>
      modify fun s => { s with rcode := -1 }
      return .error .fetchError
    | some (iclass, encoding) =>
      let instr := RiscvInstruction.new (s.host.junk call) iclass work (← get).memory encoding
      let (goOn, work) ← debugPreStepChecks work pc
      -- the end of test is marked on the copy, which is gone after the return
      if !goOn then return .error .refused
      return .ok (core, pc, { instr with state := work })

/-- `StepCore` from `Writeback` on. -/
def commit (k : Nat) (core : RiscvState) (pc : U32) (instr : RiscvInstruction) : SimM Unit := do
  let core ← writeback k core instr
  let core := setEndTest (← get).simCfg.isaTest instr.iclass pc core
  setCore k core
  countInstr
  let (goOn, core) ← debugPostStepChecks core pc
  setCore k (if goOn then core else { core with endTest := true })

/-- `StepCore` of core `k`. -/
def stepCore (k : Nat) : SimM StepEvent := do
  match ← prepare k with
  | .error why => return .returned why
  | .ok (core, pc, instr) =>
    let instr ← execute instr
    commit k core pc instr
    return .executed

/-! ### The loop of `Go` -/

abbrev Event := Nat × StepEvent

/-- `StepCores`: the steps that returned. -/
def stepCores : List Nat → SimM (List Event)
  | [] => return []
  | k :: ks => do
    if (← get).rcode ≠ 0 then return []
    let r ← tryCatch (some <$> stepCore k) fun
      | .runtimeError _ => do
        modify fun s => { s with rcode := -1 }
        return none
      | f => throw f
    match r with
    | none => return []
    | some e => return (k, e) :: (← stepCores ks)

/-- The cores that are ready, in the order they are held. -/
def readyCores (s : RiscvSimulator) : List Nat :=
  (List.range s.cores.length).filter fun k => (s.cores[k]?.map RiscvState.ready).getD false

/-- `GetReadyCpus`. -/
def getReadyCpus : SimM (List Nat) := do
  let call ← nextCall
  let s ← get
  return s.host.shuffle call s.readyCores

/-- `SleepingCores`. -/
def sleepingCores (s : RiscvSimulator) : Bool := s.cores.any RiscvState.lowPowerMode

/-- `InstructionCountExceeded`. -/
def instructionCountExceeded (s : RiscvSimulator) : Bool :=
  if s.simCfg.maxInstrs < 0 then false else s.simCfg.maxInstrs < s.instrCount

/-- `AdvanceClock`. -/
def advanceClock : SimM Unit := modify fun s => { s with clock := s.clock + 1 }

/-- `cores[0]->Signal`. -/
def signal (e : SimExceptions) : SimM Unit := do
  let s ← get
  match s.cores with
  | [] => throw .undefined
  | core :: cores => set { s with cores := core.signal e :: cores }

def modifyDevices (f : Devices → Devices) : SimM Unit :=
  modify fun s => { s with memory := { s.memory with deviceObjects := f s.memory.deviceObjects } }

/-- `ServiceDevices`. -/
def serviceDevices : SimM Unit := do
  if (← get).memory.deviceObjects.timer.isImplemented then
    modifyDevices fun d => { d with timer := d.timer.advanceTimer }
    if (← get).memory.deviceObjects.timer.interruptPending then signal .machineTimerInt
  if (← get).memory.deviceObjects.uart1.isImplemented then
    let call ← nextCall
    let stdin := (← get).host.stdin call
    modifyDevices fun d => { d with uart1 := d.uart1.advanceClock.serviceIos stdin }
    if (← get).memory.deviceObjects.uart1.interruptPending then signal .machineExternalInt

/-- The condition of the loop of `Go`. -/
def goesOn (s : RiscvSimulator) (ready : List Nat) : Bool :=
  s.rcode = 0 && !s.instructionCountExceeded && (!ready.isEmpty || s.sleepingCores)

/-- One turn of the loop: its steps and the next ready cores. -/
def turn (ready : List Nat) : SimM (List Event × List Nat) := do
  let events ← if !ready.isEmpty then stepCores ready else pure []
  advanceClock
  serviceDevices
  return (events, ← getReadyCpus)

/-- The loop of `Go`, for at most `n` turns: whether it was left, and its steps. -/
def loop : Nat → List Nat → SimM (Bool × List Event)
  | 0, ready => return (!(← get).goesOn ready, [])
  | n + 1, ready => do
    if (← get).goesOn ready then
      let (events, ready) ← turn ready
      let (left, later) ← loop n ready
      return (left, events ++ later)
    else return (true, [])

/-- `Go` up to its loop: the ready cores, or the return code if no image was loaded. -/
def startGo : SimM (Except Int (List Nat)) := do
  let s ← get
  let (rcode, memory) := s.host.loadTestImage s.memory
  set { s with rcode, memory }
  if rcode ≠ 0 then return .error rcode
  let ready ← getReadyCpus
  modify fun s => { s with instrCount := 0 }
  return .ok ready

/-- The final check of `Go`. -/
def allHalted (s : RiscvSimulator) : Bool := s.cores.all RiscvState.halted

/-- `Go`, for at most `n` turns: its return code if it returns, and its steps. -/
def go (n : Nat) : SimM (Option Int × List Event) := do
  match ← startGo with
  | .error rcode => return (some rcode, [])
  | .ok ready =>
    let (left, events) ← loop n ready
    if !left then return (none, events)
    modify fun s => { s with rcode := if s.allHalted then s.rcode else -1 }
    return (some (← get).rcode, events)

end RiscvSimulator

end Dimebox
