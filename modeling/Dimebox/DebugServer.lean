import Dimebox.Rsp
import Dimebox.Memory
import Dimebox.Csr

/-! The debug server (`DebugServer`, `RiscvDebugServer`) and its socket.

    A session works on the server, the core and the memory of the step it was called from. The
    client is what its socket delivers: a list with one entry for every read, after which the client
    has hung up and reads return nothing. `Poll` handles one message after the other until it has to
    let the core run or the connection is gone. -/

namespace Dimebox

/-! ### The socket -/

/-- `TCPServer` with the client at the other end. -/
structure TcpServer where
  /-- what the next reads return, `none` for an error -/
  incoming : List (Option (List Char)) := []
  /-- whether the next writes fail -/
  writeFails : List Bool := []
  sent : List (List Char) := []

namespace TcpServer

/-- `Read`; `none` is the exception. -/
def read (t : TcpServer) : Option (List Char) × TcpServer :=
  match t.incoming with
  | [] => (some [], t)
  | r :: rs => (r, { t with incoming := rs })

/-- `Write`; `false` is the exception. -/
def write (t : TcpServer) (bytes : List Char) : Bool × TcpServer :=
  match t.writeFails with
  | true :: fs => (false, { t with writeFails := fs })
  | false :: fs => (true, { t with writeFails := fs, sent := t.sent ++ [bytes] })
  | [] => (true, { t with sent := t.sent ++ [bytes] })

end TcpServer

/-! ### The server -/

/-- `DebugServer`, as its constructor leaves it if nothing else is said. `clientWrites` is not in
    the source: it logs the memory writes that were done for the client. -/
structure DebugServer where
  core : U32
  serverSocket : TcpServer := {}
  atStart : Bool := true
  listening : Bool := false
  deferResponse : Bool := false
  doShutdown : Bool := false
  doStep : Bool := false
  instrBreakpoints : List (U64 × U64) := []
  dataBreakpoints : List (U64 × U64) := []
  clientWrites : List (U64 × Int) := []

/-- A call into the server: `RiscvDebugServer` points to the core and memory of the caller. -/
structure DebugSession where
  server : DebugServer
  cpu : RiscvState
  memory : Memory
  pc : U64

abbrev DebugM := EStateM Fault DebugSession

/-- `REG_TYPES`, as far as `RegType` and its callers tell them apart. -/
inductive RegType where | gpReg | spReg | pcReg | badReg
  deriving DecidableEq

namespace DebugServer

/-- `le4`. -/
def le4 (rv : U32) : List Char :=
  (List.range 4).flatMap fun i => Text.hexPadded 2 ((rv >>> (i * 8)) &&& 0xff).toNat

/-- `EncodeRegisterValue`. -/
def encodeRegisterValue (rval : U64) : List Char := le4 (rval.setWidth 32)

/-- The loop of `decoded_le4` over the digit pairs `i`, ...: it goes on after a pair that does not
    scan, also past the end of the string. -/
def decodedPairs (encoded : List Char) : List Nat → Bool → U32 → Except Fault (Bool × U32)
  | [], success, rv => .ok (success, rv)
  | i :: is, success, rv =>
    if encoded.length < i * 2 then .error .undefined
    else match Text.scanHex 2 (encoded.drop (i * 2)) with
      | some (td, _) => decodedPairs encoded is success (rv ||| (BitVec.ofNat 32 td <<< (i * 8)))
      | none => decodedPairs encoded is false rv

/-- `decoded_le4`: the value, if every pair scanned. -/
def decodedLe4 (encoded : List Char) : Except Fault (Option U32) := do
  let (success, rv) ← decodedPairs encoded [0, 1, 2, 3] true 0
  return if success then some rv else none

/-- `RegType`. -/
def regType (rindex : U32) : RegType :=
  if rindex < 31 then .gpReg else if rindex = 31 then .spReg else if rindex = 32 then .pcReg
  else .badReg

/-- `_breakpoint_match`. -/
def breakpointMatch (breakpoints : List (U64 × U64)) (address : U64) : Bool :=
  breakpoints.any fun r => r.1 ≤ address && address ≤ r.2

/-- `breakpoint_hit`. -/
def breakpointHit (d : DebugServer) (pc : U64) : Bool :=
  (List.range 4).any fun i => breakpointMatch d.instrBreakpoints (pc + BitVec.ofNat 64 i)

/-- `core_match(core)`: the member is compared with itself. -/
def coreMatch (d : DebugServer) (core : U32) : Bool := d.core = core

/-! ### Commands -/

def modifyServer (f : DebugServer → DebugServer) : DebugM Unit :=
  modify fun s => { s with server := f s.server }

/-- A call of a member function of `memory`. -/
def onMemory (x : EStateM Fault Memory α) : DebugM α :=
  Effect.focus DebugSession.memory (fun m s => { s with memory := m }) x

/-- `Continue`. -/
def continue_ : DebugM (List Char) := do
  modifyServer fun d => { d with listening := false, deferResponse := true }
  return []

/-- `Step`. -/
def step : DebugM (List Char) := do
  modifyServer fun d => { d with deferResponse := true, doStep := true }
  return []

/-- `KillTarget`. -/
def killTarget : DebugM (List Char) := do
  modifyServer fun d => { d with doShutdown := true }
  return "X00".toList

/-- `ReadGPRegisters`: x1 to x30, SP and PC. -/
def readGpRegisters : DebugM (List Char) := do
  let s ← get
  let regs := (List.range' 1 30).map fun i =>
    encodeRegisterValue ((s.cpu.gp (BitVec.ofNat 32 i)).toOption.getD 0)
  return regs.flatten ++ encodeRegisterValue s.cpu.sp ++ encodeRegisterValue s.pc

/-- `ReadRegister`. -/
def readRegister (pdata : List Char) : DebugM (List Char) := do
  let s ← get
  match Text.scanHex pdata.length (pdata.drop 1) with
  | none => return "E1".toList
  | some (n, _) =>
    let rindex : U32 := BitVec.ofNat 32 n
    match regType rindex with
    | .gpReg => return encodeRegisterValue (← Effect.lift (s.cpu.gp rindex))
    | .spReg => return encodeRegisterValue s.cpu.sp
    | .pcReg => return encodeRegisterValue s.pc
    | .badReg => return "E2".toList

/-- Decode the value after the `=` at `pos` and store it, or answer `E2`. -/
def storeRegister (pdata : List Char) (pos : Nat)
    (put : RiscvState → U64 → Except Fault RiscvState) : DebugM (List Char) := do
  match ← Effect.lift (decodedLe4 (pdata.drop (pos + 1))) with
  | none => return "E2".toList
  | some rval =>
    let s ← get
    let cpu ← Effect.lift (put s.cpu (rval.setWidth 64))
    set { s with cpu }
    return "OK".toList

/-- `WriteRegister`. -/
def writeRegister (pdata : List Char) : DebugM (List Char) := do
  match Text.scanHex pdata.length (pdata.drop 1), Text.find '=' pdata with
  | none, _ => return "E1".toList
  | some _, none => return "E 1".toList
  | some (n, _), some pos =>
    let rindex : U32 := BitVec.ofNat 32 n
    match regType rindex with
    | .gpReg => storeRegister pdata pos fun cpu v => cpu.setGp rindex v
    | .spReg => storeRegister pdata pos fun cpu v => .ok (cpu.setSp v)
    | .pcReg => storeRegister pdata pos fun cpu v => .ok (cpu.setPc v)
    | .badReg => return "E2".toList

/-- An `int` out of a `%d` conversion. -/
def intOf (n : Int) : Int := (BitVec.ofInt 32 n).toInt

/-- `sscanf(pdata.substr(1).c_str(),"%llx,%d",&maddr,&msize)`. -/
def scanAddressSize (pdata : List Char) : Option (U64 × Int) := do
  let (maddr, cs) ← Text.scanHex pdata.length (pdata.drop 1)
  let cs ← Text.scanChar ',' cs
  let (msize, _) ← Text.scanDec cs
  return (BitVec.ofNat 64 maddr, intOf msize)

/-- `ReadMemory`; a negative size makes an array of negative size. -/
def readMemory (pdata : List Char) : DebugM (List Char) := do
  match scanAddressSize pdata with
  | none => return "E1".toList
  | some (maddr, msize) =>
    if msize < 0 then throw .undefined
    let mbuf := List.replicate msize.toNat 0
    -- every exception is caught here
    let r ← tryCatch (some <$> onMemory (Memory.readPhysicalMemory maddr msize mbuf false true))
      fun
      | .undefined => throw .undefined
      | _ => return none
    match r with
    | none => return "E0".toList
    | some (rcode, bytes) =>
      if rcode ≠ 0 then return "E0".toList
      return (bytes.take msize.toNat).flatMap fun b => Text.hexPadded 2 b.toNat

/-- The scan loop of `WriteMemory`: the bytes, or `none` at one that does not scan. -/
def scanBytes (pdata : List Char) : Nat → Nat → Except Fault (Option (List Byte))
  | 0, _ => .ok (some [])
  | n + 1, pos =>
    if pdata.length < pos + 1 then .error .outOfRange
    else match Text.scanHex 2 (pdata.drop (pos + 1)) with
      | none => .ok none
      | some (bval, _) => do
        let rest ← scanBytes pdata n (pos + 2)
        return rest.map (BitVec.ofNat 8 bval :: ·)

/-- `WriteMemory`; only `SIM_EXCEPTIONS` are caught. -/
def writeMemory (pdata : List Char) : DebugM (List Char) := do
  match scanAddressSize pdata, Text.find ':' pdata with
  | none, _ => return "E1".toList
  | some _, none => return "E1".toList
  | some (maddr, msize), some pos =>
    if msize < 0 then throw .undefined
    match ← Effect.lift (scanBytes pdata msize.toNat pos) with
    | none => return "E2".toList
    | some mbytes =>
      tryCatch
        (do
          let _ ← onMemory (Memory.writePhysicalMemory maddr msize mbytes false false)
          modifyServer fun d => { d with clientWrites := d.clientWrites ++ [(maddr, msize)] }
          return "OK".toList)
        fun
        | .sim _ => return "E2".toList
        | f => throw f

/-- `sscanf(pdata.substr(1).c_str(),"%d,%llx,%d",&btype,&maddr,&msize)`. -/
def scanBreakpoint (pdata : List Char) : Option (Int × U64 × Int) := do
  let (btype, cs) ← Text.scanDec (pdata.drop 1)
  let cs ← Text.scanChar ',' cs
  let (maddr, cs) ← Text.scanHex (cs.length + 1) cs
  let cs ← Text.scanChar ',' cs
  let (msize, _) ← Text.scanDec cs
  return (intOf btype, BitVec.ofNat 64 maddr, intOf msize)

/-- `SetBreakpoints`. -/
def setBreakpoints (pdata : List Char) : DebugM (List Char) := do
  match scanBreakpoint pdata with
  | none => return "E1".toList
  | some (btype, maddr, msize) =>
    if btype = 0 then
      let hi := maddr + BitVec.ofInt 64 (if 4 < msize then msize else 3)
      modifyServer fun d => { d with instrBreakpoints := d.instrBreakpoints ++ [(maddr, hi)] }
    else if btype = 2 then
      let hi := maddr + BitVec.ofInt 64 msize
      modifyServer fun d => { d with dataBreakpoints := d.dataBreakpoints ++ [(maddr, hi)] }
    return "OK".toList

/-- `ClearBreakpoints`: all of them. -/
def clearBreakpoints : DebugM (List Char) := do
  modifyServer fun d => { d with instrBreakpoints := [], dataBreakpoints := [] }
  return "OK".toList

/-- The switch of `Dispatch`. -/
def respond (pdata : List Char) : Option Rsp.Action → DebugM (List Char)
  | some .clearBreakpoint => clearBreakpoints
  | some .setBreakpoint => setBreakpoints pdata
  | some .continue => continue_
  | some .step => step
  | some .killTarget => killTarget
  | some .readGpRegisters => readGpRegisters
  | some .readRegister => readRegister pdata
  | some .writeRegister => writeRegister pdata
  | some .readMemory => readMemory pdata
  | some .writeMemory => writeMemory pdata
  | a => return Rsp.baseResponse a

/-- `Dispatch`. -/
def dispatch (pdata : List Char) : DebugM (List Char) := do
  if pdata.length = 0 then return []
  let a ← Effect.lift (Rsp.action pdata)
  return Rsp.encode (← respond pdata a)

/-! ### Polling -/

/-- `server_socket->Read`. -/
def socketRead : DebugM (Option (List Char)) := do
  let s ← get
  let r := s.server.serverSocket.read
  set { s with server := { s.server with serverSocket := r.2 } }
  return r.1

/-- `server_socket->Write`; a failure ends listening. -/
def socketWrite (bytes : List Char) : DebugM Bool := do
  let s ← get
  let r := s.server.serverSocket.write bytes
  set { s with server := { s.server with
    serverSocket := r.2, listening := r.1 && s.server.listening } }
  return r.1

def stopListening : DebugM Unit := modifyServer fun d => { d with listening := false }

/-- `deferResponse()`: read and clear the flag. -/
def takeDeferResponse : DebugM Bool := do
  let d := (← get).server.deferResponse
  modifyServer fun d => { d with deferResponse := false }
  return d

/-- The part of the loop of `Poll` after a message has been decoded. -/
def serve (clientRequest : List Char) : DebugM Unit := do
  let ack := Rsp.acknowledge clientRequest
  let acked ← if 0 < ack.length then socketWrite ack else pure true
  if acked then
    let response ← tryCatch (some <$> dispatch clientRequest) fun
      | .runtimeError _ => return none
      | f => throw f
    match response with
    | none => stopListening
    | some response =>
      if response.length = 0 then return ()
      if ← takeDeferResponse then stopListening
      else
        let _ ← socketWrite response

/-- The loop of `Poll`, for at most `n` messages. -/
def pollLoop : Nat → DebugM Unit
  | 0 => return ()
  | n + 1 => do
    if (← get).server.listening then
      match ← socketRead with
      | none => stopListening
      | some message =>
        match Rsp.decode message with
        | .error _ => stopListening
        | .ok clientRequest => serve clientRequest
      pollLoop n

/-- `Poll`: the client's messages and the empty one after them are all there is to read. -/
def poll : DebugM Bool := do
  modifyServer fun d => { d with listening := true }
  pollLoop ((← get).server.serverSocket.incoming.length + 1)
  return !(← get).server.doShutdown

/-- `AcknowledgeBreakpoint`. -/
def acknowledgeBreakpoint (pc : U64) : DebugM Unit := do
  let s ← get
  let response := "T02".toList ++ "1d:".toList ++ encodeRegisterValue s.cpu.fp ++ ";".toList ++
    "1f:".toList ++ encodeRegisterValue s.cpu.sp ++ ";".toList ++
    "20:".toList ++ encodeRegisterValue pc ++ ";".toList
  let _ ← socketWrite (Rsp.encode response)

/-- `PreStepChecks`; the server socket exists. -/
def preStepChecks : DebugM Bool := do
  let s ← get
  let d := s.server
  if d.atStart then
    modifyServer fun d => { d with atStart := false }
    poll
  else if !d.coreMatch d.core then return true
  else if d.doStep then
    modifyServer fun d => { d with doStep := false }
    poll
  else if d.breakpointHit s.pc then
    acknowledgeBreakpoint s.pc
    poll
  else return true

/-- `PostStepChecks`: always true. -/
def postStepChecks : DebugM Bool := do
  let s ← get
  let d := s.server
  if d.atStart then modifyServer fun d => { d with atStart := false }
  else if d.coreMatch d.core && d.doStep then acknowledgeBreakpoint s.pc
  return true

end DebugServer

end Dimebox
