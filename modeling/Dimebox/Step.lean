import Dimebox.Instruction

/-! Executing one instruction: the accessors, the `Step` bodies, `Execute` and `Writeback`.

    A body runs on the instruction object. C++ conversions are written out: registers are 64-bit,
    `RS1`, `RS2` and `RD` are 32-bit, immediates are sign-extended to 64 bits. What C++ leaves
    undefined (a shift count of 32 or more, a division by zero, a register index past the file)
    throws `Fault.undefined`. Stores are queued and reach memory in `Writeback`; loads read memory
    at once. -/

namespace Dimebox

/-- `SignExtend` to 64 bits: a loop sets the bits from the sign bit up. -/
def signExtend (op : U64) (fieldWidth : Nat) : U64 :=
  let signBit := fieldWidth - 1
  if (op >>> signBit) &&& 1 = 1 then
    (List.range' signBit (64 - signBit)).foldl (fun op i => op ||| (1#64 <<< i)) op
  else op

abbrev StepM := EStateM Fault RiscvInstruction

namespace Step

/-! ### Accessors -/

def rs1 : StepM U32 := do
  let i ← get
  return (← Effect.lift (i.state.gp i.rs1)).setWidth 32

def rs2 : StepM U32 := do
  let i ← get
  return (← Effect.lift (i.state.gp i.rs2)).setWidth 32

def rd : StepM U32 := do
  let i ← get
  return (← Effect.lift (i.state.gp i.rd)).setWidth 32

/-- `X(idx)`. -/
def x (idx : U32) : StepM U32 := do
  let i ← get
  return (← Effect.lift (i.state.gp idx)).setWidth 32

/-- `RD(rval)`. -/
def setRd (rval : U32) : StepM Unit := do
  let i ← get
  let s ← Effect.lift (i.state.setGp i.rd (rval.setWidth 64))
  set { i with state := s }

/-- `SetSP`. -/
def setSp (rval : U64) : StepM Unit := do
  let i ← get
  let s ← Effect.lift (i.state.setGp 2 rval)
  set { i with state := s }

def pc : StepM U32 := return (← get).state.pc.setWidth 32
def imm : StepM U32 := return (← get).imm
def immForShift : StepM Nat := return ((← get).imm &&& 0x1f).toNat

/-- `SIGN_EXTEND_IMM` and `UNSIGNED_SIGN_EXTEND_IMM`. -/
def signExtendImm (signBit : Nat) : StepM U64 :=
  return signExtend ((← get).imm.setWidth 64) signBit

/-- `CSR(imm)`. -/
def csrImm : StepM U64 := do
  let i ← get
  Effect.lift (i.state.csr i.imm i.state.privilegeLevel)

/-- `SetCSR(imm,rval)`. -/
def setCsrImm (rval : U64) : StepM Unit := do
  let i ← get
  let s ← Effect.lift (i.state.setCsr i.imm i.state.privilegeLevel rval)
  set { i with state := s }

/-- `SetPC`: a misaligned target is recorded in MTVAL and refused. -/
def setPc (branchPc : U64) (alignment : U64) : StepM Unit := do
  let i ← get
  let alignmentMask := if i.state.compressedExtensionEnabled then 1 else alignment - 1
  if branchPc &&& alignmentMask ≠ 0 then
    set { i with state := i.state.recordMisalignedAddress branchPc }
    throw (.sim .instructionAddressMisaligned)
  set { i with nextPc := branchPc.setWidth 32 }

/-- `AdvancePC`. -/
def advancePc : StepM Unit :=
  modify fun i => { i with state := i.state.setPc (i.nextPc.setWidth 64) }

def userMode : StepM Bool := return (← get).state.currentPrivilegeLevel = RiscvState.userMode
def machineMode : StepM Bool := return (← get).state.currentPrivilegeLevel = RiscvState.machineMode
def wfiEnabled : StepM Bool := return (← get).state.wfiEnabled

/-! ### Memory accesses -/

/-- The sizes `MEMORY_READ` and `MEMORY_WRITE` accept. -/
def checkSize (size : Nat) (what : String) : Except Fault Unit :=
  if size = 1 ∨ size = 2 ∨ size = 4 ∨ size = 8 then .ok ()
  else .error (.runtimeError what.toList)

/-- The bytes of a register, in the order of the host. -/
def registerBytes (bigEndian : Bool) (size : Nat) (rval : U64) : List Byte :=
  let bytes := (List.range size).map fun i => (rval >>> (i * 8)).setWidth 8
  if bigEndian then bytes.reverse else bytes

/-- One turn of the copy loop of `MEMORY_READ` on a little-endian host: the byte is shifted as an
    `int`, so bit 31 spreads over the upper half. -/
def orByte (rval : U64) (i : Nat) (b : Byte) : Except Fault U64 :=
  if i * 8 < 32 then .ok (rval ||| ((b.setWidth 32 : U32) <<< (i * 8)).signExtend 64)
  else .error .undefined

/-- The copy loop of `MEMORY_READ` from byte `i` on. -/
def registerValue (bigEndian : Bool) : U64 → Nat → List Byte → Except Fault U64
  | rval, _, [] => .ok rval
  | rval, i, b :: bs => do
    let rval ← if bigEndian then .ok (rval ||| (b.setWidth 64 <<< (i * 8))) else orByte rval i b
    registerValue bigEndian rval (i + 1) bs

/-- A call of a member function of `memory`. -/
def onMemory (m : EStateM Fault Memory α) : StepM α :=
  Effect.focus RiscvInstruction.memory (fun m i => { i with memory := m }) m

/-- `mOpsMemory.push_back`. -/
def pushBack (access : MemoryAccess) : StepM Unit :=
  modify fun i => { i with mOpsMemory := i.mOpsMemory ++ [access] }

/-- Replace the contents of `mbuf`. -/
def setMbuf (bytes : List Byte) : StepM Unit := modify fun i => { i with mbuf := bytes }

/-- `MEMORY_READ`. -/
def memoryRead (address : U64) (size : Nat) : StepM U64 := do
  Effect.lift (checkSize size "Internal error: MEMORY_READ invalid byte count")
  let i ← get
  let r ← onMemory (Memory.readMemory address true size true i.mbuf false true)
  setMbuf r.2
  let bytes := r.2.take size
  let rval ← Effect.lift (registerValue i.memory.hostEndianness 0 0
    (if i.memory.hostEndianness then bytes.reverse else bytes))
  pushBack { address, size, isWrite := false }
  return rval

/-- `MEMORY_WRITE`: the store is queued. -/
def memoryWrite (address : U64) (size : Nat) (rval : U64) : StepM Unit := do
  Effect.lift (checkSize size "Internal error: MEMORY_WRITE invalid byte count")
  let i ← get
  let bytes := registerBytes i.memory.hostEndianness size rval
  setMbuf (Memory.overlay bytes i.mbuf)
  pushBack { address, size, isWrite := true, membuffer := bytes }

/-! ### Families of bodies -/

/-- `RD( f(RS1(),RS2()) )`. -/
def alu (f : U32 → U32 → U32) : StepM Unit := do setRd (f (← rs1) (← rs2))

/-- `RD( f(RS1(),SIGN_EXTEND_IMM(12)) )`. -/
def aluImm (f : U32 → U64 → U32) : StepM Unit := do setRd (f (← rs1) (← signExtendImm 12))

/-- `RD( f(RS1(),IMM_FOR_SHIFT()) )`. -/
def shiftImm (f : U32 → Nat → U32) : StepM Unit := do setRd (f (← rs1) (← immForShift))

/-- A shift by `RS2()`, undefined for 32 and more. -/
def shiftReg (f : U32 → Nat → U32) : StepM Unit := do
  let a ← rs1
  let n := (← rs2).toNat
  if 32 ≤ n then throw .undefined
  setRd (f a n)

/-- `(int) SignExtend(a >> n,32 - n)`. -/
def sra (a : U32) (n : Nat) : U32 := (signExtend ((a >>> n).setWidth 64) (32 - n)).setWidth 32

/-- A comparison as a register value. -/
def bit (b : Bool) : U32 := if b then 1 else 0

/-- `SetPC( PC() + (cond ? SIGN_EXTEND_IMM(13) : 4) )`. -/
def branch (cond : U32 → U32 → Bool) : StepM Unit := do
  let offset ← if cond (← rs1) (← rs2) then signExtendImm 13 else pure 4
  setPc ((← pc).setWidth 64 + offset) 4

/-- `RS1() + SIGN_EXTEND_IMM(12)` as an address. -/
def effectiveAddress : StepM U64 := return (← rs1).setWidth 64 + (← signExtendImm 12)

def load (size : Nat) (extend : U64 → U64) : StepM Unit := do
  setRd ((extend (← memoryRead (← effectiveAddress) size)).setWidth 32)

def store (size : Nat) : StepM Unit := do
  memoryWrite (← effectiveAddress) size ((← rs2).setWidth 64)

/-- The CSR is read into RD first and written afterwards; `value` is what to write. -/
def csrWrite (value : StepM U64) : StepM Unit := do
  setRd ((← csrImm).setWidth 32)
  setCsrImm (← value)

/-- The set and clear forms write only if the field `rs1` is not zero. -/
def csrModify (value : StepM U64) : StepM Unit := do
  setRd ((← csrImm).setWidth 32)
  if (← get).rs1 ≠ 0 then setCsrImm (← value)

def throwSim (e : SimExceptions) : StepM Unit := throw (.sim e)

/-! ### The bodies -/

/-- `Step`. -/
def step : Iclass → StepM Unit
  | .addi => aluImm fun a imm => (a.setWidth 64 + imm).setWidth 32
  | .slti => aluImm fun a imm => bit (a.slt (imm.setWidth 32))
  | .sltiu => aluImm fun a imm => bit (a.ult (imm.setWidth 32))
  | .andi => aluImm fun a imm => a &&& imm.setWidth 32
  | .ori => aluImm fun a imm => a ||| imm.setWidth 32
  | .xori => aluImm fun a imm => a ^^^ imm.setWidth 32
  | .slli => shiftImm fun a n => a <<< n
  | .srli => shiftImm fun a n => a >>> n
  | .srai => shiftImm sra
  | .lui => do setRd (← imm)
  | .auipc => do setRd ((← pc) + (← imm))
  | .add => alu fun a b => a + b
  | .slt => alu fun a b => bit (a.slt b)
  | .sltu => alu fun a b => bit (a.ult b)
  | .and => alu fun a b => a &&& b
  | .or => alu fun a b => a ||| b
  | .xor => alu fun a b => a ^^^ b
  | .sub => alu fun a b => a - b
  | .sll => shiftReg fun a n => a <<< n
  | .srl => shiftReg fun a n => a >>> n
  | .sra => shiftReg sra
  | .jal => do
    setPc ((← pc).setWidth 64 + (← signExtendImm 20)) 4
    setRd ((← pc) + 4)
  | .jalr => do
    setPc (((← rs1).setWidth 64 + (← signExtendImm 12)) &&& 0xfffffffe) 4
    setRd ((← pc) + 4)
  | .beq => branch fun a b => a = b
  | .bne => branch fun a b => a ≠ b
  | .blt => branch fun a b => a.slt b
  | .bltu => branch fun a b => a.ult b
  | .bge => branch fun a b => !a.slt b
  | .bgeu => branch fun a b => !a.ult b
  | .lb => load 1 (signExtend · 8)
  | .lh => load 2 (signExtend · 16)
  | .lw => load 4 id
  | .lbu => load 1 id
  | .lhu => load 2 id
  | .sb => store 1
  | .sh => store 2
  | .sw => store 4
  | .fence | .fenceI | .sfence => return ()
  | .csrrw => do
    let tmp ← rs1
    csrWrite (pure (tmp.setWidth 64))
  | .csrrs => do
    let tmp ← rs1
    csrModify do return (← csrImm) ||| tmp.setWidth 64
  | .csrrc => do
    let tmp ← rs1
    csrModify do return (← csrImm) &&& (~~~tmp).setWidth 64
  | .csrrwi => csrWrite do return (← get).rs1.setWidth 64
  | .csrrsi => csrModify do return (← csrImm) + (← get).rs1.setWidth 64
  | .csrrci => csrModify do return (← csrImm) - (← get).rs1.setWidth 64
  | .ecall => do if ← userMode then throwSim .envCallUmode else throwSim .envCallMmode
  | .ebreak => return ()
  | .uret | .sret | .hret => throwSim .illegalInstructionUnimplInstr
  | .mret => do
    if ← machineMode then throwSim .processMret else throwSim .illegalInstructionPrivilegedInstr
  | .wfi => do
    if ← userMode then throwSim .illegalInstructionPrivilegedInstr
    else if ← wfiEnabled then throwSim .processWfi
    else throwSim .illegalInstructionUnimplInstr
  | .mul => alu fun a b => a * b
  | .mulhu => alu fun a b => ((a.setWidth 64 * b.setWidth 64 : U64) >>> 32).setWidth 32
  | .mulh => alu fun a b =>
    ((signExtend (a.setWidth 64) 32 * signExtend (b.setWidth 64) 32).sshiftRight 32).setWidth 32
  | .mulhsu => alu fun a b =>
    ((signExtend (a.setWidth 64) 32 * b.setWidth 64) >>> 32).setWidth 32
  | .div => alu fun a b =>
    if b = 0 then 0xffffffff
    else if a = 0x80000000 ∧ b = 0xffffffff then 0x80000000
    else a.sdiv b
  | .divu => alu fun a b => if b = 0 then 0xffffffff else a / b
  | .rem => alu fun a b =>
    if b = 0 then a
    else if a = 0x80000000 ∧ b = 0xffffffff then 0
    else a - a.sdiv b * b
  | .remu => do
    let a ← rs1
    let b ← rs2
    if b = 0 then throw .undefined
    let rdq : U64 := a.setWidth 64 / b.setWidth 64
    setRd ((rdq * b.setWidth 64 - b.setWidth 64).setWidth 32)
  | .cLw => do setRd ((← memoryRead (((← rs1) + (← imm) * 4).setWidth 64) 4).setWidth 32)
  | .cSw => do memoryWrite (((← rs1) + (← imm) * 4).setWidth 64) 4 ((← rs2).setWidth 64)
  | .cJ => do setPc ((← pc).setWidth 64 + (← signExtendImm 11)) 2
  | .cJal => do
    setPc ((← pc).setWidth 64 + (← signExtendImm 11)) 2
    setRd ((← pc) + 2)
  | .cBeqz => do
    let offset ← if (← rs1) = 0 then signExtendImm 8 else pure 2
    setPc ((← pc).setWidth 64 + offset) 2
  | .cLi => do
    if (← get).rd = 0 then throwSim .illegalInstructionUnimplInstr
    setRd ((← signExtendImm 6).setWidth 32)
  | .cLui => do
    if (← get).rd = 0 ∨ (← get).rd = 2 then throwSim .illegalInstructionUnimplInstr
    setRd ((signExtend (((← imm) <<< 12).setWidth 64) 17).setWidth 32)
  | .cAddi => do
    if (← imm) = 0 then throwSim .illegalInstructionUnimplInstr
    setRd (((← rs1).setWidth 64 + (← signExtendImm 6)).setWidth 32)
  -- the sum is shifted, not the immediate
  | .cAddi16sp => do
    if (← imm) = 0 then throwSim .illegalInstructionUnimplInstr
    setSp (((← x 2).setWidth 64 + (← signExtendImm 6)) <<< 4)
  | .cAddi4spn => do
    if (← imm) = 0 then throwSim .illegalInstructionUnimplInstr
    setRd (((← x 2) + (← imm)) <<< 4)
  | .cAndi => do setRd ((← rd) &&& (← signExtendImm 6).setWidth 32)
  | .cAnd => do setRd ((← rd) &&& (← rs2))
  | .cOr => do setRd ((← rd) ||| (← rs2))
  | .cXor => do setRd ((← rd) ^^^ (← rs2))
  | .cSub => do setRd ((← rd) - (← rs2))
  | .cNop => return ()
  | .unknownInstruction => throwSim .illegalInstructionUnknownInstr

/-- `Exception`. -/
def exception (e : SimExceptions) : StepM Unit := do
  let i ← get
  let s ← Effect.lift (i.state.processException e i.encoding)
  set { i with state := s }

/-- The try block of `Execute`. -/
def stepAndAdvance : StepM Unit := do
  step (← get).iclass
  advancePc

/-- `Execute`: a `SIM_EXCEPTIONS` of the body becomes a trap, anything else passes. -/
def execute : StepM Unit := do
  modify RiscvInstruction.decode
  tryCatch stepAndAdvance fun
    | .sim e => exception e
    | f => throw f

end Step

/-! ### Writeback -/

/-- The loop of `Writeback` over the queued accesses. -/
def writebackOps : List MemoryAccess → EStateM Fault Memory Unit
  | [] => return ()
  | mop :: ops => do
    if mop.isWrite then
      let _ ← Memory.writeMemory mop.address true mop.size mop.aligned mop.membuffer false
    writebackOps ops

/-- `Writeback`: commit the working state to the core, then the queued stores to memory. -/
def writeback (i : RiscvInstruction) : EStateM Fault (RiscvState × Memory) Unit := do
  modify fun (core, memory) => (core.update i.state, memory)
  Effect.focus Prod.snd (fun m s => (s.1, m)) (writebackOps i.mOpsMemory)

end Dimebox
