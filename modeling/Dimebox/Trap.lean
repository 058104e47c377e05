import Dimebox.Csr

/-! Traps, interrupts, MRET and WFI (`ProcessException` and what it calls). -/

namespace Dimebox.RiscvState

/-- `PushPrivilegeLevel`. Its comment announces bits 12, 11, 7 and 3; the mask `0xc88` is bits 11,
    10, 7 and 3. -/
def pushPrivilegeLevel (s : RiscvState) : RiscvState :=
  let mstatus : U32 := s.mstatus.setWidth 32
  let mie := (mstatus >>> 3) &&& 1
  let mstatus := mstatus &&& ~~~0xc88
  let s := s.setMstatus
    ((mstatus ||| (s.currentPrivilegeLevel <<< 11) ||| (mie <<< 7)).setWidth 64)
  s.setPrivilegeLevel machineMode

/-- `PopPrivilegeLevel`. -/
def popPrivilegeLevel (s : RiscvState) : RiscvState :=
  let mstatus : U32 := s.mstatus.setWidth 32
  let mpie := (mstatus >>> 7) &&& 1
  let mpp := (mstatus >>> 11) &&& 3
  let mstatus := mstatus &&& ~~~0x1888
  let s := s.setPrivilegeLevel mpp
  s.setMstatus ((mstatus ||| (mpie <<< 3) ||| (1#32 <<< 7)).setWidth 64)

/-- `InterruptPending`: the interrupt to service, external before timer. -/
def interruptPending (s : RiscvState) : Option SimExceptions :=
  if !s.globalInterruptsEnabled || s.mip = 0 || s.mie = 0 then none
  else if (s.mip >>> 11) &&& 1 = 1 ∧ (s.mie >>> 11) &&& 1 = 1 then some .machineExternalInt
  else if (s.mip >>> 7) &&& 1 = 1 ∧ (s.mie >>> 7) &&& 1 = 1 then some .machineTimerInt
  else none

/-- `Ready`. -/
def ready (s : RiscvState) : Bool :=
  !s.endTest && (!s.lowPowerMode || s.interruptPending.isSome)

/-- `Signal`. -/
def signal (s : RiscvState) : SimExceptions → RiscvState
  | .machineTimerInt => s.setMip (s.mip ||| (1#64 <<< 7))
  | .machineExternalInt => s.setMip (s.mip ||| (1#64 <<< 11))
  | _ => s

/-- `DecodeException`. -/
def decodeException (e : SimExceptions) (pc : U64) (opcode : U32) : List Char :=
  let pcText := Text.hexPadded 8 pc.toNat
  let at_ := fun (what : String) => what.toList ++ " PC: 0x".toList ++ pcText
  let enc := fun (name : String) => name.toList ++ Text.hexPadded 8 opcode.toNat ++ ['\n']
  let encoded := enc ", encoded instruction: 0x"
  match e with
  | .machineSwi => at_ "SWI issued in Machine Mode." ++ encoded
  | .machineTimerInt =>
    "Timer interrupt, Machine Mode. On or around PC: 0x".toList ++ pcText ++ ['\n']
  | .machineExternalIntUart =>
    "Interrupt from Uart, Machine Mode. On or around PC: 0x".toList ++ pcText ++ ".\n".toList
  | .processWfi =>
    at_ "WFI issued in Machine Mode." ++ enc ", encoded (assumed WFI) instruction: 0x"
  | .processMret => at_ "MRET issued." ++ encoded
  | .envCallUmode => at_ "ECALL issued from User Mode." ++ encoded
  | .envCallMmode => at_ "ECALL issued from Machine Mode." ++ encoded
  | .illegalInstructionUnknownInstr => at_ "Unknown instruction." ++ encoded
  | .illegalInstructionUnimplInstr => at_ "Unimplemented instruction." ++ encoded
  | .illegalInstructionPrivilegedInstr =>
    at_ "Attempt to execute privileged instruction." ++ encoded
  | .illegalInstructionUnknownCsr => at_ "Access to unknown CSR." ++ encoded
  | .illegalInstructionPrivilegedCsr => at_ "Privileged csr access." ++ encoded
  | e => "Unknown or unsupported exception type: 0x".toList ++ Text.hexPadded 3 e.code.toNat

/-- The interrupt case of `ProcessException`: clear the pending bit, leave low power mode, enter
    the vector `MTVEC + 4 * cause`. -/
def takeInterrupt (s : RiscvState) (e : SimExceptions) (causeBit : Nat) : RiscvState :=
  let s := s.setMip (s.mip &&& ~~~(1#64 <<< causeBit))
  let s := s.clearLowPowerMode
  let s := s.pushPrivilegeLevel
  let s := s.setMcause (((e.code &&& 0xf) ||| 0x80000000).setWidth 64)
  let s := s.setMtval 0
  let s := s.setMepc s.pc
  s.setPc (s.mtvec + ((s.mcause &&& 0xfffffff) * 4))

/-- `ProcessException`. -/
def processException (s : RiscvState) (e : SimExceptions) (opcode : U32) :
    Except Fault RiscvState :=
  match e with
  | .machineTimerInt => .ok (s.takeInterrupt e 7)
  | .machineExternalInt => .ok (s.takeInterrupt e 11)
  | .processWfi =>
    let s := s.setMcause ((e.code &&& 0xf).setWidth 64)
    let s := s.setMtval 0
    let s := s.setMepc (s.pc + 4)
    .ok s.setLowPowerMode
  | .processMret =>
    let s := s.popPrivilegeLevel
    .ok (s.setPc (if s.compressedExtensionEnabled then s.mepc else s.mepc &&& ~~~0x3))
  | .envCallUmode | .envCallMmode =>
    let s := s.pushPrivilegeLevel
    let s := s.setMcause ((e.code &&& 0xf).setWidth 64)
    let s := s.setMtval 0
    let s := s.setMepc s.pc
    .ok (s.setPc s.mtvec)
  | .instructionAddressMisaligned =>
    let s := s.setMcause ((e.code &&& 0xf).setWidth 64)
    -- MTVAL was set when the bad address was detected
    let s := s.pushPrivilegeLevel
    let s := s.setMepc s.pc
    .ok (s.setPc s.mtvec)
  | .illegalInstructionUnknownInstr | .illegalInstructionUnimplInstr
  | .illegalInstructionPrivilegedInstr | .illegalInstructionUnknownCsr
  | .illegalInstructionPrivilegedCsr =>
    let s := s.setMcause ((e.code &&& 0xf).setWidth 64)
    let s := s.setMtval 0
    let s := s.pushPrivilegeLevel
    let s := s.setMepc s.pc
    .ok (s.setPc s.mtvec)
  | e => .error (.runtimeError (decodeException e s.pc opcode))

/-- `ProcessInterrupt`. -/
def processInterrupt (s : RiscvState) (e : SimExceptions) : Except Fault RiscvState :=
  s.processException e 0

end Dimebox.RiscvState
