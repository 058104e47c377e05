import Dimebox.Lib.Text

/-! Exceptions of the simulator.

    `SIM_EXCEPTIONS` carries RISC-V traps and interrupts, the two pseudo traps `PROCESS_WFI` and
    `PROCESS_MRET`, and the simulator's own errors. Besides them the code throws `MBLOCK_ERROR`,
    `std::runtime_error` and (out of `std::string::substr`) `std::out_of_range`; `Fault` is their
    sum, with one more case for an evaluation that C++ leaves undefined. -/

namespace Dimebox

abbrev Byte := BitVec 8
abbrev U32 := BitVec 32
abbrev U64 := BitVec 64

/-- `SIM_EXCEPTIONS`; `NO_SIM_EXCEPTION` shares the value of `INSTRUCTION_ADDRESS_MISALIGNED`. -/
inductive SimExceptions where
  | supervisorSwi | machineSwi | supervisorTimerInt | machineTimerInt
  | supervisorExternalInt | machineExternalInt | machineExternalIntUart
  | instructionAddressMisaligned | instructionAccessFault | illegalInstruction
  | illegalInstructionUnknownCsr | illegalInstructionPrivilegedCsr
  | illegalInstructionUnknownInstr | illegalInstructionUnimplInstr
  | illegalInstructionPrivilegedInstr | breakpoint | loadAddressMisaligned | loadAccessFault
  | storeAddressMisaligned | storeAccessFault | envCallUmode | envCallSmode | envCallMmode
  | instructionPageFault | loadPageFault | storePageFault
  | processWfi | processMret | internalError | generationError | testPasses | testFails
  deriving DecidableEq

/-- The enumerator's value: bits 3..0 are the cause, bits 7..4 mark an interrupt. -/
def SimExceptions.code : SimExceptions → U32
  | .supervisorSwi => 0x11
  | .machineSwi => 0x13
  | .supervisorTimerInt => 0x15
  | .machineTimerInt => 0x17
  | .supervisorExternalInt => 0x19
  | .machineExternalInt => 0x1b
  | .machineExternalIntUart => 0x11b
  | .instructionAddressMisaligned => 0
  | .instructionAccessFault => 1
  | .illegalInstruction => 2
  | .illegalInstructionUnknownCsr => 0x102
  | .illegalInstructionPrivilegedCsr => 0x202
  | .illegalInstructionUnknownInstr => 0x302
  | .illegalInstructionUnimplInstr => 0x402
  | .illegalInstructionPrivilegedInstr => 0x502
  | .breakpoint => 3
  | .loadAddressMisaligned => 4
  | .loadAccessFault => 5
  | .storeAddressMisaligned => 6
  | .storeAccessFault => 7
  | .envCallUmode => 8
  | .envCallSmode => 9
  | .envCallMmode => 11
  | .instructionPageFault => 12
  | .loadPageFault => 13
  | .storePageFault => 15
  | .processWfi => 0x600
  | .processMret => 0x700
  | .internalError => 0xf00
  | .generationError => 0xf01
  | .testPasses => 0xf02
  | .testFails => 0xf03

/-- `MBLOCK_ERROR`. -/
inductive MblockError where | splitAccess | memError
  deriving DecidableEq

/-- What a call can end with instead of returning. -/
inductive Fault where
  | sim (e : SimExceptions)
  | mblock (e : MblockError)
  | runtimeError (what : List Char)
  | outOfRange
  | undefined
  deriving DecidableEq

end Dimebox
