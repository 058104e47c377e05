import Dimebox.CoreState

/-! CSR numbers: `ValidateCSRAccess`, `CSR` and `SetCSR`.

    Bits 9..8 of a CSR number name the lowest privilege level that may access it and bits 11..10
    set to 11 make it read-only. The simulator's instructions always pass privilege level 3, so for
    them only the read-only check bites. -/

namespace Dimebox.RiscvState

/-- `csr_group`. -/
def csrGroup (csr : U32) : Nat := ((csr >>> 8) &&& 0xf).toNat

/-- The access switch of `ValidateCSRAccess`. -/
def csrAccessOkay (csr privilegeLevel : U32) (forWrite : Bool) : Bool :=
  let machineLevelAccess := privilegeLevel = 3
  let hypervisorLevelAccess := 2 ≤ privilegeLevel
  let supervisorLevelAccess := 1 ≤ privilegeLevel
  match csrGroup csr with
  | 0 | 4 | 8 => true
  | 0xc => !forWrite
  | 1 | 5 | 9 => supervisorLevelAccess
  | 0xd => supervisorLevelAccess && !forWrite
  | 2 | 6 | 0xa => hypervisorLevelAccess
  | 0xe => hypervisorLevelAccess && !forWrite
  | 3 | 7 | 0xb => machineLevelAccess
  | 0xf => machineLevelAccess && !forWrite
  | _ => false

/-- `ValidateCSRAccess`. -/
def validateCsrAccess (csr privilegeLevel : U32) (forWrite : Bool) : Except Fault Unit :=
  if 0xfff < csr then
    .error (.runtimeError
      ("Invalid CSR address: 0x".toList ++ Text.hexPadded 3 csr.toNat ++ "?".toList))
  else if csrAccessOkay csr privilegeLevel forWrite then .ok ()
  else .error (.sim .illegalInstructionPrivilegedCsr)

/-- The CSR numbers that `CSR` and `SetCSR` map to a stored register. -/
def csrReg (csr : U32) : Option Creg :=
  match csr.toNat with
  | 0x000 => some .ustatus
  | 0x001 => some .fflags
  | 0x002 => some .frm
  | 0x003 => some .fcsr
  | 0x180 => some .satp
  | 0x300 => some .mstatus
  | 0x301 => some .misa
  | 0x302 => some .medeleg
  | 0x303 => some .mideleg
  | 0x304 => some .mie
  | 0x305 => some .mtvec
  | 0x306 => some .mcounteren
  | 0x310 => some .mstatush
  | 0x340 => some .mscratch
  | 0x341 => some .mepc
  | 0x342 => some .mcause
  | 0x343 => some .mtval
  | 0x344 => some .mip
  | 0x34a => some .mtinst
  | 0x3a0 => some .pmpcfg0
  | 0x3b0 => some .pmpaddr0
  | 0xb00 => some .mcycle
  | 0xb02 => some .mtinstret
  | 0xb80 => some .mcycleh
  | 0xb82 => some .mtinstreth
  | _ => none

/-- The CSR numbers that `CSR` computes; `MVENDORID`, `MARCHID` and `MIMPID` are zero. -/
def csrCounter (s : RiscvState) (csr : U32) : Option U64 :=
  match csr.toNat with
  | 0xc00 => some (s.clock &&& 0xffffffff)
  | 0xc01 => some (s.timer &&& 0xffffffff)
  | 0xc02 => some (s.instrCount &&& 0xffffffff)
  | 0xc80 => some (s.clock >>> 32)
  | 0xc81 => some (s.timer >>> 32)
  | 0xc82 => some (s.instrCount &&& 0xffffffff)
  | 0xf11 => some 0
  | 0xf12 => some 0
  | 0xf13 => some 0
  | 0xf14 => some (s.id.setWidth 64)
  | _ => none

/-- `CSR`. -/
def csr (s : RiscvState) (csr privilegeLevel : U32) : Except Fault U64 := do
  validateCsrAccess csr privilegeLevel false
  match csrReg csr, s.csrCounter csr with
  | some r, _ => .ok (s.read r)
  | none, some v => .ok v
  | none, none => .error (.sim .illegalInstructionUnknownCsr)

/-- `SetCSR`. -/
def setCsr (s : RiscvState) (csr privilegeLevel : U32) (rval : U64) : Except Fault RiscvState := do
  validateCsrAccess csr privilegeLevel true
  match csrReg csr with
  | some r => .ok (s.write r rval)
  | none => .error (.sim .illegalInstructionUnknownCsr)

end Dimebox.RiscvState
