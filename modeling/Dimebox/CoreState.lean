import Mathlib.Algebra.GroupWithZero.Nat
import Mathlib.Data.List.FinRange
import Dimebox.Exceptions
import Dimebox.Lib.Effect

/-! Register state of one core (`State`, `RiscvState`).

    The registers are 64-bit fields although the machine is RV32. Most CSRs store what is written;
    `MISA`, `MSTATUS` and `MSTATUSH` filter it (WARL), and `MISA` also looks at the PC of the object
    it is stored in. A core is copied and committed by `update`, register by register and through
    the same filtering setters. The CSRs are one map from register names to stored values, so that
    the 25 getter/setter pairs of the source are one getter and one setter. The logs of register
    accesses (`reg_updates`) are not part of the state. -/

namespace Dimebox

/-- Register numbers can be written as literals. -/
instance neZeroRegisters : NeZero 32 := ⟨by decide⟩

/-- The control registers a core stores. -/
inductive Creg where
  | ustatus | fflags | frm | fcsr | satp | mstatus | misa | medeleg | mideleg | mie | mtvec
  | mcounteren | mstatush | mscratch | mepc | mcause | mtval | mip | mtinst | pmpcfg0 | pmpaddr0
  | mcycle | mtinstret | mcycleh | mtinstreth
  deriving DecidableEq

/-- `RiscvState` with its base class `State`. -/
structure RiscvState where
  id : U32 := 0
  asid : U32 := 0
  isSecure : Bool := false
  clock : U64 := 0
  endTest : Bool := false
  pc : U64 := 0
  instrCount : U64 := 0
  timer : U64 := 0
  /-- bit 4: low power mode, bits 1..0: current privilege level -/
  machineState : U32 := 3
  /-- the general registers `X[32]` -/
  x : Fin 32 → U64 := fun _ => 0
  /-- the stored values of the control registers -/
  reg : Creg → U64 := fun _ => 0

namespace RiscvState

def definedMisaValue : U64 := 0x40101104
def userMode : U32 := 0
def machineMode : U32 := 3

/-! ### General registers and PC -/

/-- `GP`: x0 reads as zero; an index past the register file is an out-of-bounds access. -/
def gp (s : RiscvState) (rindex : U32) : Except Fault U64 :=
  if rindex = 0 then .ok 0
  else if h : rindex.toNat < 32 then .ok (s.x ⟨rindex.toNat, h⟩)
  else .error .undefined

/-- `SetGP`: writes to x0 are dropped. -/
def setGp (s : RiscvState) (rindex : U32) (rval : U64) : Except Fault RiscvState :=
  if rindex = 0 then .ok s
  else if h : rindex.toNat < 32 then
    .ok { s with x := Function.update s.x ⟨rindex.toNat, h⟩ rval }
  else .error .undefined

def sp (s : RiscvState) : U64 := s.x 2
def setSp (s : RiscvState) (rval : U64) : RiscvState := { s with x := Function.update s.x 2 rval }
def fp (s : RiscvState) : U64 := s.x 8
def setPc (s : RiscvState) (rval : U64) : RiscvState := { s with pc := rval }
def setEndTest (s : RiscvState) (b : Bool) : RiscvState := { s with endTest := b }

/-- `PrivilegeLevel` (not `CurrentPrivilegeLevel`): fudged to machine level. -/
def privilegeLevel (_ : RiscvState) : U32 := 3

/-! ### Control registers -/

/-- What a getter shows of a stored value: MSTATUS hides its WPRI bits 30..23, MSTATUSH all but MBE
    and SBE. -/
def shown : Creg → U64 → U64
  | .mstatus, v => v &&& 0x807fffff
  | .mstatush, v => v &&& 0x30
  | _, v => v

/-- `SetMISA`: unsupported bits are dropped, and the C bit stays set at a PC that is not a multiple
    of four. -/
def legalMisa (pc old rval : U64) : U64 :=
  let rval := rval &&& definedMisaValue
  if old &&& 4 = 4 ∧ pc &&& 3 ≠ 0 then rval ||| 4 else rval

/-- `SetMSTATUS`: `~0x805de162` is an `unsigned int`, so the upper word is dropped too; an MPP of
    01 or 10 is replaced by the MPP the register shows. -/
def legalMstatus (old rval : U64) : U64 :=
  let rval := rval &&& 0x7fa21e9d
  if rval &&& 0x1800 = 0x800 ∨ rval &&& 0x1800 = 0x1000 then
    (rval &&& ~~~0x1800) ||| (shown .mstatus old &&& 0x1800)
  else rval

/-- `SetMSTATUSH`: MBE and SBE are kept clear, and they are all that `MSTATUSH` shows. -/
def legalMstatush (rval : U64) : U64 := rval &&& ~~~0x30

/-- What a setter stores, given the PC and the stored value of its object. -/
def legal (pc old : U64) : Creg → U64 → U64
  | .misa, v => legalMisa pc old v
  | .mstatus, v => legalMstatus old v
  | .mstatush, v => legalMstatush v
  | _, v => v

/-- The getters. -/
def read (s : RiscvState) (r : Creg) : U64 := shown r (s.reg r)

/-- The setters. -/
def write (s : RiscvState) (r : Creg) (rval : U64) : RiscvState :=
  { s with reg := Function.update s.reg r (legal s.pc (s.reg r) r rval) }

def misa (s : RiscvState) : U64 := s.read .misa
def mstatus (s : RiscvState) : U64 := s.read .mstatus
def mstatush (s : RiscvState) : U64 := s.read .mstatush
def mtvec (s : RiscvState) : U64 := s.read .mtvec
def mepc (s : RiscvState) : U64 := s.read .mepc
def mcause (s : RiscvState) : U64 := s.read .mcause
def mip (s : RiscvState) : U64 := s.read .mip
def mie (s : RiscvState) : U64 := s.read .mie

def setMisa (s : RiscvState) (rval : U64) : RiscvState := s.write .misa rval
def setMstatus (s : RiscvState) (rval : U64) : RiscvState := s.write .mstatus rval
def setMepc (s : RiscvState) (rval : U64) : RiscvState := s.write .mepc rval
def setMcause (s : RiscvState) (rval : U64) : RiscvState := s.write .mcause rval
def setMtval (s : RiscvState) (rval : U64) : RiscvState := s.write .mtval rval
def setMip (s : RiscvState) (rval : U64) : RiscvState := s.write .mip rval
def recordMisalignedAddress (s : RiscvState) (branchPc : U64) : RiscvState := s.setMtval branchPc

def compressedExtensionEnabled (s : RiscvState) : Bool := s.misa &&& 4 = 4

/-! ### Machine state -/

def globalInterruptsEnabled (s : RiscvState) : Bool := s.mstatus &&& 0x8 ≠ 0
def currentPrivilegeLevel (s : RiscvState) : U32 := s.machineState &&& 3
def setPrivilegeLevel (s : RiscvState) (level : U32) : RiscvState :=
  { s with machineState := (s.machineState &&& ~~~3) ||| level }
def lowPowerMode (s : RiscvState) : Bool := s.machineState &&& 0x10 = 0x10
def clearLowPowerMode (s : RiscvState) : RiscvState :=
  { s with machineState := s.machineState &&& ~~~0x10 }
def setLowPowerMode (s : RiscvState) : RiscvState :=
  { s with machineState := s.machineState ||| 0x10 }

/-- `WFIEnabled`: MSTATUS.TW enables WFI below machine mode. -/
def wfiEnabled (s : RiscvState) : Bool :=
  s.currentPrivilegeLevel = 3 || s.mstatus &&& 0x200000 = 0x200000

/-- `Halted`. -/
def halted (s : RiscvState) : Bool := s.endTest

/-! ### Construction, copy and commit -/

/-- The constructor from a configuration, over whatever the storage held: only the general
    registers, the PC, the mode and MISA are initialised. -/
def reset (storage : RiscvState) (resetAddress : U64) : RiscvState :=
  { storage with
    id := 0, asid := 0, isSecure := false, clock := 0, endTest := false, instrCount := 0, timer := 0
    x := fun _ => 0, pc := resetAddress, machineState := machineMode }.setMisa definedMisaValue

/-- `State::Update`. -/
def stateUpdate (s rhs : RiscvState) : RiscvState :=
  { s with
    id := rhs.id, asid := rhs.asid, isSecure := rhs.isSecure, clock := rhs.clock
    endTest := rhs.endTest, pc := rhs.pc, instrCount := rhs.instrCount, timer := rhs.timer }

/-- The control registers in the order `RiscvState::Update` copies them. -/
def updateOrder : List Creg :=
  [.ustatus, .fflags, .frm, .fcsr, .satp, .mstatus, .medeleg, .mideleg, .mie, .misa, .mtvec,
   .mcounteren, .mstatush, .mscratch, .mepc, .mcause, .mtval, .mip, .mtinst, .pmpcfg0, .pmpaddr0,
   .mcycle, .mtinstret, .mcycleh, .mtinstreth]

/-- One line of `RiscvState::Update`: copy a register through its setter if it reads differently. -/
def updateReg (rhs s : RiscvState) (r : Creg) : RiscvState :=
  if s.read r ≠ rhs.read r then s.write r (rhs.read r) else s

/-- One turn of the loop of `RiscvState::Update` over the general registers. -/
def updateX (rhs s : RiscvState) (i : Fin 32) : RiscvState :=
  if s.x i ≠ rhs.x i then { s with x := Function.update s.x i (rhs.x i) } else s

/-- `RiscvState::Update`. -/
def update (s rhs : RiscvState) : RiscvState :=
  let s := { s.stateUpdate rhs with machineState := rhs.machineState }
  let s := updateOrder.foldl (updateReg rhs) s
  (List.finRange 32).foldl (updateX rhs) s

/-- The copy constructor, over whatever the storage held. -/
def copy (storage rhs : RiscvState) : RiscvState := storage.update rhs

/-- What a commit leaves in a register that held `old`: the source's reading `src` through the
    setter, unless the register already reads the same. -/
def committed (pc old : U64) (r : Creg) (src : U64) : U64 :=
  if shown r old ≠ src then legal pc old r src else old

theorem updateReg_eq (rhs s : RiscvState) (r : Creg) :
    updateReg rhs s r =
      { s with reg := Function.update s.reg r (committed s.pc (s.reg r) r (rhs.read r)) } := by
  unfold updateReg committed read write
  split
  · rfl
  · rw [Function.update_eq_self]

/-- The lines of `RiscvState::Update` for distinct registers are independent. -/
theorem foldl_updateReg (rhs : RiscvState) (l : List Creg) (s : RiscvState) (hnd : l.Nodup) :
    l.foldl (updateReg rhs) s = { s with
      reg := fun r => if r ∈ l then committed s.pc (s.reg r) r (rhs.read r) else s.reg r } := by
  induction l generalizing s with
  | nil => simp
  | cons r l ih =>
    rw [List.nodup_cons] at hnd
    rw [List.foldl_cons, updateReg_eq, ih _ hnd.2]
    congr 1
    funext q
    by_cases hq : q = r
    · subst hq; simp [hnd.1]
    · simp [hq]

theorem foldl_updateX (rhs : RiscvState) (l : List (Fin 32)) (s : RiscvState) :
    l.foldl (updateX rhs) s = { s with x := fun i => if i ∈ l then rhs.x i else s.x i } := by
  induction l generalizing s with
  | nil => simp
  | cons i l ih =>
    have hi : updateX rhs s i = { s with x := Function.update s.x i (rhs.x i) } := by
      unfold updateX
      split
      · rfl
      · next h => simp only [ne_eq, not_not] at h; rw [← h, Function.update_eq_self]
    rw [List.foldl_cons, hi, ih]
    congr 1
    funext j
    by_cases hj : j = i
    · subst hj; simp
    · simp [hj]

theorem mem_updateOrder (r : Creg) : r ∈ updateOrder := by cases r <;> decide

/-- A commit is the source, with the control registers as their setters leave them; the PC the
    setter of MISA looks at has been copied by then. -/
theorem update_eq (s rhs : RiscvState) :
    s.update rhs = { rhs with reg := fun r => committed rhs.pc (s.reg r) r (rhs.read r) } := by
  simp only [update]
  rw [foldl_updateReg rhs _ _ (by decide), foldl_updateX]
  simp only [List.mem_finRange, if_true, mem_updateOrder, stateUpdate]

end RiscvState

end Dimebox
