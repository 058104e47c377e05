import Dimebox.PhysicalMemory
import Dimebox.Devices

/-! Memory as the cores see it (`Memory`).

    An access validates its address, is offered to the mapped devices and otherwise goes to the
    block store. Translation is the identity and `PageCrossed` is constantly false, so a logical
    block access is one physical access; `InvalidRegionAccess` never objects, and the sets of
    touched blocks it would look at are not part of the model. A read gets the caller's buffer and
    returns it changed: a refused device access leaves it as it was. -/

namespace Dimebox

/-- `Memory`, with the device objects its `devices` point to. -/
structure Memory where
  sizeInBits : Nat := 32
  physicalAddressLo : U64 := 0
  physicalAddressHi : U64 := 0xffffffff
  /-- true on a big-endian host -/
  hostEndianness : Bool := false
  physMem : PhysicalMemory
  devices : List DevicePtr := []
  deviceObjects : Devices := {}

namespace Memory

def paMask (m : Memory) : U64 := (1#64 <<< m.sizeInBits) - 1#64

/-- `PhysicalAddressRange`: the configured range, if there is one. -/
def physicalAddressRange (m : Memory) : Option (U64 × U64) :=
  if m.physicalAddressHi ≠ m.physicalAddressLo then some (m.physicalAddressLo, m.physicalAddressHi)
  else none

/-- `ValidatePhysicalMemoryAddress`: the address with its upper bits stripped. -/
def validatePhysicalMemoryAddress (m : Memory) (address : U64) (forTest : Bool) :
    Except Fault U64 :=
  if address &&& m.paMask ≠ address ∧ forTest then .error (.sim .generationError)
  else
    let address := address &&& m.paMask
    match m.physicalAddressRange with
    | none => .ok address
    | some (lo, hi) =>
      if lo ≤ address ∧ address ≤ hi then .ok address else .error (.sim .generationError)

/-- The first device that is implemented and has the address in its range. -/
def deviceAt (m : Memory) (address : U64) : Option DevicePtr :=
  m.devices.find? fun p =>
    (m.deviceObjects.base p).isImplemented && (m.deviceObjects.base p).inRange address

/-- Write `bytes` over the front of a buffer. -/
def overlay (bytes buffer : List Byte) : List Byte := bytes ++ buffer.drop bytes.length

/-- `WriteDeviceMemory` on the device that answers to the address: the return code. The byte order
    of a device is that of the host. -/
def writeDeviceMemory (p : DevicePtr) (address : U64) (numberOfBytes : Int) (buffer : List Byte)
    (forTest : Bool) : EStateM Fault Memory Int := do
  let m ← get
  if forTest then return -1
  else if Devices.isMapped address p then
    let r := m.deviceObjects.write p m.hostEndianness address buffer numberOfBytes
    set { m with deviceObjects := r.2 }
    return r.1
  else return -1

/-- `ReadDeviceMemory` on the device that answers to the address: return code and buffer. -/
def readDeviceMemory (p : DevicePtr) (address : U64) (numberOfBytes : Int) (buffer : List Byte)
    (forTest : Bool) : EStateM Fault Memory (Int × List Byte) := do
  let m ← get
  if forTest then return (-1, buffer)
  else if Devices.isMapped address p then
    let r := m.deviceObjects.read p m.hostEndianness address numberOfBytes
    set { m with deviceObjects := r.2.2 }
    return (r.1, r.2.1.elim buffer (overlay · buffer))
  else return (-1, buffer)

/-- A call of a member function of `phys_mem`. -/
def onPhysMem (x : EStateM Fault PhysicalMemory α) : EStateM Fault Memory α :=
  Effect.focus Memory.physMem (fun p m => { m with physMem := p }) x

/-- The address checks at the start of a physical access; the validated end address is dropped. -/
def checkAddresses (m : Memory) (addressIn : U64) (numberOfBytes : Int) (forTest : Bool) :
    Except Fault U64 := do
  let address ← m.validatePhysicalMemoryAddress addressIn forTest
  let _ ← m.validatePhysicalMemoryAddress (address + BitVec.ofInt 64 numberOfBytes - 1) forTest
  return address

/-- `WritePhysicalMemory`. -/
def writePhysicalMemory (addressIn : U64) (numberOfBytes : Int) (buffer : List Byte)
    (forTest initialValues : Bool) : EStateM Fault Memory Int := do
  let m ← get
  let address ← Effect.lift (m.checkAddresses addressIn numberOfBytes forTest)
  match m.deviceAt address with
  | some p => writeDeviceMemory p address numberOfBytes buffer forTest
  | none => onPhysMem (PhysicalMemory.write address buffer numberOfBytes initialValues)

/-- `ReadPhysicalMemory`: return code and buffer. -/
def readPhysicalMemory (addressIn : U64) (numberOfBytes : Int) (buffer : List Byte)
    (forTest initIfFree : Bool) : EStateM Fault Memory (Int × List Byte) := do
  let m ← get
  let address ← Effect.lift (m.checkAddresses addressIn numberOfBytes forTest)
  match m.deviceAt address with
  | some p => readDeviceMemory p address numberOfBytes buffer forTest
  | none => do
    let r ← onPhysMem (PhysicalMemory.read address initIfFree numberOfBytes)
    return (r.1, overlay r.2 buffer)

/-- `ReadMemoryBlock`: an exception of the physical access is caught and thrown again. -/
def readMemoryBlock (la : U64) (numberOfBytes : Int) (buffer : List Byte)
    (forTest initIfFree : Bool) : EStateM Fault Memory (Int × List Byte) :=
  readPhysicalMemory la numberOfBytes buffer forTest initIfFree

/-- `WriteMemoryBlock`. -/
def writeMemoryBlock (la : U64) (numberOfBytes : Int) (buffer : List Byte) (forTest : Bool) :
    EStateM Fault Memory Int :=
  writePhysicalMemory la numberOfBytes buffer forTest false

/-- The block loop of `ReadMemory` with `blocks` blocks to go; `rcode` is the code so far. -/
def readBlocks (la : U64) (forTest initIfFree : Bool) :
    Nat → Nat → Int → List Byte → EStateM Fault Memory (Int × Nat × List Byte)
  | 0, blockOffset, rcode, buffer => return (rcode, blockOffset, buffer)
  | blocks + 1, blockOffset, rcode, buffer =>
    if rcode ≠ 0 then return (rcode, blockOffset, buffer)
    else do
      let r ← readMemoryBlock (la + BitVec.ofNat 64 blockOffset) 32 (buffer.drop blockOffset)
        forTest initIfFree
      readBlocks la forTest initIfFree blocks (blockOffset + 32) r.1
        (buffer.take blockOffset ++ r.2)

/-- `ReadMemory`. -/
def readMemory (la : U64) (isData : Bool) (numberOfBytes : Int) (isAligned : Bool)
    (buffer : List Byte) (forTest initIfFree : Bool) : EStateM Fault Memory (Int × List Byte) := do
  if !isData && !isAligned then throw (.sim .internalError)
  if numberOfBytes ≤ 32 then readMemoryBlock la numberOfBytes buffer forTest initIfFree
  else do
    let numBlocks := (numberOfBytes / 32).toNat
    let extraBytes := numberOfBytes % 32
    let (rcode, blockOffset, buffer) ← readBlocks la forTest initIfFree numBlocks 0 0 buffer
    if 0 < extraBytes ∧ rcode = 0 then do
      let r ← readMemoryBlock (la + BitVec.ofNat 64 blockOffset) extraBytes
        (buffer.drop blockOffset) forTest initIfFree
      return (r.1, buffer.take blockOffset ++ r.2)
    else return (rcode, buffer)

/-- The block loop of `WriteMemory`. -/
def writeBlocks (la : U64) (buffer : List Byte) (forTest : Bool) :
    Nat → Nat → Int → EStateM Fault Memory (Int × Nat)
  | 0, blockOffset, rcode => return (rcode, blockOffset)
  | blocks + 1, blockOffset, rcode =>
    if rcode ≠ 0 then return (rcode, blockOffset)
    else do
      let r ← writeMemoryBlock (la + BitVec.ofNat 64 blockOffset) 32 (buffer.drop blockOffset)
        forTest
      writeBlocks la buffer forTest blocks (blockOffset + 32) r

/-- `WriteMemory`. -/
def writeMemory (la : U64) (isData : Bool) (numberOfBytes : Int) (isAligned : Bool)
    (buffer : List Byte) (forTest : Bool) : EStateM Fault Memory Int := do
  if !isData && !isAligned then throw (.sim .internalError)
  if numberOfBytes ≤ 32 then writeMemoryBlock la numberOfBytes buffer forTest
  else do
    let numBlocks := (numberOfBytes / 32).toNat
    let extraBytes := numberOfBytes % 32
    let (rcode, blockOffset) ← writeBlocks la buffer forTest numBlocks 0 0
    if 0 < extraBytes ∧ rcode = 0 then
      writeMemoryBlock (la + BitVec.ofNat 64 blockOffset) extraBytes (buffer.drop blockOffset)
        forTest
    else return rcode

/-- `ApplyEndianness` in place, as the instruction fetch calls it. -/
def applyEndianness (m : Memory) (buffer : List Byte) (endianness : Bool)
    (accessSize total : Nat) : List Byte :=
  (List.range (total / accessSize)).foldl (fun buf i =>
    (List.range accessSize).foldl (fun buf j =>
      let src := if m.hostEndianness = endianness then j else accessSize - 1 - j
      buf.set (i * accessSize + j) (buf.getD (i * accessSize + src) 0)) buf) buffer

end Memory

end Dimebox
