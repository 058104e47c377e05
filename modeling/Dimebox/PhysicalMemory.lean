import Mathlib.Data.List.AList
import Dimebox.Exceptions
import Dimebox.Lib.Effect

/-! The physical memory store (`MemBlock`, `PhysicalMemory`).

    Memory is a map from 32-byte-aligned addresses to blocks. A block is allocated on its first
    access, read or write: `mptr` gets uninitialised storage and `mptr_init` random bytes, and every
    byte is marked free. A byte is read from `mptr_init` while it is free and from `mptr` once it has
    been written. An access over a block boundary throws `SPLIT_ACCESS` and is then done in two
    parts. `FlatMemory` is the other implementation in the same source, one map entry for each byte
    (the `#else` branches of `USE_BLOCK_STORE`). -/

namespace Dimebox

/-- What the store takes from outside: the bytes `rand() & 0xff` returns one after the other, and
    the contents of freshly allocated storage. -/
structure Oracle where
  rand : Nat → Byte
  heap : Nat → Byte
  draws : Nat := 0
  allocs : Nat := 0

/-- `MemBlock`; both pointers are null until the first access. -/
structure MemBlock where
  mptr : Option (Nat → Byte) := none
  mptrInit : Option (Nat → Byte) := none
  freeBytes : U64 := 0
  /-- `RANDOM_INITIAL_VALUE` or a byte -/
  initialByteValue : U32 := 0x100

def allBytesDefined : Int := 0
def someBytesUndefined : Int := 1
def allBytesFree : Int := 2

/-- The return code for `undef` undefined bytes out of `n`. -/
def definedCode (undef n : Nat) : Int :=
  if undef = n then allBytesFree else if 0 < undef then someBytesUndefined else allBytesDefined

namespace MemBlock

/-- `BlockAddress`: the address aligned to the block size. -/
def blockAddress (address : U64) : U64 := address &&& ~~~(32#64 - 1#64)

/-- `Offset`. -/
def offset (address : U64) : Nat := (address &&& (32#64 - 1#64)).toNat

/-- `ValidateAccess`. The buffers of all callers are arrays, never null. -/
def validateAccess (offset : Nat) (numberOfBytes : Int) : Except Fault Unit :=
  if 32 ≤ offset then .error (.mblock .memError)
  else if numberOfBytes ≤ 0 ∨ 32 < numberOfBytes then .error (.mblock .memError)
  else if 32 < offset + numberOfBytes then .error (.mblock .splitAccess)
  else .ok ()

/-- `AllocateBlock`. -/
def allocateBlock : MemBlock × Oracle → MemBlock × Oracle
  | (b, o) =>
    match b.mptr with
    | some _ => (b, o)
    | none =>
      ({ b with mptr := some (fun i => o.heap (32 * o.allocs + i)), freeBytes := 0xffffffffffffffff },
       { o with allocs := o.allocs + 1 })

/-- `InitialByteValue`. -/
def nextInitialByte (b : MemBlock) (o : Oracle) : Byte × Oracle :=
  if b.initialByteValue = 0x100 then (o.rand o.draws, { o with draws := o.draws + 1 })
  else (b.initialByteValue.setWidth 8, o)

/-- `AllocateInitBlock`. -/
def allocateInitBlock : MemBlock × Oracle → MemBlock × Oracle
  | (b, o) =>
    match b.mptrInit with
    | some _ => (b, o)
    | none =>
      let fill := fun (acc : (Nat → Byte) × Oracle) (i : Nat) =>
        let v := b.nextInitialByte acc.2
        (Function.update acc.1 i v.1, v.2)
      let storage := fun i => o.heap (32 * o.allocs + i)
      let r := (List.range 32).foldl fill (storage, { o with allocs := o.allocs + 1 })
      ({ b with mptrInit := some r.1 }, r.2)

/-- `ReadByte`, of a block that is allocated. -/
def readByte (b : MemBlock) (i : Nat) : Byte := b.mptr.elim 0 (· i)

/-- `ReadFreeByte`, of a block that is allocated. -/
def readFreeByte (b : MemBlock) (i : Nat) : Byte := b.mptrInit.elim 0 (· i)

/-- `WriteByte`. -/
def writeByte (b : MemBlock) (i : Nat) (v : Byte) (isInitialValue : Bool) : MemBlock :=
  { b with
    mptr := b.mptr.map (Function.update · i v)
    freeBytes := b.freeBytes &&& ~~~(1#64 <<< i)
    mptrInit := if isInitialValue then b.mptrInit.map (Function.update · i v) else b.mptrInit }

/-- `ByteIsFree`. -/
def byteIsFree (b : MemBlock) (i : Nat) : Bool := b.freeBytes &&& (1#64 <<< i) ≠ 0

/-- `ByteCount`. -/
def byteCount (b : MemBlock) : Nat := ((List.range 32).filter (fun i => !b.byteIsFree i)).length

/-- `MemBlock::ReadInitialState`: the 32 bytes of one of the two buffers. -/
def readInitialState (b : MemBlock) (address : U64) (isData : Bool) : Except Fault (List Byte) :=
  if offset address ≠ 0 then .error (.mblock .memError)
  else match (if isData then b.mptrInit else b.mptr) with
    | none => .error (.mblock .memError)
    | some mem => .ok ((List.range 32).map mem)

/-- The loop of `MemBlock::Write`. -/
def writeBytes (b : MemBlock) (offset : Nat) (initialValues : Bool) : List Byte → MemBlock
  | [] => b
  | v :: vs => writeBytes (b.writeByte offset v initialValues) (offset + 1) initialValues vs

/-- `MemBlock::Write`. -/
def write (address : U64) (buffer : List Byte) (numberOfBytes : Int) (initialValues : Bool) :
    EStateM Fault (MemBlock × Oracle) Int := do
  let off := offset address
  Effect.lift (validateAccess off numberOfBytes)
  modify allocateBlock
  modify allocateInitBlock
  modify fun (b, o) => (b.writeBytes off initialValues (buffer.take numberOfBytes.toNat), o)
  if (← get).1.byteCount = 0 then throw (.mblock .memError)
  return 0

/-- The loop of `MemBlock::Read`: the bytes read, how many of them were free, and the block. -/
def readBytes (b : MemBlock) (offset : Nat) (initIfFree : Bool) : Nat → List Byte × Nat × MemBlock
  | 0 => ([], 0, b)
  | n + 1 =>
    let free := b.byteIsFree offset
    let v := if free then b.readFreeByte offset else b.readByte offset
    let b := if free && initIfFree then b.writeByte offset v false else b
    let r := readBytes b (offset + 1) initIfFree n
    (v :: r.1, r.2.1 + free.toNat, r.2.2)

/-- `MemBlock::Read`: the return code and the bytes. -/
def read (address : U64) (numberOfBytes : Int) (initIfFree : Bool) :
    EStateM Fault (MemBlock × Oracle) (Int × List Byte) := do
  let off := offset address
  Effect.lift (validateAccess off numberOfBytes)
  modify allocateBlock
  modify allocateInitBlock
  let r := (← get).1.readBytes off initIfFree numberOfBytes.toNat
  modify fun (_, o) => (r.2.2, o)
  if (← get).1.byteCount = 0 ∧ initIfFree then throw (.mblock .memError)
  return (definedCode r.2.1 numberOfBytes.toNat, r.1)

end MemBlock

/-- `PhysicalMemory` over the block store. -/
structure PhysicalMemory where
  blocks : AList (fun _ : U64 => MemBlock) := ∅
  oracle : Oracle

namespace PhysicalMemory

/-- `physical_memory_by_block[address]`; an absent block is default constructed. -/
def blockAt (m : PhysicalMemory) (address : U64) : MemBlock := (m.blocks.lookup address).getD {}

/-- Call a member function of `physical_memory_by_block[address]`, which inserts the block. -/
def onBlock (address : U64) (x : EStateM Fault (MemBlock × Oracle) α) :
    EStateM Fault PhysicalMemory α :=
  Effect.focus (fun m => (m.blockAt address, m.oracle))
    (fun bo m => { m with blocks := m.blocks.insert address bo.1, oracle := bo.2 }) x

/-- `BlockWrite`. -/
def blockWrite (address : U64) (buffer : List Byte) (numberOfBytes : Int) (initialValues : Bool) :
    EStateM Fault PhysicalMemory Int :=
  tryCatch
    (do
      let _ ← onBlock (MemBlock.blockAddress address)
        (MemBlock.write address buffer numberOfBytes initialValues)
      return 0)
    fun
    | .mblock .splitAccess => do
      let address1stLine := MemBlock.blockAddress address
      let address2ndLine := address1stLine + 32
      let numbytes1stLine : Nat := 32 - MemBlock.offset address
      let numbytes2ndLine : Int := numberOfBytes - numbytes1stLine
      let _ ← onBlock address1stLine
        (MemBlock.write address buffer numbytes1stLine initialValues)
      let _ ← onBlock address2ndLine
        (MemBlock.write (address + BitVec.ofNat 64 numbytes1stLine) (buffer.drop numbytes1stLine)
          numbytes2ndLine initialValues)
      return 0
    | .mblock _ => throw (.mblock .memError)
    | f => throw f

/-- `BlockRead`. -/
def blockRead (address : U64) (initIfFree : Bool) (numberOfBytes : Int) :
    EStateM Fault PhysicalMemory (Int × List Byte) :=
  tryCatch
    (onBlock (MemBlock.blockAddress address) (MemBlock.read address numberOfBytes initIfFree))
    fun
    | .mblock .splitAccess => do
      let address1stLine := MemBlock.blockAddress address
      let address2ndLine := address1stLine + 32
      let numbytes1stLine : Nat := 32 - MemBlock.offset address
      let numbytes2ndLine : Int := numberOfBytes - numbytes1stLine
      let r1 ← onBlock address1stLine (MemBlock.read address numbytes1stLine initIfFree)
      let r2 ← onBlock address2ndLine
        (MemBlock.read (address + BitVec.ofNat 64 numbytes1stLine) numbytes2ndLine initIfFree)
      return (if r1.1 = r2.1 then r1.1 else someBytesUndefined, r1.2 ++ r2.2)
    | .mblock _ => throw (.mblock .memError)
    | f => throw f

/-- `PhysicalMemory::Write` with `USE_BLOCK_STORE`. -/
def write (address : U64) (buffer : List Byte) (numberOfBytes : Int) (initialValues : Bool) :
    EStateM Fault PhysicalMemory Int := do
  let _ ← blockWrite address buffer numberOfBytes initialValues
  return 0

/-- `PhysicalMemory::Read` with `USE_BLOCK_STORE`. -/
def read (address : U64) (initIfFree : Bool) (numberOfBytes : Int) :
    EStateM Fault PhysicalMemory (Int × List Byte) :=
  blockRead address initIfFree numberOfBytes

/-- `PhysicalMemory::ReadInitialState`; `operator[]` inserts an absent block. -/
def readInitialState (address : U64) (isData : Bool) : EStateM Fault PhysicalMemory (List Byte) :=
  if MemBlock.offset address ≠ 0 then throw (.mblock .memError)
  else onBlock address do Effect.lift ((← get).1.readInitialState address isData)

/-- `AddressList`, in the order of the map. -/
def addressList (m : PhysicalMemory) (skipEmptyBlocks : Bool) : List U64 :=
  (m.blocks.entries.filter (fun e => !skipEmptyBlocks || 0 < e.2.byteCount)).map (·.1)

end PhysicalMemory

/-- `PhysicalMemory` without `USE_BLOCK_STORE`. -/
structure FlatMemory where
  bytes : AList (fun _ : U64 => Byte) := ∅

namespace FlatMemory

/-- `MEM_UNDEF_VAL`. -/
def memUndefVal : Byte := 0xdc

/-- `PhysicalMemory::Write`, flat branch. -/
def write (m : FlatMemory) (address : U64) : List Byte → FlatMemory
  | [] => m
  | v :: vs => write { bytes := m.bytes.insert address v } (address + 1) vs

/-- The loop of `PhysicalMemory::Read`, flat branch: bytes, undefined count and map. -/
def readLoop (m : FlatMemory) (address : U64) (initIfFree : Bool) : Nat → List Byte × Nat × FlatMemory
  | 0 => ([], 0, m)
  | n + 1 =>
    let found := m.bytes.lookup address
    let m := if found.isNone && initIfFree then { bytes := m.bytes.insert address memUndefVal } else m
    let r := readLoop m (address + 1) initIfFree n
    (found.getD memUndefVal :: r.1, r.2.1 + found.isNone.toNat, r.2.2)

/-- `PhysicalMemory::Read`, flat branch: return code, bytes and map. -/
def read (m : FlatMemory) (address : U64) (initIfFree : Bool) (numberOfBytes : Nat) :
    Int × List Byte × FlatMemory :=
  let r := m.readLoop address initIfFree numberOfBytes
  (definedCode r.2.1 numberOfBytes, r.1, r.2.2)

end FlatMemory

end Dimebox
