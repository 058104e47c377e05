import Dimebox.Memory

/-! Memory images in ELF files (`ELFIO` and the libelf interface under it).

    libelf stands at the other end. Of a file that is read it delivers the section count of the
    header and the sections behind the null section, each in chunks of data; a file that is written
    is the list of sections handed to it. The files open, and a string table is the last section of
    a file that was written. `verbose` only prints and is left out. -/

namespace Dimebox

/-- A section as libelf delivers it: header fields, and the chunks `elf_getdata` returns one after
    the other, up to the first without a buffer. -/
structure ElfSection where
  name : List Char
  shType : U32
  address : U64
  size : Nat
  chunks : List (List Byte)

/-- A file as libelf delivers it: `e_shnum` of its header, and what `elf_nextscn` yields. -/
structure ElfFile where
  shnum : Nat
  sections : List ElfSection

namespace ElfSection

/-- A count kept in an `int`. -/
def toInt (n : Int) : Int := (BitVec.ofInt 32 n).toInt

/-- The read loop of `elfio_read_next_section`: `num_bytes` and the buffer. The comparison with the
    section size is unsigned. -/
def readChunks (size : Nat) : List (List Byte) → Int → List Byte → Int × List Byte
  | [], numBytes, buffer => (numBytes, buffer)
  | c :: cs, numBytes, buffer =>
    if (BitVec.ofInt 64 numBytes).toNat < size then
      readChunks size cs (toInt (numBytes + c.length)) (buffer ++ c)
    else (numBytes, buffer)

/-- `size_in_bytes`. -/
def sizeInBytes (s : ElfSection) : Int := (readChunks s.size s.chunks 0 []).1

/-- `section_data`. -/
def sectionData (s : ElfSection) : List Byte := (readChunks s.size s.chunks 0 []).2

def shtProgbits : U32 := 1
def shtStrtab : U32 := 3
def shtNobits : U32 := 8
def shtInitArray : U32 := 14
def shtFiniArray : U32 := 15

/-- `is_data`. -/
def isData (s : ElfSection) : Bool :=
  s.shType = shtProgbits || s.shType = shtNobits || s.shType = shtInitArray ||
    s.shType = shtFiniArray

/-- The names `Load` skips, with the length `strncmp` compares; nine characters of `.comment` are
    the whole of it. -/
def skippedNames : List (String × Nat) :=
  [(".symtab", 7), (".strtab", 7), (".shstrtab", 9), (".stab", 5), (".debug_", 7), (".comment", 9)]

def isSkipped (s : ElfSection) : Bool :=
  skippedNames.any fun n => s.name.take n.2 = n.1.toList.take n.2

end ElfSection

namespace Elfio

/-! ### Load -/

/-- `WritePhysicalMemory` with `SIM_EXCEPTIONS` caught: whether it returned. -/
def tryWrite (address : U64) (numberOfBytes : Int) (buffer : List Byte) (initialValues : Bool) :
    EStateM Fault Memory Bool :=
  tryCatch
    (do
      let _ ← Memory.writePhysicalMemory address numberOfBytes buffer false initialValues
      return true)
    fun
    | .sim _ => return false
    | f => throw f

/-- The loop over the full blocks of a section, with `n` of them to go: return code and offset. -/
def loadBlocks (address : U64) (sectionData : List Byte) : Nat → Nat → EStateM Fault Memory (Int × Nat)
  | 0, blockOffset => return (0, blockOffset)
  | n + 1, blockOffset => do
    if ← tryWrite (address + BitVec.ofNat 64 blockOffset) 32 (sectionData.drop blockOffset) true then
      loadBlocks address sectionData n (blockOffset + 32)
    else return (-1, blockOffset)

/-- A section that is loaded at `address`; what is left of it is written after a failure, too. -/
def loadSection (address : U64) (sectionData : List Byte) (sizeInBytes : Int) :
    EStateM Fault Memory Int := do
  let address ← Effect.lift ((← get).validatePhysicalMemoryAddress address false)
  let numBlocks := (sizeInBytes / 32).toNat
  let extraBytes := sizeInBytes % 32
  let (rcode, blockOffset) ← loadBlocks address sectionData numBlocks 0
  if 0 < extraBytes then
    if ← tryWrite (address + BitVec.ofNat 64 blockOffset) extraBytes
        (sectionData.drop blockOffset) false then
      return rcode
    else return -1
  else return rcode

/-- The bytes of the buffer for a section name. -/
def sectionNameSize : Nat := 1024

/-- The section loop of `Load`, with `n` sections of the count to go and `sectionLoadCount` loaded.
    Behind the last section libelf delivers an unnamed one that is no data. A name that fills the
    buffer is copied past its end. -/
def loadSections (loadAddress : U64) : Nat → List ElfSection → Nat → EStateM Fault Memory Int
  | 0, _, _ => return 0
  | n + 1, [], sectionLoadCount => loadSections loadAddress n [] sectionLoadCount
  | n + 1, s :: ss, sectionLoadCount => do
    if sectionNameSize ≤ s.name.length then throw .undefined
    else if s.isSkipped || !s.isData || s.sizeInBytes ≤ 0 then
      loadSections loadAddress n ss sectionLoadCount
    else
      let useLoadAddress := loadAddress ≠ 0xffffffffffffffff
      if useLoadAddress ∧ s.address ≠ 0 then return -1
      let address := if useLoadAddress then loadAddress else s.address
      if useLoadAddress ∧ 1 < sectionLoadCount + 1 then return -1
      let rcode ← loadSection address s.sectionData s.sizeInBytes
      if rcode ≠ 0 then return rcode
      loadSections loadAddress n ss (sectionLoadCount + 1)

/-- `Load(mem,elf_file,load_address,verbose)`. -/
def loadAt (file : ElfFile) (loadAddress : U64) : EStateM Fault Memory Int :=
  loadSections loadAddress file.shnum file.sections 0

/-- `Load(mem,elf_file,verbose)`. -/
def load (file : ElfFile) : EStateM Fault Memory Int := loadAt file 0xffffffffffffffff

/-! ### Save -/

/-- `TestBlockAddresses`. -/
def testBlockAddresses (m : Memory) : List U64 := (m.physMem.addressList true).mergeSort (· ≤ ·)

/-- The blocks `estimateELFFileSize` merges addresses into; the block at address zero is not
    counted if it comes first. -/
def mergedBlocks (blockAddressMask : U64) : U64 → List U64 → List U64
  | _, [] => []
  | current, a :: as =>
    if a &&& blockAddressMask ≠ current then
      (a &&& blockAddressMask) :: mergedBlocks blockAddressMask (a &&& blockAddressMask) as
    else mergedBlocks blockAddressMask current as

/-- The mask of an address for blocks of `2 ^ bits` bytes. -/
def blockMask (bits : Nat) : U64 := ~~~((1#64 <<< bits) - 1#64)

/-- `resulting_block_count` of `estimateELFFileSize`. -/
def estimatedBlockCount (addresses : List U64) (bits : Nat) : Nat :=
  (mergedBlocks (blockMask bits) 0 addresses).length

def elfMaxSections : Nat := 0xff00

def trialBlockSizes : List Nat := [12, 13, 14, 15, 16, 20, 24, 32]

/-- `ChooseFileBlockSize`: the block size in bits, if there is one. -/
def chooseFileBlockSize (addresses : List U64) : Option Nat :=
  if addresses.length < elfMaxSections then some 5
  else
    let bits :=
      (trialBlockSizes.find? fun b => estimatedBlockCount addresses b < elfMaxSections).getD 32
    if elfMaxSections < estimatedBlockCount addresses bits then none else some bits

/-- No block of a file is smaller than a memory block. -/
theorem five_le_of_choose {addresses : List U64} {bits : Nat}
    (h : chooseFileBlockSize addresses = some bits) : 5 ≤ bits := by
  have htrial : ∀ b ∈ trialBlockSizes, 5 ≤ b := by decide
  rw [chooseFileBlockSize] at h
  split at h
  · exact Nat.le_of_eq (Option.some.inj h)
  · dsimp only at h
    split at h
    · cases h
    · rw [← Option.some.inj h]
      cases hfind : trialBlockSizes.find? fun b => estimatedBlockCount addresses b < elfMaxSections with
      | some b => exact htrial b (List.mem_of_find?_eq_some hfind)
      | none => decide

/-- `SetFileBlockAddresses`; `seen` are the addresses found so far. -/
def setFileBlockAddresses (addressMask : U64) (seen : List U64) : List U64 → List U64
  | [] => []
  | a :: as =>
    if a &&& addressMask ∈ seen then setFileBlockAddresses addressMask seen as
    else (a &&& addressMask) ::
      setFileBlockAddresses addressMask ((a &&& addressMask) :: seen) as

/-- The bytes of a section larger than a memory block, one at a time; a byte that is not defined
    is written as zero, but the read defines it in memory. -/
def readEachByte (address : U64) : Nat → EStateM Fault Memory (List Byte)
  | 0 => return []
  | n + 1 => do
    let (rcode, tbuf) ← Memory.readPhysicalMemory address 1 [0] true true
    let rest ← readEachByte (address + 1) n
    return (if rcode = allBytesDefined then tbuf.headD 0 else 0) :: rest

/-- `section_data`. No region access is ever invalid, so that `is_data` is false and the current
    values are taken. Those of a memory block are copied whole, past the end of a shorter buffer. -/
def readSection (address : U64) (sectionSize : Nat) : EStateM Fault Memory (List Byte) :=
  if sectionSize ≤ 32 then do
    let sectionData ← Memory.onPhysMem (PhysicalMemory.readInitialState address false)
    if sectionSize < 32 then throw .undefined else return sectionData
  else readEachByte address sectionSize

/-- The section `elfio_add_section` makes, the `count`-th of the file. -/
def textSection (count : Nat) (address : U64) (sectionData : List Byte) : ElfSection :=
  { name := ".text".toList ++ Nat.toDigits 10 count
    shType := ElfSection.shtProgbits
    address
    size := sectionData.length
    chunks := [sectionData] }

/-- The loop of `SaveToELF`, with the sections that have been added: `none` for a return code of
    -1. -/
def saveSections (fileBlockSize : Nat) :
    List U64 → List ElfSection → EStateM Fault Memory (Option (List ElfSection))
  | [], added => return some added
  | a :: as, added => do
    if a &&& BitVec.ofNat 64 (fileBlockSize - 1) ≠ 0 then return none
    let sectionData ← readSection a fileBlockSize
    saveSections fileBlockSize as (added ++ [textSection (added.length + 1) a sectionData])

/-- `SaveToELF`: the sections in front of the string table. -/
def saveToElf (addresses : List U64) (fileBlockSize : Nat) :
    EStateM Fault Memory (Option (List ElfSection)) :=
  saveSections fileBlockSize addresses []

/-- `Save`. A block size of 32 bits does not fit in an `int`. -/
def save (compress : Bool) : EStateM Fault Memory (Option (List ElfSection)) := do
  let addresses := testBlockAddresses (← get)
  if compress then saveToElf addresses 32
  else match chooseFileBlockSize addresses with
    | none => return none
    | some bits =>
      if 31 ≤ bits then throw .undefined
      saveToElf (setFileBlockAddresses (blockMask bits) [] addresses) (2 ^ bits)

/-- The section names at the end of a file. -/
def stringTable (names : List Byte) : ElfSection :=
  { name := ".shstrtab".toList, shType := ElfSection.shtStrtab, address := 0, size := names.length,
    chunks := [names] }

/-- The string table `add_section_name` grows: a nil, and one behind every name. -/
def sectionNames (names : List (List Char)) : List Byte :=
  0 :: names.flatMap fun name => name.map (fun c => BitVec.ofNat 8 c.toNat) ++ [0]

/-- `SHN_LORESERVE`. -/
def shnLoreserve : Nat := 0xff00

/-- The file `elf_writer_fini` has libelf write: the null section in front and the string table
    behind count as sections. A count from `SHN_LORESERVE` on goes to the null section, and
    `e_shnum` is 0. -/
def writtenFile (sections : List ElfSection) : ElfFile where
  shnum := if sections.length + 2 < shnLoreserve then sections.length + 2 else 0
  sections := sections ++
    [stringTable (sectionNames (sections.map (·.name) ++ [".shstrtab".toList]))]

end Elfio

end Dimebox
