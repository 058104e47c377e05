import Dimebox.Simulator
import Dimebox.Elfio

/-! A whole run of the program (`run_simulation`): `Go`, then the test signature and the dump.

    `WriteTestSignature` writes a range of memory as text, `DumpTest` writes all of it to an ELF file.
    Opening files and libelf are left to the host; so is the time, from which `run_simulation` only
    computes what it prints. -/

namespace Dimebox

/-! ### Configuration and host -/

/-- What `run_simulation` takes from `SimConfig` besides what the simulator does. -/
structure TestConfig extends SimConfig where
  signatureStartAddress : U64 := 0
  signatureEndAddress : U64 := 0
  dumpFile : List Char := []

/-- What libelf and the file system say to the calls that write an ELF file. -/
structure ElfWriter where
  /-- `elf_version` -/
  version : Bool := true
  /-- `open` -/
  opens : Bool := true
  /-- the descriptor and the two headers -/
  begins : Bool := true
  /-- the `k`-th section -/
  adds : Nat → Bool := fun _ => true
  /-- the string table -/
  addsNames : Bool := true
  /-- `elf_update` -/
  updates : Bool := true

/-- A host with files to write. -/
structure TestHost extends Host where
  /-- `fopen` of the signature file -/
  opensSignature : Bool := true
  /-- what `tbuf` held -/
  tbuf : Nat → Byte := fun _ => 0
  elf : ElfWriter := {}

/-- How a function ends that may call `errx`: its return code, or the status the process exits with. -/
inductive Ending where
  | code (rcode : Int)
  | exit (status : Nat)

/-! ### The test signature -/

namespace TestConfig

/-- `signature_size`, an `int`. -/
def signatureSize (cfg : TestConfig) : Int :=
  ((cfg.signatureEndAddress - cfg.signatureStartAddress).setWidth 32).toInt

/-- The lines of a signature. -/
def signatureLines (cfg : TestConfig) : Nat := (cfg.signatureSize / 16).toNat

end TestConfig

/-- A line: 16 bytes, the last first unless the host is big-endian. -/
def signatureLine (bigEndian : Bool) (tbuf : List Byte) : List Char :=
  ((if bigEndian then tbuf else tbuf.reverse).flatMap fun b => Text.hexPadded 2 b.toNat) ++ ['\n']

/-- The loop of `WriteTestSignature` from `next_sig_addr` on, with `n` lines to go: `rcode`, and what
    is written. -/
def writeSignatureLines (host : TestHost) :
    Nat → U64 → EStateM Fault Memory (Int × List Char)
  | 0, _ => return (0, [])
  | n + 1, nextSigAddr => do
    let tbuf := (List.range 16).map host.tbuf
    let r ← tryCatch (some <$> Memory.readPhysicalMemory nextSigAddr 16 tbuf false true) fun
      | .sim _ => return none
      | f => throw f
    match r with
    | none => return (-1, [])
    | some (_, tbuf) =>
      let line := signatureLine (← get).hostEndianness tbuf
      let (rcode, text) ← writeSignatureLines host n (nextSigAddr + 16)
      return (rcode, line ++ text)

/-- `WriteTestSignature`: its return code, and the file if there is one. Without a file the output
    functions get a null pointer. -/
def writeTestSignature (cfg : TestConfig) (host : TestHost) :
    EStateM Fault Memory (Int × Option (List Char)) :=
  if cfg.signatureStartAddress = 0 then return (0, none)
  else if cfg.signatureSize.tmod 16 ≠ 0 then return (-1, none)
  else if !host.opensSignature then throw .undefined
  else do
    let (rcode, text) ← writeSignatureLines host cfg.signatureLines cfg.signatureStartAddress
    return (rcode, some text)

/-! ### The dump -/

namespace ElfWriter

/-- The bytes of the buffers for the file name and for messages. -/
def bufferSize : Nat := 1024

/-- `elfio_init` for writing. The name is copied into a buffer, and goes into the message that the
    file does not open. -/
def init (w : ElfWriter) (elfFile : List Char) : Except Fault Int :=
  if bufferSize ≤ elfFile.length then .error .undefined
  else if !w.version then .ok (-1)
  else if !w.opens then
    if bufferSize ≤ ("File open failed, output file: ''".toList ++ elfFile).length then
      .error .undefined
    else .ok (-1)
  else if !w.begins then .ok (-1)
  else .ok 0

/-- `elfio_fini` for writing. -/
def fini (w : ElfWriter) : Ending :=
  if !w.addsNames then .code (-1) else if !w.updates then .exit 70 else .code 0

/-- The loop of `SaveToELF`, with `k` sections added, and what follows it. -/
def saveSections (w : ElfWriter) (fileBlockSize : Nat) :
    List U64 → Nat → EStateM Fault Memory Ending
  | [], _ => return w.fini
  | a :: as, k => do
    if a &&& BitVec.ofNat 64 (fileBlockSize - 1) ≠ 0 then return .code (-1)
    let _ ← Elfio.readSection a fileBlockSize
    if w.adds k then saveSections w fileBlockSize as (k + 1)
    else return .code (-1)

/-- `SaveToELF`. -/
def saveToElf (w : ElfWriter) (elfFile : List Char) (addresses : List U64) (fileBlockSize : Nat) :
    EStateM Fault Memory Ending := do
  let rcode ← Effect.lift (w.init elfFile)
  if rcode ≠ 0 then return .code rcode
  saveSections w fileBlockSize addresses 0

/-- `Save` without compression. A block size of 32 bits does not fit in an `int`. -/
def save (w : ElfWriter) (elfFile : List Char) : EStateM Fault Memory Ending := do
  let addresses := Elfio.testBlockAddresses (← get)
  match Elfio.chooseFileBlockSize addresses with
  | none => return .code (-1)
  | some bits =>
    if 31 ≤ bits then throw .undefined
    saveToElf w elfFile (Elfio.setFileBlockAddresses (Elfio.blockMask bits) [] addresses) (2 ^ bits)

end ElfWriter

/-- `DumpTest`. -/
def dumpTest (host : TestHost) (outFile : List Char) : EStateM Fault Memory Ending :=
  host.elf.save outFile

/-! ### The run -/

/-- `run_simulation` after `Go`: the return code of `Go` is not looked at. -/
def afterGo (cfg : TestConfig) (host : TestHost) : EStateM Fault Memory Ending := do
  let (rcode, _) ← writeTestSignature cfg host
  if rcode = 0 ∧ cfg.dumpFile ≠ [] then dumpTest host cfg.dumpFile
  else return .code rcode

/-- `run_simulation`, for at most `n` turns of the loop of `Go`. -/
def runSimulation (cfg : TestConfig) (host : TestHost) (n : Nat) : SimM (Option Ending) :=
  tryCatch
    (do
      match (← RiscvSimulator.go n).1 with
      | none => return none
      | some _ => some <$> RiscvSimulator.onMemory (afterGo cfg host))
    fun
    | .runtimeError _ => return some (.code (-1))
    | f => throw f

/-- The status of the process; `main` returns what `run_simulation` does. -/
def Ending.status : Ending → Nat
  | .code rcode => (rcode % 256).toNat
  | .exit status => status

/-- `SIGABRT`, as a shell counts it. -/
def abortStatus : Nat := 134

/-- What the process ends with, if it ends. An exception that is not caught ends it as well. -/
def exitStatus {σ : Type} : EStateM.Result Fault σ (Option Ending) → Option Nat
  | .ok e _ => e.map Ending.status
  | .error .undefined _ => none
  | .error _ _ => some abortStatus

/-- What the process ends with, for a configuration and a host. -/
def processStatus (cfg : TestConfig) (host : TestHost) (n : Nat) : Option Nat :=
  exitStatus ((runSimulation cfg host n).run (.init cfg.toSimConfig host.toHost))

end Dimebox
