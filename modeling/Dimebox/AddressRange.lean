import Dimebox.Simulator
import Dimebox.RamFrame

/-! The physical address range.

    Fetches, loads, stores, the ELF loader and the debugger reach RAM through `ReadPhysicalMemory`
    and `WritePhysicalMemory`, which check the first and the last address of an access against the
    range memory was set up with. `Init` takes that range from `DefaultAddressRange`, which returns
    0 to 0xffffffff whatever `dram_range` was given: no access of a run is ever refused. -/

namespace Dimebox

namespace Memory

/-- The addresses are checked in the same way. -/
structure SameRange (m m' : Memory) : Prop where
  size : m'.sizeInBits = m.sizeInBits
  lo : m'.physicalAddressLo = m.physicalAddressLo
  hi : m'.physicalAddressHi = m.physicalAddressHi

theorem SameRange.refl (m : Memory) : SameRange m m := ⟨rfl, rfl, rfl⟩

theorem SameRange.trans {m m' m'' : Memory} (h : SameRange m m') (h' : SameRange m' m'') :
    SameRange m m'' := ⟨h'.size.trans h.size, h'.lo.trans h.lo, h'.hi.trans h.hi⟩

theorem DefaultRange.of_same {m m' : Memory} (hm : m.DefaultRange) (h : SameRange m m') :
    m'.DefaultRange := ⟨h.size.trans hm.sizeInBits, h.lo.trans hm.lo, h.hi.trans hm.hi⟩

theorem SameRange.checkAddresses {m m' : Memory} (h : SameRange m m') (a : U64) (n : Int)
    (forTest : Bool) : m'.checkAddresses a n forTest = m.checkAddresses a n forTest := by
  simp only [Memory.checkAddresses, validatePhysicalMemoryAddress, paMask, physicalAddressRange,
    h.size, h.lo, h.hi]
  rfl

/-! ### Accesses keep the range -/

theorem range_bind {α β : Type} {x : EStateM Fault Memory α} {f : α → EStateM Fault Memory β}
    (hx : Effect.Moves SameRange x) (hf : ∀ a, Effect.Moves SameRange (f a)) :
    Effect.Moves SameRange (x >>= f) := Effect.moves_bind (R := SameRange) .trans hx hf

theorem onPhysMem_range {α : Type} (x : EStateM Fault PhysicalMemory α) :
    Effect.Moves SameRange (onPhysMem x) :=
  Effect.moves_focus (Q := fun _ _ => True) (fun _ => trivial) fun _ _ _ => ⟨rfl, rfl, rfl⟩

theorem readDeviceMemory_range (p : DevicePtr) (a : U64) (n : Int) (buf : List Byte)
    (forTest : Bool) : Effect.Moves SameRange (readDeviceMemory p a n buf forTest) := by
  intro m
  rw [readDeviceMemory, EStateM.run_bind, EStateM.run_get]
  simp only
  split
  · exact .refl m
  · split
    · exact ⟨rfl, rfl, rfl⟩
    · exact .refl m

theorem writeDeviceMemory_range (p : DevicePtr) (a : U64) (n : Int) (buf : List Byte)
    (forTest : Bool) : Effect.Moves SameRange (writeDeviceMemory p a n buf forTest) := by
  intro m
  rw [writeDeviceMemory, EStateM.run_bind, EStateM.run_get]
  simp only
  split
  · exact .refl m
  · split
    · exact ⟨rfl, rfl, rfl⟩
    · exact .refl m

theorem readPhysicalMemory_range (a : U64) (n : Int) (buf : List Byte) (forTest init : Bool) :
    Effect.Moves SameRange (readPhysicalMemory a n buf forTest init) := by
  refine range_bind (fun m => .refl m) fun m =>
    range_bind (Effect.moves_lift .refl _) fun address => ?_
  cases m.deviceAt address with
  | some p => exact readDeviceMemory_range p address n buf forTest
  | none => exact range_bind (onPhysMem_range _) fun _ => Effect.moves_pure .refl _

theorem writePhysicalMemory_range (a : U64) (n : Int) (buf : List Byte) (forTest iv : Bool) :
    Effect.Moves SameRange (writePhysicalMemory a n buf forTest iv) := by
  refine range_bind (fun m => .refl m) fun m =>
    range_bind (Effect.moves_lift .refl _) fun address => ?_
  cases m.deviceAt address with
  | some p => exact writeDeviceMemory_range p address n buf forTest
  | none => exact onPhysMem_range _

/-- What `Execute` does to memory is read it. -/
theorem execute_memory_moves {R : Memory → Memory → Prop} (hr : ∀ m, R m m)
    (ht : ∀ {a b c}, R a b → R b c → R a c)
    (h : ∀ a n buf init, Effect.Moves R (readPhysicalMemory a n buf false init)) :
    Effect.Moves (fun i i' : RiscvInstruction => R i.memory i'.memory) Step.execute := by
  refine Step.execute_moves (fun i => hr i.memory) (fun h h' => ht h h') ?_ ?_ ?_
  · intro i i' hm
    cases hm with
    | setGp | write | jump | mbuf | queue => exact hr _
    | read a n hn buf => exact readMemory_moves hr ht false h a true n true buf true i.memory
  · intro i
    rw [i.decode_memory]
    exact hr _
  · exact fun i s => hr _

/-! ### An access of up to a block that passes the checks returns -/

theorem readPhysicalMemory_of_checked {m : Memory} {a address : U64} {n : Nat} {forTest : Bool}
    (hcheck : m.checkAddresses a n forTest = .ok address) (hn : 0 < n) (hn' : n ≤ 32)
    (buf : List Byte) (init : Bool) :
    ∃ r m', (readPhysicalMemory a n buf forTest init).run m = .ok r m' ∧ SameRange m m' := by
  have hrange := readPhysicalMemory_range a n buf forTest init m
  have hrun : ∃ r m', (readPhysicalMemory a n buf forTest init).run m = .ok r m' := by
    cases hdev : m.deviceAt address with
    | some p =>
      rw [readPhysicalMemory_of_device buf init hcheck hdev, readDeviceMemory, EStateM.run_bind,
        EStateM.run_get]
      dsimp only
      split
      · exact ⟨_, _, rfl⟩
      · split
        · exact ⟨_, _, rfl⟩
        · exact ⟨_, _, rfl⟩
    | none =>
      rw [readPhysicalMemory_of_ram buf init hcheck hdev, map_eq_pure_bind, EStateM.run_bind,
        PhysicalMemory.read_run hn hn']
      exact ⟨_, _, rfl⟩
  obtain ⟨r, m', hr⟩ := hrun
  rw [hr] at hrange
  exact ⟨r, m', hr, hrange⟩

/-- A read whose addresses do not pass the checks throws. -/
theorem readPhysicalMemory_of_unchecked {m : Memory} {a : U64} {n : Int} {forTest : Bool}
    (h : ¬ ∃ address, m.checkAddresses a n forTest = .ok address) (buf : List Byte) (init : Bool) :
    (readPhysicalMemory a n buf forTest init).run m = .error (.sim .generationError) m := by
  cases hcheck : m.checkAddresses a n forTest with
  | ok address => exact absurd ⟨address, hcheck⟩ h
  | error f => rw [readPhysicalMemory_unchecked buf init hcheck, Step.checkAddresses_error hcheck]

theorem readPhysicalMemory_ok {m : Memory} (hm : m.DefaultRange) (a : U64) {n : Nat} (hn : 0 < n)
    (hn' : n ≤ 32) (buf : List Byte) (init : Bool) :
    ∃ r m', (readPhysicalMemory a n buf false init).run m = .ok r m' ∧ m'.DefaultRange := by
  obtain ⟨r, m', hr, hrange⟩ :=
    readPhysicalMemory_of_checked (checkAddresses_eq hm a n) hn hn' buf init
  exact ⟨r, m', hr, hm.of_same hrange⟩

theorem writePhysicalMemory_ok {m : Memory} (hm : m.DefaultRange) (a : U64) {n : Nat} (hn : 0 < n)
    (hn' : n ≤ 32) {buf : List Byte} (hbuf : n ≤ buf.length) (iv : Bool) :
    ∃ rcode m', (writePhysicalMemory a n buf false iv).run m = .ok rcode m' ∧ m'.DefaultRange := by
  have hrange := writePhysicalMemory_range a n buf false iv m
  have hrun : ∃ rcode m', (writePhysicalMemory a n buf false iv).run m = .ok rcode m' := by
    cases hdev : m.deviceAt (low32 a) with
    | none => exact ⟨_, _, writePhysicalMemory_run hm hdev hn hn' hbuf iv⟩
    | some p =>
      obtain ⟨rcode, hr⟩ := writeDeviceMemory_run m p (low32 a) n buf
      exact ⟨rcode, _, (writePhysicalMemory_device hm hdev n buf iv).trans hr⟩
  obtain ⟨rcode, m', hr⟩ := hrun
  rw [hr] at hrange
  exact ⟨rcode, m', hr, hm.of_same hrange⟩

/-! ### What a run does to memory -/

/-- A physical access. -/
inductive Access where
  | read (address : U64) (numberOfBytes : Int) (buffer : List Byte) (initIfFree : Bool)
  | write (address : U64) (buffer : List Byte) (initialValues : Bool)

namespace Access

def address : Access → U64
  | read a _ _ _ => a
  | write a _ _ => a

def numberOfBytes : Access → Int
  | read _ n _ _ => n
  | write _ buf _ => buf.length

/-- Make the access: the return code. -/
def perform : Access → EStateM Fault Memory Int
  | read a n buf init => do return (← readPhysicalMemory a n buf false init).1
  | write a buf iv => writePhysicalMemory a buf.length buf false iv

/-- The RAM bytes it reads or writes: none if it starts in a device or has a size the block store
    refuses. -/
def ramBytes (m : Memory) (x : Access) : List U64 :=
  if 0 < x.numberOfBytes ∧ x.numberOfBytes ≤ 32 then m.ramSpan x.address x.numberOfBytes.toNat
  else []

/-- If the access has a RAM byte outside `lo..hi`, it raises `GENERATION_ERROR` instead. -/
def Constrained (lo hi : U64) (m : Memory) (x : Access) : Prop :=
  (∃ b ∈ x.ramBytes m, ¬ (lo ≤ b ∧ b ≤ hi)) →
    ∃ m', x.perform.run m = .error (.sim .generationError) m'

theorem perform_range (x : Access) : Effect.Moves SameRange x.perform := by
  cases x with
  | read a n buf init =>
    exact range_bind (readPhysicalMemory_range a n buf false init) fun _ => Effect.moves_pure .refl _
  | write a buf iv => exact writePhysicalMemory_range a buf.length buf false iv

/-- An access of RAM over the default range is made. -/
theorem perform_ok {m : Memory} (hm : m.DefaultRange) {x : Access} (hx : x.ramBytes m ≠ []) :
    ∃ rcode m', x.perform.run m = .ok rcode m' := by
  unfold ramBytes at hx
  split at hx
  · next hn =>
    cases x with
    | read a n buf init =>
      have hk : (n.toNat : Int) = n := Int.toNat_of_nonneg (by simp only [numberOfBytes] at hn; omega)
      simp only [numberOfBytes] at hn
      obtain ⟨r, m', hr, -⟩ := readPhysicalMemory_ok hm a (n := n.toNat) (by omega) (by omega) buf init
      rw [hk] at hr
      refine ⟨r.1, m', ?_⟩
      rw [perform, EStateM.run_bind, hr]
      exact rfl
    | write a buf iv =>
      simp only [numberOfBytes] at hn
      obtain ⟨rcode, m', hr, -⟩ := writePhysicalMemory_ok hm a (n := buf.length) (by omega) (by omega)
        (Nat.le_refl _) iv
      exact ⟨rcode, m', hr⟩
  · exact absurd rfl hx

/-- So the range constrains nothing. -/
theorem constrained_iff {lo hi : U64} {m : Memory} (hm : m.DefaultRange) (x : Access) :
    x.Constrained lo hi m ↔ ∀ b ∈ x.ramBytes m, lo ≤ b ∧ b ≤ hi := by
  constructor
  · intro hc b hb
    by_contra hout
    obtain ⟨m', herr⟩ := hc ⟨b, hb, hout⟩
    obtain ⟨rcode, m₁, hok⟩ := perform_ok hm (List.ne_nil_of_mem hb)
    rw [herr] at hok
    cases hok
  · intro hin ⟨b, hb, hout⟩
    exact absurd (hin b hb) hout

end Access

/-- The memories a run can reach: it makes accesses, and devices tick. -/
inductive Reached (m₀ : Memory) : Memory → Prop where
  | start : Reached m₀ m₀
  | access {m : Memory} (h : Reached m₀ m) (x : Access) :
      Reached m₀ (Effect.final (x.perform.run m))
  | devices {m : Memory} (h : Reached m₀ m) (d : Devices) : Reached m₀ { m with deviceObjects := d }

theorem Reached.sameRange {m₀ m : Memory} (h : Reached m₀ m) : SameRange m₀ m := by
  induction h with
  | start => exact .refl m₀
  | access _ x ih => exact ih.trans (x.perform_range _)
  | devices _ d ih => exact ih.trans ⟨rfl, rfl, rfl⟩

end Memory

namespace RiscvSimulator

open Memory (Access)

theorem mapDevice_range (m : Memory) (md : U64 × String) : Memory.SameRange m (mapDevice m md) := by
  unfold mapDevice
  split
  · exact ⟨rfl, rfl, rfl⟩
  · split
    · exact ⟨rfl, rfl, rfl⟩
    · exact .refl m

/-- `Init` sets up the default range, whatever the configuration says. -/
theorem init_defaultRange (simCfg : SimConfig) (host : Host) :
    (init simCfg host).memory.DefaultRange := by
  have hfold : ∀ (l : List (U64 × String)) (m : Memory), Memory.SameRange m (l.foldl mapDevice m) := by
    intro l
    induction l with
    | nil => exact .refl
    | cons md l ih => exact fun m => (mapDevice_range m md).trans (ih _)
  exact Memory.DefaultRange.of_same ⟨rfl, rfl, rfl⟩ (hfold simCfg.devices _)

/-- The last byte an access can reach: 32 bytes at 0xffffffff. -/
def lastRamByte : U64 := 0x10000001e

theorem ramBytes_le_last {m : Memory} (hm : m.DefaultRange) {x : Access} {b : U64}
    (hb : b ∈ x.ramBytes m) : b ≤ lastRamByte := by
  unfold Access.ramBytes at hb
  split at hb
  · next hn =>
    unfold Memory.ramSpan at hb
    split at hb
    · cases hb
    · have hmask : m.paMask = 0xffffffff := by rw [Memory.paMask, hm.sizeInBits]; rfl
      rw [hmask] at hb
      have hlow : (x.address &&& 0xffffffff).toNat < 2 ^ 32 := Memory.low32_lt x.address
      obtain ⟨-, hlt⟩ := PhysicalMemory.toNat_of_mem_span hb (by omega)
      rw [BitVec.le_def]
      have hlast : lastRamByte.toNat = 2 ^ 32 + 30 := rfl
      omega
  · cases hb

/-- A configured DRAM range constrains exactly the accesses that stay inside it anyway: of all
    ranges, those that leave out no byte an access can reach. -/
theorem dram_range_constrains_iff (lo hi : U64) :
    (∀ (simCfg : SimConfig) (host : Host) (m : Memory),
      Memory.Reached (init (simCfg.setAddressRange lo hi) host).memory m →
      ∀ x : Access, x.Constrained lo hi m ↔ ∀ b ∈ x.ramBytes m, lo ≤ b ∧ b ≤ hi) ∧
    ((∀ (simCfg : SimConfig) (host : Host) (m : Memory),
      Memory.Reached (init (simCfg.setAddressRange lo hi) host).memory m →
      ∀ x : Access, x.Constrained lo hi m) ↔ lo = 0 ∧ lastRamByte ≤ hi) := by
  have hdefault : ∀ (simCfg : SimConfig) (host : Host) (m : Memory),
      Memory.Reached (init (simCfg.setAddressRange lo hi) host).memory m → m.DefaultRange :=
    fun simCfg host m hm => (init_defaultRange _ host).of_same hm.sameRange
  refine ⟨fun simCfg host m hm x => Access.constrained_iff (hdefault simCfg host m hm) x,
    fun hall => ?_, fun ⟨hlo, hhi⟩ simCfg host m hm x => ?_⟩
  · -- the first byte of the space, and the last an access can reach
    have hreach := fun x => (Access.constrained_iff
      (hdefault {} (.simple 0 [] {}) _ .start) x).mp (hall {} (.simple 0 [] {}) _ .start x)
    have hsame : (init (({} : SimConfig).setAddressRange lo hi) (.simple 0 [] {})).memory
        = (init {} (.simple 0 [] {})).memory := rfl
    rw [hsame] at hreach
    have hfirst := (hreach (.read 0 1 [] false) 0 (by decide)).1
    have hlast := (hreach (.read 0xffffffff 32 [] false) lastRamByte (by decide)).2
    exact ⟨BitVec.le_antisymm hfirst (BitVec.le_def.mpr (Nat.zero_le _)), hlast⟩
  · refine (Access.constrained_iff (hdefault simCfg host m hm) x).mpr fun b hb => ⟨?_, ?_⟩
    · rw [hlo]
      exact BitVec.le_def.mpr (Nat.zero_le _)
    · exact BitVec.le_trans (ramBytes_le_last (hdefault simCfg host m hm) hb) hhi

/-- The range 0..0x10000001e refuses nothing, and has nothing to refuse. -/
theorem dram_range_constrains_all :
    (Access.read 0xffffffff 32 [] true).Constrained 0 lastRamByte
      (init (({} : SimConfig).setAddressRange 0 lastRamByte) (.simple 0 [] {})).memory :=
  (dram_range_constrains_iff 0 lastRamByte).2.mpr ⟨rfl, BitVec.le_refl _⟩ {} (.simple 0 [] {}) _
    .start _

/-- With `dram_range` 0x80000000..0x8fffffff the word at address 0 is read. -/
theorem dram_range_does_not_constrain :
    let m := (init (({} : SimConfig).setAddressRange 0x80000000 0x8fffffff) (.simple 0 [] {})).memory
    (∃ rcode m', (Access.read 0 4 [] true).perform.run m = .ok rcode m') ∧
      ¬ (Access.read 0 4 [] true).Constrained 0x80000000 0x8fffffff m := by
  intro m
  have hm : m.DefaultRange := init_defaultRange _ _
  refine ⟨Access.perform_ok hm (by decide), fun hc => ?_⟩
  have hout := (Access.constrained_iff hm _).mp hc 0 (by decide)
  exact absurd hout.1 (by decide)

end RiscvSimulator

end Dimebox
