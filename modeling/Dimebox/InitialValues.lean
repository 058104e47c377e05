import Dimebox.LongAccess
import Dimebox.RamFrame

/-! The initial values of loaded bytes.

    A block keeps a second array with the values it had at first, for files that are written later.
    It is filled at random when the block is allocated, and a write goes to it only if it says so.
    `Load` says so for the full blocks of a section and not for the rest of it: the last bytes of a
    section whose size is no multiple of 32 keep a random initial value. -/

namespace Dimebox

namespace MemBlock

/-- The initial value of byte `i`, once the block is allocated. -/
def initial (b : MemBlock) (i : Nat) : Option Byte := b.mptrInit.map (· i)

/-- One turn of the loop of `AllocateInitBlock`. -/
def fill (b : MemBlock) (acc : (Nat → Byte) × Oracle) (i : Nat) : (Nat → Byte) × Oracle :=
  (Function.update acc.1 i (b.nextInitialByte acc.2).1, (b.nextInitialByte acc.2).2)

theorem allocateInitBlock_of_none {b : MemBlock} (h : b.mptrInit = none) (o : Oracle) :
    allocateInitBlock (b, o) =
      let r := (List.range 32).foldl b.fill
        (fun i => o.heap (32 * o.allocs + i), { o with allocs := o.allocs + 1 })
      ({ b with mptrInit := some r.1 }, r.2) := by
  rw [allocateInitBlock, h]
  rfl

/-- The loop draws a byte for every index. -/
theorem fill_foldl {b : MemBlock} (hb : b.initialByteValue = 0x100) (l : List Nat)
    (acc : (Nat → Byte) × Oracle) : (l.foldl b.fill acc).2.rand = acc.2.rand ∧
      ∀ i ∈ l, ∃ k, (l.foldl b.fill acc).1 i = acc.2.rand k := by
  induction l using List.reverseRecOn with
  | nil => exact ⟨rfl, fun i hi => absurd hi List.not_mem_nil⟩
  | append_singleton l j ih =>
    obtain ⟨hrand, hdrawn⟩ := ih
    rw [List.foldl_append, List.foldl_cons, List.foldl_nil, fill, nextInitialByte, if_pos hb]
    refine ⟨hrand, fun i hi => ?_⟩
    by_cases hij : i = j
    · refine ⟨(l.foldl b.fill acc).2.draws, ?_⟩
      dsimp only
      rw [hij, Function.update_self, hrand]
    · have hmem : i ∈ l := by simpa [hij] using hi
      dsimp only
      rw [Function.update_of_ne hij]
      exact hdrawn i hmem

/-- What allocation does to the initial values: those of a block that had none are drawn. -/
theorem initial_allocate {b : MemBlock} (hb : b.initialByteValue = 0x100) (o : Oracle) :
    (allocate (b, o)).1.initialByteValue = 0x100 ∧ (allocate (b, o)).2.rand = o.rand ∧
      ∀ i < 32, (allocate (b, o)).1.initial i = b.initial i ∨
        b.initial i = none ∧ ∃ k, (allocate (b, o)).1.initial i = some (o.rand k) := by
  obtain ⟨b', o', hbo, hvalue, hinit, hrand⟩ : ∃ b' o', allocateBlock (b, o) = (b', o') ∧
      b'.initialByteValue = 0x100 ∧ b'.mptrInit = b.mptrInit ∧ o'.rand = o.rand := by
    rw [allocateBlock]
    cases b.mptr with
    | some _ => exact ⟨b, o, rfl, hb, rfl, rfl⟩
    | none => exact ⟨_, _, rfl, hb, rfl, rfl⟩
  have hinitial : ∀ i, b'.initial i = b.initial i := fun i => by rw [initial, initial, hinit]
  rw [allocate, hbo]
  cases hb' : b'.mptrInit with
  | some f =>
    have hkeep : allocateInitBlock (b', o') = (b', o') := by rw [allocateInitBlock, hb']
    rw [hkeep]
    exact ⟨hvalue, hrand, fun i _ => .inl (hinitial i)⟩
  | none =>
    have hfill := fill_foldl hvalue (List.range 32)
      (fun i => o'.heap (32 * o'.allocs + i), { o' with allocs := o'.allocs + 1 })
    rw [allocateInitBlock_of_none hb']
    refine ⟨hvalue, hfill.1.trans hrand, fun i hi => .inr ⟨?_, ?_⟩⟩
    · rw [initial, ← hinit, hb']
      rfl
    · obtain ⟨k, hk⟩ := hfill.2 i (List.mem_range.mpr hi)
      rw [← hrand]
      exact ⟨k, congrArg some hk⟩

theorem initial_writeByte {b : MemBlock} (hb : b.Allocated) (i : Nat) (v : Byte) (iv : Bool) (j : Nat) :
    (b.writeByte i v iv).initial j = if iv = true ∧ j = i then some v else b.initial j := by
  obtain ⟨f, hf⟩ := Option.isSome_iff_exists.mp hb.2
  cases iv with
  | false => simp [writeByte, initial]
  | true =>
    rw [initial, writeByte, initial, hf]
    by_cases hj : j = i
    · simp [hj]
    · simp [hj]

end MemBlock

namespace PhysicalMemory

/-! ### What is recorded -/

/-- The initial value of a byte, once its block is allocated. -/
def initialAt (p : PhysicalMemory) (b : U64) : Option Byte :=
  (p.blockAt (MemBlock.blockAddress b)).initial (MemBlock.offset b)

/-- The initial values of all blocks are drawn. -/
def Random (p : PhysicalMemory) : Prop := ∀ B, (p.blockAt B).initialByteValue = 0x100

/-- The bytes `f` says are recorded; others have the initial value they had, or one that has been
    drawn if there was none. -/
structure Recorded (f : U64 → Option Byte) (p p' : PhysicalMemory) : Prop where
  random : Random p'
  rand : p'.oracle.rand = p.oracle.rand
  covered : ∀ b v, f b = some v → p'.initialAt b = some v
  other : ∀ b, f b = none → p'.initialAt b = p.initialAt b ∨
    p.initialAt b = none ∧ ∃ k, p'.initialAt b = some (p.oracle.rand k)

theorem Recorded.refl {p : PhysicalMemory} (hp : Random p) : Recorded (fun _ => none) p p :=
  ⟨hp, rfl, fun _ _ h => (Option.some_ne_none _ h.symm).elim, fun _ _ => .inl rfl⟩

theorem Recorded.overlaid {f : U64 → Option Byte} {p p' : PhysicalMemory} (h : Recorded f p p') :
    Cells.Overlaid p.oracle.rand f p.initialAt p'.initialAt := ⟨h.covered, h.other⟩

/-- The later record wins. -/
theorem Recorded.trans {f g : U64 → Option Byte} {p p₁ p' : PhysicalMemory} (h : Recorded f p p₁)
    (h' : Recorded g p₁ p') : Recorded (fun b => (g b).or (f b)) p p' := by
  have hlater := h'.overlaid
  rw [h.rand] at hlater
  have hboth := h.overlaid.trans hlater
  exact ⟨h'.random, h'.rand.trans h.rand, hboth.covered, hboth.other⟩

/-- A recorded value stays. -/
theorem Recorded.keeps {p p' : PhysicalMemory} (h : Recorded (fun _ => none) p p') {b : U64}
    {v : Byte} (hv : p.initialAt b = some v) : p'.initialAt b = some v := h.overlaid.keeps rfl hv

theorem recorded_touch {p : PhysicalMemory} (hp : Random p) (a : U64) :
    Recorded (fun _ => none) p (p.touch a) := by
  obtain ⟨hvalue, hrand, hinitial⟩ :=
    MemBlock.initial_allocate (hp (MemBlock.blockAddress a)) p.oracle
  refine ⟨fun B => ?_, hrand, fun _ _ h => (Option.some_ne_none _ h.symm).elim, fun b _ => ?_⟩
  · by_cases hB : B = MemBlock.blockAddress a
    · rw [hB, touch, blockAt_putBlock_self]
      exact hvalue
    · rw [touch, blockAt_putBlock_ne _ hB]
      exact hp B
  · by_cases hb : MemBlock.blockAddress b = MemBlock.blockAddress a
    · rw [initialAt, initialAt, hb, touch, blockAt_putBlock_self]
      exact hinitial _ (MemBlock.offset_lt b)
    · rw [initialAt, touch, blockAt_putBlock_ne _ hb]
      exact .inl rfl

theorem recorded_putByte {p : PhysicalMemory} (hp : Random p) (a : U64) (v : Byte) (iv : Bool) :
    Recorded (fun b => if iv = true ∧ b = a then some v else none) p (p.putByte a v iv) := by
  have htouch := recorded_touch hp a
  have hinitial : ∀ b, (p.putByte a v iv).initialAt b =
      if iv = true ∧ b = a then some v else (p.touch a).initialAt b := by
    intro b
    rw [putByte, initialAt]
    by_cases hb : MemBlock.blockAddress b = MemBlock.blockAddress a
    · have hiff : MemBlock.offset b = MemBlock.offset a ↔ b = a :=
        ⟨MemBlock.blockAddress_offset_inj hb, fun h => h ▸ rfl⟩
      rw [hb, blockAt_putBlock_self, MemBlock.initial_writeByte (allocated_touch p a)]
      simp only [hiff, initialAt, hb]
    · have hne : b ≠ a := fun h => hb (h ▸ rfl)
      rw [blockAt_putBlock_ne _ hb, if_neg fun h => hne h.2]
      rfl
  refine ⟨fun B => ?_, htouch.rand, fun b w hb => ?_, fun b hb => ?_⟩
  · by_cases hB : B = MemBlock.blockAddress a
    · rw [putByte, hB, blockAt_putBlock_self]
      exact htouch.random _
    · rw [putByte, blockAt_putBlock_ne _ hB]
      exact htouch.random B
  · rw [hinitial]
    split_ifs at hb ⊢
    exact hb
  · rw [hinitial]
    split_ifs at hb ⊢
    exact htouch.other b rfl

/-- A run of bytes that says so is recorded. -/
theorem recorded_putBytes_true {p : PhysicalMemory} (hp : Random p) (buf : List Byte) (a : U64)
    (h : a.toNat + buf.length < 2 ^ 64) : Recorded (bytesAt a buf) p (p.putBytes a true buf) := by
  induction buf generalizing p a with
  | nil =>
    have hnil : bytesAt a [] = fun _ => none := funext fun b => bytesAt_nil a b
    rw [hnil]
    exact .refl hp
  | cons v buf ih =>
    rw [List.length_cons] at h
    have hsucc : (a + 1).toNat = a.toNat + 1 := by
      rw [MemBlock.toNat_succ, Nat.mod_eq_of_lt (by omega)]
    have hsplit : bytesAt a (v :: buf) = fun b =>
        (bytesAt (a + 1) buf b).or (if true = true ∧ b = a then some v else none) := by
      funext b
      rw [bytesAt_cons v buf (by omega)]
      simp
    have hfirst := recorded_putByte hp a v true
    rw [hsplit]
    exact hfirst.trans (ih hfirst.random (a + 1) (by rw [hsucc]; omega))

/-- Another one changes no initial value. -/
theorem recorded_putBytes_false {p : PhysicalMemory} (hp : Random p) (buf : List Byte) (a : U64) :
    Recorded (fun _ => none) p (p.putBytes a false buf) := by
  induction buf generalizing p a with
  | nil => exact .refl hp
  | cons v buf ih =>
    have hfirst := recorded_putByte hp a v false
    have hnone : (fun b => if false = true ∧ b = a then some v else none) = fun _ => none := by
      funext b
      simp
    rw [hnone] at hfirst
    exact hfirst.trans (ih hfirst.random (a + 1))

/-- `ReadInitialState` of the block of `b`, as data, has `v` for it. -/
def HoldsInitially (p : PhysicalMemory) (b : U64) (v : Byte) : Prop :=
  ∃ bytes, (p.blockAt (MemBlock.blockAddress b)).readInitialState (MemBlock.blockAddress b) true =
    .ok bytes ∧ bytes[MemBlock.offset b]? = some v

theorem holdsInitially_iff {p : PhysicalMemory} {b : U64} {v : Byte} :
    p.HoldsInitially b v ↔ p.initialAt b = some v := by
  have haligned : ¬ MemBlock.offset (MemBlock.blockAddress b) ≠ 0 := not_not.mpr (offset_blockAddress b)
  rw [HoldsInitially, initialAt, MemBlock.initial, MemBlock.readInitialState, if_neg haligned,
    if_pos rfl]
  cases (p.blockAt (MemBlock.blockAddress b)).mptrInit with
  | none => simp
  | some f => simp [List.getElem?_range (MemBlock.offset_lt b)]

end PhysicalMemory

namespace Elfio

open ElfSection (lastByte taken)
open PhysicalMemory (Recorded Random HoldsInitially bytesAt)

/-- The part of a section that is written in full blocks. -/
def wholeBlocks (s : ElfSection) : ElfSection :=
  { s with
    size := 32 * (s.bytes.length / 32)
    chunks := [s.bytes.take (32 * (s.bytes.length / 32))] }

/-! ### What loading records -/

theorem recorded_putSection {p : PhysicalMemory} (hp : Random p) {a : U64} {data : List Byte}
    (hbound : a.toNat + data.length ≤ 2 ^ 32) :
    Recorded (bytesAt a (data.take (32 * (data.length / 32)))) p (putSection p a data) := by
  have hlen : (data.take (32 * (data.length / 32))).length ≤ data.length := by
    rw [List.length_take]
    omega
  have hblocks := PhysicalMemory.recorded_putBytes_true hp (data.take (32 * (data.length / 32))) a
    (by omega)
  have hrest := PhysicalMemory.recorded_putBytes_false hblocks.random
    (data.drop (32 * (data.length / 32))) (a + BitVec.ofNat 64 (32 * (data.length / 32)))
  exact hblocks.trans hrest

theorem recorded_loadInto {m : Memory} {s : ElfSection} (hready : Ready m s) {p : PhysicalMemory}
    (hp : Random p) :
    Recorded (lastByte (([s].filter taken).map wholeBlocks)) p (loadInto p s) := by
  rw [loadInto]
  by_cases htake : s.taken = true
  · have hbytes : (wholeBlocks s).bytes = s.bytes.take (32 * (s.bytes.length / 32)) :=
      List.append_nil _
    have hone : lastByte (([s].filter taken).map wholeBlocks) =
        bytesAt s.address (s.bytes.take (32 * (s.bytes.length / 32))) := by
      funext b
      rw [List.filter_cons, if_pos htake, ← hbytes]
      exact Option.none_or
    rw [if_pos htake, hone]
    rw [ElfSection.taken, Bool.and_eq_true] at htake
    rcases (hready htake.1).1 with hload | hnil
    · have hbound : s.address.toNat + s.bytes.length ≤ 2 ^ 32 := by
        rw [hload.delivered]
        exact hload.bound
      exact recorded_putSection hp hbound
    · have hbytes : s.bytes = [] := by rw [ElfSection.bytes, hnil, List.flatten_nil]
      have hnone : bytesAt s.address [] = fun _ => none :=
        funext fun b => PhysicalMemory.bytesAt_nil _ b
      rw [hbytes, putSection_nil, List.take_nil, hnone]
      exact .refl hp
  · rw [if_neg htake, List.filter_cons, if_neg htake]
    exact .refl hp

/-- The sections one over the other. -/
theorem recorded_foldl {m : Memory} {ss : List ElfSection} (hready : ∀ s ∈ ss, Ready m s)
    {p : PhysicalMemory} (hp : Random p) :
    Recorded (lastByte ((ss.filter taken).map wholeBlocks)) p (ss.foldl loadInto p) := by
  induction ss generalizing p with
  | nil => exact .refl hp
  | cons s ss ih =>
    have hsplit : lastByte (((s :: ss).filter taken).map wholeBlocks) = fun b =>
        (lastByte ((ss.filter taken).map wholeBlocks) b).or
          (lastByte (([s].filter taken).map wholeBlocks) b) := by
      funext b
      rw [← List.singleton_append, List.filter_append, List.map_append, ElfSection.lastByte_append]
    have hfirst := recorded_loadInto (hready s List.mem_cons_self) hp
    rw [hsplit]
    exact hfirst.trans (ih (fun t ht => hready t (List.mem_cons_of_mem _ ht)) hfirst.random)

/-! ### What guest stores do to it -/

/-- The stores of the guest return, and change no initial value. -/
theorem writebackOps_recorded (stores : List MemoryAccess) {m : Memory} (hm : m.RamOnly)
    (hp : Random m.physMem) (hsized : ∀ a ∈ stores, a.WellSized) :
    ∃ m', (writebackOps stores).run m = .ok () m' ∧
      Recorded (fun _ => none) m.physMem m'.physMem := by
  induction stores generalizing m with
  | nil => exact ⟨m, rfl, .refl hp⟩
  | cons a stores ih =>
    obtain ⟨hpos, hle, hbuf⟩ := hsized a List.mem_cons_self
    have hrest := fun b hb => hsized b (List.mem_cons_of_mem _ hb)
    rw [writebackOps]
    by_cases hw : a.isWrite
    · have hstored := PhysicalMemory.recorded_putBytes_false hp (a.membuffer.take a.size)
        (Memory.low32 a.address)
      obtain ⟨m', hrun, hrecorded⟩ := ih (hm.withPhysMem _) hstored.random hrest
      refine ⟨m', ?_, hstored.trans hrecorded⟩
      rw [if_pos hw, EStateM.run_bind, Memory.writeMemory_run hm.toDefaultRange
        (hm.deviceAt _) hpos (by omega) (Nat.le_of_eq (hbuf hw).symm)]
      exact hrun
    · obtain ⟨m', hrun, hrecorded⟩ := ih hm hp hrest
      refine ⟨m', ?_, hrecorded⟩
      rw [if_neg hw]
      exact hrun

/-! ### Loaded bytes as initial values -/

/-- `Load` into an empty memory returns 0, whatever `rand` draws, and then and after all stores of the
    guest every loaded byte is the initial value of its address. -/
def InitiallyLoaded (file : LoadableFile) : Prop :=
  ∀ (o : Oracle) (stores : List MemoryAccess), (∀ a ∈ stores, a.WellSized) → ∃ m m',
    (load file.toElfFile).run (.empty o) = .ok 0 m ∧ (writebackOps stores).run m = .ok () m' ∧
      ∀ b v, lastByte (counted file) b = some v → m'.physMem.HoldsInitially b v

/-- The names that are read fit, and the last byte loaded for an address is also the last one that is
    loaded with a full block. -/
structure LoadedInBlocks (file : LoadableFile) : Prop where
  names : ∀ s ∈ file.sections.take file.shnum, s.name.length < sectionNameSize
  bytes : ∀ b v, lastByte (counted file) b = some v →
    lastByte ((counted file).map wholeBlocks) b = some v

variable {file : LoadableFile}

theorem random_empty (o : Oracle) : Random (Memory.empty o).physMem := fun _ => rfl

theorem ready_empty (file : LoadableFile) (o : Oracle) : ∀ s ∈ file.sections, Ready (.empty o) s :=
  ready_of_noDevice fun _ _ _ _ => Memory.deviceAt_nil rfl _

theorem names_of_initiallyLoaded (h : InitiallyLoaded file) :
    ∀ s ∈ file.sections.take file.shnum, s.name.length < sectionNameSize := by
  obtain ⟨m, m', hload, -⟩ := h Memory.counting [] (by simp)
  by_contra hlong
  push Not at hlong
  obtain ⟨m'', herror⟩ := loadSections_overflow (Memory.ramOnly_empty Memory.counting).toDefaultRange
    (ready_empty file _) hlong 0
  rw [load, loadAt, herror] at hload
  cases hload

/-- A byte that is loaded with no full block has an initial value `rand` drew. -/
theorem bytes_of_initiallyLoaded (h : InitiallyLoaded file) {b : U64} {v : Byte}
    (hb : lastByte (counted file) b = some v) :
    lastByte ((counted file).map wholeBlocks) b = some v := by
  let o : Oracle := { rand := fun _ => v + 1, heap := fun _ => 0 }
  obtain ⟨m, m', hload, hstores, hheld⟩ := h o [] (by simp)
  obtain rfl : m' = m := by cases hstores; rfl
  have hready := ready_empty file o
  have hcounted : ∀ s ∈ file.sections.take file.shnum, Ready (.empty o) s :=
    fun s hs => hready s (List.mem_of_mem_take hs)
  have hrecorded := recorded_foldl hcounted (random_empty o)
  have hrun := loadSections_eq (Memory.ramOnly_empty o).toDefaultRange file.shnum hready
    (names_of_initiallyLoaded h) 0
  rw [load, loadAt, hrun] at hload
  cases hload
  have hinitial := PhysicalMemory.holdsInitially_iff.mp (hheld b v hb)
  cases hwhole : lastByte ((counted file).map wholeBlocks) b with
  | some w => rw [← hinitial, hrecorded.covered b w hwhole]
  | none =>
    rcases hrecorded.other b hwhole with hsame | ⟨-, k, hk⟩
    · rw [hsame] at hinitial
      cases hinitial
    · rw [hk] at hinitial
      have hnext : v + 1 = v := Option.some.inj hinitial
      have hne : v + 1 ≠ v := by
        intro heq
        have htoNat := congrArg BitVec.toNat heq
        have hone : (1 : Byte).toNat = 1 := rfl
        rw [BitVec.toNat_add] at htoNat
        have hlt := v.isLt
        omega
      exact absurd hnext hne

/-- For every loadable file: its bytes are the initial values of memory, and remain so, if and only
    if it is loaded in full blocks. -/
theorem loaded_bytes_initial_iff (file : LoadableFile) :
    InitiallyLoaded file ↔ LoadedInBlocks file := by
  constructor
  · exact fun h => ⟨names_of_initiallyLoaded h, fun b v hb => bytes_of_initiallyLoaded h hb⟩
  · intro ⟨hnames, hbytes⟩ o stores hsized
    have hready := ready_empty file o
    have hcounted : ∀ s ∈ file.sections.take file.shnum, Ready (.empty o) s :=
      fun s hs => hready s (List.mem_of_mem_take hs)
    have hrecorded := recorded_foldl hcounted (random_empty o)
    have hrun := loadSections_eq (Memory.ramOnly_empty o).toDefaultRange file.shnum hready hnames 0
    obtain ⟨m', hstores, hkept⟩ := writebackOps_recorded stores
      ((Memory.ramOnly_empty o).withPhysMem _) hrecorded.random hsized
    exact ⟨_, m', hrun, hstores, fun b v hb => PhysicalMemory.holdsInitially_iff.mpr
      (hkept.keeps (hrecorded.covered b v (hbytes b v hb)))⟩

/-- One instruction of four bytes. -/
theorem instruction_not_initial : ¬ ∀ file : LoadableFile,
    (∀ s ∈ file.sections, s.name.length < sectionNameSize) → InitiallyLoaded file := by
  intro h
  have hloaded := h oneInstruction (by decide)
  have hbyte : lastByte (counted oneInstruction) 0x80000000 = some 0x13 := by decide
  have hnone : lastByte ((counted oneInstruction).map wholeBlocks) 0x80000000 = none := by decide
  have hwhole := bytes_of_initiallyLoaded hloaded hbyte
  rw [hnone] at hwhole
  cases hwhole

end Elfio

end Dimebox
