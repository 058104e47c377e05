import Dimebox.AddressRange
import Dimebox.InitialValues
import Dimebox.OperandFields

/-! Sections without contents in the file.

    A section of type NOBITS counts as data, but the loop that sizes contents stops on the null
    buffer libelf has for it: it looks empty, and `Load` passes it. Nothing is written to its
    addresses, so what is read there is what another section of the file or an earlier image put
    there, and a byte `rand` drew if nothing did. -/

namespace Dimebox

namespace MemBlock

/-- The initial values are drawn, and not before the block itself is allocated. -/
structure Drawn (b : MemBlock) : Prop where
  random : b.initialByteValue = 0x100
  together : b.mptr = none → b.mptrInit = none

/-- A byte with no value has not been written and has no initial value. -/
theorem open_of_seen {b : MemBlock} (hb : b.Drawn) {i : Nat} (h : b.seen i = none) :
    b.isDefined i = false ∧ b.initial i = none := by
  cases hm : b.mptr with
  | none => exact ⟨by simp [isDefined, hm], by rw [initial, hb.together hm, Option.map_none]⟩
  | some mem =>
    rw [seen, hm, Option.bind_some] at h
    by_cases hfree : b.byteIsFree i
    · rw [if_pos hfree] at h
      exact ⟨by simp [isDefined, hfree], h⟩
    · rw [if_neg hfree] at h
      cases h

/-- Allocation draws a value for every byte that had none. -/
theorem seen_allocate_cases {b : MemBlock} (hb : b.Drawn) (o : Oracle) {i : Nat} (hi : i < 32) :
    (allocate (b, o)).1.seen i = b.seen i ∨
      b.seen i = none ∧ ∃ k, (allocate (b, o)).1.seen i = some (o.rand k) := by
  cases hs : b.seen i with
  | some v => exact .inl (seen_allocate hs)
  | none =>
    obtain ⟨hundef, hnone⟩ := open_of_seen hb hs
    have halloc := allocated_allocate (b, o)
    obtain ⟨mem, hmem⟩ := Option.isSome_iff_exists.mp halloc.1
    have hfree : (allocate (b, o)).1.byteIsFree i = true := by
      rw [← isDefined_allocate b o hi, isDefined, hmem] at hundef
      simpa using hundef
    have hseen : (allocate (b, o)).1.seen i = (allocate (b, o)).1.initial i := by
      rw [seen, hmem, Option.bind_some, if_pos hfree, initial]
    rcases (initial_allocate hb.random o).2.2 i hi with hsame | ⟨-, k, hk⟩
    · rw [hnone, initial, Option.map_eq_none_iff] at hsame
      rw [Allocated, hsame] at halloc
      cases halloc.2
    · exact .inr ⟨rfl, k, hseen.trans hk⟩

theorem Drawn.of_allocated {b : MemBlock} (h : b.Allocated) (hvalue : b.initialByteValue = 0x100) :
    b.Drawn := by
  refine ⟨hvalue, fun hnone => ?_⟩
  rw [Allocated, hnone] at h
  cases h.1

end MemBlock

namespace PhysicalMemory

/-! ### What is stored -/

/-- All blocks are drawn. -/
def Drawn (p : PhysicalMemory) : Prop := ∀ B, (p.blockAt B).Drawn

/-- The bytes `f` says are stored; others keep their values, or have one that was drawn if they had
    none. -/
structure Stored (f : U64 → Option Byte) (p p' : PhysicalMemory) : Prop where
  drawn : Drawn p'
  rand : p'.oracle.rand = p.oracle.rand
  overlaid : Cells.Overlaid p.oracle.rand f p.seen p'.seen

theorem Stored.refl {p : PhysicalMemory} (hp : Drawn p) : Stored (fun _ => none) p p :=
  ⟨hp, rfl, .refl _ _⟩

/-- The later byte wins. -/
theorem Stored.trans {f g : U64 → Option Byte} {p p₁ p' : PhysicalMemory} (h : Stored f p p₁)
    (h' : Stored g p₁ p') : Stored (fun b => (g b).or (f b)) p p' := by
  have hlater := h'.overlaid
  rw [h.rand] at hlater
  exact ⟨h'.drawn, h'.rand.trans h.rand, h.overlaid.trans hlater⟩

theorem stored_touch {p : PhysicalMemory} (hp : Drawn p) (a : U64) :
    Stored (fun _ => none) p (p.touch a) := by
  obtain ⟨hvalue, hrand, -⟩ :=
    MemBlock.initial_allocate (hp (MemBlock.blockAddress a)).random p.oracle
  refine ⟨fun B => ?_, hrand, fun _ _ h => (Option.some_ne_none _ h.symm).elim, fun b _ => ?_⟩
  · by_cases hB : B = MemBlock.blockAddress a
    · rw [hB]
      refine .of_allocated (allocated_touch p a) ?_
      rw [touch, blockAt_putBlock_self]
      exact hvalue
    · rw [touch, blockAt_putBlock_ne _ hB]
      exact hp B
  · by_cases hb : MemBlock.blockAddress b = MemBlock.blockAddress a
    · rw [seen, seen, hb, touch, blockAt_putBlock_self]
      exact MemBlock.seen_allocate_cases (hp _) p.oracle (MemBlock.offset_lt b)
    · rw [seen, touch, blockAt_putBlock_ne _ hb]
      exact .inl rfl

theorem stored_putByte {p : PhysicalMemory} (hp : Drawn p) (a : U64) (v : Byte) (iv : Bool) :
    Stored (fun b => if b = a then some v else none) p (p.putByte a v iv) := by
  have htouch := stored_touch hp a
  refine ⟨fun B => ?_, htouch.rand, fun b w hb => ?_, fun b hb => ?_⟩
  · by_cases hB : B = MemBlock.blockAddress a
    · rw [putByte, hB, blockAt_putBlock_self]
      exact .of_allocated ((allocated_touch p a).writeByte _ v iv) (htouch.drawn _).random
    · rw [putByte, blockAt_putBlock_ne _ hB]
      exact htouch.drawn B
  · rw [seen_putByte]
    split_ifs at hb ⊢
    exact hb
  · rw [seen_putByte]
    split_ifs at hb ⊢
    exact htouch.overlaid.other b rfl

theorem stored_putBytes (iv : Bool) (buf : List Byte) {p : PhysicalMemory} (hp : Drawn p) (a : U64)
    (h : a.toNat + buf.length < 2 ^ 64) : Stored (bytesAt a buf) p (p.putBytes a iv buf) := by
  induction buf generalizing p a with
  | nil =>
    have hnil : bytesAt a [] = fun _ => none := funext fun b => bytesAt_nil a b
    rw [hnil]
    exact .refl hp
  | cons v buf ih =>
    rw [List.length_cons] at h
    have hsucc : (a + 1).toNat = a.toNat + 1 := by
      rw [MemBlock.toNat_succ, Nat.mod_eq_of_lt (by omega)]
    have hsplit : bytesAt a (v :: buf) = fun b =>
        (bytesAt (a + 1) buf b).or (if b = a then some v else none) :=
      funext fun b => bytesAt_cons v buf (by omega) b
    have hfirst := stored_putByte hp a v iv
    rw [hsplit]
    exact hfirst.trans (ih hfirst.drawn (a + 1) (by rw [hsucc]; omega))

/-- What is read afterwards: the byte stored, else the one that was there, else a drawn one. -/
theorem Stored.byteAt_cases {f : U64 → Option Byte} {p p' : PhysicalMemory} (h : Stored f p p')
    (b : U64) : (f b).or (p.seen b) = some (p'.byteAt b) ∨
      (f b).or (p.seen b) = none ∧ ∃ k, p'.byteAt b = p.oracle.rand k := by
  have hread := (h.trans (stored_touch h.drawn b)).overlaid
  have hseen := seen_touch_self p' b
  cases hf : f b with
  | some v =>
    rw [hread.covered b v hf] at hseen
    exact .inl hseen
  | none =>
    rcases hread.other b hf with hsame | ⟨hnone, k, hk⟩
    · exact .inl (hsame.symm.trans hseen)
    · rw [hk] at hseen
      exact .inr ⟨hnone, k, (Option.some.inj hseen).symm⟩

end PhysicalMemory

namespace ElfSection

/-! ### The writes of a section -/

/-- The bytes `Load` writes of the section. -/
def loadedBytes (s : ElfSection) : List Byte := s.sectionData.take s.sizeInBytes.toNat

/-- The `k`-th of these writes, up to a block; its start is reduced to the 32-bit space. -/
def piece (s : ElfSection) (k : Nat) : ElfSection :=
  let data := (s.loadedBytes.drop (32 * k)).take 32
  { s with
    address := Memory.low32 (Memory.low32 s.address + BitVec.ofNat 64 (32 * k))
    size := data.length
    chunks := [data] }

/-- All of them. -/
def pieces (s : ElfSection) : List ElfSection :=
  if s.isContents then (List.range ((s.loadedBytes.length + 31) / 32)).map s.piece else []

theorem toInt_le (n : Nat) : toInt n ≤ n := by
  rw [toInt, BitVec.toInt_ofInt, Int.bmod_eq_emod]
  split <;> omega

/-- The buffer has all bytes that are counted. -/
theorem sizeInBytes_le (s : ElfSection) : s.sizeInBytes ≤ s.sectionData.length := by
  rw [sizeInBytes, sectionData]
  rcases readChunks_cases s.size s.chunks [] with hall | ⟨n, hn, -, hpart⟩
  · have hread : readChunks s.size s.chunks 0 [] = (toInt s.chunks.flatten.length, s.chunks.flatten) :=
      hall
    rw [hread]
    exact toInt_le _
  · have hread : readChunks s.size s.chunks 0 [] = (toInt n, s.chunks.flatten.take n) := hpart
    have hlen : (s.chunks.flatten.take n).length = n := List.length_take_of_le hn
    rw [hread]
    dsimp only
    rw [hlen]
    exact toInt_le n

theorem length_loadedBytes (s : ElfSection) : s.loadedBytes.length = s.sizeInBytes.toNat := by
  have hle := s.sizeInBytes_le
  exact List.length_take_of_le (by omega)

theorem pieces_of_passed {s : ElfSection} (h : ¬ (s.isContents = true ∧ 0 < s.sizeInBytes)) :
    s.pieces = [] := by
  rw [pieces]
  split_ifs with hcontents
  · have hle : s.sizeInBytes ≤ 0 := Int.not_lt.mp fun hpos => h ⟨hcontents, hpos⟩
    rw [length_loadedBytes, Int.toNat_of_nonpos hle]
    rfl
  · rfl

/-- A section with no buffer is not written. -/
theorem pieces_of_nil {s : ElfSection} (h : s.chunks = []) : s.pieces = [] := by
  refine pieces_of_passed fun hpass => ?_
  rw [sizeInBytes_of_nil h] at hpass
  exact absurd hpass.2 (Int.lt_irrefl 0)

/-- The full blocks of a section, and the rest if there is one. -/
theorem pieces_of_contents {s : ElfSection} (h : s.isContents = true) :
    s.pieces = (List.range' 0 (s.loadedBytes.length / 32)).map s.piece ++
      if 0 < s.loadedBytes.length % 32 then [s.piece (s.loadedBytes.length / 32)] else [] := by
  rw [pieces, if_pos h, ← List.range_eq_range']
  split_ifs with hrest
  · have hcount : (s.loadedBytes.length + 31) / 32 = s.loadedBytes.length / 32 + 1 := by omega
    rw [hcount, List.range_succ, List.map_append, List.map_singleton]
  · have hcount : (s.loadedBytes.length + 31) / 32 = s.loadedBytes.length / 32 := by omega
    rw [hcount, List.append_nil]

end ElfSection

namespace Memory

open ElfSection (lastByte)

/-- The last byte the writes put at an address; what starts in a device window goes to the device. -/
def lastStored (m : Memory) (ps : List ElfSection) (b : U64) : Option Byte :=
  lastByte (ps.filter fun p => (m.deviceAt p.address).isNone) b

/-- The bytes `f` says are stored in RAM, and the same addresses are RAM as before. -/
structure Stored (f : U64 → Option Byte) (m m' : Memory) : Prop extends SameMap m m' where
  range : SameRange m m'
  store : PhysicalMemory.Stored f m.physMem m'.physMem

theorem Stored.refl {m : Memory} (hd : m.physMem.Drawn) : Stored (fun _ => none) m m :=
  ⟨.refl m, .refl m, .refl hd⟩

theorem Stored.trans {f g : U64 → Option Byte} {m m₁ m' : Memory} (h : Stored f m m₁)
    (h' : Stored g m₁ m') : Stored (fun b => (g b).or (f b)) m m' :=
  ⟨h.toSameMap.trans h'.toSameMap, h.range.trans h'.range, h.store.trans h'.store⟩

theorem SameMap.lastStored_eq {m m' : Memory} (h : SameMap m m') (ps : List ElfSection) :
    m'.lastStored ps = m.lastStored ps := by
  funext b
  simp only [lastStored, h.deviceAt_eq]

/-- Writes after writes. -/
theorem Stored.append {m m₁ m' : Memory} {ps qs : List ElfSection}
    (h : Stored (m.lastStored ps) m m₁) (h' : Stored (m₁.lastStored qs) m₁ m') :
    Stored (m.lastStored (ps ++ qs)) m m' := by
  have hboth : m.lastStored (ps ++ qs) = fun b => (m.lastStored qs b).or (m.lastStored ps b) := by
    funext b
    rw [lastStored, List.filter_append, ElfSection.lastByte_append]
    rfl
  rw [h.toSameMap.lastStored_eq] at h'
  rw [hboth]
  exact h.trans h'

/-- A write of up to a block, to RAM or to a device. -/
theorem writePhysicalMemory_stored {m : Memory} (hm : m.DefaultRange) (hd : m.physMem.Drawn)
    {p : ElfSection} {x : U64} (hp : p.address = low32 x) {n : Nat} (hn : 0 < n) (hn' : n ≤ 32)
    {buf : List Byte} (hbuf : n ≤ buf.length) (hbytes : p.bytes = buf.take n) (iv : Bool) :
    ∃ rcode m', (writePhysicalMemory x n buf false iv).run m = .ok rcode m' ∧
      Stored (m.lastStored [p]) m m' := by
  have hrange := writePhysicalMemory_range x n buf false iv m
  have hlow := low32_lt x
  cases hdev : m.deviceAt (low32 x) with
  | none =>
    have hone : m.lastStored [p] = PhysicalMemory.bytesAt (low32 x) (buf.take n) := by
      funext b
      rw [lastStored, List.filter_cons, hp, hdev, ← hp, ← hbytes]
      exact Option.none_or
    have hrun := writePhysicalMemory_run hm hdev hn hn' hbuf iv
    rw [hrun] at hrange
    have hstored := PhysicalMemory.stored_putBytes iv (buf.take n) hd (low32 x)
      (by rw [List.length_take_of_le hbuf]; omega)
    rw [hone]
    exact ⟨_, _, hrun, ⟨rfl, rfl, fun _ => rfl⟩, hrange, hstored⟩
  | some q =>
    have hone : m.lastStored [p] = fun _ => none := by
      funext b
      rw [lastStored, List.filter_cons, hp, hdev]
      rfl
    obtain ⟨rcode, hdevice⟩ := writeDeviceMemory_run m q (low32 x) n buf
    have hrun := (writePhysicalMemory_device hm hdev n buf iv).trans hdevice
    have hphys : (m.deviceWritten q (low32 x) n buf).physMem = m.physMem := by
      rw [deviceWritten]
      split <;> rfl
    rw [hrun] at hrange
    rw [hone]
    refine ⟨_, _, hrun, (deviceWritten_frame m q _ _ _).toSameMap, hrange, ?_⟩
    rw [hphys]
    exact .refl hd

end Memory

namespace Elfio

open Memory (low32 lastStored)

/-! ### What loading stores -/

section Section

variable {m : Memory} {s : ElfSection}

/-- One of the writes. -/
theorem tryWrite_stored (hm : m.DefaultRange) (hd : m.physMem.Drawn) {k n : Nat} (hn : 0 < n)
    (hlen : n = min 32 (s.sizeInBytes.toNat - 32 * k)) (iv : Bool) :
    ∃ m', (tryWrite (low32 s.address + BitVec.ofNat 64 (32 * k)) n
        (s.sectionData.drop (32 * k)) iv).run m = .ok true m' ∧
      Memory.Stored (lastStored m [s.piece k]) m m' := by
  have hsize := s.sizeInBytes_le
  have hbuf : n ≤ (s.sectionData.drop (32 * k)).length := by
    rw [List.length_drop]
    omega
  have hbytes : (s.piece k).bytes = (s.sectionData.drop (32 * k)).take n := by
    rw [ElfSection.bytes, ElfSection.piece, ElfSection.loadedBytes]
    dsimp only
    rw [List.flatten_singleton, List.drop_take, List.take_take, ← hlen]
  obtain ⟨rcode, m', hrun, hstored⟩ := Memory.writePhysicalMemory_stored hm hd
    (p := s.piece k) rfl hn (by omega) hbuf hbytes iv
  refine ⟨m', ?_, hstored⟩
  rw [tryWrite, Effect.run_tryCatch, EStateM.run_bind, hrun]
  rfl

/-- The full blocks. -/
theorem loadBlocks_stored (hm : m.DefaultRange) (hd : m.physMem.Drawn) {n k : Nat}
    (hlen : 32 * (k + n) ≤ s.sizeInBytes.toNat) :
    ∃ m', (loadBlocks (low32 s.address) s.sectionData n (32 * k)).run m =
        .ok (0, 32 * (k + n)) m' ∧
      Memory.Stored (lastStored m ((List.range' k n).map s.piece)) m m' := by
  induction n generalizing k m with
  | zero => exact ⟨m, rfl, .refl hd⟩
  | succ n ih =>
    obtain ⟨m₁, hpiece, hfirst⟩ := tryWrite_stored (s := s) hm hd (k := k) (n := 32)
      (by omega) (by omega) true
    obtain ⟨m', hrest, hstored⟩ := ih (hm.of_same hfirst.range) hfirst.store.drawn (k := k + 1)
      (by omega)
    refine ⟨m', ?_, hfirst.append hstored⟩
    have hpiece' : (tryWrite (low32 s.address + BitVec.ofNat 64 (32 * k)) 32
        (s.sectionData.drop (32 * k)) true).run m = .ok true m₁ := hpiece
    rw [loadBlocks, EStateM.run_bind, hpiece']
    dsimp only
    rw [if_pos rfl, ← Nat.mul_succ, hrest, Nat.add_right_comm, Nat.add_assoc]

/-- A section that is not passed. -/
theorem loadSection_stored (hm : m.DefaultRange) (hd : m.physMem.Drawn)
    (hcontents : s.isContents = true) (hpos : 0 < s.sizeInBytes) :
    ∃ m', (loadSection s.address s.sectionData s.sizeInBytes).run m = .ok 0 m' ∧
      Memory.Stored (lastStored m s.pieces) m m' := by
  obtain ⟨N, hN⟩ : ∃ N : Nat, s.sizeInBytes = N := Int.eq_ofNat_of_zero_le (Int.le_of_lt hpos)
  have hlen : s.loadedBytes.length = N := by rw [s.length_loadedBytes, hN, Int.toNat_natCast]
  have hcount : (s.sizeInBytes / 32).toNat = N / 32 := by omega
  obtain ⟨m₁, hrun, hblocks⟩ := loadBlocks_stored (s := s) hm hd (n := N / 32) (k := 0) (by omega)
  rw [Nat.mul_zero, Nat.zero_add] at hrun
  rw [ElfSection.pieces_of_contents hcontents, hlen, loadSection, EStateM.run_bind, EStateM.run_get]
  dsimp only
  rw [EStateM.run_bind, Memory.validate_eq hm, Effect.run_lift_ok]
  dsimp only
  rw [EStateM.run_bind, hcount, hrun]
  dsimp only
  by_cases hextra : 0 < N % 32
  · have hrest : s.sizeInBytes % 32 = (N % 32 : Nat) := by omega
    obtain ⟨m', hlast, hstored⟩ := tryWrite_stored (s := s) (hm.of_same hblocks.range)
      hblocks.store.drawn (k := N / 32) hextra (by omega) false
    refine ⟨m', ?_, ?_⟩
    · rw [if_pos (by omega), EStateM.run_bind, hrest, hlast]
      rfl
    · rw [if_pos hextra]
      exact hblocks.append hstored
  · rw [if_neg (by omega), if_neg hextra, List.append_nil]
    exact ⟨m₁, rfl, hblocks⟩

/-- One turn of the section loop. -/
theorem loadSections_turn (hm : m.DefaultRange) (hd : m.physMem.Drawn)
    (hname : s.name.length < sectionNameSize) (n : Nat) (ss : List ElfSection) (count : Nat) :
    ∃ c m', (loadSections 0xffffffffffffffff (n + 1) (s :: ss) count).run m =
        (loadSections 0xffffffffffffffff n ss c).run m' ∧
      Memory.Stored (lastStored m s.pieces) m m' := by
  by_cases hpass : s.isContents = true ∧ 0 < s.sizeInBytes
  · obtain ⟨hcontents, hpos⟩ := hpass
    obtain ⟨m', hrun, hstored⟩ := loadSection_stored hm hd hcontents hpos
    have hskip : (s.isSkipped || !s.isData || decide (s.sizeInBytes ≤ 0)) = false := by
      rw [ElfSection.not_contents, hcontents, decide_eq_false (by omega)]
      rfl
    refine ⟨count + 1, m', ?_, hstored⟩
    rw [loadSections, if_neg (Nat.not_le_of_lt hname), hskip]
    simp only [Bool.false_eq_true, if_false, ne_eq, not_true_eq_false, false_and]
    rw [EStateM.run_bind, hrun]
    rfl
  · rw [ElfSection.pieces_of_passed hpass]
    exact ⟨count, m, by rw [loadSections_passed hname hpass], .refl hd⟩

end Section

/-- The section loop makes the writes of all sections it visits. -/
theorem loadSections_stored (n : Nat) {ss : List ElfSection} {m : Memory} (hm : m.DefaultRange)
    (hd : m.physMem.Drawn) (hnames : ∀ s ∈ ss.take n, s.name.length < sectionNameSize)
    (count : Nat) : ∃ m', (loadSections 0xffffffffffffffff n ss count).run m = .ok 0 m' ∧
      Memory.Stored (lastStored m ((ss.take n).flatMap ElfSection.pieces)) m m' := by
  induction n generalizing m ss count with
  | zero => exact ⟨m, rfl, .refl hd⟩
  | succ n ih =>
    cases ss with
    | nil =>
      have hnone : ∀ s ∈ ([] : List ElfSection).take n, s.name.length < sectionNameSize := by simp
      obtain ⟨m', hrun, hstored⟩ := ih hm hd hnone count
      rw [List.take_nil] at hstored ⊢
      exact ⟨m', hrun, hstored⟩
    | cons s ss =>
      rw [List.take_succ_cons] at hnames ⊢
      obtain ⟨c, m₁, hturn, hfirst⟩ := loadSections_turn hm hd
        (hnames s List.mem_cons_self) n ss count
      obtain ⟨m', hrest, hstored⟩ := ih (hm.of_same hfirst.range) hfirst.store.drawn
        (fun t ht => hnames t (List.mem_cons_of_mem _ ht)) c
      exact ⟨m', hturn.trans hrest, hfirst.append hstored⟩

/-- A name that does not fit stops it, whatever the sections are. -/
theorem loadSections_long_name {n : Nat} {ss : List ElfSection} {m : Memory} (hm : m.DefaultRange)
    (hd : m.physMem.Drawn) (hlong : ∃ s ∈ ss.take n, sectionNameSize ≤ s.name.length)
    (count : Nat) :
    ∃ m', (loadSections 0xffffffffffffffff n ss count).run m = .error .undefined m' := by
  induction n generalizing m ss count with
  | zero => simp at hlong
  | succ n ih =>
    cases ss with
    | nil => simp at hlong
    | cons s ss =>
      by_cases hname : sectionNameSize ≤ s.name.length
      · exact ⟨m, by rw [loadSections, if_pos hname]; rfl⟩
      · obtain ⟨c, m₁, hturn, hfirst⟩ := loadSections_turn hm hd (Nat.lt_of_not_le hname) n ss count
        obtain ⟨t, ht, hlen⟩ := hlong
        rw [List.take_succ_cons] at ht
        rcases List.mem_cons.mp ht with rfl | ht
        · exact absurd hlen hname
        · rw [hturn]
          exact ih (hm.of_same hfirst.range) hfirst.store.drawn ⟨t, ht, hlen⟩ c

/-- A load that returns leaves memory fit for the next one. -/
theorem drawn_of_load {file : ElfFile} {m m' : Memory} {rcode : Int} (hm : m.DefaultRange)
    (hd : m.physMem.Drawn) (h : (load file).run m = .ok rcode m') :
    m'.DefaultRange ∧ m'.physMem.Drawn := by
  by_cases hnames : ∀ t ∈ file.sections.take file.shnum, t.name.length < sectionNameSize
  · obtain ⟨m'', hrun, hstored⟩ := loadSections_stored file.shnum hm hd hnames 0
    obtain rfl : m'' = m' := (EStateM.Result.ok.inj (hrun.symm.trans h)).2
    exact ⟨hm.of_same hstored.range, hstored.store.drawn⟩
  · push Not at hnames
    obtain ⟨m'', herror⟩ := loadSections_long_name hm hd hnames 0
    rw [load, loadAt, herror] at h
    cases h

/-- `LoadTestImage`: the images one after the other, up to one that fails. -/
def loadTestImage : List ElfFile → EStateM Fault Memory Int
  | [] => return 0
  | file :: files => do
    let rcode ← load file
    if rcode ≠ 0 then return rcode else loadTestImage files

/-- Whatever images are loaded into memory that is drawn, it is drawn for the next one. -/
theorem drawn_of_loadTestImage {files : List ElfFile} {m m' : Memory} {rcode : Int}
    (hm : m.DefaultRange) (hd : m.physMem.Drawn) (h : (loadTestImage files).run m = .ok rcode m') :
    m'.DefaultRange ∧ m'.physMem.Drawn := by
  induction files generalizing m with
  | nil =>
    obtain ⟨-, rfl⟩ := EStateM.Result.ok.inj h
    exact ⟨hm, hd⟩
  | cons file files ih =>
    rw [loadTestImage, EStateM.run_bind] at h
    cases hload : (load file).run m with
    | error f m₁ =>
      rw [hload] at h
      cases h
    | ok r m₁ =>
      obtain ⟨hrange, hdrawn⟩ := drawn_of_load hm hd hload
      rw [hload] at h
      dsimp only at h
      split_ifs at h with hr
      · obtain ⟨-, rfl⟩ := EStateM.Result.ok.inj h
        exact ⟨hrange, hdrawn⟩
      · exact ih hrange hdrawn h

end Elfio

namespace Memory

/-! ### Reading a byte -/

/-- A one-byte read delivers 0, whatever is in the buffer. -/
def ReadsZero (m : Memory) (b : U64) : Prop :=
  ∀ (v : Byte) (init : Bool), ∃ rcode m',
    (readPhysicalMemory b 1 [v] false init).run m = .ok (rcode, [0]) m'

section OneByte

variable {m : Memory} {b : U64}

theorem readPhysicalMemory_byte (hm : m.DefaultRange) (hb : b.toNat < 2 ^ 32)
    (hram : m.deviceAt b = none) (v : Byte) (init : Bool) :
    ∃ rcode m', (readPhysicalMemory b 1 [v] false init).run m =
      .ok (rcode, [m.physMem.byteAt b]) m' := by
  have hlow : low32 b = b := low32_of_lt hb
  have hrun := readPhysicalMemory_run hm (a := b) (n := 1) (by rw [hlow]; exact hram)
    Nat.one_pos (by omega) [v] init
  rw [hlow] at hrun
  exact ⟨_, _, hrun⟩

/-- No device has a register of one byte: the buffer is left alone. -/
theorem readPhysicalMemory_byte_refused (hm : m.DefaultRange) (hb : b.toNat < 2 ^ 32)
    {p : DevicePtr} (hdev : m.deviceAt b = some p) (v : Byte) (init : Bool) :
    (readPhysicalMemory b 1 [v] false init).run m = .ok (-1, [v]) m := by
  have hlow : low32 b = b := low32_of_lt hb
  have hdevice := readPhysicalMemory_device hm (a := b) (by rw [hlow]; exact hdev) 1 [v] init
  rcases readDeviceMemory_cases m p (low32 b) 1 with ⟨hword, -⟩ | ⟨-, hkeep⟩
  · exact absurd hword.2 (by decide)
  · exact hdevice.trans (hkeep [v])

theorem readsZero_iff (hm : m.DefaultRange) (hb : b.toNat < 2 ^ 32) :
    m.ReadsZero b ↔ m.deviceAt b = none ∧ m.physMem.byteAt b = 0 := by
  constructor
  · intro h
    obtain ⟨rcode, m', hrun⟩ := h 1 false
    cases hdev : m.deviceAt b with
    | none =>
      obtain ⟨rcode', m'', hrun'⟩ := readPhysicalMemory_byte hm hb hdev 1 false
      have hsame := (EStateM.Result.ok.inj (hrun'.symm.trans hrun)).1
      exact ⟨rfl, (List.cons.inj (congrArg Prod.snd hsame)).1⟩
    | some p =>
      have hrefused := readPhysicalMemory_byte_refused hm hb hdev 1 false
      have hsame := (EStateM.Result.ok.inj (hrefused.symm.trans hrun)).1
      have hbyte : ([1] : List Byte) = [0] := congrArg Prod.snd hsame
      exact absurd hbyte (by decide)
  · intro ⟨hram, hzero⟩ v init
    rw [← hzero]
    exact readPhysicalMemory_byte hm hb hram v init

end OneByte

/-- The same blocks, with other draws to come. -/
def withOracle (m : Memory) (o : Oracle) : Memory :=
  { m with physMem := { m.physMem with oracle := o } }

theorem DefaultRange.withOracle {m : Memory} (hm : m.DefaultRange) (o : Oracle) :
    (m.withOracle o).DefaultRange := ⟨hm.sizeInBits, hm.lo, hm.hi⟩

end Memory

namespace Elfio

open Memory (low32 lastStored ReadsZero)
open ElfSection (shtNobits)

/-! ### Sections that are to be zero -/

/-- An address is in the range of a section, as it is loaded. -/
def Covers (s : ElfSection) (b : U64) : Prop :=
  (low32 s.address).toNat ≤ b.toNat ∧ b.toNat < (low32 s.address).toNat + s.size

instance (s : ElfSection) (b : U64) : Decidable (Covers s b) := inferInstanceAs (Decidable (_ ∧ _))

/-- `s` is a section of the file without contents there, with `post` behind it; libelf has a null
    buffer for all of its kind. -/
structure ZeroSection (file : ElfFile) (pre : List ElfSection) (s : ElfSection)
    (post : List ElfSection) : Prop where
  split : file.sections = pre ++ s :: post
  kind : s.shType = shtNobits
  name : s.isSkipped = false
  nonempty : 1 ≤ s.size
  bound : s.address.toNat + s.size ≤ 2 ^ 32
  null : ∀ t ∈ file.sections, t.shType = shtNobits → t.chunks = []

/-- An address of `s` that no later section of contents covers. -/
def LastCovered (s : ElfSection) (post : List ElfSection) (b : U64) : Prop :=
  Covers s b ∧ ∀ t ∈ post, t.isContents = true → ¬ Covers t b

/-- Whatever `rand` draws, `Load` returns and these addresses read as 0. -/
def Zeroed (file : ElfFile) (s : ElfSection) (post : List ElfSection) (m : Memory) : Prop :=
  ∀ o : Oracle, ∃ rcode m', (load file).run (m.withOracle o) = .ok rcode m' ∧
    ∀ b, LastCovered s post b → ReadsZero m' b

/-- The writes of the sections `Load` visits, those without contents left out. -/
def otherPieces (file : ElfFile) : List ElfSection :=
  ((file.sections.take file.shnum).filter fun t => t.shType ≠ shtNobits).flatMap ElfSection.pieces

/-- The names that are read fit, and the zeros come from somewhere else: each address is RAM, and the
    last byte that a section with contents stores there is 0, or none does and memory has 0 there. -/
structure ZeroedOtherwise (file : ElfFile) (s : ElfSection) (post : List ElfSection) (m : Memory) :
    Prop where
  names : ∀ t ∈ file.sections.take file.shnum, t.name.length < sectionNameSize
  ram : ∀ b, LastCovered s post b → m.deviceAt b = none
  zero : ∀ b, LastCovered s post b →
    (lastStored m (otherPieces file) b).or (m.physMem.seen b) = some 0

section Zeroed

variable {file : ElfFile} {pre post : List ElfSection} {s : ElfSection} {m : Memory}

theorem lt_of_covers (h : ZeroSection file pre s post) {b : U64} (hb : Covers s b) :
    b.toNat < 2 ^ 32 := by
  have hnonempty := h.nonempty
  have hbound := h.bound
  have hlow : low32 s.address = s.address := Memory.low32_of_lt (by omega)
  rw [Covers, hlow] at hb
  omega

/-- A section with a null buffer makes no difference to what is written. -/
theorem flatMap_pieces {ss : List ElfSection} (h : ∀ t ∈ ss, t.shType = shtNobits → t.chunks = []) :
    ss.flatMap ElfSection.pieces =
      (ss.filter fun t => t.shType ≠ shtNobits).flatMap ElfSection.pieces := by
  induction ss with
  | nil => rfl
  | cons t ss ih =>
    have hrest := ih fun u hu => h u (List.mem_cons_of_mem _ hu)
    rw [List.flatMap_cons, hrest, List.filter_cons]
    by_cases hkind : t.shType = shtNobits
    · rw [ElfSection.pieces_of_nil (h t List.mem_cons_self hkind), List.nil_append,
        if_neg (by simpa using hkind)]
    · rw [if_pos (by simpa using hkind), List.flatMap_cons]

/-- A file whose names fit is loaded, and its NOBITS sections write nothing. -/
theorem load_stored (h : ZeroSection file pre s post) (hm : m.DefaultRange)
    (hd : m.physMem.Drawn)
    (hnames : ∀ t ∈ file.sections.take file.shnum, t.name.length < sectionNameSize) :
    ∃ m', (load file).run m = .ok 0 m' ∧
      Memory.Stored (lastStored m (otherPieces file)) m m' := by
  obtain ⟨m', hrun, hstored⟩ := loadSections_stored file.shnum hm hd hnames 0
  rw [flatMap_pieces fun t ht => h.null t (List.mem_of_mem_take ht)] at hstored
  exact ⟨m', hrun, hstored⟩

theorem names_of_zeroed (hm : m.DefaultRange) (hd : m.physMem.Drawn) (h : Zeroed file s post m) :
    ∀ t ∈ file.sections.take file.shnum, t.name.length < sectionNameSize := by
  by_contra hlong
  push Not at hlong
  obtain ⟨rcode, m', hrun, -⟩ := h m.physMem.oracle
  obtain ⟨m'', herror⟩ := loadSections_long_name hm hd hlong 0
  have herror' : (load file).run (m.withOracle m.physMem.oracle) = .error .undefined m'' := herror
  rw [herror'] at hrun
  cases hrun

/-- Draws that are never 0 show where nothing was stored. -/
theorem zeroedOtherwise_of_zeroed (hz : ZeroSection file pre s post) (hm : m.DefaultRange)
    (hd : m.physMem.Drawn) (h : Zeroed file s post m) : ZeroedOtherwise file s post m := by
  have hnames := names_of_zeroed hm hd h
  let o : Oracle := { rand := fun _ => 1, heap := fun _ => 0 }
  obtain ⟨m', hrun, hstored⟩ := load_stored hz (m := m.withOracle o) (hm.withOracle o) hd hnames
  obtain ⟨rcode, m'', hload, hzero⟩ := h o
  obtain rfl : m'' = m' := (EStateM.Result.ok.inj (hload.symm.trans hrun)).2
  have hread : ∀ b, LastCovered s post b → m''.deviceAt b = none ∧ m''.physMem.byteAt b = 0 :=
    fun b hb => (Memory.readsZero_iff ((hm.withOracle o).of_same hstored.range)
      (lt_of_covers hz hb.1)).mp (hzero b hb)
  refine ⟨hnames, fun b hb => ?_, fun b hb => ?_⟩
  · have hram := (hread b hb).1
    rwa [hstored.toSameMap.deviceAt_eq] at hram
  · rcases hstored.store.byteAt_cases b with hbyte | ⟨-, k, hk⟩
    · rw [(hread b hb).2] at hbyte
      exact hbyte
    · rw [(hread b hb).2] at hk
      cases hk

theorem zeroed_of_otherwise (hz : ZeroSection file pre s post) (hm : m.DefaultRange)
    (hd : m.physMem.Drawn) (h : ZeroedOtherwise file s post m) : Zeroed file s post m := by
  intro o
  obtain ⟨m', hrun, hstored⟩ := load_stored hz (m := m.withOracle o) (hm.withOracle o) hd h.names
  refine ⟨0, m', hrun, fun b hb => ?_⟩
  refine (Memory.readsZero_iff ((hm.withOracle o).of_same hstored.range)
    (lt_of_covers hz hb.1)).mpr ⟨?_, ?_⟩
  · rw [hstored.toSameMap.deviceAt_eq]
    exact h.ram b hb
  · have hzero : (lastStored (m.withOracle o) (otherPieces file) b).or
        ((m.withOracle o).physMem.seen b) = some 0 := h.zero b hb
    rcases hstored.store.byteAt_cases b with hbyte | ⟨hnone, -⟩
    · exact Option.some.inj (hbyte.symm.trans hzero)
    · rw [hzero] at hnone
      cases hnone

/-- For every file, NOBITS section of it and memory: the section reads as 0 after `Load` if and only
    if the zeros come from somewhere else. -/
theorem zeroed_iff (hz : ZeroSection file pre s post) (hm : m.DefaultRange)
    (hd : m.physMem.Drawn) : Zeroed file s post m ↔ ZeroedOtherwise file s post m :=
  ⟨zeroedOtherwise_of_zeroed hz hm hd, zeroed_of_otherwise hz hm hd⟩

end Zeroed

/-- Four bytes of `.bss`. -/
def bssSection : ElfSection where
  name := ".bss".toList
  shType := shtNobits
  address := 0x80000000
  size := 4
  chunks := []

/-- Zeros in the file for the same addresses. -/
def zerosSection : ElfSection where
  name := ".data".toList
  shType := ElfSection.shtProgbits
  address := 0x80000000
  size := 4
  chunks := [[0, 0, 0, 0]]

/-- A file with the one, and a file with both. -/
def bssFile : ElfFile where
  shnum := 3
  sections := [bssSection]

def zerosFile : ElfFile where
  shnum := 4
  sections := [zerosSection, bssSection]

theorem drawn_empty (o : Oracle) : (Memory.empty o).physMem.Drawn := fun _ => ⟨rfl, fun _ => rfl⟩

/-- With the zeros in the file the section is zero. -/
theorem zerosFile_zeroed :
    Zeroed zerosFile bssSection [] (.empty { rand := fun _ => 7, heap := fun _ => 9 }) := by
  have hzero : ∀ i < 4, (lastStored (.empty { rand := fun _ => 7, heap := fun _ => 9 })
      (otherPieces zerosFile) (0x80000000 + BitVec.ofNat 64 i)) = some 0 := by decide
  have hsection : ZeroSection zerosFile [zerosSection] bssSection [] :=
    ⟨rfl, rfl, by decide, by decide, by decide,
      by simp [zerosFile, zerosSection, bssSection, shtNobits, ElfSection.shtProgbits]⟩
  refine (zeroed_iff hsection ⟨rfl, rfl, rfl⟩ (drawn_empty _)).mpr
    ⟨by decide, fun _ _ => Memory.deviceAt_nil rfl _, fun b hb => ?_⟩
  have hstart : (low32 bssSection.address).toNat = 0x80000000 := by decide
  have hsize : bssSection.size = 4 := rfl
  obtain ⟨hlo, hhi⟩ := hb.1
  rw [hstart] at hlo hhi
  rw [hsize] at hhi
  have haddr : b = 0x80000000 + BitVec.ofNat 64 (b.toNat - 0x80000000) := by
    have hbase : (0x80000000 : U64).toNat = 0x80000000 := rfl
    apply BitVec.eq_of_toNat_eq
    rw [toNat_add_ofNat (by omega), hbase]
    omega
  rw [haddr, hzero _ (by omega), Option.some_or]

/-- Without them it is not. -/
theorem bss_not_zeroed : ¬ ∀ (file : ElfFile) (pre : List ElfSection) (s : ElfSection)
    (post : List ElfSection) (m : Memory), ZeroSection file pre s post → m.DefaultRange →
    m.physMem.Drawn → (∀ t ∈ file.sections, t.name.length < sectionNameSize) →
    Zeroed file s post m := by
  intro h
  let o : Oracle := { rand := fun _ => 0, heap := fun _ => 0 }
  have hm : (Memory.empty o).DefaultRange := ⟨rfl, rfl, rfl⟩
  have hsection : ZeroSection bssFile [] bssSection [] :=
    ⟨rfl, rfl, by decide, by decide, by decide, by simp [bssFile, bssSection]⟩
  have hzeroed := h bssFile [] bssSection [] (.empty o) hsection hm (drawn_empty o) (by decide)
  have hotherwise := zeroedOtherwise_of_zeroed hsection hm (drawn_empty o) hzeroed
  have hnone := hotherwise.zero 0x80000000 ⟨by decide, by simp⟩
  exact absurd hnone (by decide)

end Elfio

end Dimebox
