import Dimebox.FileBlocks
import Mathlib.Order.CompletePartialOrder

/-! Images that `Save` wrote, loaded again.

    A section holds a block of the file: its bytes are those memory has, as far as they are defined.
    `Save` makes such a section for every block with a defined byte, whichever way it reads them,
    and reading defines bytes but changes none. `Load` brings them back, if it gets to them: the
    block size is chosen so that there are fewer blocks than `ELF_MAX_SECTIONS`, but the null section
    and the string table count as sections, too, as does a block at address zero that the estimate
    leaves out, and compressed files have no limit at all. `Load` goes by `e_shnum`, which is 0 from
    0xff00 sections on (`image_reloads_iff`). -/

namespace Dimebox

namespace PhysicalMemory

/-! ### What reading does to the store -/

/-- What is defined stays defined, and no value changes. -/
structure Kept (p p' : PhysicalMemory) : Prop where
  isDefined : ∀ b, p.isDefined b = true → p'.isDefined b = true
  seen : Cells.Grows p.seen p'.seen

theorem Kept.refl (p : PhysicalMemory) : Kept p p := ⟨fun _ h => h, .refl _⟩

theorem Kept.trans {p p' p'' : PhysicalMemory} (h : Kept p p') (h' : Kept p' p'') : Kept p p'' :=
  ⟨fun b hb => h'.isDefined b (h.isDefined b hb), h.seen.trans h'.seen⟩

theorem kept_pullByte (p : PhysicalMemory) (a : U64) (init : Bool) : Kept p (p.pullByte a init) := by
  constructor
  · intro b hb
    rw [isDefined_pullByte, hb, Bool.true_or]
  · cases step_pullByte p a init with
    | read grow _ => exact grow

theorem kept_of_sameBlocks {p p' : PhysicalMemory} (h : SameBlocks p p') : Kept p p' := by
  constructor
  · intro b hb
    rw [PhysicalMemory.isDefined, h.blockAt]
    exact hb
  · intro b v hb
    rw [PhysicalMemory.seen, h.blockAt]
    exact hb

theorem Placed.of_sameBlocks {p p' : PhysicalMemory} (hp : Placed p) (h : SameBlocks p p') :
    Placed p' := by
  intro B b hb
  rw [h.lookup] at hb
  exact hp B b hb

/-- The bytes from `a` on are what the store has, as far as it is defined. -/
def Copied (p : PhysicalMemory) (a : U64) (buf : List Byte) : Prop :=
  ∀ b v, p.isDefined b = true → bytesAt a buf b = some v → p.seen b = some v

/-- A copy of what a store has become is a copy of what it was. -/
theorem Copied.of_kept {p p' : PhysicalMemory} {a : U64} {buf : List Byte} (h : Copied p' a buf)
    (hk : Kept p p') : Copied p a buf := by
  intro b v hdef hb
  obtain ⟨w, hw⟩ := seen_of_isDefined hdef
  have hv := h b v (hk.isDefined b hdef) hb
  rw [hk.seen b w hw] at hv
  rw [hw, hv]

/-- A byte that is defined is returned as it is. -/
theorem seen_of_byteAt {p : PhysicalMemory} {a : U64} (h : p.isDefined a = true) :
    p.seen a = some (p.byteAt a) := by
  obtain ⟨v, hv⟩ := seen_of_isDefined h
  have hgrow := seen_touch_grows p a a v hv
  rw [seen_touch_self] at hgrow
  rw [hv, hgrow]

/-- The store after the bytes have been read. -/
def pullEach (p : PhysicalMemory) (bs : List U64) : PhysicalMemory :=
  bs.foldl (fun p b => p.pullByte b true) p

theorem pullEach_cons (p : PhysicalMemory) (b : U64) (bs : List U64) :
    p.pullEach (b :: bs) = (p.pullByte b true).pullEach bs := rfl

theorem pullEach_append (p : PhysicalMemory) (bs cs : List U64) :
    p.pullEach (bs ++ cs) = (p.pullEach bs).pullEach cs := List.foldl_append

theorem kept_pullEach (p : PhysicalMemory) (bs : List U64) : Kept p (p.pullEach bs) := by
  induction bs generalizing p with
  | nil => exact .refl p
  | cons b bs ih => exact (kept_pullByte p b true).trans (ih _)

theorem Placed.pullEach {p : PhysicalMemory} (hp : Placed p) {bs : List U64}
    (h : ∀ b ∈ bs, b.toNat < 2 ^ 32) : Placed (p.pullEach bs) := by
  induction bs generalizing p with
  | nil => exact hp
  | cons b bs ih =>
    rw [pullEach_cons]
    exact ih (hp.pullByte (h b List.mem_cons_self) true) fun c hc => h c (List.mem_cons_of_mem _ hc)

/-- Byte `j` of the buffer is what the store has at `a + j`, if that is defined. -/
def CopiedFrom (p : PhysicalMemory) (a : U64) (buf : List Byte) : Prop :=
  ∀ j v, buf[j]? = some v → p.isDefined (a + BitVec.ofNat 64 j) = true →
    p.seen (a + BitVec.ofNat 64 j) = some v

theorem CopiedFrom.of_kept {p p' : PhysicalMemory} {a : U64} {buf : List Byte}
    (h : CopiedFrom p' a buf) (hk : Kept p p') : CopiedFrom p a buf := by
  intro j v hj hdef
  obtain ⟨w, hw⟩ := seen_of_isDefined hdef
  have hv := h j v hj (hk.isDefined _ hdef)
  rw [hk.seen _ w hw] at hv
  rw [hw, hv]

theorem CopiedFrom.copied {p : PhysicalMemory} {a : U64} {buf : List Byte} (h : CopiedFrom p a buf) :
    Copied p a buf := by
  intro b v hdef hv
  rw [bytesAt] at hv
  split at hv
  · next hle =>
    have hb : a + BitVec.ofNat 64 (b.toNat - a.toNat) = b := by
      have hlt := b.isLt
      apply BitVec.eq_of_toNat_eq
      rw [Elfio.toNat_add_ofNat (by omega)]
      omega
    have hseen := h _ v hv (by rwa [hb])
    rwa [hb] at hseen
  · cases hv

/-- The bytes of a memory block. -/
theorem copiedFrom_block {p : PhysicalMemory} {A : U64} {mem : Nat → Byte}
    (hA : MemBlock.offset A = 0) (hmem : (p.blockAt A).mptr = some mem) :
    CopiedFrom p A ((List.range 32).map mem) := by
  intro j v hj hdef
  rw [List.getElem?_map, Option.map_eq_some_iff] at hj
  obtain ⟨i, hi, rfl⟩ := hj
  obtain ⟨hlt, rfl⟩ := List.getElem?_eq_some_iff.mp hi
  rw [List.length_range] at hlt
  rw [List.getElem_range]
  have hAlt := A.isLt
  rw [MemBlock.offset_eq] at hA
  have hb : (A + BitVec.ofNat 64 j).toNat = A.toNat + j := Elfio.toNat_add_ofNat (by omega)
  have hblock : MemBlock.blockAddress (A + BitVec.ofNat 64 j) = A := by
    apply BitVec.eq_of_toNat_eq
    rw [MemBlock.blockAddress_toNat]
    omega
  have hoff : MemBlock.offset (A + BitVec.ofNat 64 j) = j := by
    rw [MemBlock.offset_eq]
    omega
  rw [PhysicalMemory.isDefined, hblock, MemBlock.isDefined, Bool.and_eq_true,
    Bool.not_eq_true'] at hdef
  rw [PhysicalMemory.seen, hblock, MemBlock.seen, hmem, Option.bind_some, hdef.2, hoff]
  rfl

end PhysicalMemory

namespace Memory

open PhysicalMemory (Kept Copied bytesAt)

section Reading

variable {m : Memory} {a b : U64} {forTest : Bool}

/-- A location is its own address. -/
theorem validate_location (h : m.validatePhysicalMemoryAddress a forTest = .ok b) (forTest' : Bool) :
    m.validatePhysicalMemoryAddress b forTest' = .ok b := by
  rw [validatePhysicalMemoryAddress] at h
  split at h
  · cases h
  · have hmask : a &&& m.paMask &&& m.paMask = a &&& m.paMask := by
      rw [BitVec.and_assoc, BitVec.and_self]
    have hb : b = a &&& m.paMask := by
      dsimp only at h
      split at h
      · exact (Except.ok.inj h).symm
      · split at h
        · exact (Except.ok.inj h).symm
        · cases h
    rw [hb] at h ⊢
    rw [validatePhysicalMemoryAddress, hmask, if_neg (by simp)]
    exact h

theorem checkAddresses_byte : m.checkAddresses a 1 forTest = .ok b ↔
    m.validatePhysicalMemoryAddress a forTest = .ok b := by
  have hend : ∀ c : U64, c + BitVec.ofInt 64 1 - 1 = c := fun c => BitVec.add_sub_cancel c 1
  rw [checkAddresses]
  cases hvalid : m.validatePhysicalMemoryAddress a forTest with
  | error f => exact .rfl
  | ok c =>
    simp only [bind, Except.bind, hend, validate_location hvalid forTest]
    exact .rfl

/-- A test access strips no bits. -/
theorem eq_of_test (h : m.validatePhysicalMemoryAddress a true = .ok b) : b = a := by
  rw [validatePhysicalMemoryAddress] at h
  split at h
  · cases h
  · next hmask =>
    have heq : a &&& m.paMask = a := by simpa using hmask
    rw [heq] at h
    dsimp only at h
    split at h
    · exact (Except.ok.inj h).symm
    · split at h
      · exact (Except.ok.inj h).symm
      · cases h

/-- A byte of RAM is read. -/
theorem readByte_run (hm : m.devices = []) (h : m.validatePhysicalMemoryAddress a forTest = .ok b)
    (init : Bool) : (readPhysicalMemory a 1 [0] forTest init).run m =
      .ok (definedCode (!m.physMem.isDefined b).toNat 1, [m.physMem.byteAt b])
        { m with physMem := m.physMem.pullByte b init } := by
  have hread := PhysicalMemory.read_run Nat.one_pos (by omega) b init m.physMem
  rw [Int.ofNat_one] at hread
  rw [readPhysicalMemory_of_ram [0] init (checkAddresses_byte.mpr h) (deviceAt_nil hm b),
    map_eq_pure_bind, EStateM.run_bind, hread]
  simp only [PhysicalMemory.pullBytes, Nat.zero_add]
  rfl

theorem validate_test (hm : m.DefaultRange) (h : a.toNat < 2 ^ 32) :
    m.validatePhysicalMemoryAddress a true = .ok a := by
  have hmask : a &&& m.paMask = a := by
    rw [paMask, hm.sizeInBits]
    exact low32_of_lt h
  have hval := validate_eq hm a
  rw [low32_of_lt h] at hval
  rw [← hval, validatePhysicalMemoryAddress, validatePhysicalMemoryAddress]
  simp only [hmask, ne_eq, not_true_eq_false, false_and]

end Reading

end Memory

namespace Elfio

open Memory (Plain usedBlocks)
open PhysicalMemory (Kept Copied CopiedFrom Placed bytesAt span)

/-! ### The bytes of a section -/

/-- The byte passes the checks of a test access. -/
def passesTest (m : Memory) (b : U64) : Bool := (m.validatePhysicalMemoryAddress b true).toBool

theorem passesTest_iff {m : Memory} {b : U64} :
    passesTest m b = true ↔ m.validatePhysicalMemoryAddress b true = .ok b := by
  rw [passesTest]
  cases h : m.validatePhysicalMemoryAddress b true with
  | error f => simp [Except.toBool]
  | ok c => simp [Except.toBool, Memory.eq_of_test h]

/-- The bytes of a section that is larger than a memory block. -/
theorem readEachByte_passing {m : Memory} (hm : m.devices = []) (a : U64) (n : Nat) :
    ((span a n).all (passesTest m) = true ∧ ∃ data, (readEachByte a n).run m =
        .ok data { m with physMem := m.physMem.pullEach (span a n) } ∧
      data.length = n ∧ CopiedFrom m.physMem a data) ∨
    ((span a n).all (passesTest m) = false ∧ (readEachByte a n).run m =
      .error (.sim .generationError)
        { m with physMem := m.physMem.pullEach ((span a n).takeWhile (passesTest m)) }) := by
  induction n generalizing m a with
  | zero =>
    refine .inl ⟨rfl, [], rfl, rfl, fun j v hj => ?_⟩
    rw [List.getElem?_nil] at hj
    cases hj
  | succ n ih =>
    rw [span, List.all_cons, List.takeWhile_cons, readEachByte, EStateM.run_bind]
    cases hpass : passesTest m a with
    | false =>
      have hcheck : ¬ ∃ address, m.checkAddresses a 1 true = .ok address := by
        rintro ⟨address, h⟩
        have hvalid := Memory.checkAddresses_byte.mp h
        rw [Memory.eq_of_test hvalid, ← passesTest_iff, hpass] at hvalid
        cases hvalid
      rw [Memory.readPhysicalMemory_of_unchecked hcheck [0] true]
      exact .inr ⟨rfl, rfl⟩
    | true =>
      rw [Memory.readByte_run hm (passesTest_iff.mp hpass) true]
      dsimp only
      rw [EStateM.run_bind]
      rcases @ih { m with physMem := m.physMem.pullByte a true } hm (a + 1) with
        ⟨hall, rest, hrun, hlen, hcopied⟩ | ⟨hsome, hrun⟩
      · refine .inl ⟨hall, ?_⟩
        rw [hrun]
        refine ⟨_, rfl, congrArg (· + 1) hlen, fun j v hj hdef => ?_⟩
        cases j with
        | zero =>
          have hzero : a + BitVec.ofNat 64 0 = a := BitVec.add_zero a
          rw [hzero] at hdef ⊢
          rw [List.getElem?_cons_zero, hdef] at hj
          rw [PhysicalMemory.seen_of_byteAt hdef, ← Option.some.inj hj]
          rfl
        | succ j =>
          rw [List.getElem?_cons_succ] at hj
          rw [← MemBlock.succ_add_ofNat] at hdef ⊢
          exact hcopied.of_kept (PhysicalMemory.kept_pullByte m.physMem a true) j v hj hdef
      · refine .inr ⟨hsome, ?_⟩
        rw [hrun]
        rfl

/-- A section of a block that is larger than a memory block. -/
theorem readEachByte_run {m : Memory} (hm : Plain m) {a : U64} {n : Nat}
    (hlen : a.toNat + n ≤ 2 ^ 32) : ∃ data p,
    (readEachByte a n).run m = .ok data { m with physMem := p } ∧ Placed p ∧
      Kept m.physMem p ∧ data.length = n ∧ Copied m.physMem a data := by
  have hinside : ∀ b ∈ span a n, b.toNat < 2 ^ 32 := by
    intro b hb
    obtain ⟨i, hi, rfl⟩ := PhysicalMemory.mem_span.mp hb
    rw [toNat_add_ofNat (by omega)]
    omega
  have hall : (span a n).all (passesTest m) = true := List.all_eq_true.mpr fun b hb =>
    passesTest_iff.mpr (Memory.validate_test hm.range (hinside b hb))
  rcases readEachByte_passing hm.devices a n with ⟨-, data, hrun, hlen, hcopied⟩ | ⟨hsome, -⟩
  · exact ⟨data, _, hrun, hm.placed.pullEach hinside, PhysicalMemory.kept_pullEach _ _, hlen,
      hcopied.copied⟩
  · rw [hall] at hsome
    cases hsome

/-- A section of one memory block with a defined byte. -/
theorem readInitialState_run {m : Memory} (hm : Plain m) {A : U64} (hA : MemBlock.offset A = 0)
    {x : U64} (hx : m.physMem.isDefined x = true) (hxA : MemBlock.blockAddress x = A) :
    ∃ data p, (Memory.onPhysMem (PhysicalMemory.readInitialState A false)).run m =
        .ok data { m with physMem := p } ∧ Placed p ∧ Kept m.physMem p ∧ data.length = 32 ∧
      Copied m.physMem A data := by
  have hlookup := PhysicalMemory.lookup_of_isDefined hx
  rw [hxA] at hlookup
  obtain ⟨mem, hmem⟩ := Option.isSome_iff_exists.mp (hm.placed A _ hlookup).1.1
  have hsame := PhysicalMemory.sameBlocks_of_lookup (Option.isSome_iff_exists.mpr ⟨_, hlookup⟩)
  refine ⟨(List.range 32).map mem, _, ?_, hm.placed.of_sameBlocks hsame,
    PhysicalMemory.kept_of_sameBlocks hsame, by simp,
    (PhysicalMemory.copiedFrom_block hA hmem).copied⟩
  dsimp only [Memory.onPhysMem]
  rw [Effect.run_focus]
  rcases PhysicalMemory.readInitialState_cases A false m.physMem with
    ⟨mem', -, hmem', hrun⟩ | ⟨hnot, -⟩
  · obtain rfl := Option.some.inj (hmem.symm.trans hmem')
    rw [hrun]
    rfl
  · exact absurd ⟨hA, by rw [if_neg Bool.false_ne_true, hmem]; rfl⟩ hnot

section Blocks

variable {bits : Nat}

/-- A block that is used lies inside the space. -/
theorem usedBlock_bound {m : Memory} (hm : Plain m) (h : bits ≤ 32) {k : Nat}
    (hk : k ∈ usedBlocks m bits) : k * 2 ^ bits + 2 ^ bits ≤ 2 ^ 32 := by
  obtain ⟨b, hdef, rfl⟩ := hk
  have hlt := hm.placed.lt_of_isDefined hdef
  have hsplit : (2 : Nat) ^ 32 = 2 ^ (32 - bits) * 2 ^ bits := by
    rw [← Nat.pow_add, Nat.sub_add_cancel h]
  rw [hsplit] at hlt
  rw [← Nat.succ_mul, hsplit]
  exact Nat.mul_le_mul_right _ (Nat.succ_le_of_lt (Nat.div_lt_of_lt_mul (Nat.mul_comm _ _ ▸ hlt)))

/-- Whichever way a section is read, it is a copy of its block. -/
theorem readSection_run {m : Memory} (hm : Plain m) (h : 5 ≤ bits) (h' : bits ≤ 32) {A : U64}
    (hA : ∃ k ∈ usedBlocks m bits, A.toNat = k * 2 ^ bits) :
    ∃ data p, (readSection A (2 ^ bits)).run m = .ok data { m with physMem := p } ∧ Placed p ∧
      Kept m.physMem p ∧ data.length = 2 ^ bits ∧ Copied m.physMem A data := by
  obtain ⟨k, hk, hAk⟩ := hA
  rw [readSection]
  by_cases hsmall : 2 ^ bits ≤ 32
  · obtain rfl : bits = 5 := by
      have hlt := Nat.lt_of_not_le fun h6 : 6 ≤ bits =>
        absurd (Nat.le_trans (Nat.pow_le_pow_right (n := 2) (by omega) h6) hsmall) (by decide)
      omega
    obtain ⟨x, hx, rfl⟩ := hk
    have haligned : MemBlock.offset A = 0 := by
      rw [MemBlock.offset_eq, hAk]
      omega
    obtain ⟨data, p, hrun, hcopy⟩ := readInitialState_run hm haligned hx
      (BitVec.eq_of_toNat_eq ((MemBlock.blockAddress_toNat x).trans hAk.symm))
    refine ⟨data, p, ?_, hcopy⟩
    rw [if_pos hsmall, EStateM.run_bind, hrun]
    dsimp only
    rw [if_neg (by decide)]
    rfl
  · rw [if_neg hsmall]
    exact readEachByte_run hm (hAk ▸ usedBlock_bound hm h' hk)

/-- A section with a copy of its block, one of at most `n` of a file. -/
structure Piece (p : PhysicalMemory) (bits n : Nat) (s : ElfSection) : Prop where
  shType : s.shType = ElfSection.shtProgbits
  name : ∃ count ≤ n, s.name = ".text".toList ++ Nat.toDigits 10 count
  size : s.size = 2 ^ bits
  delivered : s.bytes.length = 2 ^ bits
  copied : Copied p s.address s.bytes

@[simp] theorem bytes_textSection (count : Nat) (a : U64) (data : List Byte) :
    (textSection count a data).bytes = data := List.flatten_singleton

theorem piece_textSection {p : PhysicalMemory} {n count : Nat} (hcount : count ≤ n) {A : U64}
    {data : List Byte} (hlen : data.length = 2 ^ bits) (hcopied : Copied p A data) :
    Piece p bits n (textSection count A data) := by
  have hbytes := bytes_textSection count A data
  exact ⟨rfl, ⟨count, hcount, rfl⟩, hlen, by rw [hbytes, hlen], by rw [hbytes]; exact hcopied⟩

theorem usedBlocks_mono {m : Memory} {p : PhysicalMemory} (h : Kept m.physMem p) {k : Nat}
    (hk : k ∈ usedBlocks m bits) : k ∈ usedBlocks { m with physMem := p } bits := by
  obtain ⟨b, hdef, hb⟩ := hk
  exact ⟨b, h.isDefined b hdef, hb⟩

/-- The section loop makes a section for every block. -/
theorem saveSections_run (h : 5 ≤ bits) (h' : bits ≤ 32) {m : Memory} (hm : Plain m)
    {as : List U64} (hall : ∀ A ∈ as, ∃ k ∈ usedBlocks m bits, A.toNat = k * 2 ^ bits)
    (added : List ElfSection) : ∃ new p, (saveSections (2 ^ bits) as added).run m =
        .ok (some (added ++ new)) { m with physMem := p } ∧ new.map (·.address) = as ∧
      ∀ s ∈ new, Piece m.physMem bits (added.length + as.length) s := by
  induction as generalizing m added with
  | nil => exact ⟨[], m.physMem, by rw [List.append_nil]; rfl, rfl, by simp⟩
  | cons A as ih =>
    obtain ⟨data, p₁, hread, hplaced, hkept, hlen, hcopied⟩ :=
      readSection_run hm h h' (hall A (List.mem_cons_self ..))
    have hrest : ∀ B ∈ as, ∃ k ∈ usedBlocks { m with physMem := p₁ } bits,
        B.toNat = k * 2 ^ bits := by
      intro B hB
      obtain ⟨k, hk, hBk⟩ := hall B (List.mem_cons_of_mem _ hB)
      exact ⟨k, usedBlocks_mono hkept hk, hBk⟩
    obtain ⟨new, p, hrun, haddr, hpieces⟩ := ih (hm.withPhysMem hplaced) hrest
      (added ++ [textSection (added.length + 1) A data])
    have haligned : A &&& BitVec.ofNat 64 (2 ^ bits - 1) = 0 := by
      obtain ⟨k, -, hAk⟩ := hall A (List.mem_cons_self ..)
      exact and_low_eq_zero (by omega) hAk
    refine ⟨textSection (added.length + 1) A data :: new, p, ?_, ?_, ?_⟩
    · rw [saveSections, if_neg (not_not.mpr haligned), EStateM.run_bind, hread]
      dsimp only
      rw [hrun, List.append_assoc, List.singleton_append]
    · rw [List.map_cons, haddr]
      rfl
    · intro s hs
      rcases List.mem_cons.mp hs with rfl | hs
      · exact piece_textSection (by rw [List.length_cons]; omega) hlen hcopied
      · obtain ⟨htype, ⟨count, hcount, hname⟩, hsize, hdeliv, hcopy⟩ := hpieces s hs
        refine ⟨htype, ⟨count, ?_, hname⟩, hsize, hdeliv, hcopy.of_kept hkept⟩
        rw [List.length_append, List.length_singleton] at hcount
        rw [List.length_cons]
        omega

end Blocks

/-- `Save` makes a section for every block of the size it chose. -/
theorem save_run {m : Memory} (hm : Plain m) (compress : Bool) :
    ∃ sections m', (save compress).run m = .ok (some sections) m' ∧
      Enumerates (fileBlockBits m compress) (usedBlocks m (fileBlockBits m compress))
        (sections.map (·.address)) ∧
      ∀ s ∈ sections, Piece m.physMem (fileBlockBits m compress) sections.length s := by
  have hsave : ∀ as, Enumerates (fileBlockBits m compress)
      (usedBlocks m (fileBlockBits m compress)) as →
      ∃ sections m', (saveToElf as (2 ^ fileBlockBits m compress)).run m = .ok (some sections) m' ∧
        Enumerates (fileBlockBits m compress) (usedBlocks m (fileBlockBits m compress))
          (sections.map (·.address)) ∧
        ∀ s ∈ sections, Piece m.physMem (fileBlockBits m compress) sections.length s := by
    intro as henum
    obtain ⟨hlo, hhi⟩ := fileBlockBits_le hm compress
    obtain ⟨sections, p, hrun, haddr, hpieces⟩ := saveSections_run hlo (by omega) hm
      (fun A hA => (henum.mem A).mp hA) []
    refine ⟨sections, _, hrun, haddr ▸ henum, ?_⟩
    rw [← haddr, List.length_map, List.length_nil, Nat.zero_add] at hpieces
    exact hpieces
  cases compress with
  | true =>
    have hbits : fileBlockBits m true = 5 := by rw [fileBlockBits, if_pos (.inl rfl)]
    rw [hbits] at hsave ⊢
    rw [save, EStateM.run_bind, EStateM.run_get]
    exact hsave _ (enumerates_testBlockAddresses hm)
  | false =>
    obtain ⟨hlo, hhi⟩ := fileBlockBits_le hm false
    rw [save, EStateM.run_bind, EStateM.run_get]
    simp only [Bool.false_eq_true, if_false, chooseFileBlockSize_eq hm]
    rw [if_neg (by omega)]
    exact hsave _ (enumerates_setFileBlockAddresses hm hlo (by omega))

end Elfio

namespace ElfSection

open PhysicalMemory (bytesAt)

/-! ### Loading it again -/

/-- The addresses a section covers. -/
def range (s : ElfSection) : Set Nat := Set.Ico s.address.toNat (s.address.toNat + s.size)

theorem isSome_byteAt {s : ElfSection} (hlen : s.bytes.length = s.size) {b : U64}
    (hb : b.toNat ∈ s.range) : (s.byteAt b).isSome := by
  obtain ⟨hlo, hhi⟩ := hb
  rw [byteAt, bytesAt, if_pos hlo, List.getElem?_eq_getElem (by omega), Option.isSome_some]

/-- Sections that agree on a byte, one of which has it, say that byte. -/
theorem lastByte_of_agree {b : U64} {v : Byte} {ss : List ElfSection}
    (hall : ∀ s ∈ ss, ∀ w, s.byteAt b = some w → w = v) (hsome : ∃ s ∈ ss, (s.byteAt b).isSome) :
    lastByte ss b = some v := by
  induction ss with
  | nil => simp at hsome
  | cons s ss ih =>
    rw [lastByte]
    cases hlast : lastByte ss b with
    | some w =>
      have hrest : lastByte ss b = some v := by
        refine ih (fun t ht => hall t (List.mem_cons_of_mem _ ht)) ?_
        by_contra hnone
        push Not at hnone
        rw [lastByte_eq_none_iff.mpr fun t ht => Option.not_isSome_iff_eq_none.mp (hnone t ht)] at hlast
        cases hlast
      rw [← hlast, hrest, Option.some_or]
    | none =>
      rw [Option.none_or]
      obtain ⟨t, ht, hbyte⟩ := hsome
      obtain ⟨w, hw⟩ := Option.isSome_iff_exists.mp hbyte
      rcases List.mem_cons.mp ht with rfl | ht
      · rw [hw, hall t (List.mem_cons_self ..) w hw]
      · rw [lastByte_eq_none_iff.mp hlast t ht] at hw
        cases hw

end ElfSection

namespace Elfio

open ElfSection (lastByte taken)
open Memory (Plain usedBlocks)
open PhysicalMemory (Patched Copied bytesAt)

/-- What is wanted of the sections of an image of `m`: they do not overlap, they cover every
    defined byte, and an empty memory they are loaded into gets the value of each. -/
structure Restores (m : Memory) (sections : List ElfSection) : Prop where
  apart : sections.Pairwise fun s t => Disjoint s.range t.range
  covered : ∀ b, m.physMem.isDefined b = true → ∃ s ∈ sections, b.toNat ∈ s.range
  loaded : ∀ o, ∃ p,
    (load (writtenFile sections)).run (.empty o) = .ok 0 { Memory.empty o with physMem := p } ∧
      ∀ b, m.physMem.isDefined b = true → p.isDefined b = true ∧ p.seen b = m.physMem.seen b

/-- `Save` makes an image of `m` that can be loaded again. -/
def Reloads (m : Memory) (compress : Bool) : Prop :=
  ∃ sections m', (save compress).run m = .ok (some sections) m' ∧ Restores m sections

section Image

variable {m : Memory} {bits : Nat} {sections : List ElfSection}

theorem piece_loadable {n : Nat} {s : ElfSection} (h : Piece m.physMem bits n s)
    (hbound : s.address.toNat + 2 ^ bits ≤ 2 ^ 32) : s.Loadable := by
  obtain ⟨count, -, hname⟩ := h.name
  refine ⟨.inl h.shType, ?_, h.size ▸ Nat.one_le_two_pow, h.size ▸ hbound,
    h.delivered.trans h.size.symm⟩
  rw [ElfSection.isSkipped, hname]
  simp [ElfSection.skippedNames]

/-- The number in a name has at most five digits. -/
theorem piece_name {n : Nat} {s : ElfSection} (h : Piece m.physMem bits n s) (hn : n < 10 ^ 5) :
    s.name.length < sectionNameSize := by
  obtain ⟨count, hcount, hname⟩ := h.name
  have hdigits : (Nat.toDigits 10 count).length ≤ 5 :=
    (Nat.length_toDigits_le_iff (by omega) (by omega)).mpr (by omega)
  have htext : ".text".toList.length = 5 := by decide
  rw [hname, List.length_append, sectionNameSize, htext]
  omega

/-- The string table is passed. -/
theorem stringTable_skipped (names : List Byte) : (stringTable names).isContents = false := by
  have hskip : (stringTable names).isSkipped = true := rfl
  rw [ElfSection.isContents, hskip]
  rfl

theorem stringTable_name (names : List Byte) : (stringTable names).name.length < sectionNameSize :=
  (by decide : ".shstrtab".toList.length < 1024)

/-- The sections of a written file are those that were added, and a string table. -/
theorem mem_writtenFile {s : ElfSection} (h : s ∈ (writtenFile sections).sections) :
    s ∈ sections ∨ ∃ names, s = stringTable names := by
  rcases List.mem_append.mp h with hs | hs
  · exact .inl hs
  · exact .inr ⟨_, List.mem_singleton.mp hs⟩

variable (henum : Enumerates bits (usedBlocks m bits) (sections.map (·.address)))
include henum

/-- A section is a block. -/
theorem address_of_mem {s : ElfSection} (hs : s ∈ sections) :
    ∃ k ∈ usedBlocks m bits, s.address.toNat = k * 2 ^ bits :=
  (henum.mem s.address).mp (List.mem_map.mpr ⟨s, hs, rfl⟩)

/-- A file with too many sections leaves memory empty. -/
theorem image_not_loaded (hcount : shnLoreserve ≤ sections.length + 2) (o : Oracle) :
    ∃ b, m.physMem.isDefined b = true ∧ ∀ p,
      (load (writtenFile sections)).run (.empty o) = .ok 0 { Memory.empty o with physMem := p } →
      p.isDefined b = false := by
  have hlore : shnLoreserve = 0xff00 := rfl
  have hshnum : (writtenFile sections).shnum = 0 := if_neg (by omega)
  obtain ⟨s, hs⟩ := List.exists_mem_of_length_pos (l := sections) (by omega)
  obtain ⟨k, ⟨b, hdef, -⟩, -⟩ := (henum.mem s.address).mp (List.mem_map.mpr ⟨s, hs, rfl⟩)
  refine ⟨b, hdef, fun p hrun => ?_⟩
  rw [load, loadAt, hshnum, loadSections] at hrun
  have hempty : p = (Memory.empty o).physMem :=
    (congrArg Memory.physMem (EStateM.Result.ok.inj hrun).2).symm
  rw [hempty]
  rfl

variable (hpieces : ∀ s ∈ sections, Piece m.physMem bits sections.length s)
include hpieces

/-- Different blocks do not overlap. -/
theorem sections_apart : sections.Pairwise fun s t => Disjoint s.range t.range := by
  have hnodup : sections.Pairwise fun s t => s.address ≠ t.address :=
    List.pairwise_map.mp henum.nodup
  refine hnodup.imp_of_mem fun {s t} hs ht hne => ?_
  obtain ⟨k, -, hk⟩ := address_of_mem henum hs
  obtain ⟨l, -, hl⟩ := address_of_mem henum ht
  rw [ElfSection.range, ElfSection.range, (hpieces s hs).size, (hpieces t ht).size, hk, hl,
    Set.disjoint_left]
  rintro x ⟨hkx, hxk⟩ ⟨hlx, hxl⟩
  rw [← Nat.succ_mul] at hxk hxl
  have hkl : k < l + 1 := Nat.lt_of_mul_lt_mul_right (Nat.lt_of_le_of_lt hkx hxl)
  have hlk : l < k + 1 := Nat.lt_of_mul_lt_mul_right (Nat.lt_of_le_of_lt hlx hxk)
  exact hne (BitVec.eq_of_toNat_eq (by rw [hk, hl, show k = l by omega]))

/-- Every defined byte is in a block that is written. -/
theorem sections_covered {b : U64} (hdef : m.physMem.isDefined b = true) :
    ∃ s ∈ sections, b.toNat ∈ s.range := by
  have hpos : 0 < 2 ^ bits := Nat.two_pow_pos bits
  have hused : b.toNat / 2 ^ bits ∈ usedBlocks m bits := ⟨b, hdef, rfl⟩
  have haddr : (BitVec.ofNat 64 (b.toNat / 2 ^ bits * 2 ^ bits)).toNat =
      b.toNat / 2 ^ bits * 2 ^ bits := by
    rw [BitVec.toNat_ofNat, Nat.mod_eq_of_lt (henum.inside _ hused)]
  obtain ⟨s, hs, hsa⟩ := List.mem_map.mp ((henum.mem _).mpr ⟨_, hused, haddr⟩)
  refine ⟨s, hs, ?_⟩
  rw [ElfSection.range, (hpieces s hs).size, hsa, haddr]
  exact ⟨Nat.div_mul_le_self _ _, Nat.lt_div_mul_add hpos⟩

/-- What the sections say of a defined byte is its value. -/
theorem lastByte_sections {b : U64} {v : Byte} (hdef : m.physMem.isDefined b = true)
    (hseen : m.physMem.seen b = some v) : lastByte sections b = some v := by
  refine ElfSection.lastByte_of_agree ?_ ?_
  · intro s hs w hw
    have hcopy := (hpieces s hs).copied b w hdef hw
    rw [hseen] at hcopy
    exact (Option.some.inj hcopy).symm
  · obtain ⟨s, hs, hb⟩ := sections_covered henum hpieces hdef
    exact ⟨s, hs, ElfSection.isSome_byteAt
      ((hpieces s hs).delivered.trans (hpieces s hs).size.symm) hb⟩

variable (hm : Plain m) (hbits : bits ≤ 24)
include hm hbits

theorem loadable_of_mem {s : ElfSection} (hs : s ∈ sections) : s.Loadable := by
  obtain ⟨k, hk, haddr⟩ := address_of_mem henum hs
  exact piece_loadable (hpieces s hs) (haddr ▸ usedBlock_bound hm (by omega) hk)

theorem writtenFile_ready (o : Oracle) :
    ∀ s ∈ (writtenFile sections).sections, Ready (.empty o) s := by
  intro s hs hcontents
  rcases mem_writtenFile hs with hs | ⟨names, rfl⟩
  · exact ⟨.inl (loadable_of_mem henum hpieces hm hbits hs), fun b _ => Memory.deviceAt_nil rfl b⟩
  · rw [stringTable_skipped] at hcontents
    cases hcontents

/-- `Load` takes the sections that were added. -/
theorem writtenFile_taken : (writtenFile sections).sections.filter taken = sections := by
  have hall : sections.filter taken = sections := by
    refine List.filter_eq_self.mpr fun s hs => ?_
    have hlt : 2 ^ bits < 2 ^ 31 := Nat.pow_lt_pow_right (by omega) (by omega)
    rw [taken, (loadable_of_mem henum hpieces hm hbits hs).isContents, (hpieces s hs).size,
      decide_eq_true hlt]
    rfl
  rw [writtenFile, List.filter_append, hall, List.filter_singleton, taken, stringTable_skipped]
  exact List.append_nil _

/-- A file whose sections are counted in `e_shnum` brings the bytes back. -/
theorem image_loaded (hcount : sections.length + 2 < shnLoreserve) (o : Oracle) :
    ∃ p, (load (writtenFile sections)).run (.empty o) = .ok 0 { Memory.empty o with physMem := p } ∧
      ∀ b, m.physMem.isDefined b = true → p.isDefined b = true ∧ p.seen b = m.physMem.seen b := by
  have hlore : shnLoreserve = 0xff00 := rfl
  have hshnum : (writtenFile sections).shnum = sections.length + 2 := if_pos hcount
  have hall : (writtenFile sections).sections.take (sections.length + 2) =
      (writtenFile sections).sections :=
    List.take_of_length_le (by
      rw [writtenFile, List.length_append, List.length_singleton]
      omega)
  have hnames : ∀ s ∈ (writtenFile sections).sections.take (sections.length + 2),
      s.name.length < sectionNameSize := by
    intro s hs
    rw [hall] at hs
    rcases mem_writtenFile hs with hs | ⟨names, rfl⟩
    · exact piece_name (hpieces s hs) (by omega)
    · exact stringTable_name names
  have hrange : (Memory.empty o).DefaultRange := ⟨rfl, rfl, rfl⟩
  obtain ⟨p, hrun, hpatch⟩ := loadSections_run hrange (sections.length + 2)
    (writtenFile_ready henum hpieces hm hbits o) hnames 0
  rw [hall, writtenFile_taken henum hpieces hm hbits] at hpatch
  refine ⟨p, ?_, fun b hdef => ?_⟩
  · rw [load, loadAt, hshnum]
    exact hrun
  · obtain ⟨v, hv⟩ := PhysicalMemory.seen_of_isDefined hdef
    obtain ⟨hdef', hseen'⟩ :=
      hpatch.covered b v (lastByte_sections henum hpieces hdef hv)
    exact ⟨hdef', hseen'.trans hv.symm⟩

end Image

theorem reloads_of_lt {m : Memory} (hm : Plain m) {compress : Bool}
    (h : (usedBlocks m (fileBlockBits m compress)).ncard + 2 < shnLoreserve) :
    Reloads m compress := by
  obtain ⟨sections, m', hrun, henum, hpieces⟩ := save_run hm compress
  have hbits := (fileBlockBits_le hm compress).2
  have hlen := henum.length
  rw [List.length_map] at hlen
  exact ⟨sections, m', hrun, sections_apart henum hpieces,
    fun b hdef => sections_covered henum hpieces hdef,
    fun o => image_loaded henum hpieces hm hbits (by omega) o⟩

theorem lt_of_reloads {m : Memory} (hm : Plain m) {compress : Bool} (h : Reloads m compress) :
    (usedBlocks m (fileBlockBits m compress)).ncard + 2 < shnLoreserve := by
  obtain ⟨sections, m', hrun, henum, -⟩ := save_run hm compress
  obtain ⟨sections', m'', hrun', hrestores⟩ := h
  obtain rfl : sections = sections' := by
    rw [hrun] at hrun'
    exact Option.some.inj (EStateM.Result.ok.inj hrun').1
  have hlen := henum.length
  rw [List.length_map] at hlen
  by_contra hcount
  obtain ⟨b, hdef, hnone⟩ := image_not_loaded henum (by omega) m.physMem.oracle
  obtain ⟨p, hload, hall⟩ := hrestores.loaded m.physMem.oracle
  have hdef' := (hall b hdef).1
  rw [hnone p hload] at hdef'
  exact Bool.false_ne_true hdef'

/-- For every memory that successful accesses have built, compressed or not: the image `Save`
    writes can be loaded again exactly if its blocks, the null section and the string table are
    fewer than 0xff00 sections. -/
theorem image_reloads_iff (m : Memory.BuiltMemory) (compress : Bool) :
    Reloads m.memory compress ↔
      (usedBlocks m.memory (fileBlockBits m.memory compress)).ncard + 2 < shnLoreserve :=
  ⟨lt_of_reloads m.built.plain, reloads_of_lt m.built.plain⟩

/-! ### Too many sections -/

/-- A memory with a byte in each of the first `n` blocks. -/
def scattered (o : Oracle) : Nat → Memory
  | 0 => .empty o
  | n + 1 => { scattered o n with
      physMem := (scattered o n).physMem.putByte (BitVec.ofNat 64 (32 * n)) 1 false }

theorem scattered_built (o : Oracle) {n : Nat} (hn : n ≤ 2 ^ 27) :
    Memory.Built (scattered o n) := by
  induction n with
  | zero => exact .empty o
  | succ n ih =>
    have hbuilt := ih (by omega)
    have haddr : (BitVec.ofNat 64 (32 * n)).toNat = 32 * n := by
      rw [BitVec.toNat_ofNat]
      omega
    have hrun := Memory.writePhysicalMemory_run hbuilt.plain.range
      (Memory.deviceAt_nil hbuilt.plain.devices _) Nat.one_pos (by omega)
      (Nat.le_refl [(1 : Byte)].length) false (a := BitVec.ofNat 64 (32 * n))
    rw [Memory.low32_of_lt (by omega)] at hrun
    refine hbuilt.access (.write (BitVec.ofNat 64 (32 * n)) [1] false) ?_ hrun
    simp only [Memory.Access.address, Memory.Access.numberOfBytes, List.length_singleton, haddr]
    omega

theorem isDefined_scattered (o : Oracle) {k n : Nat} (hk : k < n) :
    (scattered o n).physMem.isDefined (BitVec.ofNat 64 (32 * k)) = true := by
  induction n with
  | zero => omega
  | succ n ih =>
    rw [scattered, PhysicalMemory.isDefined_putByte]
    rcases Nat.lt_succ_iff_lt_or_eq.mp hk with hlt | rfl
    · rw [ih hlt, Bool.true_or]
    · rw [decide_eq_true rfl, Bool.or_true]

/-- All these blocks are used. -/
theorem le_usedBlocks_scattered (o : Oracle) {n : Nat} (hn : n ≤ 2 ^ 27) :
    n ≤ (usedBlocks (scattered o n) 5).ncard := by
  have hsub : (Finset.range n : Set Nat) ⊆ usedBlocks (scattered o n) 5 := by
    intro k hk
    rw [Finset.coe_range, Set.mem_Iio] at hk
    refine ⟨_, isDefined_scattered o hk, ?_⟩
    rw [BitVec.toNat_ofNat]
    omega
  have hfin : (usedBlocks (scattered o n) 5).Finite := by
    refine (Finset.finite_toSet (Finset.range (2 ^ 64))).subset ?_
    rintro k ⟨b, -, rfl⟩
    have hlt := b.isLt
    rw [Finset.coe_range, Set.mem_Iio]
    omega
  have hle := Set.ncard_le_ncard hsub hfin
  rwa [Set.ncard_coe_finset, Finset.card_range] at hle

/-- A compressed image with 0xfefe blocks loads as if it were empty. -/
theorem compressed_image_is_lost :
    ¬ ∀ (m : Memory.BuiltMemory) (compress : Bool), Reloads m.memory compress := by
  intro h
  obtain ⟨o, -⟩ : ∃ o : Oracle, o.draws = 0 := ⟨{ rand := fun _ => 0, heap := fun _ => 0 }, rfl⟩
  have hbuilt := scattered_built o (n := 0xfefe) (by omega)
  have hlt := lt_of_reloads hbuilt.plain (h ⟨_, hbuilt⟩ true)
  have hbits : fileBlockBits (scattered o 0xfefe) true = 5 := by
    rw [fileBlockBits, if_pos (.inl rfl)]
  have hle := le_usedBlocks_scattered o (n := 0xfefe) (by omega)
  have hlore : shnLoreserve = 0xff00 := rfl
  rw [hbits] at hlt
  omega

end Elfio

end Dimebox
