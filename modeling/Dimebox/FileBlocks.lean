import Dimebox.ElfLoading
import Dimebox.RejectedAccess
import Dimebox.AddressRange
import Mathlib.Data.List.Find
import Mathlib.Data.Set.Card

/-! The blocks a memory image is written in.

    In a memory that successful accesses have built every block has a defined byte or none, and
    those with one are the list `TestBlockAddresses` makes. Masking it to a larger block size and
    dropping what was found before gives the larger blocks with a defined byte, each once; the
    estimate that chooses the size counts the same blocks, the one at address zero left out
    (`chooseFileBlockSize_eq`). -/

namespace Dimebox

namespace PhysicalMemory

/-! ### Stores that accesses have built -/

/-- Every block has its storage and stands under its own address, below 2^32. -/
def Placed (p : PhysicalMemory) : Prop := ∀ B b, p.blocks.lookup B = some b →
  b.Allocated ∧ MemBlock.offset B = 0 ∧ B.toNat < 2 ^ 32

section Placed

variable {p : PhysicalMemory} {a : U64}

theorem Placed.putBlock (h : Placed p) {B : U64} {b : MemBlock} (hb : b.Allocated)
    (hoff : MemBlock.offset B = 0) (hlt : B.toNat < 2 ^ 32) (o : Oracle) :
    Placed (p.putBlock B (b, o)) := by
  intro A c hc
  by_cases hA : A = B
  · subst hA
    rw [PhysicalMemory.putBlock, AList.lookup_insert] at hc
    obtain rfl := Option.some.inj hc
    exact ⟨hb, hoff, hlt⟩
  · rw [PhysicalMemory.putBlock, AList.lookup_insert_ne hA] at hc
    exact h A c hc

theorem offset_blockAddress (a : U64) : MemBlock.offset (MemBlock.blockAddress a) = 0 := by
  rw [MemBlock.offset_eq, MemBlock.blockAddress_toNat]
  omega

theorem blockAddress_lt (h : a.toNat < 2 ^ 32) : (MemBlock.blockAddress a).toNat < 2 ^ 32 := by
  rw [MemBlock.blockAddress_toNat]
  omega

theorem Placed.touch (h : Placed p) (ha : a.toNat < 2 ^ 32) : Placed (p.touch a) :=
  h.putBlock (MemBlock.allocated_allocate _) (offset_blockAddress a) (blockAddress_lt ha) _

theorem Placed.putByte (h : Placed p) (ha : a.toNat < 2 ^ 32) (v : Byte) (iv : Bool) :
    Placed (p.putByte a v iv) :=
  (h.touch ha).putBlock ((allocated_touch p a).writeByte _ v iv) (offset_blockAddress a)
    (blockAddress_lt ha) _

theorem Placed.pullByte (h : Placed p) (ha : a.toNat < 2 ^ 32) (init : Bool) :
    Placed (p.pullByte a init) := by
  rw [PhysicalMemory.pullByte]
  split
  · exact h.putByte ha _ _
  · exact h.touch ha

theorem Placed.putBytes (h : Placed p) (iv : Bool) (buf : List Byte)
    (hlen : a.toNat + buf.length ≤ 2 ^ 32) : Placed (p.putBytes a iv buf) := by
  induction buf generalizing p a with
  | nil => exact h
  | cons v buf ih =>
    rw [List.length_cons] at hlen
    refine ih (h.putByte (by omega) v iv) ?_
    rw [Memory.toNat_succ_of_lt (by omega)]
    omega

theorem Placed.pullBytes (h : Placed p) (init : Bool) (n : Nat) (hlen : a.toNat + n ≤ 2 ^ 32) :
    Placed (p.pullBytes a init n).2.2 := by
  induction n generalizing p a with
  | zero => exact h
  | succ n ih =>
    refine ih (h.pullByte (by omega) init) ?_
    rw [Memory.toNat_succ_of_lt (by omega)]
    omega

/-- A block with a defined byte is in the map. -/
theorem lookup_of_isDefined {b : U64} (h : p.isDefined b = true) :
    p.blocks.lookup (MemBlock.blockAddress b) = some (p.blockAt (MemBlock.blockAddress b)) := by
  cases hlookup : p.blocks.lookup (MemBlock.blockAddress b) with
  | some c => rw [blockAt, hlookup, Option.getD_some]
  | none =>
    rw [isDefined, blockAt, hlookup] at h
    cases h

theorem Placed.lt_of_isDefined (hp : Placed p) {b : U64} (h : p.isDefined b = true) :
    b.toNat < 2 ^ 32 := by
  have hlt := (hp _ _ (lookup_of_isDefined h)).2.2
  rw [MemBlock.blockAddress_toNat] at hlt
  omega

end Placed

end PhysicalMemory

namespace Memory

open PhysicalMemory (Placed)

/-- Memory of the default range without devices, all of whose blocks are in place. -/
structure Plain (m : Memory) : Prop where
  range : m.DefaultRange
  devices : m.devices = []
  placed : m.physMem.Placed

/-- What successful accesses below 2^32 make of an empty memory. -/
inductive Built : Memory → Prop where
  | empty (oracle : Oracle) : Built (.empty oracle)
  | access {m m' : Memory} {rcode : Int} (h : Built m) (x : Access)
      (inside : x.address.toNat + x.numberOfBytes ≤ 2 ^ 32)
      (success : x.perform.run m = .ok rcode m') : Built m'

/-- A memory with its history. -/
structure BuiltMemory where
  memory : Memory
  built : Built memory

theorem Plain.withPhysMem {m : Memory} (h : Plain m) {p : PhysicalMemory} (hp : Placed p) :
    Plain { m with physMem := p } :=
  ⟨h.range.withPhysMem p, h.devices, hp⟩

/-- An access of no bytes or of more than a block fails. -/
theorem Access.perform_invalid {m : Memory} (hm : Plain m) {x : Access}
    (h : x.numberOfBytes ≤ 0 ∨ 32 < x.numberOfBytes) :
    ∃ f m', x.perform.run m = .error f m' := by
  cases x with
  | read a n buf init =>
    simp only [numberOfBytes] at h
    rw [perform, EStateM.run_bind, readPhysicalMemory_of_ram buf init
      (checkAddresses_eq hm.range a n) (deviceAt_nil hm.devices _), map_eq_pure_bind,
      EStateM.run_bind, PhysicalMemory.read_run_invalid h]
    exact ⟨_, _, rfl⟩
  | write a buf iv =>
    simp only [numberOfBytes] at h
    rw [perform, writePhysicalMemory, EStateM.run_bind, EStateM.run_get]
    dsimp only
    rw [EStateM.run_bind, checkAddresses_eq hm.range, Effect.run_lift_ok]
    dsimp only
    rw [deviceAt_nil hm.devices]
    dsimp only [onPhysMem]
    rw [Effect.run_focus, PhysicalMemory.write_run_invalid h]
    exact ⟨_, _, rfl⟩

/-- A successful access keeps what is known of the memory. -/
theorem Plain.access {m m' : Memory} {rcode : Int} (hm : Plain m) (x : Access)
    (inside : x.address.toNat + x.numberOfBytes ≤ 2 ^ 32)
    (success : x.perform.run m = .ok rcode m') : Plain m' := by
  have hsize : 0 < x.numberOfBytes ∧ x.numberOfBytes ≤ 32 := by
    by_contra hinvalid
    obtain ⟨f, m₁, herr⟩ := Access.perform_invalid hm (x := x) (by omega)
    rw [herr] at success
    cases success
  cases x with
  | read a n buf init =>
    simp only [Access.numberOfBytes, Access.address] at hsize inside
    obtain ⟨k, rfl⟩ := Int.eq_ofNat_of_zero_le (Int.le_of_lt hsize.1)
    have hrun := readPhysicalMemory_run hm.range (a := a) (n := k) (deviceAt_nil hm.devices _)
      (by omega) (by omega) buf init
    rw [low32_of_lt (by omega)] at hrun
    rw [Access.perform, EStateM.run_bind, hrun] at success
    obtain ⟨-, rfl⟩ := EStateM.Result.ok.inj success
    exact hm.withPhysMem (hm.placed.pullBytes init k (by omega))
  | write a buf iv =>
    simp only [Access.numberOfBytes, Access.address] at hsize inside
    have hrun := writePhysicalMemory_run hm.range (a := a) (deviceAt_nil hm.devices _)
      (by omega) (by omega) (Nat.le_refl buf.length) iv
    rw [low32_of_lt (by omega), List.take_length] at hrun
    rw [Access.perform, hrun] at success
    obtain ⟨-, rfl⟩ := EStateM.Result.ok.inj success
    exact hm.withPhysMem (hm.placed.putBytes iv buf (by omega))

theorem Built.plain {m : Memory} (h : Built m) : Plain m := by
  induction h with
  | empty oracle => exact ⟨⟨rfl, rfl, rfl⟩, rfl, fun _ _ hb => by cases hb⟩
  | access _ x inside success ih => exact ih.access x inside success

/-! ### Used blocks -/

/-- The blocks of `2 ^ bits` bytes with a defined byte, by number. -/
def usedBlocks (m : Memory) (bits : Nat) : Set Nat :=
  {k | ∃ b, m.physMem.isDefined b = true ∧ b.toNat / 2 ^ bits = k}

end Memory

namespace Elfio

open Memory (Plain usedBlocks)

/-- The addresses of the blocks with numbers in `S`, each once. -/
structure Enumerates (bits : Nat) (S : Set Nat) (as : List U64) : Prop where
  nodup : as.Nodup
  inside : ∀ k ∈ S, k * 2 ^ bits < 2 ^ 64
  mem : ∀ A : U64, A ∈ as ↔ ∃ k ∈ S, A.toNat = k * 2 ^ bits

theorem Enumerates.length {bits : Nat} {S : Set Nat} {as : List U64} (h : Enumerates bits S as) :
    as.length = S.ncard := by
  have hpos : 0 < 2 ^ bits := Nat.two_pow_pos bits
  have hnumber : ∀ A ∈ as, A.toNat / 2 ^ bits * 2 ^ bits = A.toNat := by
    intro A hA
    obtain ⟨k, -, hk⟩ := (h.mem A).mp hA
    rw [hk, Nat.mul_div_cancel k hpos]
  have hnodup : (as.map fun A => A.toNat / 2 ^ bits).Nodup := by
    refine h.nodup.map_on fun A hA B hB hAB => BitVec.eq_of_toNat_eq ?_
    rw [← hnumber A hA, hAB, hnumber B hB]
  have hset : S = ((as.map fun A => A.toNat / 2 ^ bits).toFinset : Set Nat) := by
    ext k
    rw [List.coe_toFinset, Set.mem_ofPred_eq, List.mem_map]
    constructor
    · intro hk
      have hA : (BitVec.ofNat 64 (k * 2 ^ bits)).toNat = k * 2 ^ bits := by
        rw [BitVec.toNat_ofNat, Nat.mod_eq_of_lt (h.inside k hk)]
      exact ⟨_, (h.mem _).mpr ⟨k, hk, hA⟩, by rw [hA, Nat.mul_div_cancel k hpos]⟩
    · rintro ⟨A, hA, rfl⟩
      obtain ⟨k, hk, hAk⟩ := (h.mem A).mp hA
      rwa [hAk, Nat.mul_div_cancel k hpos]
  rw [hset, Set.ncard_coe_finset, List.toFinset_card_of_nodup hnodup, List.length_map]

/-! ### The list of the blocks in memory -/

section TestBlocks

variable {m : Memory}

theorem mem_testBlockAddresses {B : U64} : B ∈ testBlockAddresses m ↔
    ∃ b, m.physMem.blocks.lookup B = some b ∧ 0 < b.byteCount := by
  rw [testBlockAddresses, List.mem_mergeSort, PhysicalMemory.mem_addressList]
  simp

theorem nodup_testBlockAddresses : (testBlockAddresses m).Nodup := by
  rw [testBlockAddresses, (List.mergeSort_perm _ _).nodup_iff]
  exact List.Nodup.sublist (List.filter_sublist.map _) m.physMem.blocks.nodupKeys

theorem sorted_testBlockAddresses : (testBlockAddresses m).Pairwise (· ≤ ·) :=
  List.pairwise_mergeSort' _ _

/-- A byte of a block, by its offset. -/
theorem exists_byte {B : U64} (hB : MemBlock.offset B = 0) {i : Nat} (hi : i < 32) :
    ∃ b, MemBlock.blockAddress b = B ∧ MemBlock.offset b = i := by
  have hlt := B.isLt
  rw [MemBlock.offset_eq] at hB
  have hb : (B + BitVec.ofNat 64 i).toNat = B.toNat + i := by
    rw [BitVec.toNat_add, BitVec.toNat_ofNat]
    omega
  refine ⟨B + BitVec.ofNat 64 i, BitVec.eq_of_toNat_eq ?_, ?_⟩
  · rw [MemBlock.blockAddress_toNat, hb]
    omega
  · rw [MemBlock.offset_eq, hb]
    omega

/-- The list has the blocks with a defined byte. -/
theorem mem_testBlockAddresses_iff (hm : Plain m) {B : U64} : B ∈ testBlockAddresses m ↔
    ∃ b, m.physMem.isDefined b = true ∧ MemBlock.blockAddress b = B := by
  rw [mem_testBlockAddresses]
  constructor
  · rintro ⟨c, hc, hcount⟩
    obtain ⟨halloc, hoff, -⟩ := hm.placed B c hc
    obtain ⟨i, hi⟩ := List.exists_mem_of_length_pos hcount
    obtain ⟨hlt, hfree⟩ := List.mem_filter.mp hi
    obtain ⟨b, hb, hbi⟩ := exists_byte hoff (List.mem_range.mp hlt)
    have hblock : m.physMem.blockAt B = c := by rw [PhysicalMemory.blockAt, hc, Option.getD_some]
    refine ⟨b, ?_, hb⟩
    rw [PhysicalMemory.isDefined, hb, hbi, hblock, MemBlock.isDefined, halloc.1, hfree]
    rfl
  · rintro ⟨b, hdef, rfl⟩
    refine ⟨_, PhysicalMemory.lookup_of_isDefined hdef, Nat.pos_of_ne_zero ?_⟩
    rw [PhysicalMemory.isDefined, MemBlock.isDefined, Bool.and_eq_true, Bool.not_eq_true'] at hdef
    exact MemBlock.byteCount_ne_zero (MemBlock.offset_lt b) hdef.2

end TestBlocks

/-! ### Larger blocks -/

theorem blockMask_toNat {bits : Nat} (h : bits < 64) (a : U64) :
    (a &&& blockMask bits).toNat = a.toNat / 2 ^ bits * 2 ^ bits := MemBlock.toNat_and_not_low h a

/-- A block address passes the check of `SaveToELF`. -/
theorem and_low_eq_zero {bits : Nat} (h : bits < 64) {A : U64} {k : Nat}
    (hA : A.toNat = k * 2 ^ bits) : A &&& BitVec.ofNat 64 (2 ^ bits - 1) = 0 := by
  have hpow : 2 ^ bits < 2 ^ 64 := Nat.pow_lt_pow_right (by omega) h
  apply BitVec.eq_of_toNat_eq
  rw [BitVec.toNat_and, BitVec.toNat_ofNat, Nat.mod_eq_of_lt (by omega),
    Nat.and_two_pow_sub_one_eq_mod, hA, Nat.mul_mod_left]
  rfl

/-- The block of a block is the block of its bytes. -/
theorem blockAddress_div {bits : Nat} (h : 5 ≤ bits) (b : U64) :
    (MemBlock.blockAddress b).toNat / 2 ^ bits = b.toNat / 2 ^ bits := by
  have hpow : 2 ^ bits = 32 * 2 ^ (bits - 5) := by
    rw [show (32 : Nat) = 2 ^ 5 from rfl, ← Nat.pow_add, Nat.add_sub_cancel' h]
  rw [MemBlock.blockAddress_toNat, hpow, ← Nat.div_div_eq_div_mul, ← Nat.div_div_eq_div_mul,
    Nat.mul_div_cancel _ (by omega)]

section Larger

variable {m : Memory} {bits : Nat}

/-- The blocks that are in memory, masked. -/
theorem exists_masked_iff (hm : Plain m) (h : 5 ≤ bits) (h' : bits < 64) (A : U64) :
    (∃ a ∈ testBlockAddresses m, a &&& blockMask bits = A) ↔
      ∃ k ∈ usedBlocks m bits, A.toNat = k * 2 ^ bits := by
  constructor
  · rintro ⟨a, ha, rfl⟩
    obtain ⟨b, hdef, rfl⟩ := (mem_testBlockAddresses_iff hm).mp ha
    exact ⟨_, ⟨b, hdef, rfl⟩, by rw [blockMask_toNat h', blockAddress_div h]⟩
  · rintro ⟨_, ⟨b, hdef, rfl⟩, hA⟩
    refine ⟨MemBlock.blockAddress b, (mem_testBlockAddresses_iff hm).mpr ⟨b, hdef, rfl⟩, ?_⟩
    exact BitVec.eq_of_toNat_eq (by rw [blockMask_toNat h', blockAddress_div h, hA])

theorem usedBlocks_inside {k : Nat} (hk : k ∈ usedBlocks m bits) : k * 2 ^ bits < 2 ^ 64 := by
  obtain ⟨b, -, rfl⟩ := hk
  exact Nat.lt_of_le_of_lt (Nat.div_mul_le_self _ _) b.isLt

theorem mem_setFileBlockAddresses (mask A : U64) (as seen : List U64) :
    A ∈ setFileBlockAddresses mask seen as ↔ A ∉ seen ∧ ∃ a ∈ as, a &&& mask = A := by
  induction as generalizing seen with
  | nil => simp [setFileBlockAddresses]
  | cons a as ih =>
    rw [setFileBlockAddresses, List.exists_mem_cons_iff]
    split
    · next hseen =>
      rw [ih]
      constructor
      · rintro ⟨hnot, hmem⟩
        exact ⟨hnot, .inr hmem⟩
      · rintro ⟨hnot, rfl | hmem⟩
        · exact absurd hseen hnot
        · exact ⟨hnot, hmem⟩
    · next hseen =>
      rw [List.mem_cons, ih, List.mem_cons, not_or]
      constructor
      · rintro (rfl | ⟨⟨-, hnot⟩, hmem⟩)
        · exact ⟨hseen, .inl rfl⟩
        · exact ⟨hnot, .inr hmem⟩
      · rintro ⟨hnot, hmem⟩
        by_cases hA : A = a &&& mask
        · exact .inl hA
        · exact .inr ⟨⟨hA, hnot⟩, hmem.resolve_left fun h => hA h.symm⟩

theorem nodup_setFileBlockAddresses (mask : U64) (as seen : List U64) :
    (setFileBlockAddresses mask seen as).Nodup := by
  induction as generalizing seen with
  | nil => exact List.nodup_nil
  | cons a as ih =>
    rw [setFileBlockAddresses]
    split
    · exact ih seen
    · refine List.nodup_cons.mpr ⟨fun hmem => ?_, ih _⟩
      exact ((mem_setFileBlockAddresses mask _ as _).mp hmem).1 (List.mem_cons_self ..)

/-- `TestBlockAddresses` lists the memory blocks. -/
theorem enumerates_testBlockAddresses (hm : Plain m) :
    Enumerates 5 (usedBlocks m 5) (testBlockAddresses m) := by
  refine ⟨nodup_testBlockAddresses, fun _ => usedBlocks_inside, fun A => ?_⟩
  rw [mem_testBlockAddresses_iff hm]
  constructor
  · rintro ⟨b, hdef, rfl⟩
    exact ⟨_, ⟨b, hdef, rfl⟩, MemBlock.blockAddress_toNat b⟩
  · rintro ⟨_, ⟨b, hdef, rfl⟩, hA⟩
    exact ⟨b, hdef, BitVec.eq_of_toNat_eq ((MemBlock.blockAddress_toNat b).trans hA.symm)⟩

/-- `SetFileBlockAddresses` lists the larger ones. -/
theorem enumerates_setFileBlockAddresses (hm : Plain m) (h : 5 ≤ bits) (h' : bits < 64) :
    Enumerates bits (usedBlocks m bits)
      (setFileBlockAddresses (blockMask bits) [] (testBlockAddresses m)) := by
  refine ⟨nodup_setFileBlockAddresses _ _ _, fun _ => usedBlocks_inside, fun A => ?_⟩
  rw [mem_setFileBlockAddresses, ← exists_masked_iff hm h h']
  simp

/-! ### The block size -/

theorem mem_mergedBlocks (mask A : U64) {as : List U64} {current : U64}
    (hsorted : as.Pairwise fun a b => a &&& mask ≤ b &&& mask)
    (hle : ∀ a ∈ as, current ≤ a &&& mask) :
    A ∈ mergedBlocks mask current as ↔ A ≠ current ∧ ∃ a ∈ as, a &&& mask = A := by
  induction as generalizing current with
  | nil => simp [mergedBlocks]
  | cons a as ih =>
    obtain ⟨hfirst, hsorted⟩ := List.pairwise_cons.mp hsorted
    rw [mergedBlocks, List.exists_mem_cons_iff]
    split
    · next hne =>
      rw [List.mem_cons, ih hsorted hfirst]
      constructor
      · rintro (rfl | ⟨hA, hmem⟩)
        · exact ⟨hne, .inl rfl⟩
        · refine ⟨?_, .inr hmem⟩
          -- the blocks go up, so none comes back to the current one
          rintro rfl
          obtain ⟨b, hb, hbA⟩ := hmem
          exact hA (BitVec.le_antisymm (hle a (List.mem_cons_self ..)) (hbA ▸ hfirst b hb))
      · rintro ⟨hcur, hmem⟩
        by_cases hA : A = a &&& mask
        · exact .inl hA
        · exact .inr ⟨hA, hmem.resolve_left fun h => hA h.symm⟩
    · next heq =>
      rw [ih hsorted fun b hb => hle b (List.mem_cons_of_mem _ hb)]
      constructor
      · rintro ⟨hcur, hmem⟩
        exact ⟨hcur, .inr hmem⟩
      · rintro ⟨hcur, hmem⟩
        exact ⟨hcur, hmem.resolve_left fun h => hcur (h.symm.trans (not_not.mp heq))⟩

theorem nodup_mergedBlocks (mask : U64) {as : List U64} {current : U64}
    (hsorted : as.Pairwise fun a b => a &&& mask ≤ b &&& mask)
    (hle : ∀ a ∈ as, current ≤ a &&& mask) : (mergedBlocks mask current as).Nodup := by
  induction as generalizing current with
  | nil => exact List.nodup_nil
  | cons a as ih =>
    obtain ⟨hfirst, hsorted⟩ := List.pairwise_cons.mp hsorted
    rw [mergedBlocks]
    split
    · refine List.nodup_cons.mpr ⟨fun hmem => ?_, ih hsorted hfirst⟩
      exact ((mem_mergedBlocks mask _ hsorted hfirst).mp hmem).1 rfl
    · exact ih hsorted fun b hb => hle b (List.mem_cons_of_mem _ hb)

theorem mask_mono {a b : U64} (h' : bits < 64) (h : a ≤ b) :
    a &&& blockMask bits ≤ b &&& blockMask bits := by
  rw [BitVec.le_def, blockMask_toNat h', blockMask_toNat h']
  exact Nat.mul_le_mul_right _ (Nat.div_le_div_right (BitVec.le_def.mp h))

/-- `estimateELFFileSize` counts the blocks behind the one at address zero. -/
theorem estimatedBlockCount_eq (hm : Plain m) (h : 5 ≤ bits) (h' : bits < 64) :
    estimatedBlockCount (testBlockAddresses m) bits = (usedBlocks m bits \ {0}).ncard := by
  have hsorted : (testBlockAddresses m).Pairwise
      fun a b => a &&& blockMask bits ≤ b &&& blockMask bits :=
    sorted_testBlockAddresses.imp fun hab => mask_mono h' hab
  have hle : ∀ a ∈ testBlockAddresses m, 0 ≤ a &&& blockMask bits :=
    fun _ _ => BitVec.le_def.mpr (Nat.zero_le _)
  have henum : Enumerates bits (usedBlocks m bits \ {0})
      (mergedBlocks (blockMask bits) 0 (testBlockAddresses m)) := by
    refine ⟨nodup_mergedBlocks _ hsorted hle, fun k hk => usedBlocks_inside hk.1, fun A => ?_⟩
    rw [mem_mergedBlocks _ _ hsorted hle, exists_masked_iff hm h h']
    constructor
    · rintro ⟨hA, k, hk, hAk⟩
      refine ⟨k, ⟨hk, fun h0 => hA (BitVec.eq_of_toNat_eq ?_)⟩, hAk⟩
      rw [hAk, Set.mem_singleton_iff.mp h0, Nat.zero_mul]
      rfl
    · rintro ⟨k, ⟨hk, h0⟩, hAk⟩
      refine ⟨?_, k, hk, hAk⟩
      rintro rfl
      have hzero : k * 2 ^ bits = 0 := hAk.symm
      exact h0 ((Nat.mul_eq_zero.mp hzero).resolve_right (Nat.two_pow_pos bits).ne')
  exact henum.length

/-- The size, in bits, of the blocks a file is written in: the first trial size with fewer blocks
    than `ELF_MAX_SECTIONS`. The block at address zero is left out except for memory blocks. -/
noncomputable def fileBlockBits (m : Memory) (compress : Bool) : Nat :=
  if compress = true ∨ (usedBlocks m 5).ncard < elfMaxSections then 5
  else (trialBlockSizes.find? fun b => (usedBlocks m b \ {0}).ncard < elfMaxSections).getD 32

/-- There are no more than 256 blocks of 2^24 bytes. -/
theorem usedBlocks_largest (hm : Plain m) : (usedBlocks m 24 \ {0}).ncard < elfMaxSections := by
  have hsub : usedBlocks m 24 \ {0} ⊆ (Finset.range 256 : Set Nat) := by
    rintro k ⟨⟨b, hdef, rfl⟩, -⟩
    have hlt := hm.placed.lt_of_isDefined hdef
    rw [Finset.coe_range, Set.mem_Iio]
    omega
  have hle := Set.ncard_le_ncard hsub (Finset.finite_toSet _)
  rw [Set.ncard_coe_finset, Finset.card_range] at hle
  exact Nat.lt_of_le_of_lt hle (by decide)

/-- So a trial size up to that one is found. -/
theorem find_trialBlockSizes {p : Nat → Bool} (h : p 24 = true) :
    ∃ b, trialBlockSizes.find? p = some b ∧ p b = true ∧ 5 ≤ b ∧ b ≤ 24 := by
  have hsplit : trialBlockSizes = [12, 13, 14, 15, 16, 20, 24] ++ [32] := rfl
  obtain ⟨b, hb⟩ := Option.isSome_iff_exists.mp
    (List.find?_isSome.mpr ⟨24, by decide, h⟩ : ([12, 13, 14, 15, 16, 20, 24].find? p).isSome)
  have hrange : ∀ b ∈ [12, 13, 14, 15, 16, 20, 24], 5 ≤ b ∧ b ≤ 24 := by decide
  refine ⟨b, ?_, List.find?_some hb, hrange b (List.mem_of_find?_eq_some hb)⟩
  rw [hsplit, List.find?_append, hb, Option.some_or]

theorem fileBlockBits_le (hm : Plain m) (compress : Bool) :
    5 ≤ fileBlockBits m compress ∧ fileBlockBits m compress ≤ 24 := by
  rw [fileBlockBits]
  split
  · omega
  · obtain ⟨b, hfind, -, hb⟩ := find_trialBlockSizes
      (p := fun b => (usedBlocks m b \ {0}).ncard < elfMaxSections)
      (decide_eq_true (usedBlocks_largest hm))
    rw [hfind]
    exact hb

/-- `ChooseFileBlockSize` finds that size. -/
theorem chooseFileBlockSize_eq (hm : Plain m) :
    chooseFileBlockSize (testBlockAddresses m) = some (fileBlockBits m false) := by
  have hcount := (enumerates_testBlockAddresses hm).length
  rw [chooseFileBlockSize, fileBlockBits, hcount]
  simp only [Bool.false_eq_true, false_or]
  split
  · rfl
  · obtain ⟨b, hfind, hp, hb, hb'⟩ := find_trialBlockSizes
      (p := fun b => (usedBlocks m b \ {0}).ncard < elfMaxSections)
      (decide_eq_true (usedBlocks_largest hm))
    have hsame : (trialBlockSizes.find? fun b =>
        estimatedBlockCount (testBlockAddresses m) b < elfMaxSections) =
        trialBlockSizes.find? fun b => (usedBlocks m b \ {0}).ncard < elfMaxSections := by
      have htrial : ∀ b ∈ trialBlockSizes, 5 ≤ b ∧ b < 64 := by decide
      refine List.find?_congr fun b hmem => ?_
      rw [estimatedBlockCount_eq hm (htrial b hmem).1 (htrial b hmem).2]
    rw [hsame, hfind, Option.getD_some, estimatedBlockCount_eq hm hb (by omega), if_neg]
    exact Nat.not_lt.mpr (Nat.le_of_lt (of_decide_eq_true hp))

end Larger

end Elfio

end Dimebox
