import Dimebox.PhysicalMemory
import Dimebox.Lib.Cells

/-! The block store byte by byte.

    Every access of one to 32 bytes is the same as accesses to its bytes, one after the other, at
    addresses that wrap modulo 2^64 (`write_run`, `read_run`): the split at a block boundary, the
    exception that signals it and the empty block it leaves behind are not visible. What a byte
    access does is then said once, by `seen` (the value a read would return, once the block is
    allocated) and `isDefined` (whether the byte is no longer free). -/

namespace Dimebox

namespace MemBlock

/-! ### Addresses -/

theorem offset_eq (a : U64) : offset a = a.toNat % 32 := by
  rw [offset, BitVec.toNat_and]
  exact Nat.and_two_pow_sub_one_eq_mod a.toNat 5

theorem offset_lt (a : U64) : offset a < 32 := by
  rw [offset_eq]; omega

/-- An address with its lower bits cleared. -/
theorem toNat_and_not_low {bits : Nat} (h : bits < 64) (a : U64) :
    (a &&& ~~~((1#64 <<< bits) - 1#64)).toNat = a.toNat / 2 ^ bits * 2 ^ bits := by
  have hpos : 0 < 2 ^ bits := Nat.two_pow_pos bits
  have hlt : 2 ^ bits < 2 ^ 64 := Nat.pow_lt_pow_right (by omega) h
  have hone : (1#64 <<< bits).toNat = 2 ^ bits := by
    rw [BitVec.toNat_shiftLeft, Nat.shiftLeft_eq, BitVec.toNat_ofNat, Nat.mod_eq_of_lt] <;> omega
  have hsub : ((1#64 <<< bits) - 1#64).toNat = 2 ^ bits - 1 := by
    rw [BitVec.toNat_sub, hone, BitVec.toNat_ofNat]
    omega
  have heq : a &&& ~~~((1#64 <<< bits) - 1#64) = (a >>> bits) <<< bits := by
    apply BitVec.eq_of_getLsbD_eq
    intro i hi
    have hlow : ((1#64 <<< bits) - 1#64).getLsbD i = decide (i < bits) := by
      rw [BitVec.getLsbD, hsub, Nat.testBit_two_pow_sub_one]
    simp only [BitVec.getLsbD_and, BitVec.getLsbD_not, hlow, hi, BitVec.getLsbD_shiftLeft,
      BitVec.getLsbD_ushiftRight]
    by_cases hb : i < bits
    · simp [hb]
    · simp [hb, Nat.add_sub_cancel' (Nat.le_of_not_lt hb)]
  have hle : a.toNat / 2 ^ bits * 2 ^ bits ≤ a.toNat := Nat.div_mul_le_self _ _
  have hbound := a.isLt
  rw [heq, BitVec.toNat_shiftLeft, BitVec.toNat_ushiftRight, Nat.shiftRight_eq_div_pow,
    Nat.shiftLeft_eq, Nat.mod_eq_of_lt (by omega)]

theorem blockAddress_toNat (a : U64) : (blockAddress a).toNat = a.toNat / 32 * 32 :=
  toNat_and_not_low (by omega : 5 < 64) a

/-- A byte address is its block and its offset. -/
theorem blockAddress_offset_inj {a b : U64} (hb : blockAddress a = blockAddress b)
    (ho : offset a = offset b) : a = b := by
  have hb' := congrArg BitVec.toNat hb
  rw [blockAddress_toNat, blockAddress_toNat] at hb'
  rw [offset_eq, offset_eq] at ho
  exact BitVec.eq_of_toNat_eq (by omega)

theorem toNat_succ (a : U64) : (a + 1).toNat = (a.toNat + 1) % 2 ^ 64 := BitVec.toNat_add a 1

theorem succ_add_ofNat (a : U64) (k : Nat) :
    a + 1 + BitVec.ofNat 64 k = a + BitVec.ofNat 64 (k + 1) := by
  rw [BitVec.add_assoc, BitVec.ofNat_add]
  exact congrArg (a + ·) (BitVec.add_comm 1#64 _)

theorem blockAddress_succ {a : U64} (h : offset a + 1 < 32) :
    blockAddress (a + 1) = blockAddress a := by
  apply BitVec.eq_of_toNat_eq
  have := a.isLt
  rw [offset_eq] at h
  rw [blockAddress_toNat, blockAddress_toNat, toNat_succ]
  omega

theorem offset_succ {a : U64} (h : offset a + 1 < 32) : offset (a + 1) = offset a + 1 := by
  have := a.isLt
  rw [offset_eq] at h ⊢
  rw [offset_eq, toNat_succ]
  omega

theorem toNat_nextBlock (a : U64) :
    (a + BitVec.ofNat 64 (32 - offset a)).toNat = (a.toNat + (32 - offset a)) % 2 ^ 64 := by
  rw [BitVec.toNat_add, BitVec.toNat_ofNat]
  omega

theorem blockAddress_nextBlock (a : U64) :
    blockAddress (a + BitVec.ofNat 64 (32 - offset a)) = blockAddress a + 32 := by
  apply BitVec.eq_of_toNat_eq
  have h32 : (blockAddress a + 32).toNat = ((blockAddress a).toNat + 32) % 2 ^ 64 :=
    BitVec.toNat_add _ 32
  have := a.isLt
  rw [h32, blockAddress_toNat, blockAddress_toNat, toNat_nextBlock, offset_eq]
  omega

theorem offset_nextBlock (a : U64) : offset (a + BitVec.ofNat 64 (32 - offset a)) = 0 := by
  have := a.isLt
  rw [offset_eq, toNat_nextBlock, offset_eq]
  omega

/-! ### One block -/

theorem byteIsFree_eq (b : MemBlock) (i : Nat) : b.byteIsFree i = b.freeBytes.getLsbD i := by
  rw [byteIsFree, ← BitVec.twoPow_eq, BitVec.and_twoPow]
  by_cases h : b.freeBytes.getLsbD i
  · have hi : i < 64 := by
      by_contra hc
      simp [BitVec.getLsbD_of_ge _ _ (Nat.le_of_not_lt hc)] at h
    have hne : BitVec.twoPow 64 i ≠ 0 := by
      intro h0
      have := congrArg (·.getLsbD i) h0
      simp [hi] at this
    rw [if_pos h, h]
    exact decide_eq_true hne
  · simp [h]

theorem byteIsFree_writeByte (b : MemBlock) (i : Nat) (v : Byte) (iv : Bool) (j : Nat) :
    (b.writeByte i v iv).byteIsFree j = (b.byteIsFree j && decide (j ≠ i)) := by
  rw [byteIsFree_eq, byteIsFree_eq, writeByte, ← BitVec.twoPow_eq]
  by_cases hj : j < 64
  · simp [hj, eq_comm]
  · simp [BitVec.getLsbD_of_ge _ _ (Nat.le_of_not_lt hj)]

/-- The value a read of byte `i` returns, if the block already decides it. -/
def seen (b : MemBlock) (i : Nat) : Option Byte :=
  b.mptr.bind fun mem => if b.byteIsFree i then b.mptrInit.map (· i) else some (mem i)

/-- Byte `i` has been written, or initialised by a read. -/
def isDefined (b : MemBlock) (i : Nat) : Bool := b.mptr.isSome && !b.byteIsFree i

/-- Both buffers are there. -/
def Allocated (b : MemBlock) : Prop := b.mptr.isSome ∧ b.mptrInit.isSome

/-- The first thing every access does. -/
def allocate (bo : MemBlock × Oracle) : MemBlock × Oracle := allocateInitBlock (allocateBlock bo)

theorem allocated_allocate (bo : MemBlock × Oracle) : (allocate bo).1.Allocated := by
  obtain ⟨⟨mptr, mptrInit, _, _⟩, o⟩ := bo
  cases mptr <;> cases mptrInit <;> exact ⟨rfl, rfl⟩

theorem allocate_of_allocated {b : MemBlock} (h : b.Allocated) (o : Oracle) :
    allocate (b, o) = (b, o) := by
  obtain ⟨mptr, mptrInit, _, _⟩ := b
  obtain ⟨h₁, h₂⟩ := h
  cases mptr with
  | none => cases h₁
  | some _ => cases mptrInit with
    | none => cases h₂
    | some _ => rfl

theorem allocate_idem (bo : MemBlock × Oracle) : allocate (allocate bo) = allocate bo :=
  allocate_of_allocated (allocated_allocate bo) _

/-- Allocation decides bytes that were open and changes none that was decided. -/
theorem seen_allocate {b : MemBlock} {o : Oracle} {i : Nat} {v : Byte} (h : b.seen i = some v) :
    (allocate (b, o)).1.seen i = some v := by
  obtain ⟨mptr, mptrInit, free, ini⟩ := b
  cases mptr with
  | none => simp [seen] at h
  | some mem => cases mptrInit with
    | some mem' => rw [allocate_of_allocated ⟨rfl, rfl⟩]; exact h
    | none =>
      have hfree : ¬ byteIsFree ⟨some mem, none, free, ini⟩ i := by
        intro hf; simp [seen, hf] at h
      have hfree' : ¬ (allocate (⟨some mem, none, free, ini⟩, o)).1.byteIsFree i := hfree
      have hmem : (allocate (⟨some mem, none, free, ini⟩, o)).1.mptr = some mem := rfl
      have hv : mem i = v := by simpa [seen, hfree] using h
      rw [seen, hmem, Option.bind_some, if_neg hfree', hv]

theorem isDefined_allocate (b : MemBlock) (o : Oracle) {i : Nat} (hi : i < 32) :
    (allocate (b, o)).1.isDefined i = b.isDefined i := by
  obtain ⟨mptr, mptrInit, free, ini⟩ := b
  cases mptr with
  | none =>
    have hfree : byteIsFree (allocate (⟨none, mptrInit, free, ini⟩, o)).1 i := by
      have hall : (allocate (⟨none, mptrInit, free, ini⟩, o)).1.freeBytes = BitVec.allOnes 64 := by
        cases mptrInit <;> rfl
      rw [byteIsFree_eq, hall, BitVec.getLsbD_allOnes]
      exact decide_eq_true (by omega)
    simp [isDefined, hfree]
  | some mem => cases mptrInit <;> rfl

theorem Allocated.writeByte {b : MemBlock} (h : b.Allocated) (i : Nat) (v : Byte) (iv : Bool) :
    (b.writeByte i v iv).Allocated := by
  refine ⟨by simpa [MemBlock.writeByte] using h.1, ?_⟩
  cases iv
  · exact h.2
  · simpa [MemBlock.writeByte] using h.2

theorem seen_writeByte {b : MemBlock} (h : b.Allocated) (i : Nat) (v : Byte) (iv : Bool) (j : Nat) :
    (b.writeByte i v iv).seen j = if j = i then some v else b.seen j := by
  obtain ⟨mem, hmem⟩ := Option.isSome_iff_exists.mp h.1
  obtain ⟨ini, hini⟩ := Option.isSome_iff_exists.mp h.2
  unfold seen
  rw [byteIsFree_writeByte]
  by_cases hj : j = i
  · simp [MemBlock.writeByte, hmem, hj]
  · cases iv <;> simp [MemBlock.writeByte, hmem, hini, hj]

theorem isDefined_writeByte {b : MemBlock} (h : b.Allocated) (i : Nat) (v : Byte) (iv : Bool)
    (j : Nat) : (b.writeByte i v iv).isDefined j = (b.isDefined j || decide (j = i)) := by
  have hm : (b.writeByte i v iv).mptr.isSome = true := (h.writeByte i v iv).1
  have hb : b.mptr.isSome = true := h.1
  rw [isDefined, isDefined, byteIsFree_writeByte, hm, hb]
  by_cases hj : j = i <;> simp [hj]

theorem byteIsFree_writeBytes (iv : Bool) (j : Nat) (buf : List Byte) (b : MemBlock) (off : Nat) :
    (b.writeBytes off iv buf).byteIsFree j
      = (b.byteIsFree j && !decide (off ≤ j ∧ j < off + buf.length)) := by
  induction buf generalizing b off with
  | nil =>
    have hnone : ¬ (off ≤ j ∧ j < off + ([] : List Byte).length) := by
      simp only [List.length_nil]; omega
    rw [writeBytes, decide_eq_false hnone, Bool.not_false, Bool.and_true]
  | cons v buf ih =>
    rw [writeBytes, ih, byteIsFree_writeByte, Bool.and_assoc]
    congr 1
    rw [← decide_not, ← decide_not, ← Bool.decide_and]
    exact decide_eq_decide.mpr (by simp only [List.length_cons]; omega)

/-- After a read with `init_if_free` the bytes read are not free. -/
theorem byteIsFree_readBytes (j n : Nat) (b : MemBlock) (off : Nat) :
    (b.readBytes off true n).2.2.byteIsFree j
      = (b.byteIsFree j && !decide (off ≤ j ∧ j < off + n)) := by
  induction n generalizing b off with
  | zero =>
    have hnone : ¬ (off ≤ j ∧ j < off + 0) := by omega
    rw [readBytes, decide_eq_false hnone, Bool.not_false, Bool.and_true]
  | succ n ih =>
    have hrange : (decide (off + 1 ≤ j ∧ j < off + 1 + n) || decide (j = off))
        = decide (off ≤ j ∧ j < off + (n + 1)) := by
      rw [← Bool.decide_or]
      exact decide_eq_decide.mpr (by omega)
    simp only [readBytes]
    rw [ih, ← hrange]
    cases hfree : b.byteIsFree off
    · by_cases hj : j = off
      · subst hj; simp [hfree]
      · simp [hj]
    · by_cases hj : j = off
      · subst hj; simp [byteIsFree_writeByte]
      · simp [byteIsFree_writeByte, hj]

/-- A block with a byte that is not free has a positive byte count. -/
theorem byteCount_ne_zero {b : MemBlock} {i : Nat} (hi : i < 32) (h : b.byteIsFree i = false) :
    b.byteCount ≠ 0 := by
  rw [byteCount, ne_eq, List.length_eq_zero_iff, List.filter_eq_nil_iff]
  intro hall
  exact hall i (List.mem_range.mpr hi) (by simp [h])

theorem validateAccess_ok {off n : Nat} (hn : 0 < n) (h : off + n ≤ 32) :
    validateAccess off n = .ok () := by
  rw [validateAccess, if_neg (by omega), if_neg (by omega), if_neg (by omega)]

theorem validateAccess_split {off n : Nat} (hoff : off < 32) (hn : n ≤ 32) (h : 32 < off + n) :
    validateAccess off n = .error (.mblock .splitAccess) := by
  rw [validateAccess, if_neg (by omega), if_neg (by omega), if_pos (by omega)]

/-- `MemBlock::Write` inside the block. -/
theorem write_run {a : U64} {n : Nat} {buf : List Byte} (hn : 0 < n) (h : offset a + n ≤ 32)
    (hbuf : n ≤ buf.length) (iv : Bool) (bo : MemBlock × Oracle) :
    (write a buf n iv).run bo
      = .ok 0 ((allocate bo).1.writeBytes (offset a) iv (buf.take n), (allocate bo).2) := by
  have hcount : ((allocate bo).1.writeBytes (offset a) iv (buf.take n)).byteCount ≠ 0 := by
    refine byteCount_ne_zero (offset_lt a) ?_
    rw [byteIsFree_writeBytes, List.length_take_of_le hbuf]
    simp [hn]
  simp only [write, validateAccess_ok hn h, EStateM.run_bind, Effect.run_lift_ok,
    EStateM.run_modify, EStateM.run_get, Int.toNat_natCast]
  rw [allocate] at hcount
  rw [if_neg hcount]
  rfl

theorem write_run_split {a : U64} {n : Nat} (hn : n ≤ 32) (h : 32 < offset a + n)
    (buf : List Byte) (iv : Bool) (bo : MemBlock × Oracle) :
    (write a buf n iv).run bo = .error (.mblock .splitAccess) bo := by
  simp only [write, validateAccess_split (offset_lt a) hn h, EStateM.run_bind,
    Effect.run_lift_error]

/-- `MemBlock::Read` inside the block. -/
theorem read_run {a : U64} {n : Nat} (hn : 0 < n) (h : offset a + n ≤ 32) (init : Bool)
    (bo : MemBlock × Oracle) :
    (read a n init).run bo =
      let r := (allocate bo).1.readBytes (offset a) init n
      .ok (definedCode r.2.1 n, r.1) (r.2.2, (allocate bo).2) := by
  have hcount : ¬ (((allocate bo).1.readBytes (offset a) init n).2.2.byteCount = 0 ∧ init) := by
    rintro ⟨hzero, hinit⟩
    subst hinit
    refine byteCount_ne_zero (offset_lt a) ?_ hzero
    rw [byteIsFree_readBytes]
    simp [hn]
  simp only [read, validateAccess_ok hn h, EStateM.run_bind, Effect.run_lift_ok,
    EStateM.run_modify, EStateM.run_get, Int.toNat_natCast]
  rw [allocate] at hcount
  rw [if_neg hcount]
  rfl

theorem read_run_split {a : U64} {n : Nat} (hn : n ≤ 32) (h : 32 < offset a + n) (init : Bool)
    (bo : MemBlock × Oracle) :
    (read a n init).run bo = .error (.mblock .splitAccess) bo := by
  simp only [read, validateAccess_split (offset_lt a) hn h, EStateM.run_bind,
    Effect.run_lift_error]

end MemBlock

namespace PhysicalMemory

/-! ### One byte of the store -/

/-- The store with block `B` and the oracle replaced. -/
def putBlock (m : PhysicalMemory) (B : U64) (bo : MemBlock × Oracle) : PhysicalMemory :=
  { m with blocks := m.blocks.insert B bo.1, oracle := bo.2 }

/-- The store with the block of address `a` allocated. -/
def touch (m : PhysicalMemory) (a : U64) : PhysicalMemory :=
  m.putBlock (MemBlock.blockAddress a)
    (MemBlock.allocate (m.blockAt (MemBlock.blockAddress a), m.oracle))

/-- The value a read of address `a` returns, if the store already decides it. -/
def seen (m : PhysicalMemory) (a : U64) : Option Byte :=
  (m.blockAt (MemBlock.blockAddress a)).seen (MemBlock.offset a)

/-- The byte at address `a` has been written, or initialised by a read. -/
def isDefined (m : PhysicalMemory) (a : U64) : Bool :=
  (m.blockAt (MemBlock.blockAddress a)).isDefined (MemBlock.offset a)

/-- A write of one byte. -/
def putByte (m : PhysicalMemory) (a : U64) (v : Byte) (iv : Bool) : PhysicalMemory :=
  let m := m.touch a
  m.putBlock (MemBlock.blockAddress a)
    ((m.blockAt (MemBlock.blockAddress a)).writeByte (MemBlock.offset a) v iv, m.oracle)

/-- The byte a read returns. -/
def byteAt (m : PhysicalMemory) (a : U64) : Byte := ((m.touch a).seen a).getD 0

/-- The store after a read of one byte. -/
def pullByte (m : PhysicalMemory) (a : U64) (init : Bool) : PhysicalMemory :=
  if init && !m.isDefined a then m.putByte a (m.byteAt a) false else m.touch a

@[simp] theorem blockAt_putBlock_self (m : PhysicalMemory) (B : U64) (bo : MemBlock × Oracle) :
    (m.putBlock B bo).blockAt B = bo.1 := by
  simp [putBlock, blockAt]

theorem blockAt_putBlock_ne (m : PhysicalMemory) {B B' : U64} (h : B' ≠ B)
    (bo : MemBlock × Oracle) : (m.putBlock B bo).blockAt B' = m.blockAt B' := by
  simp [putBlock, blockAt, AList.lookup_insert_ne h]

@[simp] theorem oracle_putBlock (m : PhysicalMemory) (B : U64) (bo : MemBlock × Oracle) :
    (m.putBlock B bo).oracle = bo.2 := rfl

@[simp] theorem putBlock_putBlock (m : PhysicalMemory) (B : U64) (bo bo' : MemBlock × Oracle) :
    (m.putBlock B bo).putBlock B bo' = m.putBlock B bo' := by
  simp [putBlock, AList.insert_insert]

theorem run_onBlock (B : U64) (x : EStateM Fault (MemBlock × Oracle) α) (m : PhysicalMemory) :
    (onBlock B x).run m = Effect.mapState (m.putBlock B) (x.run (m.blockAt B, m.oracle)) := rfl

/-- `operator[]` on an absent block makes no difference to what follows. -/
theorem touch_putBlock_blockAt (m : PhysicalMemory) (a : U64) :
    (m.putBlock (MemBlock.blockAddress a) (m.blockAt (MemBlock.blockAddress a), m.oracle)).touch a
      = m.touch a := by
  simp [touch]

theorem touch_touch (m : PhysicalMemory) (a : U64) : (m.touch a).touch a = m.touch a := by
  rw [touch, touch, blockAt_putBlock_self, oracle_putBlock, putBlock_putBlock]
  rw [MemBlock.allocate_idem]

/-! ### Runs of bytes -/

/-- Write the bytes one after the other. -/
def putBytes (m : PhysicalMemory) (a : U64) (iv : Bool) : List Byte → PhysicalMemory
  | [] => m
  | v :: vs => putBytes (m.putByte a v iv) (a + 1) iv vs

/-- Read `n` bytes one after the other: the bytes, how many were undefined, and the store. -/
def pullBytes (m : PhysicalMemory) (a : U64) (init : Bool) : Nat → List Byte × Nat × PhysicalMemory
  | 0 => ([], 0, m)
  | n + 1 =>
    let r := pullBytes (m.pullByte a init) (a + 1) init n
    (m.byteAt a :: r.1, r.2.1 + (!m.isDefined a).toNat, r.2.2)

section InBlock

variable {B : U64} {b : MemBlock} {o : Oracle} {a : U64}

theorem touch_putBlock (m : PhysicalMemory) (hb : b.Allocated) (ha : MemBlock.blockAddress a = B) :
    (m.putBlock B (b, o)).touch a = m.putBlock B (b, o) := by
  subst ha
  simp [touch, MemBlock.allocate_of_allocated hb]

theorem putByte_putBlock (m : PhysicalMemory) (hb : b.Allocated)
    (ha : MemBlock.blockAddress a = B) (v : Byte) (iv : Bool) :
    (m.putBlock B (b, o)).putByte a v iv
      = m.putBlock B (b.writeByte (MemBlock.offset a) v iv, o) := by
  rw [putByte, touch_putBlock m hb ha, ha]
  simp

theorem putBytes_putBlock (iv : Bool) (buf : List Byte) (m : PhysicalMemory) (b : MemBlock)
    (a : U64) (hb : b.Allocated) (ha : MemBlock.blockAddress a = B)
    (hlen : MemBlock.offset a + buf.length ≤ 32) :
    (m.putBlock B (b, o)).putBytes a iv buf
      = m.putBlock B (b.writeBytes (MemBlock.offset a) iv buf, o) := by
  induction buf generalizing b a with
  | nil => rfl
  | cons v buf ih =>
    cases buf with
    | nil => exact putByte_putBlock m hb ha v iv
    | cons v' buf =>
      have hlt : MemBlock.offset a + 1 < 32 := by simp only [List.length_cons] at hlen; omega
      have hlen' : MemBlock.offset (a + 1) + (v' :: buf).length ≤ 32 := by
        rw [MemBlock.offset_succ hlt]
        simp only [List.length_cons] at hlen ⊢
        omega
      rw [putBytes, putByte_putBlock m hb ha, ih _ (a + 1) (hb.writeByte _ _ _)
        ((MemBlock.blockAddress_succ hlt).trans ha) hlen', MemBlock.offset_succ hlt]
      rfl

theorem byteAt_putBlock (m : PhysicalMemory) (hb : b.Allocated)
    (ha : MemBlock.blockAddress a = B) :
    (m.putBlock B (b, o)).byteAt a = if b.byteIsFree (MemBlock.offset a)
      then b.readFreeByte (MemBlock.offset a) else b.readByte (MemBlock.offset a) := by
  obtain ⟨mem, hmem⟩ := Option.isSome_iff_exists.mp hb.1
  obtain ⟨ini, hini⟩ := Option.isSome_iff_exists.mp hb.2
  rw [byteAt, touch_putBlock m hb ha, seen, ha, blockAt_putBlock_self]
  simp only [MemBlock.seen, MemBlock.readFreeByte, MemBlock.readByte, hmem, hini]
  split <;> simp

theorem isDefined_putBlock (m : PhysicalMemory) (hb : b.Allocated)
    (ha : MemBlock.blockAddress a = B) :
    (!(m.putBlock B (b, o)).isDefined a) = b.byteIsFree (MemBlock.offset a) := by
  have hm : b.mptr.isSome = true := hb.1
  rw [isDefined, ha, blockAt_putBlock_self, MemBlock.isDefined, hm]
  simp

theorem pullByte_putBlock (m : PhysicalMemory) (hb : b.Allocated)
    (ha : MemBlock.blockAddress a = B) (init : Bool) :
    (m.putBlock B (b, o)).pullByte a init =
      m.putBlock B (if b.byteIsFree (MemBlock.offset a) && init
        then b.writeByte (MemBlock.offset a) (if b.byteIsFree (MemBlock.offset a)
          then b.readFreeByte (MemBlock.offset a) else b.readByte (MemBlock.offset a)) false
        else b, o) := by
  rw [pullByte, isDefined_putBlock m hb ha, Bool.and_comm, byteAt_putBlock m hb ha,
    putByte_putBlock m hb ha, touch_putBlock m hb ha]
  split <;> rfl

theorem pullBytes_putBlock (init : Bool) (n : Nat) (m : PhysicalMemory) (b : MemBlock) (a : U64)
    (hb : b.Allocated) (ha : MemBlock.blockAddress a = B) (hlen : MemBlock.offset a + n ≤ 32) :
    (m.putBlock B (b, o)).pullBytes a init n =
      let r := b.readBytes (MemBlock.offset a) init n
      (r.1, r.2.1, m.putBlock B (r.2.2, o)) := by
  induction n generalizing b a with
  | zero => rfl
  | succ n ih =>
    cases n with
    | zero =>
      simp only [pullBytes, MemBlock.readBytes, byteAt_putBlock m hb ha, isDefined_putBlock m hb ha,
        pullByte_putBlock m hb ha]
    | succ n =>
      have hlt : MemBlock.offset a + 1 < 32 := by omega
      have hrest : ∀ b' : MemBlock, b'.Allocated →
          (m.putBlock B (b', o)).pullBytes (a + 1) init (n + 1) =
            let r := b'.readBytes (MemBlock.offset a + 1) init (n + 1)
            (r.1, r.2.1, m.putBlock B (r.2.2, o)) := by
        intro b' hb'
        rw [← MemBlock.offset_succ hlt]
        refine ih b' (a + 1) hb' ((MemBlock.blockAddress_succ hlt).trans ha) ?_
        rw [MemBlock.offset_succ hlt]
        omega
      rw [pullBytes, pullByte_putBlock m hb ha, byteAt_putBlock m hb ha,
        isDefined_putBlock m hb ha, hrest _ (by split; exacts [hb.writeByte _ _ _, hb])]
      rfl

end InBlock

theorem putBytes_touch {buf : List Byte} (hbuf : buf ≠ []) (m : PhysicalMemory) (a : U64)
    (iv : Bool) : (m.touch a).putBytes a iv buf = m.putBytes a iv buf := by
  cases buf with
  | nil => exact absurd rfl hbuf
  | cons v vs => rw [putBytes, putBytes, putByte, touch_touch]; rfl

theorem isDefined_touch (m : PhysicalMemory) (a b : U64) :
    (m.touch a).isDefined b = m.isDefined b := by
  rw [isDefined, isDefined, touch]
  by_cases h : MemBlock.blockAddress b = MemBlock.blockAddress a
  · rw [h, blockAt_putBlock_self, MemBlock.isDefined_allocate _ _ (MemBlock.offset_lt b)]
  · rw [blockAt_putBlock_ne _ h]

theorem pullBytes_touch {n : Nat} (hn : 0 < n) (m : PhysicalMemory) (a : U64) (init : Bool) :
    (m.touch a).pullBytes a init n = m.pullBytes a init n := by
  obtain ⟨n, rfl⟩ := Nat.exists_eq_succ_of_ne_zero (Nat.ne_of_gt hn)
  have hbyte : (m.touch a).byteAt a = m.byteAt a := by rw [byteAt, byteAt, touch_touch]
  have hpull : (m.touch a).pullByte a init = m.pullByte a init := by
    rw [pullByte, pullByte, isDefined_touch, hbyte, putByte, putByte, touch_touch]
  rw [pullBytes, pullBytes, hbyte, hpull, isDefined_touch]

theorem putBytes_append (iv : Bool) (xs ys : List Byte) (m : PhysicalMemory) (a : U64) :
    m.putBytes a iv (xs ++ ys)
      = (m.putBytes a iv xs).putBytes (a + BitVec.ofNat 64 xs.length) iv ys := by
  induction xs generalizing m a with
  | nil => simp [putBytes]
  | cons x xs ih =>
    rw [List.cons_append, putBytes, ih, putBytes, MemBlock.succ_add_ofNat]
    rfl

theorem pullBytes_add (init : Bool) (k n : Nat) (m : PhysicalMemory) (a : U64) :
    m.pullBytes a init (k + n) =
      let r₁ := m.pullBytes a init k
      let r₂ := r₁.2.2.pullBytes (a + BitVec.ofNat 64 k) init n
      (r₁.1 ++ r₂.1, r₁.2.1 + r₂.2.1, r₂.2.2) := by
  induction k generalizing m a with
  | zero => simp [pullBytes]
  | succ k ih =>
    rw [Nat.succ_add, pullBytes, ih, pullBytes, MemBlock.succ_add_ofNat]
    simp only [List.cons_append]
    congr 2
    omega

/-! ### The accesses of the source -/

/-- An access to one block, as byte accesses. -/
theorem run_onBlock_write {a : U64} {n : Nat} {buf : List Byte} (hn : 0 < n)
    (h : MemBlock.offset a + n ≤ 32) (hbuf : n ≤ buf.length) (iv : Bool) (m : PhysicalMemory) :
    (onBlock (MemBlock.blockAddress a) (MemBlock.write a buf n iv)).run m
      = .ok 0 (m.putBytes a iv (buf.take n)) := by
  have hne : buf.take n ≠ [] := by
    intro hnil
    have := congrArg List.length hnil
    rw [List.length_take_of_le hbuf, List.length_nil] at this
    omega
  have hlen : MemBlock.offset a + (buf.take n).length ≤ 32 := by
    rw [List.length_take_of_le hbuf]; exact h
  rw [run_onBlock, MemBlock.write_run hn h hbuf, Effect.mapState_ok, ← putBytes_touch hne, touch]
  exact congrArg _ (putBytes_putBlock iv _ m _ a (MemBlock.allocated_allocate _) rfl hlen).symm

theorem run_onBlock_read {a : U64} {n : Nat} (hn : 0 < n) (h : MemBlock.offset a + n ≤ 32)
    (init : Bool) (m : PhysicalMemory) :
    (onBlock (MemBlock.blockAddress a) (MemBlock.read a n init)).run m =
      let r := m.pullBytes a init n
      .ok (definedCode r.2.1 n, r.1) r.2.2 := by
  rw [run_onBlock, MemBlock.read_run hn h, ← pullBytes_touch hn, touch]
  simp only [Effect.mapState_ok]
  rw [pullBytes_putBlock init n m _ a (MemBlock.allocated_allocate _) rfl h]

theorem putBytes_putBlock_blockAt {buf : List Byte} (hbuf : buf ≠ []) (m : PhysicalMemory)
    (a : U64) (iv : Bool) :
    (m.putBlock (MemBlock.blockAddress a)
      (m.blockAt (MemBlock.blockAddress a), m.oracle)).putBytes a iv buf = m.putBytes a iv buf := by
  rw [← putBytes_touch hbuf, touch_putBlock_blockAt, putBytes_touch hbuf]

theorem pullBytes_putBlock_blockAt {n : Nat} (hn : 0 < n) (m : PhysicalMemory) (a : U64)
    (init : Bool) :
    (m.putBlock (MemBlock.blockAddress a)
      (m.blockAt (MemBlock.blockAddress a), m.oracle)).pullBytes a init n
      = m.pullBytes a init n := by
  rw [← pullBytes_touch hn, touch_putBlock_blockAt, pullBytes_touch hn]

/-- `PhysicalMemory::Write` is a run of byte writes. -/
theorem write_run {n : Nat} {buf : List Byte} (hn : 0 < n) (hn' : n ≤ 32) (hbuf : n ≤ buf.length)
    (a : U64) (iv : Bool) (m : PhysicalMemory) :
    (write a buf n iv).run m = .ok 0 (m.putBytes a iv (buf.take n)) := by
  have hoff := MemBlock.offset_lt a
  rcases Nat.lt_or_ge 32 (MemBlock.offset a + n) with hsplit | hone
  · -- the first attempt throws and leaves an empty block, then the two parts are written
    obtain ⟨k, hk⟩ : ∃ k, k = 32 - MemBlock.offset a := ⟨_, rfl⟩
    have hcast : (n : Int) - (k : Nat) = ((n - k : Nat) : Int) := by omega
    have hne : buf.take k ≠ [] := by
      intro hnil
      have := congrArg List.length hnil
      rw [List.length_take_of_le (by omega), List.length_nil] at this
      omega
    have htake : buf.take n = buf.take k ++ (buf.drop k).take (n - k) := by
      rw [← List.take_add, Nat.add_sub_cancel' (by omega)]
    have hlen : (buf.take k).length = k := List.length_take_of_le (by omega)
    have hzero : MemBlock.offset (a + BitVec.ofNat 64 k) = 0 := hk ▸ MemBlock.offset_nextBlock a
    have hdrop : n - k ≤ (buf.drop k).length := by rw [List.length_drop]; omega
    have h₂ := run_onBlock_write (a := a + BitVec.ofNat 64 k) (by omega) (by rw [hzero]; omega)
      hdrop iv (m.putBytes a iv (buf.take k))
    have hnext : MemBlock.blockAddress (a + BitVec.ofNat 64 k) = MemBlock.blockAddress a + 32 :=
      hk ▸ MemBlock.blockAddress_nextBlock a
    rw [hnext] at h₂
    simp only [write, blockWrite, EStateM.run_bind, Effect.run_tryCatch, run_onBlock,
      MemBlock.write_run_split hn' hsplit, Effect.mapState_error]
    rw [← run_onBlock, ← hk, hcast, run_onBlock_write (by omega) (by omega) (by omega),
      putBytes_putBlock_blockAt hne]
    simp only [← run_onBlock, h₂]
    rw [htake, putBytes_append, hlen]
    rfl
  · simp only [write, blockWrite, EStateM.run_bind, Effect.run_tryCatch,
      run_onBlock_write hn hone hbuf]
    rfl

theorem pullBytes_undef_le (init : Bool) (n : Nat) (m : PhysicalMemory) (a : U64) :
    (m.pullBytes a init n).2.1 ≤ n := by
  induction n generalizing m a with
  | zero => exact Nat.le_refl 0
  | succ n ih =>
    have := ih (m.pullByte a init) (a + 1)
    have := Bool.toNat_le (!m.isDefined a)
    simp only [pullBytes]
    omega

/-- The return codes of the two parts of a split read merge to the code of the whole. -/
theorem definedCode_merge (n₁ n₂ : Nat) {u₁ u₂ : Nat} (h₁ : 0 < n₁) (h₂ : 0 < n₂) (hu₁ : u₁ ≤ n₁)
    (hu₂ : u₂ ≤ n₂) :
    (if definedCode u₁ n₁ = definedCode u₂ n₂ then definedCode u₁ n₁ else someBytesUndefined)
      = definedCode (u₁ + u₂) (n₁ + n₂) := by
  simp only [definedCode, allBytesFree, someBytesUndefined, allBytesDefined]
  split_ifs <;> omega

/-- `PhysicalMemory::Read` is a run of byte reads. -/
theorem read_run {n : Nat} (hn : 0 < n) (hn' : n ≤ 32) (a : U64) (init : Bool)
    (m : PhysicalMemory) :
    (read a init n).run m =
      let r := m.pullBytes a init n
      .ok (definedCode r.2.1 n, r.1) r.2.2 := by
  have hoff := MemBlock.offset_lt a
  rcases Nat.lt_or_ge 32 (MemBlock.offset a + n) with hsplit | hone
  · obtain ⟨k, hk⟩ : ∃ k, k = 32 - MemBlock.offset a := ⟨_, rfl⟩
    have hcast : (n : Int) - (k : Nat) = ((n - k : Nat) : Int) := by omega
    have hzero : MemBlock.offset (a + BitVec.ofNat 64 k) = 0 := hk ▸ MemBlock.offset_nextBlock a
    have h₂ := run_onBlock_read (a := a + BitVec.ofNat 64 k) (n := n - k) (by omega)
      (by rw [hzero]; omega) init (m.pullBytes a init k).2.2
    have hnext : MemBlock.blockAddress (a + BitVec.ofNat 64 k) = MemBlock.blockAddress a + 32 :=
      hk ▸ MemBlock.blockAddress_nextBlock a
    rw [hnext] at h₂
    simp only [read, blockRead, Effect.run_tryCatch, run_onBlock,
      MemBlock.read_run_split hn' hsplit, Effect.mapState_error]
    simp only [EStateM.run_bind]
    rw [← hk, hcast, run_onBlock_read (by omega) (by omega), pullBytes_putBlock_blockAt (by omega)]
    simp only [h₂]
    have hsum := pullBytes_add init k (n - k) m a
    rw [Nat.add_sub_cancel' (by omega)] at hsum
    rw [hsum]
    simp only [EStateM.run_pure]
    have hmerge := definedCode_merge k (n - k) (by omega) (by omega)
      (pullBytes_undef_le init k m a)
      (pullBytes_undef_le init (n - k) (m.pullBytes a init k).2.2 (a + BitVec.ofNat 64 k))
    rw [Nat.add_sub_cancel' (by omega)] at hmerge
    rw [hmerge]
  · simp only [read, blockRead, Effect.run_tryCatch, run_onBlock_read hn hone]

/-! ### What a byte access does -/

theorem seen_touch_grows (m : PhysicalMemory) (a : U64) :
    Cells.Grows m.seen (m.touch a).seen := by
  intro b v h
  rw [seen, touch]
  by_cases hb : MemBlock.blockAddress b = MemBlock.blockAddress a
  · rw [hb, blockAt_putBlock_self]
    exact MemBlock.seen_allocate (by rwa [seen, hb] at h)
  · rw [blockAt_putBlock_ne _ hb]
    exact h

theorem allocated_touch (m : PhysicalMemory) (a : U64) :
    ((m.touch a).blockAt (MemBlock.blockAddress a)).Allocated := by
  rw [touch, blockAt_putBlock_self]
  exact MemBlock.allocated_allocate _

theorem seen_touch_self (m : PhysicalMemory) (a : U64) :
    (m.touch a).seen a = some (m.byteAt a) := by
  obtain ⟨mem, hmem⟩ := Option.isSome_iff_exists.mp (allocated_touch m a).1
  obtain ⟨ini, hini⟩ := Option.isSome_iff_exists.mp (allocated_touch m a).2
  have hsome : ((m.touch a).seen a).isSome := by
    rw [seen, MemBlock.seen, hmem, hini]
    simp only [Option.bind_some, Option.map_some]
    split <;> rfl
  obtain ⟨v, hv⟩ := Option.isSome_iff_exists.mp hsome
  rw [byteAt, hv, Option.getD_some]

theorem seen_putByte (m : PhysicalMemory) (a : U64) (v : Byte) (iv : Bool) (b : U64) :
    (m.putByte a v iv).seen b = if b = a then some v else (m.touch a).seen b := by
  rw [putByte, seen]
  by_cases hb : MemBlock.blockAddress b = MemBlock.blockAddress a
  · rw [hb, blockAt_putBlock_self, MemBlock.seen_writeByte (allocated_touch m a)]
    have hiff : MemBlock.offset b = MemBlock.offset a ↔ b = a :=
      ⟨MemBlock.blockAddress_offset_inj hb, fun h => h ▸ rfl⟩
    simp only [hiff, seen, hb]
  · have hne : b ≠ a := fun h => hb (h ▸ rfl)
    rw [blockAt_putBlock_ne _ hb, if_neg hne]
    rfl

theorem isDefined_putByte (m : PhysicalMemory) (a : U64) (v : Byte) (iv : Bool) (b : U64) :
    (m.putByte a v iv).isDefined b = (m.isDefined b || decide (b = a)) := by
  rw [putByte, isDefined]
  by_cases hb : MemBlock.blockAddress b = MemBlock.blockAddress a
  · rw [hb, blockAt_putBlock_self, MemBlock.isDefined_writeByte (allocated_touch m a), ← hb,
      ← isDefined, isDefined_touch]
    have hiff : MemBlock.offset b = MemBlock.offset a ↔ b = a :=
      ⟨MemBlock.blockAddress_offset_inj hb, fun h => h ▸ rfl⟩
    simp only [hiff]
  · have hne : b ≠ a := fun h => hb (h ▸ rfl)
    rw [blockAt_putBlock_ne _ hb, ← isDefined, isDefined_touch]
    simp [hne]

/-- A byte write says nothing about other blocks. -/
theorem seen_putByte_of_ne (m : PhysicalMemory) {a b : U64}
    (h : MemBlock.blockAddress b ≠ MemBlock.blockAddress a) (v : Byte) (iv : Bool) :
    (m.putByte a v iv).seen b = m.seen b := by
  rw [putByte, seen, blockAt_putBlock_ne _ h, touch, blockAt_putBlock_ne _ h]
  rfl

/-- A byte write, as an access to a cell. -/
theorem step_putByte (m : PhysicalMemory) (a : U64) (v : Byte) (iv : Bool) :
    Cells.Step m.seen (.write a v) (m.putByte a v iv).seen := by
  refine .write ?_ (by rw [seen_putByte, if_pos rfl])
  intro b hb w hw
  rw [seen_putByte, if_neg hb]
  exact seen_touch_grows m a b w hw

/-- A byte read, as an access to a cell. -/
theorem step_pullByte (m : PhysicalMemory) (a : U64) (init : Bool) :
    Cells.Step m.seen (.read a (m.byteAt a)) (m.pullByte a init).seen := by
  have hsame : (m.pullByte a init).seen = (m.touch a).seen := by
    rw [pullByte]
    split
    · funext b
      rw [seen_putByte]
      split
      · next h => rw [h, seen_touch_self]
      · rfl
    · rfl
  rw [hsame]
  exact .read (seen_touch_grows m a) (seen_touch_self m a)

theorem isDefined_pullByte (m : PhysicalMemory) (a : U64) (init : Bool) (b : U64) :
    (m.pullByte a init).isDefined b = (m.isDefined b || (init && decide (b = a))) := by
  rw [pullByte]
  cases hd : m.isDefined a
  · cases init
    · simp [isDefined_touch]
    · simp [isDefined_putByte]
  · have hkeep : (m.isDefined b || (init && decide (b = a))) = m.isDefined b := by
      by_cases hb : b = a
      · simp [hb, hd]
      · simp [hb]
    rw [hkeep]
    simp [isDefined_touch]

/-- The addresses of an access; they wrap at the end of the 64-bit space. -/
def span (a : U64) : Nat → List U64
  | 0 => []
  | n + 1 => a :: span (a + 1) n

@[simp] theorem length_span : ∀ (n : Nat) (a : U64), (span a n).length = n
  | 0, _ => rfl
  | n + 1, a => by rw [span, List.length_cons, length_span n]

theorem span_add (k n : Nat) (a : U64) :
    span a (k + n) = span a k ++ span (a + BitVec.ofNat 64 k) n := by
  induction k generalizing a with
  | zero =>
    have hzero : a + BitVec.ofNat 64 0 = a := BitVec.add_zero a
    rw [hzero, Nat.zero_add]
    rfl
  | succ k ih =>
    rw [Nat.succ_add, span, span, ih, MemBlock.succ_add_ofNat]
    rfl

theorem getElem?_span {a : U64} {n i : Nat} (hi : i < n) :
    (span a n)[i]? = some (a + BitVec.ofNat 64 i) := by
  induction n generalizing a i with
  | zero => exact absurd hi (Nat.not_lt_zero i)
  | succ n ih =>
    cases i with
    | zero => exact congrArg some (BitVec.add_zero a).symm
    | succ i =>
      rw [span, List.getElem?_cons_succ, ih (Nat.lt_of_succ_lt_succ hi), MemBlock.succ_add_ofNat]

theorem mem_span {b a : U64} {n : Nat} : b ∈ span a n ↔ ∃ i < n, b = a + BitVec.ofNat 64 i := by
  induction n generalizing a with
  | zero => simp [span]
  | succ n ih =>
    rw [span, List.mem_cons, ih]
    constructor
    · rintro (rfl | ⟨i, hi, rfl⟩)
      · exact ⟨0, Nat.succ_pos n, (BitVec.add_zero b).symm⟩
      · exact ⟨i + 1, Nat.succ_lt_succ hi, MemBlock.succ_add_ofNat a i⟩
    · rintro ⟨i, hi, rfl⟩
      cases i with
      | zero => exact .inl (BitVec.add_zero a)
      | succ i => exact .inr ⟨i, Nat.lt_of_succ_lt_succ hi, (MemBlock.succ_add_ofNat a i).symm⟩

theorem seen_putBytes_of_ne (iv : Bool) {b : U64} (buf : List Byte) (m : PhysicalMemory) (a : U64)
    (h : ∀ x ∈ span a buf.length, MemBlock.blockAddress b ≠ MemBlock.blockAddress x) :
    (m.putBytes a iv buf).seen b = m.seen b := by
  induction buf generalizing m a with
  | nil => rfl
  | cons v buf ih =>
    rw [putBytes, ih _ _ fun x hx => h x (List.mem_cons_of_mem _ hx),
      seen_putByte_of_ne m (h a (List.mem_cons_self ..))]

theorem isDefined_putBytes (iv : Bool) {b : U64} (buf : List Byte) (m : PhysicalMemory) (a : U64) :
    (m.putBytes a iv buf).isDefined b = (m.isDefined b || decide (b ∈ span a buf.length)) := by
  induction buf generalizing m a with
  | nil => simp [putBytes, span]
  | cons v buf ih =>
    rw [putBytes, ih, isDefined_putByte, List.length_cons, span, Bool.or_assoc, ← Bool.decide_or]
    simp only [List.mem_cons]

theorem isDefined_pullBytes (init : Bool) {b : U64} (n : Nat) (m : PhysicalMemory) (a : U64) :
    (m.pullBytes a init n).2.2.isDefined b
      = (m.isDefined b || (init && decide (b ∈ span a n))) := by
  induction n generalizing m a with
  | zero => simp [pullBytes, span]
  | succ n ih =>
    rw [pullBytes, ih, isDefined_pullByte, span, Bool.or_assoc, ← Bool.and_or_distrib_left,
      ← Bool.decide_or]
    simp only [List.mem_cons]

/-- A byte stays what it is under writes elsewhere. -/
theorem seen_putBytes_of_not_mem (iv : Bool) {b : U64} {v : Byte} (buf : List Byte)
    (m : PhysicalMemory) (a : U64) (h : m.seen b = some v) (hb : b ∉ span a buf.length) :
    (m.putBytes a iv buf).seen b = some v := by
  induction buf generalizing m a with
  | nil => exact h
  | cons w buf ih =>
    rw [List.length_cons, span, List.mem_cons, not_or] at hb
    refine ih _ (a + 1) ?_ hb.2
    rw [seen_putByte, if_neg hb.1]
    exact seen_touch_grows m a b v h

theorem toNat_of_mem_span {b : U64} {n : Nat} {a : U64} (h : b ∈ span a n)
    (hle : a.toNat + n ≤ 2 ^ 64) : a.toNat ≤ b.toNat ∧ b.toNat < a.toNat + n := by
  induction n generalizing a with
  | zero => exact absurd h List.not_mem_nil
  | succ n ih =>
    rcases List.mem_cons.mp h with rfl | h
    · omega
    · cases n with
      | zero => exact absurd h List.not_mem_nil
      | succ n =>
        have hsucc : (a + 1).toNat = a.toNat + 1 := by
          rw [MemBlock.toNat_succ, Nat.mod_eq_of_lt (by omega)]
        have := ih h (by rw [hsucc]; omega)
        omega

theorem run_putBytes (iv : Bool) (buf : List Byte) (m : PhysicalMemory) (a : U64) :
    Cells.Run m.seen (Cells.writes (span a buf.length) buf) (m.putBytes a iv buf).seen := by
  induction buf generalizing m a with
  | nil => exact .nil (.refl _)
  | cons v buf ih => exact .cons (step_putByte m a v iv) (ih _ (a + 1))

theorem run_pullBytes (init : Bool) (n : Nat) (m : PhysicalMemory) (a : U64) :
    Cells.Run m.seen (Cells.reads (span a n) (m.pullBytes a init n).1)
      (m.pullBytes a init n).2.2.seen := by
  induction n generalizing m a with
  | zero => exact .nil (.refl _)
  | succ n ih => exact .cons (step_pullByte m a init) (ih _ (a + 1))

@[simp] theorem length_pullBytes (init : Bool) : ∀ (n : Nat) (m : PhysicalMemory) (a : U64),
    (m.pullBytes a init n).1.length = n
  | 0, _, _ => rfl
  | n + 1, m, a => by simp only [pullBytes, List.length_cons, length_pullBytes init n]

/-- The bytes read are the values that are there. -/
theorem bytes_pullBytes {m : PhysicalMemory} {a : U64} {n : Nat} {c : U64 → Byte} (init : Bool)
    (h : ∀ b ∈ span a n, m.seen b = some (c b)) : (m.pullBytes a init n).1 = (span a n).map c :=
  (run_pullBytes init n m a).reads_settled (by rw [length_pullBytes, length_span]) h

end PhysicalMemory

end Dimebox
