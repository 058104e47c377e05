import Dimebox.SavedImage

/-! Accesses of any length.

    `ReadMemory` and `WriteMemory` cut an access into pieces of 32 bytes from its address on and go
    on as long as the code is 0. A write always gets to the end. A read stops at the first piece
    with a free byte: the rest of the buffer is as it was before, and the code is that of the piece
    (`long_read_fills_buffer_iff`). -/

namespace Dimebox

namespace PhysicalMemory

/-- How many of the bytes have not been written. -/
def undefinedBytes (p : PhysicalMemory) (a : U64) (n : Nat) : Nat :=
  (span a n).countP fun b => !p.isDefined b

theorem undefinedBytes_add (p : PhysicalMemory) (a : U64) (k n : Nat) :
    p.undefinedBytes a (k + n) = p.undefinedBytes a k + p.undefinedBytes (a + BitVec.ofNat 64 k) n := by
  rw [undefinedBytes, span_add, List.countP_append]
  rfl

theorem undefinedBytes_eq_zero_iff {p : PhysicalMemory} {a : U64} {n : Nat} :
    p.undefinedBytes a n = 0 ↔ ∀ i < n, p.isDefined (a + BitVec.ofNat 64 i) = true := by
  rw [undefinedBytes, List.countP_eq_zero]
  constructor
  · intro h i hi
    simpa using h _ (mem_span.mpr ⟨i, hi, rfl⟩)
  · intro h b hb
    obtain ⟨i, hi, rfl⟩ := mem_span.mp hb
    simp [h i hi]

theorem undefinedBytes_lt_iff {p : PhysicalMemory} {a : U64} {n : Nat} :
    p.undefinedBytes a n < n ↔ ∃ i < n, p.isDefined (a + BitVec.ofNat 64 i) = true := by
  have hle : p.undefinedBytes a n ≤ n := by
    rw [undefinedBytes]
    exact List.countP_le_length.trans (Nat.le_of_eq (length_span n a))
  have hall : p.undefinedBytes a n = n ↔ ∀ i < n, p.isDefined (a + BitVec.ofNat 64 i) = false := by
    have hlen : p.undefinedBytes a n = n ↔ (span a n).countP (fun b => !p.isDefined b) =
        (span a n).length := by rw [length_span]; rfl
    rw [hlen, List.countP_eq_length]
    constructor
    · intro h i hi
      simpa using h _ (mem_span.mpr ⟨i, hi, rfl⟩)
    · intro h b hb
      obtain ⟨i, hi, rfl⟩ := mem_span.mp hb
      simp [h i hi]
  rw [Nat.lt_iff_le_and_ne, and_iff_right hle, ne_eq, hall]
  simp

/-- A read counts the bytes that were undefined before. -/
theorem undefined_pullBytes (init : Bool) {n : Nat} (hn : n ≤ 2 ^ 64) (p : PhysicalMemory) (a : U64) :
    (p.pullBytes a init n).2.1 = p.undefinedBytes a n := by
  induction n generalizing p a with
  | zero => rfl
  | succ n ih =>
    have hrest : (p.pullByte a init).undefinedBytes (a + 1) n = p.undefinedBytes (a + 1) n := by
      refine List.countP_congr fun b hb => ?_
      obtain ⟨i, hi, rfl⟩ := mem_span.mp hb
      have hne : a + 1 + BitVec.ofNat 64 i ≠ a := by
        rw [MemBlock.succ_add_ofNat]
        intro heq
        have htoNat := congrArg BitVec.toNat heq
        rw [BitVec.toNat_add, BitVec.toNat_ofNat] at htoNat
        omega
      rw [isDefined_pullByte, decide_eq_false hne, Bool.and_false, Bool.or_false]
    rw [pullBytes, ih (by omega), hrest, undefinedBytes, undefinedBytes, span, List.countP_cons]
    cases p.isDefined a <;> rfl

end PhysicalMemory

namespace Memory

/-- RAM only: the addresses below 2^32, and no device among them. -/
structure RamOnly (m : Memory) : Prop extends DefaultRange m where
  noDevice : m.devices = []

/-- What an access is for; the fetch of an instruction is aligned. -/
structure AccessMode where
  isData : Bool
  isAligned : Bool
  forTest : Bool
  proper : isData = true ∨ isAligned = true

theorem AccessMode.not_refused (q : AccessMode) : (!q.isData && !q.isAligned) = false := by
  rcases q.proper with h | h
  · rw [h]
    rfl
  · rw [h, Bool.not_true, Bool.and_false]

/-- `bytes` written over a buffer from `off` on. -/
def splice (buf : List Byte) (off : Nat) (bytes : List Byte) : List Byte :=
  buf.take off ++ overlay bytes (buf.drop off)

theorem splice_zero (buf bytes : List Byte) : splice buf 0 bytes = overlay bytes buf := rfl

theorem splice_nil (buf : List Byte) (off : Nat) : splice buf off [] = buf :=
  List.take_append_drop off buf

theorem length_splice {buf bytes : List Byte} {off : Nat} (h : off + bytes.length ≤ buf.length) :
    (splice buf off bytes).length = buf.length := by
  simp only [splice, overlay, List.length_append, List.length_take, List.length_drop]
  omega

/-- Right behind what has been written. -/
theorem splice_splice {buf xs : List Byte} {off : Nat} (ys : List Byte)
    (h : off + xs.length ≤ buf.length) :
    splice (splice buf off xs) (off + xs.length) ys = splice buf off (xs ++ ys) := by
  have htake : (buf.take off).length = off := List.length_take_of_le (by omega)
  have hlen : (buf.take off ++ xs).length = off + xs.length := by rw [List.length_append, htake]
  have hbuf : splice buf off xs = (buf.take off ++ xs) ++ buf.drop (off + xs.length) := by
    rw [splice, overlay, List.drop_drop, List.append_assoc]
  rw [splice, hbuf, ← hlen, List.take_left, List.drop_left, hlen, splice, overlay, overlay,
    List.drop_drop, List.drop_drop, List.length_append]
  simp only [List.append_assoc, Nat.add_assoc]

section RamOnly

variable {m : Memory} {a : U64} {n : Nat}

theorem RamOnly.withPhysMem (h : m.RamOnly) (p : PhysicalMemory) :
    RamOnly { m with physMem := p } := ⟨h.toDefaultRange.withPhysMem p, h.noDevice⟩

theorem RamOnly.deviceAt (h : m.RamOnly) (b : U64) : m.deviceAt b = none := by
  rw [Memory.deviceAt, h.noDevice]
  rfl

/-- An address below 2^32 is valid, also for a test. -/
theorem RamOnly.validate (h : m.RamOnly) (ha : a.toNat < 2 ^ 32) (forTest : Bool) :
    m.validatePhysicalMemoryAddress a forTest = .ok a := by
  have hfree := validate_eq h.toDefaultRange a
  rw [low32_of_lt ha] at hfree
  have hmask : a &&& m.paMask = a := by
    have hpaMask : m.paMask = 0xffffffff := by rw [paMask, h.sizeInBits]; rfl
    rw [hpaMask]
    exact low32_of_lt ha
  rw [← hfree, validatePhysicalMemoryAddress, validatePhysicalMemoryAddress, hmask, if_neg (by simp),
    if_neg (by simp)]

theorem RamOnly.checkAddresses (h : m.RamOnly) (hn : 0 < n) (ha : a.toNat + n ≤ 2 ^ 32)
    (forTest : Bool) : m.checkAddresses a n forTest = .ok a := by
  have hlast : (a + BitVec.ofInt 64 n - 1).toNat = a.toNat + n - 1 := by
    have hone : (1 : U64).toNat = 1 := rfl
    rw [BitVec.ofInt_natCast, BitVec.toNat_sub, BitVec.toNat_add, BitVec.toNat_ofNat]
    omega
  rw [Memory.checkAddresses, h.validate (by omega)]
  show (m.validatePhysicalMemoryAddress (a + BitVec.ofInt 64 n - 1) forTest >>= _) = _
  rw [h.validate (by omega)]
  rfl

section Block

variable (h : m.RamOnly) (hn : 0 < n) (hn' : n ≤ 32) (ha : a.toNat + n ≤ 2 ^ 32)
include h hn hn' ha

theorem readMemoryBlock_run (buf : List Byte) (forTest init : Bool) :
    (readMemoryBlock a n buf forTest init).run m =
      let r := m.physMem.pullBytes a init n
      .ok (definedCode r.2.1 n, overlay r.1 buf) { m with physMem := r.2.2 } := by
  rw [readMemoryBlock, readPhysicalMemory_of_ram buf init (h.checkAddresses hn ha forTest)
    (h.deviceAt a), map_eq_pure_bind, EStateM.run_bind, PhysicalMemory.read_run hn hn']
  rfl

theorem writeMemoryBlock_run {buf : List Byte} (hbuf : n ≤ buf.length) (forTest : Bool) :
    (writeMemoryBlock a n buf forTest).run m =
      .ok 0 { m with physMem := m.physMem.putBytes a false (buf.take n) } := by
  rw [writeMemoryBlock, writePhysicalMemory, EStateM.run_bind, EStateM.run_get]
  dsimp only
  rw [EStateM.run_bind, h.checkAddresses hn ha forTest, Effect.run_lift_ok]
  dsimp only
  rw [h.deviceAt]
  dsimp only [onPhysMem]
  rw [Effect.run_focus, PhysicalMemory.write_run hn hn' hbuf, Effect.mapState_ok]

end Block

/-! ### Writing -/

/-- The loop writes one piece after the other. -/
theorem writeBlocks_run {buf : List Byte} (forTest : Bool) {blocks off : Nat} (h : m.RamOnly)
    (ha : a.toNat + off + 32 * blocks ≤ 2 ^ 32) (hbuf : off + 32 * blocks ≤ buf.length) :
    (writeBlocks a buf forTest blocks off 0).run m = .ok (0, off + 32 * blocks)
      { m with physMem := m.physMem.putBytes (a + BitVec.ofNat 64 off) false
                 ((buf.drop off).take (32 * blocks)) } := by
  induction blocks generalizing m off with
  | zero =>
    rw [writeBlocks, Nat.mul_zero, Nat.add_zero, List.take_zero]
    rfl
  | succ blocks ih =>
    have hoff := Elfio.toNat_add_ofNat (a := a) (k := off) (by omega)
    have hfits : 32 ≤ (buf.drop off).length := by
      rw [List.length_drop]
      omega
    have hblock := writeMemoryBlock_run (a := a + BitVec.ofNat 64 off) h (by decide) (by decide)
      (by omega) hfits forTest
    have hlen : ((buf.drop off).take 32).length = 32 :=
      List.length_take_of_le (by rw [List.length_drop]; omega)
    rw [writeBlocks, if_neg (fun h => h rfl), EStateM.run_bind]
    rw [Nat.cast_ofNat] at hblock
    rw [hblock]
    dsimp only
    rw [ih (h.withPhysMem _) (by omega) (by omega), Elfio.take_blocks_succ,
      PhysicalMemory.putBytes_append, hlen, Elfio.add_ofNat_add]
    congr 2
    omega

/-- `WriteMemory` of RAM writes the bytes, however many. -/
theorem writeMemory_whole (h : m.RamOnly) (q : AccessMode) {buf : List Byte} (hn : 0 < buf.length)
    (ha : a.toNat + buf.length ≤ 2 ^ 32) :
    (writeMemory a q.isData buf.length q.isAligned buf q.forTest).run m =
      .ok 0 { m with physMem := m.physMem.putBytes a false buf } := by
  rw [writeMemory, q.not_refused]
  by_cases hsmall : (buf.length : Int) ≤ 32
  · rw [if_neg Bool.false_ne_true, if_pos hsmall, writeMemoryBlock_run h hn (by omega) ha le_rfl,
      List.take_length]
  · have hblocks : ((buf.length : Int) / 32).toNat = buf.length / 32 := by omega
    have hextra : (buf.length : Int) % 32 = (buf.length % 32 : Nat) := by omega
    have hloop : (writeBlocks a buf q.forTest (buf.length / 32) 0 0).run m = _ :=
      writeBlocks_run q.forTest h (by omega) (by omega)
    have hzero : a + BitVec.ofNat 64 0 = a := BitVec.add_zero a
    rw [hzero, List.drop_zero, Nat.zero_add] at hloop
    rw [if_neg Bool.false_ne_true, if_neg hsmall, EStateM.run_bind, hblocks, hloop]
    dsimp only
    have hsplit : buf = buf.take (32 * (buf.length / 32)) ++ buf.drop (32 * (buf.length / 32)) :=
      (List.take_append_drop _ _).symm
    have hlen : (buf.take (32 * (buf.length / 32))).length = 32 * (buf.length / 32) :=
      List.length_take_of_le (by omega)
    by_cases hrest : 0 < buf.length % 32
    · have hoff := Elfio.toNat_add_ofNat (a := a) (k := 32 * (buf.length / 32)) (by omega)
      have htail : buf.length % 32 = (buf.drop (32 * (buf.length / 32))).length := by
        rw [List.length_drop]
        omega
      rw [if_pos ⟨by omega, rfl⟩, hextra, writeMemoryBlock_run (h.withPhysMem _) hrest (by omega)
        (by omega) (Nat.le_of_eq htail), htail, List.take_length]
      dsimp only
      conv_rhs => rw [hsplit, PhysicalMemory.putBytes_append, hlen]
    · have hall : 32 * (buf.length / 32) = buf.length := by omega
      rw [if_neg (by omega), hall, List.take_length]
      rfl

/-! ### Reading -/

theorem definedCode_eq_zero_iff {undef n : Nat} (hn : 0 < n) : definedCode undef n = 0 ↔ undef = 0 := by
  rw [definedCode, allBytesFree, someBytesUndefined, allBytesDefined]
  split_ifs <;> omega

/-- The loop reads pieces up to the first that has a free byte. -/
theorem readBlocks_run (forTest init : Bool) {blocks off : Nat} (h : m.RamOnly)
    (ha : a.toNat + off + 32 * blocks ≤ 2 ^ 32) : ∃ j ≤ blocks, ∃ rcode,
      (rcode = 0 → j = blocks) ∧
      (rcode = 0 ↔ (m.physMem.pullBytes (a + BitVec.ofNat 64 off) init (32 * j)).2.1 = 0) ∧
      ∀ buf : List Byte, off + 32 * blocks ≤ buf.length →
        (readBlocks a forTest init blocks off 0 buf).run m =
          let r := m.physMem.pullBytes (a + BitVec.ofNat 64 off) init (32 * j)
          .ok (rcode, off + 32 * j, splice buf off r.1) { m with physMem := r.2.2 } := by
  induction blocks generalizing m off with
  | zero =>
    refine ⟨0, le_rfl, 0, fun _ => rfl, iff_of_true rfl rfl, fun buf _ => ?_⟩
    rw [readBlocks, Nat.mul_zero, PhysicalMemory.pullBytes]
    dsimp only
    rw [splice_nil]
    rfl
  | succ blocks ih =>
    have hoff := Elfio.toNat_add_ofNat (a := a) (k := off) (by omega)
    have hlen := PhysicalMemory.length_pullBytes init 32 m.physMem (a + BitVec.ofNat 64 off)
    have hblock := fun buf : List Byte => @readMemoryBlock_run m (a + BitVec.ofNat 64 off) 32 h
      (by decide) (by decide) (by omega) (buf.drop off) forTest init
    rcases hr : m.physMem.pullBytes (a + BitVec.ofNat 64 off) init 32 with ⟨bytes, undef, p⟩
    simp only [hr, Nat.cast_ofNat] at hblock hlen
    by_cases hfull : undef = 0
    · -- the piece is defined, and the loop goes on
      obtain ⟨j, hj, rcode, hend, hcode, hrest⟩ := @ih _ (off + 32) (h.withPhysMem p) (by omega)
      have hpull : m.physMem.pullBytes (a + BitVec.ofNat 64 off) init (32 * (j + 1)) =
          let r := p.pullBytes (a + BitVec.ofNat 64 (off + 32)) init (32 * j)
          (bytes ++ r.1, r.2.1, r.2.2) := by
        rw [Nat.mul_succ, Nat.add_comm, PhysicalMemory.pullBytes_add, hr,
          Elfio.add_ofNat_add, hfull]
        dsimp only
        rw [Nat.zero_add]
      refine ⟨j + 1, by omega, rcode, fun h0 => congrArg (· + 1) (hend h0), ?_, fun buf hbuf => ?_⟩
      · rw [hpull, hcode]
      · have hfits : off + bytes.length ≤ buf.length := by omega
        have hjoin := fun ys => splice_splice ys hfits
        rw [hlen] at hjoin
        rw [readBlocks, if_neg (fun h => h rfl), EStateM.run_bind, hblock buf]
        dsimp only
        rw [hfull]
        exact (hrest (splice buf off bytes) (by rw [length_splice hfits]; omega)).trans (by
          dsimp only
          rw [hpull, hjoin, Nat.mul_succ]
          congr 3
          omega)
    · -- the loop ends here
      have hcode : definedCode undef 32 ≠ 0 := fun h0 =>
        hfull ((definedCode_eq_zero_iff (by decide)).mp h0)
      refine ⟨1, by omega, definedCode undef 32, fun h0 => absurd h0 hcode, ?_, fun buf hbuf => ?_⟩
      · rw [Nat.mul_one, hr]
        exact iff_of_false hcode hfull
      · rw [readBlocks, if_neg (fun h => h rfl), EStateM.run_bind, hblock buf]
        dsimp only
        rw [Nat.mul_one, hr]
        cases blocks with
        | zero => rfl
        | succ blocks => rw [readBlocks, if_pos hcode]; rfl

/-- The pieces of 32 bytes in front of the last piece. -/
def pieces (n : Nat) : Nat := (n - 1) / 32

theorem readBlocks_stopped (a : U64) (forTest init : Bool) (blocks off : Nat) {rcode : Int}
    (hcode : rcode ≠ 0) (buf : List Byte) :
    readBlocks a forTest init blocks off rcode buf = pure (rcode, off, buf) := by
  cases blocks with
  | zero => rfl
  | succ blocks => rw [readBlocks, if_pos hcode]

/-- The last turn of the loop. -/
theorem readBlocks_succ (a : U64) (forTest init : Bool) (blocks off : Nat) (rcode : Int)
    (buf : List Byte) : readBlocks a forTest init (blocks + 1) off rcode buf = do
      let r ← readBlocks a forTest init blocks off rcode buf
      if r.1 ≠ 0 then return r
      else do
        let b ← readMemoryBlock (a + BitVec.ofNat 64 r.2.1) 32 (r.2.2.drop r.2.1) forTest init
        return (b.1, r.2.1 + 32, r.2.2.take r.2.1 ++ b.2) := by
  induction blocks generalizing off rcode buf with
  | zero => simp only [readBlocks, pure_bind]
  | succ blocks ih =>
    by_cases hcode : rcode = 0
    · have hnext : ∀ k, readBlocks a forTest init (k + 1) off rcode buf = (do
          let b ← readMemoryBlock (a + BitVec.ofNat 64 off) 32 (buf.drop off) forTest init
          readBlocks a forTest init k (off + 32) b.1 (buf.take off ++ b.2)) := fun k => by
        rw [readBlocks, if_neg (not_not.mpr hcode)]
      rw [hnext, hnext, bind_assoc]
      exact congrArg _ (funext fun b => ih _ _ _)
    · rw [readBlocks_stopped _ _ _ _ _ hcode, readBlocks_stopped _ _ _ _ _ hcode, pure_bind,
        if_pos hcode]

/-- A long read: the pieces in front, then the last one. -/
theorem readMemory_pieces (a : U64) (q : AccessMode) (init : Bool) (hn : 32 < n) (buf : List Byte) :
    readMemory a q.isData n q.isAligned buf q.forTest init = do
      let r ← readBlocks a q.forTest init (pieces n) 0 0 buf
      if r.1 ≠ 0 then return (r.1, r.2.2)
      else do
        let b ← readMemoryBlock (a + BitVec.ofNat 64 r.2.1) (n - 32 * pieces n : Nat)
          (r.2.2.drop r.2.1) q.forTest init
        return (b.1, r.2.2.take r.2.1 ++ b.2) := by
  have hblocks : ((n : Int) / 32).toNat = n / 32 := by omega
  have hextra : (n : Int) % 32 = (n % 32 : Nat) := by omega
  rw [readMemory, q.not_refused, if_neg Bool.false_ne_true, if_neg (by omega), hblocks, hextra]
  dsimp only
  by_cases hrest : n % 32 = 0
  · have hcount : n / 32 = pieces n + 1 := by rw [pieces]; omega
    have hlast : n - 32 * pieces n = 32 := by rw [pieces]; omega
    rw [hcount, readBlocks_succ, bind_assoc, hrest, hlast]
    refine congrArg _ (funext fun r => ?_)
    obtain ⟨rcode, off, buf⟩ := r
    dsimp only
    by_cases hcode : rcode = 0
    · rw [if_neg (not_not.mpr hcode), if_neg (not_not.mpr hcode), bind_assoc]
      refine congrArg _ (funext fun b => ?_)
      rw [pure_bind]
      exact if_neg fun h => absurd h.1 (by decide)
    · simp only [hcode, ne_eq, not_false_eq_true, if_true, pure_bind, and_false, if_false]
  · have hcount : n / 32 = pieces n := by rw [pieces]; omega
    have hlast : n - 32 * pieces n = n % 32 := by rw [pieces]; omega
    have hpos : (0 : Int) < (n % 32 : Nat) := by omega
    rw [hcount, hlast]
    refine congrArg _ (funext fun r => ?_)
    obtain ⟨rcode, off, buf⟩ := r
    dsimp only
    by_cases hcode : rcode = 0
    · rw [if_pos ⟨hpos, hcode⟩, if_neg (not_not.mpr hcode)]
    · rw [if_neg fun h => hcode h.2, if_pos hcode]

theorem pieces_lt (hn : 0 < n) : 32 * pieces n < n ∧ n - 32 * pieces n ≤ 32 := by
  rw [pieces]
  omega

/-- The loop over the pieces in front, from the first on. -/
theorem readBlocks_front (h : m.RamOnly) (q : AccessMode) (init : Bool) (hn : 0 < n)
    (ha : a.toNat + n ≤ 2 ^ 32) : ∃ j ≤ pieces n, ∃ rcode,
      (rcode = 0 → j = pieces n) ∧ (rcode = 0 ↔ m.physMem.undefinedBytes a (32 * j) = 0) ∧
      ∀ buf : List Byte, n ≤ buf.length →
        (readBlocks a q.forTest init (pieces n) 0 0 buf).run m =
          let r := m.physMem.pullBytes a init (32 * j)
          .ok (rcode, 32 * j, overlay r.1 buf) { m with physMem := r.2.2 } := by
  obtain ⟨hlt, -⟩ := pieces_lt hn
  obtain ⟨j, hj, rcode, hend, hcode, hrun⟩ := @readBlocks_run m a q.forTest init (pieces n) 0 h
    (by omega)
  have hzero : a + BitVec.ofNat 64 0 = a := BitVec.add_zero a
  rw [hzero] at hcode hrun
  rw [PhysicalMemory.undefined_pullBytes init (by omega)] at hcode
  refine ⟨j, hj, rcode, hend, hcode, fun buf hbuf => ?_⟩
  have hloop := hrun buf (by omega)
  dsimp only at hloop
  rwa [Nat.zero_add, splice_zero] at hloop

/-- `ReadMemory` of RAM whose bytes in front of the last piece are defined reads all the bytes. The
    code is that of the last piece. -/
theorem readMemory_whole (h : m.RamOnly) (q : AccessMode) (init : Bool) (hn : 0 < n)
    (ha : a.toNat + n ≤ 2 ^ 32) (hfront : m.physMem.undefinedBytes a (32 * pieces n) = 0)
    {buf : List Byte} (hbuf : n ≤ buf.length) :
    (readMemory a q.isData n q.isAligned buf q.forTest init).run m =
      .ok (definedCode (m.physMem.undefinedBytes a n) (n - 32 * pieces n),
          overlay (m.physMem.pullBytes a init n).1 buf)
        { m with physMem := (m.physMem.pullBytes a init n).2.2 } := by
  obtain ⟨hlt, hlast⟩ := pieces_lt hn
  rw [← PhysicalMemory.undefined_pullBytes init (by omega)]
  by_cases hsmall : n ≤ 32
  · have hnone : 32 * pieces n = 0 := by rw [pieces]; omega
    rw [readMemory, q.not_refused, if_neg Bool.false_ne_true, if_pos (by omega),
      readMemoryBlock_run h hn hsmall ha, hnone, Nat.sub_zero]
  · obtain ⟨j, hj, rcode, hend, hcode, hrun⟩ := readBlocks_front h q init hn ha
    -- no piece in front has a free byte
    have hsplit : 32 * pieces n = 32 * j + 32 * (pieces n - j) := by omega
    rw [hsplit, PhysicalMemory.undefinedBytes_add] at hfront
    obtain rfl : rcode = 0 := hcode.mpr (by omega)
    obtain rfl := hend rfl
    have hundef : (m.physMem.pullBytes a init (32 * pieces n)).2.1 = 0 := by
      rw [PhysicalMemory.undefined_pullBytes init (by omega)]
      exact hcode.mp rfl
    have hoff := Elfio.toNat_add_ofNat (a := a) (k := 32 * pieces n) (by omega)
    have hadd := PhysicalMemory.pullBytes_add init (32 * pieces n) (n - 32 * pieces n) m.physMem a
    have hlen := PhysicalMemory.length_pullBytes init (32 * pieces n) m.physMem a
    have htotal : 32 * pieces n + (n - 32 * pieces n) = n := by omega
    have hjoin := @splice_splice buf (m.physMem.pullBytes a init (32 * pieces n)).1 0
      ((m.physMem.pullBytes a init (32 * pieces n)).2.2.pullBytes
        (a + BitVec.ofNat 64 (32 * pieces n)) init (n - 32 * pieces n)).1 (by omega)
    rw [htotal] at hadd
    rw [hlen, Nat.zero_add, splice_zero, splice_zero, splice] at hjoin
    rw [readMemory_pieces a q init (by omega), EStateM.run_bind, hrun buf hbuf]
    dsimp only
    rw [if_neg (fun hne => hne rfl), EStateM.run_bind,
      readMemoryBlock_run (h.withPhysMem _) (by omega) hlast (by omega), hadd]
    dsimp only
    rw [hundef, Nat.zero_add, ← hjoin]
    rfl

/-- Otherwise it stops before the last piece. -/
theorem readMemory_stops (h : m.RamOnly) (q : AccessMode) (init : Bool)
    (ha : a.toNat + n ≤ 2 ^ 32) (hfront : m.physMem.undefinedBytes a (32 * pieces n) ≠ 0) :
    ∃ k < n, ∃ rcode, ∀ buf : List Byte, n ≤ buf.length →
      (readMemory a q.isData n q.isAligned buf q.forTest init).run m =
        .ok (rcode, overlay (m.physMem.pullBytes a init k).1 buf)
          { m with physMem := (m.physMem.pullBytes a init k).2.2 } := by
  have hlong : 32 < n := by
    by_contra hsmall
    have hnone : pieces n = 0 := by rw [pieces]; omega
    rw [hnone] at hfront
    exact hfront rfl
  obtain ⟨hlt, -⟩ := pieces_lt (n := n) (by omega)
  obtain ⟨j, hj, rcode, hend, hcode, hrun⟩ := readBlocks_front h q init (by omega) ha
  have hne : rcode ≠ 0 := fun h0 => hfront (hend h0 ▸ hcode.mp h0)
  refine ⟨32 * j, by omega, rcode, fun buf hbuf => ?_⟩
  rw [readMemory_pieces a q init hlong, EStateM.run_bind, hrun buf hbuf]
  dsimp only
  rw [if_pos hne]
  rfl

/-! ### One byte -/

/-- Return code and value of a read of one byte. -/
def byteRead (q : AccessMode) (init : Bool) (m : Memory) (b : U64) : Option (Int × Byte) :=
  (Effect.result ((readMemory b q.isData 1 q.isAligned [0] q.forTest init).run m)).bind fun r =>
    r.2.head?.map (r.1, ·)

theorem byteRead_eq (h : m.RamOnly) (q : AccessMode) (init : Bool) {b : U64} (hb : b.toNat < 2 ^ 32) :
    byteRead q init m b =
      some (definedCode (!m.physMem.isDefined b).toNat 1, m.physMem.byteAt b) := by
  have hblock := @readMemoryBlock_run m b 1 h (by decide) (by decide) (by omega) [0] q.forTest init
  have hpull : m.physMem.pullBytes b init 1 = ([m.physMem.byteAt b],
      0 + (!m.physMem.isDefined b).toNat, m.physMem.pullByte b init) := rfl
  rw [hpull, Nat.zero_add] at hblock
  rw [byteRead, readMemory, q.not_refused, if_neg Bool.false_ne_true, if_pos (by decide)]
  exact congrArg (fun r => (Effect.result r).bind fun r : Int × List Byte =>
    r.2.head?.map (r.1, ·)) hblock

/-- A byte that has a value reads as it. -/
theorem byteAt_of_seen {p : PhysicalMemory} {b : U64} {v : Byte} (h : p.seen b = some v) :
    p.byteAt b = v := by
  rw [PhysicalMemory.byteAt, PhysicalMemory.seen_touch_grows p b b v h, Option.getD_some]

theorem getElem?_overlay {xs buf : List Byte} {i : Nat} (h : xs.length ≤ i) :
    (overlay xs buf)[i]? = buf[i]? := by
  rw [overlay, List.getElem?_append_right h, List.getElem?_drop]
  congr 1
  omega

theorem overlay_of_length {xs buf : List Byte} (h : buf.length ≤ xs.length) : overlay xs buf = xs := by
  rw [overlay, List.drop_eq_nil_of_le h, List.append_nil]

/-! ### Write, then read -/

theorem bytesAt_add {buf : List Byte} {i : Nat} (h : a.toNat + i < 2 ^ 64) :
    PhysicalMemory.bytesAt a buf (a + BitVec.ofNat 64 i) = buf[i]? := by
  rw [PhysicalMemory.bytesAt, Elfio.toNat_add_ofNat h, if_pos (Nat.le_add_right _ _),
    Nat.add_sub_cancel_left]

theorem bytesAt_outside {buf : List Byte} {c : U64}
    (h : c.toNat < a.toNat ∨ a.toNat + buf.length ≤ c.toNat) :
    PhysicalMemory.bytesAt a buf c = none := by
  rw [PhysicalMemory.bytesAt]
  split_ifs with hle
  · exact List.getElem?_eq_none (by omega)
  · rfl

/-- What has been written is read back, whatever the length, and a byte elsewhere is read as without
    the write: with the same code, and with the same value if it had one. The value of a byte that
    no access has touched is random either way. -/
theorem write_then_read (m : Memory) (h : m.RamOnly) (q q' : AccessMode) (init : Bool) (a : U64)
    (b : List Byte) (hb : 1 ≤ b.length) (ha : a.toNat + b.length ≤ 2 ^ 32) :
    ∃ m', (writeMemory a q.isData b.length q.isAligned b q.forTest).run m = .ok 0 m' ∧
      (∀ buf : List Byte, buf.length = b.length → ∃ m'',
        (readMemory a q'.isData b.length q'.isAligned buf q'.forTest init).run m' =
          .ok (allBytesDefined, b) m'') ∧
      ∀ c : U64, c.toNat < 2 ^ 32 → c.toNat < a.toNat ∨ a.toNat + b.length ≤ c.toNat →
        (byteRead q' init m' c).map Prod.fst = (byteRead q' init m c).map Prod.fst ∧
          ((m.physMem.seen c).isSome → byteRead q' init m' c = byteRead q' init m c) := by
  have hpatched := PhysicalMemory.patched_putBytes false b m.physMem a (by omega)
  obtain ⟨p, hp⟩ : ∃ p, p = m.physMem.putBytes a false b := ⟨_, rfl⟩
  rw [← hp] at hpatched
  have hram := h.withPhysMem p
  refine ⟨_, writeMemory_whole h q hb ha, fun buf hbuf => ?_, fun c hc hout => ?_⟩
  · rw [← hp]
    have hwritten : ∀ i < b.length, p.isDefined (a + BitVec.ofNat 64 i) = true ∧
        p.seen (a + BitVec.ofNat 64 i) = b[i]? := by
      intro i hi
      have hat := @bytesAt_add a b i (by omega)
      rw [List.getElem?_eq_getElem hi] at hat ⊢
      exact hpatched.covered _ _ hat
    obtain ⟨hlt, -⟩ := pieces_lt hb
    have hall : p.undefinedBytes a b.length = 0 :=
      PhysicalMemory.undefinedBytes_eq_zero_iff.mpr fun i hi => (hwritten i hi).1
    have hfront : p.undefinedBytes a (32 * pieces b.length) = 0 :=
      PhysicalMemory.undefinedBytes_eq_zero_iff.mpr fun i hi => (hwritten i (by omega)).1
    have hbytes : (p.pullBytes a init b.length).1 = b := by
      have hread := PhysicalMemory.bytes_pullBytes (m := p) (a := a) (n := b.length)
        (c := fun x => (p.seen x).getD 0) init fun x hx => by
          obtain ⟨i, hi, rfl⟩ := PhysicalMemory.mem_span.mp hx
          rw [(hwritten i hi).2, List.getElem?_eq_getElem hi]
          rfl
      rw [hread]
      refine List.ext_getElem? fun i => ?_
      rw [List.getElem?_map]
      rcases Nat.lt_or_ge i b.length with hi | hi
      · rw [PhysicalMemory.getElem?_span hi, Option.map_some, (hwritten i hi).2,
          List.getElem?_eq_getElem hi]
        rfl
      · rw [List.getElem?_eq_none hi,
          List.getElem?_eq_none (by rw [PhysicalMemory.length_span]; exact hi)]
        rfl
    have hcode : definedCode 0 (b.length - 32 * pieces b.length) = allBytesDefined :=
      (definedCode_eq_zero_iff (by omega)).mpr rfl
    have hlong : b.length ≤ buf.length := by omega
    have hrun := readMemory_whole hram q' init hb ha hfront hlong
    dsimp only at hrun
    rw [hall, hcode, hbytes, overlay_of_length (by omega)] at hrun
    exact ⟨_, hrun⟩
  · rw [← hp]
    obtain ⟨hdef, hseen⟩ := hpatched.other c (bytesAt_outside hout)
    rw [byteRead_eq hram q' init hc, byteRead_eq h q' init hc]
    dsimp only
    rw [hdef]
    refine ⟨rfl, fun hvalue => ?_⟩
    obtain ⟨v, hv⟩ := Option.isSome_iff_exists.mp hvalue
    rw [byteAt_of_seen (hseen v hv), byteAt_of_seen hv]

/-- A data access. -/
def dataMode : AccessMode := ⟨true, true, false, .inl rfl⟩

theorem ramOnly_empty (o : Oracle) : (Memory.empty o).RamOnly := ⟨⟨rfl, rfl, rfl⟩, rfl⟩

/-- `rand` returns one number after the other. -/
def counting : Oracle := { rand := fun k => BitVec.ofNat 8 k, heap := fun _ => 0 }

/-- Forty bytes at 0x10, over three blocks. -/
theorem write_forty_then_read : ∃ m',
    (writeMemory 0x10 true (List.replicate 40 (7 : Byte)).length true (List.replicate 40 7) false).run
        (Memory.empty counting) = .ok 0 m' ∧
      ∀ buf : List Byte, buf.length = (List.replicate 40 (7 : Byte)).length → ∃ m'',
        (readMemory 0x10 true (List.replicate 40 (7 : Byte)).length true buf false false).run m' =
          .ok (allBytesDefined, List.replicate 40 7) m'' := by
  obtain ⟨m', hwrite, hread, -⟩ := write_then_read (Memory.empty counting)
    (ramOnly_empty counting) dataMode dataMode false 0x10 (List.replicate 40 7) (by decide) (by decide)
  exact ⟨m', hwrite, hread⟩

/-- A byte written at 0 draws the initial values of its block, and those of the next block are
    others than without the write. -/
theorem write_shifts_random_bytes : ¬ ∀ (m : Memory) (q : AccessMode) (a : U64) (b : List Byte),
    m.RamOnly → 1 ≤ b.length → a.toNat + b.length ≤ 2 ^ 32 →
    ∃ m', (writeMemory a q.isData b.length q.isAligned b q.forTest).run m = .ok 0 m' ∧
      ∀ c : U64, c.toNat < 2 ^ 32 → c.toNat < a.toNat ∨ a.toNat + b.length ≤ c.toNat →
        byteRead q false m' c = byteRead q false m c := by
  intro hall
  obtain ⟨m', hwrite, hsame⟩ := hall (Memory.empty counting) dataMode 0 [1] (ramOnly_empty counting)
    (by decide) (by decide)
  have hfinal : m' = Effect.final ((writeMemory 0 true 1 true [1] false).run
      (Memory.empty counting)) := by
    have hrun : (writeMemory 0 true 1 true [1] false).run (Memory.empty counting) = .ok 0 m' := hwrite
    rw [hrun, Effect.final_ok]
  have hbyte := hsame 32 (by decide) (by decide)
  rw [hfinal] at hbyte
  exact absurd hbyte (by decide +kernel)

/-! ### What a read fills in -/

/-- All bytes of the buffer are set, each to what a read of one byte returns then, and returned
    before if it had a value; the code says how many of them were defined. -/
def ReadsAll (m : Memory) (q : AccessMode) (init : Bool) (a : U64) (n : Nat) : Prop :=
  ∀ buf : List Byte, buf.length = n → ∃ bytes m',
    (readMemory a q.isData n q.isAligned buf q.forTest init).run m =
        .ok (definedCode (m.physMem.undefinedBytes a n) n, bytes) m' ∧
      bytes.length = n ∧
      ∀ i < n, bytes[i]? = (byteRead q init m' (a + BitVec.ofNat 64 i)).map Prod.snd ∧
        ((m.physMem.seen (a + BitVec.ofNat 64 i)).isSome →
          bytes[i]? = (byteRead q init m (a + BitVec.ofNat 64 i)).map Prod.snd)

/-- A read that stops leaves the last byte as it was. -/
theorem not_readsAll (h : m.RamOnly) (q : AccessMode) (init : Bool) (ha : a.toNat + n ≤ 2 ^ 32)
    (hfront : m.physMem.undefinedBytes a (32 * pieces n) ≠ 0) : ¬ ReadsAll m q init a n := by
  obtain ⟨k, hk, rcode, hrun⟩ := readMemory_stops h q init ha hfront
  have hlast : ∀ (x : Byte) bytes m',
      (readMemory a q.isData n q.isAligned (List.replicate n x) q.forTest init).run m =
        .ok (definedCode (m.physMem.undefinedBytes a n) n, bytes) m' →
      bytes[n - 1]? = some x ∧ m' = { m with physMem := (m.physMem.pullBytes a init k).2.2 } := by
    intro x bytes m' hread
    rw [hrun _ (Nat.le_of_eq List.length_replicate.symm)] at hread
    cases hread
    refine ⟨?_, rfl⟩
    rw [getElem?_overlay (by rw [PhysicalMemory.length_pullBytes]; omega),
      List.getElem?_replicate_of_lt (by omega)]
  intro hall
  obtain ⟨bytes, m', hread, -, hbytes⟩ := hall (List.replicate n 0) List.length_replicate
  obtain ⟨bytes', m'', hread', -, hbytes'⟩ := hall (List.replicate n 1) List.length_replicate
  obtain ⟨hzero, rfl⟩ := hlast 0 _ _ hread
  obtain ⟨hone, rfl⟩ := hlast 1 _ _ hread'
  have heq := (hbytes (n - 1) (by omega)).1.trans (hbytes' (n - 1) (by omega)).1.symm
  rw [hzero, hone] at heq
  exact absurd heq (by decide)

/-- A read that gets to the end. -/
theorem readsAll_iff_code (h : m.RamOnly) (q : AccessMode) (init : Bool) (hn : 0 < n)
    (ha : a.toNat + n ≤ 2 ^ 32) (hfront : m.physMem.undefinedBytes a (32 * pieces n) = 0) :
    ReadsAll m q init a n ↔ definedCode (m.physMem.undefinedBytes a n) (n - 32 * pieces n) =
      definedCode (m.physMem.undefinedBytes a n) n := by
  have hrun := fun (buf : List Byte) (hbuf : n ≤ buf.length) =>
    readMemory_whole h q init hn ha hfront hbuf
  constructor
  · intro hall
    obtain ⟨bytes, m', hread, -⟩ := hall (List.replicate n 0) List.length_replicate
    rw [hrun _ (Nat.le_of_eq List.length_replicate.symm)] at hread
    injection hread with hresult
    exact (Prod.mk.inj hresult).1
  · intro hcode buf hbuf
    have hread := hrun buf (Nat.le_of_eq hbuf.symm)
    have hlen := PhysicalMemory.length_pullBytes init n m.physMem a
    rw [hcode, overlay_of_length (by omega)] at hread
    have hpulled := PhysicalMemory.run_pullBytes init n m.physMem a
    refine ⟨_, _, hread, hlen, fun i hi => ?_⟩
    have hi' : (a + BitVec.ofNat 64 i).toNat < 2 ^ 32 := by
      rw [Elfio.toNat_add_ofNat (by omega)]
      omega
    obtain ⟨v, hv⟩ : ∃ v, (m.physMem.pullBytes a init n).1[i]? = some v :=
      ⟨_, List.getElem?_eq_getElem (by omega)⟩
    have hnow := hpulled.settles (PhysicalMemory.getElem?_span hi) hv
    rw [byteRead_eq (h.withPhysMem _) q init hi', byteRead_eq h q init hi', hv]
    dsimp only
    rw [Option.map_some, Option.map_some, byteAt_of_seen hnow]
    refine ⟨rfl, fun hvalue => ?_⟩
    obtain ⟨w, hw⟩ := Option.isSome_iff_exists.mp hvalue
    have hkept := (hpulled.keepsOff fun c x hx =>
      absurd hx (Cells.not_mem_reads _ _)).grows _ w hw
    rw [byteAt_of_seen hw, ← Option.some.inj (hnow.symm.trans hkept)]

/-- The codes of the last piece and of the whole. -/
theorem definedCode_eq_iff {undef l : Nat} (hundef : undef ≤ l) (hl : 0 < l) (hln : l ≤ n) :
    definedCode undef l = definedCode undef n ↔ l = n ∨ undef < l := by
  rw [definedCode, definedCode, allBytesFree, someBytesUndefined, allBytesDefined]
  split_ifs <;> omega

/-- For every memory, address and length: a read fills the buffer, and its code counts all bytes, if
    and only if it is one piece or the pieces in front of the last are defined and the last is not
    free altogether. -/
theorem long_read_fills_buffer_iff (m : Memory) (h : m.RamOnly) (q : AccessMode) (init : Bool)
    (a : U64) (n : Nat) (hn : 1 ≤ n) (ha : a.toNat + n ≤ 2 ^ 32) :
    ReadsAll m q init a n ↔ n ≤ 32 ∨
      (∀ i < 32 * pieces n, m.physMem.isDefined (a + BitVec.ofNat 64 i) = true) ∧
        ∃ i < n, 32 * pieces n ≤ i ∧ m.physMem.isDefined (a + BitVec.ofNat 64 i) = true := by
  obtain ⟨hlt, hlast⟩ := pieces_lt hn
  have hone : n - 32 * pieces n = n ↔ n ≤ 32 := by
    rw [pieces]
    omega
  rw [← PhysicalMemory.undefinedBytes_eq_zero_iff]
  by_cases hfront : m.physMem.undefinedBytes a (32 * pieces n) = 0
  · have hsplit := m.physMem.undefinedBytes_add a (32 * pieces n) (n - 32 * pieces n)
    have htotal : 32 * pieces n + (n - 32 * pieces n) = n := by omega
    rw [htotal, hfront, Nat.zero_add] at hsplit
    have hdefined : (∃ i < n, 32 * pieces n ≤ i ∧
        m.physMem.isDefined (a + BitVec.ofNat 64 i) = true) ↔
          m.physMem.undefinedBytes a n < n - 32 * pieces n := by
      rw [hsplit, PhysicalMemory.undefinedBytes_lt_iff]
      have hshift := Elfio.add_ofNat_add a (32 * pieces n)
      constructor
      · rintro ⟨i, hi, hle, hdef⟩
        refine ⟨i - 32 * pieces n, by omega, ?_⟩
        rwa [hshift, Nat.add_sub_cancel' hle]
      · rintro ⟨i, hi, hdef⟩
        rw [hshift] at hdef
        exact ⟨32 * pieces n + i, by omega, Nat.le_add_right _ _, hdef⟩
    have hle : m.physMem.undefinedBytes a n ≤ n - 32 * pieces n := by
      rw [hsplit]
      exact List.countP_le_length.trans (Nat.le_of_eq (PhysicalMemory.length_span _ _))
    rw [readsAll_iff_code h q init hn ha hfront, hdefined,
      definedCode_eq_iff hle (by omega) (Nat.sub_le _ _), hone]
    simp [hfront]
  · have hlong : ¬ n ≤ 32 := by
      intro hsmall
      have hnone : pieces n = 0 := by rw [pieces]; omega
      rw [hnone] at hfront
      exact hfront rfl
    exact iff_of_false (not_readsAll h q init ha hfront) (by simp [hlong, hfront])

/-- Five bytes of a memory nothing has touched. -/
theorem five_free_bytes_read : ReadsAll (Memory.empty counting) dataMode true 0 5 :=
  (long_read_fills_buffer_iff (Memory.empty counting) (ramOnly_empty counting) dataMode true 0 5
    (by decide) (by decide)).mpr (.inl (by decide))

/-- Of 33 such bytes the last is left out. -/
theorem free_bytes_cut_short : ¬ ∀ (m : Memory) (q : AccessMode) (init : Bool) (a : U64) (n : Nat),
    m.RamOnly → 1 ≤ n → a.toNat + n ≤ 2 ^ 32 → ReadsAll m q init a n := by
  intro hall
  have hram := ramOnly_empty counting
  have hfree : (Memory.empty counting).physMem.undefinedBytes 0 (32 * pieces 33) ≠ 0 := by decide
  exact not_readsAll hram dataMode true (by decide) hfree
    (hall _ dataMode true 0 33 hram (by decide) (by decide))

end RamOnly

end Memory

end Dimebox
