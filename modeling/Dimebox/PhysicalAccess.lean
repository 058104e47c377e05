import Dimebox.Memory
import Dimebox.PhysicalBytes

/-! Physical accesses on the 32-bit address space.

    `RiscvSimulator::Init` sizes memory to 32 bits over the full range. The start address of an
    access is reduced modulo 2^32 and the validated end address is thrown away, so an access is the
    run of its byte accesses modulo 2^32 as long as it does not run over the end of the space; the
    ones that do put their last bytes into the block at 2^32. -/

namespace Dimebox.Memory

open PhysicalMemory (span)

/-- The memory `RiscvSimulator::Init` sets up. -/
structure DefaultRange (m : Memory) : Prop where
  sizeInBits : m.sizeInBits = 32
  lo : m.physicalAddressLo = 0
  hi : m.physicalAddressHi = 0xffffffff

theorem DefaultRange.withPhysMem {m : Memory} (hm : m.DefaultRange) (p : PhysicalMemory) :
    DefaultRange { m with physMem := p } := ⟨hm.sizeInBits, hm.lo, hm.hi⟩

/-- An address reduced to the 32-bit space. -/
def low32 (address : U64) : U64 := address &&& 0xffffffff

theorem low32_toNat (a : U64) : (low32 a).toNat = a.toNat % 2 ^ 32 := by
  rw [low32, BitVec.toNat_and]
  exact Nat.and_two_pow_sub_one_eq_mod a.toNat 32

theorem low32_of_lt {a : U64} (h : a.toNat < 2 ^ 32) : low32 a = a :=
  BitVec.eq_of_toNat_eq (by rw [low32_toNat, Nat.mod_eq_of_lt h])

theorem low32_lt (a : U64) : (low32 a).toNat < 2 ^ 32 := by
  rw [low32_toNat]; omega

theorem validate_eq {m : Memory} (hm : m.DefaultRange) (a : U64) :
    m.validatePhysicalMemoryAddress a false = .ok (low32 a) := by
  have hmask : m.paMask = 0xffffffff := by rw [paMask, hm.sizeInBits]; rfl
  have hrange : m.physicalAddressRange = some (0, 0xffffffff) := by
    rw [physicalAddressRange, hm.lo, hm.hi]; rfl
  have hle : (0 : U64) ≤ low32 a ∧ low32 a ≤ 0xffffffff := by
    refine ⟨BitVec.le_def.mpr (Nat.zero_le _), BitVec.le_def.mpr ?_⟩
    have := low32_lt a
    have h32 : (0xffffffff : U64).toNat = 2 ^ 32 - 1 := rfl
    omega
  simp only [validatePhysicalMemoryAddress, hmask, hrange, Bool.false_eq_true, and_false, if_false]
  exact if_pos hle

theorem checkAddresses_eq {m : Memory} (hm : m.DefaultRange) (a : U64) (n : Int) :
    m.checkAddresses a n false = .ok (low32 a) := by
  simp only [checkAddresses, validate_eq hm]
  rfl

/-- `WritePhysicalMemory` to RAM. -/
theorem writePhysicalMemory_run {m : Memory} (hm : m.DefaultRange) {a : U64} {n : Nat}
    {buf : List Byte} (hdev : m.deviceAt (low32 a) = none) (hn : 0 < n) (hn' : n ≤ 32)
    (hbuf : n ≤ buf.length) (iv : Bool) :
    (writePhysicalMemory a n buf false iv).run m
      = .ok 0 { m with physMem := m.physMem.putBytes (low32 a) iv (buf.take n) } := by
  rw [writePhysicalMemory, EStateM.run_bind, EStateM.run_get]
  simp only
  rw [EStateM.run_bind, checkAddresses_eq hm, Effect.run_lift_ok]
  simp only
  rw [hdev]
  simp only [onPhysMem]
  rw [Effect.run_focus, PhysicalMemory.write_run hn hn' hbuf, Effect.mapState_ok]

/-- `WritePhysicalMemory` to a device: the address is in its window. -/
theorem writePhysicalMemory_device {m : Memory} (hm : m.DefaultRange) {a : U64} {p : DevicePtr}
    (hdev : m.deviceAt (low32 a) = some p) (n : Int) (buf : List Byte) (iv : Bool) :
    (writePhysicalMemory a n buf false iv).run m
      = (writeDeviceMemory p (low32 a) n buf false).run m := by
  rw [writePhysicalMemory, EStateM.run_bind, EStateM.run_get]
  simp only
  rw [EStateM.run_bind, checkAddresses_eq hm, Effect.run_lift_ok]
  simp only
  rw [hdev]

section Checked

variable {m : Memory} {a address : U64} {n : Int} {forTest : Bool} (buf : List Byte) (init : Bool)

/-- A read whose addresses do not pass the checks. -/
theorem readPhysicalMemory_unchecked {f : Fault} (h : m.checkAddresses a n forTest = .error f) :
    (readPhysicalMemory a n buf forTest init).run m = .error f m := by
  rw [readPhysicalMemory, EStateM.run_bind, EStateM.run_get]
  simp only
  rw [EStateM.run_bind, h]
  rfl

variable (h : m.checkAddresses a n forTest = .ok address)
include h

/-- A read that a device answers to. -/
theorem readPhysicalMemory_of_device {p : DevicePtr} (hdev : m.deviceAt address = some p) :
    (readPhysicalMemory a n buf forTest init).run m
      = (readDeviceMemory p address n buf forTest).run m := by
  rw [readPhysicalMemory, EStateM.run_bind, EStateM.run_get]
  simp only
  rw [EStateM.run_bind, h, Effect.run_lift_ok]
  simp only
  rw [hdev]

/-- A read that gets to the block store. -/
theorem readPhysicalMemory_of_ram (hdev : m.deviceAt address = none) :
    (readPhysicalMemory a n buf forTest init).run m =
      Effect.mapState (fun p => { m with physMem := p })
        (((fun r => (r.1, overlay r.2 buf)) <$> PhysicalMemory.read address init n).run m.physMem) := by
  rw [readPhysicalMemory, EStateM.run_bind, EStateM.run_get]
  simp only
  rw [EStateM.run_bind, h, Effect.run_lift_ok]
  simp only
  rw [hdev]
  simp only [onPhysMem]
  rw [EStateM.run_bind, Effect.run_focus, map_eq_pure_bind, EStateM.run_bind]
  cases (PhysicalMemory.read address init n).run m.physMem <;> rfl

end Checked

/-- `ReadPhysicalMemory` of RAM. -/
theorem readPhysicalMemory_run {m : Memory} (hm : m.DefaultRange) {a : U64} {n : Nat}
    (hdev : m.deviceAt (low32 a) = none) (hn : 0 < n) (hn' : n ≤ 32) (buf : List Byte)
    (init : Bool) :
    (readPhysicalMemory a n buf false init).run m =
      let r := m.physMem.pullBytes (low32 a) init n
      .ok (definedCode r.2.1 n, overlay r.1 buf) { m with physMem := r.2.2 } := by
  rw [readPhysicalMemory_of_ram buf init (checkAddresses_eq hm a n) hdev, map_eq_pure_bind,
    EStateM.run_bind, PhysicalMemory.read_run hn hn']
  rfl

/-- A device access: the address is in its window. -/
theorem readPhysicalMemory_device {m : Memory} (hm : m.DefaultRange) {a : U64} {p : DevicePtr}
    (hdev : m.deviceAt (low32 a) = some p) (n : Nat) (buf : List Byte) (init : Bool) :
    (readPhysicalMemory a n buf false init).run m
      = (readDeviceMemory p (low32 a) n buf false).run m :=
  readPhysicalMemory_of_device buf init (checkAddresses_eq hm a n) hdev

theorem readDeviceMemory_ok (p : DevicePtr) (a : U64) (n : Int) (buf : List Byte) (m : Memory) :
    ∃ r d, (readDeviceMemory p a n buf false).run m = .ok r { m with deviceObjects := d } := by
  rw [readDeviceMemory, EStateM.run_bind, EStateM.run_get]
  simp only [Bool.false_eq_true, if_false]
  split
  · exact ⟨_, _, rfl⟩
  · exact ⟨_, m.deviceObjects, rfl⟩

/-- An access depends on its address modulo 2^32. -/
theorem checkAddresses_congr {m : Memory} (hm : m.DefaultRange) {a b : U64}
    (h : low32 a = low32 b) (n : Int) : m.checkAddresses a n false = m.checkAddresses b n false := by
  rw [checkAddresses_eq hm, checkAddresses_eq hm, h]

theorem readMemory_congr {m : Memory} (hm : m.DefaultRange) {a b : U64} (h : low32 a = low32 b)
    {n : Int} (hn : n ≤ 32) (aligned : Bool) (buf : List Byte) (init : Bool) :
    (readMemory a true n aligned buf false init).run m
      = (readMemory b true n aligned buf false init).run m := by
  rw [readMemory, readMemory]
  simp only [Bool.not_true, Bool.false_and, Bool.false_eq_true, if_false, hn, if_true,
    readMemoryBlock]
  rw [readPhysicalMemory, readPhysicalMemory, EStateM.run_bind, EStateM.run_bind, EStateM.run_get]
  simp only
  rw [EStateM.run_bind, EStateM.run_bind, checkAddresses_congr hm h]

theorem writeMemory_congr {m : Memory} (hm : m.DefaultRange) {a b : U64} (h : low32 a = low32 b)
    {n : Int} (hn : n ≤ 32) (aligned aligned' : Bool) (buf : List Byte) :
    (writeMemory a true n aligned buf false).run m
      = (writeMemory b true n aligned' buf false).run m := by
  rw [writeMemory, writeMemory]
  simp only [Bool.not_true, Bool.false_and, Bool.false_eq_true, if_false, hn, if_true,
    writeMemoryBlock]
  rw [writePhysicalMemory, writePhysicalMemory, EStateM.run_bind, EStateM.run_bind,
    EStateM.run_get]
  simp only
  rw [EStateM.run_bind, EStateM.run_bind, checkAddresses_congr hm h]

/-- `ReadMemory` of at most a block of RAM as data. -/
theorem readMemory_run {m : Memory} (hm : m.DefaultRange) {a : U64} {n : Nat}
    (hdev : m.deviceAt (low32 a) = none) (hn : 0 < n) (hn' : n ≤ 32) (aligned : Bool)
    (buf : List Byte) (init : Bool) :
    (readMemory a true n aligned buf false init).run m =
      let r := m.physMem.pullBytes (low32 a) init n
      .ok (definedCode r.2.1 n, overlay r.1 buf) { m with physMem := r.2.2 } := by
  have hle : (n : Int) ≤ 32 := by omega
  rw [readMemory]
  simp only [Bool.not_true, Bool.false_and, Bool.false_eq_true, if_false, hle, if_true]
  exact readPhysicalMemory_run hm hdev hn hn' buf init

/-- `WriteMemory` of at most a block of RAM as data. -/
theorem writeMemory_run {m : Memory} (hm : m.DefaultRange) {a : U64} {n : Nat} {buf : List Byte}
    (hdev : m.deviceAt (low32 a) = none) (hn : 0 < n) (hn' : n ≤ 32) (hbuf : n ≤ buf.length)
    (aligned : Bool) :
    (writeMemory a true n aligned buf false).run m
      = .ok 0 { m with physMem := m.physMem.putBytes (low32 a) false (buf.take n) } := by
  have hle : (n : Int) ≤ 32 := by omega
  rw [writeMemory]
  simp only [Bool.not_true, Bool.false_and, Bool.false_eq_true, if_false, hle, if_true]
  exact writePhysicalMemory_run hm hdev hn hn' hbuf false

/-! ### One byte at a time -/

/-- One-byte writes at `(a + i) mod 2^32`. -/
def writeEachByte (a : U64) (iv : Bool) : List Byte → EStateM Fault Memory Unit
  | [] => return ()
  | v :: vs => do
    let _ ← writePhysicalMemory (low32 a) 1 [v] false iv
    writeEachByte (a + 1) iv vs

/-- One-byte reads at `(a + i) mod 2^32`. -/
def readEachByte (a : U64) (init : Bool) : Nat → EStateM Fault Memory (List Byte)
  | 0 => return []
  | n + 1 => do
    let r ← readPhysicalMemory (low32 a) 1 [0] false init
    let rs ← readEachByte (a + 1) init n
    return r.2 ++ rs

/-- Byte writes at addresses reduced modulo 2^32. -/
def putEach (p : PhysicalMemory) (a : U64) (iv : Bool) : List Byte → PhysicalMemory
  | [] => p
  | v :: vs => putEach (p.putByte (low32 a) v iv) (a + 1) iv vs

theorem deviceAt_nil {m : Memory} (h : m.devices = []) (a : U64) : m.deviceAt a = none := by
  simp [deviceAt, h]

theorem low32_low32 (a : U64) : low32 (low32 a) = low32 a := low32_of_lt (low32_lt a)

theorem writeEachByte_run (iv : Bool) (buf : List Byte) (m : Memory) (a : U64)
    (hm : m.DefaultRange) (hdev : m.devices = []) :
    (writeEachByte a iv buf).run m = .ok () { m with physMem := putEach m.physMem a iv buf } := by
  induction buf generalizing m a with
  | nil => rfl
  | cons v buf ih =>
    have h₁ : (writePhysicalMemory (low32 a) 1 [v] false iv).run m
        = .ok 0 { m with physMem := m.physMem.putByte (low32 (low32 a)) v iv } :=
      writePhysicalMemory_run hm (n := 1) (deviceAt_nil hdev _) Nat.one_pos (by omega)
        (Nat.le_refl [v].length) iv
    rw [low32_low32] at h₁
    rw [writeEachByte, EStateM.run_bind, h₁]
    exact ih _ (a + 1) (hm.withPhysMem _) hdev

theorem toNat_succ_of_lt {a : U64} (h : a.toNat + 1 < 2 ^ 64) : (a + 1).toNat = a.toNat + 1 := by
  rw [MemBlock.toNat_succ, Nat.mod_eq_of_lt h]

theorem low32_succ {a : U64} (h : (low32 a).toNat + 1 < 2 ^ 32) : low32 (a + 1) = low32 a + 1 := by
  apply BitVec.eq_of_toNat_eq
  have := a.isLt
  rw [toNat_succ_of_lt (by omega)]
  rw [low32_toNat] at h
  rw [low32_toNat, low32_toNat, MemBlock.toNat_succ]
  omega

/-- Inside the space the reduction does nothing. -/
theorem putEach_eq_putBytes (iv : Bool) (buf : List Byte) (p : PhysicalMemory) (a : U64)
    (hlen : (low32 a).toNat + buf.length ≤ 2 ^ 32) :
    putEach p a iv buf = p.putBytes (low32 a) iv buf := by
  induction buf generalizing p a with
  | nil => rfl
  | cons v buf ih =>
    cases buf with
    | nil => rfl
    | cons v' buf =>
      simp only [List.length_cons] at hlen
      have hlt : (low32 a).toNat + 1 < 2 ^ 32 := by omega
      rw [putEach, PhysicalMemory.putBytes, ← low32_succ hlt]
      refine ih _ (a + 1) ?_
      rw [low32_succ hlt, toNat_succ_of_lt (by omega)]
      simp only [List.length_cons]
      omega

theorem readEachByte_run (init : Bool) (n : Nat) (m : Memory) (a : U64) (hm : m.DefaultRange)
    (hdev : m.devices = []) (hlen : (low32 a).toNat + n ≤ 2 ^ 32) :
    (readEachByte a init n).run m =
      let r := m.physMem.pullBytes (low32 a) init n
      .ok r.1 { m with physMem := r.2.2 } := by
  induction n generalizing m a with
  | zero => rfl
  | succ n ih =>
    have h₁ : (readPhysicalMemory (low32 a) 1 [0] false init).run m =
        let r := m.physMem.pullBytes (low32 (low32 a)) init 1
        .ok (definedCode r.2.1 1, overlay r.1 [0]) { m with physMem := r.2.2 } :=
      readPhysicalMemory_run hm (n := 1) (deviceAt_nil hdev _) Nat.one_pos (by omega) [0] init
    rw [low32_low32] at h₁
    rw [readEachByte, EStateM.run_bind, h₁]
    cases n with
    | zero => rfl
    | succ n =>
      have hlt : (low32 a).toNat + 1 < 2 ^ 32 := by omega
      have ih := ih { m with physMem := m.physMem.pullByte (low32 a) init } (a + 1)
        (hm.withPhysMem _) hdev
        (by rw [low32_succ hlt, toNat_succ_of_lt (by omega)]; omega)
      rw [low32_succ hlt] at ih
      simp only [EStateM.run_bind, PhysicalMemory.pullBytes] at ih ⊢
      rw [ih]
      rfl

/-! ### Where the two agree -/

/-- The accesses of `n` bytes at `a` are the byte accesses at `(a + i) mod 2^32`, and nothing is
    stored outside the 32-bit space. -/
structure Bytewise (m : Memory) (a : U64) (n : Nat) : Prop where
  write : ∀ (buf : List Byte) (iv : Bool), buf.length = n →
    ∃ m', (writePhysicalMemory a n buf false iv).run m = .ok 0 m' ∧
      (writeEachByte a iv buf).run m = .ok () m'
  read : ∀ (buf : List Byte) (init : Bool), buf.length = n →
    ∃ rcode bytes m', (readPhysicalMemory a n buf false init).run m = .ok (rcode, bytes) m' ∧
      (readEachByte a init n).run m = .ok bytes m'
  inside : ∀ (buf : List Byte) (iv : Bool) (rcode : Int) (m' : Memory), buf.length = n →
    (writePhysicalMemory a n buf false iv).run m = .ok rcode m' →
    ∀ b : U64, 2 ^ 32 ≤ b.toNat →
      m'.physMem.isDefined b = m.physMem.isDefined b ∧ m'.physMem.seen b = m.physMem.seen b

section Space

variable {m : Memory} {a : U64} {n : Nat}

theorem overlay_of_length_eq {bytes buf : List Byte} (h : bytes.length = buf.length) :
    overlay bytes buf = bytes := by
  rw [overlay, h, List.drop_length, List.append_nil]

/-- An address outside the space is in no block of an access inside it. -/
theorem blockAddress_ne_of_outside {b x : U64} (hb : 2 ^ 32 ≤ b.toNat) (hx : x.toNat < 2 ^ 32) :
    MemBlock.blockAddress b ≠ MemBlock.blockAddress x := by
  intro h
  have := congrArg BitVec.toNat h
  rw [MemBlock.blockAddress_toNat, MemBlock.blockAddress_toNat] at this
  omega

theorem bytewise_of_le (hm : m.DefaultRange) (hdev : m.devices = []) (hn : 0 < n) (hn' : n ≤ 32)
    (h : (low32 a).toNat + n ≤ 2 ^ 32) : Bytewise m a n := by
  refine ⟨?_, ?_, ?_⟩
  · intro buf iv hbuf
    refine ⟨_, writePhysicalMemory_run hm (deviceAt_nil hdev _) hn hn' (Nat.le_of_eq hbuf.symm) iv,
      ?_⟩
    rw [writeEachByte_run iv buf m a hm hdev, putEach_eq_putBytes iv buf _ a (hbuf ▸ h),
      List.take_of_length_le (Nat.le_of_eq hbuf)]
  · intro buf init hbuf
    refine ⟨_, _, _, readPhysicalMemory_run hm (deviceAt_nil hdev _) hn hn' buf init, ?_⟩
    rw [overlay_of_length_eq (by rw [PhysicalMemory.length_pullBytes, hbuf])]
    exact readEachByte_run init n m a hm hdev h
  · intro buf iv rcode m' hbuf hrun b hb
    rw [writePhysicalMemory_run hm (deviceAt_nil hdev _) hn hn' (Nat.le_of_eq hbuf.symm) iv,
      List.take_of_length_le (Nat.le_of_eq hbuf)] at hrun
    obtain ⟨-, rfl⟩ := EStateM.Result.ok.inj hrun
    have hspan : ∀ x ∈ span (low32 a) buf.length, x.toNat < 2 ^ 32 := by
      intro x hx
      have := PhysicalMemory.toNat_of_mem_span hx (by omega)
      omega
    refine ⟨?_, ?_⟩
    · have hnot : b ∉ span (low32 a) buf.length := fun hx => absurd (hspan b hx) (by omega)
      simp [PhysicalMemory.isDefined_putBytes, hnot]
    · exact PhysicalMemory.seen_putBytes_of_ne iv buf _ _
        fun x hx => blockAddress_ne_of_outside hb (hspan x hx)

theorem putEach_replicate_keeps (iv : Bool) (v : Byte) {b : U64} (n : Nat) (p : PhysicalMemory)
    (a : U64) (h : p.seen b = some v) :
    (putEach p a iv (List.replicate n v)).seen b = some v := by
  induction n generalizing p a with
  | zero => exact h
  | succ n ih =>
    refine ih _ (a + 1) ?_
    rw [PhysicalMemory.seen_putByte]
    split
    · rfl
    · exact PhysicalMemory.seen_touch_grows p _ b v h

/-- Every reduced address of the access holds the byte afterwards. -/
theorem seen_putEach_replicate (iv : Bool) (v : Byte) {b : U64} (n : Nat) (p : PhysicalMemory)
    (a : U64) (i : Nat) (hi : i < n) (hb : b = low32 (a + BitVec.ofNat 64 i)) :
    (putEach p a iv (List.replicate n v)).seen b = some v := by
  induction n generalizing p a i with
  | zero => exact absurd hi (Nat.not_lt_zero i)
  | succ n ih =>
    cases i with
    | zero =>
      refine putEach_replicate_keeps iv v n _ (a + 1) ?_
      rw [PhysicalMemory.seen_putByte, if_pos (by simpa using hb)]
    | succ i =>
      refine ih _ (a + 1) i (by omega) ?_
      rw [hb, MemBlock.succ_add_ofNat]

/-- An access that runs over the end leaves address 0 alone, which the byte accesses write. -/
theorem not_bytewise_of_straddle (hm : m.DefaultRange) (hdev : m.devices = []) (hn' : n ≤ 32)
    (h : 2 ^ 32 < (low32 a).toNat + n) : ¬ Bytewise m a n := by
  intro hbw
  have hlow := low32_lt a
  have h0 : (0 : U64).toNat = 0 := rfl
  obtain ⟨v, hv⟩ : ∃ v : Byte, m.physMem.seen 0 ≠ some v := by
    by_cases h0 : m.physMem.seen 0 = some 0
    · exact ⟨1, by rw [h0]; decide⟩
    · exact ⟨0, h0⟩
  have hlen : (List.replicate n v).length = n := List.length_replicate
  obtain ⟨m', hmulti, heach⟩ := hbw.write (List.replicate n v) false hlen
  rw [writePhysicalMemory_run hm (deviceAt_nil hdev _) (by omega) hn' (Nat.le_of_eq hlen.symm),
    List.take_of_length_le (Nat.le_of_eq hlen)] at hmulti
  rw [writeEachByte_run false _ m a hm hdev] at heach
  obtain ⟨-, rfl⟩ := EStateM.Result.ok.inj hmulti
  have hphys := congrArg (fun x : Memory => x.physMem.seen 0) (EStateM.Result.ok.inj heach).2
  simp only at hphys
  have hzero : (0 : U64) = low32 (a + BitVec.ofNat 64 (2 ^ 32 - (low32 a).toNat)) := by
    apply BitVec.eq_of_toNat_eq
    have := a.isLt
    rw [low32_toNat] at h hlow ⊢
    rw [low32_toNat, BitVec.toNat_add, BitVec.toNat_ofNat, h0]
    omega
  rw [seen_putEach_replicate false v n _ a _ (by omega) hzero,
    PhysicalMemory.seen_putBytes_of_ne] at hphys
  · exact hv hphys.symm
  · intro x hx hblock
    rw [hlen] at hx
    have hx' := PhysicalMemory.toNat_of_mem_span hx (by omega)
    have := congrArg BitVec.toNat hblock
    rw [MemBlock.blockAddress_toNat, MemBlock.blockAddress_toNat, h0] at this
    omega

end Space

/-- On every memory without devices, the accesses of `n` bytes at `a` agree with byte accesses
    modulo 2^32 exactly if they end inside the 32-bit space. -/
theorem bytewise_iff_inside_space (m : Memory) (hm : m.DefaultRange) (hdev : m.devices = [])
    (a : U64) (n : Nat) (hn : 1 ≤ n ∧ n ≤ 32) :
    Bytewise m a n ↔ a.toNat % 2 ^ 32 + n ≤ 2 ^ 32 := by
  rw [← low32_toNat]
  refine ⟨fun h => ?_, bytewise_of_le hm hdev hn.1 hn.2⟩
  by_contra hlt
  exact not_bytewise_of_straddle hm hdev hn.2 (by omega) h

/-- The last two bytes of the space, and one byte more. -/
theorem bytewise_at_top :
    let m : Memory := { physMem := { oracle := { rand := fun _ => 7, heap := fun _ => 9 } } }
    Bytewise m 0xfffffffe 2 ∧ ¬ Bytewise m 0xfffffffe 3 := by
  intro m
  have hm : m.DefaultRange := ⟨rfl, rfl, rfl⟩
  exact ⟨(bytewise_iff_inside_space m hm rfl _ 2 (by decide)).mpr (by decide),
    fun h => absurd ((bytewise_iff_inside_space m hm rfl _ 3 (by decide)).mp h) (by decide)⟩

/-- Two bytes written at the last address: the second one lands at 2^32. -/
theorem two_bytes_at_last_address_not_bytewise :
    let m : Memory := { physMem := { oracle := { rand := fun _ => 7, heap := fun _ => 9 } } }
    ¬ Bytewise m 0xffffffff 2 := by
  intro m h
  have hrun := writePhysicalMemory_run (m := m) ⟨rfl, rfl, rfl⟩ (a := 0xffffffff)
    (deviceAt_nil rfl _) (n := 2) (by decide) (by decide) (Nat.le_refl [1, 2].length) false
  have hstored := (h.inside [1, 2] false 0 _ rfl hrun 0x100000000 (by decide)).1
  exact absurd hstored (by decide)

end Dimebox.Memory
