import Dimebox.AluManual
import Dimebox.PhysicalAccess
import Dimebox.StepEffects

/-! Loads and stores as a little-endian byte memory.

    A load reads memory while it executes, a store is queued and reaches memory in `Writeback`. The
    flat machine below has a register file and a total map from addresses to bytes. Every program of
    loads and stores, run instruction by instruction through `Execute` and `Writeback`, goes through
    the register files of the flat machine started with some fixed initial bytes; these have to be
    found from the end of the run, since the simulator draws a byte when it is first touched. -/

namespace Dimebox

/-! ### The flat machine -/

namespace Manual

/-- S-immediate: bits 31..25 over bits 11..7, sign-extended. -/
def immS (w : U32) : U32 := (w.extractLsb' 25 7 ++ w.extractLsb' 7 5 : BitVec 12).signExtend 32

/-- The loads: access size and whether the value is sign-extended. -/
def loadKind : Iclass → Option (Nat × Bool)
  | .lb => some (1, true)
  | .lh => some (2, true)
  | .lw => some (4, true)
  | .lbu => some (1, false)
  | .lhu => some (2, false)
  | _ => none

/-- The stores: access size. -/
def storeKind : Iclass → Option Nat
  | .sb => some 1
  | .sh => some 2
  | .sw => some 4
  | _ => none

/-- The little-endian combination of bytes. -/
def little : List Byte → U32
  | [] => 0
  | b :: bs => b.setWidth 32 ||| (little bs <<< 8)

/-- The bytes of a word, lowest first. -/
def bytesOf (size : Nat) (v : U32) : List Byte :=
  (List.range size).map fun k => (v >>> (8 * k)).setWidth 8

/-- A combined value of `size` bytes as a register value. -/
def extend (size : Nat) (signed : Bool) (v : U32) : U32 :=
  if signed then (v.setWidth (8 * size)).signExtend 32 else v

end Manual

/-- The bytes a class loads or stores. -/
def Manual.accessSize (c : Iclass) : Option Nat :=
  match loadKind c with
  | some (size, _) => some size
  | none => storeKind c

/-- Registers and bytes. -/
structure FlatMachine where
  x : Fin 32 → U64
  bytes : U64 → Byte

namespace FlatMachine

/-- A register operand: x0 is zero. -/
def operand (x : Fin 32 → U64) (r : Fin 32) : U32 := if r = 0 then 0 else (x r).setWidth 32

/-- The effective address of a load or store: `(rs1 + sext12(imm)) mod 2^32`. -/
def address (x : Fin 32 → U64) (w : U32) : U64 :=
  let imm := match Manual.storeKind (newInstruction w) with
    | some _ => Manual.immS w
    | none => Manual.immI w
  (operand x (Manual.regNo w 15) + imm).setWidth 64

/-- The bytes at `a`, `a + 1`, ... -/
def load (bytes : U64 → Byte) (a : U64) (size : Nat) : List Byte :=
  (List.range size).map fun k => bytes (a + BitVec.ofNat 64 k)

/-- `vs` at `a`, `a + 1`, ..., and every other byte as it was. -/
def store (bytes : U64 → Byte) (a : U64) (vs : List Byte) : U64 → Byte := fun b =>
  vs.getD (b - a).toNat (bytes b)

/-- One load or store. -/
def step (f : FlatMachine) (w : U32) : FlatMachine :=
  match Manual.loadKind (newInstruction w), Manual.storeKind (newInstruction w) with
  | some (size, signed), _ =>
    let v := Manual.extend size signed (Manual.little (load f.bytes (address f.x w) size))
    { f with x := fun r => if r = Manual.regNo w 7 ∧ r ≠ 0 then v.setWidth 64 else f.x r }
  | none, some size =>
    let vs := Manual.bytesOf size (operand f.x (Manual.regNo w 20))
    { f with bytes := store f.bytes (address f.x w) vs }
  | none, none => f

end FlatMachine

/-! ### Runs over cells -/

theorem span_eq_map (n : Nat) (a : U64) :
    PhysicalMemory.span a n = (List.range n).map fun k => a + BitVec.ofNat 64 k := by
  induction n generalizing a with
  | zero => rfl
  | succ n ih =>
    rw [PhysicalMemory.span, ih, List.range_succ_eq_map, List.map_cons, List.map_map]
    congr 1
    · simp
    · refine List.map_congr_left fun k _ => ?_
      exact (MemBlock.succ_add_ofNat a k)

/-- Writing the cells of an access one by one. -/
theorem after_writes (vs : List Byte) (c : U64 → Byte) (a : U64) (h : vs.length < 2 ^ 64) :
    Cells.after c (Cells.writes (PhysicalMemory.span a vs.length) vs) = FlatMachine.store c a vs := by
  induction vs generalizing c a with
  | nil =>
    funext b
    simp [PhysicalMemory.span, Cells.writes, Cells.after, FlatMachine.store]
  | cons v vs ih =>
    have ih := ih (Function.update c a v) (a + 1) (by simp at h; omega)
    simp only [List.length_cons, PhysicalMemory.span, Cells.writes, List.zipWith_cons_cons,
      Cells.after] at ih h ⊢
    rw [ih]
    funext b
    simp only [FlatMachine.store]
    by_cases hb : b = a
    · subst hb
      have hlast : (b - (b + 1)).toNat = 2 ^ 64 - 1 := by bv_omega
      rw [hlast, List.getD_eq_getElem?_getD, List.getElem?_eq_none (by omega)]
      simp
    · have hsucc : (b - a).toNat = (b - (a + 1)).toNat + 1 := by
        have hne : (b - a).toNat ≠ 0 := by
          intro h0
          exact hb (by bv_omega)
        bv_omega
      rw [hsucc, List.getD_cons_succ, Function.update_of_ne hb]

/-! ### Register values -/

theorem signExtend_or_shift (acc : U32) (b : Byte) (k : Nat) :
    acc.signExtend 64 ||| ((b.setWidth 32 : U32) <<< k).signExtend 64
      = (acc ||| ((b.setWidth 32 : U32) <<< k)).signExtend 64 := by
  rw [BitVec.signExtend_or]

/-- The copy loop of `MEMORY_READ` combines up to four bytes as a 32-bit integer; the spread of bit
    31 is its sign extension. -/
theorem registerValue_eq (bs : List Byte) (acc : U32) (i : Nat) (h : i + bs.length ≤ 4) :
    Step.registerValue false (acc.signExtend 64) i bs
      = .ok ((acc ||| (Manual.little bs <<< (8 * i))).signExtend 64) := by
  induction bs generalizing acc i with
  | nil => simp [Step.registerValue, Manual.little]
  | cons b bs ih =>
    simp only [List.length_cons] at h
    have hi : i * 8 < 32 := by omega
    have ih := ih (acc ||| ((b.setWidth 32 : U32) <<< (i * 8))) (i + 1) (by omega)
    have hstep : Step.orByte (acc.signExtend 64) i b
        = .ok ((acc ||| ((b.setWidth 32 : U32) <<< (i * 8))).signExtend 64) := by
      rw [Step.orByte, if_pos hi, signExtend_or_shift]
    rw [Step.registerValue]
    simp only [Bool.false_eq_true, if_false, hstep]
    refine ih.trans ?_
    congr 2
    have hshift : 8 * (i + 1) = 8 + 8 * i := by omega
    rw [Manual.little, BitVec.or_assoc, BitVec.shiftLeft_or_distrib, hshift, BitVec.shiftLeft_add,
      Nat.mul_comm i 8]

theorem little_lt (bs : List Byte) : (Manual.little bs).toNat < 2 ^ (8 * bs.length) := by
  induction bs with
  | nil => simp [Manual.little]
  | cons b bs ih =>
    have hlen : 8 * (b :: bs).length = 8 * bs.length + 8 := by rw [List.length_cons]; omega
    rw [Manual.little, BitVec.toNat_or, hlen]
    refine Nat.or_lt_two_pow ?_ ?_
    · have hb : (b.setWidth 32 : U32).toNat < 2 ^ 8 := by
        rw [BitVec.toNat_setWidth]
        exact Nat.lt_of_le_of_lt (Nat.mod_le _ _) b.isLt
      exact Nat.lt_of_lt_of_le hb (Nat.pow_le_pow_right (by omega) (by omega))
    · rw [BitVec.toNat_shiftLeft, Nat.shiftLeft_eq, Nat.pow_add]
      exact Nat.lt_of_le_of_lt (Nat.mod_le _ _) (Nat.mul_lt_mul_of_pos_right ih (by omega))

theorem setWidth_signExtend_self (v : U32) : ((v.signExtend 64 : U64).setWidth 32 : U32) = v := by
  apply BitVec.eq_of_getLsbD_eq
  intro j hj
  have hj' : j < 64 := by omega
  rw [BitVec.getLsbD_setWidth, BitVec.getLsbD_signExtend]
  simp [hj, hj']

/-- `SignExtend` from fewer than 32 bits, of a value that was read as an `int`. -/
theorem signExtend_narrow {v : U32} {w : Nat} (hw : 0 < w) (hw' : w < 32) (hv : v.toNat < 2 ^ w) :
    ((signExtend (v.signExtend 64) w).setWidth 32 : U32) = (v.setWidth w).signExtend 32 := by
  have hmsb : v.msb = false := by
    rw [BitVec.msb_eq_false_iff_two_mul_lt]
    have := Nat.pow_le_pow_right (n := 2) (by omega) (show w ≤ 31 by omega)
    omega
  have hzext : (v.signExtend 64 : U64) = v.setWidth 64 :=
    BitVec.signExtend_eq_setWidth_of_msb_false hmsb
  have hop : (v.setWidth 64 : U64).toNat < 2 ^ w := by
    rw [BitVec.toNat_setWidth]
    exact Nat.lt_of_le_of_lt (Nat.mod_le _ _) hv
  have hnarrow : ((v.setWidth 64 : U64).setWidth w) = v.setWidth w := by
    rw [BitVec.setWidth_setWidth_of_le _ (by omega)]
  rw [hzext, signExtend_eq hw (by omega) hop, hnarrow]
  apply BitVec.eq_of_getLsbD_eq
  intro j hj
  have hj' : j < 64 := by omega
  rw [BitVec.getLsbD_setWidth, BitVec.getLsbD_signExtend, BitVec.getLsbD_signExtend]
  simp [hj, hj']

/-- The loads, with the value they write to `rd`. -/
theorem step_load {c : Iclass} {size : Nat} {signed : Bool}
    (hk : Manual.loadKind c = some (size, signed)) {bs : List Byte} (hlen : bs.length = size) :
    ∃ ext, Step.step c = Step.load size ext ∧
      (ext ((Manual.little bs).signExtend 64)).setWidth 32
        = Manual.extend size signed (Manual.little bs) := by
  have hlt := little_lt bs
  rw [hlen] at hlt
  cases c <;> simp only [Manual.loadKind, Option.some.injEq, Prod.mk.injEq, reduceCtorEq] at hk
  case lb =>
    obtain ⟨rfl, rfl⟩ := hk
    exact ⟨_, rfl, signExtend_narrow (by omega) (by omega) hlt⟩
  case lh =>
    obtain ⟨rfl, rfl⟩ := hk
    exact ⟨_, rfl, signExtend_narrow (by omega) (by omega) hlt⟩
  case lw =>
    obtain ⟨rfl, rfl⟩ := hk
    refine ⟨_, rfl, ?_⟩
    simp [Manual.extend, setWidth_signExtend_self]
  case lbu | lhu =>
    obtain ⟨rfl, rfl⟩ := hk
    exact ⟨_, rfl, setWidth_signExtend_self _⟩

/-! ### Effective addresses -/

theorem low32_eq (a : U64) : Memory.low32 a = ((a.setWidth 32 : U32).setWidth 64 : U64) := by
  apply BitVec.eq_of_toNat_eq
  have := a.isLt
  rw [Memory.low32_toNat, BitVec.toNat_setWidth, BitVec.toNat_setWidth]
  omega

theorem immS_eq (w : U32) :
    (signExtend (((field w 25 0x7f <<< 5) ||| field w 7 0x1f).setWidth 64) 12).setWidth 32
      = Manual.immS w := by
  have h7 : (field w 25 0x7f).toNat = (w.extractLsb' 25 7).toNat := field_toNat w 25 7 (by omega)
  have h5 : (field w 7 0x1f).toNat = (w.extractLsb' 7 5).toNat := field_toNat w 7 5 (by omega)
  refine extendImm_eq (by omega) (by omega) ?_
  have := (w.extractLsb' 25 7).isLt
  rw [BitVec.toNat_or, BitVec.toNat_append, BitVec.toNat_shiftLeft, h7, h5, Nat.shiftLeft_eq,
    Nat.mod_eq_of_lt (by omega)]

/-- The address an instruction object computes, reduced to the 32-bit space. -/
theorem low32_effectiveAddress (i : RiscvInstruction) :
    Memory.low32 (i.rs1Val.setWidth 64 + i.immVal 12)
      = (i.rs1Val + (i.immVal 12).setWidth 32).setWidth 64 := by
  rw [low32_eq, addImm_eq]

/-! ### Executing a load or a store -/

/-- Memory as `RiscvSimulator::Init` sets it up on a little-endian host. -/
structure Memory.LittleRam (m : Memory) : Prop where
  range : m.DefaultRange
  host : m.hostEndianness = false

namespace Step

variable {i : RiscvInstruction}

/-- What a read of RAM leaves of the object. -/
def afterRead (i : RiscvInstruction) (a : U64) (size : Nat) : RiscvInstruction :=
  let r := i.memory.physMem.pullBytes (Memory.low32 a) true size
  { i with
    memory := { i.memory with physMem := r.2.2 }
    mbuf := Memory.overlay r.1 i.mbuf
    mOpsMemory := i.mOpsMemory ++ [{ address := a, size, isWrite := false }] }

theorem run_memoryRead (hm : i.memory.LittleRam) {a : U64} {size : Nat}
    (hsize : size = 1 ∨ size = 2 ∨ size = 4)
    (hdev : i.memory.deviceAt (Memory.low32 a) = none) :
    (memoryRead a size).run i
      = .ok ((Manual.little (i.memory.physMem.pullBytes (Memory.low32 a) true size).1).signExtend 64)
        (afterRead i a size) := by
  have hcheck : checkSize size "Internal error: MEMORY_READ invalid byte count" = .ok () :=
    if_pos (by omega)
  have hlen := PhysicalMemory.length_pullBytes true size i.memory.physMem (Memory.low32 a)
  have hread := Memory.readMemory_run hm.range hdev (by omega) (by omega : size ≤ 32) true i.mbuf true
  have htake : (Memory.overlay (i.memory.physMem.pullBytes (Memory.low32 a) true size).1
      i.mbuf).take size = (i.memory.physMem.pullBytes (Memory.low32 a) true size).1 := by
    rw [Memory.overlay, List.take_append_of_le_length (by omega), List.take_of_length_le (by omega)]
  have hval : registerValue false 0 0 (i.memory.physMem.pullBytes (Memory.low32 a) true size).1
      = .ok ((Manual.little
        (i.memory.physMem.pullBytes (Memory.low32 a) true size).1).signExtend 64) := by
    simpa using registerValue_eq (i.memory.physMem.pullBytes (Memory.low32 a) true size).1 0 0
      (by omega)
  rw [memoryRead, EStateM.run_bind, hcheck, Effect.run_lift_ok]
  simp only
  rw [EStateM.run_bind, EStateM.run_get]
  simp only
  rw [EStateM.run_bind, onMemory, Effect.run_focus, hread, Effect.mapState_ok]
  simp only [setMbuf, EStateM.run_bind, EStateM.run_modify, htake]
  rw [hm.host]
  simp only [Bool.false_eq_true, if_false, hval, Effect.run_lift_ok, pushBack, EStateM.run_modify,
    EStateM.run_pure, afterRead, hm.host]

theorem run_memoryWrite (hm : i.memory.LittleRam) {a : U64} {size : Nat} {v : U64}
    (hsize : size = 1 ∨ size = 2 ∨ size = 4) :
    (memoryWrite a size v).run i = .ok () { i with
      mbuf := Memory.overlay (registerBytes false size v) i.mbuf
      mOpsMemory := i.mOpsMemory ++
        [{ address := a, size, isWrite := true, membuffer := registerBytes false size v }] } := by
  have hcheck : checkSize size "Internal error: MEMORY_WRITE invalid byte count" = .ok () :=
    if_pos (by omega)
  rw [memoryWrite, EStateM.run_bind, hcheck, Effect.run_lift_ok]
  simp only
  rw [EStateM.run_bind, EStateM.run_get]
  simp only [setMbuf, EStateM.run_bind, EStateM.run_modify, pushBack]
  rw [hm.host]

/-- A load from RAM: the bytes are read now and combined into `rd`. -/
theorem run_load (hm : i.memory.LittleRam) {size : Nat} (ext : U64 → U64)
    (hsize : size = 1 ∨ size = 2 ∨ size = 4) (hrs1 : i.rs1.toNat < 32) (hrd : i.rd.toNat < 32)
    (hdev : i.memory.deviceAt (Memory.low32 (i.rs1Val.setWidth 64 + i.immVal 12)) = none) :
    let a := i.rs1Val.setWidth 64 + i.immVal 12
    let bs := (i.memory.physMem.pullBytes (Memory.low32 a) true size).1
    (load size ext).run i
      = .ok () ((afterRead i a size).putRd ((ext ((Manual.little bs).signExtend 64)).setWidth 32)) := by
  intro a bs
  rw [load, EStateM.run_bind, run_effectiveAddress hrs1]
  simp only
  rw [EStateM.run_bind, run_memoryRead hm hsize hdev]
  simp only
  rw [run_setRd (by exact hrd)]

/-- A store: the bytes are queued. -/
theorem run_store (hm : i.memory.LittleRam) {size : Nat} (hsize : size = 1 ∨ size = 2 ∨ size = 4)
    (hrs1 : i.rs1.toNat < 32) (hrs2 : i.rs2.toNat < 32) :
    ∃ mbuf, (store size).run i = .ok () { i with
      mbuf := mbuf
      mOpsMemory := i.mOpsMemory ++ [{
        address := i.rs1Val.setWidth 64 + i.immVal 12, size, isWrite := true
        membuffer := registerBytes false size (i.rs2Val.setWidth 64) }] } := by
  refine ⟨Memory.overlay (registerBytes false size (i.rs2Val.setWidth 64)) i.mbuf, ?_⟩
  rw [store, EStateM.run_bind, run_effectiveAddress hrs1]
  simp only
  rw [EStateM.run_bind, run_rs2 hrs2]
  simp only
  rw [run_memoryWrite hm hsize]

end Step

theorem registerBytes_eq (size : Nat) (v : U32) :
    Step.registerBytes false size (v.setWidth 64) = Manual.bytesOf size v := by
  simp only [Step.registerBytes, Bool.false_eq_true, if_false, Manual.bytesOf]
  refine List.map_congr_left fun k _ => ?_
  apply BitVec.eq_of_getLsbD_eq
  intro j hj
  simp only [BitVec.getLsbD_setWidth, BitVec.getLsbD_ushiftRight, hj, decide_true, Bool.true_and]
  rw [Nat.mul_comm k 8]
  by_cases h : 8 * k + j < 64
  · simp [h]
  · have hout : 32 ≤ 8 * k + j := by omega
    simp [BitVec.getLsbD_of_ge v _ hout]

theorem copy_x (storage core : RiscvState) : (RiscvState.copy storage core).x = core.x := by
  rw [RiscvState.copy, RiscvState.update_eq]

theorem update_x (core s : RiscvState) : (core.update s).x = s.x := by
  rw [RiscvState.update_eq]

theorem format_of_loadKind {c : Iclass} {k : Nat × Bool} (h : Manual.loadKind c = some k) :
    c.format = .i ∧ Manual.storeKind c = none ∧ (k.1 = 1 ∨ k.1 = 2 ∨ k.1 = 4) := by
  cases c <;> cases h
  all_goals exact ⟨rfl, rfl, by simp⟩

theorem format_of_storeKind {c : Iclass} {size : Nat} (h : Manual.storeKind c = some size) :
    c.format = .s ∧ Manual.loadKind c = none ∧ (size = 1 ∨ size = 2 ∨ size = 4) ∧
      Step.step c = Step.store size := by
  cases c <;> cases h
  all_goals exact ⟨rfl, rfl, by simp, rfl⟩

section OneWord

open RiscvInstruction (new)

variable (junk : Junk) (s : RiscvState) {w : U32} {m : Memory} {size : Nat}

/-- A register operand of a decoded instruction. -/
theorem operand_eq (w : U32) (lo : Nat) :
    (s.regVal (field w lo 0x1f)).setWidth 32 = FlatMachine.operand s.x (Manual.regNo w lo) :=
  regVal_field s w lo

theorem execute_load (hm : m.LittleRam) {signed : Bool}
    (hk : Manual.loadKind (newInstruction w) = some (size, signed))
    (hdev : m.deviceAt (FlatMachine.address s.x w) = none) :
    let r := m.physMem.pullBytes (FlatMachine.address s.x w) true size
    ∃ i' a, Step.execute.run (new junk (newInstruction w) s m w) = .ok () i' ∧
      i'.memory = { m with physMem := r.2.2 } ∧
      i'.mOpsMemory = [{ address := a, size, isWrite := false }] ∧
      i'.state.x = fun q => if q = Manual.regNo w 7 ∧ q ≠ 0 then
        (Manual.extend size signed (Manual.little r.1)).setWidth 64 else s.x q := by
  intro r
  obtain ⟨hformat, hnostore, hsize⟩ := format_of_loadKind hk
  obtain ⟨i, hi⟩ : ∃ i, i = (new junk (newInstruction w) s m w).decode := ⟨_, rfl⟩
  have hdec := decode_itype junk s m w hformat
  rw [← hi] at hdec
  have hmem : i.memory = m := by rw [hi]; simp
  have hops : i.mOpsMemory = [] := by rw [hi]; simp
  have hstate : i.state = s := by rw [hi]; simp
  have hrd : i.rd = field w 7 0x1f := by rw [hdec]
  have haddr : Memory.low32 (i.rs1Val.setWidth 64 + i.immVal 12) = FlatMachine.address s.x w := by
    have hrs1 : i.rs1Val = FlatMachine.operand s.x (Manual.regNo w 15) := by
      rw [RiscvInstruction.rs1Val, hdec]
      exact operand_eq s w 15
    have himm : (i.immVal 12).setWidth 32 = Manual.immI w := by
      rw [RiscvInstruction.immVal, hdec]
      exact immI_eq w
    rw [low32_effectiveAddress, hrs1, himm, FlatMachine.address, hnostore]
  obtain ⟨ext, hstep, hval⟩ := step_load hk
    (PhysicalMemory.length_pullBytes true size m.physMem (FlatMachine.address s.x w))
  have hload := Step.run_load (i := i) (hmem ▸ hm) ext hsize
    (by rw [hdec]; exact field_toNat_lt w 15) (by rw [hrd]; exact field_toNat_lt w 7)
    (by rw [hmem, haddr]; exact hdev)
  simp only [haddr, hmem, hval] at hload
  have hbody : (Step.step (new junk (newInstruction w) s m w).decode.iclass).run
      (new junk (newInstruction w) s m w).decode = .ok () ((Step.afterRead i
        (i.rs1Val.setWidth 64 + i.immVal 12) size).putRd
          (Manual.extend size signed (Manual.little r.1))) := by
    rw [RiscvInstruction.decode_iclass, ← hi, RiscvInstruction.new_iclass, hstep]
    exact hload
  refine ⟨_, i.rs1Val.setWidth 64 + i.immVal 12, Step.execute_of_ok hbody, ?_, ?_, ?_⟩
  · simp only [RiscvInstruction.putRd, Step.afterRead, haddr, hmem]
    rfl
  · simp only [RiscvInstruction.putRd, Step.afterRead, hops, List.nil_append]
  · have hset : ∀ v : U64, ((Step.afterRead i (i.rs1Val.setWidth 64 + i.immVal 12) size).state.setReg
        (Step.afterRead i (i.rs1Val.setWidth 64 + i.immVal 12) size).rd v)
          = s.setReg (field w 7 0x1f) v := by
      intro v
      simp only [Step.afterRead, hstate, hrd]
    simp only [RiscvInstruction.putRd, hset, setReg_field, RiscvState.setPc]

/-- The decoded fields of an S-type encoding. -/
theorem decode_stype {c : Iclass} (m : Memory) (w : U32) (hc : c.format = .s) :
    (new junk c s m w).decode = { new junk c s m w with
      imm := (field w 25 0x7f <<< 5) ||| field w 7 0x1f
      rs2 := field w 20 0x1f, rs1 := field w 15 0x1f } := by
  simp [RiscvInstruction.decode, hc]

theorem execute_store (hm : m.LittleRam) (hk : Manual.storeKind (newInstruction w) = some size) :
    ∃ i' a, Step.execute.run (new junk (newInstruction w) s m w) = .ok () i' ∧
      i'.memory = m ∧ Memory.low32 a = FlatMachine.address s.x w ∧
      i'.mOpsMemory = [{
        address := a, size, isWrite := true
        membuffer := Manual.bytesOf size (FlatMachine.operand s.x (Manual.regNo w 20)) }] ∧
      i'.state.x = s.x := by
  obtain ⟨hformat, -, hsize, hstep⟩ := format_of_storeKind hk
  obtain ⟨i, hi⟩ : ∃ i, i = (new junk (newInstruction w) s m w).decode := ⟨_, rfl⟩
  have hdec := decode_stype junk s m w hformat
  rw [← hi] at hdec
  have hmem : i.memory = m := by rw [hi]; simp
  have hops : i.mOpsMemory = [] := by rw [hi]; simp
  have hstate : i.state = s := by rw [hi]; simp
  have hrs2 : i.rs2Val = FlatMachine.operand s.x (Manual.regNo w 20) := by
    rw [RiscvInstruction.rs2Val, hdec]
    exact operand_eq s w 20
  have haddr : Memory.low32 (i.rs1Val.setWidth 64 + i.immVal 12) = FlatMachine.address s.x w := by
    have hrs1 : i.rs1Val = FlatMachine.operand s.x (Manual.regNo w 15) := by
      rw [RiscvInstruction.rs1Val, hdec]
      exact operand_eq s w 15
    have himm : (i.immVal 12).setWidth 32 = Manual.immS w := by
      rw [RiscvInstruction.immVal, hdec]
      exact immS_eq w
    rw [low32_effectiveAddress, hrs1, himm, FlatMachine.address, hk]
  obtain ⟨mbuf, hstore⟩ := Step.run_store (i := i) (hmem ▸ hm) hsize
    (by rw [hdec]; exact field_toNat_lt w 15) (by rw [hdec]; exact field_toNat_lt w 20)
  have hbody : (Step.step (new junk (newInstruction w) s m w).decode.iclass).run
      (new junk (newInstruction w) s m w).decode = .ok () { i with
        mbuf := mbuf
        mOpsMemory := i.mOpsMemory ++ [{
          address := i.rs1Val.setWidth 64 + i.immVal 12, size, isWrite := true
          membuffer := Step.registerBytes false size (i.rs2Val.setWidth 64) }] } := by
    rw [RiscvInstruction.decode_iclass, ← hi, RiscvInstruction.new_iclass, hstep]
    exact hstore
  refine ⟨_, i.rs1Val.setWidth 64 + i.immVal 12, Step.execute_of_ok hbody, hmem, haddr, ?_, ?_⟩
  · simp only [hops, List.nil_append, registerBytes_eq, hrs2]
  · simp only [hstate, RiscvState.setPc]

end OneWord

/-! ### One instruction through Execute and Writeback -/

section OneWord

variable (junk : Junk) (storage : RiscvState) {w : U32} {core : RiscvState} {m : Memory}
  {size : Nat}

theorem runWord_load (hm : m.LittleRam) {signed : Bool}
    (hk : Manual.loadKind (newInstruction w) = some (size, signed))
    (hdev : m.deviceAt (FlatMachine.address core.x w) = none) :
    let r := m.physMem.pullBytes (FlatMachine.address core.x w) true size
    ∃ core', runWord junk storage w core m = .ok (core', { m with physMem := r.2.2 }) ∧
      core'.x = fun q => if q = Manual.regNo w 7 ∧ q ≠ 0 then
        (Manual.extend size signed (Manual.little r.1)).setWidth 64 else core.x q := by
  intro r
  have hx := copy_x storage core
  obtain ⟨i', a, hrun, hmem, hops, hstate⟩ := execute_load junk
    (RiscvState.copy storage core) hm hk (by rw [hx]; exact hdev)
  rw [hx] at hmem hstate
  refine ⟨core.update i'.state, runWord_of_execute hrun ?_, ?_⟩
  · rw [hops, hmem]
    rfl
  · rw [update_x]
    exact hstate

theorem runWord_store (hm : m.LittleRam)
    (hk : Manual.storeKind (newInstruction w) = some size)
    (hdev : m.deviceAt (FlatMachine.address core.x w) = none) :
    let vs := Manual.bytesOf size (FlatMachine.operand core.x (Manual.regNo w 20))
    ∃ core', runWord junk storage w core m = .ok (core', { m with
        physMem := m.physMem.putBytes (FlatMachine.address core.x w) false vs }) ∧
      core'.x = core.x := by
  intro vs
  have hx := copy_x storage core
  obtain ⟨-, -, hsize, -⟩ := format_of_storeKind hk
  obtain ⟨i', a, hrun, hmem, haddr, hops, hstate⟩ := execute_store junk
    (RiscvState.copy storage core) hm hk
  rw [hx] at haddr hops hstate
  have hlen : vs.length = size := by simp [vs, Manual.bytesOf]
  refine ⟨core.update i'.state, runWord_of_execute hrun ?_, ?_⟩
  · have hbuf : size ≤ vs.length := by omega
    have hdev' : m.deviceAt (Memory.low32 a) = none := by rw [haddr]; exact hdev
    have hwrite := Memory.writeMemory_run hm.range hdev' (by omega) (by omega) hbuf
    rw [List.take_of_length_le (Nat.le_of_eq hlen), haddr] at hwrite
    rw [hops, hmem, writebackOps]
    simp only [if_true]
    rw [EStateM.run_bind, hwrite]
    rfl
  · rw [update_x]
    exact hstate

end OneWord

/-! ### Programs -/

/-- One step of a program: the word, and what the objects of the step held when they were made. -/
structure Fetched where
  word : U32
  storage : RiscvState
  junk : Junk

namespace Fetched

/-- Run one step on a core and memory. -/
def run (p : Fetched) (core : RiscvState) (m : Memory) : Except Fault (RiscvState × Memory) :=
  runWord p.junk p.storage p.word core m

/-- A load or store that stays in the 32-bit space and out of the device windows. -/
def Admissible (p : Fetched) (core : RiscvState) (m : Memory) : Prop :=
  ∃ size, Manual.accessSize (newInstruction p.word) = some size ∧
    (FlatMachine.address core.x p.word).toNat + size ≤ 2 ^ 32 ∧
    ∀ k < size, m.deviceAt (FlatMachine.address core.x p.word + BitVec.ofNat 64 k) = none

/-- Every step of the program is admissible when it is run. -/
def Admits : List Fetched → RiscvState → Memory → Prop
  | [], _, _ => True
  | p :: ps, core, m =>
    p.Admissible core m ∧ ∀ core' m', p.run core m = .ok (core', m') → Admits ps core' m'

/-- The flat machine has the registers of the core and agrees with every byte that has a value. -/
def Agrees (core : RiscvState) (m : Memory) (f : FlatMachine) : Prop :=
  core.x = f.x ∧ Cells.Resolves f.bytes m.physMem.seen

/-- The program runs to its end, in agreement with the flat machine before and after every step. -/
def Simulates : List Fetched → RiscvState → Memory → FlatMachine → Prop
  | [], core, m, f => Agrees core m f
  | p :: ps, core, m, f =>
    Agrees core m f ∧ ∃ core' m', p.run core m = .ok (core', m') ∧
      Simulates ps core' m' (f.step p.word)

/-- One step: the accesses it makes, and the flat machine that explains them. -/
theorem run_step (p : Fetched) {core : RiscvState} {m : Memory} (hm : m.LittleRam)
    (h : p.Admissible core m) :
    ∃ core' m' accesses, p.run core m = .ok (core', m') ∧ m'.LittleRam ∧
      Cells.Run m.physMem.seen accesses m'.physMem.seen ∧
      ∀ bytes, Cells.Explains bytes accesses →
        FlatMachine.step ⟨core.x, bytes⟩ p.word = ⟨core'.x, Cells.after bytes accesses⟩ := by
  obtain ⟨size, hsize, -, hdev⟩ := h
  have hpos : 0 < size → m.deviceAt (FlatMachine.address core.x p.word) = none := by
    intro h0
    simpa using hdev 0 h0
  unfold Manual.accessSize at hsize
  split at hsize
  · next signed hk =>
    obtain rfl := Option.some.inj hsize
    obtain ⟨-, -, hsize'⟩ := format_of_loadKind hk
    obtain ⟨core', hrun, hx⟩ := runWord_load p.junk p.storage hm hk (hpos (by omega))
    refine ⟨core', _, _, hrun, ⟨hm.range.withPhysMem _, hm.host⟩,
      PhysicalMemory.run_pullBytes true _ m.physMem _, fun bytes hexp => ?_⟩
    rw [Cells.explains_reads _ _ _ (by simp), span_eq_map, List.map_map] at hexp
    rw [Cells.after_reads, FlatMachine.step, hk]
    simp only [FlatMachine.mk.injEq, and_true]
    rw [hx, hexp]
    rfl
  · next hk =>
    obtain ⟨-, -, hsize', -⟩ := format_of_storeKind hsize
    obtain ⟨core', hrun, hx⟩ := runWord_store p.junk p.storage hm hsize (hpos (by omega))
    refine ⟨core', _, _, hrun, ⟨hm.range.withPhysMem _, hm.host⟩,
      PhysicalMemory.run_putBytes false _ m.physMem _, fun bytes _ => ?_⟩
    rw [after_writes _ _ _ (by simp [Manual.bytesOf]; omega), FlatMachine.step, hk, hsize, hx]

/-- Every program of loads and stores is a run of the flat machine: there are bytes, fixed before
    the run, that agree with what memory holds at the start and with which the flat machine goes
    through the same registers and bytes, step by step. -/
theorem loads_and_stores_simulate_flat : ∀ (ps : List Fetched) (core : RiscvState) (m : Memory),
    m.LittleRam → Admits ps core m → ∃ bytes, Simulates ps core m ⟨core.x, bytes⟩
  | [], core, m, _, _ =>
    ⟨fun a => (m.physMem.seen a).getD 0, rfl, fun a v h => by simp [h]⟩
  | p :: ps, core, m, hm, ⟨hp, hps⟩ => by
    obtain ⟨core', m', accesses, hrun, hm', hcells, hstep⟩ := run_step p hm hp
    obtain ⟨bytes', hsim⟩ := loads_and_stores_simulate_flat ps core' m' hm' (hps core' m' hrun)
    have hres : Cells.Resolves bytes' m'.physMem.seen := by
      cases ps with
      | nil => exact hsim.2
      | cons => exact hsim.1.2
    obtain ⟨bytes, hres₀, hexp, haft⟩ := Cells.exists_initial hcells hres
    refine ⟨bytes, ⟨rfl, hres₀⟩, core', m', hrun, ?_⟩
    rw [hstep bytes hexp, haft]
    exact hsim

/-- `sb x1,0(x2)` and `lb x3,0(x2)` with x1 = 0x80 and x2 = 0x1000. -/
theorem store_byte_load_byte_simulate_flat :
    let core : RiscvState := { x := fun r => if r = 1 then 0x80 else if r = 2 then 0x1000 else 0 }
    let m : Memory := { physMem := { oracle := { rand := fun _ => 7, heap := fun _ => 9 } } }
    let ps : List Fetched := [⟨0x00110023, {}, {}⟩, ⟨0x00010183, {}, {}⟩]
    m.LittleRam ∧ Admits ps core m ∧ ∃ bytes, Simulates ps core m ⟨core.x, bytes⟩ := by
  intro core m ps
  have hm : m.LittleRam := ⟨⟨rfl, rfl, rfl⟩, rfl⟩
  have had : Admits ps core m := by
    refine ⟨⟨1, by decide, by decide, fun _ _ => Memory.deviceAt_nil rfl _⟩, ?_⟩
    intro core' m' hrun
    have hkind : Manual.storeKind (newInstruction 0x00110023) = some 1 := by decide
    have hdev : m.deviceAt (FlatMachine.address core.x 0x00110023) = none := Memory.deviceAt_nil rfl _
    obtain ⟨core₁, hrun₁, hx⟩ := runWord_store {} {} hm hkind hdev
    obtain ⟨rfl, rfl⟩ := Prod.mk.inj (Except.ok.inj (hrun.symm.trans hrun₁))
    refine ⟨⟨1, by decide, ?_, fun _ _ => Memory.deviceAt_nil rfl _⟩, fun _ _ _ => trivial⟩
    rw [hx]
    decide
  exact ⟨hm, had, loads_and_stores_simulate_flat ps core m hm had⟩

end Fetched

end Dimebox
