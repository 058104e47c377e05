import Dimebox.JumpManual
import Dimebox.Listing
import Dimebox.SignedArithmetic
import Dimebox.Shifts
import Dimebox.Division
import Dimebox.LoadStore
import Dimebox.Lib.Simulation

/-! The machine of the manual: harts that share a memory of bytes.

    A hart is a PC and 32 registers; it executes the word at its PC, decoded by the listing, in one
    step. A step is missing where the manual raises an exception or goes into the environment, and
    for the operands with which the simulator is known not to follow the manual (`followed`). -/

namespace Dimebox

instance (w : U32) (b : FixedBits) : Decidable (b.Matches w) := by
  cases b <;> unfold FixedBits.Matches <;> infer_instance

namespace Manual

/-- PC and general registers of a hart. -/
structure Hart where
  pc : U32
  x : Fin 32 → U32

/-- The harts and the bytes they share. -/
structure Harts where
  harts : List Hart
  bytes : U32 → Byte

/-- The class the listing names for a word. -/
def decode (w : U32) : Option Iclass :=
  match (newInstruction w).fixedBits with
  | some b => if b.Matches w then some (newInstruction w) else none
  | none => none

/-- The bytes at `a`, `a + 1`, ... -/
def loadBytes (bytes : U32 → Byte) (a : U32) (n : Nat) : List Byte :=
  (List.range n).map fun k => bytes (a + BitVec.ofNat 32 k)

/-- `vs` at `a`, `a + 1`, ..., and every other byte as it was. -/
def storeBytes (bytes : U32 → Byte) (a : U32) (vs : List Byte) : U32 → Byte := fun b =>
  vs.getD (b - a).toNat (bytes b)

/-- What the integer instructions of RV32IM write to `rd`. -/
def computed (c : Iclass) (w pc a b : U32) : Option U32 :=
  match c with
  | .sll => some (a <<< (b.toNat % 32))
  | .srl => some (a >>> (b.toNat % 32))
  | .sra => some (a.sshiftRight (b.toNat % 32))
  | .mul => some (lowWord (a.toInt * b.toInt))
  | .mulh => some (highWord (a.toInt * b.toInt))
  | .mulhsu => some (highWord (a.toInt * b.toNat))
  | .mulhu => some (highWord ((a.toNat : Int) * b.toNat))
  | .div => some (if b = 0 then 0xffffffff else BitVec.ofInt 32 (a.toInt.tdiv b.toInt))
  | .rem => some (if b = 0 then a else BitVec.ofInt 32 (a.toInt.tmod b.toInt))
  | .divu => some (if b = 0 then 0xffffffff else a / b)
  | .remu => some (if b = 0 then a else a % b)
  | c => result c w pc a b

/-- The control transfers. -/
def transfers (c : Iclass) : Bool := c = .jal || c.branches

namespace Hart

/-- A register operand: x0 is zero. -/
def reg (h : Hart) (r : Fin 32) : U32 := if r = 0 then 0 else h.x r

def rs1 (h : Hart) (w : U32) : U32 := h.reg (regNo w 15)
def rs2 (h : Hart) (w : U32) : U32 := h.reg (regNo w 20)

/-- A write to `rd`; x0 stays. -/
def putRd (h : Hart) (w v : U32) : Hart :=
  { h with x := fun r => if r = regNo w 7 ∧ r ≠ 0 then v else h.x r }

/-- The effective address of a load or store. -/
def address (h : Hart) (c : Iclass) (w : U32) : U32 :=
  h.rs1 w + if (storeKind c).isSome then immS w else immI w

/-- Where a transfer goes, taken or not. -/
def destination (h : Hart) (c : Iclass) (w : U32) : U32 :=
  if taken c (h.rs1 w) (h.rs2 w) then target c w h.pc (h.rs1 w) else h.pc + 4

/-- The instruction `w` of class `c`; `none` for an exception, or an instruction outside RV32IM. -/
def execute (h : Hart) (bytes : U32 → Byte) (c : Iclass) (w : U32) :
    Option (Hart × (U32 → Byte)) :=
  let next := fun h' : Hart => { h' with pc := h.pc + 4 }
  if transfers c then
    let h' := if c.links then h.putRd w (h.pc + 4) else h
    if h.destination c w &&& 3 = 0 then some ({ h' with pc := h.destination c w }, bytes) else none
  else if c = .fence ∨ c = .fenceI then some (next h, bytes)
  else match loadKind c, storeKind c with
    | some (size, signed), _ =>
      some (next (h.putRd w (extend size signed (little (loadBytes bytes (h.address c w) size)))),
        bytes)
    | none, some size =>
      some (next h, storeBytes bytes (h.address c w) (bytesOf size (h.rs2 w)))
    | none, none => (computed c w h.pc (h.rs1 w) (h.rs2 w)).map fun v => (next (h.putRd w v), bytes)

/-- The operands for which the simulator follows the manual: no REMU, shifts by less than 32, a JAL
    whose offset has 20 bits, and loads and stores that stay inside the 32-bit space. -/
def followed (h : Hart) (c : Iclass) (w : U32) : Bool :=
  match c with
  | .remu => false
  | .sll | .srl | .sra => (h.rs2 w).toNat < 32
  | .jal => w.getLsbD 31 = w.getLsbD 19
  | c =>
    match accessSize c with
    | some size => (h.address c w).toNat + size ≤ 2 ^ 32
    | none => true

end Hart

namespace Harts

/-- The word at the PC of a hart. -/
def word (M : Harts) (h : Hart) : U32 := little (loadBytes M.bytes h.pc 4)

/-- Hart `k` executes one instruction, from a PC that is a multiple of four. -/
def step (k : Nat) (M : Harts) : Option Harts :=
  M.harts[k]?.bind fun h =>
    if h.pc &&& 3 = 0 then
      (decode (M.word h)).bind fun c =>
        if h.followed c (M.word h) then
          (h.execute M.bytes c (M.word h)).map fun r =>
            { harts := M.harts.set k r.1, bytes := r.2 }
        else none
    else none

/-- The harts `ks` execute one instruction each, in this order. -/
abbrev run (ks : List Nat) (M : Harts) : Option Harts := Simulation.run step ks M

end Harts

/-- What a step takes. -/
theorem Harts.step_eq_some {k : Nat} {M M' : Harts} : M.step k = some M' ↔
    ∃ h c h' bytes, M.harts[k]? = some h ∧ h.pc &&& 3 = 0 ∧ decode (M.word h) = some c ∧
      h.followed c (M.word h) ∧ h.execute M.bytes c (M.word h) = some (h', bytes) ∧
      M' = { harts := M.harts.set k h', bytes } := by
  constructor
  · intro hstep
    obtain ⟨h, hk, hstep⟩ := Option.bind_eq_some_iff.mp hstep
    split at hstep
    · next hpc =>
      obtain ⟨c, hc, hstep⟩ := Option.bind_eq_some_iff.mp hstep
      split at hstep
      · next hf =>
        obtain ⟨⟨h', bytes⟩, hexec, hM⟩ := Option.map_eq_some_iff.mp hstep
        exact ⟨h, c, h', bytes, hk, hpc, hc, hf, hexec, hM.symm⟩
      · cases hstep
    · cases hstep
  · rintro ⟨h, c, h', bytes, hk, hpc, hc, hf, hexec, rfl⟩
    rw [step, hk, Option.bind_some, if_pos hpc, hc, Option.bind_some, if_pos hf, hexec]
    rfl

/-- The listing is a function of the word. -/
theorem decode_eq_some_iff (w : U32) (c : Iclass) :
    decode w = some c ↔ ∃ b, c.fixedBits = some b ∧ b.Matches w := by
  rw [decode]
  constructor
  · intro h
    split at h
    · next b hb =>
      split at h
      · next hm => exact Option.some.inj h ▸ ⟨b, hb, hm⟩
      · cases h
    · cases h
  · rintro ⟨b, hb, hm⟩
    rw [newInstruction_of_matches hb hm, hb]
    exact if_pos hm

/-- A listed word ends in 11. -/
theorem low_of_decode {w : U32} {c : Iclass} (h : decode w = some c) : w.toNat % 4 = 3 := by
  by_contra hlow
  rw [decode, newInstruction_of_low hlow] at h
  cases h

theorem newInstruction_of_decode {w : U32} {c : Iclass} (h : decode w = some c) :
    newInstruction w = c := by
  obtain ⟨b, hb, hm⟩ := (decode_eq_some_iff w c).mp h
  exact newInstruction_of_matches hb hm

end Manual

/-! ### The hart of a core -/

/-- The lower words of the PC and of the registers. -/
def RiscvState.hart (s : RiscvState) : Manual.Hart where
  pc := s.pc.setWidth 32
  x := fun r => (s.x r).setWidth 32

@[simp] theorem RiscvState.hart_pc (s : RiscvState) : s.hart.pc = s.pc.setWidth 32 := rfl

namespace Manual

/-- The bytes of the 32-bit space. -/
def low (bytes : U64 → Byte) : U32 → Byte := fun a => bytes (a.setWidth 64)

/-- The addresses of an access that stays in the 32-bit space. -/
theorem setWidth_add_ofNat {a : U32} {k n : Nat} (hk : k < n) (h : a.toNat + n ≤ 2 ^ 32) :
    ((a + BitVec.ofNat 32 k).setWidth 64 : U64) = a.setWidth 64 + BitVec.ofNat 64 k := by
  apply BitVec.eq_of_toNat_eq
  rw [BitVec.toNat_setWidth, BitVec.toNat_add, BitVec.toNat_add, BitVec.toNat_setWidth,
    BitVec.toNat_ofNat, BitVec.toNat_ofNat]
  have := a.isLt
  omega

theorem loadBytes_low (bytes : U64 → Byte) {a : U32} {n : Nat} (h : a.toNat + n ≤ 2 ^ 32) :
    loadBytes (low bytes) a n = FlatMachine.load bytes (a.setWidth 64) n := by
  refine List.map_congr_left fun k hk => ?_
  rw [low, setWidth_add_ofNat (List.mem_range.mp hk) h]

theorem storeBytes_low (bytes : U64 → Byte) {a : U32} {vs : List Byte}
    (h : a.toNat + vs.length ≤ 2 ^ 32) :
    storeBytes (low bytes) a vs = low (FlatMachine.store bytes (a.setWidth 64) vs) := by
  funext b
  rw [low, FlatMachine.store, storeBytes]
  by_cases hb : (b - a).toNat < vs.length
  · have hsame : (b.setWidth 64 - a.setWidth 64 : U64).toNat = (b - a).toNat := by bv_omega
    rw [hsame, low]
  · have hout : ¬ (b.setWidth 64 - a.setWidth 64 : U64).toNat < vs.length := by
      intro hlt
      apply hb
      have := a.isLt
      have := b.isLt
      rw [BitVec.toNat_sub] at hlt ⊢
      rw [BitVec.toNat_setWidth, BitVec.toNat_setWidth] at hlt
      omega
    rw [List.getD_eq_getElem?_getD, List.getD_eq_getElem?_getD, List.getElem?_eq_none (by omega),
      List.getElem?_eq_none (by omega)]
    rfl

end Manual

end Dimebox
