import Mathlib.Algebra.GroupWithZero.Nat
import Mathlib.Algebra.Ring.Int.Defs
import Dimebox.Division

/-! Shifts by a register.

    The manual shifts by the low five bits of rs2. SLLI, SRLI and SRAI mask their count; SLL, SRL
    and SRA shift by the whole of rs2, which C++ leaves undefined from 32 on (SRA masks the count in
    one of the two places where it stands). The arithmetic shifts go through `SignExtend`, which is
    right for every width. -/

namespace Dimebox

/-- The three shifts. -/
inductive Shift where
  | left
  | right
  | arithmetic
  deriving DecidableEq, Repr

namespace Shift

/-- The form with the count in a register, and the one with the count in the encoding. -/
def byRegister : Shift → Iclass
  | left => .sll
  | right => .srl
  | arithmetic => .sra

def byImmediate : Shift → Iclass
  | left => .slli
  | right => .srli
  | arithmetic => .srai

/-- What the manual computes for a count below 32. -/
def value : Shift → U32 → Nat → U32
  | left, a, n => a <<< n
  | right, a, n => a >>> n
  | arithmetic, a, n => a.sshiftRight n

/-- What the bodies compute. -/
def body : Shift → U32 → Nat → U32
  | left, a, n => a <<< n
  | right, a, n => a >>> n
  | arithmetic, a, n => Step.sra a n

/-- `sll x3,x1,x2`, `srl x3,x1,x2` and `sra x3,x1,x2`. -/
def word : Shift → U32
  | left => 0x002091b3
  | right => 0x0020d1b3
  | arithmetic => 0x4020d1b3

end Shift

/-- For source registers that hold `a` and `b`: any encoding of the register form writes `a` shifted
    by the low five bits of `b`, no shift by 32 or more being evaluated, and so does any encoding of
    the immediate form of that count on the same registers. -/
def ShiftsByLowBits (k : Shift) (a b : U32) : Prop :=
  ∀ (junk : Junk) (s : RiscvState) (m : Memory) (w : U32), newInstruction w = k.byRegister →
    Manual.operand s (Manual.regNo w 15) = a → Manual.operand s (Manual.regNo w 20) = b →
    Computes junk k.byRegister s m w (k.value a (b.toNat % 32)) ∧
    ∀ w' : U32, newInstruction w' = k.byImmediate → Manual.regNo w' 7 = Manual.regNo w 7 →
      Manual.regNo w' 15 = Manual.regNo w 15 → Manual.shamt w' = b.toNat % 32 →
      Computes junk k.byImmediate s m w' (k.value a (b.toNat % 32))

/-! ### The bodies -/

namespace Shift

variable {k : Shift}

theorem step_byRegister : Step.step k.byRegister = Step.shiftReg k.body := by cases k <;> rfl
theorem step_byImmediate : Step.step k.byImmediate = Step.shiftImm k.body := by cases k <;> rfl

theorem format_byRegister : k.byRegister.format = .r := by cases k <;> rfl
theorem format_byImmediate : k.byImmediate.format = .i := by cases k <;> rfl

theorem newInstruction_word : newInstruction k.word = k.byRegister := by cases k <;> decide

theorem body_eq (a : U32) {n : Nat} (hn : n < 32) : k.body a n = k.value a n := by
  cases k with
  | arithmetic => exact sra_eq a hn
  | _ => rfl

end Shift

namespace Step

variable {i : RiscvInstruction}

theorem run_shiftReg (h₁ : i.rs1.toNat < 32) (h₂ : i.rs2.toNat < 32) (hd : i.rd.toNat < 32)
    (f : U32 → Nat → U32) (hn : i.rs2Val.toNat < 32) :
    (shiftReg f).run i = .ok () (i.putRd (f i.rs1Val i.rs2Val.toNat)) := by
  simp only [shiftReg, EStateM.run_bind, run_rs1 h₁, run_rs2 h₂, if_neg (Nat.not_le.mpr hn),
    run_setRd hd]

theorem run_shiftReg_undefined (h₁ : i.rs1.toNat < 32) (h₂ : i.rs2.toNat < 32)
    (f : U32 → Nat → U32) (hn : 32 ≤ i.rs2Val.toNat) :
    (shiftReg f).run i = .error .undefined i := by
  simp only [shiftReg, EStateM.run_bind, run_rs1 h₁, run_rs2 h₂, if_pos hn]
  rfl

end Step

section Encodings

open RiscvInstruction (new)

variable {k : Shift} {junk : Junk} {s : RiscvState} {m : Memory} {w : U32}

theorem decode_byRegister : (new junk k.byRegister s m w).decode = { new junk k.byRegister s m w with
    rs2 := field w 20 0x1f, rs1 := field w 15 0x1f, rd := field w 7 0x1f } := by
  simp [RiscvInstruction.decode, Shift.format_byRegister]

theorem computes_byRegister (hn : (Manual.operand s (Manual.regNo w 20)).toNat < 32) :
    Computes junk k.byRegister s m w (k.body (Manual.operand s (Manual.regNo w 15))
      (Manual.operand s (Manual.regNo w 20)).toNat) := by
  have hdec := @decode_byRegister k junk s m w
  rw [← regVal_field] at hn
  refine computes_of_putRd (instrSize_of_format (.inl Shift.format_byRegister)) (by rw [hdec]) ?_
  rw [Shift.step_byRegister, Step.run_shiftReg (by rw [hdec]; exact field_toNat_lt w 15)
    (by rw [hdec]; exact field_toNat_lt w 20) (by rw [hdec]; exact field_toNat_lt w 7) k.body
    (by rw [hdec]; exact hn), ← regVal_field, ← regVal_field, hdec]
  rfl

/-- From 32 on the shift is evaluated and the program is undefined from there. -/
theorem byRegister_undefined (hn : 32 ≤ (Manual.operand s (Manual.regNo w 20)).toNat) :
    Step.execute.run (new junk k.byRegister s m w)
      = .error .undefined (new junk k.byRegister s m w).decode := by
  have hdec := @decode_byRegister k junk s m w
  rw [← regVal_field] at hn
  refine Step.execute_of_fault ?_ (by rintro e ⟨⟩)
  rw [RiscvInstruction.decode_iclass, RiscvInstruction.new_iclass, Shift.step_byRegister]
  exact Step.run_shiftReg_undefined (by rw [hdec]; exact field_toNat_lt w 15)
    (by rw [hdec]; exact field_toNat_lt w 20) k.body (by rw [hdec]; exact hn)

theorem computes_byImmediate : Computes junk k.byImmediate s m w
    (k.value (Manual.operand s (Manual.regNo w 15)) (Manual.shamt w)) := by
  rw [← Shift.body_eq _ (shamt_lt w)]
  exact computes_shiftImm Shift.format_byImmediate Shift.step_byImmediate

end Encodings

/-- A count the manual reduces to five bits must have been one already. -/
theorem ShiftsByLowBits.count_lt {k : Shift} {a b : U32} (h : ShiftsByLowBits k a b) :
    b.toNat < 32 := by
  by_contra hb
  let m : Memory := { physMem := { oracle := { rand := fun _ => 0, heap := fun _ => 0 } } }
  have hrs1 : Manual.regNo k.word 15 = 1 := by cases k <;> rfl
  have hrs2 : Manual.regNo k.word 20 = 2 := by cases k <;> rfl
  have hop2 : Manual.operand (operandState a b) (Manual.regNo k.word 20) = b := by
    rw [hrs2, operandState_rs2]
  obtain ⟨⟨i, hi, -⟩, -⟩ := h {} (operandState a b) m k.word Shift.newInstruction_word
    (by rw [hrs1, operandState_rs1]) hop2
  rw [byRegister_undefined (by rw [hop2]; omega)] at hi
  cases hi

theorem shiftsByLowBits_of_lt {k : Shift} {a b : U32} (hb : b.toNat < 32) :
    ShiftsByLowBits k a b := by
  rintro junk s m w - rfl rfl
  have hmod : (Manual.operand s (Manual.regNo w 20)).toNat % 32
      = (Manual.operand s (Manual.regNo w 20)).toNat := Nat.mod_eq_of_lt hb
  constructor
  · rw [hmod, ← Shift.body_eq _ hb]
    exact computes_byRegister hb
  · rintro w' - - hrs1 hshamt
    rw [← hshamt, ← hrs1]
    exact computes_byImmediate

/-- For every value of rs1 and rs2, the shifts by a register are those of the manual, free of
    undefined shifts and equal to the immediate forms, exactly if rs2 is below 32. -/
theorem shiftsByLowBits_iff (k : Shift) (a b : U32) : ShiftsByLowBits k a b ↔ b.toNat < 32 :=
  ⟨ShiftsByLowBits.count_lt, shiftsByLowBits_of_lt⟩

/-- A shift by 32 is evaluated where the manual shifts by zero. -/
theorem shift_by_32_is_not_by_zero : ¬ ∀ (k : Shift) (a b : U32), ShiftsByLowBits k a b := by
  intro h
  have hlt := (h .left 1 32).count_lt
  exact absurd hlt (by decide)

/-! ### Sign extension -/

/-- A field of any width, read as a signed number. -/
theorem toInt_signExtend {op : U64} {w : Nat} (hw : 0 < w) (hw' : w ≤ 64) (hop : op.toNat < 2 ^ w) :
    (signExtend op w).toInt =
      if op.toNat < 2 ^ (w - 1) then (op.toNat : Int) else (op.toNat : Int) - 2 ^ w := by
  have hfield : (op.setWidth w).toNat = op.toNat := by
    rw [BitVec.toNat_setWidth, Nat.mod_eq_of_lt hop]
  have hhalf : 2 * 2 ^ (w - 1) = 2 ^ w := Nat.two_pow_pred_mul_two hw ▸ Nat.mul_comm ..
  rw [signExtend_eq hw hw' hop, BitVec.toInt_signExtend_of_le hw', BitVec.toInt_eq_toNat_cond,
    hfield]
  split
  · rw [if_pos (by omega)]
  · rw [if_neg (by omega)]
    push_cast
    rfl

/-- For every width and every value of that width `SignExtend` is two's complement, and for every
    word and every count SRAI shifts arithmetically. -/
theorem signExtend_twosComplement {op : U64} {w : Nat} (hw : 0 < w) (hw' : w ≤ 64)
    (hop : op.toNat < 2 ^ w) (x : U32) {n : Nat} (hn : n < 32) :
    (signExtend op w).toInt =
        (if op.toNat < 2 ^ (w - 1) then (op.toNat : Int) else (op.toNat : Int) - 2 ^ w) ∧
      (signExtend ((x >>> n).setWidth 64) (32 - n)).setWidth 32 = x.sshiftRight n :=
  ⟨toInt_signExtend hw hw' hop, sra_eq x hn⟩

/-- A set sign bit in one bit, and in a whole word. -/
theorem signExtend_twosComplement_one :
    (signExtend 1 1).toInt =
        (if (1 : U64).toNat < 2 ^ (1 - 1) then ((1 : U64).toNat : Int) else (1 : U64).toNat - 2 ^ 1) ∧
      (signExtend (((0x80000000 : U32) >>> 31).setWidth 64) (32 - 31)).setWidth 32
        = (0x80000000 : U32).sshiftRight 31 :=
  signExtend_twosComplement (by decide) (by decide) (by decide) 0x80000000 (by decide)

end Dimebox
