import Dimebox.AluManual

/-! Unsigned division.

    DIVU divides as the manual says, a zero divisor included. REMU forms `rdq * rs2 - rs2`, the
    product less the divisor and not the dividend less the product, and divides before it has
    looked at the divisor. What the two write is stated for every encoding and every state, then
    compared with the division law. -/

namespace Dimebox

namespace Manual

/-- Quotient and remainder of `a` by `b`: Euclidean for a divisor other than zero; by zero, all ones
    and the dividend. -/
def Euclidean (a b q r : U32) : Prop :=
  (b ≠ 0 → a.toNat = q.toNat * b.toNat + r.toNat ∧ r < b) ∧ (b = 0 → q = 0xffffffff ∧ r = a)

end Manual

/-- Executing any encoding of DIVU whose source registers hold `a` and `b` writes `q`, and any of
    REMU writes `r`; neither divides by zero on the way. -/
def Divides (a b q r : U32) : Prop :=
  ∀ (junk : Junk) (s : RiscvState) (m : Memory) (w : U32),
    Manual.operand s (Manual.regNo w 15) = a → Manual.operand s (Manual.regNo w 20) = b →
    (newInstruction w = .divu → Computes junk .divu s m w q) ∧
    (newInstruction w = .remu → Computes junk .remu s m w r)

/-- Some quotient and remainder written for `a` and `b` obey the manual. -/
def UnsignedDivision (a b : U32) : Prop := ∃ q r, Divides a b q r ∧ Manual.Euclidean a b q r

/-! ### What the two instructions write -/

/-- The value `DIVU::Step` writes. -/
def divuValue (a b : U32) : U32 := if b = 0 then 0xffffffff else a / b

/-- The value `REMU::Step` writes when its division is defined. -/
def remuValue (a b : U32) : U32 :=
  ((a.setWidth 64 / b.setWidth 64 : U64) * b.setWidth 64 - b.setWidth 64).setWidth 32

namespace Step

variable {i : RiscvInstruction}

theorem run_remu (h₁ : i.rs1.toNat < 32) (h₂ : i.rs2.toNat < 32) (hd : i.rd.toNat < 32)
    (hb : i.rs2Val ≠ 0) : (step .remu).run i = .ok () (i.putRd (remuValue i.rs1Val i.rs2Val)) := by
  simp only [step, EStateM.run_bind, run_rs1 h₁, run_rs2 h₂, if_neg hb,
    run_setRd hd, remuValue]

theorem run_remu_zero (h₁ : i.rs1.toNat < 32) (h₂ : i.rs2.toNat < 32) (hb : i.rs2Val = 0) :
    (step .remu).run i = .error .undefined i := by
  simp only [step, EStateM.run_bind, run_rs1 h₁, run_rs2 h₂, if_pos hb]
  rfl

end Step

section Encodings

open RiscvInstruction (new)

variable {junk : Junk} {s : RiscvState} {m : Memory} {w : U32}

theorem computes_divu : Computes junk .divu s m w
    (divuValue (Manual.operand s (Manual.regNo w 15)) (Manual.operand s (Manual.regNo w 20))) :=
  computes_alu rfl rfl

/-- The decoded fields of a REMU. -/
theorem decode_remu : (new junk .remu s m w).decode = { new junk .remu s m w with
    rs2 := field w 20 0x1f, rs1 := field w 15 0x1f, rd := field w 7 0x1f } := rfl

theorem computes_remu (hb : Manual.operand s (Manual.regNo w 20) ≠ 0) : Computes junk .remu s m w
    (remuValue (Manual.operand s (Manual.regNo w 15)) (Manual.operand s (Manual.regNo w 20))) := by
  refine computes_of_putRd (instrSize_of_format (Or.inl rfl)) (by rw [decode_remu]) ?_
  have hrs2 : (new junk .remu s m w).decode.rs2Val ≠ 0 := by rw [← regVal_field] at hb; exact hb
  rw [Step.run_remu (field_toNat_lt w 15) (field_toNat_lt w 20) (field_toNat_lt w 7) hrs2,
    ← regVal_field, ← regVal_field]
  rfl

/-- By zero, the division in `REMU::Step` is evaluated and the program is undefined from there. -/
theorem remu_zero_undefined (hb : Manual.operand s (Manual.regNo w 20) = 0) :
    Step.execute.run (new junk .remu s m w) = .error .undefined (new junk .remu s m w).decode := by
  rw [← regVal_field] at hb
  exact Step.execute_of_fault
    (Step.run_remu_zero (field_toNat_lt w 15) (field_toNat_lt w 20) hb) (by rintro e ⟨⟩)

/-- What an instruction computes into a register other than x0 is unique. -/
theorem Computes.unique {c : Iclass} {v v' : U32} (h : Computes junk c s m w v)
    (h' : Computes junk c s m w v') (hrd : Manual.regNo w 7 ≠ 0) : v = v' := by
  obtain ⟨i, hi, hs, -, -⟩ := h
  obtain ⟨i', hi', hs', -, -⟩ := h'
  have hii : i = i' := by rw [hi] at hi'; injection hi'
  have hx := congrArg (fun t : RiscvState => t.x (Manual.regNo w 7)) ((hii ▸ hs).symm.trans hs')
  simp only [hrd, ne_eq, not_false_eq_true, and_self, if_true] at hx
  have h32 := congrArg (BitVec.setWidth 32) hx
  simpa using h32

end Encodings

/-! ### What is written for two operands -/

/-- A state whose x1 and x2 hold `a` and `b`. -/
def operandState (a b : U32) : RiscvState :=
  { x := fun r => if r = 1 then a.setWidth 64 else if r = 2 then b.setWidth 64 else 0 }

/-- `divu x3,x1,x2` and `remu x3,x1,x2`. -/
def divuWord : U32 := 0x0220d1b3
def remuWord : U32 := 0x0220f1b3

theorem operandState_rs1 (a b : U32) : Manual.operand (operandState a b) 1 = a := by
  simp [Manual.operand, operandState]

theorem operandState_rs2 (a b : U32) : Manual.operand (operandState a b) 2 = b := by
  simp [Manual.operand, operandState]

/-- Division is defined for exactly the divisors other than zero, and then writes these values. -/
theorem divides_iff {a b q r : U32} :
    Divides a b q r ↔ b ≠ 0 ∧ q = divuValue a b ∧ r = remuValue a b := by
  constructor
  · intro h
    let m : Memory := { physMem := { oracle := { rand := fun _ => 0, heap := fun _ => 0 } } }
    have hq := (h {} (operandState a b) m divuWord (operandState_rs1 a b)
      (operandState_rs2 a b)).1 (by decide)
    have hr := (h {} (operandState a b) m remuWord (operandState_rs1 a b)
      (operandState_rs2 a b)).2 (by decide)
    have hb : b ≠ 0 := by
      rintro rfl
      obtain ⟨i, hi, -⟩ := hr
      rw [remu_zero_undefined (operandState_rs2 a 0)] at hi
      cases hi
    have hdivu : Computes {} .divu (operandState a b) m divuWord _ := computes_divu
    have hremu : Computes {} .remu (operandState a b) m remuWord _ :=
      computes_remu ((operandState_rs2 a b).symm ▸ hb)
    refine ⟨hb, ?_, ?_⟩
    · rw [hq.unique hdivu (by decide)]
      exact congrArg₂ divuValue (operandState_rs1 a b) (operandState_rs2 a b)
    · rw [hr.unique hremu (by decide)]
      exact congrArg₂ remuValue (operandState_rs1 a b) (operandState_rs2 a b)
  · rintro ⟨hb, rfl, rfl⟩ junk s m w rfl rfl
    exact ⟨fun _ => computes_divu, fun _ => computes_remu hb⟩

/-! ### Against the manual -/

/-- DIVU alone is right on every pair. -/
theorem divuValue_toNat {a b : U32} (hb : b ≠ 0) : (divuValue a b).toNat = a.toNat / b.toNat := by
  rw [divuValue, if_neg hb, BitVec.toNat_udiv]

/-- What REMU writes, as a number. -/
theorem remuValue_toNat {a b : U32} (hb : b ≠ 0) : (remuValue a b).toNat =
    if a.toNat < b.toNat then 2 ^ 32 - b.toNat else a.toNat / b.toNat * b.toNat - b.toNat := by
  have ha := a.isLt
  have hblt := b.isLt
  have hpos : 0 < b.toNat := Nat.pos_of_ne_zero fun h => hb (BitVec.eq_of_toNat_eq h)
  have hle : a.toNat / b.toNat * b.toNat ≤ a.toNat := Nat.div_mul_le_self _ _
  have hq : (a.setWidth 64 / b.setWidth 64 : U64).toNat = a.toNat / b.toNat := by
    rw [BitVec.toNat_udiv, BitVec.toNat_setWidth_of_le (by omega),
      BitVec.toNat_setWidth_of_le (by omega)]
  have hb64 : (b.setWidth 64 : U64).toNat = b.toNat := BitVec.toNat_setWidth_of_le (by omega)
  have hprod : ((a.setWidth 64 / b.setWidth 64 : U64) * b.setWidth 64).toNat
      = a.toNat / b.toNat * b.toNat := by
    rw [BitVec.toNat_mul, hq, hb64, Nat.mod_eq_of_lt (by omega)]
  rw [remuValue, BitVec.toNat_setWidth, BitVec.toNat_sub, hprod, hb64]
  split
  · next hlt =>
    rw [Nat.div_eq_of_lt hlt]
    omega
  · next hge =>
    have hone : 1 ≤ a.toNat / b.toNat := (Nat.one_le_div_iff hpos).mpr (by omega)
    have hmul : b.toNat ≤ a.toNat / b.toNat * b.toNat := Nat.le_mul_of_pos_left _ hone
    omega

/-- The only remainder that goes with the quotient DIVU writes. -/
theorem euclidean_iff {a b r : U32} (hb : b ≠ 0) :
    Manual.Euclidean a b (divuValue a b) r ↔ r.toNat = a.toNat % b.toNat := by
  have hpos : 0 < b.toNat := Nat.pos_of_ne_zero fun h => hb (BitVec.eq_of_toNat_eq h)
  have hdiv := Nat.div_add_mod' a.toNat b.toNat
  have hmod := Nat.mod_lt a.toNat hpos
  simp only [Manual.Euclidean, divuValue_toNat hb, BitVec.lt_def]
  constructor
  · rintro ⟨h, -⟩
    have := (h hb).1
    omega
  · intro h
    refine ⟨fun _ => ?_, fun h0 => absurd h0 hb⟩
    omega

/-- REMU's formula is the remainder only for equal operands, and where the wrapped negative of the
    divisor happens to be a smaller dividend. -/
theorem remuValue_eq_mod_iff {a b : U32} (hb : b ≠ 0) :
    (remuValue a b).toNat = a.toNat % b.toNat ↔
      a = b ∨ (a < b ∧ a.toNat + b.toNat = 2 ^ 32) := by
  have hblt := b.isLt
  have hpos : 0 < b.toNat := Nat.pos_of_ne_zero fun h => hb (BitVec.eq_of_toNat_eq h)
  rw [remuValue_toNat hb, ← BitVec.toNat_inj, BitVec.lt_def]
  split
  · next hlt =>
    rw [Nat.mod_eq_of_lt hlt]
    omega
  · next hge =>
    have hmod := Nat.mod_lt a.toNat hpos
    have hdiv := Nat.div_add_mod' a.toNat b.toNat
    constructor
    · intro h
      -- two or more divisors in the dividend leave at least one in the product less a divisor
      have hq : a.toNat / b.toNat < 2 := by
        by_contra hq
        have hmul : 2 * b.toNat ≤ a.toNat / b.toNat * b.toNat :=
          Nat.mul_le_mul_right _ (Nat.le_of_not_lt hq)
        omega
      have hone : 1 ≤ a.toNat / b.toNat := (Nat.one_le_div_iff hpos).mpr (by omega)
      have hq1 : a.toNat / b.toNat = 1 := by omega
      rw [hq1] at h hdiv
      omega
    · rintro (h | ⟨hlt, -⟩)
      · rw [h, Nat.div_self hpos, Nat.mod_self]
        omega
      · omega

/-- For every pair of operands: DIVU and REMU divide as the manual says, without a division by zero,
    exactly if the divisor is not zero and the dividend equals it or is its smaller two's
    complement. -/
theorem unsigned_division_iff (a b : U32) :
    UnsignedDivision a b ↔ b ≠ 0 ∧ (a = b ∨ (a < b ∧ a.toNat + b.toNat = 2 ^ 32)) := by
  constructor
  · rintro ⟨q, r, hd, he⟩
    obtain ⟨hb, rfl, rfl⟩ := divides_iff.mp hd
    exact ⟨hb, (remuValue_eq_mod_iff hb).mp ((euclidean_iff hb).mp he)⟩
  · rintro ⟨hb, h⟩
    exact ⟨_, _, divides_iff.mpr ⟨hb, rfl, rfl⟩,
      (euclidean_iff hb).mpr ((remuValue_eq_mod_iff hb).mpr h)⟩

/-- `7 / 2`: the quotient is 3, the value written for the remainder is 4. -/
theorem seven_by_two_is_not_divided : ¬ ∀ a b : U32, UnsignedDivision a b := by
  intro h
  obtain ⟨q, r, hd, he⟩ := h 7 2
  obtain ⟨hb, rfl, rfl⟩ := divides_iff.mp hd
  have hr := (he.1 hb).2
  have h4 : remuValue 7 2 = 4 := by decide
  rw [h4] at hr
  exact absurd hr (by decide)

/-- The quotient by zero is all ones, so DIVU is not what fails there. -/
example (a : U32) : divuValue a 0 = 0xffffffff := rfl

end Dimebox
