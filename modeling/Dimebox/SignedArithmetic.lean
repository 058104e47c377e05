import Dimebox.AluManual
import Dimebox.Lib.CInt

/-! Multiplication and signed division.

    The high words are cut out of 64-bit products whose factors are extended each in its own way,
    and REM multiplies the quotient back in `int`. `expression` evaluates what a body gives to `RD`
    with every signed operation checked; it has a value for all operands, the one the manual
    prescribes, and that is what executing any encoding writes. -/

namespace Dimebox

namespace Manual

/-! ### What the manual says -/

/-- The two words of an exact product. -/
def lowWord (p : Int) : U32 := BitVec.ofInt 32 p
def highWord (p : Int) : U32 := BitVec.ofInt 32 (p / 2 ^ 32)

/-- The one pair whose quotient 32 bits do not hold. -/
def Overflows (a b : U32) : Prop := a = 0x80000000 ∧ b = 0xffffffff

/-- Quotient and remainder of `a` by `b`. -/
structure SignedDivision (a b q r : U32) : Prop where
  identity : a = q * b + r
  truncated : b ≠ 0 → ¬ Overflows a b →
    q.toInt = a.toInt.tdiv b.toInt ∧ r.toInt = a.toInt.tmod b.toInt
  bounded : b ≠ 0 → r.toInt.natAbs < b.toInt.natAbs
  signed : r ≠ 0 → (r.toInt < 0 ↔ a.toInt < 0)
  byZero : b = 0 → q = 0xffffffff ∧ r = a
  overflow : Overflows a b → q = 0x80000000 ∧ r = 0

end Manual

/-! ### The expressions -/

/-- What the body of `c` gives to `RD`, the signed operations checked. -/
def expression (c : Iclass) (a b : U32) : Option U32 :=
  match c with
  | .mul => some (a * b)
  | .mulhu => some (((a.setWidth 64 * b.setWidth 64 : U64) >>> 32).setWidth 32)
  | .mulh =>
    (CInt.mul (signExtend (a.setWidth 64) 32) (signExtend (b.setWidth 64) 32)).map fun p =>
      (p.sshiftRight 32).setWidth 32
  -- one factor is unsigned, so the product is
  | .mulhsu => some (((signExtend (a.setWidth 64) 32 * b.setWidth 64) >>> 32).setWidth 32)
  | .div =>
    if b = 0 then some 0xffffffff
    else if a = 0x80000000 ∧ b = 0xffffffff then some 0x80000000
    else CInt.div a b
  | .rem =>
    if b = 0 then some a
    else if a = 0x80000000 ∧ b = 0xffffffff then some 0
    else (CInt.div a b).bind fun rdq => (CInt.mul rdq b).bind fun p => CInt.sub a p
  | _ => none

/-- For these operands the body of `c` evaluates defined operations only, and executing any encoding
    of `c` writes `v`. -/
def Evaluates (c : Iclass) (a b v : U32) : Prop :=
  expression c a b = some v ∧
    ∀ (junk : Junk) (s : RiscvState) (m : Memory) (w : U32), newInstruction w = c →
      Manual.operand s (Manual.regNo w 15) = a → Manual.operand s (Manual.regNo w 20) = b →
      Computes junk c s m w v

/-- The expression is what the body computes. -/
theorem evaluates_of_alu {c : Iclass} (hc : c.format = .r) {f : U32 → U32 → U32}
    (hs : Step.step c = Step.alu f) {a b v : U32} (hf : f a b = v)
    (he : expression c a b = some (f a b)) : Evaluates c a b v := by
  subst hf
  refine ⟨he, ?_⟩
  rintro junk s m w - rfl rfl
  exact computes_alu hc hs

/-! ### Products -/

theorem signExtend_word (a : U32) : signExtend (a.setWidth 64) 32 = a.signExtend 64 := by
  have hlt : (a.setWidth 64 : U64).toNat < 2 ^ 32 := by
    rw [BitVec.toNat_setWidth_of_le (by omega)]
    exact a.isLt
  rw [signExtend_eq (by omega) (by omega) hlt]
  simp

/-- The upper half of 64 bits, whichever shift brings it down. -/
theorem sshiftRight_high (x : U64) :
    (x.sshiftRight 32).setWidth 32 = ((x >>> 32).setWidth 32 : U32) := by
  apply BitVec.eq_of_getLsbD_eq
  intro j hj
  have hlt : 32 + j < 64 := by omega
  have hle : ¬ 64 ≤ j := by omega
  simp [BitVec.getLsbD_sshiftRight, hj, hlt, hle]

theorem highWord_eq (p : Int) :
    ((BitVec.ofInt 64 p >>> 32).setWidth 32 : U32) = Manual.highWord p := by
  apply BitVec.eq_of_toNat_eq
  rw [BitVec.toNat_setWidth, BitVec.toNat_ushiftRight, BitVec.toNat_ofInt,
    Nat.shiftRight_eq_div_pow, Manual.highWord, BitVec.toNat_ofInt]
  omega

theorem setWidth_ofInt (a : U32) : a.setWidth 64 = BitVec.ofInt 64 (a.toNat : Int) := by
  rw [BitVec.ofInt_natCast, BitVec.ofNat_toNat]

theorem signExtend_ofInt (a : U32) : a.signExtend 64 = BitVec.ofInt 64 a.toInt := rfl

theorem lowWord_eq (a b : U32) : a * b = Manual.lowWord (a.toInt * b.toInt) := by
  rw [Manual.lowWord, BitVec.ofInt_mul, BitVec.ofInt_toInt, BitVec.ofInt_toInt]

theorem mulhu_value (a b : U32) : ((a.setWidth 64 * b.setWidth 64 : U64) >>> 32).setWidth 32
    = Manual.highWord ((a.toNat : Int) * b.toNat) := by
  rw [← highWord_eq, BitVec.ofInt_mul, setWidth_ofInt, setWidth_ofInt]

theorem mulhsu_value (a b : U32) :
    ((signExtend (a.setWidth 64) 32 * b.setWidth 64) >>> 32).setWidth 32
      = Manual.highWord (a.toInt * b.toNat) := by
  rw [← highWord_eq, BitVec.ofInt_mul, signExtend_word, setWidth_ofInt, signExtend_ofInt]

theorem mulh_value (a b : U32) :
    ((signExtend (a.setWidth 64) 32 * signExtend (b.setWidth 64) 32).sshiftRight 32).setWidth 32
      = Manual.highWord (a.toInt * b.toInt) := by
  rw [← highWord_eq, BitVec.ofInt_mul, sshiftRight_high, signExtend_word, signExtend_word,
    signExtend_ofInt, signExtend_ofInt]

/-- Two 32-bit factors leave room in 64 bits. -/
theorem fits_product (a b : U32) :
    CInt.Fits 64 ((signExtend (a.setWidth 64) 32).toInt * (signExtend (b.setWidth 64) 32).toInt) := by
  rw [signExtend_word, signExtend_word, BitVec.toInt_signExtend_of_le (by omega),
    BitVec.toInt_signExtend_of_le (by omega)]
  have hhigh : a.toInt * b.toInt ≤ 2 ^ 62 := BitVec.toInt_mul_toInt_le
  have hlow : -(2 ^ 62) ≤ a.toInt * b.toInt := BitVec.le_toInt_mul_toInt
  constructor <;> omega

/-! ### Quotient and remainder -/

/-- The values of the guarded expressions. -/
def divValue (a b : U32) : U32 :=
  if b = 0 then 0xffffffff
  else if a = 0x80000000 ∧ b = 0xffffffff then 0x80000000
  else a.sdiv b

def remValue (a b : U32) : U32 :=
  if b = 0 then a
  else if a = 0x80000000 ∧ b = 0xffffffff then 0
  else a - a.sdiv b * b

theorem ne_of_not_overflows {a b : U32} (h : ¬ Manual.Overflows a b) :
    a ≠ BitVec.intMin 32 ∨ b ≠ -1#32 := not_and_or.mp h

theorem expression_div (a b : U32) : expression .div a b = some (divValue a b) := by
  simp only [expression, divValue]
  by_cases hb : b = 0
  · rw [if_pos hb, if_pos hb]
  · rw [if_neg hb, if_neg hb]
    by_cases ho : a = 0x80000000 ∧ b = 0xffffffff
    · rw [if_pos ho, if_pos ho]
    · rw [if_neg ho, if_neg ho]
      exact CInt.div_eq hb (ne_of_not_overflows ho)

theorem expression_rem (a b : U32) : expression .rem a b = some (remValue a b) := by
  simp only [expression, remValue]
  by_cases hb : b = 0
  · rw [if_pos hb, if_pos hb]
  · rw [if_neg hb, if_neg hb]
    by_cases ho : a = 0x80000000 ∧ b = 0xffffffff
    · rw [if_pos ho, if_pos ho]
    · rw [if_neg ho, if_neg ho]
      exact CInt.rem_eq (by omega) hb (ne_of_not_overflows ho)

theorem remValue_zero (a : U32) : remValue a 0 = a := rfl

theorem divValue_overflow {a b : U32} (h : Manual.Overflows a b) : divValue a b = 0x80000000 := by
  obtain ⟨rfl, rfl⟩ := h
  rfl

theorem remValue_overflow {a b : U32} (h : Manual.Overflows a b) : remValue a b = 0 := by
  obtain ⟨rfl, rfl⟩ := h
  rfl

theorem divValue_defined {a b : U32} (hb : b ≠ 0) (h : ¬ Manual.Overflows a b) :
    divValue a b = a.sdiv b := by
  rw [divValue, if_neg hb]
  exact if_neg h

theorem remValue_defined {a b : U32} (hb : b ≠ 0) (h : ¬ Manual.Overflows a b) :
    remValue a b = a - a.sdiv b * b := by
  rw [remValue, if_neg hb]
  exact if_neg h

/-- Away from the two special cases both are truncated toward zero. -/
theorem toInt_divValue {a b : U32} (hb : b ≠ 0) (h : ¬ Manual.Overflows a b) :
    (divValue a b).toInt = a.toInt.tdiv b.toInt := by
  rw [divValue_defined hb h, BitVec.toInt_sdiv_of_ne_or_ne a b (ne_of_not_overflows h)]

theorem toInt_remValue {a b : U32} (hb : b ≠ 0) (h : ¬ Manual.Overflows a b) :
    (remValue a b).toInt = a.toInt.tmod b.toInt := by
  rw [remValue_defined hb h, CInt.toInt_rem (by omega) (ne_of_not_overflows h)]

/-- Dividend, quotient and remainder, the special cases included. -/
theorem division_identity (a b : U32) : a = divValue a b * b + remValue a b := by
  by_cases hb : b = 0
  · subst hb
    rw [remValue_zero, BitVec.ofNat_eq_ofNat, BitVec.mul_zero, BitVec.zero_add]
  · by_cases ho : Manual.Overflows a b
    · rw [divValue_overflow ho, remValue_overflow ho]
      obtain ⟨rfl, rfl⟩ := ho
      rfl
    · rw [divValue_defined hb ho, remValue_defined hb ho, BitVec.add_comm, BitVec.sub_add_cancel]

theorem remainder_bounded {a b : U32} (hb : b ≠ 0) :
    (remValue a b).toInt.natAbs < b.toInt.natAbs := by
  have hpos : 0 < b.toInt.natAbs := by
    refine Int.natAbs_pos.mpr fun h => hb ?_
    exact BitVec.eq_of_toInt_eq (h.trans BitVec.toInt_zero.symm)
  by_cases ho : Manual.Overflows a b
  · rw [remValue_overflow ho]
    exact hpos
  · rw [toInt_remValue hb ho, Int.natAbs_tmod]
    exact Nat.mod_lt _ hpos

theorem remainder_signed {a b : U32} (hr : remValue a b ≠ 0) :
    (remValue a b).toInt < 0 ↔ a.toInt < 0 := by
  by_cases hb : b = 0
  · rw [hb, remValue_zero]
  · by_cases ho : Manual.Overflows a b
    · exact absurd (remValue_overflow ho) hr
    · have hne : (remValue a b).toInt ≠ 0 :=
        fun h => hr (BitVec.eq_of_toInt_eq (h.trans BitVec.toInt_zero.symm))
      have hbetween := CInt.tmod_between a.toInt b.toInt
      rw [toInt_remValue hb ho] at hne ⊢
      rcases Int.le_total 0 a.toInt with h | h
      · have := hbetween.1 h
        omega
      · have := hbetween.2 h
        omega

theorem signedDivision_values (a b : U32) :
    Manual.SignedDivision a b (divValue a b) (remValue a b) where
  identity := division_identity a b
  truncated hb ho := ⟨toInt_divValue hb ho, toInt_remValue hb ho⟩
  bounded := remainder_bounded
  signed := remainder_signed
  byZero hb := by subst hb; exact ⟨rfl, rfl⟩
  overflow ho := ⟨divValue_overflow ho, remValue_overflow ho⟩

/-- For every pair of operands: MUL, MULH, MULHSU and MULHU write the words of the exact products,
    DIV and REM quotient and remainder, and no signed operation they evaluate overflows or divides
    by zero. -/
theorem multiplication_and_division_exact (a b : U32) :
    Evaluates .mul a b (Manual.lowWord (a.toInt * b.toInt)) ∧
    Evaluates .mulh a b (Manual.highWord (a.toInt * b.toInt)) ∧
    Evaluates .mulhsu a b (Manual.highWord (a.toInt * b.toNat)) ∧
    Evaluates .mulhu a b (Manual.highWord ((a.toNat : Int) * b.toNat)) ∧
    ∃ q r, Evaluates .div a b q ∧ Evaluates .rem a b r ∧ Manual.SignedDivision a b q r := by
  refine ⟨?_, ?_, ?_, ?_, divValue a b, remValue a b, ?_, ?_, signedDivision_values a b⟩
  · exact evaluates_of_alu rfl rfl (lowWord_eq a b) rfl
  · refine evaluates_of_alu rfl rfl (mulh_value a b) ?_
    rw [expression, CInt.mul_eq (fits_product a b)]
    rfl
  · exact evaluates_of_alu rfl rfl (mulhsu_value a b) rfl
  · exact evaluates_of_alu rfl rfl (mulhu_value a b) rfl
  · exact evaluates_of_alu rfl rfl rfl (expression_div a b)
  · exact evaluates_of_alu rfl rfl rfl (expression_rem a b)

/-- The two cases the manual fixes. -/
example : expression .rem 0x80000000 0xffffffff = some 0 ∧ expression .div 7 0 = some (-1) := by
  decide

end Dimebox
