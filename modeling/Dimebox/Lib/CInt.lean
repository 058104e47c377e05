import Mathlib.Algebra.Group.Int.Defs
import Mathlib.Algebra.Group.Nat.Defs
import Mathlib.Tactic.Common

/-! Signed integer arithmetic of C++.

    An operation on a signed type is undefined if the type does not hold its exact result, and so is
    a division by zero; here such an operation has no value. Where it has one, the value is that of
    two's complement arithmetic. -/

namespace CInt

variable {w : Nat}

/-- A signed type of `w` bits holds `z`. -/
def Fits (w : Nat) (z : Int) : Prop := -2 ^ (w - 1) ≤ z ∧ z < 2 ^ (w - 1)

instance (z : Int) : Decidable (Fits w z) := inferInstanceAs (Decidable (_ ∧ _))

/-- The exact result `z`, if the type holds it. -/
def exactly (w : Nat) (z : Int) : Option (BitVec w) :=
  if Fits w z then some (BitVec.ofInt w z) else none

def sub (a b : BitVec w) : Option (BitVec w) := exactly w (a.toInt - b.toInt)
def mul (a b : BitVec w) : Option (BitVec w) := exactly w (a.toInt * b.toInt)

def div (a b : BitVec w) : Option (BitVec w) :=
  if b = 0 then none else exactly w (a.toInt.tdiv b.toInt)

/-! ### When an operation is defined -/

theorem fits_toInt (a : BitVec w) : Fits w a.toInt := ⟨a.le_toInt, a.toInt_lt⟩

/-- Between zero and a value of the type. -/
theorem fits_between {a : BitVec w} {z : Int} (hpos : 0 ≤ a.toInt → 0 ≤ z ∧ z ≤ a.toInt)
    (hneg : a.toInt ≤ 0 → a.toInt ≤ z ∧ z ≤ 0) : Fits w z := by
  have hlow := a.le_toInt
  have hhigh := a.toInt_lt
  rcases Int.le_total 0 a.toInt with h | h
  · have := hpos h
    constructor <;> omega
  · have := hneg h
    constructor <;> omega

theorem exactly_eq {z : Int} {v : BitVec w} (hz : Fits w z) (hv : v.toInt = z.bmod (2 ^ w)) :
    exactly w z = some v := by
  rw [exactly, if_pos hz]
  congr 1
  apply BitVec.eq_of_toInt_eq
  rw [BitVec.toInt_ofInt, hv]

theorem sub_eq {a b : BitVec w} (h : Fits w (a.toInt - b.toInt)) : sub a b = some (a - b) :=
  exactly_eq h BitVec.toInt_sub

theorem mul_eq {a b : BitVec w} (h : Fits w (a.toInt * b.toInt)) : mul a b = some (a * b) :=
  exactly_eq h (BitVec.toInt_mul a b)

theorem div_eq {a b : BitVec w} (hb : b ≠ 0) (h : a ≠ BitVec.intMin w ∨ b ≠ -1#w) :
    div a b = some (a.sdiv b) := by
  rw [div, if_neg hb]
  refine exactly_eq ?_ (BitVec.toInt_sdiv a b)
  rw [← BitVec.toInt_sdiv_of_ne_or_ne a b h]
  exact fits_toInt _

/-- A product that the type holds is exact. -/
theorem toInt_mul {a b : BitVec w} (hw : 0 < w) (h : Fits w (a.toInt * b.toInt)) :
    (a * b).toInt = a.toInt * b.toInt := by
  rw [BitVec.toInt_mul, ← BitVec.toInt_ofInt, BitVec.toInt_ofInt_eq_self hw h.1 h.2]

/-! ### The remainder as the dividend less the quotient times the divisor -/

/-- The remainder lies between zero and the dividend. -/
theorem tmod_between (a b : Int) :
    (0 ≤ a → 0 ≤ a.tmod b ∧ a.tmod b ≤ a) ∧ (a ≤ 0 → a ≤ a.tmod b ∧ a.tmod b ≤ 0) := by
  have habs : (a.tmod b).natAbs ≤ a.natAbs := by
    rw [Int.natAbs_tmod]
    exact Nat.mod_le _ _
  constructor
  · intro ha
    have := Int.tmod_nonneg b ha
    omega
  · intro ha
    have hneg := Int.tmod_nonneg b (Int.neg_nonneg_of_nonpos ha)
    rw [Int.neg_tmod] at hneg
    omega

theorem rem_eq {a b : BitVec w} (hw : 0 < w) (hb : b ≠ 0) (h : a ≠ BitVec.intMin w ∨ b ≠ -1#w) :
    ((div a b).bind fun q => (mul q b).bind fun p => sub a p) = some (a - a.sdiv b * b) := by
  have hq : (a.sdiv b).toInt = a.toInt.tdiv b.toInt := BitVec.toInt_sdiv_of_ne_or_ne a b h
  have hrem := tmod_between a.toInt b.toInt
  have hsum := Int.tdiv_mul_add_tmod a.toInt b.toInt
  have hprod : Fits w ((a.sdiv b).toInt * b.toInt) := by
    rw [hq]
    apply fits_between (a := a)
    · intro ha
      have := hrem.1 ha
      omega
    · intro ha
      have := hrem.2 ha
      omega
  have hdiff : a.toInt - (a.sdiv b * b).toInt = a.toInt.tmod b.toInt := by
    rw [toInt_mul hw hprod, hq]
    omega
  rw [div_eq hb h, Option.bind_some, mul_eq hprod, Option.bind_some]
  exact sub_eq (hdiff ▸ fits_between hrem.1 hrem.2)

/-- So formed, the remainder is that of the division truncated toward zero. -/
theorem toInt_rem {a b : BitVec w} (hw : 0 < w) (h : a ≠ BitVec.intMin w ∨ b ≠ -1#w) :
    (a - a.sdiv b * b).toInt = a.toInt.tmod b.toInt := by
  have hq : (a.sdiv b).toInt = a.toInt.tdiv b.toInt := BitVec.toInt_sdiv_of_ne_or_ne a b h
  have hsum := Int.tdiv_mul_add_tmod a.toInt b.toInt
  have heq : a - a.sdiv b * b = BitVec.ofInt w (a.toInt.tmod b.toInt) := by
    apply BitVec.eq_of_toInt_eq
    rw [BitVec.toInt_sub, BitVec.toInt_mul, hq, BitVec.toInt_ofInt, Int.sub_bmod_bmod]
    congr 1
    omega
  have hrem := tmod_between a.toInt b.toInt
  have hfits : Fits w (a.toInt.tmod b.toInt) := fits_between hrem.1 hrem.2
  rw [heq, BitVec.toInt_ofInt_eq_self hw hfits.1 hfits.2]

end CInt
