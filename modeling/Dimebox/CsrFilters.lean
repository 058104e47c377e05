import Dimebox.CsrLocality

/-! Sums and differences behind the filters of `SetMISA` and `SetMSTATUS`.

    An immediate has five bits. `SetMISA` looks at bit 2 and at bits from 8 up, so what an addition
    does to it is decided by three bits and by whether bit 8 is reached; of MSTATUS the lowest five
    bits are enough. -/

namespace Dimebox.RiscvState

/-! ### MISA -/

/-- Bits 2..0 of what `SetMISA` stores: the C bit, set if it is held. -/
def misaLow (held : Bool) (x : BitVec 3) : BitVec 3 := (x &&& 4) ||| (if held then 4 else 0)

/-- The C bit is set and the PC is not a multiple of four. -/
def holdsC (pc misa : U64) : Bool := misa.getLsbD 2 && pc &&& 3 ≠ 0

theorem and_four_eq_iff (x : U64) : x &&& 4 = 4 ↔ x.getLsbD 2 := by
  have h4 : (4 : U64) = BitVec.twoPow 64 2 := rfl
  rw [h4, BitVec.and_twoPow]
  split
  · next h => simp [h]
  · next h => exact iff_of_false (by decide) h

theorem and_two_eq_zero_iff (x : U64) : x &&& 2 = 0 ↔ x.getLsbD 1 = false := by
  have h2 : (2 : U64) = BitVec.twoPow 64 1 := rfl
  rw [h2, BitVec.and_twoPow]
  split
  · next h => exact iff_of_false (by decide) (by simp [h])
  · next h => exact iff_of_true rfl (Bool.eq_false_iff.mpr h)

theorem legalMisa_eq (pc old x : U64) :
    legalMisa pc old x = (x &&& definedMisaValue) ||| (if holdsC pc old then 4 else 0) := by
  rw [legalMisa, holdsC]
  simp only [and_four_eq_iff, Bool.and_eq_true, decide_eq_true_eq]
  split
  · rfl
  · exact BitVec.or_zero.symm

theorem setWidth_legalMisa (pc old x : U64) :
    (legalMisa pc old x).setWidth 3 = misaLow (holdsC pc old) (x.setWidth 3) := by
  rw [legalMisa_eq, misaLow, BitVec.setWidth_or, BitVec.setWidth_and]
  congr 1
  cases holdsC pc old <;> rfl

/-- The other bits `SetMISA` looks at, from bit 8 up. -/
def misaHigh (x : U64) : U64 := (x >>> 8) &&& 0x401011

theorem ushiftRight_legalMisa (pc old x : U64) : legalMisa pc old x >>> 8 = misaHigh x := by
  have hheld : (if holdsC pc old then 4 else 0 : U64) >>> 8 = 0 := by
    cases holdsC pc old <;> rfl
  rw [legalMisa_eq, BitVec.ushiftRight_or_distrib, BitVec.ushiftRight_and_distrib, hheld]
  exact BitVec.or_zero

/-- Bits 7..3 are clear. -/
theorem legalMisa_mod (pc old x : U64) :
    (legalMisa pc old x).toNat % 2 ^ 8 = ((legalMisa pc old x).setWidth 3).toNat := by
  have hbits : ∀ a : BitVec 8, a &&& 4 = a → a.toNat = (a.setWidth 3).toNat := by decide
  have hlow : (legalMisa pc old x).setWidth 8 &&& 4 = (legalMisa pc old x).setWidth 8 := by
    have h := congrArg (BitVec.setWidth 8) (legalMisa_supported pc old x)
    rwa [BitVec.setWidth_and] at h
  have h := hbits _ hlow
  rwa [BitVec.toNat_setWidth, BitVec.setWidth_setWidth_of_le _ (by omega)] at h

/-- `SetMISA` looks at bit 2 and some of bits 63..8. -/
theorem legalMisa_eq_iff (pc old x y : U64) : legalMisa pc old x = legalMisa pc old y ↔
    misaLow (holdsC pc old) (x.setWidth 3) = misaLow (holdsC pc old) (y.setWidth 3) ∧
      misaHigh x = misaHigh y := by
  rw [← setWidth_legalMisa, ← setWidth_legalMisa, ← ushiftRight_legalMisa pc old x,
    ← ushiftRight_legalMisa pc old y]
  constructor
  · intro h
    rw [h]
    exact ⟨rfl, rfl⟩
  · rintro ⟨hlow, hhigh⟩
    have hx := legalMisa_mod pc old x
    have hy := legalMisa_mod pc old y
    have hhigh' := congrArg BitVec.toNat hhigh
    rw [hlow] at hx
    rw [BitVec.toNat_ushiftRight, BitVec.toNat_ushiftRight, Nat.shiftRight_eq_div_pow,
      Nat.shiftRight_eq_div_pow] at hhigh'
    apply BitVec.eq_of_toNat_eq
    omega

/-- One of the bits above is bit 8. -/
theorem bit8_of_misaHigh {x y : U64} (h : misaHigh x = misaHigh y) :
    x.toNat / 2 ^ 8 % 2 = y.toNat / 2 ^ 8 % 2 := by
  have hodd : ∀ w : U64, (misaHigh w).toNat % 2 = w.toNat / 2 ^ 8 % 2 := by
    intro w
    have hand := Nat.and_mod_two_pow (a := w.toNat / 2 ^ 8) (b := 0x401011) (n := 1)
    rw [misaHigh, BitVec.toNat_and, BitVec.toNat_ushiftRight, Nat.shiftRight_eq_div_pow]
    have hodd : 0x401011 % 2 ^ 1 = 1 := rfl
    rw [hodd, Nat.and_one_is_mod, Nat.pow_one, Nat.mod_mod] at hand
    exact hand
  rw [← hodd x, ← hodd y, h]

/-- Bits 2..0 of a sum or a difference. -/
theorem low_set : ∀ (unaligned : Bool) (a z : BitVec 3),
    let held := fun x : BitVec 3 => x.getLsbD 2 && unaligned
    let b := misaLow (held a) (a + z)
    b = misaLow (held a) (a ||| z) ∧ misaLow (held b) (b + z) = b ↔
      (z.getLsbD 2 = false ∨ unaligned) ∧ (a.toNat % 4 + z.toNat % 4 < 4 ∨ held a) := by
  decide

theorem low_clear : ∀ (unaligned : Bool) (a z : BitVec 3), z ≠ 0 → z.toNat ≤ 4 →
    let held := fun x : BitVec 3 => x.getLsbD 2 && unaligned
    let b := misaLow (held a) (a - z)
    b = 4 → (b = misaLow (held a) (a &&& ~~~z) ∧ misaLow (held b) (b - z) = b ↔ held a) := by
  decide

theorem holdsC_eq {pc misa : U64} {unaligned : Bool} (h : unaligned = decide (pc &&& 3 ≠ 0)) :
    holdsC pc misa = ((misa.setWidth 3).getLsbD 2 && unaligned) := by
  rw [holdsC, h, BitVec.getLsbD_setWidth]
  rfl

/-! ### Low bits of sums and differences -/

section Low

variable {n : Nat} (x : U64) (z : BitVec 5)

theorem setWidth_imm (hn : n ≤ 64) : (z.setWidth 64 : U64).setWidth n = z.setWidth n :=
  BitVec.setWidth_setWidth_of_le _ hn

theorem setWidth_add_imm (hn : n ≤ 64) :
    (x + z.setWidth 64).setWidth n = x.setWidth n + z.setWidth n := by
  rw [BitVec.setWidth_add _ _ hn, setWidth_imm z hn]

theorem setWidth_or_imm (hn : n ≤ 64) :
    (x ||| z.setWidth 64).setWidth n = x.setWidth n ||| z.setWidth n := by
  rw [BitVec.setWidth_or, setWidth_imm z hn]

theorem setWidth_sub_imm (hn : n ≤ 64) :
    (x - z.setWidth 64).setWidth n = x.setWidth n - z.setWidth n := by
  rw [BitVec.sub_eq_add_neg, BitVec.setWidth_add _ _ hn, BitVec.setWidth_neg_of_le hn,
    setWidth_imm z hn, ← BitVec.sub_eq_add_neg]

end Low

section Misa

variable {pc pc' v : U64} {z : BitVec 5}

theorem imm_toNat (z : BitVec 5) : (z.setWidth 64 : U64).toNat = z.toNat := by
  have := z.isLt
  rw [BitVec.toNat_setWidth]
  omega

theorem misaHigh_or_imm (v : U64) (z : BitVec 5) : misaHigh (v ||| z.setWidth 64) = misaHigh v := by
  have hz : (z.setWidth 64 : U64) >>> 8 = 0 := by
    apply BitVec.eq_of_toNat_eq
    have := z.isLt
    rw [BitVec.toNat_ushiftRight, imm_toNat, Nat.shiftRight_eq_div_pow]
    exact Nat.div_eq_of_lt (by omega)
  rw [misaHigh, BitVec.ushiftRight_or_distrib, hz, misaHigh]
  simp

theorem misaHigh_add_imm (h : v.toNat % 256 + z.toNat < 256) :
    misaHigh (v + z.setWidth 64) = misaHigh v := by
  have hshift : (v + z.setWidth 64) >>> 8 = v >>> 8 := by
    apply BitVec.eq_of_toNat_eq
    have := v.isLt
    simp only [BitVec.toNat_ushiftRight, BitVec.toNat_add, imm_toNat, Nat.shiftRight_eq_div_pow]
    omega
  rw [misaHigh, hshift, misaHigh]

theorem misaHigh_add_imm_iff :
    misaHigh (v + z.setWidth 64) = misaHigh v ↔ v.toNat % 256 + z.toNat < 256 := by
  constructor
  · intro h
    have hbit := bit8_of_misaHigh h
    have := v.isLt
    have := z.isLt
    rw [BitVec.toNat_add, imm_toNat] at hbit
    omega
  · exact misaHigh_add_imm

/-- Writing `x` over `w`, a value `SetMISA` has stored, leaves `w`. -/
theorem legalMisa_eq_self_iff {w : U64} (hw : w &&& definedMisaValue = w) (x : U64) :
    legalMisa pc' w x = w ↔
      misaLow (holdsC pc' w) (x.setWidth 3) = w.setWidth 3 ∧ misaHigh x = misaHigh w := by
  have hback := legalMisa_of_supported hw pc'
  have hlow := setWidth_legalMisa pc' w w
  rw [hback] at hlow
  rw [hlow, ← legalMisa_eq_iff, hback]

/-- The sum is stored like the bitwise or, and adding again changes nothing: no carry reaches bit 8,
    and the C bit is held where it would change. -/
theorem misa_set_iff (hpc : pc' &&& 3 = 0 ↔ pc &&& 3 = 0) :
    (legalMisa pc v (v + z.setWidth 64) = legalMisa pc v (v ||| z.setWidth 64) ∧
      legalMisa pc' (legalMisa pc v (v + z.setWidth 64))
        (legalMisa pc v (v + z.setWidth 64) + z.setWidth 64)
          = legalMisa pc v (v + z.setWidth 64)) ↔
    v.toNat % 256 + z.toNat < 256 ∧ (z.getLsbD 2 = false ∨ pc &&& 3 ≠ 0) ∧
      (v.toNat % 4 + z.toNat % 4 < 4 ∨ holdsC pc v) := by
  obtain ⟨w, hw⟩ : ∃ w, w = legalMisa pc v (v + z.setWidth 64) := ⟨_, rfl⟩
  have hwlow := setWidth_legalMisa pc v (v + z.setWidth 64)
  have hwmod := legalMisa_mod pc v (v + z.setWidth 64)
  have hwsup := legalMisa_supported pc v (v + z.setWidth 64)
  rw [legalMisa_eq_iff, misaHigh_or_imm, misaHigh_add_imm_iff]
  rw [← hw] at hwlow hwmod hwsup ⊢
  have hwhigh : misaHigh (w + z.setWidth 64) = misaHigh w := by
    have := z.isLt
    have := (w.setWidth 3).isLt
    exact misaHigh_add_imm (by omega)
  -- the C bit, as a computation on three bits
  obtain ⟨unaligned, hu⟩ : ∃ u, u = decide (pc &&& 3 ≠ 0) := ⟨_, rfl⟩
  have hu' : unaligned = decide (pc' &&& 3 ≠ 0) := by
    rw [hu]
    exact decide_eq_decide.mpr (not_congr hpc.symm)
  have hlow := low_set unaligned (v.setWidth 3) (z.setWidth 3)
  have hadd : ∀ x : U64, (x + z.setWidth 64).setWidth 3 = x.setWidth 3 + z.setWidth 3 :=
    fun x => setWidth_add_imm x z (by omega)
  have hor : (v ||| z.setWidth 64).setWidth 3 = v.setWidth 3 ||| z.setWidth 3 :=
    setWidth_or_imm v z (by omega)
  have hz2 : (z.setWidth 3).getLsbD 2 = z.getLsbD 2 := by simp
  have hvmod : (v.setWidth 3).toNat % 4 = v.toNat % 4 := by rw [BitVec.toNat_setWidth]; omega
  have hzmod : (z.setWidth 3).toNat % 4 = z.toNat % 4 := by rw [BitVec.toNat_setWidth]; omega
  have hu3 : unaligned = true ↔ pc &&& 3 ≠ 0 := by rw [hu, decide_eq_true_eq]
  rw [legalMisa_eq_self_iff hwsup, and_iff_left hwhigh, holdsC_eq hu']
  simp only [hadd, hwlow, hor, holdsC_eq hu]
  simp only [hz2, hvmod, hzmod, hu3] at hlow
  rw [and_right_comm, hlow, and_comm]

theorem misaHigh_sub_imm_iff :
    misaHigh (v - z.setWidth 64) = misaHigh v ↔ z.toNat ≤ v.toNat % 256 := by
  have := v.isLt
  have := z.isLt
  constructor
  · intro h
    have hbit := bit8_of_misaHigh h
    rw [BitVec.toNat_sub, imm_toNat] at hbit
    omega
  · intro h
    have hshift : (v - z.setWidth 64) >>> 8 = v >>> 8 := by
      apply BitVec.eq_of_toNat_eq
      simp only [BitVec.toNat_ushiftRight, BitVec.toNat_sub, imm_toNat, Nat.shiftRight_eq_div_pow]
      omega
    rw [misaHigh, hshift, misaHigh]

/-- The complement of an immediate, as a 32-bit operand. -/
theorem misaHigh_and_not_imm (v : U64) (z : BitVec 5) :
    misaHigh (v &&& (~~~(z.setWidth 32 : U32)).setWidth 64) = misaHigh v := by
  have hmask : ∀ z : BitVec 5,
      ((~~~(z.setWidth 32 : U32)).setWidth 64 >>> 8) &&& (0x401011 : U64) = 0x401011 := by decide
  rw [misaHigh, BitVec.ushiftRight_and_distrib, BitVec.and_assoc, hmask, misaHigh]

/-- The difference is stored like the value with the bits cleared, and subtracting again changes
    nothing: only the C bit is touched, and it is held. -/
theorem misa_clear_iff (hz : z ≠ 0) (hpc : pc' &&& 3 = 0 ↔ pc &&& 3 = 0) :
    (legalMisa pc v (v - z.setWidth 64) =
        legalMisa pc v (v &&& (~~~(z.setWidth 32 : U32)).setWidth 64) ∧
      legalMisa pc' (legalMisa pc v (v - z.setWidth 64))
        (legalMisa pc v (v - z.setWidth 64) - z.setWidth 64)
          = legalMisa pc v (v - z.setWidth 64)) ↔
    z.toNat ≤ 4 ∧ holdsC pc v := by
  obtain ⟨w, hw⟩ : ∃ w, w = legalMisa pc v (v - z.setWidth 64) := ⟨_, rfl⟩
  have hwlow := setWidth_legalMisa pc v (v - z.setWidth 64)
  have hwmod := legalMisa_mod pc v (v - z.setWidth 64)
  have hwsup := legalMisa_supported pc v (v - z.setWidth 64)
  obtain ⟨unaligned, hu⟩ : ∃ u, u = decide (pc &&& 3 ≠ 0) := ⟨_, rfl⟩
  have hu' : unaligned = decide (pc' &&& 3 ≠ 0) := by
    rw [hu]
    exact decide_eq_decide.mpr (not_congr hpc.symm)
  have hsub : ∀ x : U64, (x - z.setWidth 64).setWidth 3 = x.setWidth 3 - z.setWidth 3 :=
    fun x => setWidth_sub_imm x z (by omega)
  have hclear : (v &&& (~~~(z.setWidth 32 : U32)).setWidth 64).setWidth 3
      = v.setWidth 3 &&& ~~~(z.setWidth 3) := by
    have hmask : ∀ z : BitVec 5,
        ((~~~(z.setWidth 32 : U32)).setWidth 64 : U64).setWidth 3 = ~~~(z.setWidth 3) := by decide
    rw [BitVec.setWidth_and, hmask]
  rw [legalMisa_eq_iff, misaHigh_and_not_imm, misaHigh_sub_imm_iff]
  rw [← hw] at hwlow hwmod hwsup ⊢
  rw [legalMisa_eq_self_iff hwsup, misaHigh_sub_imm_iff, holdsC_eq hu']
  simp only [hsub, hwlow, hclear, holdsC_eq hu]
  rw [hwlow, hsub, holdsC_eq hu] at hwmod
  obtain ⟨b, hb⟩ : ∃ b, b = misaLow ((v.setWidth 3).getLsbD 2 && unaligned)
    (v.setWidth 3 - z.setWidth 3) := ⟨_, rfl⟩
  have hlow := low_clear unaligned (v.setWidth 3) (z.setWidth 3)
  simp only at hlow
  rw [← hb] at hlow hwmod ⊢
  have hz0 : z.toNat ≠ 0 := fun h => hz (BitVec.eq_of_toNat_eq h)
  have hz3 : z.toNat ≤ 4 → (z.setWidth 3).toNat = z.toNat := by
    intro h
    rw [BitVec.toNat_setWidth]
    omega
  have hne : z.toNat ≤ 4 → z.setWidth 3 ≠ 0 := by
    intro h heq
    have := hz3 h
    rw [heq] at this
    exact hz0 this.symm
  constructor
  · rintro ⟨⟨hsame, -⟩, hagain, hle⟩
    have hb4 : b = 0 ∨ b = 4 := by
      have hcases : ∀ (held : Bool) (x : BitVec 3), misaLow held x = 0 ∨ misaLow held x = 4 := by
        decide
      rw [hb]
      exact hcases _ _
    rcases hb4 with hb0 | hb4
    · have h0 : (0 : BitVec 3).toNat = 0 := rfl
      rw [hb0, h0] at hwmod
      omega
    · have h4 : (4 : BitVec 3).toNat = 4 := rfl
      rw [hb4, h4] at hwmod
      have hz4 : z.toNat ≤ 4 := by omega
      exact ⟨hz4, (hlow (hne hz4) (by rw [hz3 hz4]; exact hz4) hb4).mp ⟨hsame, hagain⟩⟩
  · rintro ⟨hz4, hheld⟩
    have hb4 : b = 4 := by
      have hall : ∀ x : BitVec 3, misaLow true x = 4 := by decide
      rw [hb, hheld]
      exact hall _
    have h4 : (4 : BitVec 3).toNat = 4 := rfl
    have hbig : ∀ a : BitVec 3, a.getLsbD 2 → 4 ≤ a.toNat := by decide
    have hv := hbig _ (Bool.and_eq_true_iff.mp hheld).1
    rw [BitVec.toNat_setWidth] at hv
    rw [hb4, h4] at hwmod
    obtain ⟨hsame, hagain⟩ := (hlow (hne hz4) (by rw [hz3 hz4]; exact hz4) hb4).mpr hheld
    exact ⟨⟨hsame, by omega⟩, hagain, by omega⟩

end Misa

/-! ### MSTATUS -/

/-- The lowest bits of what `MSTATUS` shows after `SetMSTATUS`. -/
theorem setWidth_mstatus {n : Nat} (hn : n ≤ 8) (old x : U64) :
    (shown .mstatus (legalMstatus old x)).setWidth n
      = x.setWidth n &&& (0x9d : BitVec 8).setWidth n := by
  have h8 : (shown .mstatus (legalMstatus old x)).setWidth 8 = x.setWidth 8 &&& 0x9d := by
    have hmpp : ∀ y : U64, (y &&& 0x1800).setWidth 8 = 0#8 := by
      intro y
      rw [BitVec.setWidth_and]
      exact BitVec.and_zero
    rw [shown, legalMstatus]
    split
    · rw [BitVec.setWidth_and, BitVec.setWidth_or, BitVec.setWidth_and, hmpp, BitVec.or_zero,
        BitVec.setWidth_and, BitVec.and_assoc, BitVec.and_assoc]
      rfl
    · rw [BitVec.setWidth_and, BitVec.setWidth_and, BitVec.and_assoc]
      rfl
  have h := congrArg (BitVec.setWidth n) h8
  rwa [BitVec.setWidth_setWidth_of_le _ hn, BitVec.setWidth_and,
    BitVec.setWidth_setWidth_of_le _ hn] at h

/-- There is no bit 1 to be added. -/
theorem legalMstatus_add_two (old : U64) {x : U64} (h : x.getLsbD 1 = false) :
    legalMstatus old (x + 2) = legalMstatus old x := by
  have hmask : (2 : U64) &&& 0x7fa21e9d = 0 := by decide
  have hrval : (x + 2) &&& 0x7fa21e9d = x &&& 0x7fa21e9d := by
    rw [BitVec.add_eq_or_of_and_eq_zero _ _ ((and_two_eq_zero_iff x).mpr h),
      BitVec.and_or_distrib_right, hmask]
    exact BitVec.or_zero
  rw [legalMstatus, hrval, legalMstatus]

theorem mstatus_low_set : ∀ a z : BitVec 5, z ≠ 0 → (a + z) &&& 0x1d = (a ||| z) &&& 0x1d →
    (((a + z) &&& 0x1d) + z) &&& 0x1d = (a + z) &&& 0x1d → z = 2 ∧ a.getLsbD 1 = false := by
  decide +kernel

/-- In five bits only a difference of 30, which is a sum of 2, looks the same. -/
theorem mstatus_low_clear : ∀ c z : BitVec 5, (c - z) &&& 0x1d = c → z = 0 ∨ z = 30 := by
  decide +kernel

theorem mstatus_low_thirty : ∀ c : BitVec 8, (c - 30) &&& 0x9d ≠ c := by decide

section Mstatus

variable {old v : U64} {z : BitVec 5}

/-- Adding is setting bits, and adding again changes nothing, only for bit 1. -/
theorem mstatus_set_iff (hz : z ≠ 0) :
    (shown .mstatus (legalMstatus old (v + z.setWidth 64))
        = shown .mstatus (legalMstatus old (v ||| z.setWidth 64)) ∧
      shown .mstatus (legalMstatus (legalMstatus old (v + z.setWidth 64))
        (shown .mstatus (legalMstatus old (v + z.setWidth 64)) + z.setWidth 64))
          = shown .mstatus (legalMstatus old (v + z.setWidth 64))) ↔
    z = 2 ∧ v.getLsbD 1 = false := by
  constructor
  · rintro ⟨hsame, hagain⟩
    have hlow := congrArg (BitVec.setWidth 5) hsame
    have hlow' := congrArg (BitVec.setWidth 5) hagain
    rw [setWidth_mstatus (by omega), setWidth_mstatus (by omega), setWidth_add_imm _ _ (by omega),
      setWidth_or_imm _ _ (by omega), BitVec.setWidth_eq] at hlow
    rw [setWidth_mstatus (by omega), setWidth_add_imm _ _ (by omega), setWidth_mstatus (by omega),
      setWidth_add_imm _ _ (by omega), BitVec.setWidth_eq] at hlow'
    have hv := mstatus_low_set _ _ hz hlow hlow'
    rwa [BitVec.getLsbD_setWidth] at hv
  · rintro ⟨rfl, hv⟩
    have h2 : ((2 : BitVec 5).setWidth 64 : U64) = 2 := rfl
    have hbit : (shown .mstatus (legalMstatus old (v + 2))).getLsbD 1 = false := by
      have h := congrArg (·.getLsbD 1) (setWidth_mstatus (n := 8) (by omega) old (v + 2))
      simpa using h
    rw [h2, legalMstatus_add_two _ hbit, BitVec.add_eq_or_of_and_eq_zero _ _
      ((and_two_eq_zero_iff v).mpr hv)]
    exact ⟨rfl, shown_legalMstatus_shown (legalMstatus_masked _ _)⟩

/-- Subtracting again always changes something. -/
theorem mstatus_clear_ne (hz : z ≠ 0) :
    shown .mstatus (legalMstatus (legalMstatus old (v - z.setWidth 64))
      (shown .mstatus (legalMstatus old (v - z.setWidth 64)) - z.setWidth 64))
        ≠ shown .mstatus (legalMstatus old (v - z.setWidth 64)) := by
  generalize legalMstatus old (v - z.setWidth 64) = w
  intro h
  have hlow := congrArg (BitVec.setWidth 5) h
  have hlow' := congrArg (BitVec.setWidth 8) h
  rw [setWidth_mstatus (by omega), setWidth_sub_imm _ _ (by omega), BitVec.setWidth_eq] at hlow
  rw [setWidth_mstatus (by omega), setWidth_sub_imm _ _ (by omega)] at hlow'
  rcases mstatus_low_clear _ _ hlow with hz0 | hz30
  · exact hz hz0
  · rw [hz30] at hlow'
    exact mstatus_low_thirty _ hlow'

end Mstatus

end Dimebox.RiscvState
