import Dimebox.Probe

/-! Compressed instructions against their expansions.

    A halfword keeps its expansion if `Execute` and `Writeback` leave what they leave of the 32-bit
    instruction the manual gives for it, with a length of two bytes. The formats of the code take
    two bits of a three-bit register number and the bits of an offset in the order they stand in the
    halfword, the sums with SP are shifted as a whole, C_LUI extends the wrong sign bit and is made
    for C.BNEZ too, HINTs are refused, and the bodies of C_JAL, C_ANDI, C_SUB, C_XOR, C_OR and C_AND
    use a register number that their formats do not decode. What is left is the condition below. -/

namespace Dimebox

open Rvc

/-- `Execute` and `Writeback` do with `h` what they do with its expansion, two bytes long. -/
def KeepsExpansion (h : BitVec 16) : Prop :=
  ∀ w, expansion h = some w → ∀ (junk : Junk) (storage core : RiscvState) (m : Memory),
    newInstruction16 (RiscvState.copy storage core) (h.setWidth 32) ≠ .unknownInstruction →
    m.DefaultRange → runHalfword junk storage h core m = runSized 2 junk storage w core m

/-- The halfwords on which the bodies and the expansions coincide. -/
def ExpansionKept (h : BitVec 16) : Prop :=
  match rvcClass h with
  -- reserved, without an expansion
  | .cAddi4spn => bits h 5 8 = 0
  | .cAddi16sp => bits h 12 1 = 0 ∧ bits h 2 5 = 0
  -- not a HINT
  | .cAddi => ¬ (bits h 12 1 = 0 ∧ bits h 2 5 = 0)
  | .cLi => bits h 7 5 ≠ 0
  -- not C.BNEZ, and no sign or one that reaches bit 16
  | .cLui => bits h 13 3 = 3 ∧ bits h 12 1 = bits h 6 1
  -- registers below x12, and an offset that the order of its bits does not change
  | .cLw | .cSw =>
    bits h 9 1 = 0 ∧ bits h 4 1 = 0 ∧ bits h 5 1 = bits h 6 1 ∧ bits h 6 1 = bits h 10 1 ∧
      bits h 10 1 = bits h 11 1 ∧ bits h 11 1 = bits h 12 1
  | .cJ =>
    bits h 2 1 = 0 ∧ bits h 7 1 = 0 ∧ bits h 8 1 = 0 ∧ bits h 12 1 = 0 ∧
      bits h 6 1 = bits h 9 1 ∧ bits h 9 1 = bits h 10 1 ∧ bits h 10 1 = bits h 11 1
  | .cBeqz =>
    (bits h 2 1 = 0 ∧ bits h 5 1 = 0 ∧ bits h 6 1 = 0 ∧ bits h 10 1 = 0 ∧ bits h 11 1 = 0 ∧
      bits h 12 1 = 0) ∧ (bits h 9 1 = 0 ∨ bits h 4 1 = 0 ∧ bits h 3 1 = 1)
  -- the register they write is not decoded
  | .cJal | .cAndi | .cSub | .cXor | .cOr | .cAnd => False
  | _ => True

instance (h : BitVec 16) : Decidable (ExpansionKept h) := by
  unfold ExpansionKept
  split <;> infer_instance

/-! ### Expansions by class -/

theorem rvcClass_of_bnezRow {h : BitVec 16} (hrow : BnezRow h) : rvcClass h = .cLui := by
  have h0 : h ≠ 0 := by rintro rfl; cases hrow.1
  have h1 : h ≠ 1 := by rintro rfl; cases hrow.2
  simp only [rvcClass, if_neg h0, if_neg h1, hrow.1, hrow.2]

theorem table_of_class {h : BitVec 16} {c : Iclass} {i : Rvc} (hclass : rvcClass h = c)
    (hne : c ≠ .cLui) (hi : c.rvc = some i) : Rvc.table h = some i := by
  have hrow : ¬ BnezRow h := by
    intro hrow
    exact hne (hclass.symm.trans (rvcClass_of_bnezRow hrow))
  obtain ⟨i', hi', htab⟩ := rvcClass_tabled hrow (by rw [hclass]; rintro rfl; cases hi)
  rw [hclass, hi] at hi'
  rw [htab, hi']

theorem expansion_of_class {h : BitVec 16} {c : Iclass} {i : Rvc} (hclass : rvcClass h = c)
    (hne : c ≠ .cLui) (hi : c.rvc = some i) : expansion h = i.expand h := by
  rw [expansion, table_of_class hclass hne hi, Option.bind_some]

/-- A C_LUI that is one. -/
theorem rvcClass_lui {h : BitVec 16} (hclass : rvcClass h = .cLui) (hrow : ¬ BnezRow h) :
    Rvc.table h = some .lui ∧ bits h 13 3 = 3 ∧ bits h 7 5 ≠ 0 ∧ bits h 7 5 ≠ 2 := by
  obtain ⟨i, hi, htab⟩ := rvcClass_tabled hrow (by rw [hclass]; decide)
  rw [hclass] at hi
  cases hi
  refine ⟨htab, ?_⟩
  have h0 : h ≠ 0 := by rintro rfl; cases hclass
  have h1 : h ≠ 1 := by rintro rfl; cases hclass
  simp only [rvcClass, if_neg h0, if_neg h1] at hclass
  simp only [BnezRow] at hrow
  split at hclass
  case h_7 =>
    next hf =>
      split at hclass
      · cases hclass
      · split at hclass
        · cases hclass
        · exact ⟨hf, by assumption, by assumption⟩
  case h_8 =>
    split at hclass <;> cases hclass
  case h_11 hop hf => exact absurd ⟨hop, hf⟩ hrow
  all_goals cases hclass

theorem keeps_of_reserved {h : BitVec 16} (hexp : expansion h = none) : KeepsExpansion h := by
  intro w hw
  rw [hexp] at hw
  cases hw

theorem keeps_of_unknown {h : BitVec 16} (hclass : rvcClass h = .unknownInstruction) :
    KeepsExpansion h := by
  intro w hw junk storage core m hnew hm
  refine absurd ?_ hnew
  by_cases hen : (RiscvState.copy storage core).compressedExtensionEnabled
  · rw [newInstruction16_halfword hen, hclass]
  · rw [newInstruction16, if_pos (by simpa using hen)]

/-- A halfword as an instruction of class `c` and the word `w` leave the same. -/
def SameRuns (h : BitVec 16) (c : Iclass) (w : U32) : Prop :=
  ∀ (junk : Junk) (storage core : RiscvState) (m : Memory),
    (RiscvState.copy storage core).compressedExtensionEnabled → m.DefaultRange →
    runObject Step.step (halfObject junk (RiscvState.copy storage core) m h c) core
      = runObject (Step.stepSized 2) (wordObject junk (RiscvState.copy storage core) m w) core

theorem SameRuns.on_probe {h : BitVec 16} {c : Iclass} {w : U32} (hk : SameRuns h c w) (junk : Junk)
    (x : Fin 32 → U64) : runObject Step.step (halfObject junk (probed x) blank h c) (probe x)
      = runObject (Step.stepSized 2) (wordObject junk (probed x) blank w) (probe x) :=
  hk junk {} (probe x) blank (probed_enabled x) blank_range

/-- What is to be shown for a halfword of class `c`. -/
theorem keepsExpansion_iff_of_class {h : BitVec 16} {c : Iclass} {w : U32}
    (hclass : rvcClass h = c) (hc : c ≠ .unknownInstruction) (hexp : expansion h = some w) :
    KeepsExpansion h ↔ SameRuns h c w := by
  constructor
  · intro hk junk storage core m hen hm
    have hnew := newInstruction16_halfword hen h
    rw [hclass] at hnew
    have hrun := hk w hexp junk storage core m (by rw [hnew]; exact hc) hm
    rw [runHalfword, hnew] at hrun
    exact hrun
  · intro hk w' hw' junk storage core m hnew hm
    have hen : (RiscvState.copy storage core).compressedExtensionEnabled := by
      by_contra hoff
      refine hnew ?_
      rw [newInstruction16, if_pos (by simpa using hoff)]
    have hclass' := newInstruction16_halfword hen h
    rw [hclass] at hclass'
    rw [hexp] at hw'
    cases hw'
    rw [runHalfword, hclass']
    exact hk junk storage core m hen hm

/-! ### Class by class -/

section Classes

variable {h : BitVec 16}

theorem keeps_nop (hclass : rvcClass h = .cNop) : KeepsExpansion h := by
  have hexp : expansion h = some (iType 0 0 0 0x13 0) :=
    expansion_of_class hclass (by decide) rfl
  refine (keepsExpansion_iff_of_class hclass (by decide) hexp).mpr ?_
  intro junk storage core m hc hm
  rw [half_nop, word_addi]
  rfl

theorem keeps_addi (hclass : rvcClass h = .cAddi) :
    KeepsExpansion h ↔ ¬ (bits h 12 1 = 0 ∧ bits h 2 5 = 0) := by
  have hexp : expansion h = some (iType (reg5 h) (reg5 h) 0 0x13 ((imm6 h).signExtend 12)) :=
    expansion_of_class hclass (by decide) rfl
  rw [keepsExpansion_iff_of_class hclass (by decide) hexp]
  constructor
  · intro hk hz
    have heq := hk.on_probe {} (fun _ => 0)
    rw [half_addi, if_pos ((imm6_refused h).mpr hz), word_addi] at heq
    exact refused_ne_wrote _ _ _ _ _ heq
  · intro hnz junk storage core m hc hm
    rw [half_addi, if_neg (fun hz => hnz ((imm6_refused h).mp hz)), word_addi,
      signExtend_signExtend _ (by decide) (by decide)]

theorem keeps_li (hclass : rvcClass h = .cLi) : KeepsExpansion h ↔ bits h 7 5 ≠ 0 := by
  have hexp : expansion h = some (iType 0 (reg5 h) 0 0x13 ((imm6 h).signExtend 12)) :=
    expansion_of_class hclass (by decide) rfl
  rw [keepsExpansion_iff_of_class hclass (by decide) hexp]
  constructor
  · intro hk hz
    have heq := hk.on_probe {} (fun _ => 0)
    rw [half_li, if_pos ((reg5_eq_zero h).mpr hz), word_addi] at heq
    exact refused_ne_wrote _ _ _ _ _ heq
  · intro hnz junk storage core m hc hm
    rw [half_li, if_neg (fun hz => hnz ((reg5_eq_zero h).mp hz)), word_addi, operand_zero,
      signExtend_signExtend _ (by decide) (by decide)]

/-- The sign of C_LUI is bit 16, not bit 17. -/
theorem luiValue_iff : ∀ v : BitVec 6, luiValue v = (v.signExtend 20 ++ 0#12 : U32).setWidth 64
    ↔ v.toNat / 32 = v.toNat / 16 % 2 := by
  decide

theorem luiValue_ne_one : ∀ v : BitVec 6, luiValue v ≠ 1 := by decide

/-- C.BNEZ with all registers 1: a jump is expected, and C_LUI writes a register or is refused. -/
theorem not_keeps_bnez (hrow : BnezRow h) : ¬ KeepsExpansion h := by
  have hclass := rvcClass_of_bnezRow hrow
  have hexp : expansion h = some (bType (reg3 h 7) 0 1 0x63 ((bOffset h).signExtend 13)) := by
    have htab : Rvc.table h = some .bnez := by
      simp only [Rvc.table, hrow.1, Rvc.quadrant1, hrow.2]
    rw [expansion, htab]
    rfl
  rw [keepsExpansion_iff_of_class hclass (by decide) hexp]
  intro hk
  have heq := hk.on_probe {} (fun _ => 1)
  have hword := word_branch {} (probed fun _ => 1) (probe fun _ => 1) blank (reg3 h 7) 0
    (probed_enabled _) 1 (c := .bne) rfl rfl rfl ((bOffset h).signExtend 13)
    (signExtend_even (by decide) (by decide) (bOffset_even h))
  have hop : (probed fun _ => 1).operand (reg3 h 7) = 1 := by
    rw [operand_of_ne _ (reg3_ne_zero h 7), probed_x]
    rfl
  rw [hop, operand_zero, if_pos (by decide), signExtend_signExtend _ (by decide) (by decide)] at hword
  have hhalf := half_lui {} (probed fun _ => 1) (probe fun _ => 1) blank h
  have heq' := hhalf.symm.trans (heq.trans hword)
  by_cases hr : (reg5 h).setWidth 32 = (0 : U32) ∨ (reg5 h).setWidth 32 = (2 : U32)
  · rw [if_pos hr] at heq'
    have hpc := congrArg pcAfter heq'
    rw [pcAfter_refused, probed_mtvec,
      pcAfter_jumped_even _ _ _ _ _ (by decide) (by decide) (bOffset_even h)] at hpc
    have hlt := landing_lt (bOffset h) (by decide)
    rw [← Option.some.inj hpc] at hlt
    exact absurd hlt (by decide)
  · rw [if_neg hr] at heq'
    have hne : reg5 h ≠ 0 := by
      intro h0
      exact hr (.inl (by rw [h0]; rfl))
    have hx := congrArg regsAfter heq'
    rw [regsAfter_wrote_probed _ _ hne, regsAfter_jumped, RiscvState.setReg_zero, ite_self,
      probed_x] at hx
    have hval := congrFun (Option.some.inj hx) (place (reg5 h))
    rw [Function.update_self] at hval
    exact luiValue_ne_one _ hval

theorem keeps_lui (hclass : rvcClass h = .cLui) :
    KeepsExpansion h ↔ bits h 13 3 = 3 ∧ bits h 12 1 = bits h 6 1 := by
  by_cases hrow : BnezRow h
  · have hf := hrow.2
    exact ⟨fun hk => absurd hk (not_keeps_bnez hrow), fun hb => by omega⟩
  obtain ⟨htab, h3, hr0, hr2⟩ := rvcClass_lui hclass hrow
  have hne : reg5 h ≠ 0 := by
    intro h0
    exact hr0 (congrArg BitVec.toNat h0)
  have hr : ¬ ((reg5 h).setWidth 32 = (0 : U32) ∨ (reg5 h).setWidth 32 = (2 : U32)) := by
    rintro (h0 | h2)
    · exact hr0 ((reg5_eq_zero h).mp h0)
    · have h2' := congrArg BitVec.toNat h2
      rw [reg_toNat] at h2'
      exact hr2 h2'
  have hbits : (imm6 h).toNat / 32 = (imm6 h).toNat / 16 % 2 ↔ bits h 12 1 = bits h 6 1 := by
    have := bit_lt h 2
    have := bit_lt h 3
    have := bit_lt h 4
    have := bit_lt h 5
    have := bit_lt h 6
    have := bit_lt h 12
    have himm := toNat_imm6 h
    rw [bits_five] at himm
    simp only [Nat.reduceAdd] at himm
    have h32 : (imm6 h).toNat / 32 = bits h 12 1 := by omega
    have h16 : (imm6 h).toNat / 16 = 2 * bits h 12 1 + bits h 6 1 := by omega
    omega
  by_cases hz : imm6 h = 0
  · have hexp : expansion h = none := by
      rw [expansion, htab, Option.bind_some, Rvc.expand, if_pos hz]
    rw [← hbits, hz]
    exact ⟨fun _ => ⟨h3, by decide⟩, fun _ => keeps_of_reserved hexp⟩
  · have hexp : expansion h = some (uType (reg5 h) 0x37 ((imm6 h).signExtend 20)) := by
      rw [expansion, htab, Option.bind_some, Rvc.expand, if_neg hz]
    rw [keepsExpansion_iff_of_class hclass (by decide) hexp, ← hbits, ← luiValue_iff]
    constructor
    · intro hk
      have heq := hk.on_probe {} (fun _ => 0)
      have hx := congrArg regsAfter
        ((half_lui ..).symm.trans (heq.trans (word_lui ..)))
      rw [if_neg hr, regsAfter_wrote_probed _ _ hne, regsAfter_wrote_probed _ _ hne] at hx
      have hval := congrFun (Option.some.inj hx) (place (reg5 h))
      rw [Function.update_self, Function.update_self] at hval
      exact ⟨h3, hval⟩
    · rintro ⟨-, hval⟩ junk storage core m hc hm
      rw [half_lui, if_neg hr, word_lui, hval]

/-- The registers with `x2` set to 1. -/
def onlySp : Fin 32 → U64 := fun r => if r = 2 then 1 else 0

theorem operand_sp : (probed onlySp).operand 2 = 1 := by
  rw [operand_of_ne _ (by decide), probed_x]
  rfl

/-- An offset that is a multiple of four keeps the 1 of `x2`. -/
theorem sumValue_odd (imm : U64) (himm : imm.toNat % 2 = 0) : (sumValue 1 imm).toNat % 2 = 1 := by
  have h1 : ((1 : U32).setWidth 64 : U64).toNat = 1 := rfl
  rw [sumValue, BitVec.toNat_setWidth, BitVec.toNat_setWidth, BitVec.toNat_add, h1]
  omega

theorem shiftLeft_even {n : Nat} (v : BitVec n) (hn : 4 ≤ n) : (v <<< 4).toNat % 2 = 0 := by
  rw [BitVec.toNat_shiftLeft, Nat.shiftLeft_eq]
  have hdvd : (2 : Nat) ∣ 2 ^ n := dvd_pow_self 2 (by omega)
  rw [Nat.mod_mod_of_dvd _ hdvd]
  omega

theorem keeps_addi16sp (hclass : rvcClass h = .cAddi16sp) :
    KeepsExpansion h ↔ bits h 12 1 = 0 ∧ bits h 2 5 = 0 := by
  have htab := table_of_class hclass (by decide) rfl
  have hbits : addi16spImm h = 0 ↔ bits h 12 1 = 0 ∧ bits h 2 5 = 0 := by
    rw [← BitVec.toNat_inj, bits_five]
    simp only [addi16spImm, toNat_append_add, toNat_extract, BitVec.toNat_ofNat]
    simp only [bits_two, Nat.reduceAdd]
    have h0 : (0 : BitVec 10).toNat = 0 := rfl
    omega
  by_cases hz : addi16spImm h = 0
  · have hexp : expansion h = none := by
      rw [expansion, htab, Option.bind_some, Rvc.expand, if_pos hz]
    exact ⟨fun _ => hbits.mp hz, fun _ => keeps_of_reserved hexp⟩
  · have hexp : expansion h = some (iType 2 2 0 0x13 ((addi16spImm h).signExtend 12)) := by
      rw [expansion, htab, Option.bind_some, Rvc.expand, if_neg hz]
    refine ⟨fun hk => absurd hk ?_, fun hb => absurd (hbits.mpr hb) hz⟩
    rw [keepsExpansion_iff_of_class hclass (by decide) hexp]
    intro hk
    have heq := hk.on_probe {} onlySp
    have hx := congrArg regsAfter
      ((half_addi16sp ..).symm.trans (heq.trans (word_addi ..)))
    have hnz : ¬ (imm6 h).setWidth 32 = (0 : U32) := fun h0 => hz (hbits.mpr ((imm6_refused h).mp h0))
    have hsp : (2 : U32) = (2 : BitVec 5).setWidth 32 := rfl
    rw [if_neg hnz, hsp, regsAfter_wrote_probed _ _ (by decide),
      regsAfter_wrote_probed _ _ (by decide)] at hx
    have hval := congrFun (Option.some.inj hx) (place 2)
    rw [Function.update_self, Function.update_self, operand_sp] at hval
    have hodd := sumValue_odd (((addi16spImm h).signExtend 12).signExtend 64) (by
      rw [signExtend_signExtend _ (by decide) (by decide)]
      refine signExtend_even (by decide) (by decide) ?_
      simp only [addi16spImm, toNat_append_add, BitVec.toNat_ofNat]
      omega)
    rw [← hval, shiftLeft_even _ (by decide)] at hodd
    cases hodd

theorem keeps_addi4spn (hclass : rvcClass h = .cAddi4spn) :
    KeepsExpansion h ↔ bits h 5 8 = 0 := by
  have htab := table_of_class hclass (by decide) rfl
  have hbits : addi4spnImm h = 0 ↔ bits h 5 8 = 0 := by
    rw [← BitVec.toNat_inj, bits_add h 5 2 6, bits_two, bits_add h 7 4 2]
    simp only [addi4spnImm, toNat_append_add, toNat_extract, BitVec.toNat_ofNat]
    simp only [Nat.reduceAdd]
    have h0 : (0 : BitVec 10).toNat = 0 := rfl
    omega
  by_cases hz : addi4spnImm h = 0
  · have hexp : expansion h = none := by
      rw [expansion, htab, Option.bind_some, Rvc.expand, if_pos hz]
    exact ⟨fun _ => hbits.mp hz, fun _ => keeps_of_reserved hexp⟩
  · have hexp : expansion h = some (iType 2 (reg3 h 2) 0 0x13 ((addi4spnImm h).setWidth 12)) := by
      rw [expansion, htab, Option.bind_some, Rvc.expand, if_neg hz]
    refine ⟨fun hk => absurd hk ?_, fun hb => absurd (hbits.mpr hb) hz⟩
    rw [keepsExpansion_iff_of_class hclass (by decide) hexp]
    intro hk
    have heq := hk.on_probe {} onlySp
    have hx := congrArg regsAfter
      ((half_addi4spn ..).symm.trans (heq.trans (word_addi ..)))
    have hnz : ¬ (h.extractLsb' 5 8).setWidth 32 = (0 : U32) := by
      rw [setWidth_eq_zero (by decide)]
      intro h0
      exact hz (hbits.mpr (congrArg BitVec.toNat h0))
    rw [if_neg hnz, regsAfter_wrote_probed _ _ (reg2_ne_zero h 2),
      regsAfter_wrote_probed _ _ (reg3_ne_zero h 2)] at hx
    have hval := congrFun (Option.some.inj hx) (place (reg3 h 2))
    rw [Function.update_self, operand_sp] at hval
    have hodd := sumValue_odd (((addi4spnImm h).setWidth 12).signExtend 64) (by
      refine signExtend_even (by decide) (by decide) ?_
      rw [BitVec.toNat_setWidth]
      simp only [addi4spnImm, toNat_append_add, BitVec.toNat_ofNat]
      omega)
    rw [← hval, Function.update_apply] at hodd
    split at hodd
    · rw [BitVec.toNat_setWidth] at hodd
      have heven := shiftLeft_even (1 + (h.extractLsb' 5 8).setWidth 32 : U32) (by decide)
      omega
    · have hne : place (reg3 h 2) ≠ 2 := by
        intro h2
        have h2' : reg3 h 2 = 2 := place_inj.mp (h2.trans (by decide))
        have hnat := toNat_reg3 h 2
        rw [h2'] at hnat
        have hlit : (2 : BitVec 5).toNat = 2 := rfl
        omega
      rw [onlySp, if_neg hne] at hodd
      cases hodd

theorem not_keeps_of_junk {c : Iclass} {w : U32} (hclass : rvcClass h = c)
    (hc : Step.ReadsRd c) (hexp : expansion h = some w)
    {rd : U32} {v : U64} (hword : runObject (Step.stepSized 2)
      (wordObject { rd := 32 } (probed fun _ => 0) blank w) (probe fun _ => 0)
        = wrote (probed fun _ => 0) (probe fun _ => 0) blank rd v) : ¬ KeepsExpansion h := by
  have hne : c ≠ .unknownInstruction := by rcases hc with rfl | rfl | rfl | rfl | rfl <;> decide
  rw [keepsExpansion_iff_of_class hclass hne hexp]
  intro hk
  have heq := hk.on_probe { rd := 32 } fun _ => 0
  rw [half_uninitialised _ _ _ _ _ (by decide) hc] at heq
  have herr := heq.trans hword
  rw [wrote] at herr
  cases herr

theorem not_keeps_uninitialised {c : Iclass} (hclass : rvcClass h = c) (hc : Step.ReadsRd c) :
    ¬ KeepsExpansion h := by
  rcases hc with rfl | rfl | rfl | rfl | rfl
  · exact not_keeps_of_junk hclass (by simp [Step.ReadsRd]) (expansion_of_class hclass (by decide) rfl)
      (word_aluImm _ _ _ _ _ _ 7 (c := .andi) rfl rfl rfl _)
  · exact not_keeps_of_junk hclass (by simp [Step.ReadsRd]) (expansion_of_class hclass (by decide) rfl)
      (word_alu _ _ _ _ _ _ _ 0 0x20 (c := .sub) rfl rfl rfl)
  · exact not_keeps_of_junk hclass (by simp [Step.ReadsRd]) (expansion_of_class hclass (by decide) rfl)
      (word_alu _ _ _ _ _ _ _ 4 0 (c := .xor) rfl rfl rfl)
  · exact not_keeps_of_junk hclass (by simp [Step.ReadsRd]) (expansion_of_class hclass (by decide) rfl)
      (word_alu _ _ _ _ _ _ _ 6 0 (c := .or) rfl rfl rfl)
  · exact not_keeps_of_junk hclass (by simp [Step.ReadsRd]) (expansion_of_class hclass (by decide) rfl)
      (word_alu _ _ _ _ _ _ _ 7 0 (c := .and) rfl rfl rfl)

/-- C_JAL links in a register number it does not decode: here x0. -/
theorem not_keeps_jal (hclass : rvcClass h = .cJal) : ¬ KeepsExpansion h := by
  have hexp : expansion h = some (jType 1 0x6f ((jOffset h).signExtend 21)) :=
    expansion_of_class hclass (by decide) rfl
  rw [keepsExpansion_iff_of_class hclass (by decide) hexp]
  intro hk
  have heq := hk.on_probe {} (fun _ => 0)
  have heq' := (half_jal _ _ _ _ _ (probed_enabled _) (by decide)).symm.trans
    (heq.trans (word_jal _ _ _ _ _ (probed_enabled _) _ (jOffset_even h)))
  have hx := congrArg regsAfter heq'
  rw [regsAfter_jumped, regsAfter_jumped, probed_pc32,
    if_neg (not_not_intro (even_target (jOffset h) (by decide) (by decide) (jOffset_even h))),
    x_setReg_of_ne _ (by decide)] at hx
  have hrd : ({} : Junk).rd = 0 := rfl
  rw [hrd, RiscvState.setReg_zero, probed_x, ite_self, probed_pc] at hx
  have hlink := congrFun (Option.some.inj hx) (place 1)
  rw [Function.update_self] at hlink
  exact absurd hlink (by decide)

theorem keeps_j (hclass : rvcClass h = .cJ) : KeepsExpansion h ↔
    bits h 2 1 = 0 ∧ bits h 7 1 = 0 ∧ bits h 8 1 = 0 ∧ bits h 12 1 = 0 ∧
      bits h 6 1 = bits h 9 1 ∧ bits h 9 1 = bits h 10 1 ∧ bits h 10 1 = bits h 11 1 := by
  have hexp : expansion h = some (jType 0 0x6f ((jOffset h).signExtend 21)) :=
    expansion_of_class hclass (by decide) rfl
  rw [keepsExpansion_iff_of_class hclass (by decide) hexp, ← cjImm_eq_jOffset]
  constructor
  · intro hk
    have heq := hk.on_probe {} (fun _ => 0)
    exact toInt_eq_of_jumped (by decide) (by decide) (by decide) (jOffset_even h)
      ((half_j _ _ _ _ _ (probed_enabled _)).symm.trans
        (heq.trans (word_jal _ _ _ _ _ (probed_enabled _) _ (jOffset_even h))))
  · intro hint junk storage core m hc hm
    have h0 : (0 : BitVec 5).setWidth 32 = (0 : U32) := rfl
    rw [half_j _ _ _ _ _ hc, word_jal _ _ _ _ _ hc _ (jOffset_even h), signExtend_eq_of_toInt hint,
      h0]
    exact jumped_zero ..

theorem keeps_beqz (hclass : rvcClass h = .cBeqz) : KeepsExpansion h ↔
    (bits h 2 1 = 0 ∧ bits h 5 1 = 0 ∧ bits h 6 1 = 0 ∧ bits h 10 1 = 0 ∧ bits h 11 1 = 0 ∧
      bits h 12 1 = 0) ∧ (bits h 9 1 = 0 ∨ bits h 4 1 = 0 ∧ bits h 3 1 = 1) := by
  have hexp : expansion h = some (bType (reg3 h 7) 0 0 0x63 ((bOffset h).signExtend 13)) :=
    expansion_of_class hclass (by decide) rfl
  have hlit : (2 : U64) = (2 : BitVec 4).signExtend 64 := by decide
  rw [keepsExpansion_iff_of_class hclass (by decide) hexp, ← cbImm_eq_bOffset]
  constructor
  · intro hk
    have hrun : ∀ x, jumped (probed x) (probe x) blank ((probed x).pc32 +
          if (probed x).operand (reg2 h 7) = 0 then (cbImm h).signExtend 64 else 2) 0 0
        = jumped (probed x) (probe x) blank ((probed x).pc32 +
          if (probed x).operand (reg3 h 7) = 0 then (bOffset h).signExtend 64 else 2) 0 0 := by
      intro x
      have heq := hk.on_probe {} x
      exact (half_beqz _ _ _ _ _ (probed_enabled x)).symm.trans
        (heq.trans (word_beqz _ _ _ _ (probed_enabled x) _))
    -- both branches taken
    have hoff : (cbImm h).toInt = (bOffset h).toInt := by
      have heq := hrun fun _ => 0
      have hzero : (0 : U64).setWidth 32 = (0 : U32) := rfl
      rw [operand_of_ne _ (reg2_ne_zero h 7), operand_of_ne _ (reg3_ne_zero h 7), probed_x,
        if_pos hzero, if_pos hzero] at heq
      exact toInt_eq_of_jumped (by decide) (by decide) (by decide) (bOffset_even h) heq
    refine ⟨hoff, ?_⟩
    by_cases h9 : bits h 9 1 = 0
    · exact .inl h9
    · -- only the code takes it
      have hne : place (reg3 h 7) ≠ place (reg2 h 7) := fun hp =>
        h9 ((reg2_eq_reg3 h 7).mp (place_inj.mp hp).symm)
      have heq := hrun fun r => if r = place (reg2 h 7) then 0 else 1
      rw [operand_of_ne _ (reg2_ne_zero h 7), operand_of_ne _ (reg3_ne_zero h 7), probed_x,
        if_pos (by rw [if_pos rfl]; rfl), if_neg (by rw [if_neg hne]; decide), hlit] at heq
      exact .inr ((cbImm_eq_two h hoff).mp
        (toInt_eq_of_jumped (by decide) (by decide) (by decide) (by decide) heq))
  · rintro ⟨hoff, hreg⟩ junk storage core m hc hm
    rw [half_beqz _ _ _ _ _ hc, word_beqz _ _ _ _ hc, signExtend_eq_of_toInt hoff]
    rcases hreg with h9 | h34
    · rw [(reg2_eq_reg3 h 7).mpr h9]
    · have h2 : (bOffset h).signExtend 64 = 2 := by
        rw [hlit, ← signExtend_eq_of_toInt hoff]
        exact signExtend_eq_of_toInt ((cbImm_eq_two h hoff).mpr h34)
      rw [h2, ite_self, ite_self]

/-- The address of C_LW and C_SW. -/
def codeAddress (s : RiscvState) (h : BitVec 16) : U64 :=
  (s.operand (reg2 h 7) + (clImm h).setWidth 32 * 4).setWidth 64

/-- The address of their expansions. -/
def expectedAddress (s : RiscvState) (h : BitVec 16) : U64 :=
  (s.operand (reg3 h 7)).setWidth 64 + ((lwImm h).setWidth 12).signExtend 64

theorem codeAddress_toNat (s : RiscvState) (h : BitVec 16) : (Memory.low32 (codeAddress s h)).toNat
    = ((s.operand (reg2 h 7)).toNat + (clImm h).toNat * 4) % 2 ^ 32 := by
  have hcl := (clImm h).isLt
  have h4 : (4 : U32).toNat = 4 := rfl
  rw [codeAddress, Memory.low32_toNat, BitVec.toNat_setWidth, BitVec.toNat_add, BitVec.toNat_mul,
    BitVec.toNat_setWidth, h4]
  omega

theorem expectedAddress_toNat (s : RiscvState) (h : BitVec 16) :
    (Memory.low32 (expectedAddress s h)).toNat
      = ((s.operand (reg3 h 7)).toNat + (lwImm h).toNat) % 2 ^ 32 := by
  have hop := (s.operand (reg3 h 7)).isLt
  have hlw := (lwImm h).isLt
  rw [expectedAddress, Memory.low32_toNat, BitVec.toNat_add, BitVec.toNat_setWidth,
    lwImm_signExtend]
  omega

/-- The addresses agree on every machine where the registers and the offsets do. -/
theorem low32_address (s : RiscvState) (hreg : reg2 h 7 = reg3 h 7)
    (hoff : (clImm h).toNat * 4 = (lwImm h).toNat) :
    Memory.low32 (codeAddress s h) = Memory.low32 (expectedAddress s h) := by
  apply BitVec.eq_of_toNat_eq
  rw [codeAddress_toNat, expectedAddress_toNat, hreg, hoff]

/-- On the probe only there. -/
theorem access_of_address
    (haddr : Memory.low32 (codeAddress (probed ramp) h) =
      Memory.low32 (expectedAddress (probed ramp) h)) :
    reg2 h 7 = reg3 h 7 ∧ (clImm h).toNat * 4 = (lwImm h).toNat := by
  have hnat := congrArg BitVec.toNat haddr
  have hcl := (clImm h).isLt
  have hlw := (lwImm h).isLt
  have h9 := bit_lt h 9
  have h7 : bits h 7 2 < 4 := bits_lt h 7 2
  have h3 : bits h 7 3 = bits h 7 2 + 4 * bits h 9 1 := bits_add h 7 2 1
  rw [codeAddress_toNat, expectedAddress_toNat, operand_ramp (reg2_ne_zero h 7),
    operand_ramp (reg3_ne_zero h 7), toNat_reg2, toNat_reg3, Nat.mod_eq_of_lt (by omega),
    Nat.mod_eq_of_lt (by omega)] at hnat
  rw [reg2_eq_reg3]
  simp only [Nat.reduceAdd]
  omega

theorem codeAddress_mod (h : BitVec 16) :
    (Memory.low32 (codeAddress (probed ramp) h)).toNat % 4 = 0 := by
  rw [codeAddress_toNat, operand_ramp (reg2_ne_zero h 7)]
  omega

theorem expectedAddress_mod (h : BitVec 16) :
    (Memory.low32 (expectedAddress (probed ramp) h)).toNat % 4 = 0 := by
  have hlw : (lwImm h).toNat % 4 = 0 := by
    simp only [lwImm, toNat_append_add, BitVec.toNat_ofNat]
    omega
  rw [expectedAddress_toNat, operand_ramp (reg3_ne_zero h 7)]
  omega

theorem keeps_lw (hclass : rvcClass h = .cLw) : KeepsExpansion h ↔
    bits h 9 1 = 0 ∧ bits h 4 1 = 0 ∧ bits h 5 1 = bits h 6 1 ∧ bits h 6 1 = bits h 10 1 ∧
      bits h 10 1 = bits h 11 1 ∧ bits h 11 1 = bits h 12 1 := by
  have hexp : expansion h = some (iType (reg3 h 7) (reg3 h 2) 2 0x03 ((lwImm h).setWidth 12)) :=
    expansion_of_class hclass (by decide) rfl
  rw [keepsExpansion_iff_of_class hclass (by decide) hexp, access_iff]
  constructor
  · intro hk
    have heq := hk.on_probe {} ramp
    have hload : loaded (probed ramp) (probe ramp) blank (halfObject {} (probed ramp) blank h .cLw).mbuf
          (codeAddress (probed ramp) h) ((reg2 h 2).setWidth 32)
        = loaded (probed ramp) (probe ramp) blank (halfObject {} (probed ramp) blank h .cLw).mbuf
          (expectedAddress (probed ramp) h) ((reg3 h 2).setWidth 32) :=
      (half_lw _ _ _ _ _ blank_range).symm.trans (heq.trans (word_lw _ _ _ _ _ _ blank_range _))
    obtain ⟨v, hv⟩ := loaded_blank (probed ramp) (probe ramp)
      (halfObject {} (probed ramp) blank h .cLw).mbuf (codeAddress (probed ramp) h)
    obtain ⟨v', hv'⟩ := loaded_blank (probed ramp) (probe ramp)
      (halfObject {} (probed ramp) blank h .cLw).mbuf (expectedAddress (probed ramp) h)
    have hmem := congrArg memoryAfter ((hv _).symm.trans (hload.trans (hv' _)))
    rw [memoryAfter_wrote, memoryAfter_wrote] at hmem
    have haddr := address_of_isDefined
      (congrArg (fun m => m.physMem.isDefined) (Option.some.inj hmem))
      (isDefined_afterLoad _) (isDefined_afterLoad _) (codeAddress_mod h) (expectedAddress_mod h)
    obtain ⟨hrs1, hoff⟩ := access_of_address haddr
    refine ⟨hrs1, ?_, hoff⟩
    have hsame := hload.trans (loaded_congr _ _ blank_range haddr.symm _ _)
    have hx := congrArg regsAfter ((hv _).symm.trans (hsame.trans (hv _)))
    rw [regsAfter_wrote_probed _ _ (reg2_ne_zero h 2),
      regsAfter_wrote_probed _ _ (reg3_ne_zero h 2)] at hx
    exact eq_of_update_ramp (Option.some.inj hx)
  · rintro ⟨hrs1, hrd, hoff⟩ junk storage core m hc hm
    rw [half_lw _ _ _ _ _ hm, word_lw _ _ _ _ _ _ hm, hrd]
    exact loaded_congr _ _ hm (low32_address _ hrs1 hoff) _ _

theorem keeps_sw (hclass : rvcClass h = .cSw) : KeepsExpansion h ↔
    bits h 9 1 = 0 ∧ bits h 4 1 = 0 ∧ bits h 5 1 = bits h 6 1 ∧ bits h 6 1 = bits h 10 1 ∧
      bits h 10 1 = bits h 11 1 ∧ bits h 11 1 = bits h 12 1 := by
  have hexp : expansion h = some (sType (reg3 h 7) (reg3 h 2) 2 0x23 ((lwImm h).setWidth 12)) :=
    expansion_of_class hclass (by decide) rfl
  rw [keepsExpansion_iff_of_class hclass (by decide) hexp, access_iff]
  constructor
  · intro hk
    have heq := hk.on_probe {} ramp
    have hstore : stored (probed ramp) (probe ramp) blank (codeAddress (probed ramp) h)
          ((probed ramp).operand (reg2 h 2))
        = stored (probed ramp) (probe ramp) blank (expectedAddress (probed ramp) h)
          ((probed ramp).operand (reg3 h 2)) :=
      (half_sw _ _ _ _ _ blank_range).symm.trans (heq.trans (word_sw _ _ _ _ _ _ blank_range _))
    rw [stored_blank, stored_blank] at hstore
    have hmem := congrArg memoryAfter hstore
    rw [memoryAfter_wrote, memoryAfter_wrote] at hmem
    have haddr := address_of_isDefined
      (congrArg (fun m => m.physMem.isDefined) (Option.some.inj hmem))
      (fun x => isDefined_afterStore _ x _) (fun x => isDefined_afterStore _ x _)
      (codeAddress_mod h) (expectedAddress_mod h)
    obtain ⟨hrs1, hoff⟩ := access_of_address haddr
    refine ⟨hrs1, ?_, hoff⟩
    -- the lowest byte tells the stored registers apart
    have hbyte := seen_afterStore (codeAddress (probed ramp) h) ((probed ramp).operand (reg2 h 2))
    rw [Option.some.inj hmem, haddr, seen_afterStore] at hbyte
    have hnat := congrArg BitVec.toNat (Option.some.inj hbyte)
    rw [BitVec.toNat_setWidth, BitVec.toNat_setWidth, operand_ramp (reg2_ne_zero h 2),
      operand_ramp (reg3_ne_zero h 2)] at hnat
    have := (reg2 h 2).isLt
    have := (reg3 h 2).isLt
    exact BitVec.eq_of_toNat_eq (by omega)
  · rintro ⟨hrs1, hrs2, hoff⟩ junk storage core m hc hm
    rw [half_sw _ _ _ _ _ hm, word_sw _ _ _ _ _ _ hm, hrs2]
    exact stored_congr _ _ hm (low32_address _ hrs1 hoff) _

end Classes

/-! ### Every halfword -/

theorem rvc_of_class {h : BitVec 16} (hclass : rvcClass h ≠ .unknownInstruction) :
    ∃ i, (rvcClass h).rvc = some i := by
  by_cases hrow : BnezRow h
  · rw [rvcClass_of_bnezRow hrow]
    exact ⟨_, rfl⟩
  · obtain ⟨i, hi, -⟩ := rvcClass_tabled hrow hclass
    exact ⟨i, hi⟩

/-- A compressed instruction means its expansion exactly at the halfwords of `ExpansionKept`. -/
theorem keeps_expansion_iff (h : BitVec 16) : KeepsExpansion h ↔ ExpansionKept h := by
  by_cases hun : rvcClass h = .unknownInstruction
  · rw [ExpansionKept, hun]
    exact ⟨fun _ => trivial, fun _ => keeps_of_unknown hun⟩
  obtain ⟨i, hi⟩ := rvc_of_class hun
  cases hc : rvcClass h
  all_goals rw [ExpansionKept, hc]
  case cAddi4spn => exact keeps_addi4spn hc
  case cLw => exact keeps_lw hc
  case cSw => exact keeps_sw hc
  case cAddi => exact keeps_addi hc
  case cJal => exact iff_of_false (not_keeps_jal hc) id
  case cLi => exact keeps_li hc
  case cAddi16sp => exact keeps_addi16sp hc
  case cLui => exact keeps_lui hc
  case cAndi => exact iff_of_false (not_keeps_uninitialised hc (by simp [Step.ReadsRd])) id
  case cSub => exact iff_of_false (not_keeps_uninitialised hc (by simp [Step.ReadsRd])) id
  case cXor => exact iff_of_false (not_keeps_uninitialised hc (by simp [Step.ReadsRd])) id
  case cOr => exact iff_of_false (not_keeps_uninitialised hc (by simp [Step.ReadsRd])) id
  case cAnd => exact iff_of_false (not_keeps_uninitialised hc (by simp [Step.ReadsRd])) id
  case cJ => exact keeps_j hc
  case cBeqz => exact keeps_beqz hc
  case cNop => exact iff_of_true (keeps_nop hc) trivial
  -- no other class comes from a halfword
  all_goals
    rw [hc] at hi
    cases hi

/-- `c.j 16` at 0x1000 stands for `jal x0,16` and goes to 0x1200. -/
theorem c_j_jumps_too_far : expansion 0xa801 = some 0x0100006f ∧
    newInstruction16 (probed fun _ => 0) 0xa801 = .cJ ∧
    pcAfter (runHalfword {} {} 0xa801 (probe fun _ => 0) blank) = some 0x1200 ∧
    pcAfter (runSized 2 {} {} 0x0100006f (probe fun _ => 0) blank) = some 0x1010 ∧
    ¬ KeepsExpansion 0xa801 := by
  have hexp : expansion 0xa801 = some 0x0100006f := by decide
  have hclass : newInstruction16 (probed fun _ => 0) ((0xa801 : BitVec 16).setWidth 32) = .cJ := by
    rw [newInstruction16_halfword (probed_enabled _)]
    decide
  have hhalf : pcAfter (runHalfword {} {} 0xa801 (probe fun _ => 0) blank) = some 0x1200 := by
    have hrun := half_j {} (probed fun _ => 0) (probe fun _ => 0) blank 0xa801 (probed_enabled _)
    rw [runHalfword, ← probed, hclass]
    refine (congrArg pcAfter hrun).trans ?_
    rw [pcAfter_jumped_even _ _ _ _ _ (by decide) (by decide) (by decide)]
    decide
  have hword : pcAfter (runSized 2 {} {} 0x0100006f (probe fun _ => 0) blank) = some 0x1010 := by
    have hrun := word_jal {} (probed fun _ => 0) (probe fun _ => 0) blank 0 (probed_enabled _)
      (jOffset 0xa801) (by decide)
    refine (congrArg pcAfter hrun).trans ?_
    rw [pcAfter_jumped_even _ _ _ _ _ (by decide) (by decide) (by decide)]
    decide
  refine ⟨hexp, hclass, hhalf, hword, fun hk => ?_⟩
  have heq := hk _ hexp {} {} (probe fun _ => 0) blank (by rw [← probed, hclass]; decide) blank_range
  rw [heq, hword] at hhalf
  exact absurd hhalf (by decide)

end Dimebox
