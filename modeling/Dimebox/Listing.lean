import Mathlib.Tactic.IntervalCases
import Dimebox.Decoder

/-! The decoders against the listings of the manual.

    `NewInstruction` is compared with the fixed bits of each instruction and `NewInstruction16` with
    the tables of the three quadrants. Each differs in one place: the rows of MRET, WFI and the
    obsolete returns do not look at rd, and the row of C.BNEZ makes a C_LUI. -/

namespace Dimebox

/-! ### The listing of the 32-bit instructions -/

/-- The bits of an instruction that the manual fixes. -/
inductive FixedBits where
  | opcode (op : Nat)
  | funct3 (op f3 : Nat)
  | funct7 (op f3 f7 : Nat)
  /-- bits 31..28, rs1, funct3 and rd are zero -/
  | fence
  | word (w : U32)

def FixedBits.Matches (w : U32) : FixedBits → Prop
  | .opcode op => (field w 0 0x7f).toNat = op
  | .funct3 op f3 => (field w 0 0x7f).toNat = op ∧ (field w 12 0x7).toNat = f3
  | .funct7 op f3 f7 =>
    (field w 0 0x7f).toNat = op ∧ (field w 12 0x7).toNat = f3 ∧ (field w 25 0x7f).toNat = f7
  | .fence =>
    (field w 0 0x7f).toNat = 0x0f ∧ field w 7 0x1f = 0 ∧ field w 12 0x7 = 0 ∧ field w 15 0x1f = 0 ∧
      field w 28 0xf = 0
  | .word v => w = v

/-- The instruction listing of the manual: RV32I, M, Zicsr, FENCE.I, MRET and WFI. -/
def Iclass.fixedBits : Iclass → Option FixedBits
  | .lui => some (.opcode 0x37)
  | .auipc => some (.opcode 0x17)
  | .jal => some (.opcode 0x6f)
  | .jalr => some (.funct3 0x67 0)
  | .beq => some (.funct3 0x63 0)
  | .bne => some (.funct3 0x63 1)
  | .blt => some (.funct3 0x63 4)
  | .bge => some (.funct3 0x63 5)
  | .bltu => some (.funct3 0x63 6)
  | .bgeu => some (.funct3 0x63 7)
  | .lb => some (.funct3 0x03 0)
  | .lh => some (.funct3 0x03 1)
  | .lw => some (.funct3 0x03 2)
  | .lbu => some (.funct3 0x03 4)
  | .lhu => some (.funct3 0x03 5)
  | .sb => some (.funct3 0x23 0)
  | .sh => some (.funct3 0x23 1)
  | .sw => some (.funct3 0x23 2)
  | .addi => some (.funct3 0x13 0)
  | .slti => some (.funct3 0x13 2)
  | .sltiu => some (.funct3 0x13 3)
  | .xori => some (.funct3 0x13 4)
  | .ori => some (.funct3 0x13 6)
  | .andi => some (.funct3 0x13 7)
  | .slli => some (.funct7 0x13 1 0x00)
  | .srli => some (.funct7 0x13 5 0x00)
  | .srai => some (.funct7 0x13 5 0x20)
  | .add => some (.funct7 0x33 0 0x00)
  | .sub => some (.funct7 0x33 0 0x20)
  | .sll => some (.funct7 0x33 1 0x00)
  | .slt => some (.funct7 0x33 2 0x00)
  | .sltu => some (.funct7 0x33 3 0x00)
  | .xor => some (.funct7 0x33 4 0x00)
  | .srl => some (.funct7 0x33 5 0x00)
  | .sra => some (.funct7 0x33 5 0x20)
  | .or => some (.funct7 0x33 6 0x00)
  | .and => some (.funct7 0x33 7 0x00)
  | .mul => some (.funct7 0x33 0 0x01)
  | .mulh => some (.funct7 0x33 1 0x01)
  | .mulhsu => some (.funct7 0x33 2 0x01)
  | .mulhu => some (.funct7 0x33 3 0x01)
  | .div => some (.funct7 0x33 4 0x01)
  | .divu => some (.funct7 0x33 5 0x01)
  | .rem => some (.funct7 0x33 6 0x01)
  | .remu => some (.funct7 0x33 7 0x01)
  | .csrrw => some (.funct3 0x73 1)
  | .csrrs => some (.funct3 0x73 2)
  | .csrrc => some (.funct3 0x73 3)
  | .csrrwi => some (.funct3 0x73 5)
  | .csrrsi => some (.funct3 0x73 6)
  | .csrrci => some (.funct3 0x73 7)
  | .fence => some .fence
  | .fenceI => some (.word 0x0000100f)
  | .ecall => some (.word 0x00000073)
  | .ebreak => some (.word 0x00100073)
  | .mret => some (.word 0x30200073)
  | .wfi => some (.word 0x10500073)
  | _ => none

/-- URET, SRET, HRET and SFENCE.VM in earlier manuals. -/
def obsoleteWords : List U32 := [0x00200073, 0x10200073, 0x20200073, 0x10400073]

/-- The immediates of the rows of the last switch. -/
def returnImms : List Nat := [0x002, 0x102, 0x202, 0x302, 0x105, 0x104]

/-- A word of one of these rows whose rd is not zero. -/
def ReturnWithRd (w : U32) : Prop :=
  (field w 0 0x7f).toNat = 0x73 ∧ field w 12 0x7 = 0 ∧ field w 15 0x1f = 0 ∧
    (field w 20 0xfff).toNat ∈ returnImms ∧ field w 7 0x1f ≠ 0

instance (w : U32) : Decidable (ReturnWithRd w) := by unfold ReturnWithRd; infer_instance

/-- `NewInstruction` treats `w` as the listing does. -/
structure AsListed (w : U32) : Prop where
  named : ∀ (c : Iclass) (b : FixedBits), c.fixedBits = some b → (newInstruction w = c ↔ b.Matches w)
  other : (∀ (c : Iclass) (b : FixedBits), c.fixedBits = some b → ¬ b.Matches w) → w ∉ obsoleteWords →
    newInstruction w = .unknownInstruction

/-! ### `NewInstruction` -/

/-- The mask of the FENCE row. -/
theorem fence_iff (w : U32) : w &&& 0xf00fffff = 0xf ↔ FixedBits.Matches w .fence := by
  have hsplit : w &&& (0xf00fffff : U32) = ((w >>> 28) <<< 28) ||| (w &&& (0xfffff : U32)) := by
    rw [BitVec.shiftLeft_ushiftRight, ← BitVec.and_or_distrib_left]
    rfl
  have hlow : (w &&& 0xfffff).toNat = w.toNat % 2 ^ 20 := by
    rw [BitVec.toNat_and]
    exact Nat.and_two_pow_sub_one_eq_mod w.toNat 20
  have hhigh : ((w >>> 28) <<< 28).toNat = 2 ^ 28 * (w.toNat / 2 ^ 28) := by
    have := w.isLt
    rw [BitVec.toNat_shiftLeft, BitVec.toNat_ushiftRight, Nat.shiftRight_eq_div_pow,
      Nat.shiftLeft_eq]
    omega
  have hval : (w &&& 0xf00fffff).toNat = 2 ^ 28 * (w.toNat / 2 ^ 28) + w.toNat % 2 ^ 20 := by
    rw [hsplit, BitVec.toNat_or, hhigh, hlow, ← Nat.two_pow_add_eq_or_of_lt (by omega)]
  have h28 : (field w 28 0xf).toNat = w.toNat / 2 ^ 28 % 2 ^ 4 := field_div w 28 4 (by decide)
  have hf : (0xf : U32).toNat = 15 := rfl
  have h0 : (0 : U32).toNat = 0 := rfl
  have := w.isLt
  simp only [FixedBits.Matches, ← BitVec.toNat_inj, hval, opcode_toNat, rd_toNat, funct3_toNat,
    rs1_toNat, h28, hf, h0]
  omega

/-- A word is its fields. -/
theorem toNat_eq_fields (w : U32) : w.toNat = (field w 0 0x7f).toNat
    + (field w 7 0x1f).toNat * 2 ^ 7 + (field w 12 0x7).toNat * 2 ^ 12
    + (field w 15 0x1f).toNat * 2 ^ 15 + (field w 20 0xfff).toNat * 2 ^ 20 := by
  have h20 : (field w 20 0xfff).toNat = w.toNat / 2 ^ 20 % 2 ^ 12 := field_div w 20 12 (by decide)
  have := w.isLt
  rw [opcode_toNat, rd_toNat, funct3_toNat, rs1_toNat, h20]
  omega

/-- A SYSTEM word with zero rd, funct3 and rs1. -/
theorem system_word {w : U32} (hop : (field w 0 0x7f).toNat = 0x73) (h3 : field w 12 0x7 = 0)
    (hrs1 : field w 15 0x1f = 0) (hrd : field w 7 0x1f = 0) :
    w.toNat = 0x73 + (field w 20 0xfff).toNat * 2 ^ 20 := by
  have h0 : (0 : U32).toNat = 0 := rfl
  have h := toNat_eq_fields w
  rw [hop, h3, hrs1, hrd, h0] at h
  omega

/-- What the listing says of a word decoded as `c`. -/
def Listed (w : U32) (c : Iclass) : Prop :=
  (∃ b, c.fixedBits = some b ∧ b.Matches w) ∨ c = .unknownInstruction ∨ w ∈ obsoleteWords

theorem Listed.of_bits {w : U32} {c : Iclass} {b : FixedBits} (hb : c.fixedBits = some b)
    (h : b.Matches w) : Listed w c := .inl ⟨b, hb, h⟩

theorem Listed.unknown (w : U32) : Listed w .unknownInstruction := .inr (.inl rfl)

theorem newSystem_listed {w : U32} (hop : (field w 0 0x7f).toNat = 0x73) (hrd : ¬ ReturnWithRd w) :
    Listed w (newSystem w) := by
  unfold newSystem
  split
  · next h => exact .of_bits rfl h
  split
  · next h => exact .of_bits rfl h
  split
  · next h =>
    -- a row of the last switch is one word
    have hword : ∀ imm ∈ returnImms, (field w 20 0xfff).toNat = imm →
        w = BitVec.ofNat 32 (0x73 + imm * 2 ^ 20) := by
      rintro imm himm rfl
      have hzero : field w 7 0x1f = 0 := by
        by_contra hne
        exact hrd ⟨hop, h.1, h.2, himm, hne⟩
      rw [← system_word hop h.1 h.2 hzero, BitVec.ofNat_toNat, BitVec.setWidth_eq]
    split
    case h_4 himm => exact .of_bits rfl (hword _ (by decide) himm)
    case h_5 himm => exact .of_bits rfl (hword _ (by decide) himm)
    case h_7 => exact .unknown w
    all_goals
      next himm =>
        rw [hword _ (by decide) himm]
        exact .inr (.inr (by decide))
  · split
    all_goals first | exact .unknown w | exact .of_bits rfl ⟨hop, by assumption⟩

/-- What `NewInstruction` returns is listed for the word. -/
theorem newInstruction_listed {w : U32} (hrd : ¬ ReturnWithRd w) : Listed w (newInstruction w) := by
  unfold newInstruction
  dsimp only
  split
  case h_1 hop => exact .of_bits rfl hop
  case h_2 hop => exact .of_bits rfl hop
  case h_3 hop => exact .of_bits rfl hop
  case h_8 hop =>
    split
    case h_7 h3 =>
      split
      · next h7 => exact .of_bits rfl ⟨hop, h3, h7⟩
      · exact .unknown w
    case h_8 h3 =>
      split
      · next h7 => exact .of_bits rfl ⟨hop, h3, h7⟩
      · split
        · next h7 => exact .of_bits rfl ⟨hop, h3, h7⟩
        · exact .unknown w
    all_goals first | exact .unknown w | exact .of_bits rfl ⟨hop, by assumption⟩
  case h_9 hop =>
    split
    all_goals
      first | exact .unknown w | exact .of_bits rfl ⟨hop, by assumption, by assumption⟩
  case h_10 hop => exact newSystem_listed hop hrd
  case h_11 =>
    split
    · next h => exact .of_bits rfl ((fence_iff w).mp h)
    · split
      · next h => exact .of_bits rfl h
      · exact .unknown w
  case h_12 => exact .unknown w
  all_goals
    split
    all_goals first | exact .unknown w | exact .of_bits rfl ⟨by assumption, by assumption⟩

/-- The CSR rows. -/
theorem newSystem_csr {w : U32} (h : (field w 12 0x7).toNat ≠ 0) :
    newSystem w = match (field w 12 0x7).toNat with
      | 1 => .csrrw
      | 2 => .csrrs
      | 3 => .csrrc
      | 5 => .csrrwi
      | 6 => .csrrsi
      | 7 => .csrrci
      | _ => .unknownInstruction := by
  have hne : ∀ v : U32, (field v 12 0x7).toNat = 0 → w ≠ v := by
    rintro v hv rfl
    exact h hv
  have h3 : ¬ (field w 12 0x7 = 0 ∧ field w 15 0x1f = 0) := by
    rintro ⟨h0, -⟩
    exact h (congrArg BitVec.toNat h0)
  have hecall : w ≠ 0x73 := hne 0x73 (by decide)
  have hebreak : w ≠ 0x100073 := hne 0x100073 (by decide)
  exact (if_neg hecall).trans ((if_neg hebreak).trans (if_neg h3))

/-- A listed word is returned as what it is listed for. -/
theorem newInstruction_of_matches {w : U32} {c : Iclass} {b : FixedBits} (hb : c.fixedBits = some b)
    (h : b.Matches w) : newInstruction w = c := by
  cases c <;> cases hb
  case fence =>
    simp only [newInstruction, h.1]
    exact if_pos ((fence_iff w).mpr h)
  case fenceI | ecall | ebreak | mret | wfi => subst h; decide
  case csrrw | csrrs | csrrc | csrrwi | csrrsi | csrrci =>
    obtain ⟨hop, h3⟩ := h
    simp only [newInstruction, hop, newSystem_csr (w := w) (by rw [h3]; decide), h3]
  all_goals
    simp only [FixedBits.Matches] at h
    simp [newInstruction, h]

theorem ReturnWithRd.ne {w v : U32} (h : ReturnWithRd w) (hv : field v 7 0x1f = 0) : w ≠ v := by
  rintro rfl
  exact h.2.2.2.2 hv

/-- The rows of the last switch do not look at rd. -/
theorem ReturnWithRd.newInstruction_ne {w : U32} (h : ReturnWithRd w) :
    newInstruction w ≠ .unknownInstruction := by
  have hecall := h.ne (v := 0x73) (by decide)
  have hebreak := h.ne (v := 0x100073) (by decide)
  obtain ⟨hop, h3, hrs1, himm, -⟩ := h
  simp only [newInstruction, hop, newSystem, if_neg hecall, if_neg hebreak, h3, hrs1, and_self,
    if_true]
  simp only [returnImms, List.mem_cons, List.not_mem_nil, or_false] at himm
  rcases himm with h | h | h | h | h | h <;> rw [h] <;> decide

theorem ReturnWithRd.not_matches {w : U32} (h : ReturnWithRd w) {c : Iclass} {b : FixedBits}
    (hb : c.fixedBits = some b) : ¬ b.Matches w := by
  intro hm
  have hop : (field w 0 0x7f).toNat = 0x73 := h.1
  have h3 : (field w 12 0x7).toNat = 0 := congrArg BitVec.toNat h.2.1
  cases c <;> cases hb
  case fenceI | ecall | ebreak | mret | wfi => exact h.ne (by decide) hm
  all_goals simp [FixedBits.Matches, hop, h3] at hm

theorem fixedBits_of_obsolete {w : U32} (h : w ∈ obsoleteWords) :
    (newInstruction w).fixedBits = none := by
  simp only [obsoleteWords, List.mem_cons, List.not_mem_nil, or_false] at h
  rcases h with rfl | rfl | rfl | rfl <;> rfl

/-- `NewInstruction` accepts exactly what the manual lists, and the obsolete returns, at every word
    but the ones of the return rows with rd other than x0. -/
theorem as_listed_iff_no_return_with_rd (w : U32) : AsListed w ↔ ¬ ReturnWithRd w := by
  refine ⟨?_, fun hrd => ⟨fun c b hb => ⟨?_, newInstruction_of_matches hb⟩, fun hnone hobs => ?_⟩⟩
  · rintro ⟨-, hother⟩ h
    refine h.newInstruction_ne (hother (fun c b hb => h.not_matches hb) fun hmem => ?_)
    simp only [obsoleteWords, List.mem_cons, List.not_mem_nil, or_false] at hmem
    rcases hmem with rfl | rfl | rfl | rfl <;> exact h.ne (by decide) rfl
  · rintro rfl
    rcases newInstruction_listed hrd with ⟨b', hb', hm⟩ | h | hobs
    · rwa [Option.some.inj (hb.symm.trans hb')]
    · rw [h] at hb; cases hb
    · rw [fixedBits_of_obsolete hobs] at hb; cases hb
  · rcases newInstruction_listed hrd with ⟨b, hb, hm⟩ | h | h
    · exact absurd hm (hnone _ b hb)
    · exact h
    · exact absurd h hobs

/-- MRET with rd = x1. -/
theorem mret_with_rd_not_as_listed :
    newInstruction 0x302000f3 = .mret ∧ ¬ AsListed 0x302000f3 := by
  have hmret : newInstruction 0x302000f3 = .mret := by decide
  refine ⟨hmret, fun h => ?_⟩
  have hword : (0x302000f3 : U32) = 0x30200073 := (h.named .mret _ rfl).mp hmret
  exact absurd hword (by decide)

/-! ### The tables of the compressed instructions -/

/-- The instructions of RV32C. -/
inductive Rvc where
  | addi4spn | fld | lw | flw | fsd | sw | fsw
  | nop | addi | jal | li | addi16sp | lui | srli | srai | andi | sub | xor | or | and
  | j | beqz | bnez
  | slli | fldsp | lwsp | flwsp | jr | mv | ebreak | jalr | add | fsdsp | swsp | fswsp
  deriving DecidableEq

namespace Rvc

/-- Bits `lo + len - 1 .. lo` of a halfword. -/
def bits (h : BitVec 16) (lo len : Nat) : Nat := (h.extractLsb' lo len).toNat

/-- Quadrant 0. -/
def quadrant0 (h : BitVec 16) : Option Rvc :=
  match bits h 13 3 with
  | 0 => if h = 0 then none else some .addi4spn
  | 1 => some .fld
  | 2 => some .lw
  | 3 => some .flw
  | 5 => some .fsd
  | 6 => some .sw
  | 7 => some .fsw
  | _ => none

/-- Quadrant 1. Only the halfword 1 is listed as C.NOP here; the HINTs with rd = x0 stay in the row
    of C.ADDI. -/
def quadrant1 (h : BitVec 16) : Option Rvc :=
  match bits h 13 3 with
  | 0 => some (if h = 1 then .nop else .addi)
  | 1 => some .jal
  | 2 => some .li
  | 3 => some (if bits h 7 5 = 2 then .addi16sp else .lui)
  | 4 =>
    match bits h 10 2, bits h 12 1, bits h 5 2 with
    | 0, _, _ => some .srli
    | 1, _, _ => some .srai
    | 2, _, _ => some .andi
    | 3, 0, 0 => some .sub
    | 3, 0, 1 => some .xor
    | 3, 0, 2 => some .or
    | 3, 0, 3 => some .and
    | _, _, _ => none
  | 5 => some .j
  | 6 => some .beqz
  | _ => some .bnez

/-- Quadrant 2. -/
def quadrant2 (h : BitVec 16) : Option Rvc :=
  match bits h 13 3 with
  | 0 => some .slli
  | 1 => some .fldsp
  | 2 => some .lwsp
  | 3 => some .flwsp
  | 4 =>
    match bits h 12 1, bits h 7 5, bits h 2 5 with
    | 0, 0, 0 => none
    | 0, _, 0 => some .jr
    | 0, _, _ => some .mv
    | _, 0, 0 => some .ebreak
    | _, _, 0 => some .jalr
    | _, _, _ => some .add
  | 5 => some .fsdsp
  | 6 => some .swsp
  | _ => some .fswsp

/-- The tables of the manual; 11 is no quadrant. -/
def table (h : BitVec 16) : Option Rvc :=
  match bits h 0 2 with
  | 0 => quadrant0 h
  | 1 => quadrant1 h
  | 2 => quadrant2 h
  | _ => none

end Rvc

/-- The instruction a class is named after. -/
def Iclass.rvc : Iclass → Option Rvc
  | .cAddi4spn => some .addi4spn
  | .cLw => some .lw
  | .cSw => some .sw
  | .cAddi => some .addi
  | .cJal => some .jal
  | .cLi => some .li
  | .cAddi16sp => some .addi16sp
  | .cLui => some .lui
  | .cAndi => some .andi
  | .cSub => some .sub
  | .cXor => some .xor
  | .cOr => some .or
  | .cAnd => some .and
  | .cJ => some .j
  | .cBeqz => some .beqz
  | .cNop => some .nop
  | _ => none

/-- `NewInstruction16` takes `h`, if at all, for the instruction of the tables. -/
def AsTabled (h : BitVec 16) : Prop :=
  ∀ s : RiscvState, s.compressedExtensionEnabled →
    newInstruction16 s (h.setWidth 32) ≠ .unknownInstruction →
    ∃ i, (newInstruction16 s (h.setWidth 32)).rvc = some i ∧ Rvc.table h = some i

/-! ### `NewInstruction16` -/

theorem bits_eq (h : BitVec 16) (lo len : Nat) : Rvc.bits h lo len = h.toNat / 2 ^ lo % 2 ^ len := by
  rw [Rvc.bits, BitVec.extractLsb'_toNat, Nat.shiftRight_eq_div_pow]

theorem halfword_toNat (h : BitVec 16) : (h.setWidth 32).toNat = h.toNat := by
  rw [BitVec.toNat_setWidth]
  exact Nat.mod_eq_of_lt (by have := h.isLt; omega)

theorem rvcKey_halfword (h : BitVec 16) :
    ((field (h.setWidth 32) 13 0x7 <<< 4) ||| (h.setWidth 32 &&& 0x3)).toNat
      = Rvc.bits h 13 3 * 16 + Rvc.bits h 0 2 := by
  have hkey := rvcKey_toNat (h.setWidth 32)
  have h13 := bits_eq h 13 3
  have h0 := bits_eq h 0 2
  rw [halfword_toNat] at hkey
  omega

theorem rvcAluKey_halfword (h : BitVec 16) :
    ((field (h.setWidth 32) 10 0x7 <<< 4) ||| field (h.setWidth 32) 5 0x3).toNat
      = (Rvc.bits h 12 1 * 4 + Rvc.bits h 10 2) * 16 + Rvc.bits h 5 2 := by
  have hkey := rvcAluKey_toNat (h.setWidth 32)
  have h12 := bits_eq h 12 1
  have h10 := bits_eq h 10 2
  have h5 := bits_eq h 5 2
  have hdiv : h.toNat / 2 ^ 12 = h.toNat / 2 ^ 10 / 2 ^ 2 :=
    (Nat.div_div_eq_div_mul h.toNat (2 ^ 10) (2 ^ 2)).symm
  rw [halfword_toNat] at hkey
  rw [hdiv] at h12
  generalize h.toNat / 2 ^ 10 = q at *
  omega

theorem rd_halfword (h : BitVec 16) (r : Nat) (hr : r < 32) :
    field (h.setWidth 32) 7 0x1f = BitVec.ofNat 32 r ↔ Rvc.bits h 7 5 = r := by
  have h7 : (field (h.setWidth 32) 7 0x1f).toNat = Rvc.bits h 7 5 := by
    rw [bits_eq, rd_toNat, halfword_toNat]
  rw [← BitVec.toNat_inj, h7, BitVec.toNat_ofNat, Nat.mod_eq_of_lt (by omega)]

theorem halfword_inj (h v : BitVec 16) : h.setWidth 32 = v.setWidth 32 ↔ h = v := by
  rw [← BitVec.toNat_inj, halfword_toNat, halfword_toNat, BitVec.toNat_inj]

/-- The class of a halfword, by its bits. -/
def rvcClass (h : BitVec 16) : Iclass :=
  if h = 0 then .unknownInstruction
  else if h = 1 then .cNop
  else
    match Rvc.bits h 0 2, Rvc.bits h 13 3 with
    | 0, 0 => .cAddi4spn
    | 0, 2 => .cLw
    | 0, 6 => .cSw
    | 1, 0 => .cAddi
    | 1, 1 => .cJal
    | 1, 2 => .cLi
    | 1, 3 =>
      if Rvc.bits h 7 5 = 2 then .cAddi16sp
      else if Rvc.bits h 7 5 = 0 then .unknownInstruction
      else .cLui
    | 1, 4 =>
      match Rvc.bits h 12 1, Rvc.bits h 10 2, Rvc.bits h 5 2 with
      | 0, 2, _ => .cAndi
      | 0, 3, 0 => .cSub
      | 0, 3, 1 => .cXor
      | 0, 3, 2 => .cOr
      | 0, 3, 3 => .cAnd
      | _, _, _ => .unknownInstruction
    | 1, 5 => .cJ
    | 1, 6 => .cBeqz
    | 1, 7 => .cLui
    | _, _ => .unknownInstruction

theorem bits_lt (h : BitVec 16) (lo len : Nat) : Rvc.bits h lo len < 2 ^ len :=
  (h.extractLsb' lo len).isLt

theorem newInstruction16_halfword {s : RiscvState} (hc : s.compressedExtensionEnabled)
    (h : BitVec 16) : newInstruction16 s (h.setWidth 32) = rvcClass h := by
  have h0 := halfword_inj h 0
  have h1 := halfword_inj h 1
  unfold newInstruction16 rvcClass
  dsimp only
  rw [rvcKey_halfword, rvcAluKey_halfword, if_neg (by simp [hc])]
  refine ite_congr (propext h0) (fun _ => rfl) fun _ =>
    ite_congr (propext h1) (fun _ => rfl) fun _ => ?_
  have hop : Rvc.bits h 0 2 < 4 := bits_lt h 0 2
  have h3 : Rvc.bits h 13 3 < 8 := bits_lt h 13 3
  have h12 : Rvc.bits h 12 1 < 2 := bits_lt h 12 1
  have h10 : Rvc.bits h 10 2 < 4 := bits_lt h 10 2
  have h5 : Rvc.bits h 5 2 < 4 := bits_lt h 5 2
  have hrd2 := rd_halfword h 2 (by decide)
  have hrd0 := rd_halfword h 0 (by decide)
  generalize Rvc.bits h 0 2 = o at *
  generalize Rvc.bits h 13 3 = f at *
  interval_cases o <;> interval_cases f
  all_goals try rfl
  · exact ite_congr (propext hrd2) (fun _ => rfl) fun _ =>
      ite_congr (propext hrd0) (fun _ => rfl) fun _ => rfl
  · generalize Rvc.bits h 12 1 = a at *
    generalize Rvc.bits h 10 2 = b at *
    generalize Rvc.bits h 5 2 = c at *
    interval_cases a <;> interval_cases b <;> interval_cases c <;> rfl

/-- The row of C.BNEZ. -/
def BnezRow (h : BitVec 16) : Prop := Rvc.bits h 0 2 = 1 ∧ Rvc.bits h 13 3 = 7

theorem rvcClass_tabled {h : BitVec 16} (hrow : ¬ BnezRow h)
    (hne : rvcClass h ≠ .unknownInstruction) :
    ∃ i, (rvcClass h).rvc = some i ∧ Rvc.table h = some i := by
  by_cases h1 : h = 1
  · subst h1
    exact ⟨.nop, by decide, by decide⟩
  have h0 : h ≠ 0 := by
    rintro rfl
    exact hne rfl
  have hop : Rvc.bits h 0 2 < 4 := bits_lt h 0 2
  have hf : Rvc.bits h 13 3 < 8 := bits_lt h 13 3
  simp only [rvcClass, if_neg h0, if_neg h1, Rvc.table, Rvc.quadrant0, Rvc.quadrant1,
    Rvc.quadrant2, BnezRow] at hne hrow ⊢
  generalize Rvc.bits h 0 2 = o at *
  generalize Rvc.bits h 13 3 = f at *
  interval_cases o <;> interval_cases f
  all_goals
    first | exact ⟨_, rfl, rfl⟩ | exact absurd rfl hne | exact absurd ⟨rfl, rfl⟩ hrow | skip
  · by_cases h2 : Rvc.bits h 7 5 = 2
    · simp only [if_pos h2]
      exact ⟨_, rfl, rfl⟩
    · by_cases hz : Rvc.bits h 7 5 = 0
      · simp only [if_neg h2, if_pos hz, ne_eq, not_true_eq_false] at hne
      · simp only [if_neg h2, if_neg hz]
        exact ⟨_, rfl, rfl⟩
  · have h12 : Rvc.bits h 12 1 < 2 := bits_lt h 12 1
    have h10 : Rvc.bits h 10 2 < 4 := bits_lt h 10 2
    have h5 : Rvc.bits h 5 2 < 4 := bits_lt h 5 2
    generalize Rvc.bits h 12 1 = a at *
    generalize Rvc.bits h 10 2 = b at *
    generalize Rvc.bits h 5 2 = c at *
    interval_cases a <;> interval_cases b <;> interval_cases c
    all_goals first | exact ⟨_, rfl, rfl⟩ | exact absurd rfl hne

/-- `NewInstruction16` agrees with the tables of the manual exactly outside the row of C.BNEZ. -/
theorem as_tabled_iff_not_bnezRow (h : BitVec 16) : AsTabled h ↔ ¬ BnezRow h := by
  refine ⟨?_, fun hrow s hc hne => ?_⟩
  · rintro htab ⟨hop, hf⟩
    have h0 : h ≠ 0 := by rintro rfl; cases hop
    have h1 : h ≠ 1 := by rintro rfl; cases hf
    have hclass : rvcClass h = .cLui := by
      simp only [rvcClass, if_neg h0, if_neg h1, hop, hf]
    have hc : RiscvState.compressedExtensionEnabled { reg := fun _ => 4 } := by decide
    obtain ⟨i, hi, hti⟩ := htab _ hc (by rw [newInstruction16_halfword hc, hclass]; decide)
    rw [newInstruction16_halfword hc, hclass] at hi
    simp only [Rvc.table, hop, Rvc.quadrant1, hf] at hti
    cases hi
    cases hti
  · rw [newInstruction16_halfword hc] at hne ⊢
    exact rvcClass_tabled hrow hne

/-- `c.bnez x8,0` is taken for C.LUI. -/
theorem bnez_taken_for_lui : Rvc.table 0xe001 = some .bnez ∧
    newInstruction16 (.reset {} 0) 0xe001 = .cLui ∧ ¬ AsTabled 0xe001 := by
  have hlui : newInstruction16 (.reset {} 0) 0xe001 = .cLui := by decide
  refine ⟨by decide, hlui, fun h => ?_⟩
  obtain ⟨i, hi, hti⟩ := h (.reset {} 0) (by decide) (by decide)
  have hrvc : Iclass.rvc .cLui = some i := by rw [← hlui]; exact hi
  have hbnez : Rvc.table 0xe001 = some .bnez := by decide
  rw [hti] at hbnez
  cases hrvc
  cases hbnez

end Dimebox
