import Dimebox.Lib.Decimal
import Dimebox.JumpManual
import Dimebox.Listing
import Dimebox.LoadStore

/-! The text of an instruction (`Disassembly`, `Display`).

    The text is the name of the class and the operands its encoding type prints. It tells every
    32-bit instruction from every other, but for a few bits that it leaves out: bit 31 of a JAL, rs1
    of a CSRRS and rd of the returns. The texts of the compressed formats CS and CB use rd, which
    their `Decode` does not set. -/

namespace Dimebox

/-! ### Names -/

/-- The table of `RegAlias`, up to its null pointer. -/
def regAliases : List String :=
  ["x0", "ra", "sp", "gp", "tp", "t0", "t1", "t2", "s0", "s1",
    "a0", "a1", "a2", "a3", "a4", "a5", "a6", "a7",
    "s2", "s3", "s4", "s5", "s6", "s7", "s8", "s9", "s10", "s11",
    "t3", "t4", "t5", "t6"]

/-- `RegAlias`, printed with `%s`. -/
def regAlias (regIndex : U32) : Except Fault (List Char) :=
  match regAliases[regIndex.toNat]? with
  | some name => .ok name.toList
  | none => .error .undefined

/-- The names of `CSR_NAME`. -/
def csrNames : List (Nat × String) :=
  [(0x000, "ustatus"), (0x001, "fflags"), (0x002, "frm"), (0x003, "fcsr"), (0x180, "satp"),
    (0x300, "mstatus"), (0x301, "misa"), (0x302, "medeleg"), (0x303, "mideleg"), (0x304, "mie"),
    (0x305, "mtvec"), (0x306, "mcounteren"), (0x310, "mstatush"), (0x340, "mscratch"),
    (0x341, "mepc"), (0x342, "mcause"), (0x343, "mtval"), (0x344, "mip"), (0x34a, "mtinst"),
    (0x3a0, "pmpcfg0"), (0x3b0, "pmpaddr0"), (0xb00, "mycycle"), (0xb02, "mtinstret"),
    (0xb80, "mycycleh"), (0xb82, "mtinstreth"), (0xc00, "rdcycle"), (0xc01, "rdtime"),
    (0xc02, "rdinstret"), (0xc80, "rdcycleh"), (0xc81, "rdtimeh"), (0xc82, "rdinstreth"),
    (0xf14, "mhartid")]

/-- `CSR_NAME`. -/
def csrName (csr : U32) : List Char :=
  match csrNames.find? (·.1 = csr.toNat) with
  | some (_, rname) => rname.toList
  | none => "<0x".toList ++ Text.hexPadded 3 csr.toNat ++ ['>']

namespace Iclass

/-- `InstrName`. -/
def instrName : Iclass → String
  | .lui => "lui" | .auipc => "auipc" | .jal => "jal" | .jalr => "jalr"
  | .beq => "beq" | .bne => "bne" | .blt => "blt" | .bge => "bge" | .bltu => "bltu"
  | .bgeu => "bgeu"
  | .lb => "lb" | .lh => "lh" | .lw => "lw" | .lbu => "lbu" | .lhu => "lhu"
  | .sb => "sb" | .sh => "sh" | .sw => "sw"
  | .addi => "addi" | .slti => "slti" | .sltiu => "sltiu" | .xori => "xori" | .ori => "ori"
  | .andi => "andi" | .slli => "slli" | .srli => "srli" | .srai => "srai"
  | .add => "add" | .sub => "sub" | .sll => "sll" | .slt => "slt" | .sltu => "sltu"
  | .xor => "xor" | .srl => "srl" | .sra => "sra" | .or => "or" | .and => "and"
  | .mul => "mul" | .mulh => "mulh" | .mulhsu => "mulhsu" | .mulhu => "mulhu"
  | .div => "div" | .divu => "divu" | .rem => "rem" | .remu => "remu"
  | .ecall => "ecall" | .ebreak => "ebreak" | .uret => "uret" | .sret => "sret" | .hret => "hret"
  | .mret => "mret" | .wfi => "wfi" | .sfence => "sfence" | .fence => "fence"
  | .fenceI => "fence.i"
  | .csrrw => "csrrw" | .csrrs => "csrrs" | .csrrc => "csrrc"
  | .csrrwi => "csrrwi" | .csrrsi => "csrrsi" | .csrrci => "csrrci"
  | .cAddi4spn => "c.addi4spn" | .cLw => "c.lw" | .cSw => "c.sw" | .cAddi => "c.addi"
  | .cJal => "c.jal" | .cLi => "c.li" | .cAddi16sp => "c.addi16sp" | .cLui => "c.lui"
  | .cAndi => "c.andi" | .cSub => "c.sub" | .cXor => "c.xor" | .cOr => "c.or" | .cAnd => "c.and"
  | .cJ => "c.j" | .cBeqz => "c.beqz" | .cNop => "c.nop"
  | .unknownInstruction => "?"

/-- The first field of a text: `InstrName`, or the question marks of an unknown instruction. -/
def mnemonic (c : Iclass) : List Char :=
  match c with
  | .unknownInstruction => "???".toList
  | c => c.instrName.toList

/-- What the constructor of a class tells `ItypeInstruction::Disassembly`. -/
inductive Flag where
  | loadStore | unsignedSignExtension | shift | csrs | csrr | csri | trap
  deriving DecidableEq

def flag : Iclass → Option Flag
  | .lb | .lh | .lw | .lbu | .lhu => some .loadStore
  | .sltiu => some .unsignedSignExtension
  | .slli | .srli | .srai => some .shift
  | .csrrs => some .csrs
  | .csrrw | .csrrc => some .csrr
  | .csrrwi | .csrrsi | .csrrci => some .csri
  | .uret | .sret | .hret | .mret | .wfi | .sfence => some .trap
  | _ => none

/-- The width that `Decode` of a class extends the immediate from; the texts of the other classes do
    not use an extended immediate. -/
def immWidth : Iclass → Nat
  | .jal => 20
  | .beq | .bne | .blt | .bge | .bltu | .bgeu => 13
  | _ => 12

end Iclass

/-! ### `Disassembly` -/

namespace RiscvInstruction

/-- `instr_pc`, which the constructor also added the size to. -/
def instrPc (i : RiscvInstruction) : U32 := i.nextPc - i.iclass.instrSize

/-- `IMM_SIGN_EXTENDED()` and `UNSIGNED_IMM_SIGN_EXTENDED()`, cut to 32 bits. -/
def immSignExtended (i : RiscvInstruction) : U32 :=
  (signExtend (i.imm.setWidth 64) i.iclass.immWidth).setWidth 32

/-- `%s rd,%d(rs1)`. -/
def loadStoreText (name : List Char) (r : U32) (offset : Int) (rs1 : U32) :
    Except Fault (List Char) := do
  return name ++ ' ' :: (← regAlias r) ++ ',' :: Text.signed offset ++ '(' :: (← regAlias rs1) ++ [')']

/-- `Disassembly`, after `Decode`. -/
def disassembly (i : RiscvInstruction) : Except Fault (List Char) := do
  let name := i.iclass.instrName.toList
  match i.iclass.format with
  | .r =>
    return name ++ ' ' :: (← regAlias i.rd) ++ ',' :: (← regAlias i.rs1) ++ ',' ::
      (← regAlias i.rs2)
  | .i =>
    match i.iclass.flag with
    | some .loadStore => loadStoreText name i.rd i.immSignExtended.toInt i.rs1
    | some .unsignedSignExtension =>
      return name ++ ' ' :: (← regAlias i.rd) ++ ',' :: (← regAlias i.rs1) ++ ',' ::
        Text.unsigned i.immSignExtended.toNat
    | some .shift =>
      return name ++ ' ' :: (← regAlias i.rd) ++ ',' :: (← regAlias i.rs1) ++ ',' ::
        Text.unsigned (i.imm &&& 0x1f).toNat
    | some .csrs => return name ++ ' ' :: (← regAlias i.rd) ++ ',' :: csrName i.imm
    | some .csrr =>
      return name ++ ' ' :: (← regAlias i.rd) ++ ',' :: csrName i.imm ++ ',' :: (← regAlias i.rs1)
    | some .csri =>
      return name ++ ' ' :: (← regAlias i.rd) ++ ',' :: csrName i.imm ++ ',' ::
        Text.signed i.rs1.toInt
    | some .trap => return name
    | none =>
      return name ++ ' ' :: (← regAlias i.rd) ++ ',' :: (← regAlias i.rs1) ++ ',' ::
        Text.signed i.immSignExtended.toInt
  | .s => loadStoreText name i.rs2 i.immSignExtended.toInt i.rs1
  | .b =>
    return name ++ ' ' :: (← regAlias i.rs2) ++ ',' :: (← regAlias i.rs1) ++ ',' ::
      Text.signed i.immSignExtended.toInt
  | .u => return name ++ ' ' :: (← regAlias i.rd) ++ ",0x".toList ++ Text.hexPadded 1 i.imm.toNat
  | .j =>
    return name ++ ' ' :: (← regAlias i.rd) ++ ",0x".toList ++
      Text.hexPadded 1 (i.instrPc + i.immSignExtended).toNat
  | .ci | .ciw =>
    return name ++ ' ' :: (← regAlias i.rd) ++ ",0x".toList ++ Text.hexPadded 1 i.imm.toNat
  | .cl | .cs | .cb => loadStoreText name i.rd i.imm.toInt i.rs1
  | .cj => return name ++ " 0x".toList ++ Text.hexPadded 1 i.imm.toNat
  | .unknown => return "???".toList

/-- The line that `Display` prints. -/
def display (i : RiscvInstruction) : Except Fault (List Char) := do
  return "0x".toList ++ Text.hexPadded 8 i.instrPc.toNat ++ " 0x".toList ++
    Text.hexPadded (if i.iclass.instrSize = 2 then 4 else 8) i.encoding.toNat ++ ' ' ::
    (← i.disassembly)

end RiscvInstruction

/-! ### Registers and control registers -/

/-- The name of register `n`. -/
def aliasText (n : Nat) : List Char := (regAliases[n]?.getD "").toList

theorem regAlias_of_lt {r : U32} (h : r.toNat < 32) : regAlias r = .ok (aliasText r.toNat) := by
  rw [regAlias, aliasText, List.getElem?_eq_getElem (show r.toNat < regAliases.length from h)]
  rfl

theorem aliasText_inj : ∀ m < 32, ∀ n < 32, aliasText m = aliasText n → m = n := by
  decide +kernel

/-- The characters that end a field of a text. -/
def separators : List Char := [' ', ',', '(', ')']

theorem plain_aliasText {n : Nat} (h : n < 32) : Text.Plain separators (aliasText n) := by
  have hall : ∀ n < 32, Text.Plain separators (aliasText n) := by decide +kernel
  exact hall n h

theorem csrNames_inj : ∀ p ∈ csrNames, ∀ q ∈ csrNames, p.2.toList = q.2.toList → p = q := by
  decide +kernel

theorem csrNames_separate : ∀ p ∈ csrNames, Text.Plain ('<' :: separators) p.2.toList := by
  decide +kernel

theorem hexPadded_inj (k : Nat) {m n : Nat} (hm : m < 2 ^ 64) (hn : n < 2 ^ 64)
    (h : Text.hexPadded (k + 1) m = Text.hexPadded (k + 1) n) : m = n := by
  have hleft := (Text.spells_hexPadded k hm).number
  rw [h, (Text.spells_hexPadded k hn).number] at hleft
  exact hleft.symm

/-- A name of the table, or the number in brackets. -/
theorem csrName_cases (csr : U32) :
    (∃ p ∈ csrNames, p.1 = csr.toNat ∧ csrName csr = p.2.toList) ∨
      csrName csr = '<' :: ("0x".toList ++ Text.hexPadded 3 csr.toNat ++ ['>']) := by
  unfold csrName
  split
  · next n rname hfind =>
    exact .inl ⟨(n, rname), List.mem_of_find?_eq_some hfind, by simpa using List.find?_some hfind, rfl⟩
  · exact .inr rfl

theorem csrName_inj {a b : U32} (h : csrName a = csrName b) : a = b := by
  have hlt : ∀ p ∈ csrNames, ∀ rest, p.2.toList ≠ '<' :: rest := by
    intro p hp rest heq
    refine csrNames_separate p hp '<' ?_ List.mem_cons_self
    rw [heq]
    exact List.mem_cons_self
  apply BitVec.eq_of_toNat_eq
  rcases csrName_cases a with ⟨p, hp, hpa, ha⟩ | ha <;>
    rcases csrName_cases b with ⟨q, hq, hqb, hb⟩ | hb <;> rw [ha, hb] at h
  · rw [← hpa, ← hqb, csrNames_inj p hp q hq h]
  · exact absurd h (hlt p hp _)
  · exact absurd h.symm (hlt q hq _)
  · have hdigits := List.append_cancel_left (List.append_cancel_right (List.cons.inj h).2)
    exact hexPadded_inj 2 (by omega) (by omega) hdigits

theorem plain_hexPadded (k n : Nat) : Text.Plain separators (Text.hexPadded k n) := by
  intro c hc
  obtain ⟨d, hd, rfl⟩ := Text.mem_hexPadded hc
  have hall : ∀ d < 16, Text.hexDigit d ∉ separators := by decide
  exact hall d hd

theorem plain_csrName (a : U32) : Text.Plain separators (csrName a) := by
  intro c hc
  rcases csrName_cases a with ⟨p, hp, -, ha⟩ | ha <;> rw [ha] at hc
  · exact fun hmem => csrNames_separate p hp c hc (List.mem_cons_of_mem _ hmem)
  · have hplain : Text.Plain separators ['<', '0', 'x', '>'] := by decide
    simp only [List.mem_cons, List.mem_append, List.not_mem_nil, or_false] at hc
    rcases hc with rfl | (hc | hc) | rfl
    · exact hplain _ (by decide)
    · exact hplain c (List.mem_cons_of_mem _ (List.mem_append_left ['>'] hc))
    · exact plain_hexPadded _ _ c hc
    · exact hplain _ (by decide)

theorem plain_signed (z : Int) : Text.Plain separators (Text.signed z) := by
  intro c hc hmem
  simp only [separators, List.mem_cons, List.not_mem_nil, or_false] at hmem
  rcases hmem with rfl | rfl | rfl | rfl <;>
    exact Text.not_mem_signed (by decide) (by decide) z hc

theorem plain_unsigned (n : Nat) : Text.Plain separators (Text.unsigned n) := by
  intro c hc hmem
  simp only [separators, List.mem_cons, List.not_mem_nil, or_false] at hmem
  rcases hmem with rfl | rfl | rfl | rfl <;> exact Text.not_mem_unsigned (by decide) n hc

/-! ### Bits -/

/-- `w` and `w'` have the same bits `lo + len - 1 .. lo`. -/
def AgreeOn (w w' : U32) (lo len : Nat) : Prop :=
  ∀ j, lo ≤ j → j < lo + len → w.getLsbD j = w'.getLsbD j

theorem agree_of_extract {w w' : U32} {lo len : Nat}
    (h : w.extractLsb' lo len = w'.extractLsb' lo len) : AgreeOn w w' lo len := by
  intro j hlo hhi
  have hbit := congrArg (fun v : BitVec len => v.getLsbD (j - lo)) h
  simpa [BitVec.getLsbD_extractLsb', show j - lo < len by omega, Nat.add_sub_cancel' hlo] using hbit

theorem AgreeOn.extract {w w' : U32} {lo len : Nat} (h : AgreeOn w w' lo len) :
    w.extractLsb' lo len = w'.extractLsb' lo len := by
  apply BitVec.eq_of_getLsbD_eq
  intro j hj
  rw [BitVec.getLsbD_extractLsb', BitVec.getLsbD_extractLsb', h (lo + j) (by omega) (by omega)]

/-- Fields that are equal as numbers. -/
theorem agree_of_field {w w' : U32} {lo len : Nat} (hlen : len ≤ 32)
    (h : (field w lo (2 ^ len - 1)).toNat = (field w' lo (2 ^ len - 1)).toNat) :
    AgreeOn w w' lo len := by
  refine agree_of_extract (BitVec.eq_of_toNat_eq ?_)
  rw [← field_toNat w lo len hlen, ← field_toNat w' lo len hlen]
  exact h

/-- Words agree up to the bits of a mask if they agree on ranges that leave out no other. -/
theorem masked_of_agree {w w' u : U32} (ranges : List (Nat × Nat))
    (hcover : ∀ j < 32, u.getLsbD j = true ∨ ∃ r ∈ ranges, r.1 ≤ j ∧ j < r.1 + r.2)
    (h : ∀ r ∈ ranges, AgreeOn w w' r.1 r.2) : w &&& ~~~u = w' &&& ~~~u := by
  apply BitVec.eq_of_getLsbD_eq
  intro j hj
  rw [BitVec.getLsbD_and, BitVec.getLsbD_and, BitVec.getLsbD_not]
  rcases hcover j hj with hu | ⟨r, hr, hlo, hhi⟩
  · simp [hu]
  · rw [h r hr j hlo hhi]

theorem agree_of_masked {w w' u : U32} {lo len : Nat} (h : w &&& ~~~u = w' &&& ~~~u)
    (hlen : lo + len ≤ 32) (hclear : ∀ j < len, u.getLsbD (lo + j) = false) : AgreeOn w w' lo len := by
  intro j hlo hhi
  have hbit : (w &&& ~~~u).getLsbD j = (w' &&& ~~~u).getLsbD j := by rw [h]
  have hu := hclear (j - lo) (by omega)
  have hj : j < 32 := by omega
  rw [Nat.add_sub_cancel' hlo] at hu
  rw [BitVec.getLsbD_and, BitVec.getLsbD_and, BitVec.getLsbD_not, hu, decide_eq_true hj] at hbit
  simpa only [Bool.not_false, Bool.and_true] using hbit

theorem signExtend_inj {n : Nat} (hn : n ≤ 32) {x y : BitVec n}
    (h : x.signExtend 32 = y.signExtend 32) : x = y := by
  apply BitVec.eq_of_getLsbD_eq
  intro j hj
  have hbit : (x.signExtend 32).getLsbD j = (y.signExtend 32).getLsbD j := by rw [h]
  have hj' : j < 32 := by omega
  rw [BitVec.getLsbD_signExtend, BitVec.getLsbD_signExtend, if_pos hj, if_pos hj,
    decide_eq_true hj'] at hbit
  simpa only [Bool.true_and] using hbit

/-! ### What a text consists of -/

/-- The operands in the text of a 32-bit instruction of class `c`, each after its separator. -/
def operands (c : Iclass) (pc w : U32) : List (Char × List Char) :=
  let rd := aliasText (field w 7 0x1f).toNat
  let rs1 := aliasText (field w 15 0x1f).toNat
  let rs2 := aliasText (field w 20 0x1f).toNat
  let csr := csrName (field w 20 0xfff)
  match c.format with
  | .r => [(' ', rd), (',', rs1), (',', rs2)]
  | .i =>
    match c.flag with
    | some .loadStore => [(' ', rd), (',', Text.signed (Manual.immI w).toInt), ('(', rs1), (')', [])]
    | some .unsignedSignExtension =>
      [(' ', rd), (',', rs1), (',', Text.unsigned (Manual.immI w).toNat)]
    | some .shift => [(' ', rd), (',', rs1), (',', Text.unsigned (Manual.shamt w))]
    | some .csrs => [(' ', rd), (',', csr)]
    | some .csrr => [(' ', rd), (',', csr), (',', rs1)]
    | some .csri => [(' ', rd), (',', csr), (',', Text.signed (field w 15 0x1f).toInt)]
    | some .trap => []
    | none => [(' ', rd), (',', rs1), (',', Text.signed (Manual.immI w).toInt)]
  | .s => [(' ', rs2), (',', Text.signed (Manual.immS w).toInt), ('(', rs1), (')', [])]
  | .b => [(' ', rs2), (',', rs1), (',', Text.signed ((Manual.immB w).signExtend 32).toInt)]
  | .u => [(' ', rd), (',', '0' :: 'x' :: Text.hexPadded 1 (Manual.immU w).toNat)]
  | .j =>
    [(' ', rd), (',', '0' :: 'x' ::
      Text.hexPadded 1 (pc + ((Manual.immJ w).setWidth 20).signExtend 32).toNat)]
  | _ => []

theorem regField_lt (w : U32) (lo : Nat) : (field w lo 0x1f).toNat < 32 := by
  have h : (field w lo 0x1f).toNat = (w.extractLsb' lo 5).toNat := field_toNat w lo 5 (by decide)
  rw [h]
  exact (w.extractLsb' lo 5).isLt

theorem Iclass.mnemonic_of_ne {c : Iclass} (hc : c ≠ .unknownInstruction) :
    c.mnemonic = c.instrName.toList := by
  cases c <;> first | rfl | exact absurd rfl hc

theorem Iclass.immWidth_eq (c : Iclass) :
    c.immWidth = match c.format with | .b => 13 | .j => 20 | _ => 12 := by
  cases c <;> rfl

/-- The text is the name and the operands. -/
theorem disassembly_decoded (junk : Junk) {c : Iclass} (s : RiscvState) (m : Memory) (w : U32)
    (hsize : c.instrSize = 4) :
    (RiscvInstruction.new junk c s m w).decode.disassembly
      = .ok (c.mnemonic ++ Text.parts (operands c (s.pc.setWidth 32) w)) := by
  by_cases hc : c = .unknownInstruction
  · subst hc
    rfl
  rw [Iclass.mnemonic_of_ne hc]
  have hreg : ∀ lo, regAlias (field w lo 0x1f) = .ok (aliasText (field w lo 0x1f).toNat) :=
    fun lo => regAlias_of_lt (regField_lt w lo)
  have hwidth := c.immWidth_eq
  cases hf : c.format with
  | r =>
    simp only [RiscvInstruction.disassembly, RiscvInstruction.decode, RiscvInstruction.new_iclass,
      RiscvInstruction.new_encoding, hf, operands, hreg]
    exact congrArg Except.ok (by simp [Text.parts])
  | i =>
    rw [hf] at hwidth
    have himm := immI_eq w
    have hshamt := shamt_eq w
    simp only [RiscvInstruction.disassembly, RiscvInstruction.decode, RiscvInstruction.new_iclass,
      RiscvInstruction.new_encoding, RiscvInstruction.immSignExtended,
      RiscvInstruction.loadStoreText, hf, hwidth, operands, hreg, himm, hshamt]
    cases c.flag with
    | none => exact congrArg Except.ok (by simp [Text.parts])
    | some flag =>
      cases flag
      all_goals exact congrArg Except.ok (by simp [Text.parts])
  | s =>
    rw [hf] at hwidth
    have himm := immS_eq w
    simp only [RiscvInstruction.disassembly, RiscvInstruction.decode, RiscvInstruction.new_iclass,
      RiscvInstruction.new_encoding, RiscvInstruction.immSignExtended,
      RiscvInstruction.loadStoreText, hf, hwidth, operands, hreg, himm]
    exact congrArg Except.ok (by simp [Text.parts])
  | b =>
    rw [hf] at hwidth
    have himm := extendImm_eq (by decide) (by decide) (decode_immB w)
    simp only [RiscvInstruction.disassembly, RiscvInstruction.decode, RiscvInstruction.new_iclass,
      RiscvInstruction.new_encoding, RiscvInstruction.immSignExtended, hf, hwidth, operands, hreg,
      himm]
    exact congrArg Except.ok (by simp [Text.parts])
  | u =>
    have himm := immU_eq w
    simp only [RiscvInstruction.disassembly, RiscvInstruction.decode, RiscvInstruction.new_iclass,
      RiscvInstruction.new_encoding, hf, operands, hreg, himm]
    exact congrArg Except.ok (by simp [Text.parts])
  | j =>
    rw [hf] at hwidth
    have himm := extendImm_eq (by decide) (by decide) (decode_immJ w)
    have hpc : (RiscvInstruction.new junk c s m w).nextPc - c.instrSize = s.pc.setWidth 32 :=
      BitVec.add_sub_cancel _ _
    simp only [RiscvInstruction.disassembly, RiscvInstruction.decode, RiscvInstruction.new_iclass,
      RiscvInstruction.new_encoding, RiscvInstruction.immSignExtended, RiscvInstruction.instrPc, hf,
      hwidth, operands, hreg, himm, hpc]
    exact congrArg Except.ok (by simp [Text.parts])
  | unknown => exact absurd (by revert hf; cases c <;> decide) hc
  | ci | ciw | cl | cs | cb | cj =>
    rw [Iclass.instrSize, hf] at hsize
    exact absurd hsize (by decide)

/-! ### The name -/

/-- The classes a text can name. -/
def namedClasses : List Iclass :=
  [.lui, .auipc, .jal, .jalr, .beq, .bne, .blt, .bge, .bltu, .bgeu,
    .lb, .lh, .lw, .lbu, .lhu, .sb, .sh, .sw,
    .addi, .slti, .sltiu, .xori, .ori, .andi, .slli, .srli, .srai,
    .add, .sub, .sll, .slt, .sltu, .xor, .srl, .sra, .or, .and,
    .mul, .mulh, .mulhsu, .mulhu, .div, .divu, .rem, .remu,
    .ecall, .ebreak, .uret, .sret, .hret, .mret, .wfi, .sfence, .fence, .fenceI,
    .csrrw, .csrrs, .csrrc, .csrrwi, .csrrsi, .csrrci,
    .cAddi4spn, .cLw, .cSw, .cAddi, .cJal, .cLi, .cAddi16sp, .cLui, .cAndi, .cSub, .cXor, .cOr,
    .cAnd, .cJ, .cBeqz, .cNop, .unknownInstruction]

theorem mem_namedClasses (c : Iclass) : c ∈ namedClasses := by cases c <;> decide

theorem mnemonic_inj {c c' : Iclass} (h : c.mnemonic = c'.mnemonic) : c = c' := by
  have hall : ∀ c ∈ namedClasses, ∀ c' ∈ namedClasses, c.mnemonic = c'.mnemonic → c = c' := by
    decide +kernel
  exact hall c (mem_namedClasses c) c' (mem_namedClasses c') h

theorem plain_mnemonic (c : Iclass) : Text.Plain separators c.mnemonic := by
  have hall : ∀ c ∈ namedClasses, Text.Plain separators c.mnemonic := by decide +kernel
  exact hall c (mem_namedClasses c)

theorem operands_separated (c : Iclass) (pc w : U32) :
    Text.Separated separators (operands c pc w) := by
  have hreg : ∀ lo, Text.Plain separators (aliasText (field w lo 0x1f).toNat) :=
    fun lo => plain_aliasText (regField_lt w lo)
  have hhex : ∀ n, Text.Plain separators ('0' :: 'x' :: Text.hexPadded 1 n) := by
    intro n d hd
    have hplain : '0' ∉ separators ∧ 'x' ∉ separators := by decide
    rcases List.mem_cons.mp hd with rfl | hd
    · exact hplain.1
    rcases List.mem_cons.mp hd with rfl | hd
    · exact hplain.2
    · exact plain_hexPadded 1 n d hd
  have hnil : Text.Plain separators [] := by
    intro d hd
    cases hd
  have hsep : ' ' ∈ separators ∧ ',' ∈ separators ∧ '(' ∈ separators ∧ ')' ∈ separators := by decide
  unfold operands
  dsimp only
  split
  on_goal 2 => split
  all_goals
    simp [Text.Separated, hreg, hhex, hnil, hsep, plain_csrName, plain_signed, plain_unsigned]

/-! ### The operands -/

theorem alias_iff (w w' : U32) (lo : Nat) :
    aliasText (field w lo 0x1f).toNat = aliasText (field w' lo 0x1f).toNat ↔ AgreeOn w w' lo 5 := by
  constructor
  · intro h
    exact agree_of_field (by decide) (aliasText_inj _ (regField_lt w lo) _ (regField_lt w' lo) h)
  · intro h
    have hw : (field w lo 0x1f).toNat = (w.extractLsb' lo 5).toNat := field_toNat w lo 5 (by decide)
    have hw' : (field w' lo 0x1f).toNat = (w'.extractLsb' lo 5).toNat :=
      field_toNat w' lo 5 (by decide)
    rw [hw, hw', h.extract]

theorem csr_iff (w w' : U32) :
    csrName (field w 20 0xfff) = csrName (field w' 20 0xfff) ↔ AgreeOn w w' 20 12 := by
  have hw : (field w 20 0xfff).toNat = (w.extractLsb' 20 12).toNat := field_toNat w 20 12 (by decide)
  have hw' : (field w' 20 0xfff).toNat = (w'.extractLsb' 20 12).toNat :=
    field_toNat w' 20 12 (by decide)
  constructor
  · intro h
    exact agree_of_field (by decide) (congrArg BitVec.toNat (csrName_inj h))
  · intro h
    rw [BitVec.eq_of_toNat_eq (show (field w 20 0xfff).toNat = (field w' 20 0xfff).toNat by
      rw [hw, hw', h.extract])]

/-- The texts of two sign-extended numbers. -/
theorem signed_signExtend_iff {n : Nat} (hn : n ≤ 32) (x y : BitVec n) :
    Text.signed (x.signExtend 32).toInt = Text.signed (y.signExtend 32).toInt ↔ x = y := by
  constructor
  · intro h
    exact signExtend_inj hn (BitVec.eq_of_toInt_eq (Text.signed_inj h))
  · rintro rfl
    rfl

theorem extract_iff (w w' : U32) (lo len : Nat) :
    w.extractLsb' lo len = w'.extractLsb' lo len ↔ AgreeOn w w' lo len :=
  ⟨agree_of_extract, AgreeOn.extract⟩

theorem append_iff {m n : Nat} (x x' : BitVec m) (y y' : BitVec n) :
    x ++ y = x' ++ y' ↔ x = x' ∧ y = y' := by
  constructor
  · intro h
    have hlow := congrArg (BitVec.setWidth n) h
    rw [BitVec.setWidth_append_eq_right, BitVec.setWidth_append_eq_right] at hlow
    subst hlow
    exact ⟨(BitVec.append_left_inj _).mp h, rfl⟩
  · rintro ⟨rfl, rfl⟩
    rfl

theorem immI_iff (w w' : U32) :
    Text.signed (Manual.immI w).toInt = Text.signed (Manual.immI w').toInt ↔ AgreeOn w w' 20 12 := by
  rw [Manual.immI, Manual.immI, signed_signExtend_iff (by decide), extract_iff]

theorem unsigned_immI_iff (w w' : U32) :
    Text.unsigned (Manual.immI w).toNat = Text.unsigned (Manual.immI w').toNat
      ↔ AgreeOn w w' 20 12 := by
  rw [← extract_iff]
  constructor
  · intro h
    exact signExtend_inj (by decide) (BitVec.eq_of_toNat_eq (Text.unsigned_inj h))
  · intro h
    rw [Manual.immI, Manual.immI, h]

theorem shamt_iff (w w' : U32) :
    Text.unsigned (Manual.shamt w) = Text.unsigned (Manual.shamt w') ↔ AgreeOn w w' 20 5 := by
  rw [← extract_iff]
  constructor
  · intro h
    exact BitVec.eq_of_toNat_eq (Text.unsigned_inj h)
  · intro h
    rw [Manual.shamt, Manual.shamt, h]

/-- The immediate of the CSR instructions is in the place of rs1. -/
theorem uimm_iff (w w' : U32) :
    Text.signed (field w 15 0x1f).toInt = Text.signed (field w' 15 0x1f).toInt
      ↔ AgreeOn w w' 15 5 := by
  constructor
  · intro h
    have heq : field w 15 0x1f = field w' 15 0x1f := BitVec.eq_of_toInt_eq (Text.signed_inj h)
    exact agree_of_field (by decide) (congrArg BitVec.toNat heq)
  · intro h
    have heq : (field w 15 0x1f).toNat = (field w' 15 0x1f).toNat := by
      have hw : (field w 15 0x1f).toNat = (w.extractLsb' 15 5).toNat := field_toNat w 15 5 (by decide)
      have hw' : (field w' 15 0x1f).toNat = (w'.extractLsb' 15 5).toNat :=
        field_toNat w' 15 5 (by decide)
      rw [hw, hw', h.extract]
    rw [BitVec.eq_of_toNat_eq heq]

theorem immS_iff (w w' : U32) :
    Text.signed (Manual.immS w).toInt = Text.signed (Manual.immS w').toInt
      ↔ AgreeOn w w' 25 7 ∧ AgreeOn w w' 7 5 := by
  rw [Manual.immS, Manual.immS, signed_signExtend_iff (by decide), append_iff, extract_iff,
    extract_iff]

theorem immB_iff (w w' : U32) :
    Text.signed ((Manual.immB w).signExtend 32).toInt
        = Text.signed ((Manual.immB w').signExtend 32).toInt
      ↔ AgreeOn w w' 31 1 ∧ AgreeOn w w' 7 1 ∧ AgreeOn w w' 25 6 ∧ AgreeOn w w' 8 4 := by
  rw [signed_signExtend_iff (by decide)]
  refine (append_iff _ _ _ _).trans ?_
  simp only [append_iff, extract_iff, and_true, and_assoc]

theorem immU_iff (w w' : U32) :
    Text.hexPadded 1 (Manual.immU w).toNat = Text.hexPadded 1 (Manual.immU w').toNat
      ↔ AgreeOn w w' 12 20 := by
  rw [← extract_iff]
  constructor
  · intro h
    have himm : Manual.immU w = Manual.immU w' :=
      BitVec.eq_of_toNat_eq (hexPadded_inj 0 (by omega) (by omega) h)
    exact ((append_iff _ _ _ _).mp himm).1
  · intro h
    rw [Manual.immU, Manual.immU, h]

/-- The target of a JAL leaves out bit 20 of the immediate, which is bit 31. -/
theorem target_iff (pc w w' : U32) :
    Text.hexPadded 1 (pc + ((Manual.immJ w).setWidth 20).signExtend 32).toNat
        = Text.hexPadded 1 (pc + ((Manual.immJ w').setWidth 20).signExtend 32).toNat
      ↔ AgreeOn w w' 12 8 ∧ AgreeOn w w' 20 1 ∧ AgreeOn w w' 21 10 := by
  have hlow : ∀ v : U32, (Manual.immJ v).setWidth 20
      = v.extractLsb' 12 8 ++ v.extractLsb' 20 1 ++ v.extractLsb' 21 10 ++ 0#1 := by
    intro v
    apply BitVec.eq_of_getLsbD_eq
    intro j hj
    rw [BitVec.getLsbD_setWidth, decide_eq_true hj, Bool.true_and]
    change (v.extractLsb' 31 1 ++ v.extractLsb' 12 8 ++ v.extractLsb' 20 1 ++ v.extractLsb' 21 10 ++
      0#1).getLsbD j = (v.extractLsb' 12 8 ++ v.extractLsb' 20 1 ++ v.extractLsb' 21 10 ++
      0#1).getLsbD j
    simp only [BitVec.getLsbD_append, show j - 1 - 10 - 1 < 8 by omega, if_true]
  have hfields : (Manual.immJ w).setWidth 20 = (Manual.immJ w').setWidth 20
      ↔ AgreeOn w w' 12 8 ∧ AgreeOn w w' 20 1 ∧ AgreeOn w w' 21 10 := by
    rw [hlow, hlow]
    refine (append_iff _ _ _ _).trans ?_
    simp only [append_iff, extract_iff, and_true, and_assoc]
  rw [← hfields]
  constructor
  · intro h
    have hsum := BitVec.eq_of_toNat_eq (hexPadded_inj 0 (by omega) (by omega) h)
    exact signExtend_inj (by decide) ((BitVec.add_right_inj _).mp hsum)
  · intro h
    rw [h]

/-- The bits that the operands show. -/
def printedRanges (c : Iclass) : List (Nat × Nat) :=
  match c.format with
  | .r => [(7, 5), (15, 5), (20, 5)]
  | .i =>
    match c.flag with
    | some .shift => [(7, 5), (15, 5), (20, 5)]
    | some .csrs => [(7, 5), (20, 12)]
    | some .loadStore | some .csrr | some .csri => [(7, 5), (20, 12), (15, 5)]
    | some .trap => []
    | _ => [(7, 5), (15, 5), (20, 12)]
  | .s => [(20, 5), (25, 7), (7, 5), (15, 5)]
  | .b => [(20, 5), (15, 5), (31, 1), (7, 1), (25, 6), (8, 4)]
  | .u => [(7, 5), (12, 20)]
  | .j => [(7, 5), (12, 8), (20, 1), (21, 10)]
  | _ => []

theorem operands_eq_iff (c : Iclass) (pc w w' : U32) :
    operands c pc w = operands c pc w' ↔ ∀ r ∈ printedRanges c, AgreeOn w w' r.1 r.2 := by
  cases hf : c.format
  case i =>
    cases hflag : c.flag with
    | none => simp [operands, printedRanges, hf, hflag, alias_iff, immI_iff]
    | some flag =>
      cases flag
      all_goals
        simp [operands, printedRanges, hf, hflag, alias_iff, csr_iff, immI_iff, unsigned_immI_iff,
          shamt_iff, uimm_iff]
  all_goals
    simp [operands, printedRanges, hf, alias_iff, immS_iff, immB_iff, immU_iff, target_iff,
      and_assoc, -BitVec.toNat_add]

/-! ### What the class fixes -/

/-- The bits that `FixedBits` is about. -/
def FixedBits.ranges : FixedBits → List (Nat × Nat)
  | .opcode _ => [(0, 7)]
  | .funct3 _ _ => [(0, 7), (12, 3)]
  | .funct7 _ _ _ => [(0, 7), (12, 3), (25, 7)]
  | .fence => [(0, 7), (7, 5), (12, 3), (15, 5), (28, 4)]
  | .word _ => [(0, 32)]

theorem FixedBits.agree {w w' : U32} {b : FixedBits} (h : b.Matches w) (h' : b.Matches w') :
    ∀ r ∈ b.ranges, AgreeOn w w' r.1 r.2 := by
  have hfield : ∀ lo len mask, len ≤ 32 → mask = 2 ^ len - 1 →
      (field w lo mask).toNat = (field w' lo mask).toNat → AgreeOn w w' lo len := by
    rintro lo len mask hlen rfl heq
    exact agree_of_field hlen heq
  have hop := hfield 0 7 0x7f (by decide) rfl
  have h3 := hfield 12 3 0x7 (by decide) rfl
  cases b with
  | opcode op => simpa [ranges] using hop (h.trans h'.symm)
  | funct3 op f3 =>
    simpa [ranges] using ⟨hop (h.1.trans h'.1.symm), h3 (h.2.trans h'.2.symm)⟩
  | funct7 op f3 f7 =>
    have h7 := hfield 25 7 0x7f (by decide) rfl
    simpa [ranges] using ⟨hop (h.1.trans h'.1.symm), h3 (h.2.1.trans h'.2.1.symm),
      h7 (h.2.2.trans h'.2.2.symm)⟩
  | fence =>
    obtain ⟨hwop, hwrd, hw3, hwrs1, hwhigh⟩ := h
    obtain ⟨hop', hrd', h3', hrs1', hhigh'⟩ := h'
    have hrd := hfield 7 5 0x1f (by decide) rfl (by rw [hwrd, hrd'])
    have hrs1 := hfield 15 5 0x1f (by decide) rfl (by rw [hwrs1, hrs1'])
    have hhigh := hfield 28 4 0xf (by decide) rfl (by rw [hwhigh, hhigh'])
    simpa [ranges] using ⟨hop (hwop.trans hop'.symm), hrd, h3 (by rw [hw3, h3']), hrs1, hhigh⟩
  | word v =>
    obtain rfl : w = v := h
    obtain rfl : w' = w := h'
    intro r hr j hlo hhi
    rfl

/-- The immediate of a row of the last switch. -/
def returnImm : Iclass → Nat
  | .uret => 0x002
  | .sret => 0x102
  | .hret => 0x202
  | .mret => 0x302
  | .wfi => 0x105
  | _ => 0x104

theorem ReturnWithRd.class {w : U32} (h : ReturnWithRd w) :
    (newInstruction w).flag = some .trap ∧ (field w 20 0xfff).toNat = returnImm (newInstruction w) := by
  have hecall := h.ne (v := 0x73) (by decide)
  have hebreak := h.ne (v := 0x100073) (by decide)
  obtain ⟨hop, h3, hrs1, himm, -⟩ := h
  simp only [newInstruction, hop, newSystem, if_neg hecall, if_neg hebreak, h3, hrs1, and_self,
    if_true]
  simp only [returnImms, List.mem_cons, List.not_mem_nil, or_false] at himm
  rcases himm with h | h | h | h | h | h <;> rw [h] <;> decide

/-- The rows of the last switch fix all but rd. -/
theorem fields_of_trap {w : U32} (h : (newInstruction w).flag = some .trap) :
    (field w 0 0x7f).toNat = 0x73 ∧ (field w 12 0x7).toNat = 0 ∧ (field w 15 0x1f).toNat = 0 ∧
      (field w 20 0xfff).toNat = returnImm (newInstruction w) := by
  by_cases hr : ReturnWithRd w
  · exact ⟨hr.1, congrArg BitVec.toNat hr.2.1, congrArg BitVec.toNat hr.2.2.1, hr.class.2⟩
  · rcases newInstruction_listed hr with ⟨b, hb, hm⟩ | hu | hobs
    · generalize hc : newInstruction w = c at *
      cases c <;> cases hb <;> cases h
      all_goals
        obtain rfl := hm
        decide
    · rw [hu] at h
      cases h
    · simp only [obsoleteWords, List.mem_cons, List.not_mem_nil, or_false] at hobs
      rcases hobs with rfl | rfl | rfl | rfl <;> decide

theorem listed_of_not_trap {w : U32} (h : (newInstruction w).flag ≠ some .trap) :
    (∃ b, (newInstruction w).fixedBits = some b ∧ b.Matches w) ∨
      (newInstruction w).fixedBits = none := by
  rcases newInstruction_listed (fun hr => h hr.class.1) with hb | hu | hobs
  · exact .inl hb
  · rw [hu]
    exact .inr rfl
  · exact .inr (fixedBits_of_obsolete hobs)

/-- The bits that the class fixes. -/
def fixedRanges (c : Iclass) : List (Nat × Nat) :=
  match c.flag with
  | some .trap => [(0, 7), (12, 3), (15, 5), (20, 12)]
  | _ =>
    match c.fixedBits with
    | some b => b.ranges
    | none => []

theorem agree_of_class {w w' : U32} (h : newInstruction w = newInstruction w') :
    ∀ r ∈ fixedRanges (newInstruction w), AgreeOn w w' r.1 r.2 := by
  by_cases htrap : (newInstruction w).flag = some .trap
  · obtain ⟨hop, h3, hrs1, himm⟩ := fields_of_trap htrap
    obtain ⟨hop', h3', hrs1', himm'⟩ := fields_of_trap (w := w') (h ▸ htrap)
    have aop : AgreeOn w w' 0 7 := agree_of_field (by decide) (hop.trans hop'.symm)
    have a3 : AgreeOn w w' 12 3 := agree_of_field (by decide) (h3.trans h3'.symm)
    have ars1 : AgreeOn w w' 15 5 := agree_of_field (by decide) (hrs1.trans hrs1'.symm)
    have aimm : AgreeOn w w' 20 12 :=
      agree_of_field (by decide) (himm.trans (by rw [h]; exact himm'.symm))
    simpa [fixedRanges, htrap] using ⟨aop, a3, ars1, aimm⟩
  · have hfixed : fixedRanges (newInstruction w)
        = match (newInstruction w).fixedBits with | some b => b.ranges | none => [] := by
      unfold fixedRanges
      split
      · next heq => exact absurd heq htrap
      · rfl
    rw [hfixed]
    rcases listed_of_not_trap htrap with ⟨b, hb, hm⟩ | hnone
    · rcases listed_of_not_trap (w := w') (h ▸ htrap) with ⟨b', hb', hm'⟩ | hnone'
      · rw [← h, hb] at hb'
        cases hb'
        rw [hb]
        exact FixedBits.agree hm hm'
      · rw [← h, hb] at hnone'
        cases hnone'
    · rw [hnone]
      intro r hr
      cases hr

/-- The bits that neither the class nor the operands show: bit 31 of a JAL, rs1 of a CSRRS and rd of a
    return; nothing is shown of an unknown instruction. -/
def Iclass.unprinted : Iclass → U32
  | .jal => 0x80000000
  | .csrrs => 0x000f8000
  | .uret | .sret | .hret | .mret | .wfi | .sfence => 0x00000f80
  | .unknownInstruction => 0xffffffff
  | _ => 0

/-- The class and the operands show every other bit. -/
theorem ranges_cover (w : U32) : ∀ j < 32, (newInstruction w).unprinted.getLsbD j = true ∨
    ∃ r ∈ fixedRanges (newInstruction w) ++ printedRanges (newInstruction w),
      r.1 ≤ j ∧ j < r.1 + r.2 := by
  have hsize := instrSize_newInstruction w
  generalize newInstruction w = c at *
  cases c <;> first | exact absurd hsize (by decide) | decide

theorem printedRanges_clear (c : Iclass) :
    ∀ r ∈ printedRanges c, r.1 + r.2 ≤ 32 ∧ ∀ j < r.2, c.unprinted.getLsbD (r.1 + j) = false := by
  cases c <;> decide

section Texts

open RiscvInstruction (new)

/-- Two words, decoded where the program counters agree, have the same text exactly when they are of the
    same class and differ in no bit but the ones their class does not print. -/
theorem disassembly_eq_iff (junk junk' : Junk) (s s' : RiscvState) (m m' : Memory) (w w' : U32)
    (hpc : s.pc.setWidth 32 = (s'.pc.setWidth 32 : U32)) :
    (new junk (newInstruction w) s m w).decode.disassembly
        = (new junk' (newInstruction w') s' m' w').decode.disassembly ↔
      newInstruction w = newInstruction w' ∧
        w &&& ~~~(newInstruction w).unprinted = w' &&& ~~~(newInstruction w).unprinted := by
  rw [disassembly_decoded junk s m w (instrSize_newInstruction w),
    disassembly_decoded junk' s' m' w' (instrSize_newInstruction w'), ← hpc]
  constructor
  · intro h
    obtain ⟨hname, hops⟩ := Text.parts_inj (plain_mnemonic _) (plain_mnemonic _)
      (operands_separated _ _ _) (operands_separated _ _ _) (Except.ok.inj h)
    have hclass := mnemonic_inj hname
    rw [← hclass, operands_eq_iff] at hops
    refine ⟨hclass, masked_of_agree _ (ranges_cover w) fun r hr => ?_⟩
    rcases List.mem_append.mp hr with hr | hr
    · exact agree_of_class hclass r hr
    · exact hops r hr
  · rintro ⟨hclass, hmask⟩
    rw [← hclass, (operands_eq_iff _ _ w w').mpr]
    intro r hr
    obtain ⟨hlen, hclear⟩ := printedRanges_clear _ r hr
    exact agree_of_masked hmask hlen hclear

/-- MRET with rd = x1, at the same address. -/
theorem mret_with_rd_reads_the_same :
    let m : Memory := { physMem := { oracle := { rand := fun _ => 0, heap := fun _ => 0 } } }
    let s : RiscvState := { pc := 0x80000000 }
    (new {} (newInstruction 0x30200073) s m 0x30200073).decode.disassembly
      = (new { rd := 40 } (newInstruction 0x302000f3) { s with clock := 5 } m
          0x302000f3).decode.disassembly := by
  intro m s
  exact (disassembly_eq_iff {} { rd := 40 } s { s with clock := 5 } m m 0x30200073 0x302000f3
    rfl).mpr ⟨by decide, by decide⟩

/-- The compressed formats that set the registers their text names. -/
theorem disassembly_compressed {c : Iclass} (s : RiscvState) (m : Memory) (w : U32)
    (hc : c.format = .ci ∨ c.format = .ciw ∨ c.format = .cl ∨ c.format = .cj) :
    ∃ text, ∀ junk, (new junk c s m w).decode.disassembly = .ok text := by
  have hreg : regAlias (field w 7 0x1f) = .ok (aliasText (field w 7 0x1f).toNat) :=
    regAlias_of_lt (regField_lt w 7)
  have hreg3 : ∀ lo, regAlias (RiscvInstruction.rvc2reg (field w lo 0x3))
      = .ok (aliasText (RiscvInstruction.rvc2reg (field w lo 0x3)).toNat) :=
    fun lo => regAlias_of_lt (Step.rvc2reg_toNat_lt w lo)
  rcases hc with hf | hf | hf | hf
  all_goals
    simp only [RiscvInstruction.disassembly, RiscvInstruction.decode, RiscvInstruction.new_iclass,
      RiscvInstruction.new_encoding, RiscvInstruction.loadStoreText, hf, hreg, hreg3]
    exact ⟨_, fun _ => rfl⟩

/-- A line is determined by the program counter and the encoding, whatever the members hold that
    `Decode` does not set, but for the formats CS and CB. -/
theorem display_determined_iff (c : Iclass) (s : RiscvState) (m : Memory) (w : U32) :
    (∃ line, ∀ junk, (new junk c s m w).decode.display = .ok line)
      ↔ c.format ≠ .cs ∧ c.format ≠ .cb := by
  constructor
  · rintro ⟨line, h⟩
    have hundefined : c.format = .cs ∨ c.format = .cb →
        (new { rd := 32 } c s m w).decode.display = .error .undefined := by
      rintro (hf | hf)
      all_goals
        simp only [RiscvInstruction.display, RiscvInstruction.disassembly, RiscvInstruction.decode,
          RiscvInstruction.new_iclass, RiscvInstruction.loadStoreText, hf]
        rfl
    refine ⟨fun hf => ?_, fun hf => ?_⟩
    · have hline := h { rd := 32 }
      rw [hundefined (.inl hf)] at hline
      cases hline
    · have hline := h { rd := 32 }
      rw [hundefined (.inr hf)] at hline
      cases hline
  · rintro ⟨hcs, hcb⟩
    have htext : ∃ text, ∀ junk, (new junk c s m w).decode.disassembly = .ok text := by
      cases hf : c.format
      case ci => exact disassembly_compressed s m w (.inl hf)
      case ciw => exact disassembly_compressed s m w (.inr (.inl hf))
      case cl => exact disassembly_compressed s m w (.inr (.inr (.inl hf)))
      case cj => exact disassembly_compressed s m w (.inr (.inr (.inr hf)))
      case cs => exact absurd hf hcs
      case cb => exact absurd hf hcb
      all_goals
        exact ⟨_, fun junk => disassembly_decoded junk s m w (by rw [Iclass.instrSize, hf])⟩
    obtain ⟨text, htext⟩ := htext
    refine ⟨"0x".toList ++ Text.hexPadded 8 (s.pc.setWidth 32 + c.instrSize - c.instrSize).toNat ++
      " 0x".toList ++ Text.hexPadded (if c.instrSize = 2 then 4 else 8) w.toNat ++ ' ' :: text,
      fun junk => ?_⟩
    have hnext : (new junk c s m w).nextPc = s.pc.setWidth 32 + c.instrSize := rfl
    rw [RiscvInstruction.display, htext, RiscvInstruction.instrPc, RiscvInstruction.decode_nextPc,
      RiscvInstruction.decode_iclass, RiscvInstruction.decode_encoding, RiscvInstruction.new_iclass,
      RiscvInstruction.new_encoding, hnext]
    rfl

end Texts

end Dimebox
