import Dimebox.CsrFilters
import Dimebox.CsrResult
import Dimebox.Expansion
import Dimebox.PcAlignment
import Dimebox.PreciseTraps

/-! The immediate CSR forms against the register forms.

    CSRRWI writes its immediate. CSRRSI and CSRRCI add it to the CSR and subtract it, where CSRRS and
    CSRRC set and clear bits. One execution may look the same, as long as no bit carries, but
    executing the word a second time moves the CSR on, unless a filter hides it. -/

namespace Dimebox

/-! ### The two forms -/

/-- What a CSR instruction does to its CSR. -/
inductive CsrOp where
  | write | set | clear
  deriving DecidableEq

namespace CsrOp

/-- CSRRW, CSRRS and CSRRC. -/
def registerClass : CsrOp → Iclass
  | .write => .csrrw
  | .set => .csrrs
  | .clear => .csrrc

/-- CSRRWI, CSRRSI and CSRRCI. -/
def immediateClass : CsrOp → Iclass
  | .write => .csrrwi
  | .set => .csrrsi
  | .clear => .csrrci

/-- `funct3` of the register form. -/
def funct3 : CsrOp → BitVec 3
  | .write => 1
  | .set => 2
  | .clear => 3

/-- The word of the register form with source register `k`. -/
def registerForm (op : CsrOp) (csr : BitVec 12) (rd k : BitVec 5) : U32 :=
  iType k rd op.funct3 0x73 csr

/-- The word of the immediate form with immediate `z`. -/
def immediateForm (op : CsrOp) (csr : BitVec 12) (rd z : BitVec 5) : U32 :=
  iType z rd (op.funct3 ||| 4) 0x73 csr

/-- The set and clear forms write only if their field is not zero. -/
def writes (op : CsrOp) (field : BitVec 5) : Bool := op = .write || field ≠ 0

/-- What the manual has written to a CSR that reads `v`, for a 32-bit operand. -/
def value (op : CsrOp) (v : U64) (a : U32) : U64 :=
  match op with
  | .write => a.setWidth 64
  | .set => v ||| a.setWidth 64
  | .clear => v &&& (~~~a).setWidth 64

/-- What the immediate forms write. -/
def immediate (op : CsrOp) (v : U64) (z : BitVec 5) : U64 :=
  match op with
  | .write => z.setWidth 64
  | .set => v + z.setWidth 64
  | .clear => v - z.setWidth 64

end CsrOp

open RiscvState

/-! ### Executing them -/

/-- Executing the word `w` on `s` leaves the state `t`, the memory as it was and no store queued. -/
def Leaves (junk : Junk) (m : Memory) (w : U32) (s t : RiscvState) : Prop :=
  ∃ i, Step.execute.run (.new junk (newInstruction w) s m w) = .ok () i ∧ i.state = t ∧
    i.memory = m ∧ i.mOpsMemory = []

theorem Leaves.unique {junk : Junk} {m : Memory} {w : U32} {s t t' : RiscvState}
    (h : Leaves junk m w s t) (h' : Leaves junk m w s t') : t = t' := by
  obtain ⟨i, hi, rfl, -⟩ := h
  obtain ⟨j, hj, rfl, -⟩ := h'
  rw [hi] at hj
  cases hj
  rfl

/-- The PC after an instruction of four bytes. -/
def seqPc (s : RiscvState) : U64 := ((s.pc.setWidth 32 + 4 : U32)).setWidth 64

section Forms

variable (op : CsrOp) (csr : BitVec 12) (rd z k : BitVec 5) (junk : Junk) (m : Memory)
  (s : RiscvState)

theorem class_registerForm : newInstruction (op.registerForm csr rd k) = op.registerClass := by
  cases op <;> exact class_rType rfl

theorem class_immediateForm : newInstruction (op.immediateForm csr rd z) = op.immediateClass := by
  cases op <;> exact class_rType rfl

/-- The fields of a word of the I format. -/
theorem fields_iType {c : Iclass} (hc : c.format = .i) (rs1 : BitVec 5) (funct3 : BitVec 3)
    (opcode : BitVec 7) :
    let i := (RiscvInstruction.new junk c s m (iType rs1 rd funct3 opcode csr)).decode
    i.rs1 = rs1.setWidth 32 ∧ i.rd = rd.setWidth 32 ∧ i.imm = csr.setWidth 32 := by
  have himm : field (iType rs1 rd funct3 opcode csr) 20 0xfff = csr.setWidth 32 := by
    apply BitVec.eq_of_toNat_eq
    have := csr.isLt
    rw [imm_iType, BitVec.toNat_setWidth]
    omega
  simp only [RiscvInstruction.decode, RiscvInstruction.new, hc]
  exact ⟨rs1_field .., rd_field .., himm⟩

/-- A CSR word, in terms of its fields. -/
theorem leaves_csr {c : Iclass} (hc : c.isCsr) {rs1 : BitVec 5} {funct3 : BitVec 3}
    (hclass : newInstruction (iType rs1 rd funct3 0x73 csr) = c) {writes : Bool} {f : U64 → U64}
    (hwrites : c.writesCsr (rs1.setWidth 32) = writes)
    (hf : ∀ i : RiscvInstruction, i.iclass = c → i.rs1 = rs1.setWidth 32 → i.state = s →
      i.csrValue = f) :
    Leaves junk m (iType rs1 rd funct3 0x73 csr) s
      (s.csrResult (csr.setWidth 32) (rd.setWidth 32) (seqPc s) writes f) := by
  have hformat : c.format = .i := by
    cases c <;> first | rfl | exact absurd hc (by decide)
  obtain ⟨hrs1, hrd, himm⟩ := fields_iType csr rd junk m s hformat rs1 funct3 0x73
  obtain ⟨i, hrun, hstate, hmem, hops⟩ := Step.execute_csr
    (i := .new junk c s m (iType rs1 rd funct3 0x73 csr)) hc
  have hnext : (RiscvInstruction.new junk c s m (iType rs1 rd funct3 0x73 csr)).nextPc.setWidth 64
      = seqPc s := by
    have hsize : c.instrSize = 4 := by rw [Iclass.instrSize, hformat]
    rw [seqPc, ← hsize]
    rfl
  refine ⟨i, by rw [hclass]; exact hrun, ?_, hmem, hops⟩
  rw [hstate, hrs1, hrd, himm, hnext, hf _ (by simp) hrs1 (by simp)]
  exact congrArg (fun b => s.csrResult _ _ _ b f) hwrites

theorem setWidth_eq_zero_iff : z.setWidth 32 = 0#32 ↔ z = 0#5 := by
  rw [← BitVec.toNat_inj, ← BitVec.toNat_inj, reg_toNat]
  rfl

theorem setWidth_setWidth_imm : ((z.setWidth 32 : U32).setWidth 64 : U64) = z.setWidth 64 := by
  apply BitVec.eq_of_toNat_eq
  have := z.isLt
  rw [BitVec.toNat_setWidth, reg_toNat, imm_toNat]
  omega

theorem leaves_registerForm : Leaves junk m (op.registerForm csr rd k) s
    (s.csrResult (csr.setWidth 32) (rd.setWidth 32) (seqPc s) (op.writes k)
      fun v => op.value v ((s.regVal (k.setWidth 32)).setWidth 32)) := by
  refine leaves_csr csr rd junk m s (by cases op <;> rfl) (class_registerForm op csr rd k) ?_ ?_
  · cases op <;> simp [CsrOp.registerClass, Iclass.writesCsr, CsrOp.writes, setWidth_eq_zero_iff]
  · intro i hc hrs1 hs
    funext v
    rw [RiscvInstruction.csrValue, RiscvInstruction.rs1Val, hc, hrs1, hs]
    cases op <;> rfl

theorem leaves_immediateForm : Leaves junk m (op.immediateForm csr rd z) s
    (s.csrResult (csr.setWidth 32) (rd.setWidth 32) (seqPc s) (op.writes z)
      fun v => op.immediate v z) := by
  refine leaves_csr csr rd junk m s (by cases op <;> rfl) (class_immediateForm op csr rd z) ?_ ?_
  · cases op <;> simp [CsrOp.immediateClass, Iclass.writesCsr, CsrOp.writes, setWidth_eq_zero_iff]
  · intro i hc hrs1 _
    funext v
    rw [RiscvInstruction.csrValue, hc, hrs1, setWidth_setWidth_imm]
    cases op <;> rfl

end Forms

/-! ### Behind the filters -/

/-- The immediate form over a register that stores `old`: what is read afterwards is what the manual
    has written, and writing again changes nothing. The PC is `pc`, and `pc'` the second time. -/
def Settles (pc pc' old : U64) (r : Creg) (op : CsrOp) (z : BitVec 5) : Prop :=
  let new := legal pc old r (op.immediate (shown r old) z)
  shown r new = shown r (legal pc old r (op.value (shown r old) (z.setWidth 32))) ∧
    shown r (legal pc' new r (op.immediate (shown r new) z)) = shown r new

section Settles

variable {pc pc' old : U64} {r : Creg} {op : CsrOp} {z : BitVec 5}

/-- Storing a value again. -/
theorem legalMisa_again (hpc : pc' &&& 3 = 0 ↔ pc &&& 3 = 0) (old x : U64) :
    legalMisa pc' (legalMisa pc old x) x = legalMisa pc old x := by
  have hlow : ∀ (unaligned : Bool) (a x : BitVec 3),
      let w := misaLow (a.getLsbD 2 && unaligned) x
      misaLow (w.getLsbD 2 && unaligned) x = w := by decide
  obtain ⟨unaligned, hu⟩ : ∃ u, u = decide (pc &&& 3 ≠ 0) := ⟨_, rfl⟩
  have hu' : unaligned = decide (pc' &&& 3 ≠ 0) := by
    rw [hu]
    exact decide_eq_decide.mpr (not_congr hpc.symm)
  have hhigh : misaHigh (legalMisa pc old x) = misaHigh x := by
    rw [misaHigh, ushiftRight_legalMisa, misaHigh, BitVec.and_assoc, BitVec.and_self]
  rw [legalMisa_eq_self_iff (legalMisa_supported _ _ _), hhigh, holdsC_eq hu',
    setWidth_legalMisa, holdsC_eq hu]
  exact ⟨hlow _ _ _, rfl⟩

theorem settles_write (hpc : pc' &&& 3 = 0 ↔ pc &&& 3 = 0) : Settles pc pc' old r .write z := by
  have hmpp : ∀ z : BitVec 5, ¬ ((z.setWidth 64 : U64) &&& 0x7fa21e9d &&& 0x1800 = 0x800 ∨
      (z.setWidth 64 : U64) &&& 0x7fa21e9d &&& 0x1800 = 0x1000) := by decide
  simp only [Settles, CsrOp.immediate, CsrOp.value, setWidth_setWidth_imm, true_and]
  cases r
  case mstatus =>
    simp only [legal, legalMstatus, if_neg (hmpp z)]
  case misa => exact legalMisa_again hpc _ _
  case mstatush => rw [legal, legal, shown_legalMstatush]
  all_goals rfl

theorem imm_ne_zero (hz : z ≠ 0) : (z.setWidth 64 : U64) ≠ 0 := by
  intro h
  have hnat := congrArg BitVec.toNat h
  rw [imm_toNat] at hnat
  exact hz (BitVec.eq_of_toNat_eq hnat)

/-- A register that stores what it is given moves on. -/
theorem not_settles_plain (hop : op ≠ .write) (hz : z ≠ 0) (hlegal : ∀ pc old v, legal pc old r v = v)
    (hshown : ∀ v, shown r v = v) : ¬ Settles pc pc' old r op z := by
  intro h
  have hagain := h.2
  simp only [hlegal, hshown] at hagain
  have hne := imm_ne_zero hz
  cases op with
  | write => exact hop rfl
  | set => exact hne (BitVec.add_right_eq_self.mp hagain)
  | clear =>
    simp only [CsrOp.immediate, BitVec.sub_eq_add_neg] at hagain
    exact hne (BitVec.neg_eq_zero_iff.mp (BitVec.add_right_eq_self.mp hagain))

/-- When adding and subtracting an immediate are hidden by the filter of the register. -/
theorem settles_iff (hop : op ≠ .write) (hz : z ≠ 0) (hpc : pc' &&& 3 = 0 ↔ pc &&& 3 = 0) :
    Settles pc pc' old r op z ↔ r = .mstatush ∨
      r = .mstatus ∧ op = .set ∧ z = 2 ∧ (shown .mstatus old).getLsbD 1 = false ∨
      r = .misa ∧ (op = .set ∧ old.toNat % 256 + z.toNat < 256 ∧
          (z.getLsbD 2 = false ∨ pc &&& 3 ≠ 0) ∧
          (old.toNat % 4 + z.toNat % 4 < 4 ∨ holdsC pc old) ∨
        op = .clear ∧ z.toNat ≤ 4 ∧ holdsC pc old) := by
  cases r
  case mstatush =>
    simp only [true_or, iff_true]
    refine ⟨?_, ?_⟩ <;> simp only [legal, shown_legalMstatush]
  case mstatus =>
    cases op with
    | write => exact absurd rfl hop
    | set =>
      have hset := @mstatus_set_iff old (shown .mstatus old) z hz
      simpa [Settles, legal, CsrOp.immediate, CsrOp.value, setWidth_setWidth_imm] using hset
    | clear =>
      have hne := @mstatus_clear_ne old (shown .mstatus old) z hz
      simp only [reduceCtorEq, false_and, and_false, or_false, iff_false]
      exact fun h => hne h.2
  case misa =>
    cases op with
    | write => exact absurd rfl hop
    | set =>
      have hset := misa_set_iff (v := old) (z := z) hpc
      simpa [Settles, legal, shown, CsrOp.immediate, CsrOp.value, setWidth_setWidth_imm] using hset
    | clear =>
      have hclear := misa_clear_iff (v := old) hz hpc
      simpa [Settles, legal, shown, CsrOp.immediate, CsrOp.value] using hclear
  all_goals
    simp only [reduceCtorEq, false_and, or_false, iff_false]
    exact not_settles_plain hop hz (fun _ _ _ => rfl) fun _ => rfl

end Settles

/-! ### Two executions and one -/

/-- The two states cannot be told apart, but by the register `k`. -/
def SameBut (k : Fin 32) (s t : RiscvState) : Prop :=
  SameObservations { s with x := Function.update s.x k (t.x k) } t

/-- Register `k` holding `y` stands for the immediate `z`: x0 stands for zero in the set and clear
    forms, and otherwise `k` is not x0. -/
structure StandsFor (op : CsrOp) (z k : BitVec 5) (y : U64) : Prop where
  value : y.setWidth 32 = (z.setWidth 32 : U32)
  source : k = 0 ↔ op ≠ .write ∧ z = 0

/-- On `s` the immediate form leaves what the register form leaves if its source register `k` holds
    `y`, it writes what the manual has, and executing it again leaves the CSR as it is. -/
def Agrees (op : CsrOp) (csr : BitVec 12) (rd z k : BitVec 5) (y : U64) (junk : Fin 3 → Junk)
    (m : Memory) (s : RiscvState) : Prop :=
  ∃ t t' u, Leaves (junk 0) m (op.immediateForm csr rd z) s t ∧
    Leaves (junk 1) m (op.registerForm csr rd k) (s.setReg (k.setWidth 32) y) t' ∧
    Leaves (junk 2) m (op.immediateForm csr rd z) t u ∧
    SameBut k.toFin t t' ∧
    (∀ r, csrReg (csr.setWidth 32) = some r → op.writes z →
      t.read r = (s.write r (op.value (s.read r) (z.setWidth 32))).read r) ∧
    u.csr (csr.setWidth 32) 3 = t.csr (csr.setWidth 32) 3

/-- The condition: nothing is added or subtracted, or a filter hides it. -/
def FormsAgree (op : CsrOp) (csr : BitVec 12) (z : BitVec 5) (s : RiscvState) : Prop :=
  op = .write ∨ z = 0 ∨ csrReg (csr.setWidth 32) = none ∨ csr = 0x310 ∨
    csr = 0x300 ∧ op = .set ∧ z = 2 ∧ s.mstatus.getLsbD 1 = false ∨
    csr = 0x301 ∧ (op = .set ∧ s.misa.toNat % 256 + z.toNat < 256 ∧
        (z.getLsbD 2 = false ∨ s.pc &&& 3 ≠ 0) ∧
        (s.misa.toNat % 4 + z.toNat % 4 < 4 ∨ holdsC s.pc s.misa) ∨
      op = .clear ∧ z.toNat ≤ 4 ∧ holdsC s.pc s.misa)

section Agrees

variable {op : CsrOp} {csr : BitVec 12} {rd z k : BitVec 5} {y : U64} {junk : Fin 3 → Junk}
  {m : Memory} {s : RiscvState} {n : U32} {r : Creg} {wr : Bool} {f : U64 → U64} {next : U64}
  {idx : U32}

/-- What is left, if the CSR has a register behind it. -/
theorem csrResult_of_reg (hr : csrReg n = some r) : s.csrResult n idx next wr f =
    { s with
      x := (s.setReg idx (((s.read r).setWidth 32 : U32).setWidth 64)).x
      pc := next
      reg := if wr then Function.update s.reg r (legal s.pc (s.reg r) r (f (s.read r)))
        else s.reg } := by
  have hset := setReg_eq s idx (((s.read r).setWidth 32 : U32).setWidth 64)
  simp only [csrResult, hr]
  generalize (s.setReg idx (((s.read r).setWidth 32 : U32).setWidth 64)).x = x at hset ⊢
  rw [hset]
  cases wr <;> rfl

theorem read_csrResult (hr : csrReg n = some r) : (s.csrResult n idx next wr f).read r =
    if wr then shown r (legal s.pc (s.reg r) r (f (s.read r))) else s.read r := by
  rw [csrResult_of_reg hr]
  cases wr <;> simp [RiscvState.read]

/-- What is left, if the CSR is a counter. -/
theorem csrResult_of_counter {v : U64} (hr : csrReg n = none) (hv : s.csrCounter n = some v) :
    s.csrResult n idx next wr f =
      { (if wr then s.trapState (csrRefusal n) 0 else s.setPc next) with
        x := (s.setReg idx ((v.setWidth 32 : U32).setWidth 64)).x } := by
  have hset := setReg_eq s idx ((v.setWidth 32 : U32).setWidth 64)
  simp only [csrResult, hr, hv]
  generalize (s.setReg idx ((v.setWidth 32 : U32).setWidth 64)).x = x at hset ⊢
  rw [hset]
  cases wr <;> rfl

theorem csrResult_of_unknown (hr : csrReg n = none) (hv : s.csrCounter n = none) :
    s.csrResult n idx next wr f = s.trapState .illegalInstructionUnknownCsr 0 := by
  simp only [csrResult, hr, hv]

theorem csr_csrResult_of_none (hr : csrReg n = none) :
    (s.csrResult n idx next wr f).csr n 3 = s.csr n 3 := by
  have hcounter : (s.csrResult n idx next wr f).csrCounter n = s.csrCounter n := by
    unfold csrResult
    split
    · rw [setReg_eq]
      cases wr <;> rfl
    · rw [setReg_eq]
      cases wr <;> rfl
    · rfl
  unfold RiscvState.csr
  simp only [hr, hcounter]
  cases s.csrCounter n <;> rfl

theorem sameBut_x {i : Fin 32} {t : RiscvState} {a b : Fin 32 → U64}
    (h : ∀ j ≠ i, a j = b j) : SameBut i { t with x := a } { t with x := b } := by
  refine ⟨rfl, ?_, fun _ _ => rfl, rfl, rfl, rfl, rfl, rfl, rfl⟩
  funext j
  by_cases hj : j = i
  · subst hj; simp
  · simp [hj, h j hj]

theorem ofNat_setWidth (k : BitVec 5) : Fin.ofNat 32 (k.setWidth 32 : U32).toNat = k.toFin := by
  apply Fin.ext
  rw [Fin.val_ofNat, reg_toNat]
  exact Nat.mod_eq_of_lt k.isLt

/-- Writing `k` changes no other register, also if another one is written then. -/
theorem x_setReg_ne {j : Fin 32} (hj : j ≠ k.toFin) : (s.setReg (k.setWidth 32) y).x j = s.x j := by
  unfold setReg
  split
  · rfl
  · rw [ofNat_setWidth]
    exact Function.update_of_ne hj _ _

theorem x_setReg_congr {t : RiscvState} (v : U64) {j : Fin 32} (h : s.x j = t.x j) :
    (s.setReg idx v).x j = (t.setReg idx v).x j := by
  unfold setReg
  split
  · exact h
  · simp only [Function.update_apply, h]

theorem StandsFor.operand (h : StandsFor op z k y) (s : RiscvState) :
    ((s.setReg (k.setWidth 32) y).regVal (k.setWidth 32)).setWidth 32 = (z.setWidth 32 : U32) := by
  unfold regVal
  by_cases hk : k = 0
  · have hk' : k.setWidth 32 = (0 : U32) := (setWidth_eq_zero_iff k).mpr hk
    rw [if_pos hk', (h.source.mp hk).2]
    rfl
  · have hk' : ¬ k.setWidth 32 = (0 : U32) := fun h0 => hk ((setWidth_eq_zero_iff k).mp h0)
    rw [if_neg hk', setReg, if_neg hk']
    simp only [Function.update_self, h.value]

theorem StandsFor.writes (h : StandsFor op z k y) : op.writes k = op.writes z := by
  have hsource := h.source
  unfold CsrOp.writes
  by_cases hop : op = .write
  · simp [hop]
  · have hkz : k = 0 ↔ z = 0 := by simpa only [hop, ne_eq, not_false_eq_true, true_and] using hsource
    rw [decide_eq_decide.mpr (not_congr hkz)]

/-- The three executions, made explicit. -/
theorem agrees_iff (h : StandsFor op z k y) : Agrees op csr rd z k y junk m s ↔
    let n : U32 := csr.setWidth 32
    let t := s.csrResult n (rd.setWidth 32) (seqPc s) (op.writes z) fun v => op.immediate v z
    let t' := (s.setReg (k.setWidth 32) y).csrResult n (rd.setWidth 32) (seqPc s) (op.writes z)
      fun v => op.value v (z.setWidth 32)
    SameBut k.toFin t t' ∧
    (∀ r, csrReg n = some r → op.writes z →
      t.read r = (s.write r (op.value (s.read r) (z.setWidth 32))).read r) ∧
    (t.csrResult n (rd.setWidth 32) (seqPc t) (op.writes z) fun v => op.immediate v z).csr n 3
      = t.csr n 3 := by
  have hpc : seqPc (s.setReg (k.setWidth 32) y) = seqPc s := by rw [setReg_eq]; rfl
  have hreg := leaves_registerForm op csr rd k (junk 1) m (s.setReg (k.setWidth 32) y)
  rw [h.operand, h.writes, hpc] at hreg
  have himm := leaves_immediateForm op csr rd z (junk 0) m s
  constructor
  · rintro ⟨t, t', u, ht, ht', hu, hsame, hwrites, hagain⟩
    obtain rfl := ht.unique himm
    obtain rfl := ht'.unique hreg
    obtain rfl := hu.unique (leaves_immediateForm op csr rd z (junk 2) m _)
    exact ⟨hsame, hwrites, hagain⟩
  · rintro ⟨hsame, hwrites, hagain⟩
    exact ⟨_, _, _, himm, hreg, leaves_immediateForm op csr rd z (junk 2) m _, hsame, hwrites, hagain⟩

/-- Without a register behind the CSR both forms read it, or trap. -/
theorem agrees_of_none (h : StandsFor op z k y) (hr : csrReg (csr.setWidth 32) = none) :
    Agrees op csr rd z k y junk m s := by
  rw [agrees_iff h]
  refine ⟨?_, ?_, csr_csrResult_of_none hr⟩
  swap
  · intro r hr'
    rw [hr] at hr'
    cases hr'
  have hx : ∀ j ≠ k.toFin, s.x j = (s.setReg (k.setWidth 32) y).x j := fun j hj =>
    (x_setReg_ne hj).symm
  rw [setReg_eq s] at hx ⊢
  generalize (s.setReg (k.setWidth 32) y).x = x at hx ⊢
  cases hv : s.csrCounter (csr.setWidth 32) with
  | none =>
    have hv' : ({ s with x := x } : RiscvState).csrCounter (csr.setWidth 32) = none := hv
    rw [csrResult_of_unknown hr hv, csrResult_of_unknown hr hv']
    exact sameBut_x (t := s.trapState .illegalInstructionUnknownCsr 0) hx
  | some v =>
    have hv' : ({ s with x := x } : RiscvState).csrCounter (csr.setWidth 32) = some v := hv
    rw [csrResult_of_counter hr hv, csrResult_of_counter hr hv']
    cases op.writes z
    · exact sameBut_x (t := s.setPc (seqPc s)) fun j hj => x_setReg_congr _ (hx j hj)
    · exact sameBut_x (t := s.trapState (csrRefusal (csr.setWidth 32)) 0)
        fun j hj => x_setReg_congr _ (hx j hj)

/-- The PC after an instruction is a multiple of four if the one before is. -/
theorem seqPc_aligned (s : RiscvState) : seqPc s &&& 3 = 0 ↔ s.pc &&& 3 = 0 := by
  have := s.pc.isLt
  rw [and_three_eq_zero, and_three_eq_zero, seqPc, BitVec.toNat_setWidth, BitVec.toNat_add,
    BitVec.toNat_setWidth]
  have h4 : (4 : U32).toNat = 4 := rfl
  omega

/-- Two results that differ in what they write. -/
theorem sameBut_csrResult {f g : U64 → U64} (hr : csrReg n = some r) :
    SameBut k.toFin (s.csrResult n idx next wr f)
        ((s.setReg (k.setWidth 32) y).csrResult n idx next wr g) ↔
      (wr → shown r (legal s.pc (s.reg r) r (f (s.read r))) =
        shown r (legal s.pc (s.reg r) r (g (s.read r)))) := by
  have hx : ∀ j ≠ k.toFin, s.x j = (s.setReg (k.setWidth 32) y).x j := fun j hj =>
    (x_setReg_ne hj).symm
  rw [setReg_eq s (k.setWidth 32)] at hx ⊢
  generalize (s.setReg (k.setWidth 32) y).x = x at hx ⊢
  have hread : ({ s with x := x } : RiscvState).read r = s.read r := rfl
  constructor
  · rintro h rfl
    have hcsr := h.csr n 3
    rw [csr_eq_read hr, csr_eq_read hr] at hcsr
    have hsame : (s.csrResult n idx next true f).read r =
        (({ s with x := x } : RiscvState).csrResult n idx next true g).read r := Except.ok.inj hcsr
    rwa [read_csrResult hr, read_csrResult hr, hread] at hsame
  · intro h
    rw [csrResult_of_reg hr, csrResult_of_reg hr, hread]
    refine ⟨rfl, ?_, csr_eq_of_read ?_ fun _ => rfl, rfl, rfl, rfl, rfl, rfl, rfl⟩
    · funext j
      by_cases hj : j = k.toFin
      · subst hj; simp
      · simpa [hj] using x_setReg_congr _ (hx j hj)
    · intro q
      cases wr with
      | false => rfl
      | true =>
        by_cases hq : q = r
        · subst hq
          simpa [RiscvState.read] using h rfl
        · simp [RiscvState.read, hq]

/-- With a register behind the CSR, what the three executions leave in it decides. -/
theorem agrees_of_reg (h : StandsFor op z k y) (hr : csrReg (csr.setWidth 32) = some r) :
    Agrees op csr rd z k y junk m s ↔
      (op.writes z → Settles s.pc (seqPc s) (s.reg r) r op z) := by
  rw [agrees_iff h]
  simp only [sameBut_csrResult hr, csr_eq_read hr, read_csrResult hr, Except.ok.injEq]
  cases hw : op.writes z with
  | false => simp
  | true =>
    have hpc : (s.csrResult (csr.setWidth 32) (rd.setWidth 32) (seqPc s) true
        fun v => op.immediate v z).pc = seqPc s := by rw [csrResult_of_reg hr]
    have hreg : (s.csrResult (csr.setWidth 32) (rd.setWidth 32) (seqPc s) true
        fun v => op.immediate v z).reg r = legal s.pc (s.reg r) r (op.immediate (s.read r) z) := by
      rw [csrResult_of_reg hr]
      simp
    simp only [true_implies, if_true, hpc, hreg]
    constructor
    · rintro ⟨hsame, -, hagain⟩
      exact ⟨hsame, hagain⟩
    · rintro ⟨hsame, hagain⟩
      refine ⟨hsame, ?_, hagain⟩
      intro q hq
      obtain rfl : q = r := Option.some.inj (hq.symm.trans hr)
      rw [read_csrResult hr, if_pos rfl, read_write_self]
      exact hsame

/-- The immediate form agrees with the register form exactly if it writes its immediate or does not
    write, if there is no register to be written, or if the filters of MSTATUSH, MSTATUS or MISA
    hide that it adds or subtracts. -/
theorem immediateForm_agrees_iff (h : StandsFor op z k y) :
    Agrees op csr rd z k y junk m s ↔ FormsAgree op csr z s := by
  cases hr : csrReg (csr.setWidth 32) with
  | none => exact iff_of_true (agrees_of_none h hr) (.inr (.inr (.inl hr)))
  | some r =>
    have hcsr : ∀ x : BitVec 12, csr = x ↔ csr.setWidth 32 = (x.setWidth 32 : U32) := by
      intro x
      have := csr.isLt
      have := x.isLt
      rw [← BitVec.toNat_inj, ← BitVec.toNat_inj, BitVec.toNat_setWidth, BitVec.toNat_setWidth]
      omega
    have hnumber : ∀ q : Creg, csr.setWidth 32 = csrNumber q ↔ r = q := by
      intro q
      rw [← csrReg_eq_some_iff, hr, Option.some.injEq]
    have h310 : csr = 0x310 ↔ r = .mstatush := (hcsr _).trans (hnumber .mstatush)
    have h300 : csr = 0x300 ↔ r = .mstatus := (hcsr _).trans (hnumber .mstatus)
    have h301 : csr = 0x301 ↔ r = .misa := (hcsr _).trans (hnumber .misa)
    rw [agrees_of_reg h hr, FormsAgree, h310, h300, h301, hr]
    by_cases hop : op = .write
    · subst hop
      exact iff_of_true (fun _ => settles_write (seqPc_aligned s)) (.inl rfl)
    by_cases hz : z = 0
    · refine iff_of_true (fun hw => ?_) (.inr (.inl hz))
      simp [CsrOp.writes, hop, hz] at hw
    · have hwrites : op.writes z = true := by
        rw [CsrOp.writes, decide_eq_true hz, Bool.or_true]
      rw [hwrites, forall_prop_of_true rfl, settles_iff hop hz (seqPc_aligned s)]
      simp only [hop, hz, reduceCtorEq, false_or]
      cases r
      case misa => simp only [reduceCtorEq, false_and, false_or, true_and]; rfl
      case mstatus => simp only [reduceCtorEq, false_and, false_or, or_false, true_and]; rfl
      all_goals simp only [reduceCtorEq, false_and, or_false]

/-- `csrrci a1,mscratch,4` with MSCRATCH at 7, against `csrrc a1,mscratch,t0`. -/
theorem immediateForm_agrees_iff_mscratch :
    let m : Memory := { physMem := { oracle := { rand := fun _ => 0, heap := fun _ => 0 } } }
    StandsFor .clear 4 5 4 ∧
      (Agrees .clear 0x340 11 4 5 4 (fun _ => {}) m { reg := fun _ => 7 } ↔
        FormsAgree .clear 0x340 4 { reg := fun _ => 7 }) :=
  ⟨⟨by decide, by decide⟩, immediateForm_agrees_iff ⟨by decide, by decide⟩⟩

/-- `csrrsi x0,mscratch,1` with MSCRATCH at 1 writes 2, `csrrs x0,mscratch,t0` writes 1. -/
theorem csrrsi_adds :
    let m : Memory := { physMem := { oracle := { rand := fun _ => 0, heap := fun _ => 0 } } }
    let s : RiscvState := { reg := fun _ => 1 }
    StandsFor .set 1 5 1 ∧
      (∃ t t', Leaves {} m (CsrOp.set.immediateForm 0x340 0 1) s t ∧
        Leaves {} m (CsrOp.set.registerForm 0x340 0 5) (s.setReg 5 1) t' ∧
        t.csr 0x340 3 = .ok 2 ∧ t'.csr 0x340 3 = .ok 1) ∧
      ¬ Agrees .set 0x340 0 1 5 1 (fun _ => {}) m s := by
  intro m s
  have h : StandsFor .set 1 5 1 := ⟨by decide, by decide⟩
  refine ⟨h, ⟨_, _, leaves_immediateForm _ _ _ _ _ _ _, leaves_registerForm _ _ _ _ _ _ _, rfl, ?_⟩,
    ?_⟩
  · have hoperand : ((s.setReg 5 1).regVal ((5 : BitVec 5).setWidth 32)).setWidth 32 = (1 : U32) :=
      h.operand s
    have hread : (s.setReg 5 1).read .mscratch = 1 := by rw [setReg_eq]; rfl
    rw [hoperand, csr_eq_read (r := .mscratch) rfl, read_csrResult rfl, hread]
    simp [CsrOp.writes, CsrOp.value, legal, shown]
  rw [agrees_of_reg h (r := .mscratch) rfl]
  intro hsettles
  have hsame := (hsettles rfl).1
  exact absurd hsame (by decide)

end Agrees

end Dimebox
