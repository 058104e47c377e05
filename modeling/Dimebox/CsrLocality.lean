import Dimebox.Commit
import Dimebox.StepThrows

/-! CSR writes are local, and their legalisation is idempotent.

    No two CSR numbers share a stored register, so a write leaves the other readings alone, and what
    a setter refuses it has already taken out of the value the getter shows afterwards: writing that
    value back changes nothing that can be read. -/

namespace Dimebox.RiscvState

/-! ### One number a register -/

/-- The CSR number of a stored register. -/
def csrNumber : Creg → U32
  | .ustatus => 0x000
  | .fflags => 0x001
  | .frm => 0x002
  | .fcsr => 0x003
  | .satp => 0x180
  | .mstatus => 0x300
  | .misa => 0x301
  | .medeleg => 0x302
  | .mideleg => 0x303
  | .mie => 0x304
  | .mtvec => 0x305
  | .mcounteren => 0x306
  | .mstatush => 0x310
  | .mscratch => 0x340
  | .mepc => 0x341
  | .mcause => 0x342
  | .mtval => 0x343
  | .mip => 0x344
  | .mtinst => 0x34a
  | .pmpcfg0 => 0x3a0
  | .pmpaddr0 => 0x3b0
  | .mcycle => 0xb00
  | .mtinstret => 0xb02
  | .mcycleh => 0xb80
  | .mtinstreth => 0xb82

theorem csrNumber_of_csrReg {n : U32} {r : Creg} (h : csrReg n = some r) : csrNumber r = n := by
  unfold csrReg at h
  split at h
  case h_26 => cases h
  all_goals
    next heq =>
    rw [← Option.some.inj h]
    exact BitVec.eq_of_toNat_eq heq.symm

theorem csrReg_csrNumber (r : Creg) : csrReg (csrNumber r) = some r := by
  cases r <;> rfl

theorem csrReg_eq_some_iff {n : U32} {r : Creg} : csrReg n = some r ↔ n = csrNumber r := by
  constructor
  · exact fun h => (csrNumber_of_csrReg h).symm
  · rintro rfl
    exact csrReg_csrNumber r

theorem csrReg_inj {n n' : U32} {r : Creg} (h : csrReg n = some r) (h' : csrReg n' = some r) :
    n = n' := by
  rw [← csrNumber_of_csrReg h, csrNumber_of_csrReg h']

/-! ### What one write changes -/

theorem read_write_self (s : RiscvState) (r : Creg) (v : U64) :
    (s.write r v).read r = shown r (legal s.pc (s.reg r) r v) := by
  simp [read, write]

theorem read_write_of_ne (s : RiscvState) {r q : Creg} (h : q ≠ r) (v : U64) :
    (s.write r v).read q = s.read q := by
  simp [read, write, h]

/-- A CSR number that may be written at machine level and has a register behind it. -/
def WritableCsr (n : U32) : Prop := n ≤ 0xfff ∧ csrAccessOkay n 3 true ∧ (csrReg n).isSome

instance (n : U32) : Decidable (WritableCsr n) := inferInstanceAs (Decidable (_ ∧ _ ∧ _))

/-- A stored CSR may be read at machine level. -/
theorem csr_eq_read {n : U32} {r : Creg} (h : csrReg n = some r) (s : RiscvState) :
    s.csr n 3 = .ok (s.read r) := by
  have haccess : validateCsrAccess n 3 false = .ok () := by
    rw [← csrNumber_of_csrReg h]
    cases r <;> rfl
  rw [csr, haccess]
  simp only [h]
  rfl

theorem setCsr_of_reg {n : U32} {r : Creg} (h : csrReg n = some r) (s : RiscvState) (v : U64) :
    s.setCsr n 3 v = .ok (s.write r v) := by
  rw [setCsr, Step.validateCsrAccess_of_reg h]
  simp only [h]
  rfl

/-- From `s` to `t` only the reading of the CSR `n` may have changed. -/
structure OnlyCsr (n : U32) (s t : RiscvState) : Prop where
  csr : ∀ n' level, n' ≠ n → t.csr n' level = s.csr n' level
  pc : t.pc = s.pc
  x : t.x = s.x
  privilegeLevel : t.currentPrivilegeLevel = s.currentPrivilegeLevel

theorem onlyCsr_write {n : U32} {r : Creg} (h : csrReg n = some r) (s : RiscvState) (v : U64) :
    OnlyCsr n s (s.write r v) := by
  refine ⟨?_, rfl, rfl, rfl⟩
  intro n' level hne
  have hcounter : (s.write r v).csrCounter n' = s.csrCounter n' := rfl
  unfold RiscvState.csr
  rw [hcounter]
  cases hr : csrReg n' with
  | none => cases s.csrCounter n' <;> rfl
  | some q =>
    have hq : q ≠ r := by
      rintro rfl
      exact hne (csrReg_inj hr h)
    simp only [read_write_of_ne s hq]

/-! ### Writing back what is read -/

/-- What `SetMSTATUS` stores is within its mask. -/
theorem legalMstatus_masked (old v : U64) :
    legalMstatus old v &&& 0x7fa21e9d = legalMstatus old v := by
  have hmpp : (0x1800 : U64) &&& 0x7fa21e9d = 0x1800 := by decide
  have hrval : v &&& 0x7fa21e9d &&& 0x7fa21e9d = v &&& 0x7fa21e9d := by
    rw [BitVec.and_assoc, BitVec.and_self]
  rw [legalMstatus]
  split
  · rw [BitVec.and_or_distrib_right, BitVec.and_assoc (shown .mstatus old), hmpp]
    rw [BitVec.and_assoc (v &&& 0x7fa21e9d), BitVec.and_comm (~~~0x1800), ← BitVec.and_assoc, hrval]
  · exact hrval

/-- `SetMSTATUS` of what `MSTATUS` shows: MPP is kept, or replaced by itself. -/
theorem shown_legalMstatus_shown {w : U64} (h : w &&& 0x7fa21e9d = w) :
    shown .mstatus (legalMstatus w (shown .mstatus w)) = shown .mstatus w := by
  have hrval : shown .mstatus w &&& 0x7fa21e9d = shown .mstatus w := by
    rw [shown, BitVec.and_assoc, BitVec.and_comm 0x807fffff, ← BitVec.and_assoc, h]
  have hshown : shown .mstatus (shown .mstatus w) = shown .mstatus w := by
    rw [shown, shown, BitVec.and_assoc, BitVec.and_self]
  rw [legalMstatus, hrval]
  split
  · rw [← BitVec.and_or_distrib_left, BitVec.not_or_self, BitVec.and_allOnes, hshown]
  · exact hshown

/-- `SetMISA` of what it has stored. -/
theorem legalMisa_of_supported {v : U64} (h : v &&& definedMisaValue = v) (pc : U64) :
    legalMisa pc v v = v := by
  rw [legalMisa, h]
  split
  · next hkeep => rw [← hkeep.1]; exact or_and_absorb _ 4
  · rfl

theorem shown_legalMstatush (v : U64) : shown .mstatush (legalMstatush v) = 0 := by
  simp [shown, legalMstatush, BitVec.and_assoc]

/-- Legalisation is idempotent on what can be read. -/
theorem shown_legal_shown (pc old v : U64) (r : Creg) :
    shown r (legal pc (legal pc old r v) r (shown r (legal pc old r v))) =
      shown r (legal pc old r v) := by
  cases r
  case mstatus => exact shown_legalMstatus_shown (legalMstatus_masked old v)
  case misa => exact legalMisa_of_supported (legalMisa_supported pc old v) pc
  case mstatush => rw [legal, legal, shown_legalMstatush, shown_legalMstatush]
  all_goals rfl

theorem sameObservations_of_read {s : RiscvState} {r : Creg} {v : U64}
    (h : (s.write r v).read r = s.read r) : SameObservations (s.write r v) s := by
  have hread : ∀ q, (s.write r v).read q = s.read q := by
    intro q
    by_cases hq : q = r
    · rw [hq, h]
    · exact read_write_of_ne s hq v
  exact ⟨rfl, rfl, csr_eq_of_read hread fun _ => rfl, rfl, rfl, rfl, rfl, rfl, rfl⟩

/-- A CSR that may be written: the write succeeds and leaves every other CSR, the PC, the general
    registers and the privilege level alone, and writing back what is then read can not be
    observed. -/
theorem setCsr_local (s : RiscvState) {n : U32} (hn : WritableCsr n) (v : U64) :
    ∃ t r u, s.setCsr n 3 v = .ok t ∧ OnlyCsr n s t ∧
      t.csr n 3 = .ok r ∧ t.setCsr n 3 r = .ok u ∧ SameObservations u t := by
  obtain ⟨-, -, hreg⟩ := hn
  obtain ⟨r, hr⟩ := Option.isSome_iff_exists.mp hreg
  refine ⟨s.write r v, _, _, setCsr_of_reg hr s v, onlyCsr_write hr s v, csr_eq_read hr _,
    setCsr_of_reg hr _ _, sameObservations_of_read ?_⟩
  have hback := shown_legal_shown s.pc (s.reg r) v r
  rw [read_write_self, read_write_self]
  simpa [write, read] using hback

/-- MSTATUS out of reset, written with MPP = 01. -/
theorem setCsr_local_mstatus :
    WritableCsr 0x300 ∧ ∃ t r u, (reset {} 0x80000000).setCsr 0x300 3 0x888 = .ok t ∧
      OnlyCsr 0x300 (reset {} 0x80000000) t ∧ t.csr 0x300 3 = .ok r ∧ t.setCsr 0x300 3 r = .ok u ∧
      SameObservations u t :=
  ⟨by decide, setCsr_local _ (by decide) _⟩

end Dimebox.RiscvState
