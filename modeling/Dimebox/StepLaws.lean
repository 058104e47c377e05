import Dimebox.Step

/-! What the accessors and the frame of `Execute` do, one lemma each.

    The fields `Decode` extracts are register numbers below 32, so register accesses are total on
    decoded instructions; the bodies are then computed by rewriting with the lemmas below instead
    of unfolding them. -/

namespace Dimebox

/-! ### Sign extension -/

/-- The bits the loop of `SignExtend` leaves. -/
theorem getLsbD_fill (j : Nat) (hj : j < 64) (n s : Nat) (op : U64) :
    ((List.range' s n).foldl (fun op i => op ||| (1#64 <<< i)) op).getLsbD j
      = (op.getLsbD j || decide (s ≤ j ∧ j < s + n)) := by
  induction n generalizing s op with
  | zero =>
    have hnone : ¬ (s ≤ j ∧ j < s + 0) := by omega
    rw [List.range'_zero, List.foldl_nil, decide_eq_false hnone, Bool.or_false]
  | succ n ih =>
    rw [List.range'_succ, List.foldl_cons, ih (s + 1), BitVec.getLsbD_or, ← BitVec.twoPow_eq,
      BitVec.getLsbD_twoPow, Bool.or_assoc]
    congr 1
    rw [← Bool.decide_and, ← Bool.decide_or]
    exact decide_eq_decide.mpr (by omega)

/-- `SignExtend` is two's complement sign extension. -/
theorem signExtend_eq {op : U64} {w : Nat} (hw : 0 < w) (hw' : w ≤ 64) (hop : op.toNat < 2 ^ w) :
    signExtend op w = (op.setWidth w).signExtend 64 := by
  have hbit : ((op >>> (w - 1)) &&& 1 = 1) ↔ op.getLsbD (w - 1) := by
    constructor
    · intro h
      have := congrArg (·.getLsbD 0) h
      simpa using this
    · intro h
      apply BitVec.eq_of_getLsbD_eq
      intro i _
      cases i with
      | zero => simpa using h
      | succ i => simp
  have hhigh : ∀ j, w ≤ j → op.getLsbD j = false := by
    intro j hj
    have hlt : op.toNat < 2 ^ j := Nat.lt_of_lt_of_le hop (Nat.pow_le_pow_right (by omega) hj)
    rw [BitVec.getLsbD, Nat.testBit_lt_two_pow hlt]
  apply BitVec.eq_of_getLsbD_eq
  intro j hj
  have hmsb : (op.setWidth w).msb = op.getLsbD (w - 1) := by
    have hlast : w - 1 < w := by omega
    rw [BitVec.msb_eq_getLsbD_last, BitVec.getLsbD_setWidth, decide_eq_true hlast, Bool.true_and]
  rw [BitVec.getLsbD_signExtend, BitVec.getLsbD_setWidth, hmsb, signExtend]
  by_cases h : op.getLsbD (w - 1)
  · rw [if_pos (hbit.mpr h), getLsbD_fill j hj]
    by_cases hjw : j < w
    · by_cases hlast : j = w - 1
      · subst hlast; simp [hj, hjw, h]
      · have : ¬ (w - 1 ≤ j) := by omega
        simp [hj, hjw, this]
    · have hr : w - 1 ≤ j ∧ j < w - 1 + (64 - (w - 1)) := by omega
      simp [hj, hjw, h, hr]
  · rw [if_neg (fun hc => h (hbit.mp hc))]
    by_cases hjw : j < w
    · simp [hj, hjw]
    · rw [hhigh j (by omega)]
      simp [hjw, h]

/-- The shift of SRAI and SRA is the arithmetic right shift. -/
theorem sra_eq (a : U32) {n : Nat} (hn : n < 32) : Step.sra a n = a.sshiftRight n := by
  have hlt : ((a >>> n).setWidth 64 : U64).toNat < 2 ^ (32 - n) := by
    rw [BitVec.toNat_setWidth, BitVec.toNat_ushiftRight, Nat.shiftRight_eq_div_pow]
    have h1 : a.toNat / 2 ^ n < 2 ^ (32 - n) := by
      rw [Nat.div_lt_iff_lt_mul (Nat.two_pow_pos n), ← Nat.pow_add, Nat.sub_add_cancel (by omega)]
      exact a.isLt
    exact Nat.lt_of_le_of_lt (Nat.mod_le _ _) h1
  rw [Step.sra, signExtend_eq (by omega) (by omega) hlt]
  apply BitVec.eq_of_getLsbD_eq
  intro j hj
  have hmsb : (((a >>> n).setWidth 64 : U64).setWidth (32 - n)).msb = a.msb := by
    rw [BitVec.msb_eq_getLsbD_last, BitVec.msb_eq_getLsbD_last]
    have : n + (32 - n - 1) = 31 := by omega
    simp [this]; omega
  rw [BitVec.getLsbD_setWidth, BitVec.getLsbD_signExtend, hmsb, BitVec.getLsbD_sshiftRight]
  have hj' : j < 64 := by omega
  have hle : ¬ 32 ≤ j := by omega
  by_cases hjn : j < 32 - n
  · have hin : n + j < 32 := by omega
    have hin' : n + j < 64 := by omega
    simp [hj, hj', hle, hjn, hin, hin']
  · have hout : ¬ n + j < 32 := by omega
    simp [hj, hj', hle, hjn, hout]

/-! ### General registers -/

namespace RiscvState

/-- What `GP` returns for an index below 32. -/
def regVal (s : RiscvState) (idx : U32) : U64 := if idx = 0 then 0 else s.x (Fin.ofNat 32 idx.toNat)

/-- What `SetGP` leaves for an index below 32. -/
def setReg (s : RiscvState) (idx : U32) (v : U64) : RiscvState :=
  if idx = 0 then s else { s with x := Function.update s.x (Fin.ofNat 32 idx.toNat) v }

theorem gp_eq (s : RiscvState) {idx : U32} (h : idx.toNat < 32) : s.gp idx = .ok (s.regVal idx) := by
  have hfin : Fin.ofNat 32 idx.toNat = ⟨idx.toNat, h⟩ := Fin.ext (Nat.mod_eq_of_lt h)
  rw [gp, regVal, hfin, dif_pos h]
  split <;> rfl

theorem setGp_eq (s : RiscvState) {idx : U32} (h : idx.toNat < 32) (v : U64) :
    s.setGp idx v = .ok (s.setReg idx v) := by
  have hfin : Fin.ofNat 32 idx.toNat = ⟨idx.toNat, h⟩ := Fin.ext (Nat.mod_eq_of_lt h)
  rw [setGp, setReg, hfin, dif_pos h]
  split <;> rfl

@[simp] theorem setReg_zero (s : RiscvState) (v : U64) : s.setReg 0 v = s := rfl

end RiscvState

theorem field_toNat_lt (e : U32) (shift : Nat) : (field e shift 0x1f).toNat < 32 := by
  rw [field, BitVec.toNat_and]
  exact Nat.lt_of_le_of_lt Nat.and_le_right (by decide)

/-! ### Decode -/

namespace RiscvInstruction

section Decode

variable (i : RiscvInstruction)

@[simp] theorem decode_iclass : i.decode.iclass = i.iclass := by unfold decode; split <;> rfl
@[simp] theorem decode_encoding : i.decode.encoding = i.encoding := by unfold decode; split <;> rfl
@[simp] theorem decode_state : i.decode.state = i.state := by unfold decode; split <;> rfl
@[simp] theorem decode_memory : i.decode.memory = i.memory := by unfold decode; split <;> rfl
@[simp] theorem decode_mbuf : i.decode.mbuf = i.mbuf := by unfold decode; split <;> rfl
@[simp] theorem decode_nextPc : i.decode.nextPc = i.nextPc := by unfold decode; split <;> rfl

@[simp] theorem decode_mOpsMemory : i.decode.mOpsMemory = i.mOpsMemory := by
  unfold decode; split <;> rfl

end Decode

section New

variable (junk : Junk) (c : Iclass) (s : RiscvState) (m : Memory) (w : U32)

@[simp] theorem new_iclass : (new junk c s m w).iclass = c := rfl
@[simp] theorem new_encoding : (new junk c s m w).encoding = w := rfl
@[simp] theorem new_state : (new junk c s m w).state = s := rfl
@[simp] theorem new_memory : (new junk c s m w).memory = m := rfl
@[simp] theorem new_mOpsMemory : (new junk c s m w).mOpsMemory = [] := rfl

end New

/-! ### Accessors -/

/-- The values of `RS1()` and `RS2()`. -/
def rs1Val (i : RiscvInstruction) : U32 := (i.state.regVal i.rs1).setWidth 32
def rs2Val (i : RiscvInstruction) : U32 := (i.state.regVal i.rs2).setWidth 32

/-- The value of `SIGN_EXTEND_IMM(w)`. -/
def immVal (i : RiscvInstruction) (w : Nat) : U64 := signExtend (i.imm.setWidth 64) w

/-- The object after `RD(v)`. -/
def putRd (i : RiscvInstruction) (v : U32) : RiscvInstruction :=
  { i with state := i.state.setReg i.rd (v.setWidth 64) }

end RiscvInstruction

namespace Step

variable {i : RiscvInstruction}

theorem run_rs1 (h : i.rs1.toNat < 32) : rs1.run i = .ok i.rs1Val i := by
  simp only [rs1, EStateM.run_bind, EStateM.run_get, i.state.gp_eq h, Effect.run_lift_ok]
  rfl

theorem run_rs2 (h : i.rs2.toNat < 32) : rs2.run i = .ok i.rs2Val i := by
  simp only [rs2, EStateM.run_bind, EStateM.run_get, i.state.gp_eq h, Effect.run_lift_ok]
  rfl

theorem run_setRd (h : i.rd.toNat < 32) (v : U32) : (setRd v).run i = .ok () (i.putRd v) := by
  simp only [setRd, EStateM.run_bind, EStateM.run_get, i.state.setGp_eq h, Effect.run_lift_ok]
  rfl

@[simp] theorem run_pc : pc.run i = .ok (i.state.pc.setWidth 32) i := rfl
@[simp] theorem run_imm : imm.run i = .ok i.imm i := rfl
@[simp] theorem run_immForShift : immForShift.run i = .ok (i.imm &&& 0x1f).toNat i := rfl
@[simp] theorem run_signExtendImm (w : Nat) : (signExtendImm w).run i = .ok (i.immVal w) i := rfl

@[simp] theorem run_userMode : userMode.run i = .ok (i.state.currentPrivilegeLevel = 0) i := rfl
@[simp] theorem run_machineMode : machineMode.run i = .ok (i.state.currentPrivilegeLevel = 3) i := rfl
@[simp] theorem run_wfiEnabled : wfiEnabled.run i = .ok i.state.wfiEnabled i := rfl

theorem run_alu (h₁ : i.rs1.toNat < 32) (h₂ : i.rs2.toNat < 32) (hd : i.rd.toNat < 32)
    (f : U32 → U32 → U32) : (alu f).run i = .ok () (i.putRd (f i.rs1Val i.rs2Val)) := by
  simp only [alu, EStateM.run_bind, run_rs1 h₁, run_rs2 h₂, run_setRd hd]

theorem run_aluImm (h₁ : i.rs1.toNat < 32) (hd : i.rd.toNat < 32) (f : U32 → U64 → U32) :
    (aluImm f).run i = .ok () (i.putRd (f i.rs1Val (i.immVal 12))) := by
  simp only [aluImm, EStateM.run_bind, run_rs1 h₁, run_signExtendImm, run_setRd hd]

theorem run_shiftImm (h₁ : i.rs1.toNat < 32) (hd : i.rd.toNat < 32) (f : U32 → Nat → U32) :
    (shiftImm f).run i = .ok () (i.putRd (f i.rs1Val (i.imm &&& 0x1f).toNat)) := by
  simp only [shiftImm, EStateM.run_bind, run_rs1 h₁, run_immForShift, run_setRd hd]

theorem run_effectiveAddress (h₁ : i.rs1.toNat < 32) :
    effectiveAddress.run i = .ok (i.rs1Val.setWidth 64 + i.immVal 12) i := by
  simp only [effectiveAddress, EStateM.run_bind, run_rs1 h₁, run_signExtendImm, EStateM.run_pure]

/-! ### Execute -/

theorem run_stepAndAdvance (i : RiscvInstruction) :
    stepAndAdvance.run i = match (step i.iclass).run i with
      | .ok _ i' => .ok () { i' with state := i'.state.setPc (i'.nextPc.setWidth 64) }
      | .error f i' => .error f i' := by
  rw [stepAndAdvance, EStateM.run_bind, EStateM.run_get]
  simp only [EStateM.run_bind]
  cases (step i.iclass).run i <;> rfl

/-- A body that returns: the PC advances. -/
theorem execute_of_ok {i₁ : RiscvInstruction} (h : (step i.decode.iclass).run i.decode = .ok () i₁) :
    execute.run i = .ok () { i₁ with state := i₁.state.setPc (i₁.nextPc.setWidth 64) } := by
  rw [execute, EStateM.run_bind, EStateM.run_modify]
  simp only [Effect.run_tryCatch, run_stepAndAdvance, h]

/-- A body that throws a `SIM_EXCEPTIONS`: the trap is taken on the state the body left. -/
theorem execute_of_sim {i₁ : RiscvInstruction} {e : SimExceptions}
    (h : (step i.decode.iclass).run i.decode = .error (.sim e) i₁) :
    execute.run i = (exception e).run i₁ := by
  rw [execute, EStateM.run_bind, EStateM.run_modify]
  simp only [Effect.run_tryCatch, run_stepAndAdvance, h]

theorem run_exception_of_ok {e : SimExceptions} {s : RiscvState}
    (h : i.state.processException e i.encoding = .ok s) :
    (exception e).run i = .ok () { i with state := s } := by
  simp only [exception, EStateM.run_bind, EStateM.run_get, h, Effect.run_lift_ok]
  rfl

theorem run_exception_of_error {e : SimExceptions} {f : Fault}
    (h : i.state.processException e i.encoding = .error f) :
    (exception e).run i = .error f i := by
  simp only [exception, EStateM.run_bind, EStateM.run_get, h, Effect.run_lift_error]

/-- An error of the body that is not a `SIM_EXCEPTIONS` passes. -/
theorem execute_of_fault {i₁ : RiscvInstruction} {f : Fault}
    (h : (step i.decode.iclass).run i.decode = .error f i₁) (hf : ∀ e, f ≠ .sim e) :
    execute.run i = .error f i₁ := by
  rw [execute, EStateM.run_bind, EStateM.run_modify]
  simp only [Effect.run_tryCatch, run_stepAndAdvance, h]
  cases f with
  | sim e => exact absurd rfl (hf e)
  | _ => rfl

/-- The two ways `Execute` returns. -/
theorem execute_ok {i' : RiscvInstruction} (h : execute.run i = .ok () i') :
    (∃ i₁, (step i.decode.iclass).run i.decode = .ok () i₁ ∧
      i' = { i₁ with state := i₁.state.setPc (i₁.nextPc.setWidth 64) }) ∨
    ∃ e i₁ s, (step i.decode.iclass).run i.decode = .error (.sim e) i₁ ∧
      i₁.state.processException e i₁.encoding = .ok s ∧ i' = { i₁ with state := s } := by
  cases hrun : (step i.decode.iclass).run i.decode with
  | ok u i₁ =>
    rw [execute_of_ok hrun] at h
    exact .inl ⟨i₁, rfl, (EStateM.Result.ok.inj h).2.symm⟩
  | error f i₁ =>
    by_cases hf : ∀ e, f ≠ .sim e
    · rw [execute_of_fault hrun hf] at h
      cases h
    · obtain ⟨e, he⟩ := not_forall.mp hf
      obtain rfl := not_not.mp he
      rw [execute_of_sim hrun] at h
      cases hp : i₁.state.processException e i₁.encoding with
      | error f' => rw [run_exception_of_error hp] at h; cases h
      | ok s =>
        rw [run_exception_of_ok hp] at h
        exact .inr ⟨e, i₁, s, rfl, hp, (EStateM.Result.ok.inj h).2.symm⟩

end Step

/-! ### One instruction of a core -/

/-- `Execute` and `Writeback` of one word, on a copy of the core over `storage`. -/
def runWord (junk : Junk) (storage : RiscvState) (w : U32) (core : RiscvState) (m : Memory) :
    Except Fault (RiscvState × Memory) :=
  match Step.execute.run (.new junk (newInstruction w) (RiscvState.copy storage core) m w) with
  | .error f _ => .error f
  | .ok _ i' =>
    match (writeback i').run (core, i'.memory) with
    | .error f _ => .error f
    | .ok _ st => .ok st

theorem writeback_run (i : RiscvInstruction) (core : RiscvState) (m : Memory) :
    (writeback i).run (core, m)
      = Effect.mapState (fun m' => (core.update i.state, m')) ((writebackOps i.mOpsMemory).run m) := by
  rw [writeback, EStateM.run_bind, EStateM.run_modify]
  simp only
  rw [Effect.run_focus]

theorem runWord_ok {junk : Junk} {storage core core' : RiscvState} {w : U32} {m m' : Memory}
    (h : runWord junk storage w core m = .ok (core', m')) :
    ∃ i', Step.execute.run (.new junk (newInstruction w) (RiscvState.copy storage core) m w)
        = .ok () i' ∧ core' = core.update i'.state ∧
      (writebackOps i'.mOpsMemory).run i'.memory = .ok () m' := by
  unfold runWord at h
  split at h
  · cases h
  · next i' hrun =>
    refine ⟨i', hrun, ?_⟩
    rw [writeback_run] at h
    cases hw : (writebackOps i'.mOpsMemory).run i'.memory with
    | error f m₁ => rw [hw] at h; cases h
    | ok u m₁ =>
      rw [hw] at h
      have heq := Prod.mk.inj (Except.ok.inj h)
      exact ⟨heq.1.symm, by rw [heq.2]⟩

theorem runWord_of_execute {junk : Junk} {storage core : RiscvState} {w : U32} {m m' : Memory}
    {i' : RiscvInstruction}
    (h : Step.execute.run (.new junk (newInstruction w) (RiscvState.copy storage core) m w)
      = .ok () i') (hw : (writebackOps i'.mOpsMemory).run i'.memory = .ok () m') :
    runWord junk storage w core m = .ok (core.update i'.state, m') := by
  rw [runWord, h]
  simp only
  rw [writeback_run, hw, Effect.mapState_ok]

end Dimebox
