import Dimebox.ExecuteLaws
import Dimebox.Commit

/-! The privilege level and the status registers.

    The level is changed by a trap, which sets it to 3, and by MRET, which loads it from
    MSTATUS.MPP. `SetMSTATUS` falls back to the MPP the register shows when it is given S or the
    reserved level, so MPP and the level are 0 or 3 once they both are. -/

namespace Dimebox

open Relation (ReflTransGen)

/-! ### The level rises by a trap only -/

/-- `i` raises `e`, the trap path of `ProcessException` is taken, and `i'` is the object after it. -/
structure EntersTrap (i : RiscvInstruction) (e : SimExceptions) (i' : RiscvInstruction) : Prop where
  raised : ∃ i₁, (Step.step i.iclass).run i.decode = .error (.sim e) i₁ ∧
    i₁.state.processException e i₁.encoding = .ok i'.state
  isTrap : e.isTrap
  level : i'.state.currentPrivilegeLevel = 3
  mepc : i'.state.mepc = i.state.pc
  mcause : i'.state.mcause = (e.code &&& 0xf).setWidth 64
  mtvec : i'.state.mtvec = i.state.mtvec
  pc : i'.state.pc = i'.state.mtvec

theorem SimExceptions.isTrap_of_isSync {e : SimExceptions} (h : e.isSync) : e.isTrap := by
  cases e <;> first | rfl | exact absurd h (by decide)

theorem entersTrap_of_trapped {i i₁ : RiscvInstruction} {e : SimExceptions} {mtval : U64}
    (run : (Step.step i.iclass).run i.decode = .error (.sim e) i₁)
    (raises : Step.Raises i.iclass i.decode e i₁) (sync : e.isSync)
    (taken : i₁.state.processException e i₁.encoding = .ok (i₁.state.trapState e mtval)) :
    EntersTrap i e { i₁ with state := i₁.state.trapState e mtval } := by
  have hbase := Step.raises_base raises sync
  have hmtvec : (i₁.state.trapState e mtval).reg .mtvec = i₁.state.reg .mtvec :=
    RiscvState.reg_trapState_other _ _ _ (by decide) (by decide) (by decide) (by decide)
  exact {
    raised := ⟨i₁, run, taken⟩
    isTrap := e.isTrap_of_isSync sync
    level := RiscvState.level_trapState _ _ _
    mepc := (RiscvState.reg_trapState_mepc _ _ _).trans hbase.pc
    mcause := RiscvState.reg_trapState_mcause _ _ _
    mtvec := hmtvec.trans (hbase.reg _ (by decide))
    pc := hmtvec.symm }

/-- A run of `Execute` that throws leaves the level alone. -/
theorem execute_error_machineState {i i' : RiscvInstruction} {f : Fault}
    (h : Step.execute.run i = .error f i') : i'.state.machineState = i.state.machineState := by
  have hstep := Step.step_machineState i.decode.iclass i.decode
  rw [RiscvInstruction.decode_state] at hstep
  cases hrun : (Step.step i.decode.iclass).run i.decode with
  | ok u i₁ => rw [Step.execute_of_ok hrun] at h; cases h
  | error f₁ i₁ =>
    rw [hrun] at hstep
    by_cases hf : ∀ e, f₁ ≠ .sim e
    · rw [Step.execute_of_fault hrun hf] at h
      cases h
      exact hstep
    · obtain ⟨e, he⟩ := not_forall.mp hf
      obtain rfl := not_not.mp he
      rw [Step.execute_of_sim hrun] at h
      cases hp : i₁.state.processException e i₁.encoding with
      | ok s => rw [Step.run_exception_of_ok hp] at h; cases h
      | error f' =>
        rw [Step.run_exception_of_error hp] at h
        cases h
        exact hstep

/-- An instruction executed in user mode leaves the core in user mode, or it has trapped: no
    instruction reaches machine mode in any other way. -/
theorem privilege_rises_only_by_trap (i : RiscvInstruction)
    (huser : i.state.currentPrivilegeLevel = 0) :
    (Effect.final (Step.execute.run i)).state.currentPrivilegeLevel = 0 ∨
      ∃ e i', Step.execute.run i = .ok () i' ∧ EntersTrap i e i' := by
  have hlevel : ∀ i' : RiscvInstruction, i'.state.machineState = i.state.machineState →
      i'.state.currentPrivilegeLevel = 0 := by
    intro i' h
    rw [RiscvState.currentPrivilegeLevel, h]
    exact huser
  cases hrun : Step.execute.run i with
  | error f i' => exact .inl (hlevel i' (execute_error_machineState hrun))
  | ok u i' =>
    cases Step.execute_outcome hrun with
    | @advanced i₁ run =>
      have hstep := Step.step_machineState i.iclass i.decode
      rw [run, RiscvInstruction.decode_state] at hstep
      exact .inl (hlevel _ hstep)
    | trapped run raises sync taken =>
      exact .inr ⟨_, _, rfl, entersTrap_of_trapped run raises sync taken⟩
    | returned _ level =>
      rw [huser] at level
      exact absurd level (by decide)
    | slept _ level => exact absurd huser level

/-- ECALL in user mode. -/
theorem ecall_rises_by_trap :
    let s : RiscvState := { pc := 0x80000000, machineState := 0 }
    let m : Memory := { physMem := { oracle := { rand := fun _ => 0, heap := fun _ => 0 } } }
    let i : RiscvInstruction := .new {} (newInstruction 0x73) s m 0x73
    i.state.currentPrivilegeLevel = 0 ∧ ∃ e i', Step.execute.run i = .ok () i' ∧ EntersTrap i e i' := by
  intro s m i
  refine ⟨by decide, (privilege_rises_only_by_trap i (by decide)).resolve_left ?_⟩
  decide +kernel

/-! ### What the setters keep -/

namespace RiscvState

/-- The status registers hold values their setters accept, and the level is U or M. -/
structure Warl (s : RiscvState) : Prop where
  mpp : mpp (s.reg .mstatus) = 0 ∨ mpp (s.reg .mstatus) = 3
  level : s.currentPrivilegeLevel = 0 ∨ s.currentPrivilegeLevel = 3
  mstatus : s.mstatus &&& 0x805de162 = 0
  misa : s.misa &&& ~~~definedMisaValue = 0

/-- MPP is 00 or 11. -/
theorem mpp_legal_iff (stored : U64) :
    (mpp stored = 0 ∨ mpp stored = 3) ↔ stored.getLsbD 12 = stored.getLsbD 11 := by
  rw [mpp_eq]
  cases stored.getLsbD 12 <;> cases stored.getLsbD 11 <;> decide

/-- What `SetMSTATUS` stores has no bit it clears, and a legal MPP if the old one was. -/
theorem legalMstatus_bits (old v : U64) : shown .mstatus (legalMstatus old v) &&& 0x805de162 = 0 := by
  rw [legalMstatus]
  split
  · rw [shown, BitVec.and_assoc, BitVec.and_or_distrib_right, BitVec.and_assoc, BitVec.and_assoc,
      BitVec.and_assoc]
    simp
  · simp [shown, BitVec.and_assoc]

theorem legalMstatus_mpp {old : U64} (h : mpp old = 0 ∨ mpp old = 3) (v : U64) :
    mpp (legalMstatus old v) = 0 ∨ mpp (legalMstatus old v) = 3 := by
  rw [mpp_legal_iff] at h ⊢
  rw [getLsbD_legalMstatus_mpp (.inr rfl), getLsbD_legalMstatus_mpp (.inl rfl),
    getLsbD_shown_mstatus (by simp), getLsbD_shown_mstatus (by simp), h]
  split
  · assumption
  · rfl

theorem misaSupported_iff (s : RiscvState) : s.misa &&& ~~~definedMisaValue = 0 ↔ s.MisaSupported := by
  constructor
  · intro h
    apply BitVec.eq_of_getLsbD_eq
    intro j hj
    have hbit := congrArg (·.getLsbD j) h
    simp only [BitVec.getLsbD_and, BitVec.getLsbD_not, hj, decide_true, Bool.true_and] at hbit ⊢
    cases hm : s.misa.getLsbD j
    · rfl
    · rw [hm] at hbit
      simpa using hbit
  · intro h
    rw [← h, BitVec.and_assoc]
    simp

/-- Only MSTATUS, MISA and the level matter. -/
theorem Warl.of_eq {s t : RiscvState} (h : s.Warl) (hmstatus : t.reg .mstatus = s.reg .mstatus)
    (hmisa : t.reg .misa = s.reg .misa)
    (hlevel : t.currentPrivilegeLevel = s.currentPrivilegeLevel) : t.Warl := by
  refine ⟨by rw [hmstatus]; exact h.mpp, by rw [hlevel]; exact h.level, ?_, ?_⟩
  · have heq : t.mstatus = s.mstatus := congrArg (shown .mstatus) hmstatus
    rw [heq]; exact h.mstatus
  · have heq : t.misa = s.misa := hmisa
    rw [heq]; exact h.misa

/-- MSTATUS written through its setter, at any level that is U or M. -/
theorem Warl.of_legal {s t : RiscvState} (h : s.Warl) {v : U64}
    (hmstatus : t.reg .mstatus = legalMstatus (s.reg .mstatus) v)
    (hmisa : t.reg .misa = s.reg .misa)
    (hlevel : t.currentPrivilegeLevel = 0 ∨ t.currentPrivilegeLevel = 3) : t.Warl := by
  refine ⟨by rw [hmstatus]; exact legalMstatus_mpp h.mpp v, hlevel, ?_, ?_⟩
  · rw [RiscvState.mstatus, read, hmstatus]
    exact legalMstatus_bits _ _
  · have heq : t.misa = s.misa := hmisa
    rw [heq]; exact h.misa

theorem Warl.write {s : RiscvState} (h : s.Warl) (r : Creg) (v : U64) : (s.write r v).Warl := by
  by_cases hmstatus : r = .mstatus
  · subst hmstatus
    exact h.of_legal (v := v) (by simp [RiscvState.write, legal]) (by simp [RiscvState.write]) h.level
  by_cases hmisa : r = .misa
  · subst hmisa
    have hsup := misaSupported_write ((misaSupported_iff s).mp h.misa) .misa v
    refine ⟨?_, h.level, ?_, (misaSupported_iff _).mpr hsup⟩
    · simpa [RiscvState.write] using h.mpp
    · simpa [RiscvState.write, RiscvState.mstatus, read] using h.mstatus
  · exact h.of_eq (by simp [RiscvState.write, Ne.symm hmstatus])
      (by simp [RiscvState.write, Ne.symm hmisa]) rfl

/-- Copied or committed into any object. -/
theorem Warl.update {t : RiscvState} (h : t.Warl) (s : RiscvState) : (s.update t).Warl := by
  have hbits := (mpp_legal_iff _).mp h.mpp
  rw [← getLsbD_shown_mstatus (j := 12) (by simp), ← getLsbD_shown_mstatus (j := 11) (by simp)]
    at hbits
  have hlegal : t.MstatusLegal :=
    ⟨h.mstatus, not_or.mp fun hne => (mpp_illegal_iff t.mstatus).mp hne hbits⟩
  have hmstatus : (s.update t).mstatus = t.mstatus := by
    rw [RiscvState.mstatus, read_update]
    exact (kept_mstatus_iff t).mpr hlegal _
  have hlevel : (s.update t).currentPrivilegeLevel = t.currentPrivilegeLevel := by
    rw [update_eq]; rfl
  refine ⟨?_, by rw [hlevel]; exact h.level, by rw [hmstatus]; exact h.mstatus, ?_⟩
  · rw [mpp_legal_iff, ← getLsbD_shown_mstatus (j := 12) (by simp),
      ← getLsbD_shown_mstatus (j := 11) (by simp)]
    have hshown : shown .mstatus ((s.update t).reg .mstatus) = t.mstatus := hmstatus
    rw [hshown]
    exact hbits
  · exact (misaSupported_iff _).mpr (misaSupported_update ((misaSupported_iff t).mp h.misa) s)

theorem Warl.signal {s : RiscvState} (h : s.Warl) (e : SimExceptions) : (s.signal e).Warl := by
  unfold RiscvState.signal
  split
  · exact h.write .mip _
  · exact h.write .mip _
  · exact h

/-- A trap, an interrupt, MRET or WFI. -/
theorem Warl.processException {s s' : RiscvState} (h : s.Warl) {e : SimExceptions} {opcode : U32}
    (hs : s.processException e opcode = .ok s') : s'.Warl := by
  by_cases he : e.isTrap
  · obtain ⟨s₁, hs₁, ht⟩ := s.processException_isTrap he opcode
    obtain rfl : s' = s₁ := Except.ok.inj (hs.symm.trans hs₁)
    exact h.of_legal (by rw [ht.mstatus]; rfl) ht.misa (.inr ht.level)
  by_cases hm : e = .processMret
  · subst hm
    rw [mret_eq] at hs
    obtain rfl := Except.ok.inj hs
    -- the level comes out of MPP
    have hlevel : s.returned.currentPrivilegeLevel = RiscvState.mpp (s.reg .mstatus) &&& 3 :=
      s.setPrivilegeLevel_level _
    refine h.of_legal (by simp only [returned, Function.update_self]; rfl) (by simp [returned]) ?_
    rw [hlevel]
    rcases h.mpp with hmpp | hmpp
    · exact .inl (by rw [hmpp]; rfl)
    · exact .inr (by rw [hmpp]; rfl)
  by_cases hw : e = .processWfi
  · subst hw
    rw [wfi_eq] at hs
    obtain rfl := Except.ok.inj hs
    have hlevel : s.slept.currentPrivilegeLevel = s.currentPrivilegeLevel := by
      rw [currentPrivilegeLevel, slept, BitVec.and_or_distrib_right]
      simp [currentPrivilegeLevel]
    exact h.of_eq (by simp [slept]) (by simp [slept]) hlevel
  cases e <;> first | exact absurd rfl he | contradiction

theorem Warl.execute {i : RiscvInstruction} (h : i.state.Warl) :
    (Effect.final (Step.execute.run i)).state.Warl := by
  have hstep : (Effect.final ((Step.step i.decode.iclass).run i.decode)).state.Warl := by
    refine Step.step_moves (R := fun i i' => i.state.Warl → i'.state.Warl) (fun _ h => h)
      (fun h₁ h₂ h => h₂ (h₁ h)) ?_ _ _ (by rw [i.decode_state]; exact h)
    intro i i' hm hi
    cases hm with
    | setGp hs => rw [setGp_ok hs]; exact hi.of_eq rfl rfl rfl
    | write r v => exact hi.write r v
    | jump | read | mbuf | queue => exact hi
  cases hrun : (Step.step i.decode.iclass).run i.decode with
  | ok u i₁ =>
    rw [hrun] at hstep
    rw [Step.execute_of_ok hrun]
    exact hstep.of_eq rfl rfl rfl
  | error f i₁ =>
    rw [hrun] at hstep
    by_cases hf : ∀ e, f ≠ .sim e
    · rw [Step.execute_of_fault hrun hf]
      exact hstep
    · obtain ⟨e, he⟩ := not_forall.mp hf
      obtain rfl := not_not.mp he
      rw [Step.execute_of_sim hrun]
      cases hp : i₁.state.processException e i₁.encoding with
      | ok s => rw [Step.run_exception_of_ok hp]; exact hstep.processException hp
      | error f' => rw [Step.run_exception_of_error hp]; exact hstep

/-- What can happen to the state of a core. -/
inductive Op : RiscvState → RiscvState → Prop where
  /-- an instruction of any class and encoding on any memory, returned or thrown -/
  | instruction (i : RiscvInstruction) : Op i.state (Effect.final (Step.execute.run i)).state
  /-- a trap, an interrupt, MRET or WFI -/
  | exception {s s' : RiscvState} {e : SimExceptions} {opcode : U32}
      (h : s.processException e opcode = .ok s') : Op s s'
  /-- a CSR write at any level -/
  | setCsr {s s' : RiscvState} {csr level : U32} {rval : U64}
      (h : s.setCsr csr level rval = .ok s') : Op s s'
  /-- the copy in any object the state is copied or committed to -/
  | update (s object : RiscvState) : Op s (object.update s)
  | signal (s : RiscvState) (e : SimExceptions) : Op s (s.signal e)

theorem Warl.op {s s' : RiscvState} (h : s.Warl) (hop : Op s s') : s'.Warl := by
  cases hop with
  | instruction i => exact h.execute
  | exception hs => exact h.processException hs
  | setCsr hs =>
    obtain ⟨r, -, rfl⟩ := Step.setCsr_ok hs
    exact h.write r _
  | update _ object => exact h.update object
  | signal _ e => exact h.signal e

/-- From a state with legal status registers every sequence of operations leads to such states, and
    never to supervisor or hypervisor mode. -/
theorem warl_invariant (s s' : RiscvState) (h : s.Warl) (hops : ReflTransGen Op s s') :
    s'.Warl ∧ s'.currentPrivilegeLevel ≠ 1 ∧ s'.currentPrivilegeLevel ≠ 2 := by
  have hwarl : s'.Warl := by
    induction hops with
    | refl => exact h
    | tail _ hop ih => exact ih.op hop
  refine ⟨hwarl, ?_⟩
  rcases hwarl.level with hlevel | hlevel <;> rw [hlevel] <;> decide

/-- All ones written to MSTATUS out of reset, and an MRET. -/
theorem warl_invariant_from_reset :
    let s : RiscvState := reset {} 0x80000000
    s.Warl ∧ (s.write .mstatus 0xffffffffffffffff).returned.Warl := by
  intro s
  have hs : s.Warl := ⟨by decide, by decide, by decide, by decide⟩
  have hset : s.setCsr 0x300 3 0xffffffffffffffff = .ok (s.write .mstatus 0xffffffffffffffff) := rfl
  exact ⟨hs, (warl_invariant s _ hs
    (.tail (.single (.setCsr hset)) (.exception (mret_eq _ 0x30200073)))).1⟩

end RiscvState

end Dimebox
