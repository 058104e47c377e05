import Dimebox.Jumps
import Dimebox.Runs

/-! Alignment of the PC.

    The next PC of an instruction and the targets `SetPC` accepts are aligned, and the commit keeps
    MISA.C set while the PC is not a multiple of four. MTVEC and MEPC are written without a mask and
    jumped to without a check, and a debug client may set the PC to anything: the PC stays aligned
    as long as these hold aligned addresses when they are used. -/

namespace Dimebox

namespace RiscvState

/-- An address the core may fetch from: a multiple of two, and of four if MISA.C is clear. -/
def Aligned (s : RiscvState) (a : U64) : Prop :=
  2 ∣ a.toNat ∧ (s.compressedExtensionEnabled = false → 4 ∣ a.toNat)

instance (s : RiscvState) (a : U64) : Decidable (s.Aligned a) :=
  inferInstanceAs (Decidable (_ ∧ _))

theorem and_one_eq_zero (a : U64) : a &&& 1 = 0 ↔ 2 ∣ a.toNat := by
  have hmod : (a &&& 1).toNat = a.toNat % 2 := by
    rw [BitVec.toNat_and]
    exact Nat.and_two_pow_sub_one_eq_mod a.toNat 1
  rw [← BitVec.toNat_inj, hmod]
  exact Nat.dvd_iff_mod_eq_zero.symm

theorem and_three_eq_zero (a : U64) : a &&& 3 = 0 ↔ 4 ∣ a.toNat := by
  have hmod : (a &&& 3).toNat = a.toNat % 4 := by
    rw [BitVec.toNat_and]
    exact Nat.and_two_pow_sub_one_eq_mod a.toNat 2
  rw [← BitVec.toNat_inj, hmod]
  exact Nat.dvd_iff_mod_eq_zero.symm

/-! ### The C bit -/

theorem compressedExtensionEnabled_eq (s : RiscvState) :
    s.compressedExtensionEnabled = (s.reg .misa).getLsbD 2 := by
  have hbit : ∀ v : U64, decide (v &&& 4 = 4) = v.getLsbD 2 := by
    intro v
    have h4 : (4 : U64) = BitVec.twoPow 64 2 := by decide
    have hne : 0 ≠ BitVec.twoPow 64 2 := by decide
    rw [h4, BitVec.and_twoPow]
    cases v.getLsbD 2
    · exact decide_eq_false hne
    · simp
  exact hbit _

theorem getLsbD_legalMisa (pc old v : U64) : (legalMisa pc old v).getLsbD 2
    = (v.getLsbD 2 || (old.getLsbD 2 && decide (¬ 4 ∣ pc.toNat))) := by
  have hold : old &&& 4 = 4 ↔ old.getLsbD 2 := by
    have h := compressedExtensionEnabled_eq { reg := fun _ => old }
    exact ⟨fun h4 => h.symm.trans (decide_eq_true h4), fun hb => of_decide_eq_true (h.trans hb)⟩
  have hdefined : (v &&& definedMisaValue).getLsbD 2 = v.getLsbD 2 := by
    rw [BitVec.getLsbD_and]
    have h2 : definedMisaValue.getLsbD 2 = true := by decide
    rw [h2, Bool.and_true]
  rw [legalMisa]
  simp only [hold, ne_eq, and_three_eq_zero]
  split
  · next h => simp [h.1, h.2]
  · next h =>
    rw [hdefined]
    cases hb : old.getLsbD 2
    · rw [Bool.false_and, Bool.or_false]
    · simp [show 4 ∣ pc.toNat from by_contra fun hn => h ⟨hb, hn⟩]

/-- A commit clears the C bit of the target only at a multiple of four. -/
theorem compressedExtensionEnabled_update (s t : RiscvState) :
    (s.update t).compressedExtensionEnabled = (t.compressedExtensionEnabled ||
      (s.compressedExtensionEnabled && decide (¬ 4 ∣ t.pc.toNat))) := by
  rw [compressedExtensionEnabled_eq, compressedExtensionEnabled_eq t,
    compressedExtensionEnabled_eq s, update_eq]
  change (committed t.pc (s.reg .misa) .misa (t.reg .misa)).getLsbD 2 = _
  rw [committed]
  split
  · exact getLsbD_legalMisa _ _ _
  · next h =>
    have heq : s.reg .misa = t.reg .misa := not_not.mp h
    rw [heq]
    cases (t.reg .misa).getLsbD 2 <;> rfl

theorem Aligned.update {core t : RiscvState} (h : core.Aligned t.pc) :
    (core.update t).Aligned (core.update t).pc := by
  rw [pc_update]
  refine ⟨h.1, fun hc => ?_⟩
  rw [compressedExtensionEnabled_update, Bool.or_eq_false_iff, Bool.and_eq_false_iff] at hc
  rcases hc.2 with hcore | hpc
  · exact h.2 hcore
  · exact not_not.mp (of_decide_eq_false hpc)

theorem compressedExtensionEnabled_copy {core : RiscvState} (h : core.Aligned core.pc)
    (storage : RiscvState) :
    (copy storage core).compressedExtensionEnabled = core.compressedExtensionEnabled := by
  rw [copy, compressedExtensionEnabled_update]
  cases hc : core.compressedExtensionEnabled
  · simp [h.2 hc]
  · rfl

/-! ### Addresses -/

/-- Only the low two bits of an address count. -/
theorem Aligned.of_mod {s : RiscvState} {a b : U64} (h : s.Aligned a)
    (hmod : b.toNat % 4 = a.toNat % 4) : s.Aligned b := by
  obtain ⟨h2, h4⟩ := h
  exact ⟨by omega, fun hc => by have := h4 hc; omega⟩

theorem Aligned.add_four {s : RiscvState} {a : U64} (h : s.Aligned a) (n : U64) :
    s.Aligned (a + n * 4) := by
  refine h.of_mod ?_
  have h4 : (4 : U64).toNat = 4 := rfl
  rw [BitVec.toNat_add, BitVec.toNat_mul, h4]
  omega

/-- The address after an instruction of a size the core can execute. -/
theorem Aligned.next {s : RiscvState} {a : U64} (h : s.Aligned a) {size : U32}
    (hsize : size = 4 ∨ size = 2 ∧ s.compressedExtensionEnabled) :
    s.Aligned ((a.setWidth 32 + size).setWidth 64) := by
  obtain ⟨h2, h4⟩ := h
  have hnat : ((a.setWidth 32 + size).setWidth 64).toNat
      = (a.toNat % 2 ^ 32 + size.toNat) % 2 ^ 32 := by
    rw [BitVec.toNat_setWidth, BitVec.toNat_add, BitVec.toNat_setWidth]
    omega
  rw [Aligned, hnat]
  rcases hsize with rfl | ⟨rfl, hc⟩
  · have hfour : (4 : U32).toNat = 4 := rfl
    refine ⟨by omega, fun hc => ?_⟩
    have := h4 hc
    omega
  · have htwo : (2 : U32).toNat = 2 := rfl
    refine ⟨by omega, fun hc' => ?_⟩
    rw [hc] at hc'
    cases hc'

/-- A target `SetPC` accepts. -/
theorem Aligned.of_mask {s : RiscvState} {target : U64} {size : U32}
    (hsize : size = 4 ∨ size = 2 ∧ s.compressedExtensionEnabled)
    (h : target &&& Step.alignmentMask s (size.setWidth 64) = 0) :
    s.Aligned ((target.setWidth 32 : U32).setWidth 64) := by
  have hnat : ((target.setWidth 32 : U32).setWidth 64 : U64).toNat % 4 = target.toNat % 4 := by
    rw [BitVec.toNat_setWidth, BitVec.toNat_setWidth]
    omega
  refine Aligned.of_mod (a := target) ?_ hnat
  unfold Step.alignmentMask at h
  split at h
  · next hc =>
    refine ⟨(and_one_eq_zero _).mp h, fun hc' => ?_⟩
    rw [hc] at hc'
    cases hc'
  · next hc =>
    rcases hsize with rfl | ⟨rfl, hc'⟩
    · have h4 : 4 ∣ target.toNat := (and_three_eq_zero _).mp h
      exact ⟨by omega, fun _ => h4⟩
    · exact absurd hc' hc

/-- Alignment depends on the C bit. -/
theorem Aligned.congr {s t : RiscvState} {a : U64} (h : s.Aligned a)
    (hc : t.compressedExtensionEnabled = s.compressedExtensionEnabled) : t.Aligned a := by
  rw [Aligned, hc]
  exact h

theorem compressedExtensionEnabled_congr {s t : RiscvState} (h : t.reg .misa = s.reg .misa) :
    t.compressedExtensionEnabled = s.compressedExtensionEnabled := by
  rw [compressedExtensionEnabled_eq, compressedExtensionEnabled_eq, h]

end RiscvState

/-! ### One instruction -/

namespace Step

variable {i i' : RiscvInstruction}

/-- The body throws a trap of the instruction. -/
def Traps (i : RiscvInstruction) : Prop :=
  ∃ e i₁, (step i.iclass).run i.decode = .error (.sim e) i₁ ∧ e.isSync

/-- No body but a jump sets the next PC. -/
theorem step_nextPc {c : Iclass} (hc : ¬ c.isJump) (i : RiscvInstruction) :
    (Effect.final ((step c).run i)).nextPc = i.nextPc := by
  have hclosed : Closed fun i i' : RiscvInstruction => i'.nextPc = i.nextPc :=
    { refl := fun _ => rfl, trans := fun h h' => h'.trans h, setRd := fun _ => rfl
      read := fun _ _ _ _ _ => rfl, mbuf := fun _ _ => rfl, queue := fun _ _ _ => rfl }
  rcases Iclass.cases_kind c with hp | hj | hcsr | rfl
  · exact hclosed.step hp i
  · exact absurd hj hc
  · exact hclosed.csr (fun v => moves_setCsrImm hclosed.refl fun _ => rfl) hcsr i
  · exact hclosed.addi16sp (fun v => moves_setSp hclosed.refl fun _ => rfl) i

/-- The addresses an instruction goes to without a check are aligned. -/
structure AlignedTargets (i : RiscvInstruction) : Prop where
  trap : Traps i → i.state.Aligned i.state.mtvec
  mret : i.iclass = .mret → i.state.compressedExtensionEnabled → 2 ∣ i.state.mepc.toNat
  wfi : i.iclass = .wfi → i.state.Aligned i.state.pc

/-- The PC after an instruction that may only go to aligned addresses. -/
theorem execute_aligned (hnext : i.state.Aligned (i.nextPc.setWidth 64))
    (hsize : i.iclass.instrSize = 4 ∨
      i.iclass.instrSize = 2 ∧ i.state.compressedExtensionEnabled)
    (hi : AlignedTargets i) (h : execute.run i = .ok () i') : i.state.Aligned i'.state.pc := by
  cases execute_outcome h with
  | @advanced i₁ run =>
    change i.state.Aligned (i₁.nextPc.setWidth 64)
    by_cases hj : i.iclass.isJump
    · obtain ⟨hmask, s, -, rfl⟩ := jump_ok hj run
      exact .of_mask hsize hmask
    · have hkept := step_nextPc hj i.decode
      rw [run, RiscvInstruction.decode_nextPc] at hkept
      rw [show i₁.nextPc = i.nextPc from hkept]
      exact hnext
  | @trapped e i₁ mtval run raises sync taken value =>
    have hmtvec : i₁.state.mtvec = i.state.mtvec := (raises_base raises sync).reg _ (by decide)
    change i.state.Aligned i₁.state.mtvec
    rw [hmtvec]
    exact hi.trap ⟨e, i₁, run, sync⟩
  | returned hc level =>
    change i.state.Aligned i.state.returned.pc
    rw [RiscvState.returned]
    dsimp only
    split
    · next hcomp => exact ⟨hi.mret hc hcomp, fun hc' => by rw [hcomp] at hc'; cases hc'⟩
    · have h4 : 4 ∣ (i.state.reg .mepc &&& ~~~0x3).toNat := by
        rw [← RiscvState.and_three_eq_zero, BitVec.and_assoc]
        simp
      exact ⟨by omega, fun _ => h4⟩
  | slept hc level => exact hi.wfi hc

end Step

/-! ### Runs -/

namespace RiscvSimulator

/-- Wherever the execution went without a check, it went to an aligned address. -/
structure Execution.AlignedTargets (x : Execution) : Prop where
  interrupt : x.core.interruptPending.isSome → x.core.Aligned x.core.mtvec
  instruction : Step.AlignedTargets x.before

/-- The working state of a step has the C bit of its core and an aligned PC. -/
theorem serviceInterrupt_aligned {storage core work : RiscvState}
    (h : serviceInterrupt (RiscvState.copy storage core) = .ok work) (hcore : core.Aligned core.pc)
    (hint : core.interruptPending.isSome → core.Aligned core.mtvec) :
    work.compressedExtensionEnabled = core.compressedExtensionEnabled ∧ core.Aligned work.pc := by
  have hc := RiscvState.compressedExtensionEnabled_copy hcore storage
  have hpc : (RiscvState.copy storage core).pc = core.pc := RiscvState.pc_copy _ _
  have hmtvec : (RiscvState.copy storage core).mtvec = core.mtvec :=
    RiscvState.read_update_of_plain _ _ (by decide) (by decide) (by decide)
  have hpending : (RiscvState.copy storage core).interruptPending = core.interruptPending :=
    RiscvState.interruptPending_update _ _
  generalize RiscvState.copy storage core = s at h hc hpc hmtvec hpending
  rcases serviceInterrupt_ok h with ⟨-, rfl⟩ | ⟨e, bit, hsome, he, rfl⟩
  · exact ⟨hc, by rw [hpc]; exact hcore⟩
  · have hmisa : (s.takeInterrupt e bit).reg .misa = s.reg .misa := by
      rw [RiscvState.takeInterrupt_eq]
      simp [RiscvState.trapRegs]
    refine ⟨(RiscvState.compressedExtensionEnabled_congr hmisa).trans hc, ?_⟩
    rw [RiscvState.pc_takeInterrupt _ _ (he.imp And.left And.left), hmtvec]
    exact (hint (by rw [← hpending, hsome]; rfl)).add_four _

theorem Commits.aligned {x : Execution} {core core' : RiscvState} (h : Commits x core core')
    (hx : x.AlignedTargets) (hcore : core.Aligned core.pc) : core'.Aligned core'.pc := by
  obtain ⟨hxcore, hprep, hrun, b, rfl⟩ := h
  obtain ⟨storage, work, hserviced, hfetched⟩ := hprep.fetchedOn
  obtain ⟨hint, hinstr⟩ := hx
  rw [hxcore] at hint
  obtain ⟨hwork, hpc⟩ := serviceInterrupt_aligned hserviced hcore hint
  have hstate : x.before.state.compressedExtensionEnabled = core.compressedExtensionEnabled := by
    rw [hfetched.state]
    exact hwork
  have hsize : x.before.iclass.instrSize = 4 ∨
      x.before.iclass.instrSize = 2 ∧ core.compressedExtensionEnabled := by
    rw [← hwork]
    exact hfetched.size
  have hnext : x.before.state.Aligned (x.before.nextPc.setWidth 64) := by
    rw [hfetched.nextPc, hfetched.pc_eq]
    exact (hpc.next hsize).congr hstate
  have hafter := Step.execute_aligned hnext (by rw [hstate]; exact hsize) hinstr hrun
  have hupdate := (hafter.congr hstate.symm).update
  generalize core.update x.after.state = core' at hupdate
  exact hupdate.congr rfl

theorem init_aligned {simCfg : SimConfig} {host : Host} (h : 4 ∣ simCfg.resetAddress.toNat) :
    ∀ core ∈ (init simCfg host).cores, core.Aligned core.pc := by
  intro core hcore
  obtain ⟨k, -, rfl⟩ := List.mem_map.mp hcore
  exact ⟨Nat.dvd_trans (by decide) h, fun _ => h⟩

/-- In every run from reset at a multiple of four in which interrupts, traps, MRETs and WFIs find
    aligned addresses to go to, the PC of every core is a multiple of two, and of four if MISA.C is
    clear. -/
theorem pc_stays_aligned (simCfg : SimConfig) (host : Host) (h : 4 ∣ simCfg.resetAddress.toNat)
    (xs : List Execution) (s : RiscvSimulator) (hrun : Run (init simCfg host) xs s)
    (hxs : ∀ x ∈ xs, x.AlignedTargets) :
    ∀ core ∈ s.cores, 2 ∣ core.pc.toNat ∧
      (core.compressedExtensionEnabled = false → 4 ∣ core.pc.toNat) := by
  refine hrun.cores_invariant (P := fun core => core.Aligned core.pc) ?_ ?_ (init_aligned h) hxs
  · intro core e hcore
    obtain ⟨mip, hmip⟩ := core.foldl_signal [e]
    have hsignal : core.signal e = { core with reg := Function.update core.reg .mip mip } := hmip
    rw [hsignal]
    exact hcore.congr (RiscvState.compressedExtensionEnabled_congr (by simp))
  · exact fun hx hok hcore => hx.aligned hok hcore

/-- ECALL out of reset, with MTVEC zero. -/
theorem ecall_stays_aligned :
    let start := init { resetAddress := 0x80000000 } (.simple 0x80000000 [0x73, 0, 0, 0] {})
    ∃ x s, Run start [x] s ∧ x.before.iclass = .ecall ∧ x.AlignedTargets ∧
      ∀ core ∈ s.cores, 2 ∣ core.pc.toNat ∧
        (core.compressedExtensionEnabled = false → 4 ∣ core.pc.toNat) := by
  intro start
  have hview : (execution 0 start.loaded).map (fun r => (r.1.core.interruptPending.isSome,
      r.1.before.iclass, decide (r.1.before.state.Aligned r.1.before.state.mtvec)))
      = some (false, .ecall, true) := by
    decide +kernel
  cases hx : execution 0 start.loaded with
  | none => rw [hx] at hview; cases hview
  | some r =>
    obtain ⟨x, s⟩ := r
    rw [hx] at hview
    simp only [Option.map_some, Option.some.injEq, Prod.mk.injEq, decide_eq_true_eq] at hview
    obtain ⟨hpending, hclass, hmtvec⟩ := hview
    have hrun : Run start [x] s := (Run.loaded start).tail (.of_execution hx)
    have haligned : x.AlignedTargets := by
      refine ⟨fun h => ?_, fun _ => hmtvec, fun h => ?_, fun h => ?_⟩
      · rw [hpending] at h
        cases h
      · rw [hclass] at h
        cases h
      · rw [hclass] at h
        cases h
    exact ⟨x, s, hrun, hclass, haligned, pc_stays_aligned _ _ (by decide) [x] s hrun
      (by simpa using haligned)⟩

/-- `csrwi mtvec,2`, `csrci misa,4`, `ecall` out of reset: the core is at PC 2 with MISA.C clear. -/
theorem mtvec_misaligns_pc :
    ¬ ∀ (simCfg : SimConfig) (host : Host) (xs : List Execution) (s : RiscvSimulator),
      4 ∣ simCfg.resetAddress.toNat → Run (init simCfg host) xs s →
      ∀ core ∈ s.cores, 2 ∣ core.pc.toNat ∧
        (core.compressedExtensionEnabled = false → 4 ∣ core.pc.toNat) := by
  intro hall
  let simCfg : SimConfig := { resetAddress := 0x80000000 }
  let host : Host := .simple 0x80000000
    [0x73, 0x50, 0x51, 0x30, 0x73, 0x70, 0x12, 0x30, 0x73, 0, 0, 0] {}
  have hview : (Effect.result ((go 3).run (init simCfg host))).isSome ∧
      (Effect.final ((go 3).run (init simCfg host))).cores.map
        (fun core => (core.pc, core.compressedExtensionEnabled)) = [(2, false)] := by
    decide +kernel
  cases hgo : (go 3).run (init simCfg host) with
  | error f s => rw [hgo] at hview; cases hview.1
  | ok r s =>
    rw [hgo] at hview
    obtain ⟨xs, hrun⟩ := go_runs hgo
    obtain ⟨core, hcore, hpc⟩ := List.mem_map.mp (by rw [hview.2]; exact List.mem_singleton_self _)
    rw [Prod.mk.injEq] at hpc
    have h4 := (hall simCfg host xs s (by decide) hrun core hcore).2 hpc.2
    rw [hpc.1] at h4
    exact absurd h4 (by decide)

end RiscvSimulator

end Dimebox
