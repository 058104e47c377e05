import Dimebox.CsrInstructions
import Dimebox.PcAlignment

/-! MISA and its mask.

    `MISA_MASK` names the one bit of MISA that may be set and cleared, the C bit, but `SetMISA` masks
    with `DEFINED_MISA_VALUE`: a write can clear every bit. Nothing else touches MISA, and copies and
    commits change the C bit at most, so MISA is truthful until the first write that clears another
    bit. -/

namespace Dimebox

namespace RiscvState

/-- `MISA_MASK`: allow the C bit to be set and cleared. No function of the simulator reads it. -/
def misaMask : U64 := 0x4

/-- The bits of MISA that tell what is implemented and are not to change. -/
def definedMisaBits : U64 := definedMisaValue &&& ~~~misaMask

/-- MISA agrees with its defined value outside the mask. -/
def MisaTruthful (s : RiscvState) : Prop := s.misa &&& ~~~misaMask = definedMisaBits

instance (s : RiscvState) : Decidable s.MisaTruthful := inferInstanceAs (Decidable (_ = _))

/-- What `SetMISA` stores outside the mask. -/
theorem legalMisa_unmasked (pc old v : U64) :
    legalMisa pc old v &&& ~~~misaMask = v &&& definedMisaBits := by
  have hmask : (4 : U64) &&& ~~~misaMask = 0#64 := by decide
  rw [legalMisa, definedMisaBits]
  split
  · rw [BitVec.and_or_distrib_right, hmask, BitVec.or_zero, BitVec.and_assoc]
  · rw [BitVec.and_assoc]

theorem MisaSupported.truthful_iff {s : RiscvState} (h : s.MisaSupported) :
    s.MisaTruthful ↔ s.misa &&& definedMisaBits = definedMisaBits := by
  have hbits : s.misa &&& ~~~misaMask = s.misa &&& definedMisaBits := by
    rw [definedMisaBits, ← BitVec.and_assoc, h]
  rw [MisaTruthful, hbits]

theorem misaTruthful_congr {s t : RiscvState} (h : t.reg .misa = s.reg .misa) :
    t.MisaTruthful ↔ s.MisaTruthful := by
  have hmisa : t.misa = s.misa := h
  rw [MisaTruthful, MisaTruthful, hmisa]

/-- Commits and copies go through `SetMISA`, which keeps what is supported. -/
theorem misaTruthful_update {t : RiscvState} (h : t.MisaSupported) (s : RiscvState) :
    (s.update t).MisaTruthful ↔ t.MisaTruthful := by
  have hmisa : (s.update t).misa = committed t.pc (s.reg .misa) .misa t.misa := by
    rw [misa, read_update]; rfl
  rw [h.truthful_iff, MisaTruthful, hmisa, committed]
  split
  · rw [legal, legalMisa_unmasked]
  · next heq =>
    have hst : s.reg .misa = t.misa := not_not.mp heq
    rw [hst, ← h.truthful_iff]
    exact Iff.rfl

theorem reset_misa (storage : RiscvState) (resetAddress : U64) :
    (reset storage resetAddress).MisaSupported ∧ (reset storage resetAddress).MisaTruthful := by
  have hmisa : ∃ pc old, (reset storage resetAddress).misa = legalMisa pc old definedMisaValue :=
    ⟨_, _, by simp [misa, read, shown, reset, setMisa, write, legal]; rfl⟩
  obtain ⟨pc, old, hmisa⟩ := hmisa
  rw [MisaSupported, MisaTruthful, hmisa, legalMisa_unmasked]
  exact ⟨legalMisa_supported _ _ _, by decide⟩

end RiscvState

/-! ### One instruction -/

namespace Step

variable {i i' : RiscvInstruction}

/-- The instruction writes MISA. -/
def WritesMisa (i : RiscvInstruction) : Prop :=
  i.iclass.writesCsr i.decode.rs1 ∧ i.decode.imm = 0x301

instance (i : RiscvInstruction) : Decidable (WritesMisa i) := inferInstanceAs (Decidable (_ ∧ _))

theorem csrReg_misa {n : U32} : RiscvState.csrReg n = some .misa ↔ n = 0x301 := by
  refine ⟨fun h => ?_, fun h => by rw [h]; rfl⟩
  have hn : n.toNat = 0x301 := by
    unfold RiscvState.csrReg at h
    split at h <;> first | assumption | cases h
  exact BitVec.eq_of_toNat_eq hn

theorem isCsr_of_writesCsr {c : Iclass} {rs1 : U32} (h : c.writesCsr rs1) : c.isCsr := by
  cases c <;> first | rfl | cases h

theorem writesCsr_of_isJump {c : Iclass} {rs1 : U32} (h : c.isJump) : c.writesCsr rs1 = false := by
  cases c <;> first | rfl | cases h

/-- A write of MISA is not refused. -/
theorem execute_misa_written (hw : WritesMisa i) (h : execute.run i = .ok () i') :
    i'.state.reg .misa
      = RiscvState.legalMisa i.state.pc i.state.misa (i.decode.csrValue i.state.misa) := by
  obtain ⟨hwrites, himm⟩ := hw
  have hread : i.decode.state.csr i.decode.imm 3 = .ok (i.decode.state.read .misa) := by
    rw [himm]
    exact RiscvState.csr_misa _
  cases execute_outcome h with
  | @advanced i₁ run =>
    cases csr_ok (isCsr_of_writesCsr hwrites) run with
    | read csr writes =>
      rw [i.decode_iclass] at writes
      rw [hwrites] at writes
      cases writes
    | @written r reg writes =>
      obtain rfl : r = .misa := Option.some.inj (reg.symm.trans (csrReg_misa.mpr himm))
      have hbase := putRd_base i.decode ((i.decode.state.read .misa).setWidth 32)
      rw [i.decode_state] at hbase ⊢
      simp only [RiscvState.setPc, RiscvState.write, Function.update_self, RiscvState.legal]
      rw [hbase.pc, hbase.reg _ (by decide)]
      rfl
  | trapped run raises sync taken value =>
    cases raises with
    | sync trap csr => exact absurd hread (csr hwrites _)
    | mret | wfi | load => cases sync
    | misaligned target jump =>
      rw [writesCsr_of_isJump jump] at hwrites
      cases hwrites
    | refused trap writes hrd read readOnly =>
      rw [csrReg_misa.mpr himm] at readOnly
      cases readOnly
  | returned hc | slept hc => rw [hc] at hwrites; cases hwrites

/-- Nothing else touches MISA. -/
theorem execute_misa_kept (hw : ¬ WritesMisa i) (h : execute.run i = .ok () i') :
    i'.state.reg .misa = i.state.reg .misa := by
  cases execute_outcome h with
  | advanced run =>
    rcases step_reg run with hreg | ⟨r, v, -, hwrites, hr, hreg⟩
    · exact congrFun hreg .misa
    · have hne : r ≠ .misa := fun heq => hw ⟨hwrites, csrReg_misa.mp (by rw [hr, heq])⟩
      refine (congrFun hreg .misa).trans ?_
      simp [RiscvState.write, Ne.symm hne]
  | trapped run raises sync taken value =>
    rw [RiscvState.processException_misa taken]
    exact (raises_base raises sync).reg _ (by decide)
  | returned => simp [RiscvState.returned]
  | slept => simp [RiscvState.slept]

/-- The defined bits of MISA are kept by the values that have them. -/
def KeepsMisa (i : RiscvInstruction) : Prop :=
  WritesMisa i → i.decode.csrValue i.state.misa &&& RiscvState.definedMisaBits
    = RiscvState.definedMisaBits

instance (i : RiscvInstruction) : Decidable (KeepsMisa i) := inferInstanceAs (Decidable (_ → _))

theorem execute_misaTruthful (hi : i.state.MisaTruthful) (h : execute.run i = .ok () i') :
    i'.state.MisaTruthful ↔ KeepsMisa i := by
  by_cases hw : WritesMisa i
  · have hmisa : i'.state.misa
        = RiscvState.legalMisa i.state.pc i.state.misa (i.decode.csrValue i.state.misa) :=
      execute_misa_written hw h
    rw [RiscvState.MisaTruthful, hmisa, RiscvState.legalMisa_unmasked]
    exact ⟨fun hv _ => hv, fun hk => hk hw⟩
  · rw [RiscvState.misaTruthful_congr (execute_misa_kept hw h)]
    exact ⟨fun _ hw' => absurd hw' hw, fun _ => hi⟩

/-- No instruction clears the C bit at a PC that is not a multiple of four. -/
theorem execute_keeps_c (h : execute.run i = .ok () i') (hc : i.state.compressedExtensionEnabled)
    (hpc : ¬ 4 ∣ i.state.pc.toNat) : i'.state.compressedExtensionEnabled := by
  rw [RiscvState.compressedExtensionEnabled_eq] at hc ⊢
  by_cases hw : WritesMisa i
  · rw [execute_misa_written hw h, RiscvState.getLsbD_legalMisa]
    have hmisa : i.state.misa.getLsbD 2 = true := hc
    simp [hmisa, hpc]
  · rw [execute_misa_kept hw h]
    exact hc

end Step

/-! ### Runs -/

namespace RiscvSimulator

/-- The working state of a step shows the MISA of its core, up to the C bit. -/
theorem Prepared.misa {core : RiscvState} {pc : U32} {i : RiscvInstruction}
    (h : Prepared core pc i) (hcore : core.MisaSupported) : i.state.MisaSupported ∧
      (core.MisaTruthful → i.state.MisaTruthful) ∧
      (core.compressedExtensionEnabled → i.state.compressedExtensionEnabled) := by
  obtain ⟨storage, work, hserviced, hfetched⟩ := h.fetchedOn
  have hsupported := RiscvState.misaSupported_update hcore storage
  have htruthful := RiscvState.misaTruthful_update hcore storage
  have hbit := RiscvState.compressedExtensionEnabled_update storage core
  change serviceInterrupt (storage.update core) = .ok work at hserviced
  generalize storage.update core = s at hserviced hsupported htruthful hbit
  have hmisa : i.state.reg .misa = s.reg .misa := by
    rw [hfetched.state]
    change work.reg .misa = s.reg .misa
    unfold serviceInterrupt at hserviced
    split at hserviced
    · exact RiscvState.processException_misa hserviced
    · rw [← Except.ok.inj hserviced]
  refine ⟨RiscvState.misaSupported_of_reg hsupported hmisa, fun ht => ?_, fun hc => ?_⟩
  · rw [RiscvState.misaTruthful_congr hmisa]
    exact htruthful.mpr ht
  · rw [RiscvState.compressedExtensionEnabled_congr hmisa, hbit, hc, Bool.true_or]

/-- A commit shows the MISA of the state it takes over. -/
theorem Commits.misa {x : Execution} {core core' : RiscvState} (h : Commits x core core')
    (hcore : core.MisaSupported) : core'.MisaSupported ∧
      (core.MisaTruthful → (core'.MisaTruthful ↔ Step.KeepsMisa x.before)) := by
  obtain ⟨hsupported, htruthful, -⟩ := h.prepared.misa hcore
  have hafter := RiscvState.execute_misaSupported hsupported h.run
  obtain ⟨b, rfl⟩ := h.committed
  have hupdate := RiscvState.misaSupported_update hafter core
  have hiff := RiscvState.misaTruthful_update hafter core
  generalize core.update x.after.state = t at hupdate hiff
  refine ⟨hupdate, fun ht => ?_⟩
  rw [← Step.execute_misaTruthful (htruthful ht) h.run, ← hiff]
  exact Iff.rfl

theorem signal_misa (core : RiscvState) (e : SimExceptions) :
    (core.signal e).reg .misa = core.reg .misa := by
  obtain ⟨mip, hmip⟩ := core.foldl_signal [e]
  have hsignal : core.signal e = { core with reg := Function.update core.reg .mip mip } := hmip
  rw [hsignal]
  simp

theorem init_misa (simCfg : SimConfig) (host : Host) :
    ∀ core ∈ (init simCfg host).cores, core.MisaSupported ∧ core.MisaTruthful := by
  intro core hcore
  obtain ⟨k, -, rfl⟩ := List.mem_map.mp hcore
  exact RiscvState.reset_misa _ _

/-- In every run. -/
theorem run_misaSupported {simCfg : SimConfig} {host : Host} {xs : List Execution}
    {s : RiscvSimulator} (h : Run (init simCfg host) xs s) :
    ∀ core ∈ s.cores, core.MisaSupported := by
  have hany : ∀ x ∈ xs, True := fun _ _ => trivial
  refine h.cores_invariant (P := RiscvState.MisaSupported) ?_ ?_
    (fun core hcore => (init_misa simCfg host core hcore).1) hany
  · exact fun e hcore => RiscvState.misaSupported_of_reg hcore (signal_misa _ e)
  · exact fun hx _ hcore => (hx.misa hcore).1

/-- As long as every write of MISA has the defined bits. -/
theorem run_misaTruthful {simCfg : SimConfig} {host : Host} {xs : List Execution}
    {s : RiscvSimulator} (h : Run (init simCfg host) xs s)
    (hxs : ∀ x ∈ xs, Step.KeepsMisa x.before) : ∀ core ∈ s.cores, core.MisaTruthful := by
  intro core hcore
  refine (h.cores_invariant (P := fun core => core.MisaSupported ∧ core.MisaTruthful) ?_ ?_
    (init_misa simCfg host) hxs core hcore).2
  · rintro core e ⟨hsupported, htruthful⟩
    have hreg := signal_misa core e
    exact ⟨RiscvState.misaSupported_of_reg hsupported hreg,
      (RiscvState.misaTruthful_congr hreg).mpr htruthful⟩
  · rintro x core core' hx hkeeps ⟨hsupported, htruthful⟩
    obtain ⟨hsupported', hiff⟩ := hx.misa hsupported
    exact ⟨hsupported', (hiff htruthful).mpr hkeeps⟩

/-- In every run from reset MISA is truthful in every state if and only if every write of MISA has
    all the defined bits set. The C bit is never cleared at a PC that is not a multiple of four. -/
theorem misa_truthful_iff (simCfg : SimConfig) (host : Host) (xs : List Execution)
    (s : RiscvSimulator) (hrun : Run (init simCfg host) xs s) :
    ((∀ xs₁ xs₂ s₁, xs = xs₁ ++ xs₂ → Run (init simCfg host) xs₁ s₁ → Run s₁ xs₂ s →
        ∀ core ∈ s₁.cores, core.MisaTruthful) ↔ ∀ x ∈ xs, Step.KeepsMisa x.before) ∧
      ∀ x ∈ xs, (x.core.compressedExtensionEnabled → x.before.state.compressedExtensionEnabled) ∧
        (x.before.state.compressedExtensionEnabled → ¬ 4 ∣ x.before.state.pc.toNat →
          x.after.state.compressedExtensionEnabled ∧
          (x.core.update x.after.state).compressedExtensionEnabled) := by
  refine ⟨⟨fun hall x hx => ?_, fun hxs xs₁ xs₂ s₁ heq hrun₁ _ => ?_⟩, fun x hx => ?_⟩
  · obtain ⟨l₁, l₂, rfl⟩ := List.append_of_mem hx
    obtain ⟨s₁, s₂, hpre, hstep, hpost⟩ := hrun.split
    obtain ⟨core, core', hcore, hcore', hcommits⟩ := hstep.commits
    have hcore := List.mem_of_getElem? hcore
    have hbefore := hall l₁ (x :: l₂) s₁ rfl hpre ((Trace.Run.single hstep).trans hpost) core hcore
    have hafter := hall (l₁ ++ [x]) l₂ s₂ (by simp) (hpre.tail hstep) hpost core'
      (List.mem_of_getElem? hcore')
    exact ((hcommits.misa (run_misaSupported hpre core hcore)).2 hbefore).mp hafter
  · exact run_misaTruthful hrun₁ fun x hx => hxs x (by rw [heq]; exact List.mem_append_left _ hx)
  · obtain ⟨l₁, l₂, rfl⟩ := List.append_of_mem hx
    obtain ⟨s₁, s₂, hpre, hstep, -⟩ := hrun.split
    obtain ⟨core, core', hcore, -, hcommits⟩ := hstep.commits
    obtain ⟨-, -, hbit⟩ := hcommits.prepared.misa
      (run_misaSupported hpre core (List.mem_of_getElem? hcore))
    rw [hcommits.core_eq]
    refine ⟨hbit, fun hc hpc => ?_⟩
    have hafter := Step.execute_keeps_c hcommits.run hc hpc
    exact ⟨hafter, by rw [RiscvState.compressedExtensionEnabled_update, hafter, Bool.true_or]⟩

/-- `csrci misa,4` out of reset. -/
theorem misa_truthful_after_csrci :
    let start := init { resetAddress := 0x80000000 }
      (.simple 0x80000000 [0x73, 0x70, 0x12, 0x30] {})
    ∃ x s, Run start [x] s ∧ Step.WritesMisa x.before ∧ Step.KeepsMisa x.before ∧
      ∀ core ∈ s.cores, core.MisaTruthful := by
  intro start
  have hview : (execution 0 start.loaded).map (fun r =>
      (decide (Step.WritesMisa r.1.before), decide (Step.KeepsMisa r.1.before)))
      = some (true, true) := by
    decide +kernel
  cases hx : execution 0 start.loaded with
  | none => rw [hx] at hview; cases hview
  | some r =>
    obtain ⟨x, s⟩ := r
    rw [hx] at hview
    simp only [Option.map_some, Option.some.injEq, Prod.mk.injEq, decide_eq_true_eq] at hview
    obtain ⟨hwrites, hkeeps⟩ := hview
    have hrun : Run start [x] s := (Run.loaded start).tail (.of_execution hx)
    have htruthful := (misa_truthful_iff _ _ [x] s hrun).1.mpr (by simpa using hkeeps)
    exact ⟨x, s, hrun, hwrites, hkeeps, htruthful [x] [] s (by simp) hrun (.refl s)⟩

/-- `csrwi misa,0` out of reset: MISA reads zero. -/
theorem csrwi_clears_misa :
    ¬ ∀ (simCfg : SimConfig) (host : Host) (xs : List Execution) (s : RiscvSimulator),
      Run (init simCfg host) xs s → ∀ core ∈ s.cores,
        core.misa &&& ~~~RiscvState.misaMask
          = RiscvState.definedMisaValue &&& ~~~RiscvState.misaMask := by
  intro hall
  let start := init { resetAddress := 0x80000000 } (.simple 0x80000000 [0x73, 0x50, 0x10, 0x30] {})
  have hview : (execution 0 start.loaded).map (fun r => r.2.cores.map RiscvState.misa)
      = some [0] := by
    decide +kernel
  cases hx : execution 0 start.loaded with
  | none => rw [hx] at hview; cases hview
  | some r =>
    obtain ⟨x, s⟩ := r
    rw [hx] at hview
    have hrun : Run start [x] s := (Run.loaded start).tail (.of_execution hx)
    have hcores : s.cores.map RiscvState.misa = [0] := Option.some.inj hview
    obtain ⟨core, hcore, hmisa⟩ := List.mem_map.mp (by rw [hcores]; exact List.mem_singleton_self _)
    have htruthful := hall _ _ [x] s hrun core hcore
    rw [hmisa] at htruthful
    exact absurd htruthful (by decide)

end RiscvSimulator

end Dimebox
