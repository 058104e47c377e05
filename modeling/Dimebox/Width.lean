import Dimebox.CsrInstructions
import Dimebox.Runs

/-! Register values below 2^32.

    Registers are 64-bit fields of a 32-bit machine. Nearly every writer gives them a 32-bit value;
    the exceptions are the vector of an interrupt, the MEPC of a WFI, the MTVAL of a misaligned jump,
    C.ADDI16SP, and the CSRRSI and CSRRCI of a CSR that stores what it is given: these compute in 64
    bits and truncate nothing. -/

namespace Dimebox

/-- The value of a 32-bit register. -/
def Fits (v : U64) : Prop := v.toNat < 2 ^ 32

instance (v : U64) : Decidable (Fits v) := inferInstanceAs (Decidable (_ < _))

namespace Fits

variable {v w : U64}

theorem and_left (h : Fits v) (w : U64) : Fits (v &&& w) := by
  rw [Fits, BitVec.toNat_and]
  exact Nat.lt_of_le_of_lt Nat.and_le_left h

theorem and_right (v : U64) (h : Fits w) : Fits (v &&& w) := by
  rw [Fits, BitVec.toNat_and]
  exact Nat.lt_of_le_of_lt Nat.and_le_right h

theorem or (hv : Fits v) (hw : Fits w) : Fits (v ||| w) := by
  rw [Fits, BitVec.toNat_or]
  exact Nat.or_lt_two_pow hv hw

theorem of_setWidth (v : U32) : Fits (v.setWidth 64) := by
  rw [Fits, BitVec.toNat_setWidth]
  have := v.isLt
  omega

end Fits

/-- The registers of which only masked values are read. -/
def Creg.masked : Creg → Bool
  | .mstatus | .misa | .mstatush => true
  | _ => false

namespace RiscvState

/-! ### Setters and getters -/

theorem fits_legalMisa (pc old v : U64) : Fits (legalMisa pc old v) := by
  have hmasked : Fits (v &&& definedMisaValue) := .and_right v (by decide)
  rw [legalMisa]
  split
  · exact hmasked.or (by decide)
  · exact hmasked

theorem fits_legalMstatus (old v : U64) : Fits (legalMstatus old v) := by
  have hmasked : Fits (v &&& 0x7fa21e9d) := .and_right v (by decide)
  rw [legalMstatus]
  split
  · exact (hmasked.and_left _).or (.and_right _ (by decide))
  · exact hmasked

theorem fits_legal {v : U64} (hv : Fits v) (pc old : U64) (r : Creg) : Fits (legal pc old r v) := by
  cases r
  case misa => exact fits_legalMisa pc old v
  case mstatus => exact fits_legalMstatus old v
  case mstatush => exact hv.and_left _
  all_goals exact hv

theorem fits_shown {v : U64} (hv : Fits v) (r : Creg) : Fits (shown r v) := by
  cases r
  case mstatus | mstatush => exact hv.and_left _
  all_goals exact hv

theorem fits_shown_legal {v : U64} {r : Creg} (hv : r.masked = false → Fits v) (pc old : U64) :
    Fits (shown r (legal pc old r v)) := by
  cases r
  case misa => exact fits_legalMisa pc old v
  case mstatus | mstatush => exact .and_right _ (by decide)
  all_goals exact hv rfl

/-! ### Narrow states -/

/-- Every register of a core holds a value below 2^32. -/
structure Narrow (s : RiscvState) : Prop where
  pc : Fits s.pc
  x : ∀ j, Fits (s.x j)
  reg : ∀ r, Fits (s.reg r)

/-- Every register of a working state shows one. A copy made over storage may hold bits its getters
    never show. -/
structure ShowsNarrow (s : RiscvState) : Prop where
  pc : Fits s.pc
  x : ∀ j, Fits (s.x j)
  csr : ∀ r, Fits (s.read r)

variable {s t : RiscvState}

theorem Narrow.shows (h : s.Narrow) : s.ShowsNarrow := ⟨h.pc, h.x, fun r => fits_shown (h.reg r) r⟩

theorem ShowsNarrow.update (h : t.ShowsNarrow) (s : RiscvState) : (s.update t).ShowsNarrow := by
  refine ⟨by rw [pc_update]; exact h.pc, by rw [update_eq]; exact h.x, fun r => ?_⟩
  rw [read_update, committed]
  split
  · exact fits_shown_legal (fun _ => h.csr r) _ _
  · next heq => rw [not_not.mp heq]; exact h.csr r

theorem ShowsNarrow.commit (h : t.ShowsNarrow) (hs : s.Narrow) : (s.update t).Narrow := by
  refine ⟨by rw [pc_update]; exact h.pc, by rw [update_eq]; exact h.x, fun r => ?_⟩
  rw [update_eq]
  show Fits (committed t.pc (s.reg r) r (t.read r))
  rw [committed]
  split
  · exact fits_legal (h.csr r) _ _ r
  · exact hs.reg r

theorem ShowsNarrow.setGp (h : s.ShowsNarrow) {idx : U32} {v : U64} (hv : Fits v)
    (ht : s.setGp idx v = .ok t) : t.ShowsNarrow := by
  unfold RiscvState.setGp at ht
  split at ht
  · rw [← Except.ok.inj ht]; exact h
  · split at ht
    · rw [← Except.ok.inj ht]
      refine ⟨h.pc, fun j => ?_, h.csr⟩
      simp only [Function.update_apply]
      split
      · exact hv
      · exact h.x j
    · cases ht

theorem ShowsNarrow.setReg (h : s.ShowsNarrow) {idx : U32} (hidx : idx.toNat < 32) {v : U64}
    (hv : Fits v) : (s.setReg idx v).ShowsNarrow := h.setGp hv (s.setGp_eq hidx v)

theorem ShowsNarrow.write (h : s.ShowsNarrow) {r : Creg} {v : U64}
    (hv : r.masked = false → Fits v) : (s.write r v).ShowsNarrow := by
  refine ⟨h.pc, h.x, fun q => ?_⟩
  rw [read, RiscvState.write]
  dsimp only
  by_cases hq : q = r
  · subst hq
    rw [Function.update_self]
    exact fits_shown_legal hv _ _
  · rw [Function.update_of_ne hq]
    exact h.csr q

theorem ShowsNarrow.setPc (h : s.ShowsNarrow) {a : U64} (ha : Fits a) : (s.setPc a).ShowsNarrow :=
  ⟨ha, h.x, h.csr⟩

/-! ### Traps -/

/-- The control registers a trap leaves. -/
theorem ShowsNarrow.trapRegs (h : s.ShowsNarrow) {mip mcause mtval : U64} (hmip : Fits mip)
    (hmcause : Fits mcause) (hmtval : Fits mtval) (r : Creg) :
    Fits (shown r (s.trapRegs mip mcause mtval r)) := by
  have hstatus : ∀ v, Fits (shown .mstatus v) := fun v => .and_right v (by decide)
  simp only [RiscvState.trapRegs, Function.update_apply]
  split
  · exact fits_shown h.pc r
  split
  · exact fits_shown hmtval r
  split
  · exact fits_shown hmcause r
  split
  · next hr => rw [hr]; exact hstatus _
  split
  · exact fits_shown hmip r
  · exact h.csr r

theorem ShowsNarrow.trapState (h : s.ShowsNarrow) (e : SimExceptions) {mtval : U64}
    (hmtval : Fits mtval) : (s.trapState e mtval).ShowsNarrow :=
  ⟨h.csr .mtvec, h.x, h.trapRegs (h.csr .mip) (.of_setWidth _) hmtval⟩

theorem ShowsNarrow.takeInterrupt (h : s.ShowsNarrow) (e : SimExceptions) (bit : Nat)
    (hpc : Fits (s.takeInterrupt e bit).pc) : (s.takeInterrupt e bit).ShowsNarrow := by
  rw [takeInterrupt_eq] at hpc ⊢
  exact ⟨hpc, h.x, h.trapRegs ((h.csr .mip).and_left _) (.of_setWidth _) (by decide)⟩

theorem ShowsNarrow.slept (h : s.ShowsNarrow) (hpc : Fits (s.pc + 4)) : s.slept.ShowsNarrow := by
  refine ⟨h.pc, h.x, fun r => ?_⟩
  simp only [read, RiscvState.slept, Function.update_apply]
  split
  · exact fits_shown hpc r
  split
  · exact fits_shown (by decide) r
  split
  · exact fits_shown (by decide) r
  · exact h.csr r

theorem ShowsNarrow.returned (h : s.ShowsNarrow) : s.returned.ShowsNarrow := by
  refine ⟨?_, h.x, fun r => ?_⟩
  · show Fits (if s.compressedExtensionEnabled then s.mepc else s.mepc &&& ~~~0x3)
    split
    · exact h.csr .mepc
    · exact (h.csr .mepc).and_left _
  · simp only [read, RiscvState.returned, Function.update_apply]
    split
    · next hr => rw [hr]; exact .and_right _ (by decide)
    · exact h.csr r

end RiscvState

/-! ### One instruction -/

namespace Step

variable {i i₁ i' : RiscvInstruction}

/-- What C.ADDI16SP gives to `SetSP`. -/
def addi16spValue (i : RiscvInstruction) : U64 :=
  (((i.state.x 2).setWidth 32 : U32).setWidth 64 + i.immVal 6) <<< 4

/-- What an instruction computes in 64 bits and stores as it is fits into 32. -/
structure NarrowValues (i : RiscvInstruction) : Prop where
  /-- the MTVAL of a jump `SetPC` refuses -/
  jump : i.iclass.isJump →
    i.decode.jumpTarget &&& alignmentMask i.state (i.iclass.instrSize.setWidth 64) ≠ 0 →
    Fits i.decode.jumpTarget
  /-- the MEPC of a WFI -/
  wfi : i.iclass = .wfi → i.state.currentPrivilegeLevel ≠ 0 → Fits (i.state.pc + 4)
  addi16sp : i.iclass = .cAddi16sp → i.decode.imm ≠ 0 → Fits (addi16spValue i.decode)
  /-- the sum and the difference, for a CSR that stores what it is given -/
  csrrsi : i.iclass = .csrrsi → ∀ r, RiscvState.csrReg i.decode.imm = some r → r.masked = false →
    (i.state.read r).toNat + i.decode.rs1.toNat < 2 ^ 32
  csrrci : i.iclass = .csrrci → ∀ r, RiscvState.csrReg i.decode.imm = some r → r.masked = false →
    i.decode.rs1.toNat ≤ (i.state.read r).toNat

theorem closed_narrow :
    Closed fun i i' => i.state.ShowsNarrow → i'.state.ShowsNarrow where
  refl := fun _ h => h
  trans := fun h h' hi => h' (h hi)
  setRd := fun hs h => h.setGp (.of_setWidth _) hs
  read := fun _ _ _ _ _ h => h
  mbuf := fun _ _ h => h
  queue := fun _ _ _ h => h

/-- What a CSR instruction gives to a setter that does not mask it. -/
theorem fits_csrValue (h : i.state.ShowsNarrow) (hi : NarrowValues i) {r : Creg}
    (hr : RiscvState.csrReg i.decode.imm = some r) (hmasked : r.masked = false)
    (hc : i.iclass.isCsr) : Fits (i.decode.csrValue (i.state.read r)) := by
  have hread : Fits (i.state.read r) := h.csr r
  have hrs1 : (i.decode.rs1.setWidth 64 : U64).toNat = i.decode.rs1.toNat := by
    rw [BitVec.toNat_setWidth]
    have := i.decode.rs1.isLt
    omega
  rw [RiscvInstruction.csrValue, RiscvInstruction.decode_iclass]
  cases hclass : i.iclass <;> rw [hclass] at hc <;> simp only [Iclass.isCsr, Bool.false_eq_true] at hc
  case csrrw | csrrwi => exact .of_setWidth _
  case csrrs => exact hread.or (.of_setWidth _)
  case csrrc => exact hread.and_left _
  case csrrsi =>
    have hsum := hi.csrrsi hclass r hr hmasked
    show (i.state.read r + i.decode.rs1.setWidth 64).toNat < 2 ^ 32
    rw [BitVec.toNat_add, hrs1]
    omega
  case csrrci =>
    have hle := hi.csrrci hclass r hr hmasked
    have hlt : (i.state.read r).toNat < 2 ^ 32 := hread
    show (i.state.read r - i.decode.rs1.setWidth 64).toNat < 2 ^ 32
    rw [BitVec.toNat_sub_of_le (by rw [BitVec.le_def, hrs1]; exact hle), hrs1]
    omega

/-- A body that returns. -/
theorem step_narrow (h : i.state.ShowsNarrow) (hi : NarrowValues i)
    (hrun : (step i.iclass).run i.decode = .ok () i₁) : i₁.state.ShowsNarrow := by
  have hdecode : i.decode.state.ShowsNarrow := by rw [i.decode_state]; exact h
  rcases Iclass.cases_kind i.iclass with hc | hc | hc | hc
  · have hplain := closed_narrow.step hc i.decode
    rw [hrun] at hplain
    exact hplain hdecode
  · obtain ⟨-, s, rfl | ⟨v, hv⟩, rfl⟩ := jump_ok hc hrun
    · exact hdecode
    · exact hdecode.setGp (.of_setWidth v) hv
  · have hrd : i.decode.rd.toNat < 32 := by
      have hf : i.iclass.format = .i := by
        cases hi : i.iclass <;> rw [hi] at hc <;> first | rfl | exact absurd hc (by decide)
      simp only [RiscvInstruction.decode, hf]
      exact field_toNat_lt _ _
    cases csr_ok hc hrun with
    | read => exact hdecode.setReg hrd (.of_setWidth _)
    | written hr =>
      refine (hdecode.setReg hrd (.of_setWidth _)).write fun hmasked => ?_
      rw [RiscvInstruction.decode_state]
      exact fits_csrValue h hi hr hmasked hc
  · rw [hc] at hrun
    have himm : i.decode.imm ≠ 0 := by
      intro h0
      simp [step, EStateM.run_bind, h0, throwSim] at hrun
    have hx : (x 2).run i.decode = .ok ((i.decode.state.x 2).setWidth 32) i.decode := rfl
    have hset : (setSp (addi16spValue i.decode)).run i.decode = .ok () i₁ := by
      simp only [step, EStateM.run_bind, run_imm, if_neg himm, hx, run_signExtendImm] at hrun
      exact hrun
    have hfits := hi.addi16sp hc himm
    have hsp := moves_setSp (R := fun i i' => i.state.ShowsNarrow → i'.state.ShowsNarrow)
      (fun _ h => h) (fun hs h => h.setGp hfits hs) i.decode
    rw [hset] at hsp
    exact hsp hdecode

/-- Every instruction. -/
theorem execute_narrow (h : i.state.ShowsNarrow) (hi : NarrowValues i)
    (hrun : execute.run i = .ok () i') : i'.state.ShowsNarrow := by
  have hdecode : i.decode.state.ShowsNarrow := by rw [i.decode_state]; exact h
  cases execute_outcome hrun with
  | advanced run => exact (step_narrow h hi run).setPc (.of_setWidth _)
  | @trapped e i₁ mtval run raises sync taken value =>
    have hbase : i₁.state.ShowsNarrow := by
      cases raises with
      | sync | mret | wfi => exact hdecode
      | misaligned target jump =>
        obtain ⟨hmis, heq⟩ := jump_raises jump run
        rw [heq]
        exact hdecode.write fun _ => hi.jump jump hmis
      | load => cases sync
      | refused _ _ hrd => exact hdecode.setReg hrd (.of_setWidth _)
    refine hbase.trapState e ?_
    rcases value with rfl | ⟨-, rfl⟩
    · decide
    · exact hbase.csr .mtval
  | returned hc level => exact h.returned
  | slept hc level => exact h.slept (hi.wfi hc level)

end Step

/-! ### Runs -/

namespace RiscvSimulator

/-- What the execution computes in 64 bits and stores as it is fits into 32. -/
structure Execution.NarrowValues (x : Execution) : Prop where
  interrupt : ∀ e, x.core.interruptPending = some e →
    x.core.mtvec.toNat + 4 * (RiscvState.causeOf e).toNat < 2 ^ 32
  instruction : Step.NarrowValues x.before

theorem ClientEdit.showsNarrow {s t : RiscvState} (h : ClientEdit s t) (hs : s.ShowsNarrow) :
    t.ShowsNarrow := by
  cases h with
  | gp ht => exact hs.setGp (.of_setWidth _) ht
  | sp v =>
    refine ⟨hs.pc, fun j => ?_, hs.csr⟩
    simp only [RiscvState.setSp, Function.update_apply]
    split
    · exact .of_setWidth v
    · exact hs.x j
  | pc v => exact hs.setPc (.of_setWidth v)

/-- The working state an instruction starts on. -/
theorem Commits.before_narrow {x : Execution} {core core' : RiscvState} (h : Commits x core core')
    (hx : x.NarrowValues) (hcore : core.Narrow) : x.before.state.ShowsNarrow := by
  obtain ⟨storage, work, hserviced, hfetched⟩ := h.prepared.fetchedOn
  have hint := hx.interrupt
  rw [h.core_eq] at hint
  have hcopy : (RiscvState.copy storage core).ShowsNarrow := hcore.shows.update storage
  have hmtvec : (RiscvState.copy storage core).mtvec = core.mtvec :=
    RiscvState.read_update_of_plain _ _ (by decide) (by decide) (by decide)
  have hpending : (RiscvState.copy storage core).interruptPending = core.interruptPending :=
    RiscvState.interruptPending_update _ _
  generalize RiscvState.copy storage core = s at hserviced hcopy hmtvec hpending
  have hwork : work.ShowsNarrow := by
    rcases serviceInterrupt_ok hserviced with ⟨-, rfl⟩ | ⟨e, bit, hsome, he, rfl⟩
    · exact hcopy
    · refine hcopy.takeInterrupt e bit ?_
      have hvector := hint e (hpending.symm.trans hsome)
      rw [RiscvState.pc_takeInterrupt _ _ (he.imp And.left And.left), hmtvec, Fits,
        BitVec.toNat_add, BitVec.toNat_mul]
      have h4 : (4 : U64).toNat = 4 := rfl
      rw [h4]
      omega
  have hedits := hfetched.edits
  generalize x.before.state = client at hedits
  induction hedits with
  | refl => exact hwork
  | tail _ hedit ih => exact ClientEdit.showsNarrow hedit ih

theorem Commits.after_narrow {x : Execution} {core core' : RiscvState} (h : Commits x core core')
    (hx : x.NarrowValues) (hcore : core.Narrow) : x.after.state.ShowsNarrow :=
  Step.execute_narrow (h.before_narrow hx hcore) hx.instruction h.run

theorem Commits.narrow {x : Execution} {core core' : RiscvState} (h : Commits x core core')
    (hx : x.NarrowValues) (hcore : core.Narrow) : core'.Narrow := by
  have hcommit := (h.after_narrow hx hcore).commit hcore
  obtain ⟨b, rfl⟩ := h.committed
  generalize core.update x.after.state = core' at hcommit
  exact ⟨hcommit.pc, hcommit.x, hcommit.reg⟩

theorem signal_narrow {core : RiscvState} (e : SimExceptions) (h : core.Narrow) :
    (core.signal e).Narrow := by
  have hmip : ∀ v, Fits v → (core.setMip (core.mip ||| v)).Narrow := by
    intro v hv
    refine ⟨h.pc, h.x, fun r => ?_⟩
    simp only [RiscvState.setMip, RiscvState.write, RiscvState.legal, Function.update_apply]
    split
    · exact (h.reg .mip).or hv
    · exact h.reg r
  unfold RiscvState.signal
  split
  · exact hmip _ (by decide)
  · exact hmip _ (by decide)
  · exact h

/-- In every run from cores whose registers are below 2^32, in which what is computed in 64 bits and
    stored as it is fits into 32, the registers of every core stay below 2^32, and so do those that
    the state of every instruction shows before and after it. -/
theorem registers_stay_narrow (s s' : RiscvSimulator) (xs : List Execution) (hrun : Run s xs s')
    (hs : ∀ core ∈ s.cores, core.Narrow) (hxs : ∀ x ∈ xs, x.NarrowValues) :
    (∀ core ∈ s'.cores, core.Narrow) ∧
      ∀ x ∈ xs, x.before.state.ShowsNarrow ∧ x.after.state.ShowsNarrow := by
  refine ⟨Run.cores_invariant signal_narrow (fun h hx hcore => h.narrow hx hcore) hrun hs hxs, ?_⟩
  intro x hx
  obtain ⟨core, core', hcore, hcommits⟩ :=
    Run.executions_invariant signal_narrow (fun h hx hcore => h.narrow hx hcore) hrun hs hxs hx
  exact ⟨hcommits.before_narrow (hxs x hx) hcore, hcommits.after_narrow (hxs x hx) hcore⟩

theorem init_narrow (simCfg : SimConfig) (bytes : List Byte) (h : Fits simCfg.resetAddress) :
    ∀ core ∈ (init simCfg (.simple simCfg.resetAddress bytes {})).cores, core.Narrow := by
  intro core hcore
  obtain ⟨k, -, rfl⟩ := List.mem_map.mp hcore
  have hzero : Fits 0 := by decide
  refine ⟨h, fun _ => hzero, fun r => ?_⟩
  simp only [RiscvState.reset, RiscvState.setMisa, RiscvState.write, Function.update_apply]
  split
  · exact RiscvState.fits_legalMisa _ _ _
  · exact hzero

/-- `csrsi mscratch,1` out of reset. -/
theorem csrrsi_stays_narrow :
    let start := init { resetAddress := 0x80000000 }
      (.simple 0x80000000 [0x73, 0xe0, 0x00, 0x34] {})
    ∃ x s, Run start [x] s ∧ x.before.iclass = .csrrsi ∧ x.NarrowValues ∧
      (∀ core ∈ s.cores, core.Narrow) ∧ x.after.state.ShowsNarrow := by
  intro start
  have hview : (execution 0 start.loaded).map (fun r => (r.1.core.interruptPending,
      r.1.before.iclass, RiscvState.csrReg r.1.before.decode.imm, r.1.before.decode.rs1,
      r.1.before.state.read .mscratch)) = some (none, .csrrsi, some .mscratch, 1, 0) := by
    decide +kernel
  cases hx : execution 0 start.loaded with
  | none => rw [hx] at hview; cases hview
  | some r =>
    obtain ⟨x, s⟩ := r
    rw [hx] at hview
    simp only [Option.map_some, Option.some.injEq, Prod.mk.injEq] at hview
    obtain ⟨hpending, hclass, hreg, hrs1, hread⟩ := hview
    have hrun : Run start [x] s := (Run.loaded start).tail (.of_execution hx)
    have hother : ∀ {c}, x.before.iclass = c → c = .csrrsi := fun h => h.symm.trans hclass
    have hnarrow : x.NarrowValues := by
      refine ⟨fun e he => ?_, fun hj => ?_, fun h => ?_, fun h => ?_, fun _ r hr _ => ?_, fun h => ?_⟩
      · rw [hpending] at he
        cases he
      · rw [hclass] at hj
        cases hj
      · cases hother h
      · cases hother h
      · obtain rfl : .mscratch = r := Option.some.inj (hreg.symm.trans hr)
        rw [hread, hrs1]
        decide
      · cases hother h
    have hstays := registers_stay_narrow start s [x] hrun (init_narrow _ _ (by decide))
      (by simpa using hnarrow)
    exact ⟨x, s, hrun, hclass, hnarrow, hstays.1, (hstays.2 x (by simp)).2⟩

/-- `csrci mscratch,1` out of reset, MSCRATCH being zero: it holds 2^64 - 1 then. -/
theorem csrrci_widens_mscratch :
    ¬ ∀ (s s' : RiscvSimulator) (xs : List Execution), Run s xs s' →
      (∀ core ∈ s.cores, core.Narrow) → ∀ core ∈ s'.cores, core.Narrow := by
  intro hall
  let simCfg : SimConfig := { resetAddress := 0x80000000 }
  let host : Host := .simple 0x80000000 [0x73, 0xf0, 0x00, 0x34] {}
  have hview : (Effect.result ((go 1).run (init simCfg host))).isSome ∧
      (Effect.final ((go 1).run (init simCfg host))).cores.map (fun core => core.reg .mscratch)
        = [0xffffffffffffffff] := by
    decide +kernel
  cases hgo : (go 1).run (init simCfg host) with
  | error f s => rw [hgo] at hview; cases hview.1
  | ok r s =>
    rw [hgo] at hview
    obtain ⟨xs, hrun⟩ := go_runs hgo
    obtain ⟨core, hcore, hreg⟩ := List.mem_map.mp (by rw [hview.2]; exact List.mem_singleton_self _)
    have hfits := (hall _ s xs hrun (init_narrow simCfg _ (by decide)) core hcore).reg .mscratch
    rw [hreg] at hfits
    exact absurd hfits (by decide)

end RiscvSimulator

end Dimebox
