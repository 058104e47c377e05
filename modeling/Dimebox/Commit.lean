import Dimebox.StepEffects
import Dimebox.TrapReturn

/-! Is copying and committing a core state lossless?

    `Update` copies the control registers through their setters, and three of these filter what
    they store. MSTATUS and MSTATUSH are not initialised, so a core can show values its own setters
    refuse. `SetMISA` keeps the C bit of the object it writes to if the PC is not a multiple of
    four: a core that has cleared MISA.C and then traps to a misaligned MTVEC is copied to a state
    with compressed instructions enabled, if the storage of the copy happened to hold that bit. -/

namespace Dimebox

namespace RiscvState

/-! ### Observations -/

/-- What can be observed of two cores is the same. -/
structure SameObservations (s t : RiscvState) : Prop where
  pc : s.pc = t.pc
  x : s.x = t.x
  csr : ∀ csr level, s.csr csr level = t.csr csr level
  privilegeLevel : s.currentPrivilegeLevel = t.currentPrivilegeLevel
  lowPowerMode : s.lowPowerMode = t.lowPowerMode
  endTest : s.endTest = t.endTest
  id : s.id = t.id
  clock : s.clock = t.clock
  instrCount : s.instrCount = t.instrCount

/-- `s.Update(t)` shows what `t` shows, whatever `s` held. -/
def Lossless (t : RiscvState) : Prop := ∀ s : RiscvState, SameObservations (s.update t) t

/-- A register comes through the commit from every prior contents. -/
def Kept (t : RiscvState) (r : Creg) : Prop :=
  ∀ old, shown r (committed t.pc old r (t.read r)) = t.read r

theorem read_update (s t : RiscvState) (r : Creg) :
    (s.update t).read r = shown r (committed t.pc (s.reg r) r (t.read r)) := by
  rw [update_eq, read]

@[simp] theorem pc_update (s rhs : RiscvState) : (s.update rhs).pc = rhs.pc := by rw [update_eq]

@[simp] theorem pc_copy (storage rhs : RiscvState) : (copy storage rhs).pc = rhs.pc :=
  pc_update storage rhs

theorem csr_eq_of_read {s t : RiscvState} (h : ∀ r, s.read r = t.read r)
    (hc : ∀ n, s.csrCounter n = t.csrCounter n) (n level : U32) : s.csr n level = t.csr n level := by
  unfold csr
  rw [hc n]
  cases csrReg n with
  | none => cases t.csrCounter n <;> rfl
  | some r => simp only [h r]

/-- `CSR` shows the three registers that filter. -/
theorem csr_mstatus (s : RiscvState) : s.csr 0x300 3 = .ok (s.read .mstatus) := rfl
theorem csr_misa (s : RiscvState) : s.csr 0x301 3 = .ok (s.read .misa) := rfl
theorem csr_mstatush (s : RiscvState) : s.csr 0x310 3 = .ok (s.read .mstatush) := rfl

/-- The registers whose setters store what they are given. -/
theorem kept_of_plain (t : RiscvState) {r : Creg} (h₁ : r ≠ .mstatus) (h₂ : r ≠ .misa)
    (h₃ : r ≠ .mstatush) : t.Kept r := by
  intro old
  have hs : ∀ v, shown r v = v := by
    intro v
    cases r <;> first | rfl | contradiction
  have hl : ∀ v, legal t.pc old r v = v := by
    intro v
    cases r <;> first | rfl | contradiction
  rw [committed, hl, hs, hs]
  by_cases h : old = t.read r
  · rw [if_neg (not_not_intro h), h]
  · rw [if_pos h]

theorem read_update_of_plain (s t : RiscvState) {r : Creg} (h₁ : r ≠ .mstatus) (h₂ : r ≠ .misa)
    (h₃ : r ≠ .mstatush) : (s.update t).read r = t.read r := by
  rw [read_update]
  exact kept_of_plain t h₁ h₂ h₃ _

/-- MIE comes through every commit, so the copy has the same interrupts pending. -/
theorem globalInterruptsEnabled_update (s t : RiscvState) :
    (s.update t).globalInterruptsEnabled = t.globalInterruptsEnabled := by
  rw [globalInterruptsEnabled_eq, globalInterruptsEnabled_eq, update_eq]
  change (committed t.pc (s.reg .mstatus) .mstatus t.mstatus).getLsbD 3 = (t.reg .mstatus).getLsbD 3
  have hshown : ∀ v : U64, (shown .mstatus v).getLsbD 3 = v.getLsbD 3 := fun v =>
    getLsbD_shown_mstatus (.inl rfl) v
  rw [committed]
  split
  · rw [legal, getLsbD_legalMstatus (.inl rfl)]
    exact hshown _
  · next heq => rw [← hshown (s.reg .mstatus), not_not.mp heq]; exact hshown _

theorem enabledAndPending_update (s t : RiscvState) (bit : Nat) :
    (s.update t).enabledAndPending bit ↔ t.enabledAndPending bit := by
  have hmip : (s.update t).mip = t.mip :=
    read_update_of_plain s t (by decide) (by decide) (by decide)
  have hmie : (s.update t).mie = t.mie :=
    read_update_of_plain s t (by decide) (by decide) (by decide)
  rw [enabledAndPending, enabledAndPending, globalInterruptsEnabled_update, hmip, hmie]

theorem interruptPending_update (s t : RiscvState) :
    (s.update t).interruptPending = t.interruptPending := by
  simp only [interruptPending_eq, enabledAndPending_update]

theorem lossless_iff_kept (t : RiscvState) :
    t.Lossless ↔ t.Kept .mstatus ∧ t.Kept .misa ∧ t.Kept .mstatush := by
  constructor
  · intro h
    have hread : ∀ (r : Creg) (n : U32), (∀ s : RiscvState, s.csr n 3 = .ok (s.read r)) →
        t.Kept r := by
      intro r n hn old
      have hcsr := (h { reg := fun _ => old }).csr n 3
      rw [hn, hn, read_update] at hcsr
      exact Except.ok.inj hcsr
    exact ⟨hread _ _ csr_mstatus, hread _ _ csr_misa, hread _ _ csr_mstatush⟩
  · rintro ⟨hmstatus, hmisa, hmstatush⟩ s
    have hread : ∀ r, (s.update t).read r = t.read r := by
      intro r
      rw [read_update]
      by_cases h₁ : r = .mstatus
      · subst h₁; exact hmstatus _
      by_cases h₂ : r = .misa
      · subst h₂; exact hmisa _
      by_cases h₃ : r = .mstatush
      · subst h₃; exact hmstatush _
      exact kept_of_plain t h₁ h₂ h₃ _
    have hcounter : ∀ n, (s.update t).csrCounter n = t.csrCounter n := by
      intro n
      rw [update_eq]
      rfl
    have hcsr := csr_eq_of_read hread hcounter
    rw [update_eq] at hcsr ⊢
    exact ⟨rfl, rfl, hcsr, rfl, rfl, rfl, rfl, rfl, rfl⟩

/-! ### The three setters that filter -/

/-- MSTATUS shows no bit `SetMSTATUS` clears and no MPP it refuses. -/
structure MstatusLegal (t : RiscvState) : Prop where
  bits : t.mstatus &&& 0x805de162 = 0
  mpp : t.mstatus &&& 0x1800 ≠ 0x800 ∧ t.mstatus &&& 0x1800 ≠ 0x1000

theorem mstatus_shown (t : RiscvState) : shown .mstatus t.mstatus = t.mstatus := by
  rw [mstatus, read, shown, shown, BitVec.and_assoc, BitVec.and_self]

theorem mstatus_masked {t : RiscvState} (h : t.mstatus &&& 0x805de162 = 0) :
    t.mstatus &&& 0x7fa21e9d = t.mstatus := by
  have hs : t.mstatus &&& 0x807fffff = t.mstatus := t.mstatus_shown
  have hmask : (0x807fffff : U64) = (0x807fffff &&& 0x7fa21e9d) ||| (0x807fffff &&& 0x805de162) := by
    decide
  calc t.mstatus &&& 0x7fa21e9d
      = (t.mstatus &&& 0x7fa21e9d) ||| (t.mstatus &&& 0x805de162) := by rw [h]; simp
    _ = (t.mstatus &&& 0x807fffff &&& 0x7fa21e9d) ||| (t.mstatus &&& 0x807fffff &&& 0x805de162) := by
      rw [hs]
    _ = t.mstatus &&& 0x807fffff := by
      rw [BitVec.and_assoc, BitVec.and_assoc, ← BitVec.and_or_distrib_left, ← hmask]
    _ = t.mstatus := hs

theorem kept_mstatus_iff (t : RiscvState) : t.Kept .mstatus ↔ t.MstatusLegal := by
  have hs : t.mstatus &&& 0x807fffff = t.mstatus := t.mstatus_shown
  constructor
  · intro h
    by_cases hz : t.mstatus = 0
    · exact ⟨by rw [hz]; decide, by rw [hz]; decide⟩
    have h0 : shown .mstatus (legalMstatus 0 t.mstatus) = t.mstatus := by
      have hkept : shown .mstatus (committed t.pc 0 .mstatus t.mstatus) = t.mstatus := h 0
      rwa [committed, if_pos (by simpa [shown] using Ne.symm hz)] at hkept
    -- from a cleared register the filter only takes bits away, MPP with them if it is refused
    rw [legalMstatus] at h0
    split at h0
    · next hmpp =>
      have h1800 : t.mstatus &&& 0x1800 = 0 := by
        rw [← h0]
        simp [shown, BitVec.and_assoc]
      have hkeep : t.mstatus &&& 0x7fa21e9d &&& 0x1800 = t.mstatus &&& 0x1800 := by
        rw [BitVec.and_assoc]; rfl
      rw [hkeep, h1800] at hmpp
      exact absurd hmpp (by decide)
    · next hmpp =>
      have hkeep : t.mstatus &&& 0x7fa21e9d &&& 0x1800 = t.mstatus &&& 0x1800 := by
        rw [BitVec.and_assoc]; rfl
      rw [hkeep] at hmpp
      refine ⟨?_, not_or.mp hmpp⟩
      rw [← h0]
      simp [shown, BitVec.and_assoc]
  · rintro ⟨hbits, hmpp⟩ old
    change shown .mstatus (committed t.pc old .mstatus t.mstatus) = t.mstatus
    rw [committed]
    split
    · rw [legal, legalMstatus, mstatus_masked hbits]
      simp only [hmpp.1, hmpp.2, or_false, if_false]
      exact t.mstatus_shown
    · next h => exact not_not.mp h

theorem kept_mstatush_iff (t : RiscvState) : t.Kept .mstatush ↔ t.mstatush = 0 := by
  have hcleared : ∀ v, shown .mstatush (legalMstatush v) = 0 := by
    intro v
    simp [shown, legalMstatush, BitVec.and_assoc]
  constructor
  · intro h
    have h0 : shown .mstatush (committed t.pc 0 .mstatush t.mstatush) = t.mstatush := h 0
    rw [committed] at h0
    split at h0
    · rw [← h0]; exact hcleared _
    · rw [← h0]; rfl
  · intro h old
    change shown .mstatush (committed t.pc old .mstatush t.mstatush) = t.mstatush
    rw [committed]
    split
    · rw [h]; exact hcleared 0
    · next heq => exact not_not.mp heq

theorem or_and_absorb (x y : U64) : x ||| (x &&& y) = x := by
  apply BitVec.eq_of_getLsbD_eq
  intro j _
  rw [BitVec.getLsbD_or, BitVec.getLsbD_and]
  cases x.getLsbD j <;> rfl

theorem and_or_absorb (x y : U64) : (x ||| y) &&& y = y := by
  apply BitVec.eq_of_getLsbD_eq
  intro j _
  rw [BitVec.getLsbD_and, BitVec.getLsbD_or]
  cases x.getLsbD j <;> cases y.getLsbD j <;> rfl

/-- The supported bits of MISA. -/
def MisaSupported (t : RiscvState) : Prop := t.misa &&& definedMisaValue = t.misa

theorem kept_misa_iff {t : RiscvState} (hsup : t.MisaSupported) :
    t.Kept .misa ↔ t.compressedExtensionEnabled ∨ t.pc &&& 3 = 0 := by
  have hlegal : ∀ old, legalMisa t.pc old t.misa =
      if old &&& 4 = 4 ∧ t.pc &&& 3 ≠ 0 then t.misa ||| 4 else t.misa := by
    intro old
    rw [legalMisa, hsup]
  constructor
  · intro h
    by_contra hne
    obtain ⟨hc, hpc⟩ := not_or.mp hne
    have hc' : t.misa &&& 4 ≠ 4 := fun h4 => hc (decide_eq_true h4)
    have hold : shown .misa 4 ≠ t.misa := fun heq => hc' (by rw [← heq]; rfl)
    have h4 : committed t.pc 4 .misa t.misa = t.misa := h 4
    rw [committed, if_pos hold, legal, hlegal, if_pos ⟨rfl, hpc⟩] at h4
    exact hc' (by rw [← h4]; exact and_or_absorb t.misa 4)
  · intro h old
    change committed t.pc old .misa t.misa = t.misa
    rw [committed]
    split
    · rw [legal, hlegal]
      split
      · next hkeep =>
        rcases h with hc | hpc
        · have h4 : t.misa &&& 4 = 4 := of_decide_eq_true hc
          rw [← h4]
          exact or_and_absorb t.misa 4
        · exact absurd hpc hkeep.2
      · rfl
    · next heq => exact not_not.mp heq

/-! ### Reachable states -/

/-- The state a step of `core` runs its instruction on: a copy over whatever the storage held, after
    a pending interrupt if there is one. -/
inductive Working (core : RiscvState) : RiscvState → Prop where
  | copied (storage : RiscvState) : Working core (copy storage core)
  | interrupted {t : RiscvState} {e : SimExceptions} (storage : RiscvState)
      (pending : (copy storage core).interruptPending = some e)
      (taken : (copy storage core).processInterrupt e = .ok t) : Working core t

/-- The working state an instruction leaves: any word, on any memory. -/
inductive Executed (core : RiscvState) : RiscvState → Prop where
  | intro {t : RiscvState} {i' : RiscvInstruction} {c : Iclass} {w : U32} {junk : Junk}
      {m : Memory} (working : Working core t)
      (fetched : c = newInstruction w ∨ c = newInstruction16 t w)
      (run : Step.execute.run (.new junk c t m w) = .ok () i') : Executed core i'.state

/-- The states a core goes through: from reset, an instruction is committed, a device signals, or
    the simulator sets or clears the end-test flag. -/
inductive Reachable : RiscvState → Prop where
  | reset (storage : RiscvState) (resetAddress : U64) : Reachable (reset storage resetAddress)
  | committed {core t : RiscvState} (h : Reachable core) (ht : Executed core t) :
      Reachable (core.update t)
  | signalled {core : RiscvState} (h : Reachable core) (e : SimExceptions) :
      Reachable (core.signal e)
  | ended {core : RiscvState} (h : Reachable core) (b : Bool) : Reachable (core.setEndTest b)

/-- The states that are copied or committed: a core, or the working state of its step. -/
def Source (t : RiscvState) : Prop := Reachable t ∨ ∃ core, Reachable core ∧ Executed core t

/-! ### MISA never shows an unsupported bit -/

theorem legalMisa_supported (pc old v : U64) :
    legalMisa pc old v &&& definedMisaValue = legalMisa pc old v := by
  have hrval : v &&& definedMisaValue &&& definedMisaValue = v &&& definedMisaValue := by
    rw [BitVec.and_assoc, BitVec.and_self]
  have h4 : (4 : U64) &&& definedMisaValue = 4 := by decide
  rw [legalMisa]
  split
  · rw [BitVec.and_or_distrib_right, hrval, h4]
  · exact hrval

theorem misaSupported_of_reg {s t : RiscvState} (h : s.MisaSupported)
    (hreg : t.reg .misa = s.reg .misa) : t.MisaSupported := by
  have hmisa : t.misa = s.misa := hreg
  rw [MisaSupported, hmisa]
  exact h

theorem misaSupported_write {s : RiscvState} (h : s.MisaSupported) (r : Creg) (v : U64) :
    (s.write r v).MisaSupported := by
  by_cases hr : r = .misa
  · subst hr
    have hmisa : (s.write .misa v).misa = legalMisa s.pc (s.reg .misa) v := by
      simp [misa, read, shown, write, legal]
    rw [MisaSupported, hmisa]
    exact legalMisa_supported _ _ _
  · exact misaSupported_of_reg h (by simp [write, Ne.symm hr])

theorem misaSupported_update {t : RiscvState} (h : t.MisaSupported) (s : RiscvState) :
    (s.update t).MisaSupported := by
  have hmisa : (s.update t).misa = committed t.pc (s.reg .misa) .misa t.misa := by
    rw [misa, read_update]; rfl
  rw [MisaSupported, hmisa, committed]
  split
  · exact legalMisa_supported _ _ _
  · next heq => rw [not_not] at heq; change s.reg .misa = t.misa at heq; rw [heq]; exact h

/-- No trap, interrupt, MRET or WFI touches MISA. -/
theorem processException_misa {s s' : RiscvState} {e : SimExceptions} {opcode : U32}
    (h : s.processException e opcode = .ok s') : s'.reg .misa = s.reg .misa := by
  by_cases he : e.isTrap
  · obtain ⟨s₁, hs₁, ht⟩ := s.processException_isTrap he opcode
    rw [h] at hs₁
    rw [Except.ok.inj hs₁]
    exact ht.misa
  by_cases hm : e = .processMret
  · subst hm
    rw [mret_eq] at h
    rw [← Except.ok.inj h]
    simp [returned]
  by_cases hw : e = .processWfi
  · subst hw
    rw [← Except.ok.inj h]
    simp [setLowPowerMode, setMepc, setMtval, setMcause, write]
  cases e <;> first | exact absurd rfl he | contradiction

theorem step_misaSupported {i : RiscvInstruction} (h : i.state.MisaSupported) (c : Iclass) :
    (Effect.final ((Step.step c).run i)).state.MisaSupported := by
  refine Step.step_moves (R := fun i i' => i.state.MisaSupported → i'.state.MisaSupported)
    (fun _ h => h) (fun h₁ h₂ h => h₂ (h₁ h)) ?_ c i h
  intro i i' hm hi
  cases hm with
  | setGp hs => rw [setGp_ok hs]; exact misaSupported_of_reg hi rfl
  | write r v => exact misaSupported_write hi r v
  | jump | read | mbuf | queue => exact hi

theorem execute_misaSupported {i i' : RiscvInstruction} (hi : i.state.MisaSupported)
    (h : Step.execute.run i = .ok () i') : i'.state.MisaSupported := by
  have hstep := step_misaSupported (i := i.decode) (by rw [i.decode_state]; exact hi)
    i.decode.iclass
  rcases Step.execute_ok h with ⟨i₁, hrun, rfl⟩ | ⟨e, i₁, s, hrun, hs, rfl⟩
  · rw [hrun] at hstep
    exact misaSupported_of_reg hstep rfl
  · rw [hrun] at hstep
    exact misaSupported_of_reg hstep (processException_misa hs)

theorem working_misaSupported {core t : RiscvState} (hc : core.MisaSupported)
    (h : Working core t) : t.MisaSupported := by
  cases h with
  | copied storage => exact misaSupported_update hc storage
  | interrupted storage _ taken =>
    exact misaSupported_of_reg (misaSupported_update hc storage) (processException_misa taken)

theorem executed_misaSupported {core t : RiscvState} (hc : core.MisaSupported)
    (h : Executed core t) : t.MisaSupported := by
  obtain ⟨hw, -, hrun⟩ := h
  exact execute_misaSupported (working_misaSupported hc hw) hrun

/-- Every run: MISA shows supported bits only. -/
theorem reachable_misaSupported {t : RiscvState} (h : Reachable t) : t.MisaSupported := by
  induction h with
  | reset storage resetAddress =>
    have hmisa : (reset storage resetAddress).misa
        = legalMisa resetAddress (storage.reg .misa) definedMisaValue := by
      simp [reset, setMisa, misa, read, shown, write, legal]
    rw [MisaSupported, hmisa]
    exact legalMisa_supported _ _ _
  | committed _ ht ih => exact misaSupported_update (executed_misaSupported ih ht) _
  | signalled _ e ih =>
    unfold signal
    split
    · exact misaSupported_write ih .mip _
    · exact misaSupported_write ih .mip _
    · exact ih
  | ended _ b ih => exact misaSupported_of_reg ih rfl

theorem source_misaSupported {t : RiscvState} (h : Source t) : t.MisaSupported := by
  rcases h with h | ⟨core, hc, ht⟩
  · exact reachable_misaSupported h
  · exact executed_misaSupported (reachable_misaSupported hc) ht

/-! ### When the commit is lossless -/

/-- A state that running instructions can reach is copied and committed without loss, whatever the
    target held, exactly if MSTATUS and MSTATUSH show values their setters accept and the PC is a
    multiple of four or MISA.C is set. -/
theorem lossless_iff (t : RiscvState) (ht : Source t) :
    t.Lossless ↔ t.MstatusLegal ∧ t.mstatush = 0 ∧
      (t.compressedExtensionEnabled ∨ t.pc &&& 3 = 0) := by
  rw [lossless_iff_kept, kept_mstatus_iff, kept_misa_iff (source_misaSupported ht),
    kept_mstatush_iff, and_comm (b := t.mstatush = 0)]

/-- A core out of reset, over cleared storage. -/
theorem reset_lossless : (reset {} 0x80000000).Lossless :=
  (lossless_iff _ (.inl (.reset _ _))).mpr ⟨⟨by decide, by decide⟩, by decide, by decide⟩

theorem reachable_runWord {junk : Junk} {storage core core' : RiscvState} {w : U32}
    {m m' : Memory} (h : Reachable core) (hrun : runWord junk storage w core m = .ok (core', m')) :
    Reachable core' := by
  obtain ⟨i', hexec, hcore, -⟩ := runWord_ok hrun
  rw [hcore]
  exact .committed h (.intro (.copied storage) (.inl rfl) hexec)

/-- Words run one after the other, the copies over cleared storage. -/
def runWords (st : RiscvState × Memory) (ws : List U32) : Except Fault (RiscvState × Memory) :=
  ws.foldlM (fun st w => runWord {} {} w st.1 st.2) st

theorem reachable_runWords (ws : List U32) (st st' : RiscvState × Memory) (h : Reachable st.1)
    (hrun : runWords st ws = .ok st') : Reachable st'.1 := by
  induction ws generalizing st with
  | nil =>
    rw [← Except.ok.inj hrun]
    exact h
  | cons w ws ih =>
    rw [runWords, List.foldlM_cons] at hrun
    cases h₁ : runWord {} {} w st.1 st.2 with
    | error f => rw [h₁] at hrun; cases hrun
    | ok st₁ =>
      rw [h₁] at hrun
      exact ih st₁ (reachable_runWord h h₁) hrun

/-- `csrwi mtvec,2`, `csrci misa,4`, `ecall` out of reset: the core is at PC 2 with MISA.C clear,
    and an object that held MISA.C shows it after the copy. -/
theorem misa_c_comes_back_at_misaligned_pc :
    let m : Memory := { physMem := { oracle := { rand := fun _ => 0, heap := fun _ => 0 } } }
    ∃ t m', runWords (reset {} 0x80000000, m) [0x30515073, 0x30127073, 0x73] = .ok (t, m') ∧
      Reachable t ∧ t.pc = 2 ∧ t.misa = 0x40101100 ∧
      ((reset {} 0).update t).misa = 0x40101104 ∧ ¬ t.Lossless := by
  intro m
  have hview : (runWords (reset {} 0x80000000, m) [0x30515073, 0x30127073, 0x73]).toOption.map
      (fun st => (st.1.pc, st.1.misa, ((reset {} 0).update st.1).misa))
        = some (2, 0x40101100, 0x40101104) := by
    decide +kernel
  cases hrun : runWords (reset {} 0x80000000, m) [0x30515073, 0x30127073, 0x73] with
  | error f => rw [hrun] at hview; cases hview
  | ok st =>
    obtain ⟨t, m'⟩ := st
    rw [hrun] at hview
    simp only [Except.toOption, Option.map_some, Option.some.injEq, Prod.mk.injEq] at hview
    obtain ⟨hpc, hmisa, hcopy⟩ := hview
    have hreach : Reachable t := reachable_runWords _ _ _ (.reset _ _) hrun
    refine ⟨t, m', rfl, hreach, hpc, hmisa, hcopy, fun hl => ?_⟩
    have hcsr := (hl (reset {} 0)).csr 0x301 3
    rw [csr_misa, csr_misa] at hcsr
    have hsame : ((reset {} 0).update t).misa = t.misa := Except.ok.inj hcsr
    rw [hcopy, hmisa] at hsame
    exact absurd hsame (by decide)

end RiscvState

end Dimebox
