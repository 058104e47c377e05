import Dimebox.TrapReturn
import Dimebox.StepEffects
import Dimebox.PhysicalAccess

/-! Where a body throws a `SIM_EXCEPTIONS`, and what it has done by then.

    Most bodies throw before they change anything, the jumps after they recorded the misaligned
    target in MTVAL. The CSR instructions differ: they write the old value of the CSR to `rd` first
    and find out afterwards whether the CSR may be written. -/

namespace Dimebox

/-- The traps a body can throw. -/
def SimExceptions.isSync : SimExceptions → Bool
  | .envCallUmode | .envCallMmode | .instructionAddressMisaligned
  | .illegalInstructionUnknownInstr | .illegalInstructionUnimplInstr
  | .illegalInstructionPrivilegedInstr | .illegalInstructionUnknownCsr
  | .illegalInstructionPrivilegedCsr => true
  | _ => false

namespace Iclass

/-- The CSR instructions that write the CSR; the set and clear forms do not if their `rs1` field is
    zero. -/
def writesCsr (c : Iclass) (rs1 : U32) : Bool :=
  match c with
  | .csrrw | .csrrwi => true
  | .csrrs | .csrrc | .csrrsi | .csrrci => rs1 ≠ 0
  | _ => false

end Iclass

namespace Step

variable {α β : Type}

/-- Everything `x` throws as a `SIM_EXCEPTIONS` is as `P` says. -/
def Throws (P : RiscvInstruction → SimExceptions → RiscvInstruction → Prop) (x : StepM α) : Prop :=
  ∀ i e i', x.run i = .error (.sim e) i' → P i e i'

/-- `x` throws no `SIM_EXCEPTIONS`. -/
def NoSim (x : StepM α) : Prop := Throws (fun _ _ _ => False) x

/-- `x` only looks: it returns and leaves the object alone, or its evaluation is undefined. -/
def Looks (x : StepM α) : Prop :=
  ∀ i, (∃ a, x.run i = .ok a i) ∨ ∃ i', x.run i = .error .undefined i'

section Rules

variable {P : RiscvInstruction → SimExceptions → RiscvInstruction → Prop}

theorem Looks.noSim {x : StepM α} (h : Looks x) : NoSim x := by
  intro i e i' hx
  rcases h i with ⟨a, ha⟩ | ⟨i₁, ha⟩
  · rw [hx] at ha; cases ha
  · rw [hx] at ha; cases ha

theorem NoSim.throws {x : StepM α} (h : NoSim x) : Throws P x :=
  fun i e i' hx => (h i e i' hx).elim

theorem Looks.bind {x : StepM α} {f : α → StepM β} (hx : Looks x) (hf : ∀ a, Looks (f a)) :
    Looks (x >>= f) := by
  intro i
  rw [EStateM.run_bind]
  rcases hx i with ⟨a, ha⟩ | ⟨i₁, ha⟩
  · rw [ha]; exact hf a i
  · rw [ha]; exact .inr ⟨i₁, rfl⟩

/-- After a look the object is still the one the body started with. -/
theorem throws_look {x : StepM α} {f : α → StepM β} (hx : Looks x) (hf : ∀ a, Throws P (f a)) :
    Throws P (x >>= f) := by
  intro i e i' h
  rw [EStateM.run_bind] at h
  rcases hx i with ⟨a, ha⟩ | ⟨i₁, ha⟩
  · rw [ha] at h; exact hf a i e i' h
  · rw [ha] at h; cases h

/-- Nothing is thrown after `x`. -/
theorem throws_last {x : StepM α} {f : α → StepM β} (hx : Throws P x) (hf : ∀ a, NoSim (f a)) :
    Throws P (x >>= f) := by
  intro i e i' h
  rw [EStateM.run_bind] at h
  cases hrun : x.run i with
  | ok a i₁ => rw [hrun] at h; exact (hf a i₁ e i' h).elim
  | error f i₁ => rw [hrun] at h; cases h; exact hx i e i' hrun

theorem throws_ite {c : Prop} [Decidable c] {x y : StepM α} (hx : Throws P x) (hy : Throws P y) :
    Throws P (if c then x else y) := by
  split
  · exact hx
  · exact hy

theorem throws_throwSim {e : SimExceptions} (h : ∀ i, P i e i) : Throws P (throwSim e) := by
  intro i e' i' hrun
  cases hrun
  exact h i

end Rules

/-! ### Accessors -/

theorem gp_error {s : RiscvState} {idx : U32} {f : Fault} (h : s.gp idx = .error f) :
    f = .undefined := by
  unfold RiscvState.gp at h
  split at h
  · cases h
  · split at h
    · cases h
    · exact (Except.error.inj h).symm

theorem looks_pure (a : α) : Looks (pure a : StepM α) := fun _ => .inl ⟨a, rfl⟩
theorem looks_get : Looks (get : StepM RiscvInstruction) := fun i => .inl ⟨i, rfl⟩

theorem looks_readGp (idx : RiscvInstruction → U32) :
    Looks (do let i ← get; return (← Effect.lift (i.state.gp (idx i))).setWidth 32) := by
  refine looks_get.bind fun i => Looks.bind (fun i' => ?_) fun _ => looks_pure _
  cases h : i.state.gp (idx i) with
  | ok v => exact .inl ⟨v, rfl⟩
  | error f => obtain rfl := gp_error h; exact .inr ⟨i', rfl⟩

theorem looks_rs1 : Looks rs1 := looks_readGp RiscvInstruction.rs1
theorem looks_rs2 : Looks rs2 := looks_readGp RiscvInstruction.rs2
theorem looks_rd : Looks rd := looks_readGp RiscvInstruction.rd
theorem looks_x (idx : U32) : Looks (x idx) := looks_readGp fun _ => idx
theorem looks_pc : Looks pc := fun _ => .inl ⟨_, rfl⟩
theorem looks_imm : Looks imm := fun _ => .inl ⟨_, rfl⟩
theorem looks_immForShift : Looks immForShift := fun _ => .inl ⟨_, rfl⟩
theorem looks_signExtendImm (w : Nat) : Looks (signExtendImm w) := fun _ => .inl ⟨_, rfl⟩
theorem looks_userMode : Looks userMode := fun _ => .inl ⟨_, rfl⟩
theorem looks_machineMode : Looks machineMode := fun _ => .inl ⟨_, rfl⟩
theorem looks_wfiEnabled : Looks wfiEnabled := fun _ => .inl ⟨_, rfl⟩

theorem setGp_error {s : RiscvState} {idx : U32} {v : U64} {f : Fault}
    (h : s.setGp idx v = .error f) : f = .undefined := by
  unfold RiscvState.setGp at h
  split at h
  · cases h
  · split at h
    · cases h
    · exact (Except.error.inj h).symm

theorem noSim_writeGp (idx : RiscvInstruction → U32) (v : U64) :
    NoSim (do
      let i ← get
      let s ← Effect.lift (i.state.setGp (idx i) v)
      set { i with state := s }) := by
  intro i e i' h
  rw [EStateM.run_bind, EStateM.run_get] at h
  simp only [EStateM.run_bind] at h
  cases hs : i.state.setGp (idx i) v with
  | ok s => rw [hs] at h; cases h
  | error f => rw [hs] at h; obtain rfl := setGp_error hs; cases h

theorem noSim_setRd (v : U32) : NoSim (setRd v) := noSim_writeGp RiscvInstruction.rd (v.setWidth 64)
theorem noSim_setSp (v : U64) : NoSim (setSp v) := noSim_writeGp (fun _ => 2) v

/-! ### Memory accesses -/

theorem checkAddresses_error {m : Memory} {a : U64} {n : Int} {test : Bool} {f : Fault}
    (h : m.checkAddresses a n test = .error f) : f = .sim .generationError := by
  have hv : ∀ {a : U64} {f : Fault}, m.validatePhysicalMemoryAddress a test = .error f →
      f = .sim .generationError := by
    intro a f hf
    unfold Memory.validatePhysicalMemoryAddress at hf
    split at hf
    · exact (Except.error.inj hf).symm
    · simp only at hf
      split at hf
      · cases hf
      · split at hf
        · cases hf
        · exact (Except.error.inj hf).symm
  unfold Memory.checkAddresses at h
  cases h₁ : m.validatePhysicalMemoryAddress a test with
  | error f₁ => rw [h₁] at h; cases h; exact hv h₁
  | ok a₁ =>
    rw [h₁] at h
    cases h₂ : m.validatePhysicalMemoryAddress (a₁ + BitVec.ofInt 64 n - 1) test with
    | error f₂ =>
      simp only [bind, Except.bind, h₂] at h
      cases h
      exact hv h₂
    | ok a₂ =>
      simp only [bind, Except.bind, h₂] at h
      cases h

/-- A data read of at most a block refuses an address outside the range, and nothing else. -/
theorem readMemory_error {a : U64} {n : Nat} {buf : List Byte} {m m' : Memory} {f : Fault}
    (hn : 0 < n ∧ n ≤ 8)
    (h : (Memory.readMemory a true n true buf false true).run m = .error f m') :
    f = .sim .generationError := by
  have hle : (n : Int) ≤ 32 := by omega
  rw [Memory.readMemory] at h
  simp only [Bool.not_true, Bool.and_self, Bool.false_eq_true, if_false, hle, if_true,
    Memory.readMemoryBlock] at h
  rw [Memory.readPhysicalMemory, EStateM.run_bind, EStateM.run_get] at h
  simp only at h
  rw [EStateM.run_bind] at h
  cases hc : m.checkAddresses a n false with
  | error f' =>
    rw [hc, Effect.run_lift_error] at h
    cases h
    exact checkAddresses_error hc
  | ok a' =>
    rw [hc, Effect.run_lift_ok] at h
    simp only at h
    cases hd : m.deviceAt a' with
    | none =>
      rw [hd] at h
      simp only [Memory.onPhysMem] at h
      rw [EStateM.run_bind, Effect.run_focus, PhysicalMemory.read_run hn.1 (by omega)] at h
      cases h
    | some p =>
      rw [hd] at h
      simp only at h
      rw [Memory.readDeviceMemory, EStateM.run_bind, EStateM.run_get] at h
      simp only [Bool.false_eq_true, if_false] at h
      split at h <;> cases h

theorem registerValue_error (bigEndian : Bool) (bytes : List Byte) (v : U64) (k : Nat) {f : Fault}
    (h : registerValue bigEndian v k bytes = .error f) : f = .undefined := by
  induction bytes generalizing v k with
  | nil => cases h
  | cons b bs ih =>
    rw [registerValue] at h
    cases bigEndian with
    | true => exact ih _ _ h
    | false =>
      simp only [Bool.false_eq_true, if_false, orByte] at h
      split at h
      · exact ih _ _ h
      · cases h; rfl

theorem checkSize_error {size : Nat} {what : String} {f : Fault}
    (h : checkSize size what = .error f) : ∀ e, f ≠ .sim e := by
  unfold checkSize at h
  split at h
  · cases h
  · cases h; exact fun e he => Fault.noConfusion he

theorem noSim_lift {r : Except Fault α} (h : ∀ f, r = .error f → ∀ e, f ≠ .sim e) :
    NoSim (Effect.lift r : StepM α) := by
  intro i e i' hrun
  cases r with
  | ok a => cases hrun
  | error f => cases hrun; exact h _ rfl e rfl

theorem throws_lift_bind {P : RiscvInstruction → SimExceptions → RiscvInstruction → Prop}
    {r : Except Fault α} {f : α → StepM β} (he : ∀ f, r = .error f → ∀ e, f ≠ .sim e)
    (hok : ∀ a, r = .ok a → Throws P (f a)) : Throws P (Effect.lift r >>= f) := by
  intro i e i' h
  cases r with
  | ok a => exact hok a rfl i e i' h
  | error f => cases h; exact (he _ rfl e rfl).elim

theorem noSim_modify (f : RiscvInstruction → RiscvInstruction) : NoSim (modify f : StepM Unit) :=
  fun _ _ _ h => by cases h

theorem noSim_bind {x : StepM α} {f : α → StepM β} (hx : NoSim x) (hf : ∀ a, NoSim (f a)) :
    NoSim (x >>= f) := throws_last hx hf

theorem throws_onMemory_read {n : Nat} (hn : 0 < n ∧ n ≤ 8) (a : U64) (buf : List Byte) :
    Throws (fun _ e _ => e = .generationError)
      (onMemory (Memory.readMemory a true n true buf false true)) := by
  intro i e i' h
  rw [onMemory, Effect.run_focus] at h
  cases hm : (Memory.readMemory a true n true buf false true).run i.memory with
  | ok r m => rw [hm] at h; cases h
  | error f m =>
    rw [hm] at h
    cases h
    exact Fault.sim.inj (readMemory_error hn hm)

theorem throws_memoryRead (a : U64) (size : Nat) :
    Throws (fun _ e _ => e = .generationError) (memoryRead a size) := by
  refine throws_lift_bind (fun _ hf => checkSize_error hf) fun _ hs => ?_
  refine throws_look looks_get fun i => ?_
  refine throws_last (throws_onMemory_read (checkSize_ok hs) a i.mbuf) fun r => ?_
  refine noSim_bind (noSim_modify _) fun _ => noSim_bind (noSim_lift fun f hf e => ?_) fun _ =>
    noSim_bind (noSim_modify _) fun _ => (looks_pure _).noSim
  rw [registerValue_error _ _ _ _ hf]
  exact fun he => Fault.noConfusion he

theorem noSim_memoryWrite (a : U64) (size : Nat) (v : U64) : NoSim (memoryWrite a size v) :=
  noSim_bind (noSim_lift fun _ hf => checkSize_error hf) fun _ => noSim_bind looks_get.noSim
    fun _ => noSim_bind (noSim_modify _) fun _ => noSim_modify _

/-! ### The bodies -/

/-- What a body throws, and what it has done by then. -/
inductive Raises (c : Iclass) (i : RiscvInstruction) : SimExceptions → RiscvInstruction → Prop where
  /-- nothing; if it is a CSR instruction, the CSR could not be read -/
  | sync {e : SimExceptions} (trap : e.isSync)
      (csr : c.writesCsr i.rs1 → ∀ v, i.state.csr i.imm 3 ≠ .ok v) : Raises c i e i
  | mret (hc : c = .mret) (level : i.state.currentPrivilegeLevel = 3) : Raises c i .processMret i
  | wfi (hc : c = .wfi) (level : i.state.currentPrivilegeLevel ≠ 0) : Raises c i .processWfi i
  /-- a jump: MTVAL holds the target -/
  | misaligned (target : U64) (jump : c.isJump) :
      Raises c i .instructionAddressMisaligned { i with state := i.state.write .mtval target }
  /-- a load from outside the address range -/
  | load (i' : RiscvInstruction) : Raises c i .generationError i'
  /-- a CSR instruction: `rd` holds the CSR, which may not be written -/
  | refused {e : SimExceptions} {v : U64} (trap : e.isSync) (writes : c.writesCsr i.rs1)
      (hrd : i.rd.toNat < 32) (read : i.state.csr i.imm 3 = .ok v)
      (readOnly : RiscvState.csrReg i.imm = none) : Raises c i e (i.putRd (v.setWidth 32))

section Bodies

variable {c : Iclass}

theorem raises_of_setPc (hc : c.isJump) (target alignment : U64) :
    Throws (Raises c) (setPc target alignment) := by
  intro i e i' h
  rw [setPc, EStateM.run_bind, EStateM.run_get] at h
  simp only at h
  generalize (if i.state.compressedExtensionEnabled then (1 : U64) else alignment - 1) = mask at h
  split at h
  · cases h
    exact .misaligned target hc
  · cases h

theorem raises_of_throwSim (hc : ∀ rs1, c.writesCsr rs1 = false) {e : SimExceptions}
    (he : e.isSync) : Throws (Raises c) (throwSim e) :=
  throws_throwSim fun i => .sync he (by simp [hc])

theorem raises_of_branch (hc : c.isJump) (cond : U32 → U32 → Bool) :
    Throws (Raises c) (branch cond) := by
  have hgo : ∀ offset, Throws (Raises c) (do setPc ((← pc).setWidth 64 + offset) 4) := fun _ =>
    throws_look looks_pc fun _ => raises_of_setPc hc _ _
  refine throws_look looks_rs1 fun _ => throws_look looks_rs2 fun _ => ?_
  exact throws_ite (throws_look (looks_signExtendImm _) hgo) (throws_look (looks_pure _) hgo)

theorem raises_of_memoryRead (a : U64) (size : Nat) : Throws (Raises c) (memoryRead a size) := by
  intro i e i' h
  obtain rfl := throws_memoryRead a size i e i' h
  exact .load i'

theorem looks_effectiveAddress : Looks effectiveAddress :=
  looks_rs1.bind fun _ => (looks_signExtendImm _).bind fun _ => looks_pure _

theorem raises_of_load (size : Nat) (extend : U64 → U64) : Throws (Raises c) (load size extend) :=
  throws_look looks_effectiveAddress fun _ => throws_last (raises_of_memoryRead _ _) fun _ =>
    noSim_setRd _

theorem noSim_store (size : Nat) : NoSim (store size) :=
  noSim_bind looks_effectiveAddress.noSim fun _ => noSim_bind looks_rs2.noSim fun _ =>
    noSim_memoryWrite _ _ _

theorem noSim_alu (f : U32 → U32 → U32) : NoSim (alu f) :=
  noSim_bind looks_rs1.noSim fun _ => noSim_bind looks_rs2.noSim fun _ => noSim_setRd _

theorem noSim_aluImm (f : U32 → U64 → U32) : NoSim (aluImm f) :=
  noSim_bind looks_rs1.noSim fun _ => noSim_bind (looks_signExtendImm _).noSim fun _ =>
    noSim_setRd _

theorem noSim_shiftImm (f : U32 → Nat → U32) : NoSim (shiftImm f) :=
  noSim_bind looks_rs1.noSim fun _ => noSim_bind looks_immForShift.noSim fun _ => noSim_setRd _

theorem noSim_undefined : NoSim (throw .undefined : StepM α) := fun _ _ _ h => by cases h

theorem noSim_shiftReg (f : U32 → Nat → U32) : NoSim (shiftReg f) :=
  noSim_bind looks_rs1.noSim fun _ => noSim_bind looks_rs2.noSim fun _ =>
    throws_ite (noSim_bind noSim_undefined fun _ => noSim_setRd _) (noSim_setRd _)

/-! #### CSR instructions -/

theorem validateCsrAccess_error {n level : U32} {wr : Bool} {e : SimExceptions}
    (h : RiscvState.validateCsrAccess n level wr = .error (.sim e)) : e.isSync := by
  unfold RiscvState.validateCsrAccess at h
  split at h
  · cases h
  · split at h
    · cases h
    · cases h; rfl

theorem csr_error {s : RiscvState} {n : U32} {e : SimExceptions}
    (h : s.csr n 3 = .error (.sim e)) : e.isSync := by
  unfold RiscvState.csr at h
  cases hv : RiscvState.validateCsrAccess n 3 false with
  | error f => rw [hv] at h; cases h; exact validateCsrAccess_error hv
  | ok u =>
    rw [hv] at h
    cases hr : RiscvState.csrReg n with
    | some r => rw [hr] at h; cases h
    | none =>
      rw [hr] at h
      cases hcn : s.csrCounter n with
      | some v => rw [hcn] at h; cases h
      | none => rw [hcn] at h; cases h; rfl

/-- A stored CSR may be written. -/
theorem validateCsrAccess_of_reg {n : U32} {r : Creg} (h : RiscvState.csrReg n = some r) :
    RiscvState.validateCsrAccess n 3 true = .ok () := by
  have hn : n = BitVec.ofNat 32 n.toNat := by simp
  unfold RiscvState.csrReg at h
  split at h
  case h_26 => cases h
  all_goals
    next heq =>
    rw [heq] at hn
    rw [hn]
    rfl

theorem setCsr_error {s : RiscvState} {n : U32} {v : U64} {e : SimExceptions}
    (h : s.setCsr n 3 v = .error (.sim e)) : e.isSync ∧ RiscvState.csrReg n = none := by
  cases hr : RiscvState.csrReg n with
  | some r =>
    have hv := validateCsrAccess_of_reg hr
    unfold RiscvState.setCsr at h
    rw [hv, hr] at h
    cases h
  | none =>
    refine ⟨?_, rfl⟩
    unfold RiscvState.setCsr at h
    cases hv : RiscvState.validateCsrAccess n 3 true with
    | error f => rw [hv] at h; cases h; exact validateCsrAccess_error hv
    | ok u => rw [hv, hr] at h; cases h; rfl

/-- A value to write that can be computed once the CSR has been read. -/
def Ready (value : StepM U64) : Prop :=
  ∀ i v, i.state.csr i.imm 3 = .ok v → ∃ a, value.run i = .ok a i

theorem csr_putRd (i : RiscvInstruction) (v : U32) (n : U32) :
    (i.putRd v).state.csr n 3 = i.state.csr n 3 := by
  have hset : ∀ (s : RiscvState) (idx : U32) (x : U64), (s.setReg idx x).csr n 3 = s.csr n 3 := by
    intro s idx x
    unfold RiscvState.setReg
    split <;> rfl
  exact hset _ _ _

/-- The write of the CSR, after the read and the write of `rd`. -/
theorem raises_of_csr_write {i i' : RiscvInstruction} {e : SimExceptions} {v : U64}
    {value : StepM U64} (hw : c.writesCsr i.rs1) (hvalue : Ready value) (hrd : i.rd.toNat < 32)
    (hr : i.state.csr i.imm 3 = .ok v)
    (h : (value >>= setCsrImm).run (i.putRd (v.setWidth 32)) = .error (.sim e) i') :
    Raises c i e i' := by
  obtain ⟨a, ha⟩ := hvalue (i.putRd (v.setWidth 32)) v (by rw [csr_putRd]; exact hr)
  rw [EStateM.run_bind, ha] at h
  simp only at h
  rw [setCsrImm, EStateM.run_bind, EStateM.run_get] at h
  simp only [EStateM.run_bind] at h
  cases hs : (i.putRd (v.setWidth 32)).state.setCsr i.imm 3 a with
  | ok s =>
    have hs' : (i.putRd (v.setWidth 32)).state.setCsr (i.putRd (v.setWidth 32)).imm
        (i.putRd (v.setWidth 32)).state.privilegeLevel a = .ok s := hs
    rw [hs'] at h
    cases h
  | error f =>
    have hs' : (i.putRd (v.setWidth 32)).state.setCsr (i.putRd (v.setWidth 32)).imm
        (i.putRd (v.setWidth 32)).state.privilegeLevel a = .error f := hs
    rw [hs'] at h
    cases h
    obtain ⟨htrap, hnone⟩ := setCsr_error hs
    exact .refused htrap hw hrd hr hnone

/-- The read of the CSR and the write of `rd`. -/
theorem raises_of_csr_read {i i' : RiscvInstruction} {e : SimExceptions} {next : StepM Unit}
    (hnext : ∀ v, i.rd.toNat < 32 → i.state.csr i.imm 3 = .ok v →
      next.run (i.putRd (v.setWidth 32)) = .error (.sim e) i' → Raises c i e i')
    (h : (do setRd ((← csrImm).setWidth 32); next).run i = .error (.sim e) i') :
    Raises c i e i' := by
  cases hr : i.state.csr i.imm 3 with
  | error f =>
    have hrun : csrImm.run i = .error f i := by
      have hr' : i.state.csr i.imm i.state.privilegeLevel = .error f := hr
      rw [csrImm, EStateM.run_bind, EStateM.run_get]
      simp only [hr', Effect.run_lift_error]
    rw [EStateM.run_bind, hrun] at h
    cases h
    exact .sync (csr_error hr) fun _ v hv => by rw [hr] at hv; cases hv
  | ok v =>
    have hrun : csrImm.run i = .ok v i := by
      have hr' : i.state.csr i.imm i.state.privilegeLevel = .ok v := hr
      rw [csrImm, EStateM.run_bind, EStateM.run_get]
      simp only [hr', Effect.run_lift_ok]
    rw [EStateM.run_bind, hrun] at h
    simp only [EStateM.run_bind] at h
    by_cases hrd : i.rd.toNat < 32
    · rw [run_setRd hrd] at h
      exact hnext v hrd hr h
    · cases hset : (setRd (v.setWidth 32)).run i with
      | error f i₁ => rw [hset] at h; cases h; exact (noSim_setRd _ _ _ _ hset).elim
      | ok u i₁ =>
        have hgp : i.state.setGp i.rd ((v.setWidth 32).setWidth 64) = .error .undefined := by
          have h0 : i.rd ≠ 0 := fun h0 => hrd (by rw [h0]; decide)
          rw [RiscvState.setGp, if_neg h0, dif_neg hrd]
        rw [setRd, EStateM.run_bind, EStateM.run_get] at hset
        simp only [EStateM.run_bind, hgp, Effect.run_lift_error] at hset
        cases hset

theorem raises_of_csrWrite (hc : ∀ rs1, c.writesCsr rs1) {value : StepM U64}
    (hvalue : Ready value) : Throws (Raises c) (csrWrite value) := by
  intro i e i' h
  exact raises_of_csr_read (fun v hrd hr h' => raises_of_csr_write (hc _) hvalue hrd hr h') h

theorem raises_of_csrModify (hc : ∀ rs1, c.writesCsr rs1 = decide (rs1 ≠ 0)) {value : StepM U64}
    (hvalue : Ready value) : Throws (Raises c) (csrModify value) := by
  intro i e i' h
  refine raises_of_csr_read (fun v hrd hr h' => ?_) h
  rw [EStateM.run_bind, EStateM.run_get] at h'
  simp only at h'
  split at h'
  · next hne =>
    exact raises_of_csr_write (by rw [hc]; exact decide_eq_true hne) hvalue hrd hr h'
  · cases h'

theorem ready_csrImm {f : U64 → RiscvInstruction → U64} :
    Ready (do let v ← csrImm; let i ← get; return f v i) := by
  intro i v hv
  have hv' : i.state.csr i.imm i.state.privilegeLevel = .ok v := hv
  refine ⟨f v i, ?_⟩
  simp only [csrImm, EStateM.run_bind, EStateM.run_get, hv', Effect.run_lift_ok, EStateM.run_pure]

/-- Every body. -/
theorem raises_of_step (c : Iclass) : Throws (Raises c) (step c) := by
  have hguard : ∀ {c : Iclass} {q : Prop} [Decidable q] {x : StepM Unit},
      (∀ rs1, c.writesCsr rs1 = false) → NoSim x →
      Throws (Raises c) (if q then (do throwSim .illegalInstructionUnimplInstr; x) else x) :=
    fun hc hx => throws_ite (throws_last (raises_of_throwSim hc rfl) fun _ => hx) hx.throws
  cases c
  case addi | slti | sltiu | andi | ori | xori => exact (noSim_aluImm _).throws
  case slli | srli | srai => exact (noSim_shiftImm _).throws
  case add | slt | sltu | and | or | xor | sub | mul | mulhu | mulh | mulhsu | div | divu | rem =>
    exact (noSim_alu _).throws
  case sll | srl | sra => exact (noSim_shiftReg _).throws
  case lui => exact throws_look looks_imm fun _ => (noSim_setRd _).throws
  case auipc =>
    exact throws_look looks_pc fun _ => throws_look looks_imm fun _ => (noSim_setRd _).throws
  case jal | cJal =>
    exact throws_look looks_pc fun _ => throws_look (looks_signExtendImm _) fun _ =>
      throws_last (raises_of_setPc rfl _ _) fun _ => noSim_bind looks_pc.noSim fun _ =>
        noSim_setRd _
  case jalr =>
    exact throws_look looks_rs1 fun _ => throws_look (looks_signExtendImm _) fun _ =>
      throws_last (raises_of_setPc rfl _ _) fun _ => noSim_bind looks_pc.noSim fun _ =>
        noSim_setRd _
  case beq | bne | blt | bltu | bge | bgeu => exact raises_of_branch rfl _
  case lb | lh | lw | lbu | lhu => exact raises_of_load _ _
  case sb | sh | sw => exact (noSim_store _).throws
  case fence | fenceI | sfence | ebreak | cNop => exact (looks_pure ()).noSim.throws
  case csrrw =>
    exact throws_look looks_rs1 fun _ => raises_of_csrWrite (fun _ => rfl) fun i _ _ => ⟨_, rfl⟩
  case csrrwi => exact raises_of_csrWrite (fun _ => rfl) fun i _ _ => ⟨_, rfl⟩
  case csrrs | csrrc =>
    refine throws_look looks_rs1 fun _ => raises_of_csrModify (fun _ => rfl) fun i v hv => ?_
    have hv' : i.state.csr i.imm i.state.privilegeLevel = .ok v := hv
    simp only [csrImm, EStateM.run_bind, EStateM.run_get, hv', Effect.run_lift_ok,
      EStateM.run_pure]
    exact ⟨_, rfl⟩
  case csrrsi | csrrci => exact raises_of_csrModify (fun _ => rfl) ready_csrImm
  case ecall =>
    exact throws_look looks_userMode fun _ => throws_ite
      (raises_of_throwSim (fun _ => rfl) rfl) (raises_of_throwSim (fun _ => rfl) rfl)
  case uret | sret | hret | unknownInstruction =>
    exact raises_of_throwSim (fun _ => rfl) rfl
  case mret =>
    intro i e i' h
    rw [step, EStateM.run_bind, run_machineMode] at h
    by_cases hlevel : i.state.currentPrivilegeLevel = 3
    · simp only [hlevel, decide_true, if_true] at h
      cases h
      exact .mret rfl hlevel
    · simp only [hlevel, decide_false, Bool.false_eq_true, if_false] at h
      cases h
      exact .sync rfl (by simp [Iclass.writesCsr])
  case wfi =>
    intro i e i' h
    rw [step, EStateM.run_bind, run_userMode] at h
    by_cases hlevel : i.state.currentPrivilegeLevel = 0
    · simp only [hlevel, decide_true, if_true] at h
      cases h
      exact .sync rfl (by simp [Iclass.writesCsr])
    · simp only [hlevel, decide_false, Bool.false_eq_true, if_false] at h
      rw [EStateM.run_bind, run_wfiEnabled] at h
      dsimp only at h
      split at h
      · cases h; exact .wfi rfl hlevel
      · cases h; exact .sync rfl (by simp [Iclass.writesCsr])
  case remu =>
    exact throws_look looks_rs1 fun _ => throws_look looks_rs2 fun _ => throws_ite
      (noSim_bind noSim_undefined fun _ => noSim_setRd _).throws (noSim_setRd _).throws
  case cLw =>
    exact throws_look looks_rs1 fun _ => throws_look looks_imm fun _ =>
      throws_last (raises_of_memoryRead _ _) fun _ => noSim_setRd _
  case cSw =>
    exact throws_look looks_rs1 fun _ => throws_look looks_imm fun _ =>
      throws_look looks_rs2 fun _ => (noSim_memoryWrite _ _ _).throws
  case cJ =>
    exact throws_look looks_pc fun _ => throws_look (looks_signExtendImm _) fun _ =>
      raises_of_setPc rfl _ _
  case cBeqz =>
    have hgo : ∀ offset, Throws (Raises .cBeqz) (do setPc ((← pc).setWidth 64 + offset) 2) :=
      fun _ => throws_look looks_pc fun _ => raises_of_setPc rfl _ _
    exact throws_look looks_rs1 fun _ => throws_ite (throws_look (looks_signExtendImm _) hgo)
      (throws_look (looks_pure _) hgo)
  case cLi =>
    exact throws_look looks_get fun _ => hguard (fun _ => rfl)
      (noSim_bind (looks_signExtendImm _).noSim fun _ => noSim_setRd _)
  case cLui =>
    exact throws_look looks_get fun _ => throws_look looks_get fun _ => hguard (fun _ => rfl)
      (noSim_bind looks_imm.noSim fun _ => noSim_setRd _)
  case cAddi =>
    exact throws_look looks_imm fun _ => hguard (fun _ => rfl) (noSim_bind looks_rs1.noSim fun _ =>
      noSim_bind (looks_signExtendImm _).noSim fun _ => noSim_setRd _)
  case cAddi16sp =>
    exact throws_look looks_imm fun _ => hguard (fun _ => rfl)
      (noSim_bind (looks_x _).noSim fun _ => noSim_bind (looks_signExtendImm _).noSim fun _ =>
        noSim_setSp _)
  case cAddi4spn =>
    exact throws_look looks_imm fun _ => hguard (fun _ => rfl)
      (noSim_bind (looks_x _).noSim fun _ => noSim_bind looks_imm.noSim fun _ => noSim_setRd _)
  case cAndi =>
    exact throws_look looks_rd fun _ => throws_look (looks_signExtendImm _) fun _ =>
      (noSim_setRd _).throws
  case cAnd | cOr | cXor | cSub =>
    exact throws_look looks_rd fun _ => throws_look looks_rs2 fun _ => (noSim_setRd _).throws

end Bodies

/-- What a body has done when it throws. -/
inductive Thrown (c : Iclass) (i : RiscvInstruction) : SimExceptions → RiscvInstruction → Prop where
  /-- nothing; if it is a CSR instruction, the CSR could not be read -/
  | plain {e : SimExceptions} (trap : e.isSync ∨ e = .processMret ∨ e = .processWfi)
      (csr : c.writesCsr i.rs1 → ∀ v, i.state.csr i.imm 3 ≠ .ok v) : Thrown c i e i
  /-- a jump: MTVAL holds the target -/
  | misaligned (target : U64) (csr : c.writesCsr i.rs1 = false) :
      Thrown c i .instructionAddressMisaligned { i with state := i.state.write .mtval target }
  /-- a load from outside the address range -/
  | load (i' : RiscvInstruction) : Thrown c i .generationError i'
  /-- a CSR instruction: `rd` holds the CSR, which may not be written -/
  | refused {e : SimExceptions} {v : U64} (trap : e.isSync) (writes : c.writesCsr i.rs1)
      (hrd : i.rd.toNat < 32) (read : i.state.csr i.imm 3 = .ok v)
      (readOnly : RiscvState.csrReg i.imm = none) : Thrown c i e (i.putRd (v.setWidth 32))

/-- Every body, without the cause of the two pseudo traps. -/
theorem thrown_of_step (c : Iclass) : Throws (Thrown c) (step c) := by
  intro i e i' h
  cases raises_of_step c i e i' h with
  | sync trap csr => exact .plain (.inl trap) csr
  | mret hc _ => subst hc; exact .plain (.inr (.inl rfl)) (by simp [Iclass.writesCsr])
  | wfi hc _ => subst hc; exact .plain (.inr (.inr rfl)) (by simp [Iclass.writesCsr])
  | misaligned target jump =>
    refine .misaligned target ?_
    cases c <;> first | rfl | exact absurd jump (by decide)
  | load => exact .load i'
  | refused trap writes hrd read readOnly => exact .refused trap writes hrd read readOnly

end Step

end Dimebox
