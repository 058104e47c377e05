import Dimebox.AddressRange
import Dimebox.CsrInstructions
import Dimebox.Runs

/-! Every exception of a guest instruction is handled.

    `ProcessException` implements the two interrupts, WFI, MRET and eight traps; anything else is
    `std::runtime_error`. What a body can throw is checked statement by statement: a trap it names
    itself, or an evaluation C++ leaves undefined. Loads add what memory throws, which over the
    default range is nothing, and CSR instructions what `ValidateCSRAccess` throws for a number
    above 0xfff, which `Decode` does not produce. -/

namespace Dimebox

/-- The cases of the switch in `ProcessException`. -/
def SimExceptions.implemented : SimExceptions → Bool
  | .machineTimerInt | .machineExternalInt | .processWfi | .processMret | .envCallUmode
  | .envCallMmode | .instructionAddressMisaligned | .illegalInstructionUnknownInstr
  | .illegalInstructionUnimplInstr | .illegalInstructionPrivilegedInstr
  | .illegalInstructionUnknownCsr | .illegalInstructionPrivilegedCsr => true
  | _ => false

/-- The default branch of the switch is for the others. -/
theorem RiscvState.processException_ok_iff (s : RiscvState) (e : SimExceptions) (opcode : U32) :
    (∃ s', s.processException e opcode = .ok s') ↔ e.implemented := by
  cases e
  case machineTimerInt | machineExternalInt | processWfi | processMret | envCallUmode
      | envCallMmode | instructionAddressMisaligned | illegalInstructionUnknownInstr
      | illegalInstructionUnimplInstr | illegalInstructionPrivilegedInstr
      | illegalInstructionUnknownCsr | illegalInstructionPrivilegedCsr =>
    exact ⟨fun _ => rfl, fun _ => ⟨_, rfl⟩⟩
  all_goals
    refine ⟨fun h => ?_, fun h => by cases h⟩
    obtain ⟨_, h⟩ := h
    cases h

namespace Step

variable {α β : Type}

/-- What a body may end with: an implemented exception, or undefined behaviour. -/
def Foreseen (f : Fault) : Prop := f = .undefined ∨ ∃ e, f = .sim e ∧ e.implemented

/-- Whatever `x` throws is foreseen. -/
def Safe (x : StepM α) : Prop := ∀ i f i', x.run i = .error f i' → Foreseen f

/-- The same on objects that have `P`. -/
def SafeOn (P : RiscvInstruction → Prop) (x : StepM α) : Prop :=
  ∀ i f i', P i → x.run i = .error f i' → Foreseen f

section Rules

variable {P : RiscvInstruction → Prop}

theorem Safe.on {x : StepM α} (h : Safe x) : SafeOn P x := fun i f i' _ hx => h i f i' hx

theorem Looks.safe {x : StepM α} (h : Looks x) : Safe x := by
  intro i f i' hx
  rcases h i with ⟨a, ha⟩ | ⟨i₁, ha⟩
  · rw [hx] at ha; cases ha
  · rw [hx] at ha; cases ha; exact .inl rfl

theorem safe_bind {x : StepM α} {f : α → StepM β} (hx : Safe x) (hf : ∀ a, Safe (f a)) :
    Safe (x >>= f) := by
  intro i g i' h
  rw [EStateM.run_bind] at h
  cases hrun : x.run i with
  | ok a i₁ => rw [hrun] at h; exact hf a i₁ g i' h
  | error g' i₁ => rw [hrun] at h; cases h; exact hx i g i' hrun

/-- After a look the object still has `P`. -/
theorem safeOn_look {x : StepM α} {f : α → StepM β} (hx : Looks x) (hf : ∀ a, SafeOn P (f a)) :
    SafeOn P (x >>= f) := by
  intro i g i' hi h
  rw [EStateM.run_bind] at h
  rcases hx i with ⟨a, ha⟩ | ⟨i₁, ha⟩
  · rw [ha] at h; exact hf a i g i' hi h
  · rw [ha] at h; cases h; exact .inl rfl

theorem safeOn_last {x : StepM α} {f : α → StepM β} (hx : SafeOn P x) (hf : ∀ a, Safe (f a)) :
    SafeOn P (x >>= f) := by
  intro i g i' hi h
  rw [EStateM.run_bind] at h
  cases hrun : x.run i with
  | ok a i₁ => rw [hrun] at h; exact hf a i₁ g i' h
  | error g' i₁ => rw [hrun] at h; cases h; exact hx i g i' hi hrun

theorem safe_ite {c : Prop} [Decidable c] {x y : StepM α} (hx : Safe x) (hy : Safe y) :
    Safe (if c then x else y) := by
  split
  · exact hx
  · exact hy

theorem safe_throwSim {e : SimExceptions} (h : e.implemented) : Safe (throwSim e) := by
  intro i f i' hrun
  cases hrun
  exact .inr ⟨e, rfl, h⟩

theorem safe_undefined : Safe (throw .undefined : StepM α) := by
  intro i f i' hrun
  cases hrun
  exact .inl rfl

theorem safe_modify (f : RiscvInstruction → RiscvInstruction) : Safe (modify f : StepM Unit) :=
  fun _ _ _ h => by cases h

end Rules

/-! ### Parts of the bodies -/

theorem safe_writeGp (idx : RiscvInstruction → U32) (v : U64) :
    Safe (do
      let i ← get
      let s ← Effect.lift (i.state.setGp (idx i) v)
      set { i with state := s }) := by
  intro i f i' h
  rw [EStateM.run_bind, EStateM.run_get] at h
  simp only [EStateM.run_bind] at h
  cases hs : i.state.setGp (idx i) v with
  | ok s => rw [hs] at h; cases h
  | error f => rw [hs] at h; obtain rfl := setGp_error hs; cases h; exact .inl rfl

theorem safe_setRd (v : U32) : Safe (setRd v) := safe_writeGp RiscvInstruction.rd (v.setWidth 64)
theorem safe_setSp (v : U64) : Safe (setSp v) := safe_writeGp (fun _ => 2) v

theorem safe_setPc (target alignment : U64) : Safe (setPc target alignment) := by
  intro i f i' h
  rw [setPc, EStateM.run_bind, EStateM.run_get] at h
  simp only at h
  generalize (if i.state.compressedExtensionEnabled then (1 : U64) else alignment - 1) = mask at h
  split at h
  · cases h
    exact .inr ⟨_, rfl, rfl⟩
  · cases h

/-- The sizes the bodies use. -/
def Sized (size : Nat) : Prop := size = 1 ∨ size = 2 ∨ size = 4

theorem Sized.checkSize {size : Nat} (h : Sized size) (what : String) :
    checkSize size what = .ok () := by
  rw [Step.checkSize, if_pos]
  rcases h with rfl | rfl | rfl <;> decide

theorem safe_memoryWrite {size : Nat} (h : Sized size) (a v : U64) : Safe (memoryWrite a size v) := by
  rw [memoryWrite, h.checkSize]
  exact safe_bind (looks_pure ()).safe fun _ => safe_bind looks_get.safe fun _ =>
    safe_bind (safe_modify _) fun _ => safe_modify _

/-- An object whose memory has the default range. -/
def InRange (i : RiscvInstruction) : Prop := i.memory.DefaultRange

theorem safeOn_memoryRead {size : Nat} (h : Sized size) (a : U64) :
    SafeOn InRange (memoryRead a size) := by
  rw [memoryRead, h.checkSize]
  refine safeOn_look (looks_pure ()) fun _ => safeOn_look looks_get fun j => ?_
  refine safeOn_last (fun i f i' hi hrun => ?_) fun r => safe_bind (safe_modify _) fun _ =>
    safe_bind (fun i f i' hrun => ?_) fun _ => safe_bind (safe_modify _) fun _ => (looks_pure _).safe
  · -- the read of memory returns
    have hsize : 0 < size ∧ size ≤ 32 := by rcases h with rfl | rfl | rfl <;> decide
    have hle : (size : Int) ≤ 32 := by omega
    obtain ⟨r, m, hread, -⟩ := Memory.readPhysicalMemory_ok hi a hsize.1 hsize.2 j.mbuf true
    rw [onMemory, Effect.run_focus, Memory.readMemory] at hrun
    simp only [Bool.not_true, Bool.and_self, Bool.false_eq_true, if_false, hle, if_true,
      Memory.readMemoryBlock] at hrun
    rw [hread] at hrun
    cases hrun
  · generalize hv : registerValue j.memory.hostEndianness 0 0 _ = v at hrun
    cases v with
    | ok v => cases hrun
    | error g =>
      cases hrun
      exact .inl (registerValue_error _ _ _ _ hv)

theorem safe_branch (cond : U32 → U32 → Bool) : Safe (branch cond) := by
  have hgo : ∀ offset, Safe (do setPc ((← pc).setWidth 64 + offset) 4) := fun _ =>
    safe_bind looks_pc.safe fun _ => safe_setPc _ _
  exact safe_bind looks_rs1.safe fun _ => safe_bind looks_rs2.safe fun _ =>
    safe_ite (safe_bind (looks_signExtendImm _).safe hgo) (safe_bind (looks_pure _).safe hgo)

theorem safeOn_load {size : Nat} (h : Sized size) (extend : U64 → U64) :
    SafeOn InRange (load size extend) :=
  safeOn_look looks_effectiveAddress fun _ => safeOn_last (safeOn_memoryRead h _) fun _ =>
    safe_setRd _

theorem safe_store {size : Nat} (h : Sized size) : Safe (store size) :=
  safe_bind looks_effectiveAddress.safe fun _ => safe_bind looks_rs2.safe fun _ =>
    safe_memoryWrite h _ _

theorem safe_alu (f : U32 → U32 → U32) : Safe (alu f) :=
  safe_bind looks_rs1.safe fun _ => safe_bind looks_rs2.safe fun _ => safe_setRd _

theorem safe_aluImm (f : U32 → U64 → U32) : Safe (aluImm f) :=
  safe_bind looks_rs1.safe fun _ => safe_bind (looks_signExtendImm _).safe fun _ => safe_setRd _

theorem safe_shiftImm (f : U32 → Nat → U32) : Safe (shiftImm f) :=
  safe_bind looks_rs1.safe fun _ => safe_bind looks_immForShift.safe fun _ => safe_setRd _

theorem safe_shiftReg (f : U32 → Nat → U32) : Safe (shiftReg f) :=
  safe_bind looks_rs1.safe fun _ => safe_bind looks_rs2.safe fun _ =>
    safe_ite (safe_bind safe_undefined fun _ => safe_setRd _) (safe_setRd _)

/-! ### CSR instructions -/

/-- An object whose immediate is a CSR number. -/
def NamesCsr (i : RiscvInstruction) : Prop := i.imm.toNat ≤ 0xfff

theorem validateCsrAccess_foreseen {n level : U32} {wr : Bool} {f : Fault} (hn : n.toNat ≤ 0xfff)
    (h : RiscvState.validateCsrAccess n level wr = .error f) : Foreseen f := by
  unfold RiscvState.validateCsrAccess at h
  split at h
  · next hlt =>
    have hlt' : 0xfff < n.toNat := BitVec.lt_def.mp hlt
    omega
  · split at h
    · cases h
    · cases h; exact .inr ⟨_, rfl, rfl⟩

theorem csr_foreseen {s : RiscvState} {n level : U32} {f : Fault} (hn : n.toNat ≤ 0xfff)
    (h : s.csr n level = .error f) : Foreseen f := by
  unfold RiscvState.csr at h
  cases hv : RiscvState.validateCsrAccess n level false with
  | error g => rw [hv] at h; cases h; exact validateCsrAccess_foreseen hn hv
  | ok u =>
    rw [hv] at h
    cases hr : RiscvState.csrReg n with
    | some r => rw [hr] at h; cases h
    | none =>
      rw [hr] at h
      cases hc : s.csrCounter n with
      | some v => rw [hc] at h; cases h
      | none => rw [hc] at h; cases h; exact .inr ⟨_, rfl, rfl⟩

theorem setCsr_foreseen {s : RiscvState} {n level : U32} {v : U64} {f : Fault}
    (hn : n.toNat ≤ 0xfff) (h : s.setCsr n level v = .error f) : Foreseen f := by
  unfold RiscvState.setCsr at h
  cases hv : RiscvState.validateCsrAccess n level true with
  | error g => rw [hv] at h; cases h; exact validateCsrAccess_foreseen hn hv
  | ok u =>
    rw [hv] at h
    cases hr : RiscvState.csrReg n with
    | some r => rw [hr] at h; cases h
    | none => rw [hr] at h; cases h; exact .inr ⟨_, rfl, rfl⟩

theorem safeOn_csrImm : SafeOn NamesCsr csrImm := by
  intro i f i' hi h
  rw [csrImm, EStateM.run_bind, EStateM.run_get] at h
  simp only at h
  cases hv : i.state.csr i.imm i.state.privilegeLevel with
  | ok v => rw [hv] at h; cases h
  | error g => rw [hv] at h; cases h; exact csr_foreseen hi hv

theorem safeOn_setCsrImm (v : U64) : SafeOn NamesCsr (setCsrImm v) := by
  intro i f i' hi h
  rw [setCsrImm, EStateM.run_bind, EStateM.run_get] at h
  simp only [EStateM.run_bind] at h
  cases hs : i.state.setCsr i.imm i.state.privilegeLevel v with
  | ok s => rw [hs] at h; cases h
  | error g => rw [hs] at h; cases h; exact setCsr_foreseen hi hs

/-- `x` leaves the immediate alone. -/
def KeepsImm (x : StepM α) : Prop := ∀ i a i', x.run i = .ok a i' → i'.imm = i.imm

theorem safeOn_bind {x : StepM α} {f : α → StepM β} (hx : SafeOn NamesCsr x) (hk : KeepsImm x)
    (hf : ∀ a, SafeOn NamesCsr (f a)) : SafeOn NamesCsr (x >>= f) := by
  intro i g i' hi h
  rw [EStateM.run_bind] at h
  cases hrun : x.run i with
  | ok a i₁ =>
    rw [hrun] at h
    exact hf a i₁ g i' (by rw [NamesCsr, hk i a i₁ hrun]; exact hi) h
  | error g' i₁ => rw [hrun] at h; cases h; exact hx i g i' hi hrun

theorem keepsImm_csrImm : KeepsImm csrImm := by
  intro i a i' h
  rw [(csrImm_ok h).2]

theorem keepsImm_setRd (v : U32) : KeepsImm (setRd v) := by
  intro i a i' h
  rw [setRd, EStateM.run_bind, EStateM.run_get] at h
  simp only [EStateM.run_bind] at h
  cases hs : i.state.setGp i.rd (v.setWidth 64) with
  | ok s => rw [hs] at h; cases h; rfl
  | error f => rw [hs] at h; cases h

/-- The read into `rd`, and what comes after it. -/
theorem safeOn_csrRead {next : StepM Unit} (h : SafeOn NamesCsr next) :
    SafeOn NamesCsr (do setRd ((← csrImm).setWidth 32); next) :=
  safeOn_bind safeOn_csrImm keepsImm_csrImm fun _ =>
    safeOn_bind (safe_setRd _).on (keepsImm_setRd _) fun _ => h

/-- A value that is computed from what the CSR reads. -/
theorem safeOn_csrValue (f : U64 → RiscvInstruction → U64) :
    SafeOn NamesCsr ((do return f (← csrImm) (← get)) >>= setCsrImm) := by
  refine safeOn_bind ?_ ?_ fun v => safeOn_setCsrImm v
  · exact safeOn_bind safeOn_csrImm keepsImm_csrImm fun _ =>
      (safe_bind looks_get.safe fun _ => (looks_pure _).safe).on
  · intro i a i' h
    obtain ⟨v, i₁, hv, h⟩ := Effect.ok_of_bind h
    obtain ⟨j, i₂, hj, h⟩ := Effect.ok_of_bind h
    cases h
    cases hj
    exact keepsImm_csrImm i v _ hv

theorem safeOn_csrWrite (v : U64) : SafeOn NamesCsr (csrWrite (pure v)) :=
  safeOn_csrRead (safeOn_look (looks_pure v) safeOn_setCsrImm)

theorem safeOn_csrModify (f : U64 → RiscvInstruction → U64) :
    SafeOn NamesCsr (csrModify (do return f (← csrImm) (← get))) := by
  refine safeOn_csrRead (safeOn_look looks_get fun i => ?_)
  split
  · exact safeOn_csrValue f
  · exact (looks_pure ()).safe.on

/-! ### Every body -/

/-- What `Decode` has to leave for the body of a class. -/
structure Decoded (c : Iclass) (i : RiscvInstruction) : Prop where
  range : InRange i
  csr : c.isCsr → NamesCsr i

theorem safeOn_step (c : Iclass) : SafeOn (Decoded c) (step c) := by
  have hload : ∀ {c : Iclass} {x : StepM Unit}, SafeOn InRange x → SafeOn (Decoded c) x :=
    fun h i f i' hi hx => h i f i' hi.range hx
  have hcsr : ∀ {c : Iclass} {x : StepM Unit}, c.isCsr → SafeOn NamesCsr x →
      SafeOn (Decoded c) x := fun hc h i f i' hi hx => h i f i' (hi.csr hc) hx
  have hguard : ∀ {q : Prop} [Decidable q] {x : StepM Unit}, Safe x →
      Safe (if q then (do throwSim .illegalInstructionUnimplInstr; x) else x) :=
    fun hx => safe_ite (safe_bind (safe_throwSim rfl) fun _ => hx) hx
  cases c
  case addi | slti | sltiu | andi | ori | xori => exact (safe_aluImm _).on
  case slli | srli | srai => exact (safe_shiftImm _).on
  case add | slt | sltu | and | or | xor | sub | mul | mulhu | mulh | mulhsu | div | divu | rem =>
    exact (safe_alu _).on
  case sll | srl | sra => exact (safe_shiftReg _).on
  case lui => exact (safe_bind looks_imm.safe fun _ => safe_setRd _).on
  case auipc =>
    exact (safe_bind looks_pc.safe fun _ => safe_bind looks_imm.safe fun _ => safe_setRd _).on
  case jal | cJal =>
    exact (safe_bind looks_pc.safe fun _ => safe_bind (looks_signExtendImm _).safe fun _ =>
      safe_bind (safe_setPc _ _) fun _ => safe_bind looks_pc.safe fun _ => safe_setRd _).on
  case jalr =>
    exact (safe_bind looks_rs1.safe fun _ => safe_bind (looks_signExtendImm _).safe fun _ =>
      safe_bind (safe_setPc _ _) fun _ => safe_bind looks_pc.safe fun _ => safe_setRd _).on
  case beq | bne | blt | bltu | bge | bgeu => exact (safe_branch _).on
  case lb | lbu => exact hload (safeOn_load (.inl rfl) _)
  case lh | lhu => exact hload (safeOn_load (.inr (.inl rfl)) _)
  case lw => exact hload (safeOn_load (.inr (.inr rfl)) _)
  case sb => exact (safe_store (.inl rfl)).on
  case sh => exact (safe_store (.inr (.inl rfl))).on
  case sw => exact (safe_store (.inr (.inr rfl))).on
  case fence | fenceI | sfence | ebreak | cNop => exact (looks_pure ()).safe.on
  case csrrw =>
    exact hcsr rfl (safeOn_look looks_rs1 fun _ => safeOn_csrWrite _)
  case csrrwi =>
    refine hcsr rfl (safeOn_csrRead (safeOn_bind ?_ ?_ safeOn_setCsrImm))
    · exact (safe_bind looks_get.safe fun _ => (looks_pure _).safe).on
    · intro i a i' h
      cases h
      rfl
  case csrrs =>
    exact hcsr rfl (safeOn_look looks_rs1 fun tmp =>
      safeOn_csrModify fun v _ => v ||| tmp.setWidth 64)
  case csrrc =>
    exact hcsr rfl (safeOn_look looks_rs1 fun tmp =>
      safeOn_csrModify fun v _ => v &&& (~~~tmp).setWidth 64)
  case csrrsi => exact hcsr rfl (safeOn_csrModify fun v i => v + i.rs1.setWidth 64)
  case csrrci => exact hcsr rfl (safeOn_csrModify fun v i => v - i.rs1.setWidth 64)
  case ecall =>
    exact (safe_bind looks_userMode.safe fun _ => safe_ite (safe_throwSim rfl) (safe_throwSim rfl)).on
  case uret | sret | hret | unknownInstruction => exact (safe_throwSim rfl).on
  case mret =>
    exact (safe_bind looks_machineMode.safe fun _ =>
      safe_ite (safe_throwSim rfl) (safe_throwSim rfl)).on
  case wfi =>
    exact (safe_bind looks_userMode.safe fun _ => safe_ite (safe_throwSim rfl)
      (safe_bind looks_wfiEnabled.safe fun _ => safe_ite (safe_throwSim rfl) (safe_throwSim rfl))).on
  case remu =>
    exact (safe_bind looks_rs1.safe fun _ => safe_bind looks_rs2.safe fun _ => safe_ite
      (safe_bind safe_undefined fun _ => safe_setRd _) (safe_setRd _)).on
  case cLw =>
    exact hload (safeOn_look looks_rs1 fun _ => safeOn_look looks_imm fun _ =>
      safeOn_last (safeOn_memoryRead (.inr (.inr rfl)) _) fun _ => safe_setRd _)
  case cSw =>
    exact (safe_bind looks_rs1.safe fun _ => safe_bind looks_imm.safe fun _ =>
      safe_bind looks_rs2.safe fun _ => safe_memoryWrite (.inr (.inr rfl)) _ _).on
  case cJ =>
    exact (safe_bind looks_pc.safe fun _ => safe_bind (looks_signExtendImm _).safe fun _ =>
      safe_setPc _ _).on
  case cBeqz =>
    have hgo : ∀ offset, Safe (do setPc ((← pc).setWidth 64 + offset) 2) := fun _ =>
      safe_bind looks_pc.safe fun _ => safe_setPc _ _
    exact (safe_bind looks_rs1.safe fun _ => safe_ite (safe_bind (looks_signExtendImm _).safe hgo)
      (safe_bind (looks_pure _).safe hgo)).on
  case cLi =>
    exact (safe_bind looks_get.safe fun _ => hguard
      (safe_bind (looks_signExtendImm _).safe fun _ => safe_setRd _)).on
  case cLui =>
    exact (safe_bind looks_get.safe fun _ => safe_bind looks_get.safe fun _ => hguard
      (safe_bind looks_imm.safe fun _ => safe_setRd _)).on
  case cAddi =>
    exact (safe_bind looks_imm.safe fun _ => hguard (safe_bind looks_rs1.safe fun _ =>
      safe_bind (looks_signExtendImm _).safe fun _ => safe_setRd _)).on
  case cAddi16sp =>
    exact (safe_bind looks_imm.safe fun _ => hguard (safe_bind (looks_x _).safe fun _ =>
      safe_bind (looks_signExtendImm _).safe fun _ => safe_setSp _)).on
  case cAddi4spn =>
    exact (safe_bind looks_imm.safe fun _ => hguard (safe_bind (looks_x _).safe fun _ =>
      safe_bind looks_imm.safe fun _ => safe_setRd _)).on
  case cAndi =>
    exact (safe_bind looks_rd.safe fun _ => safe_bind (looks_signExtendImm _).safe fun _ =>
      safe_setRd _).on
  case cAnd | cOr | cXor | cSub =>
    exact (safe_bind looks_rd.safe fun _ => safe_bind looks_rs2.safe fun _ => safe_setRd _).on

theorem decoded_decode {i : RiscvInstruction} (hi : i.memory.DefaultRange) :
    Decoded i.iclass i.decode := by
  refine ⟨by rw [InRange, i.decode_memory]; exact hi, fun hc => ?_⟩
  have hf : i.iclass.format = .i := by
    cases hi : i.iclass <;> rw [hi] at hc <;> first | rfl | exact absurd hc (by decide)
  simp only [NamesCsr, RiscvInstruction.decode, hf, field, BitVec.toNat_and]
  exact Nat.and_le_right

theorem step_foreseen {i i₁ : RiscvInstruction} (hi : i.memory.DefaultRange) {f : Fault}
    (h : (step i.decode.iclass).run i.decode = .error f i₁) : Foreseen f := by
  rw [i.decode_iclass] at h
  exact safeOn_step i.iclass i.decode f i₁ (decoded_decode hi) h

/-- What reaches the catch block of `Execute`. -/
theorem stepAndAdvance_error {i i₁ : RiscvInstruction} {f : Fault}
    (h : stepAndAdvance.run i = .error f i₁) : (step i.iclass).run i = .error f i₁ := by
  rw [run_stepAndAdvance] at h
  cases hrun : (step i.iclass).run i with
  | ok u i₂ => rw [hrun] at h; cases h
  | error g i₂ => rw [hrun] at h; exact h

/-- `Execute` throws nothing but what is undefined. -/
theorem execute_undefined {i i' : RiscvInstruction} (hi : i.memory.DefaultRange) {f : Fault}
    (h : execute.run i = .error f i') : f = .undefined := by
  cases hrun : (step i.decode.iclass).run i.decode with
  | ok u i₁ => rw [execute_of_ok hrun] at h; cases h
  | error g i₁ =>
    rcases step_foreseen hi hrun with rfl | ⟨e, rfl, he⟩
    · rw [execute_of_fault hrun (by simp)] at h
      cases h
      rfl
    · obtain ⟨s, hs⟩ := (i₁.state.processException_ok_iff e i₁.encoding).mpr he
      rw [execute_of_sim hrun, run_exception_of_ok hs] at h
      cases h

end Step

/-! ### The rest of a step -/

theorem readMemory_returns {m : Memory} (hm : m.DefaultRange) (a : U64) (isData : Bool) {n : Nat}
    (hn : 0 < n) (hn' : n ≤ 32) (buf : List Byte) (init : Bool) :
    ∃ r m', (Memory.readMemory a isData n true buf false init).run m = .ok r m' ∧
      m'.DefaultRange := by
  have hle : (n : Int) ≤ 32 := by omega
  rw [Memory.readMemory]
  simp only [Bool.not_true, Bool.and_false, Bool.false_eq_true, if_false, hle, if_true,
    Memory.readMemoryBlock]
  exact Memory.readPhysicalMemory_ok hm a hn hn' buf init

theorem fetch_returns (work : RiscvState) (pc : U32) {m : Memory} (hm : m.DefaultRange) :
    ∃ r m', (RiscvSimulator.fetch work pc).run m = .ok r m' ∧ m'.DefaultRange := by
  obtain ⟨r, m₁, hr, hm₁⟩ := readMemory_returns hm (pc.setWidth 64) false (n := 2) (by decide)
    (by decide) (List.replicate 4 0) false
  obtain ⟨r', m₂, hr', hm₂⟩ := readMemory_returns hm₁ (pc.setWidth 64) false (n := 4) (by decide)
    (by decide) (m₁.applyEndianness r.2 false 2 2) false
  have hfirst : (Memory.readMemory (pc.setWidth 64) false 2 true (List.replicate 4 0) false false).run m
      = .ok r m₁ := hr
  have hsecond : (Memory.readMemory (pc.setWidth 64) false 4 true (m₁.applyEndianness r.2 false 2 2)
      false false).run m₁ = .ok r' m₂ := hr'
  rw [RiscvSimulator.fetch, EStateM.run_bind, hfirst]
  simp only [EStateM.run_bind, EStateM.run_get]
  split
  · exact ⟨_, m₁, rfl, hm₁⟩
  · rw [EStateM.run_bind, hsecond]
    exact ⟨_, m₂, rfl, hm₂⟩

theorem writebackOps_returns (ops : List MemoryAccess) {m : Memory} (hm : m.DefaultRange)
    (h : ∀ a ∈ ops, a.WellSized) : ∃ m', (writebackOps ops).run m = .ok () m' := by
  induction ops generalizing m with
  | nil => exact ⟨m, rfl⟩
  | cons a ops ih =>
    have hrest : ∀ {m' : Memory}, m'.DefaultRange → ∃ m'', (writebackOps ops).run m' = .ok () m'' :=
      fun hm' => ih hm' fun b hb => h b (List.mem_cons_of_mem _ hb)
    obtain ⟨hpos, hle, hbuf⟩ := h a (List.mem_cons_self ..)
    rw [writebackOps]
    by_cases hw : a.isWrite
    · have hle' : (a.size : Int) ≤ 32 := by omega
      obtain ⟨rcode, m₁, hrun, hm₁⟩ := Memory.writePhysicalMemory_ok hm a.address hpos
        (by omega) (Nat.le_of_eq (hbuf hw).symm) false
      simp only [hw, if_true, Memory.writeMemory, Bool.not_true, Bool.false_and,
        Bool.false_eq_true, if_false, hle', Memory.writeMemoryBlock]
      rw [EStateM.run_bind, hrun]
      exact hrest hm₁
    · simp only [hw, Bool.false_eq_true, if_false]
      exact hrest hm

theorem serviceInterrupt_returns (work : RiscvState) :
    ∃ work', RiscvSimulator.serviceInterrupt work = .ok work' := by
  unfold RiscvSimulator.serviceInterrupt
  split
  · next e he =>
    rcases RiscvState.interruptPending_some he with ⟨rfl, -⟩ | ⟨rfl, -, -⟩
    · exact ⟨_, rfl⟩
    · exact ⟨_, rfl⟩
  · exact ⟨work, rfl⟩

/-- `Execute` leaves the range alone. -/
theorem execute_defaultRange {i i' : RiscvInstruction} (hi : i.memory.DefaultRange)
    (h : Step.execute.run i = .ok () i') : i'.memory.DefaultRange := by
  have hrange := Memory.execute_memory_moves (R := Memory.SameRange) .refl .trans
    (fun a n buf init => Memory.readPhysicalMemory_range a n buf false init) i
  rw [h] at hrange
  exact hi.of_same hrange

theorem execute_wellSized {i i' : RiscvInstruction} (hnil : i.mOpsMemory = [])
    (h : Step.execute.run i = .ok () i') : ∀ a ∈ i'.mOpsMemory, a.WellSized := by
  have hloads := execute_loadsOnly i
  rw [h] at hloads
  exact hloads.queue (by simp [hnil])

namespace RiscvSimulator

section NoClient

variable {k : Nat} {s s' : RiscvSimulator} (hm : s.memory.DefaultRange) (hd : s.debugServer = none)
include hm hd

/-- `StepCore` up to `Execute`, without a debug client. -/
theorem prepare_returns : (∃ s₁, (prepare k).run s = .error .undefined s₁) ∨
    (∃ s₁, (prepare k).run s = .ok (.error .asleep) s₁) ∨
    ∃ core pc i s₁, (prepare k).run s = .ok (.ok (core, pc, i)) s₁ ∧ s₁.memory.DefaultRange := by
  cases hcore : s.cores[k]? with
  | none =>
    refine .inl ⟨{ s with calls := s.calls + 1 }, ?_⟩
    simp only [prepare, nextCall, EStateM.run_bind, EStateM.run_get, EStateM.run_set,
      EStateM.run_pure, hcore]
    rfl
  | some core =>
    obtain ⟨work, hwork⟩ := serviceInterrupt_returns (RiscvState.copy (s.host.storage s.calls) core)
    by_cases hawake : work.lowPowerMode
    · refine .inr (.inl ⟨{ s with calls := s.calls + 1 }, ?_⟩)
      simp only [prepare, nextCall, EStateM.run_bind, EStateM.run_get, EStateM.run_set,
        EStateM.run_pure, hcore, hwork, Effect.run_lift_ok, hawake, if_true]
    · obtain ⟨⟨c, w⟩, m, hfetch, hrange⟩ := fetch_returns work (work.pc.setWidth 32) hm
      exact .inr (.inr ⟨core, _, _, _,
        prepare_of_fetch hcore hwork (by simpa using hawake) hfetch hd, hrange⟩)

theorem stepCore_undefined {f : Fault} (h : (stepCore k).run s = .error f s') : f = .undefined := by
  rw [stepCore, EStateM.run_bind] at h
  rcases prepare_returns hm hd (k := k) with ⟨s₁, hp⟩ | ⟨s₁, hp⟩ | ⟨core, pc, i, s₁, hp, hm₁⟩
  · rw [hp] at h; cases h; rfl
  · rw [hp] at h; cases h
  · rw [hp] at h
    dsimp only at h
    rw [EStateM.run_bind, execute_run] at h
    cases he : Step.execute.run { i with memory := s₁.memory } with
    | error g i' => rw [he] at h; cases h; exact Step.execute_undefined hm₁ he
    | ok u i' =>
      rw [he] at h
      dsimp only at h
      obtain ⟨m', hops⟩ := writebackOps_returns i'.mOpsMemory (execute_defaultRange hm₁ he)
        (execute_wellSized (i := { i with memory := s₁.memory }) (prepare_ok hp).2 he)
      rw [EStateM.run_bind] at h
      rcases commit_of_ops (s := { s₁ with memory := i'.memory }) hops k core pc with
        ⟨s₂, hc, -⟩ | ⟨s₂, hc⟩
      · rw [hc] at h; cases h
      · rw [hc] at h; cases h; rfl

end NoClient

/-- On memory of the default range a `SIM_EXCEPTIONS` that reaches the catch block of `Execute` is
    one `ProcessException` implements; interrupts, fetches and stores throw nothing, and a step
    without a debug client throws nothing but what C++ leaves undefined. -/
theorem guest_exceptions_are_handled :
    (∀ i : RiscvInstruction, i.memory.DefaultRange →
      (∀ e i₁, Step.stepAndAdvance.run i.decode = .error (.sim e) i₁ →
        e.implemented ∧ ∃ s, i₁.state.processException e i₁.encoding = .ok s) ∧
      ∀ f i', Step.execute.run i = .error f i' → f = .undefined) ∧
    (∀ (work : RiscvState) (pc : U32) (m : Memory), m.DefaultRange →
      (∃ work', serviceInterrupt work = .ok work') ∧ ∃ r m', (fetch work pc).run m = .ok r m') ∧
    (∀ (i i' : RiscvInstruction) (core : RiscvState), i.memory.DefaultRange → i.mOpsMemory = [] →
      Step.execute.run i = .ok () i' →
      ∃ r, (Dimebox.writeback i').run (core, i'.memory) = .ok () r) ∧
    ∀ (k : Nat) (s : RiscvSimulator), s.memory.DefaultRange → s.debugServer = none →
      ∀ f s', (stepCore k).run s = .error f s' → f = .undefined := by
  refine ⟨fun i hi => ⟨fun e i₁ h => ?_, fun f i' h => Step.execute_undefined hi h⟩,
    fun work pc m hm => ⟨serviceInterrupt_returns work, ?_⟩, fun i i' core hi hnil h => ?_,
    fun k s hm hd f s' h => stepCore_undefined hm hd h⟩
  · rcases Step.step_foreseen hi (Step.stepAndAdvance_error h) with hf | ⟨e', he', himpl⟩
    · cases hf
    · cases he'
      exact ⟨himpl, (i₁.state.processException_ok_iff e i₁.encoding).mpr himpl⟩
  · obtain ⟨r, m', hr, -⟩ := fetch_returns work pc hm
    exact ⟨r, m', hr⟩
  · obtain ⟨m', hops⟩ := writebackOps_returns i'.mOpsMemory (execute_defaultRange hi h)
      (execute_wellSized hnil h)
    rw [writeback_run, hops]
    exact ⟨_, rfl⟩

/-- ECALL in machine mode. -/
def ecallObject : RiscvInstruction :=
  .new {} .ecall (RiscvState.reset {} 0x80000000) (init {} (.simple 0 [] {})).memory 0x73

/-- ECALL throws, and the trap is taken. -/
theorem ecall_is_handled : ∃ i₁ s,
    Step.stepAndAdvance.run ecallObject.decode = .error (.sim .envCallMmode) i₁ ∧
    i₁.state.processException .envCallMmode i₁.encoding = .ok s := by
  have hthrows : ∃ i₁,
      Step.stepAndAdvance.run ecallObject.decode = .error (.sim .envCallMmode) i₁ := ⟨_, rfl⟩
  obtain ⟨i₁, h⟩ := hthrows
  obtain ⟨-, s, hs⟩ :=
    (guest_exceptions_are_handled.1 ecallObject (init_defaultRange _ _)).1 _ i₁ h
  exact ⟨i₁, s, h, hs⟩

end RiscvSimulator

end Dimebox
