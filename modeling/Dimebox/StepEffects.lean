import Mathlib.Logic.Relation
import Dimebox.Step

/-! What a body can do, said once.

    A body works on its instruction object by six primitive effects: it sets a general register of
    the working state, writes one of its control registers, sets the next PC, reads memory, refills
    its buffer, or queues an access. Every run of every body, returned or thrown, is a sequence of
    them, so an invariant of the six is an invariant of `Step`. -/

namespace Dimebox

open Relation (ReflTransGen)

/-- `SetGP` changes a general register and nothing else. -/
theorem RiscvState.setGp_ok {s s' : RiscvState} {idx : U32} {v : U64}
    (h : s.setGp idx v = .ok s') : s' = { s with x := s'.x } := by
  unfold RiscvState.setGp at h
  split at h
  · rw [← Except.ok.inj h]
  · split at h
    · rw [← Except.ok.inj h]
    · cases h

/-- What `MEMORY_READ` and `MEMORY_WRITE` queue. -/
def MemoryAccess.WellSized (a : MemoryAccess) : Prop :=
  0 < a.size ∧ a.size ≤ 8 ∧ (a.isWrite → a.membuffer.length = a.size)

/-- One primitive effect of a body. -/
inductive Micro : RiscvInstruction → RiscvInstruction → Prop where
  | setGp {i : RiscvInstruction} {s : RiscvState} {idx : U32} {v : U64}
      (h : i.state.setGp idx v = .ok s) : Micro i { i with state := s }
  | write (i : RiscvInstruction) (r : Creg) (v : U64) :
      Micro i { i with state := i.state.write r v }
  | jump (i : RiscvInstruction) (pc : U32) : Micro i { i with nextPc := pc }
  | read (i : RiscvInstruction) (a : U64) (n : Nat) (hn : 0 < n ∧ n ≤ 8) (buf : List Byte) :
      Micro i { i with
        memory := Effect.final ((Memory.readMemory a true n true buf false true).run i.memory) }
  | mbuf (i : RiscvInstruction) (buf : List Byte) : Micro i { i with mbuf := buf }
  | queue (i : RiscvInstruction) (access : MemoryAccess) (h : access.WellSized) :
      Micro i { i with mOpsMemory := i.mOpsMemory ++ [access] }

/-- The classes whose bodies call `SetPC`. -/
def Iclass.isJump : Iclass → Bool
  | .jal | .jalr | .beq | .bne | .blt | .bge | .bltu | .bgeu | .cJ | .cJal | .cBeqz => true
  | _ => false

/-- The classes whose bodies call `CSR`. -/
def Iclass.isCsr : Iclass → Bool
  | .csrrw | .csrrs | .csrrc | .csrrwi | .csrrsi | .csrrci => true
  | _ => false

/-- The other bodies set `rd` to a 32-bit value, read memory and queue accesses; only C.ADDI16SP
    sets a register to 64 bits. -/
def Iclass.isPlain (c : Iclass) : Bool := !c.isJump && !c.isCsr && c ≠ .cAddi16sp

theorem Iclass.cases_kind (c : Iclass) :
    c.isPlain ∨ c.isJump ∨ c.isCsr ∨ c = .cAddi16sp := by
  cases c <;> decide

namespace Step

/-- Every run is a sequence of primitive effects. -/
def Local (x : StepM α) : Prop := Effect.Moves (ReflTransGen Micro) x

variable {α β : Type} {R : RiscvInstruction → RiscvInstruction → Prop}

/-- A relation that contains what plain bodies do. -/
structure Closed (R : RiscvInstruction → RiscvInstruction → Prop) : Prop where
  refl : ∀ i, R i i
  trans : ∀ {i i' i''}, R i i' → R i' i'' → R i i''
  setRd : ∀ {i s} {v : U32}, i.state.setGp i.rd (v.setWidth 64) = .ok s → R i { i with state := s }
  read : ∀ i (a : U64) (n : Nat), 0 < n ∧ n ≤ 8 → ∀ buf, R i { i with
    memory := Effect.final ((Memory.readMemory a true n true buf false true).run i.memory) }
  mbuf : ∀ i buf, R i { i with mbuf := buf }
  queue : ∀ i (access : MemoryAccess), access.WellSized →
    R i { i with mOpsMemory := i.mOpsMemory ++ [access] }

theorem closed_micro : Closed (ReflTransGen Micro) where
  refl := fun _ => .refl
  trans := .trans
  setRd := fun h => .single (.setGp h)
  read := fun i a n hn buf => .single (.read i a n hn buf)
  mbuf := fun i buf => .single (.mbuf i buf)
  queue := fun i access h => .single (.queue i access h)

/-! ### Rules -/

section Rules

variable (hR : Closed R)
include hR

theorem Closed.pure (a : α) : Effect.Moves R (pure a : StepM α) := Effect.moves_pure hR.refl a

theorem Closed.throw (f : Fault) : Effect.Moves R (throw f : StepM α) :=
  Effect.moves_throw hR.refl f

theorem Closed.lift (r : Except Fault α) : Effect.Moves R (Effect.lift r : StepM α) :=
  Effect.moves_lift hR.refl r

theorem Closed.get : Effect.Moves R (get : StepM RiscvInstruction) := hR.refl

theorem Closed.bind {x : StepM α} {f : α → StepM β} (hx : Effect.Moves R x)
    (hf : ∀ a, Effect.Moves R (f a)) : Effect.Moves R (x >>= f) :=
  Effect.moves_bind (R := R) hR.trans hx hf

theorem Closed.lift_bind {r : Except Fault α} {f : α → StepM β}
    (h : ∀ a, r = .ok a → Effect.Moves R (f a)) : Effect.Moves R (Effect.lift r >>= f) := by
  cases r with
  | ok a => exact h a rfl
  | error e => exact hR.throw e

omit hR in
theorem moves_ite {c : Prop} [Decidable c] {x y : StepM α} (hx : Effect.Moves R x)
    (hy : Effect.Moves R y) : Effect.Moves R (if c then x else y) := by
  split
  · exact hx
  · exact hy

/-! ### Accessors -/

/-- The accessors that read a general register. -/
theorem Closed.readGp (idx : RiscvInstruction → U32) :
    Effect.Moves R (do
      let i ← MonadState.get
      return (← Effect.lift (i.state.gp (idx i))).setWidth 32 : StepM U32) :=
  hR.bind hR.get fun _ => hR.bind (hR.lift _) fun _ => hR.pure _

theorem Closed.rs1 : Effect.Moves R rs1 := hR.readGp RiscvInstruction.rs1
theorem Closed.rs2 : Effect.Moves R rs2 := hR.readGp RiscvInstruction.rs2
theorem Closed.rd : Effect.Moves R rd := hR.readGp RiscvInstruction.rd
theorem Closed.x (idx : U32) : Effect.Moves R (x idx) := hR.readGp fun _ => idx

omit hR in
/-- The accessors that write one. -/
theorem moves_writeGp (hr : ∀ i, R i i) (idx : RiscvInstruction → U32) (v : U64)
    (h : ∀ {i s}, i.state.setGp (idx i) v = .ok s → R i { i with state := s }) :
    Effect.Moves R (do
      let i ← get
      let s ← Effect.lift (i.state.setGp (idx i) v)
      set { i with state := s } : StepM Unit) := by
  intro i
  rw [EStateM.run_bind, EStateM.run_get]
  simp only [EStateM.run_bind]
  cases hs : i.state.setGp (idx i) v with
  | ok s => exact h hs
  | error f => exact hr i

theorem Closed.put (v : U32) : Effect.Moves R (Step.setRd v) :=
  moves_writeGp hR.refl RiscvInstruction.rd (v.setWidth 64) hR.setRd

theorem Closed.pc : Effect.Moves R pc := hR.refl
theorem Closed.imm : Effect.Moves R imm := hR.refl
theorem Closed.immForShift : Effect.Moves R immForShift := hR.refl
theorem Closed.signExtendImm (w : Nat) : Effect.Moves R (signExtendImm w) := hR.refl
theorem Closed.userMode : Effect.Moves R userMode := hR.refl
theorem Closed.machineMode : Effect.Moves R machineMode := hR.refl
theorem Closed.wfiEnabled : Effect.Moves R wfiEnabled := hR.refl
theorem Closed.csrImm : Effect.Moves R csrImm := hR.bind hR.get fun _ => hR.lift _

/-! ### Memory accesses -/

omit hR in
theorem checkSize_ok {size : Nat} {what : String} (h : checkSize size what = .ok ()) :
    0 < size ∧ size ≤ 8 := by
  unfold checkSize at h
  split at h
  · omega
  · cases h

omit hR in
@[simp] theorem length_registerBytes (bigEndian : Bool) (size : Nat) (v : U64) :
    (registerBytes bigEndian size v).length = size := by
  unfold registerBytes
  split <;> simp

theorem Closed.memoryRead (a : U64) (size : Nat) : Effect.Moves R (memoryRead a size) := by
  refine hR.lift_bind fun _ hs => hR.bind hR.get fun i => ?_
  have hsize := checkSize_ok hs
  refine hR.bind (fun i' => ?_) fun r => ?_
  · rw [onMemory, Effect.run_focus, Effect.final_mapState]
    exact hR.read i' a size hsize i.mbuf
  · exact hR.bind (fun i => hR.mbuf i _) fun _ => hR.bind (hR.lift _) fun _ =>
      hR.bind (fun i => hR.queue i _ ⟨hsize.1, hsize.2, by simp⟩) fun _ => hR.pure _

theorem Closed.memoryWrite (a : U64) (size : Nat) (v : U64) :
    Effect.Moves R (memoryWrite a size v) := by
  refine hR.lift_bind fun _ hs => hR.bind hR.get fun _ => ?_
  have hsize := checkSize_ok hs
  exact hR.bind (fun i => hR.mbuf i _) fun _ i => hR.queue i _ ⟨hsize.1, hsize.2, by simp⟩

/-! ### Families of bodies -/

theorem Closed.alu (f : U32 → U32 → U32) : Effect.Moves R (alu f) :=
  hR.bind hR.rs1 fun _ => hR.bind hR.rs2 fun _ => hR.put _

theorem Closed.aluImm (f : U32 → U64 → U32) : Effect.Moves R (aluImm f) :=
  hR.bind hR.rs1 fun _ => hR.bind (hR.signExtendImm _) fun _ => hR.put _

theorem Closed.shiftImm (f : U32 → Nat → U32) : Effect.Moves R (shiftImm f) :=
  hR.bind hR.rs1 fun _ => hR.bind hR.immForShift fun _ => hR.put _

theorem Closed.shiftReg (f : U32 → Nat → U32) : Effect.Moves R (shiftReg f) :=
  hR.bind hR.rs1 fun _ => hR.bind hR.rs2 fun _ =>
    moves_ite (hR.bind (hR.throw _) fun _ => hR.put _) (hR.put _)

theorem Closed.effectiveAddress : Effect.Moves R effectiveAddress :=
  hR.bind hR.rs1 fun _ => hR.bind (hR.signExtendImm _) fun _ => hR.pure _

theorem Closed.load (size : Nat) (extend : U64 → U64) : Effect.Moves R (load size extend) :=
  hR.bind hR.effectiveAddress fun _ => hR.bind (hR.memoryRead _ _) fun _ => hR.put _

theorem Closed.store (size : Nat) : Effect.Moves R (store size) :=
  hR.bind hR.effectiveAddress fun _ => hR.bind hR.rs2 fun _ => hR.memoryWrite _ _ _

theorem Closed.throwSim (e : SimExceptions) : Effect.Moves R (throwSim e) := hR.throw _

/-- The guard of some compressed bodies. -/
theorem Closed.guard {c : Prop} [Decidable c] {e : SimExceptions} {x : StepM Unit}
    (h : Effect.Moves R x) : Effect.Moves R (if c then (do Step.throwSim e; x) else x) :=
  moves_ite (hR.bind (hR.throwSim e) fun _ => h) h

/-- Every plain body. -/
theorem Closed.step {c : Iclass} (hc : c.isPlain) : Effect.Moves R (step c) := by
  cases c
  case addi | slti | sltiu | andi | ori | xori => exact hR.aluImm _
  case slli | srli | srai => exact hR.shiftImm _
  case add | slt | sltu | and | or | xor | sub | mul | mulhu | mulh | mulhsu | div | divu | rem =>
    exact hR.alu _
  case sll | srl | sra => exact hR.shiftReg _
  case lui => exact hR.bind hR.imm fun _ => hR.put _
  case auipc => exact hR.bind hR.pc fun _ => hR.bind hR.imm fun _ => hR.put _
  case lb | lh | lw | lbu | lhu => exact hR.load _ _
  case sb | sh | sw => exact hR.store _
  case fence | fenceI | sfence | ebreak | cNop => exact hR.pure _
  case ecall =>
    exact hR.bind hR.userMode fun _ => moves_ite (hR.throwSim _) (hR.throwSim _)
  case uret | sret | hret | unknownInstruction => exact hR.throwSim _
  case mret =>
    exact hR.bind hR.machineMode fun _ => moves_ite (hR.throwSim _) (hR.throwSim _)
  case wfi =>
    exact hR.bind hR.userMode fun _ => moves_ite (hR.throwSim _)
      (hR.bind hR.wfiEnabled fun _ => moves_ite (hR.throwSim _) (hR.throwSim _))
  case remu =>
    exact hR.bind hR.rs1 fun _ => hR.bind hR.rs2 fun _ =>
      moves_ite (hR.bind (hR.throw _) fun _ => hR.put _) (hR.put _)
  case cLw =>
    exact hR.bind hR.rs1 fun _ => hR.bind hR.imm fun _ =>
      hR.bind (hR.memoryRead _ _) fun _ => hR.put _
  case cSw =>
    exact hR.bind hR.rs1 fun _ => hR.bind hR.imm fun _ =>
      hR.bind hR.rs2 fun _ => hR.memoryWrite _ _ _
  case cLi =>
    exact hR.bind hR.get fun _ => hR.guard (hR.bind (hR.signExtendImm _) fun _ => hR.put _)
  case cLui =>
    exact hR.bind hR.get fun _ => hR.bind hR.get fun _ => hR.guard
      (hR.bind hR.imm fun _ => hR.put _)
  case cAddi =>
    exact hR.bind hR.imm fun _ => hR.guard (hR.bind hR.rs1 fun _ =>
      hR.bind (hR.signExtendImm _) fun _ => hR.put _)
  case cAddi4spn =>
    exact hR.bind hR.imm fun _ => hR.guard (hR.bind (hR.x _) fun _ =>
      hR.bind hR.imm fun _ => hR.put _)
  case cAndi => exact hR.bind hR.rd fun _ => hR.bind (hR.signExtendImm _) fun _ => hR.put _
  case cAnd | cOr | cXor | cSub => exact hR.bind hR.rd fun _ => hR.bind hR.rs2 fun _ => hR.put _
  all_goals exact absurd hc (by decide)

/-! ### The other bodies -/

theorem Closed.branch (hjump : ∀ target alignment, Effect.Moves R (setPc target alignment))
    (cond : U32 → U32 → Bool) : Effect.Moves R (branch cond) := by
  have hgo : ∀ offset, Effect.Moves R (do setPc ((← Step.pc).setWidth 64 + offset) 4) := fun _ =>
    hR.bind hR.pc fun _ => hjump _ _
  refine hR.bind hR.rs1 fun _ => hR.bind hR.rs2 fun _ => ?_
  exact moves_ite (hR.bind (hR.signExtendImm _) hgo) (hR.bind (hR.pure _) hgo)

/-- The bodies that call `SetPC`, for a relation that contains what `SetPC` does. -/
theorem Closed.jump (hjump : ∀ target alignment, Effect.Moves R (setPc target alignment))
    {c : Iclass} (hc : c.isJump) : Effect.Moves R (Step.step c) := by
  cases c
  case jal | cJal =>
    exact hR.bind hR.pc fun _ => hR.bind (hR.signExtendImm _) fun _ =>
      hR.bind (hjump _ _) fun _ => hR.bind hR.pc fun _ => hR.put _
  case jalr =>
    exact hR.bind hR.rs1 fun _ => hR.bind (hR.signExtendImm _) fun _ =>
      hR.bind (hjump _ _) fun _ => hR.bind hR.pc fun _ => hR.put _
  case beq | bne | blt | bltu | bge | bgeu => exact hR.branch hjump _
  case cJ => exact hR.bind hR.pc fun _ => hR.bind (hR.signExtendImm _) fun _ => hjump _ _
  case cBeqz =>
    have hgo : ∀ offset, Effect.Moves R (do setPc ((← Step.pc).setWidth 64 + offset) 2) := fun _ =>
      hR.bind hR.pc fun _ => hjump _ _
    exact hR.bind hR.rs1 fun _ =>
      moves_ite (hR.bind (hR.signExtendImm _) hgo) (hR.bind (hR.pure _) hgo)
  all_goals exact absurd hc (by decide)

theorem Closed.csrWrite (hset : ∀ v, Effect.Moves R (setCsrImm v)) {value : StepM U64}
    (h : Effect.Moves R value) : Effect.Moves R (csrWrite value) :=
  hR.bind hR.csrImm fun _ => hR.bind (hR.put _) fun _ => hR.bind h fun _ => hset _

theorem Closed.csrModify (hset : ∀ v, Effect.Moves R (setCsrImm v)) {value : StepM U64}
    (h : Effect.Moves R value) : Effect.Moves R (csrModify value) :=
  hR.bind hR.csrImm fun _ => hR.bind (hR.put _) fun _ =>
    hR.bind hR.get fun _ => moves_ite (hR.bind h fun _ => hset _) (hR.pure _)

/-- The CSR instructions, for a relation that contains what `SetCSR` does. -/
theorem Closed.csr (hset : ∀ v, Effect.Moves R (setCsrImm v)) {c : Iclass} (hc : c.isCsr) :
    Effect.Moves R (Step.step c) := by
  cases c
  case csrrw => exact hR.bind hR.rs1 fun _ => hR.csrWrite hset (hR.pure _)
  case csrrs | csrrc =>
    exact hR.bind hR.rs1 fun _ => hR.csrModify hset (hR.bind hR.csrImm fun _ => hR.pure _)
  case csrrwi => exact hR.csrWrite hset (hR.bind hR.get fun _ => hR.pure _)
  case csrrsi | csrrci =>
    exact hR.csrModify hset (hR.bind hR.csrImm fun _ => hR.bind hR.get fun _ => hR.pure _)
  all_goals exact absurd hc (by decide)

theorem Closed.addi16sp (hset : ∀ v, Effect.Moves R (setSp v)) :
    Effect.Moves R (Step.step .cAddi16sp) :=
  hR.bind hR.imm fun _ => hR.guard (hR.bind (hR.x _) fun _ => hR.bind (hR.signExtendImm _)
    fun _ => hset _)

end Rules

/-! ### Every body -/

theorem setCsr_ok {s s' : RiscvState} {csr level : U32} {v : U64}
    (h : s.setCsr csr level v = .ok s') : ∃ r, RiscvState.csrReg csr = some r ∧ s' = s.write r v := by
  unfold RiscvState.setCsr at h
  cases hv : RiscvState.validateCsrAccess csr level true with
  | error f => rw [hv] at h; cases h
  | ok u =>
    rw [hv] at h
    cases hr : RiscvState.csrReg csr with
    | none => rw [hr] at h; cases h
    | some r => rw [hr] at h; exact ⟨r, rfl, (Except.ok.inj h).symm⟩

/-- `SetCSR` writes the register of its number, or throws. -/
theorem moves_setCsrImm (hr : ∀ i, R i i) {v : U64}
    (h : ∀ {i r}, RiscvState.csrReg i.imm = some r → R i { i with state := i.state.write r v }) :
    Effect.Moves R (setCsrImm v) := by
  intro i
  rw [setCsrImm, EStateM.run_bind, EStateM.run_get]
  simp only [EStateM.run_bind]
  cases hs : i.state.setCsr i.imm i.state.privilegeLevel v with
  | ok s =>
    obtain ⟨r, hreg, rfl⟩ := setCsr_ok hs
    exact h hreg
  | error f => exact hr i

theorem local_setPc (target alignment : U64) : Local (setPc target alignment) := by
  intro i
  rw [setPc, EStateM.run_bind, EStateM.run_get]
  simp only
  generalize (if i.state.compressedExtensionEnabled then (1 : U64) else alignment - 1) = mask
  split
  · exact .single (.write i .mtval target)
  · exact .single (.jump i _)

/-- `SetSP` sets x2. -/
theorem moves_setSp (hr : ∀ i, R i i) {v : U64}
    (h : ∀ {i s}, i.state.setGp 2 v = .ok s → R i { i with state := s }) :
    Effect.Moves R (setSp v) :=
  moves_writeGp hr (fun _ => 2) v h

/-- Every body. -/
theorem local_step (c : Iclass) : Local (step c) := by
  rcases Iclass.cases_kind c with hc | hc | hc | rfl
  · exact closed_micro.step hc
  · exact closed_micro.jump local_setPc hc
  · exact closed_micro.csr (fun v => moves_setCsrImm (fun _ => .refl) fun _ =>
      .single (.write _ _ v)) hc
  · exact closed_micro.addi16sp fun v => moves_setSp (fun _ => .refl) fun h => .single (.setGp h)

/-- A relation that contains the primitive effects contains every run of every body. -/
theorem step_moves {R : RiscvInstruction → RiscvInstruction → Prop} (hr : ∀ i, R i i)
    (ht : ∀ {a b c}, R a b → R b c → R a c) (h : ∀ {i i'}, Micro i i' → R i i') (c : Iclass) :
    Effect.Moves R (step c) := by
  have hall : ∀ {i i'}, ReflTransGen Micro i i' → R i i' := by
    intro i i' hrun
    induction hrun with
    | refl => exact hr i
    | tail _ hstep ih => exact ht ih (h hstep)
  exact fun i => hall (local_step c i)

/-- The same for `Execute`, if the relation also contains `Decode` and does not look at the working
    state: advancing the PC and taking a trap change nothing else. -/
theorem execute_moves {R : RiscvInstruction → RiscvInstruction → Prop} (hr : ∀ i, R i i)
    (ht : ∀ {a b c}, R a b → R b c → R a c) (h : ∀ {i i'}, Micro i i' → R i i')
    (hdecode : ∀ i, R i i.decode) (hstate : ∀ i s, R i { i with state := s }) :
    Effect.Moves R execute := by
  have hstep : Effect.Moves R stepAndAdvance := by
    refine Effect.moves_bind (R := R) ht (fun i => hr i) fun i => ?_
    exact Effect.moves_bind (R := R) ht (step_moves hr ht h _) fun _ i' => hstate i' _
  have hexception : ∀ e, Effect.Moves R (exception e) := by
    intro e i
    rw [exception, EStateM.run_bind, EStateM.run_get]
    simp only
    rw [EStateM.run_bind]
    cases i.state.processException e i.encoding with
    | ok s => exact hstate i s
    | error f => exact hr i
  refine Effect.moves_bind (R := R) ht (fun i => hdecode i) fun _ =>
    Effect.moves_tryCatch (R := R) ht hstep fun f => ?_
  cases f with
  | sim e => exact hexception e
  | _ => exact Effect.moves_throw hr _

end Step

end Dimebox
