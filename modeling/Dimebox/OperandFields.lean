import Dimebox.Compressed
import Dimebox.Lib.Uniform

/-! The operand fields of an instruction object.

    `rd`, `rs1`, `rs2` and `imm` are members the constructor does not set. Which of them `Decode`
    sets depends on the format of the class, and which of them the body looks at on the class. A
    body looks at a field if some two objects that differ in that field only give it different
    outcomes. Besides the four, a load returns what is in the buffer of the object, and a device
    that refuses the access leaves the buffer as the constructor found it. -/

namespace Dimebox

/-- The four fields. -/
inductive Operand where
  | rd
  | rs1
  | rs2
  | imm
  deriving DecidableEq

namespace Operand

def get (i : RiscvInstruction) : Operand → U32
  | rd => i.rd
  | rs1 => i.rs1
  | rs2 => i.rs2
  | imm => i.imm

def set (i : RiscvInstruction) (v : U32) : Operand → RiscvInstruction
  | rd => { i with rd := v }
  | rs1 => { i with rs1 := v }
  | rs2 => { i with rs2 := v }
  | imm => { i with imm := v }

end Operand

/-- Two objects that agree but for the fields outside `P`, and for the buffer unless `buf`. -/
structure FieldsAgree (P : Operand → Prop) (buf : Prop) (i j : RiscvInstruction) : Prop where
  iclass : i.iclass = j.iclass
  encoding : i.encoding = j.encoding
  state : i.state = j.state
  memory : i.memory = j.memory
  mOpsMemory : i.mOpsMemory = j.mOpsMemory
  nextPc : i.nextPc = j.nextPc
  mbuf : buf → i.mbuf = j.mbuf
  field : ∀ f, P f → f.get i = f.get j

/-- The body of `c` looks at the field. -/
def Reads (c : Iclass) (f : Operand) : Prop :=
  ¬ Effect.Uniform (FieldsAgree (· ≠ f) True) (Step.step c)

/-- `Decode` sets the field, whatever it held. -/
def Assigned (c : Iclass) (f : Operand) : Prop :=
  ∀ (i : RiscvInstruction) (v : U32), i.iclass = c → (f.set i v).decode = i.decode

/-- What an execution leaves: an error or not, and the state, the memory and the queue. -/
def outcome (r : EStateM.Result Fault RiscvInstruction Unit) :
    Option Fault × RiscvState × Memory × List MemoryAccess :=
  (Effect.thrown r, (Effect.final r).state, (Effect.final r).memory, (Effect.final r).mOpsMemory)

/-- Executing `w` as an instruction of class `c` depends on nothing that was not set: the body looks
    at fields only that `Decode` sets, registers are numbered below 32, and whatever the object held
    before, the outcome is the same. -/
structure Initialised (c : Iclass) (s : RiscvState) (m : Memory) (w : U32) : Prop where
  assigned : ∀ f, Reads c f → Assigned c f
  below : ∀ (junk : Junk) (f : Operand), Reads c f → f ≠ .imm →
    (f.get (RiscvInstruction.new junk c s m w).decode).toNat < 32
  independent : ∀ junk junk' : Junk, outcome (Step.execute.run (.new junk c s m w))
    = outcome (Step.execute.run (.new junk' c s m w))

/-! ### Which fields -/

/-- The fields `Decode` sets. -/
def Format.assigns : Format → List Operand
  | .r => [.rd, .rs1, .rs2]
  | .i | .ci | .cl => [.rd, .rs1, .imm]
  | .s | .b | .cs => [.rs1, .rs2, .imm]
  | .u | .j | .ciw => [.rd, .imm]
  | .cb => [.rs1, .imm]
  | .cj => [.imm]
  | .unknown => []

/-- The fields a body names, by itself or through an accessor. -/
def Iclass.uses : Iclass → List Operand
  | .lui | .auipc | .jal | .cJal | .cLi | .cLui | .cAddi4spn | .cAndi => [.rd, .imm]
  | .jalr | .lb | .lh | .lw | .lbu | .lhu
  | .addi | .slti | .sltiu | .xori | .ori | .andi | .slli | .srli | .srai
  | .csrrw | .csrrs | .csrrc | .csrrwi | .csrrsi | .csrrci | .cLw | .cAddi => [.rd, .rs1, .imm]
  | .beq | .bne | .blt | .bge | .bltu | .bgeu | .sb | .sh | .sw | .cSw => [.rs1, .rs2, .imm]
  | .add | .sub | .sll | .slt | .sltu | .xor | .srl | .sra | .or | .and
  | .mul | .mulh | .mulhsu | .mulhu | .div | .divu | .rem | .remu => [.rd, .rs1, .rs2]
  | .cAnd | .cOr | .cXor | .cSub => [.rd, .rs2]
  | .cBeqz => [.rs1, .imm]
  | .cJ | .cAddi16sp => [.imm]
  | .ecall | .ebreak | .uret | .sret | .hret | .mret | .wfi | .sfence | .fence | .fenceI | .cNop
  | .unknownInstruction => []

/-- The classes that name `rd` in a format without one. -/
def Iclass.usesUnsetRd : Iclass → Bool
  | .cAndi | .cSub | .cXor | .cOr | .cAnd | .cJal => true
  | _ => false

/-- The size of a load. -/
def Iclass.loads : Iclass → Option Nat
  | .lb | .lbu => some 1
  | .lh | .lhu => some 2
  | .lw | .cLw => some 4
  | _ => none

theorem uses_assigned {c : Iclass} (hc : c.usesUnsetRd = false) :
    ∀ f ∈ c.uses, f ∈ c.format.assigns := by
  cases c <;> first | decide | cases hc

theorem assigned_of_mem {c : Iclass} {f : Operand} (h : f ∈ c.format.assigns) : Assigned c f := by
  rintro i v rfl
  cases hf : i.iclass.format <;> rw [hf] at h <;>
    simp only [Format.assigns, List.mem_cons, List.not_mem_nil, or_false] at h <;>
    rcases h with rfl | rfl | rfl <;> simp [RiscvInstruction.decode, Operand.set, hf]

/-- A register number that `Decode` sets has five bits. -/
theorem decode_lt {i : RiscvInstruction} {f : Operand} (h : f ∈ i.iclass.format.assigns)
    (hf : f ≠ .imm) : (f.get i.decode).toNat < 32 := by
  cases hform : i.iclass.format <;> rw [hform] at h <;>
    simp only [Format.assigns, List.mem_cons, List.not_mem_nil, or_false] at h <;>
    rcases h with rfl | rfl | rfl <;>
    simp only [Operand.get, RiscvInstruction.decode, hform, ne_eq, not_true_eq_false] at hf ⊢ <;>
    first | exact field_toNat_lt _ _ | exact Step.rvc2reg_toNat_lt _ _

/-! ### Bodies on objects that agree -/

namespace Step

open Effect (Uniform Alike)

variable {P : Operand → Prop} {buf : Prop} {α β : Type}

section Accessors

/-- A body that only looks at the state and at fields. -/
theorem uniform_value {x : StepM α} {g : RiscvInstruction → α} (hx : ∀ i, x.run i = .ok (g i) i)
    (hg : ∀ i j, FieldsAgree P buf i j → g i = g j) : Uniform (FieldsAgree P buf) x := by
  intro i j h
  rw [hx, hx, hg i j h]
  exact .ok _ h

theorem uniform_readGp {idx : RiscvInstruction → U32}
    (hidx : ∀ i j, FieldsAgree P buf i j → idx i = idx j) :
    Uniform (FieldsAgree P buf) (do
      let i ← MonadState.get
      return (← Effect.lift (i.state.gp (idx i))).setWidth 32 : StepM U32) :=
  Effect.uniform_get_bind (fun i j h => by rw [h.state, hidx i j h]) fun _ =>
    Effect.uniform_bind (Effect.uniform_lift _) fun _ => Effect.uniform_pure _

theorem uniform_rs1 (h : P .rs1) : Uniform (FieldsAgree P buf) rs1 :=
  @uniform_readGp P buf RiscvInstruction.rs1 fun _ _ ha => ha.field .rs1 h

theorem uniform_rs2 (h : P .rs2) : Uniform (FieldsAgree P buf) rs2 :=
  @uniform_readGp P buf RiscvInstruction.rs2 fun _ _ ha => ha.field .rs2 h

theorem uniform_rd (h : P .rd) : Uniform (FieldsAgree P buf) rd :=
  @uniform_readGp P buf RiscvInstruction.rd fun _ _ ha => ha.field .rd h

theorem uniform_x (idx : U32) : Uniform (FieldsAgree P buf) (x idx) :=
  @uniform_readGp P buf (fun _ => idx) fun _ _ _ => rfl

theorem uniform_imm (h : P .imm) : Uniform (FieldsAgree P buf) imm :=
  uniform_value (fun _ => run_imm) fun _ _ ha => ha.field .imm h

theorem uniform_immForShift (h : P .imm) : Uniform (FieldsAgree P buf) immForShift :=
  uniform_value (fun _ => run_immForShift) fun i j ha => by
    rw [show i.imm = j.imm from ha.field .imm h]

theorem uniform_signExtendImm (h : P .imm) (w : Nat) :
    Uniform (FieldsAgree P buf) (signExtendImm w) :=
  uniform_value (fun _ => run_signExtendImm w) fun i j ha => by
    rw [RiscvInstruction.immVal, RiscvInstruction.immVal, show i.imm = j.imm from ha.field .imm h]

theorem uniform_pc : Uniform (FieldsAgree P buf) pc :=
  uniform_value (fun _ => run_pc) fun _ _ ha => by rw [ha.state]

theorem uniform_userMode : Uniform (FieldsAgree P buf) userMode :=
  uniform_value (fun _ => run_userMode) fun _ _ ha => by rw [ha.state]

theorem uniform_machineMode : Uniform (FieldsAgree P buf) machineMode :=
  uniform_value (fun _ => run_machineMode) fun _ _ ha => by rw [ha.state]

theorem uniform_wfiEnabled : Uniform (FieldsAgree P buf) wfiEnabled :=
  uniform_value (fun _ => run_wfiEnabled) fun _ _ ha => by rw [ha.state]

/-- A new state, made from the state and from fields. -/
theorem uniform_newState {g : RiscvInstruction → Except Fault RiscvState}
    (hg : ∀ i j, FieldsAgree P buf i j → g i = g j) : Uniform (FieldsAgree P buf) (do
      let i ← MonadState.get
      let s ← Effect.lift (g i)
      MonadState.set { i with state := s } : StepM Unit) := by
  intro i j h
  simp only [EStateM.run_bind, EStateM.run_get, hg i j h]
  cases g j with
  | ok s => exact .ok () { h with state := rfl, field := h.field }
  | error f => exact .error f h

theorem uniform_setRd (h : P .rd) (v : U32) : Uniform (FieldsAgree P buf) (setRd v) :=
  uniform_newState (g := fun i => i.state.setGp i.rd (v.setWidth 64)) fun i j ha => by
    rw [ha.state, show i.rd = j.rd from ha.field .rd h]

theorem uniform_setSp (v : U64) : Uniform (FieldsAgree P buf) (setSp v) :=
  uniform_newState (g := fun i => i.state.setGp 2 v) fun _ _ ha => by rw [ha.state]

theorem uniform_csrImm (h : P .imm) : Uniform (FieldsAgree P buf) csrImm :=
  Effect.uniform_get_bind
    (fun i j ha => by rw [ha.state, show i.imm = j.imm from ha.field .imm h])
    fun _ => Effect.uniform_lift _

theorem uniform_setCsrImm (h : P .imm) (v : U64) : Uniform (FieldsAgree P buf) (setCsrImm v) :=
  uniform_newState (g := fun i => i.state.setCsr i.imm i.state.privilegeLevel v) fun i j ha => by
    rw [ha.state, show i.imm = j.imm from ha.field .imm h]

theorem uniform_setPc (target alignment : U64) :
    Uniform (FieldsAgree P buf) (setPc target alignment) := by
  intro i j h
  rw [run_setPc, run_setPc, h.state]
  split
  · exact .error _ { h with state := rfl, field := h.field }
  · exact .ok () { h with state := rfl, nextPc := rfl, field := h.field }

theorem uniform_throwSim (e : SimExceptions) : Uniform (FieldsAgree P buf) (throwSim e) :=
  Effect.uniform_throw _

theorem uniform_ite {c : Prop} [Decidable c] {x y : StepM α} (hx : Uniform (FieldsAgree P buf) x)
    (hy : Uniform (FieldsAgree P buf) y) : Uniform (FieldsAgree P buf) (if c then x else y) := by
  split
  · exact hx
  · exact hy

/-- A check that may throw, and what follows it. -/
theorem uniform_check {c : Prop} [Decidable c] (e : SimExceptions) {x : StepM Unit}
    (hx : Uniform (FieldsAgree P buf) x) :
    Uniform (FieldsAgree P buf) (do
      if c then throwSim e
      x : StepM Unit) := by
  split
  · exact Effect.uniform_bind (uniform_throwSim e) fun _ => hx
  · exact hx

end Accessors

/-! ### Memory -/

section Memory

theorem uniform_onMemory (m : EStateM Fault Memory α) :
    Uniform (FieldsAgree P buf) (onMemory m) := by
  refine Effect.uniform_focus (Q := Eq) ?_ (fun _ _ h => h.memory) fun _ _ _ _ h hm => ?_
  · rintro s t rfl
    cases m.run s with
    | ok b s' => exact .ok b rfl
    | error e s' => exact .error e rfl
  · exact { h with memory := hm, field := h.field }

theorem uniform_setMbuf (bytes : List Byte) : Uniform (FieldsAgree P buf) (setMbuf bytes) :=
  fun _ _ h => .ok () { h with mbuf := fun _ => rfl, field := h.field }

theorem uniform_pushBack (access : MemoryAccess) :
    Uniform (FieldsAgree P buf) (pushBack access) := by
  intro i j h
  refine .ok () { h with mOpsMemory := ?_, field := h.field }
  exact congrArg (· ++ [access]) h.mOpsMemory

/-- A load looks at the buffer. -/
theorem uniform_memoryRead (hbuf : buf) (a : U64) (n : Nat) :
    Uniform (FieldsAgree P buf) (memoryRead a n) := by
  refine Effect.uniform_bind (Effect.uniform_lift _) fun _ => ?_
  refine Effect.uniform_get_bind (fun i j h => by rw [h.mbuf hbuf, h.memory]) fun i => ?_
  refine Effect.uniform_bind (uniform_onMemory _) fun r => ?_
  refine Effect.uniform_bind (uniform_setMbuf _) fun _ => ?_
  refine Effect.uniform_bind (Effect.uniform_lift _) fun rval => ?_
  exact Effect.uniform_bind (uniform_pushBack _) fun _ => Effect.uniform_pure _

/-- A store overwrites the front of it. -/
theorem uniform_memoryWrite (a : U64) (n : Nat) (v : U64) :
    Uniform (FieldsAgree P buf) (memoryWrite a n v) := by
  refine Effect.uniform_bind (Effect.uniform_lift _) fun _ => ?_
  intro i j h
  simp only [EStateM.run_bind, EStateM.run_get, setMbuf, pushBack, EStateM.run_modify, h.memory]
  refine .ok () { h with
    memory := rfl, mbuf := fun hb => by rw [h.mbuf hb], mOpsMemory := ?_, field := h.field }
  exact congrArg (· ++ _) h.mOpsMemory

end Memory

/-! ### The bodies -/

section Bodies

variable (hrd : P .rd) (hrs1 : P .rs1) (hrs2 : P .rs2) (himm : P .imm)

section
include hrd hrs1 hrs2

theorem uniform_alu (f : U32 → U32 → U32) : Uniform (FieldsAgree P buf) (alu f) :=
  Effect.uniform_bind (uniform_rs1 hrs1) fun _ =>
    Effect.uniform_bind (uniform_rs2 hrs2) fun _ => uniform_setRd hrd _

theorem uniform_shiftReg (f : U32 → Nat → U32) : Uniform (FieldsAgree P buf) (shiftReg f) := by
  refine Effect.uniform_bind (uniform_rs1 hrs1) fun a => ?_
  refine Effect.uniform_bind (uniform_rs2 hrs2) fun b => ?_
  dsimp only
  split
  · exact Effect.uniform_throw _
  · exact uniform_setRd hrd _

end

section
include hrd hrs1 himm

theorem uniform_aluImm (f : U32 → U64 → U32) : Uniform (FieldsAgree P buf) (aluImm f) :=
  Effect.uniform_bind (uniform_rs1 hrs1) fun _ =>
    Effect.uniform_bind (uniform_signExtendImm himm _) fun _ => uniform_setRd hrd _

theorem uniform_shiftImm (f : U32 → Nat → U32) : Uniform (FieldsAgree P buf) (shiftImm f) :=
  Effect.uniform_bind (uniform_rs1 hrs1) fun _ =>
    Effect.uniform_bind (uniform_immForShift himm) fun _ => uniform_setRd hrd _

end

section
include hrs1 hrs2 himm

theorem uniform_branch (cond : U32 → U32 → Bool) : Uniform (FieldsAgree P buf) (branch cond) := by
  refine Effect.uniform_bind (uniform_rs1 hrs1) fun a => ?_
  refine Effect.uniform_bind (uniform_rs2 hrs2) fun b => ?_
  split
  · exact Effect.uniform_bind (uniform_signExtendImm himm _) fun _ =>
      Effect.uniform_bind uniform_pc fun _ => uniform_setPc _ _
  · exact Effect.uniform_bind (Effect.uniform_pure _) fun _ =>
      Effect.uniform_bind uniform_pc fun _ => uniform_setPc _ _

end

section
include hrs1 himm

theorem uniform_effectiveAddress : Uniform (FieldsAgree P buf) effectiveAddress :=
  Effect.uniform_bind (uniform_rs1 hrs1) fun _ =>
    Effect.uniform_bind (uniform_signExtendImm himm _) fun _ => Effect.uniform_pure _

theorem uniform_store (hrs2 : P .rs2) (n : Nat) : Uniform (FieldsAgree P buf) (store n) :=
  Effect.uniform_bind (uniform_effectiveAddress hrs1 himm) fun _ =>
    Effect.uniform_bind (uniform_rs2 hrs2) fun _ => uniform_memoryWrite _ _ _

theorem uniform_load (hrd : P .rd) (hbuf : buf) (n : Nat) (ext : U64 → U64) :
    Uniform (FieldsAgree P buf) (load n ext) :=
  Effect.uniform_bind (uniform_effectiveAddress hrs1 himm) fun _ =>
    Effect.uniform_bind (uniform_memoryRead hbuf _ _) fun _ => uniform_setRd hrd _

end

section
include hrd himm

theorem uniform_csrWrite {value : StepM U64} (hv : Uniform (FieldsAgree P buf) value) :
    Uniform (FieldsAgree P buf) (csrWrite value) :=
  Effect.uniform_bind (uniform_csrImm himm) fun _ => Effect.uniform_bind (uniform_setRd hrd _) fun _ =>
    Effect.uniform_bind hv fun _ => uniform_setCsrImm himm _

theorem uniform_csrModify (hrs1 : P .rs1) {value : StepM U64} (hv :
    Uniform (FieldsAgree P buf) value) :
    Uniform (FieldsAgree P buf) (csrModify value) := by
  refine Effect.uniform_bind (uniform_csrImm himm) fun _ => ?_
  refine Effect.uniform_bind (uniform_setRd hrd _) fun _ => ?_
  refine Effect.uniform_get_bind (fun i j h => by rw [show i.rs1 = j.rs1 from h.field .rs1 hrs1])
    fun i => ?_
  split
  · exact Effect.uniform_bind hv fun _ => uniform_setCsrImm himm _
  · exact Effect.uniform_pure _

end

/-- The value of the set and clear forms: the CSR and the field `rs1`. -/
theorem uniform_csrValue (hrs1 : P .rs1) (himm : P .imm) (f : U64 → U32 → U64) :
    Uniform (FieldsAgree P buf) (do return f (← csrImm) (← get).rs1 : StepM U64) := by
  refine Effect.uniform_bind (uniform_csrImm himm) fun v => ?_
  exact Effect.uniform_get_bind
    (fun i j h => by rw [show i.rs1 = j.rs1 from h.field .rs1 hrs1]) fun _ => Effect.uniform_pure _

end Bodies

/-- A check of `rd` that may throw, and what follows it. -/
theorem uniform_checkRd (hrd : P .rd) (bad : U32 → Prop) [DecidablePred bad] (e : SimExceptions)
    {x : StepM Unit} (hx : Uniform (FieldsAgree P buf) x) :
    Uniform (FieldsAgree P buf) (do
      if bad (← get).rd then throwSim e
      x : StepM Unit) :=
  Effect.uniform_get_bind (fun i j h => by rw [show i.rd = j.rd from h.field .rd hrd])
    fun _ => uniform_check e hx

/-- A check of the immediate. -/
theorem uniform_checkImm (himm : P .imm) (e : SimExceptions) {x : StepM Unit}
    (hx : Uniform (FieldsAgree P buf) x) :
    Uniform (FieldsAgree P buf) (do
      if (← imm) = 0 then throwSim e
      x : StepM Unit) :=
  Effect.uniform_bind (uniform_imm himm) fun _ => uniform_check e hx

/-- A body looks at the fields it names, and a load at the buffer. -/
theorem uniform_step {c : Iclass} (huses : ∀ f ∈ c.uses, P f) (hbuf : c.loads.isSome → buf) :
    Uniform (FieldsAgree P buf) (step c) := by
  cases c
  case add | slt | sltu | and | or | xor | sub | mul | mulhu | mulh | mulhsu | div | divu | rem =>
    exact uniform_alu (huses _ (by decide)) (huses _ (by decide)) (huses _ (by decide)) _
  case sll | srl | sra =>
    exact uniform_shiftReg (huses _ (by decide)) (huses _ (by decide)) (huses _ (by decide)) _
  case remu =>
    refine Effect.uniform_bind (uniform_rs1 (huses _ (by decide))) fun a => ?_
    refine Effect.uniform_bind (uniform_rs2 (huses _ (by decide))) fun b => ?_
    split
    · exact Effect.uniform_throw _
    · exact uniform_setRd (huses _ (by decide)) _
  case addi | slti | sltiu | andi | ori | xori =>
    exact uniform_aluImm (huses _ (by decide)) (huses _ (by decide)) (huses _ (by decide)) _
  case slli | srli | srai =>
    exact uniform_shiftImm (huses _ (by decide)) (huses _ (by decide)) (huses _ (by decide)) _
  case lui =>
    exact Effect.uniform_bind (uniform_imm (huses _ (by decide))) fun _ =>
      uniform_setRd (huses _ (by decide)) _
  case auipc =>
    exact Effect.uniform_bind uniform_pc fun _ =>
      Effect.uniform_bind (uniform_imm (huses _ (by decide))) fun _ =>
        uniform_setRd (huses _ (by decide)) _
  case jal | cJal =>
    refine Effect.uniform_bind uniform_pc fun _ => ?_
    refine Effect.uniform_bind (uniform_signExtendImm (huses _ (by decide)) _) fun _ => ?_
    refine Effect.uniform_bind (uniform_setPc _ _) fun _ => ?_
    exact Effect.uniform_bind uniform_pc fun _ => uniform_setRd (huses _ (by decide)) _
  case jalr =>
    refine Effect.uniform_bind (uniform_rs1 (huses _ (by decide))) fun _ => ?_
    refine Effect.uniform_bind (uniform_signExtendImm (huses _ (by decide)) _) fun _ => ?_
    refine Effect.uniform_bind (uniform_setPc _ _) fun _ => ?_
    exact Effect.uniform_bind uniform_pc fun _ => uniform_setRd (huses _ (by decide)) _
  case cJ =>
    exact Effect.uniform_bind uniform_pc fun _ =>
      Effect.uniform_bind (uniform_signExtendImm (huses _ (by decide)) _) fun _ => uniform_setPc _ _
  case beq | bne | blt | bltu | bge | bgeu =>
    exact uniform_branch (huses _ (by decide)) (huses _ (by decide)) (huses _ (by decide)) _
  case cBeqz =>
    refine Effect.uniform_bind (uniform_rs1 (huses _ (by decide))) fun _ => ?_
    split
    · exact Effect.uniform_bind (uniform_signExtendImm (huses _ (by decide)) _) fun _ =>
        Effect.uniform_bind uniform_pc fun _ => uniform_setPc _ _
    · exact Effect.uniform_bind (Effect.uniform_pure _) fun _ =>
        Effect.uniform_bind uniform_pc fun _ => uniform_setPc _ _
  case lb | lh | lw | lbu | lhu =>
    exact uniform_load (huses _ (by decide)) (huses _ (by decide)) (huses _ (by decide)) (hbuf rfl) _ _
  case cLw =>
    refine Effect.uniform_bind (uniform_rs1 (huses _ (by decide))) fun _ => ?_
    refine Effect.uniform_bind (uniform_imm (huses _ (by decide))) fun _ => ?_
    exact Effect.uniform_bind (uniform_memoryRead (hbuf rfl) _ _) fun _ =>
      uniform_setRd (huses _ (by decide)) _
  case sb | sh | sw =>
    exact uniform_store (huses _ (by decide)) (huses _ (by decide)) (huses _ (by decide)) _
  case cSw =>
    refine Effect.uniform_bind (uniform_rs1 (huses _ (by decide))) fun _ => ?_
    refine Effect.uniform_bind (uniform_imm (huses _ (by decide))) fun _ => ?_
    exact Effect.uniform_bind (uniform_rs2 (huses _ (by decide))) fun _ => uniform_memoryWrite _ _ _
  case fence | fenceI | sfence | ebreak | cNop => exact Effect.uniform_pure _
  case csrrw =>
    exact Effect.uniform_bind (uniform_rs1 (huses _ (by decide))) fun _ =>
      uniform_csrWrite (huses _ (by decide)) (huses _ (by decide)) (Effect.uniform_pure _)
  case csrrs | csrrc =>
    refine Effect.uniform_bind (uniform_rs1 (huses _ (by decide))) fun _ => ?_
    refine uniform_csrModify (huses _ (by decide)) (huses _ (by decide)) (huses _ (by decide)) ?_
    exact Effect.uniform_bind (uniform_csrImm (huses _ (by decide))) fun _ => Effect.uniform_pure _
  case csrrwi =>
    refine uniform_csrWrite (huses _ (by decide)) (huses _ (by decide)) ?_
    exact Effect.uniform_get_bind
      (fun i j h => by rw [show i.rs1 = j.rs1 from h.field .rs1 (huses _ (by decide))])
      fun _ => Effect.uniform_pure _
  case csrrsi =>
    exact uniform_csrModify (huses _ (by decide)) (huses _ (by decide)) (huses _ (by decide))
      (uniform_csrValue (huses _ (by decide)) (huses _ (by decide)) fun v z => v + z.setWidth 64)
  case csrrci =>
    exact uniform_csrModify (huses _ (by decide)) (huses _ (by decide)) (huses _ (by decide))
      (uniform_csrValue (huses _ (by decide)) (huses _ (by decide)) fun v z => v - z.setWidth 64)
  case ecall =>
    exact Effect.uniform_bind uniform_userMode fun _ =>
      uniform_ite (uniform_throwSim _) (uniform_throwSim _)
  case mret =>
    exact Effect.uniform_bind uniform_machineMode fun _ =>
      uniform_ite (uniform_throwSim _) (uniform_throwSim _)
  case wfi =>
    refine Effect.uniform_bind uniform_userMode fun _ => ?_
    refine uniform_ite (uniform_throwSim _) ?_
    exact Effect.uniform_bind uniform_wfiEnabled fun _ =>
      uniform_ite (uniform_throwSim _) (uniform_throwSim _)
  case uret | sret | hret | unknownInstruction => exact uniform_throwSim _
  case cLi =>
    exact uniform_checkRd (huses _ (by decide)) (· = 0) _
      (Effect.uniform_bind (uniform_signExtendImm (huses _ (by decide)) _) fun _ =>
        uniform_setRd (huses _ (by decide)) _)
  case cLui =>
    exact uniform_checkRd (huses _ (by decide)) (fun rd => rd = 0 ∨ rd = 2) _
      (Effect.uniform_bind (uniform_imm (huses _ (by decide))) fun _ =>
        uniform_setRd (huses _ (by decide)) _)
  case cAddi =>
    refine uniform_checkImm (huses _ (by decide)) _ ?_
    refine Effect.uniform_bind (uniform_rs1 (huses _ (by decide))) fun _ => ?_
    exact Effect.uniform_bind (uniform_signExtendImm (huses _ (by decide)) _) fun _ =>
      uniform_setRd (huses _ (by decide)) _
  case cAddi16sp =>
    refine uniform_checkImm (huses _ (by decide)) _ ?_
    refine Effect.uniform_bind (uniform_x _) fun _ => ?_
    exact Effect.uniform_bind (uniform_signExtendImm (huses _ (by decide)) _) fun _ => uniform_setSp _
  case cAddi4spn =>
    refine uniform_checkImm (huses _ (by decide)) _ ?_
    refine Effect.uniform_bind (uniform_x _) fun _ => ?_
    exact Effect.uniform_bind (uniform_imm (huses _ (by decide))) fun _ =>
      uniform_setRd (huses _ (by decide)) _
  case cAndi =>
    refine Effect.uniform_bind (uniform_rd (huses _ (by decide))) fun _ => ?_
    exact Effect.uniform_bind (uniform_signExtendImm (huses _ (by decide)) _) fun _ =>
      uniform_setRd (huses _ (by decide)) _
  case cAnd | cOr | cXor | cSub =>
    refine Effect.uniform_bind (uniform_rd (huses _ (by decide))) fun _ => ?_
    exact Effect.uniform_bind (uniform_rs2 (huses _ (by decide))) fun _ =>
      uniform_setRd (huses _ (by decide)) _

end Step

theorem mem_uses_of_reads {c : Iclass} {f : Operand} (h : Reads c f) : f ∈ c.uses := by
  by_contra hf
  exact h (Step.uniform_step (fun g hg he => hf (he ▸ hg)) fun _ => trivial)

/-! ### Loads that a device refuses -/

namespace Memory

/-- A read of `n` bytes goes to a device that leaves the buffer alone. -/
def Refuses (m : Memory) (a : U64) (n : Nat) : Prop :=
  ∃ address p, m.checkAddresses a n false = .ok address ∧ m.deviceAt address = some p ∧
    ¬ (Devices.isMapped address p ∧ n = 4)

theorem not_refuses_of_ram {m : Memory} {a address : U64} {n : Nat}
    (hc : m.checkAddresses a n false = .ok address) (hd : m.deviceAt address = none) :
    ¬ m.Refuses a n := by
  rintro ⟨address', p, hc', hd', -⟩
  rw [hc] at hc'
  cases hc'
  rw [hd] at hd'
  cases hd'

theorem refuses_iff_of_device {m : Memory} {a address : U64} {p : DevicePtr} {n : Nat}
    (hc : m.checkAddresses a n false = .ok address) (hd : m.deviceAt address = some p) :
    m.Refuses a n ↔ ¬ (Devices.isMapped address p ∧ n = 4) := by
  constructor
  · rintro ⟨address', p', hc', hd', h⟩
    rw [hc] at hc'
    cases hc'
    rw [hd] at hd'
    cases hd'
    exact h
  · exact fun h => ⟨address, p, hc, hd, h⟩

theorem length_bytesOfWord (bigEndian : Bool) (w : U32) :
    (Devices.bytesOfWord bigEndian w).length = 4 := by
  cases bigEndian <;> rfl

/-- A device fills the buffer for a mapped word and leaves it alone for anything else. -/
theorem readDeviceMemory_cases (m : Memory) (p : DevicePtr) (address : U64) (n : Nat) :
    ((Devices.isMapped address p ∧ n = 4) ∧ ∃ code bytes m', bytes.length = n ∧ ∀ buf,
      (readDeviceMemory p address n buf false).run m = .ok (code, overlay bytes buf) m') ∨
    (¬ (Devices.isMapped address p ∧ n = 4) ∧
      ∀ buf, (readDeviceMemory p address n buf false).run m = .ok (-1, buf) m) := by
  simp only [readDeviceMemory, EStateM.run_bind, EStateM.run_get, Bool.false_eq_true, if_false]
  by_cases hm : Devices.isMapped address p
  · by_cases hn : n = 4
    · subst hn
      refine .inl ⟨⟨hm, rfl⟩, ?_⟩
      simp only [hm, if_true]
      cases p with
      | uart1 => exact ⟨_, _, _, length_bytesOfWord _ _, fun _ => rfl⟩
      | timer => exact ⟨_, _, _, length_bytesOfWord _ _, fun _ => rfl⟩
    · have hn' : (n : Int) ≠ 4 := by omega
      refine .inr ⟨fun h => hn h.2, fun buf => ?_⟩
      simp only [hm, if_true, Devices.read, if_pos hn']
      rfl
  · refine .inr ⟨fun h => hm h.1, fun buf => ?_⟩
    rw [if_neg hm]
    rfl

/-- A read of the size of a load fills the front of the buffer, unless it throws or a device refuses
    it. -/
theorem readMemory_cases (m : Memory) (a : U64) {n : Nat} (hn : 0 < n ∧ n ≤ 8) :
    (¬ m.Refuses a n ∧
      ∃ f m', ∀ buf, (readMemory a true n true buf false true).run m = .error f m') ∨
    (¬ m.Refuses a n ∧ ∃ code bytes m', bytes.length = n ∧ ∀ buf,
      (readMemory a true n true buf false true).run m = .ok (code, overlay bytes buf) m') ∨
    (m.Refuses a n ∧ ∀ buf, (readMemory a true n true buf false true).run m = .ok (-1, buf) m) := by
  have hle : (n : Int) ≤ 32 := by omega
  have hrun : ∀ buf, (readMemory a true n true buf false true).run m
      = (readPhysicalMemory a n buf false true).run m := by
    intro buf
    rw [readMemory]
    simp only [Bool.not_true, Bool.and_self, Bool.false_eq_true, if_false, hle, if_true]
    rfl
  simp only [hrun, readPhysicalMemory, EStateM.run_bind, EStateM.run_get]
  cases hc : m.checkAddresses a n false with
  | error f =>
    refine .inl ⟨?_, f, m, fun _ => rfl⟩
    rintro ⟨address, p, hc', -⟩
    rw [hc] at hc'
    cases hc'
  | ok address =>
    simp only [Effect.run_lift_ok]
    cases hd : m.deviceAt address with
    | none =>
      refine .inr (.inl ⟨not_refuses_of_ram hc hd, ?_⟩)
      simp only [onPhysMem, EStateM.run_bind, Effect.run_focus,
        PhysicalMemory.read_run hn.1 (by omega : n ≤ 32), Effect.mapState_ok, EStateM.run_pure]
      exact ⟨_, _, _, PhysicalMemory.length_pullBytes true n m.physMem address, fun _ => rfl⟩
    | some p =>
      rw [refuses_iff_of_device hc hd]
      rcases readDeviceMemory_cases m p address n with ⟨hm, hfill⟩ | hkeep
      · exact .inr (.inl ⟨not_not_intro hm, hfill⟩)
      · exact .inr (.inr hkeep)

end Memory

/-- The address of a load. -/
def RiscvInstruction.loadAddress (i : RiscvInstruction) : U64 :=
  if i.iclass = .cLw then (i.rs1Val + i.imm * 4).setWidth 64 else i.rs1Val.setWidth 64 + i.immVal 12

/-- What a load gives to `RD`. -/
def Iclass.loadValue (c : Iclass) (v : U64) : U32 :=
  match c with
  | .lb => (signExtend v 8).setWidth 32
  | .lh => (signExtend v 16).setWidth 32
  | _ => v.setWidth 32

/-- A load into a register other than x0 from an address at which a device refuses it. -/
def LeaksBuffer (c : Iclass) (s : RiscvState) (m : Memory) (w : U32) : Prop :=
  let i := (RiscvInstruction.new {} c s m w).decode
  i.rd ≠ 0 ∧ ∃ n, c.loads = some n ∧ m.Refuses i.loadAddress n

namespace Step

open Effect (Uniform Alike)

variable {P : Operand → Prop} {buf : Prop} {i j : RiscvInstruction} {c : Iclass} {a : U64} {n : Nat}

theorem loads_size (hc : c.loads = some n) : n = 1 ∨ n = 2 ∨ n = 4 := by
  cases c <;> simp only [Iclass.loads, Option.some.injEq, reduceCtorEq] at hc <;> omega

theorem run_step_load (hc : i.iclass.loads = some n) (h₁ : i.rs1.toNat < 32) :
    (step i.iclass).run i
      = (do setRd (i.iclass.loadValue (← memoryRead i.loadAddress n)) : StepM Unit).run i := by
  cases hi : i.iclass <;> rw [hi] at hc <;>
    simp only [Iclass.loads, Option.some.injEq, reduceCtorEq] at hc <;> subst hc
  case cLw =>
    rw [run_cLw h₁, RiscvInstruction.loadAddress, if_pos hi]
    rfl
  all_goals
    rw [step, load, EStateM.run_bind, run_effectiveAddress h₁, RiscvInstruction.loadAddress,
      if_neg (by rw [hi]; decide)]
    rfl

theorem checkSize_loads (hn : n = 1 ∨ n = 2 ∨ n = 4) (what : String) : checkSize n what = .ok () :=
  if_pos (by omega)

/-- A read that is not refused does not depend on the buffer. -/
theorem alike_memoryRead (hn : n = 1 ∨ n = 2 ∨ n = 4) (h : FieldsAgree P buf i j)
    (hr : ¬ i.memory.Refuses a n) :
    Alike (FieldsAgree P buf) ((memoryRead a n).run i) ((memoryRead a n).run j) := by
  simp only [memoryRead, checkSize_loads hn, EStateM.run_bind, Effect.run_lift_ok, EStateM.run_get,
    onMemory, Effect.run_focus, ← h.memory]
  rcases Memory.readMemory_cases i.memory a (n := n) (by omega) with
    ⟨-, f, m', hread⟩ | ⟨-, code, bytes, m', hlen, hread⟩ | ⟨hrefused, -⟩
  · simp only [hread, Effect.mapState_error]
    exact .error f { h with memory := rfl, field := h.field }
  · have htake : ∀ b, (Memory.overlay bytes b).take n = bytes := by
      intro b
      rw [Memory.overlay, List.take_append_of_le_length (by omega), List.take_of_length_le (by omega)]
    simp only [hread, Effect.mapState_ok, setMbuf, EStateM.run_modify, htake]
    cases registerValue i.memory.hostEndianness 0 0
      (if i.memory.hostEndianness then bytes.reverse else bytes) with
    | error f =>
      simp only [Effect.run_lift_error]
      exact .error f { h with
        memory := rfl, mbuf := fun hb => by rw [h.mbuf hb], field := h.field }
    | ok v =>
      simp only [Effect.run_lift_ok, pushBack, EStateM.run_modify, EStateM.run_pure]
      exact .ok v { h with
        memory := rfl, mbuf := fun hb => by rw [h.mbuf hb]
        mOpsMemory := by rw [h.mOpsMemory], field := h.field }
  · exact absurd hrefused hr

/-- A read that is refused returns what the buffer held. -/
theorem run_memoryRead_refused (hn : n = 1 ∨ n = 2 ∨ n = 4) (hr : i.memory.Refuses a n) {v : U64}
    (hv : registerValue i.memory.hostEndianness 0 0
      (if i.memory.hostEndianness then (i.mbuf.take n).reverse else i.mbuf.take n) = .ok v) :
    (memoryRead a n).run i = .ok v { i with
      mOpsMemory := i.mOpsMemory ++ [{ address := a, size := n, isWrite := false }] } := by
  rcases Memory.readMemory_cases i.memory a (n := n) (by omega) with
    ⟨hno, -⟩ | ⟨hno, -⟩ | ⟨-, hread⟩
  · exact absurd hr hno
  · exact absurd hr hno
  · simp only [memoryRead, checkSize_loads hn, EStateM.run_bind, Effect.run_lift_ok, EStateM.run_get,
      onMemory, Effect.run_focus, hread, Effect.mapState_ok, setMbuf, EStateM.run_modify, hv, pushBack,
      EStateM.run_pure]

/-- It always returns something. -/
theorem memoryRead_refused (hn : n = 1 ∨ n = 2 ∨ n = 4) (hr : i.memory.Refuses a n) :
    ∃ v, (memoryRead a n).run i = .ok v { i with
      mOpsMemory := i.mOpsMemory ++ [{ address := a, size := n, isWrite := false }] } := by
  have hlen : (if i.memory.hostEndianness then (i.mbuf.take n).reverse else i.mbuf.take n).length
      ≤ 4 := by
    split <;> simp only [List.length_reverse, List.length_take] <;> omega
  obtain ⟨v, hv⟩ := registerValue_ok i.memory.hostEndianness _ 0 0 ((Nat.zero_add _).trans_le hlen)
  exact ⟨v, run_memoryRead_refused hn hr hv⟩

theorem run_setRd_x0 (h : i.rd = 0) (v : U32) : (setRd v).run i = .ok () i := by
  have hput : i.putRd v = i := by
    have hreg : i.state.setReg i.rd (v.setWidth 64) = i.state := by rw [h, RiscvState.setReg_zero]
    rw [RiscvInstruction.putRd, hreg]
  rw [run_setRd (by rw [h]; decide), hput]

/-- Objects that agree on the fields load from one address. -/
theorem FieldsAgree.loadAddress (h : FieldsAgree P buf i j) (hrs1 : P .rs1) (himm : P .imm) :
    i.loadAddress = j.loadAddress := by
  have hrs1' : i.rs1 = j.rs1 := h.field .rs1 hrs1
  have himm' : i.imm = j.imm := h.field .imm himm
  simp only [RiscvInstruction.loadAddress, RiscvInstruction.rs1Val, RiscvInstruction.immVal,
    h.iclass, h.state, hrs1', himm']

/-- A load that is not refused, or into x0. -/
theorem alike_step_load (hc : i.iclass.loads = some n) (h : FieldsAgree P buf i j) (hrs1 : P .rs1)
    (hrd : P .rd) (himm : P .imm) (h₁ : i.rs1.toNat < 32)
    (hr : i.rd = 0 ∨ ¬ i.memory.Refuses i.loadAddress n) :
    Alike (FieldsAgree P buf) ((step i.iclass).run i) ((step j.iclass).run j) := by
  have hn := loads_size hc
  have hrs1' : i.rs1 = j.rs1 := h.field .rs1 hrs1
  have hrd' : i.rd = j.rd := h.field .rd hrd
  rw [run_step_load hc h₁, run_step_load (h.iclass ▸ hc) (hrs1' ▸ h₁), ← h.iclass,
    ← FieldsAgree.loadAddress h hrs1 himm]
  by_cases hrefused : i.memory.Refuses i.loadAddress n
  · have hzero : i.rd = 0 := hr.resolve_right (not_not_intro hrefused)
    obtain ⟨v, hv⟩ := memoryRead_refused hn hrefused
    obtain ⟨v', hv'⟩ := memoryRead_refused (i := j) hn (h.memory ▸ hrefused)
    rw [EStateM.run_bind, EStateM.run_bind, hv, hv']
    dsimp only
    rw [run_setRd_x0 (by exact hzero), run_setRd_x0 (by exact hrd' ▸ hzero)]
    refine .ok () { h with mOpsMemory := ?_, field := h.field }
    exact congrArg (· ++ _) h.mOpsMemory
  · rw [EStateM.run_bind, EStateM.run_bind]
    rcases (alike_memoryRead hn h hrefused).cases with ⟨v, i', j', hi, hj, h'⟩ | ⟨f, i', j', hi, hj, h'⟩
    · rw [hi, hj]
      exact uniform_setRd hrd _ _ _ h'
    · rw [hi, hj]
      exact .error f h'

/-! ### Execution -/

theorem uniform_exception (e : SimExceptions) : Uniform (FieldsAgree P buf) (exception e) :=
  uniform_newState (g := fun i => i.state.processException e i.encoding) fun _ _ h => by
    rw [h.state, h.encoding]

/-- What the body does not tell apart `Execute` does not. -/
theorem alike_execute (h : Alike (FieldsAgree P buf) ((step i.decode.iclass).run i.decode)
    ((step j.decode.iclass).run j.decode)) :
    Alike (FieldsAgree P buf) (execute.run i) (execute.run j) := by
  rcases h.cases with ⟨u, i', j', hi, hj, h'⟩ | ⟨f, i', j', hi, hj, h'⟩
  · rw [execute_of_ok hi, execute_of_ok hj]
    exact .ok () { h' with state := by rw [h'.state, h'.nextPc], field := h'.field }
  · by_cases hf : ∀ e, f ≠ .sim e
    · rw [execute_of_fault hi hf, execute_of_fault hj hf]
      exact .error f h'
    · obtain ⟨e, he⟩ := not_forall.mp hf
      obtain rfl := not_not.mp he
      rw [execute_of_sim hi, execute_of_sim hj]
      exact uniform_exception e _ _ h'

end Step

theorem outcome_eq_of_alike {P : Operand → Prop} {buf : Prop}
    {r r' : EStateM.Result Fault RiscvInstruction Unit} (h : Effect.Alike (FieldsAgree P buf) r r') :
    outcome r = outcome r' := by
  rcases h.cases with ⟨u, i, j, rfl, rfl, ha⟩ | ⟨f, i, j, rfl, rfl, ha⟩
  · simp only [outcome, Effect.thrown, Effect.final, ha.state, ha.memory, ha.mOpsMemory]
  · simp only [outcome, Effect.thrown, Effect.final, ha.state, ha.memory, ha.mOpsMemory]

section Objects

open RiscvInstruction (new)

variable {c : Iclass} {s : RiscvState} {m : Memory} {w : U32}

/-- After `Decode`, fresh objects agree on the fields it sets. -/
theorem agree_decode (junk junk' : Junk) : FieldsAgree (· ∈ c.format.assigns) False
    (new junk c s m w).decode (new junk' c s m w).decode where
  iclass := by simp
  encoding := by simp
  state := by simp
  memory := by simp
  mOpsMemory := by simp
  nextPc := by rw [RiscvInstruction.decode_nextPc, RiscvInstruction.decode_nextPc]; rfl
  mbuf := False.elim
  field f hf := by
    cases hform : c.format <;> rw [hform] at hf <;>
      simp only [Format.assigns, List.mem_cons, List.not_mem_nil, or_false] at hf <;>
      rcases hf with rfl | rfl | rfl <;>
      simp only [Operand.get, RiscvInstruction.decode, RiscvInstruction.new_iclass, hform,
        RiscvInstruction.new_encoding]

/-- The fields a load looks at. -/
theorem mem_uses_of_loads {n : Nat} (hc : c.loads = some n) :
    Operand.rd ∈ c.uses ∧ Operand.rs1 ∈ c.uses ∧ Operand.imm ∈ c.uses := by
  cases c <;> first | decide | cases hc

theorem usesUnsetRd_of_loads {n : Nat} (hc : c.loads = some n) : c.usesUnsetRd = false := by
  cases c <;> first | rfl | cases hc

theorem independent_of_not_leaks (hc : c.usesUnsetRd = false) (hleak : ¬ LeaksBuffer c s m w)
    (junk junk' : Junk) : outcome (Step.execute.run (new junk c s m w))
      = outcome (Step.execute.run (new junk' c s m w)) := by
  have h := agree_decode (c := c) (s := s) (m := m) (w := w) junk junk'
  have hclass : (new junk c s m w).decode.iclass = c := RiscvInstruction.decode_iclass _
  have huses := uses_assigned hc
  apply outcome_eq_of_alike
  refine @Step.alike_execute (· ∈ c.format.assigns) False _ _ ?_
  cases hl : c.loads with
  | none =>
    rw [← h.iclass, hclass]
    refine Step.uniform_step huses ?_ _ _ h
    rw [hl]
    exact fun hsome => absurd hsome (by decide)
  | some n =>
    obtain ⟨hrd, hrs1, himm⟩ := mem_uses_of_loads hl
    refine Step.alike_step_load (hclass.symm ▸ hl) h (huses _ hrs1) (huses _ hrd) (huses _ himm) ?_ ?_
    · have hlt := decode_lt (i := new junk c s m w) (f := .rs1) (huses _ hrs1) (by decide)
      exact hlt
    · have h0 := agree_decode (c := c) (s := s) (m := m) (w := w) junk {}
      have hrd0 : (new junk c s m w).decode.rd = (new {} c s m w).decode.rd :=
        h0.field .rd (huses _ hrd)
      rw [Step.FieldsAgree.loadAddress h0 (huses _ hrs1) (huses _ himm), hrd0,
        RiscvInstruction.decode_memory, RiscvInstruction.new_memory]
      by_contra hno
      rw [not_or, not_not] at hno
      exact hleak ⟨hno.1, n, hl, hno.2⟩

/-- The first byte of the buffer shows in what a refused load returns. -/
theorem loadValue_buffer {n : Nat} (hl : c.loads = some n) (bigEndian : Bool) :
    let value := fun buffer : List Byte => Step.registerValue bigEndian 0 0
      (if bigEndian then (buffer.take n).reverse else buffer.take n)
    ∃ v v', value (new {} c s m w).mbuf = .ok v ∧ value (new { mbuf := [1] } c s m w).mbuf = .ok v' ∧
      c.loadValue v ≠ c.loadValue v' := by
  cases c <;> simp only [Iclass.loads, Option.some.injEq, reduceCtorEq] at hl <;> subst hl <;>
    cases bigEndian <;> exact ⟨_, _, rfl, rfl, by decide⟩

/-- A refused load sets `rd` to what the buffer held. -/
theorem state_of_leak {junk : Junk} {n : Nat} {v : U64} (hl : c.loads = some n)
    (hr : m.Refuses (new junk c s m w).decode.loadAddress n)
    (hv : Step.registerValue m.hostEndianness 0 0 (if m.hostEndianness
      then ((new junk c s m w).mbuf.take n).reverse else (new junk c s m w).mbuf.take n) = .ok v) :
    ∃ pc, (Effect.final (Step.execute.run (new junk c s m w))).state
      = (s.setReg (new junk c s m w).decode.rd ((c.loadValue v).setWidth 64)).setPc pc := by
  have huses := uses_assigned (usesUnsetRd_of_loads hl)
  obtain ⟨hrd, hrs1, -⟩ := mem_uses_of_loads hl
  have h1 := decode_lt (i := new junk c s m w) (f := .rs1) (huses _ hrs1) (by decide)
  have hd := decode_lt (i := new junk c s m w) (f := .rd) (huses _ hrd) (by decide)
  have hclass : (new junk c s m w).decode.iclass = c := RiscvInstruction.decode_iclass _
  have hmemory : (new junk c s m w).decode.memory = m := RiscvInstruction.decode_memory _
  have hstate : (new junk c s m w).decode.state = s := RiscvInstruction.decode_state _
  have hread := Step.run_memoryRead_refused (i := (new junk c s m w).decode) (Step.loads_size hl)
    (a := (new junk c s m w).decode.loadAddress) (by rw [hmemory]; exact hr) (v := v)
    (by rw [hmemory, RiscvInstruction.decode_mbuf]; exact hv)
  have hstep := Step.run_step_load (hclass.symm ▸ hl) h1
  rw [EStateM.run_bind, hread] at hstep
  dsimp only at hstep
  rw [Step.run_setRd (by exact hd)] at hstep
  rw [Step.execute_of_ok hstep]
  refine ⟨(new junk c s m w).decode.nextPc.setWidth 64, ?_⟩
  rw [Effect.final_ok, hclass]
  simp only [RiscvInstruction.putRd, hstate]

theorem not_independent_of_leaks (h : LeaksBuffer c s m w) :
    outcome (Step.execute.run (new {} c s m w))
      ≠ outcome (Step.execute.run (new { mbuf := [1] } c s m w)) := by
  obtain ⟨hrd, n, hl, hr⟩ := h
  obtain ⟨v, v', hv, hv', hne⟩ := loadValue_buffer (s := s) (m := m) (w := w) hl m.hostEndianness
  have huses := uses_assigned (usesUnsetRd_of_loads hl)
  obtain ⟨hmem, hrs1, himm⟩ := mem_uses_of_loads hl
  have hagree := agree_decode (c := c) (s := s) (m := m) (w := w) {} { mbuf := [1] }
  have hrd' : (new {} c s m w).decode.rd = (new { mbuf := [1] } c s m w).decode.rd :=
    hagree.field .rd (huses _ hmem)
  have haddress := Step.FieldsAgree.loadAddress hagree (huses _ hrs1) (huses _ himm)
  obtain ⟨pc, hs⟩ := state_of_leak hl hr hv
  obtain ⟨pc', hs'⟩ := state_of_leak hl (haddress ▸ hr) hv'
  intro heq
  have hstates := congrArg (fun o => (o.2.1 : RiscvState).x) heq
  simp only [outcome, hs, hs', ← hrd', RiscvState.setPc, RiscvState.setReg, if_neg hrd] at hstates
  have hx := congrFun hstates (Fin.ofNat 32 (new {} c s m w).decode.rd.toNat)
  rw [Function.update_self, Function.update_self] at hx
  have h32 := congrArg (BitVec.setWidth 32) hx
  simp only [BitVec.setWidth_setWidth_of_le _ (by omega : 32 ≤ 64), BitVec.setWidth_eq] at h32
  exact hne h32

/-! ### Fields that are not set -/

/-- Any object. -/
def bare (c : Iclass) (rd : U32) : RiscvInstruction :=
  { iclass := c, encoding := 0, state := {}, nextPc := 0, rs2 := 0, rs1 := 0, rd, imm := 0, mbuf := []
    memory := { physMem := { oracle := { rand := fun _ => 0, heap := fun _ => 0 } } } }

theorem agree_bare (c : Iclass) (rd rd' : U32) :
    FieldsAgree (· ≠ .rd) True (bare c rd) (bare c rd') where
  iclass := rfl
  encoding := rfl
  state := rfl
  memory := rfl
  mOpsMemory := rfl
  nextPc := rfl
  mbuf _ := rfl
  field f hf := by
    cases f with
    | rd => exact absurd rfl hf
    | _ => rfl

/-- With x0 as `rd` the body returns, and with a number past the register file it does not. -/
theorem reads_rd (hc : c.usesUnsetRd) : Reads c .rd := by
  intro h
  have halike := (h _ _ (agree_bare c 0 32)).result_eq
  have hdiffer : Effect.result ((Step.step c).run (bare c 0))
      ≠ Effect.result ((Step.step c).run (bare c 32)) := by
    cases c <;> first | exact absurd hc (by decide) | decide
  exact hdiffer halike

theorem not_assigned_rd (hc : c.usesUnsetRd) : ¬ Assigned c .rd := by
  intro h
  have hrd := congrArg RiscvInstruction.rd (h (bare c 0) 32 rfl)
  have hdiffer : (Operand.rd.set (bare c 0) 32).decode.rd ≠ (bare c 0).decode.rd := by
    cases c <;> first | exact absurd hc (by decide) | decide
  exact hdiffer hrd

/-- For every class, state, memory and encoding: executing it depends on set fields only, register
    numbers are below 32 and the outcome does not depend on what the object held, exactly if the
    class is none of the six that name an `rd` they do not have, and the instruction is not a load
    that returns the buffer because a device refuses it. -/
theorem initialised_iff (c : Iclass) (s : RiscvState) (m : Memory) (w : U32) :
    Initialised c s m w ↔ c.usesUnsetRd = false ∧ ¬ LeaksBuffer c s m w := by
  constructor
  · intro h
    refine ⟨Bool.eq_false_iff.mpr fun hc => ?_, fun hleak => ?_⟩
    · exact not_assigned_rd hc (h.assigned .rd (reads_rd hc))
    · exact not_independent_of_leaks hleak (h.independent {} { mbuf := [1] })
  · rintro ⟨hc, hleak⟩
    have huses : ∀ f, Reads c f → f ∈ c.format.assigns :=
      fun f hf => uses_assigned hc f (mem_uses_of_reads hf)
    exact {
      assigned := fun f hf => assigned_of_mem (huses f hf)
      below := fun junk f hf hne => decode_lt (i := new junk c s m w) (huses f hf) hne
      independent := independent_of_not_leaks hc hleak }

end Objects

/-- `c.sub x8,x9` names an `rd` it does not have. -/
theorem c_sub_not_initialised : ¬ ∀ (s : RiscvState) (m : Memory) (w : U32),
    Initialised (newInstruction16 s w) s m w := by
  intro h
  have hsub := h { reg := fun _ => 4 }
    { physMem := { oracle := { rand := fun _ => 0, heap := fun _ => 0 } } } 0x8c05
  have hclass : newInstruction16 { reg := fun _ => 4 } 0x8c05 = .cSub := by decide
  rw [hclass] at hsub
  exact not_assigned_rd rfl (hsub.assigned .rd (reads_rd rfl))

end Dimebox
