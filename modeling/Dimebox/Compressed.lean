import Dimebox.Expansion
import Dimebox.Jumps
import Dimebox.LoadStore
import Dimebox.Commit

/-! `Execute` and `Writeback` of compressed instructions.

    The bodies of the compressed classes in closed form, and the few kinds of results they leave: a
    register written, an illegal instruction, a jump, a load, a store. The 32-bit instructions of the
    expansions leave results of the same kinds; run with a length of two bytes they link PC + 2 and
    fall through to PC + 2. -/

namespace Dimebox

/-! ### A 32-bit instruction with another length -/

namespace Step

/-- A branch of an instruction of `size` bytes. -/
def branchSized (size : U32) (cond : U32 → U32 → Bool) : StepM Unit := do
  let offset ← if cond (← rs1) (← rs2) then signExtendImm 13 else pure (size.setWidth 64)
  setPc ((← pc).setWidth 64 + offset) (size.setWidth 64)

/-- The body of a 32-bit instruction if it had `size` bytes: links hold PC + `size`, and a branch
    that is not taken goes there. -/
def stepSized (size : U32) : Iclass → StepM Unit
  | .jal => do
    setPc ((← pc).setWidth 64 + (← signExtendImm 20)) (size.setWidth 64)
    setRd ((← pc) + size)
  | .jalr => do
    setPc (((← rs1).setWidth 64 + (← signExtendImm 12)) &&& 0xfffffffe) (size.setWidth 64)
    setRd ((← pc) + size)
  | .beq => branchSized size fun a b => a = b
  | .bne => branchSized size fun a b => a ≠ b
  | .blt => branchSized size fun a b => a.slt b
  | .bltu => branchSized size fun a b => a.ult b
  | .bge => branchSized size fun a b => !a.slt b
  | .bgeu => branchSized size fun a b => !a.ult b
  | c => step c

theorem stepSized_four (c : Iclass) : stepSized 4 c = step c := by cases c <;> rfl

/-- `Execute` with another body. -/
def executeWith (body : Iclass → StepM Unit) : StepM Unit := do
  modify RiscvInstruction.decode
  tryCatch (do
    body (← get).iclass
    advancePc) fun
    | .sim e => exception e
    | f => throw f

theorem run_executeWith (body : Iclass → StepM Unit) (i : RiscvInstruction) :
    (executeWith body).run i = match (body i.decode.iclass).run i.decode with
      | .ok _ i₁ => .ok () { i₁ with state := i₁.state.setPc (i₁.nextPc.setWidth 64) }
      | .error (.sim e) i₁ => (exception e).run i₁
      | .error f i₁ => .error f i₁ := by
  rw [executeWith, EStateM.run_bind, EStateM.run_modify]
  simp only [Effect.run_tryCatch, EStateM.run_bind, EStateM.run_get]
  cases (body i.decode.iclass).run i.decode with
  | ok u i₁ => rfl
  | error f i₁ => cases f <;> rfl

end Step

/-- `Execute` and `Writeback` of one instruction object. -/
def runObject (body : Iclass → StepM Unit) (i : RiscvInstruction) (core : RiscvState) :
    Except Fault (RiscvState × Memory) :=
  match (Step.executeWith body).run i with
  | .error f _ => .error f
  | .ok _ i' =>
    match (writeback i').run (core, i'.memory) with
    | .error f _ => .error f
    | .ok _ st => .ok st

/-- `Execute` and `Writeback` of a halfword, on a copy of the core over `storage`. -/
def runHalfword (junk : Junk) (storage : RiscvState) (h : BitVec 16) (core : RiscvState)
    (m : Memory) : Except Fault (RiscvState × Memory) :=
  let s := RiscvState.copy storage core
  runObject Step.step
    (.new junk (newInstruction16 s (h.setWidth 32)) s m (h.setWidth 32)) core

/-- The same for a 32-bit instruction, as if it had `size` bytes. -/
def runSized (size : U32) (junk : Junk) (storage : RiscvState) (w : U32) (core : RiscvState)
    (m : Memory) : Except Fault (RiscvState × Memory) :=
  let s := RiscvState.copy storage core
  runObject (Step.stepSized size)
    { RiscvInstruction.new junk (newInstruction w) s m w with nextPc := s.pc.setWidth 32 + size }
    core

/-- With four bytes it is the 32-bit instruction. -/
theorem runSized_four (junk : Junk) (storage : RiscvState) (w : U32) (core : RiscvState)
    (m : Memory) : runSized 4 junk storage w core m = runWord junk storage w core m := by
  have hbody : Step.stepSized 4 = Step.step := funext Step.stepSized_four
  have hnew : ∀ s, { RiscvInstruction.new junk (newInstruction w) s m w with
      nextPc := s.pc.setWidth 32 + 4 } = RiscvInstruction.new junk (newInstruction w) s m w := by
    intro s
    rw [RiscvInstruction.new, instrSize_newInstruction]
  simp only [runSized, hbody, hnew]
  rfl

section RunObject

variable {body : Iclass → StepM Unit} {i j : RiscvInstruction} {core : RiscvState} {n : Memory}

theorem runObject_ok (h : (body i.decode.iclass).run i.decode = .ok () j)
    (hw : (writebackOps j.mOpsMemory).run j.memory = .ok () n) :
    runObject body i core = .ok (core.update (j.state.setPc (j.nextPc.setWidth 64)), n) := by
  simp only [runObject, Step.run_executeWith, h, writeback_run, hw, Effect.mapState_ok]

theorem runObject_sim {e : SimExceptions} {s : RiscvState}
    (h : (body i.decode.iclass).run i.decode = .error (.sim e) j)
    (hp : j.state.processException e j.encoding = .ok s)
    (hw : (writebackOps j.mOpsMemory).run j.memory = .ok () n) :
    runObject body i core = .ok (core.update s, n) := by
  simp only [runObject, Step.run_executeWith, h, Step.run_exception_of_ok hp, writeback_run, hw,
    Effect.mapState_ok]

theorem runObject_undefined (h : (body i.decode.iclass).run i.decode = .error .undefined j) :
    runObject body i core = .error .undefined := by
  simp only [runObject, Step.run_executeWith, h]

end RunObject

/-! ### Results -/

section Results

variable (s core : RiscvState) (m : Memory)

/-- Two bytes on, with register `rd` set to `v`. -/
def wrote (rd : U32) (v : U64) : Except Fault (RiscvState × Memory) :=
  .ok (core.update ((s.setReg rd v).setPc ((s.pc.setWidth 32 + 2 : U32).setWidth 64)), m)

/-- An illegal instruction. -/
def refused : Except Fault (RiscvState × Memory) :=
  .ok (core.update (s.trapState .illegalInstructionUnimplInstr 0), m)

/-- A jump to `target` that sets register `rd` to `link`, or the trap of an odd target. -/
def jumped (target : U64) (rd : U32) (link : U32) : Except Fault (RiscvState × Memory) :=
  if target &&& 1 ≠ 0 then
    .ok (core.update ((s.write .mtval target).trapState .instructionAddressMisaligned target), m)
  else
    .ok (core.update ((s.setReg rd (link.setWidth 64)).setPc ((target.setWidth 32).setWidth 64)), m)

/-- Two bytes on, with the word at `a` loaded into register `rd`. -/
def loaded (mbuf : List Byte) (a : U64) (rd : U32) : Except Fault (RiscvState × Memory) :=
  match (Memory.readMemory a true 4 true mbuf false true).run m with
  | .error f _ => .error f
  | .ok r m' => do
    let bytes := r.2.take 4
    let v ← Step.registerValue m.hostEndianness 0 0
      (if m.hostEndianness then bytes.reverse else bytes)
    wrote s core m' rd ((v.setWidth 32 : U32).setWidth 64)

/-- Two bytes on, with the word `v` stored at `a`. -/
def stored (a : U64) (v : U32) : Except Fault (RiscvState × Memory) :=
  match (Memory.writeMemory a true 4 true
    (Step.registerBytes m.hostEndianness 4 (v.setWidth 64)) false).run m with
  | .error f _ => .error f
  | .ok _ m' => wrote s core m' 0 0

/-- x0 holds no link. -/
theorem jumped_zero (target : U64) (link link' : U32) :
    jumped s core m target 0 link = jumped s core m target 0 link' := rfl

variable {m}

/-- Loads and stores depend on the address modulo 2^32. -/
theorem loaded_congr (hm : m.DefaultRange) {a b : U64} (h : Memory.low32 a = Memory.low32 b)
    (mbuf : List Byte) (rd : U32) : loaded s core m mbuf a rd = loaded s core m mbuf b rd := by
  rw [loaded, loaded, Memory.readMemory_congr hm h (by decide)]

theorem stored_congr (hm : m.DefaultRange) {a b : U64} (h : Memory.low32 a = Memory.low32 b)
    (v : U32) : stored s core m a v = stored s core m b v := by
  rw [stored, stored, Memory.writeMemory_congr hm h (by decide) true true]

end Results

/-! ### Bodies in closed form -/

namespace Step

variable {i : RiscvInstruction}

theorem run_x2 : (x 2).run i = .ok ((i.state.regVal 2).setWidth 32) i := by
  simp only [x, EStateM.run_bind, EStateM.run_get, i.state.gp_eq (by decide : (2 : U32).toNat < 32),
    Effect.run_lift_ok]
  rfl

theorem run_setSp (v : U64) :
    (setSp v).run i = .ok () { i with state := i.state.setReg 2 v } := by
  simp only [setSp, EStateM.run_bind, EStateM.run_get,
    i.state.setGp_eq (by decide : (2 : U32).toNat < 32), Effect.run_lift_ok]
  rfl

theorem run_cAddi (h₁ : i.rs1.toNat < 32) (hd : i.rd.toNat < 32) : (step .cAddi).run i =
    if i.imm = 0 then .error (.sim .illegalInstructionUnimplInstr) i
    else .ok () (i.putRd ((i.rs1Val.setWidth 64 + i.immVal 6).setWidth 32)) := by
  rw [step]
  simp only [EStateM.run_bind, run_imm]
  by_cases h : i.imm = 0
  · rw [if_pos h, if_pos h]
    rfl
  · rw [if_neg h, if_neg h, EStateM.run_bind, run_rs1 h₁]
    simp only
    rw [EStateM.run_bind, run_signExtendImm]
    exact run_setRd hd _

theorem run_cLi (hd : i.rd.toNat < 32) : (step .cLi).run i =
    if i.rd = 0 then .error (.sim .illegalInstructionUnimplInstr) i
    else .ok () (i.putRd ((i.immVal 6).setWidth 32)) := by
  rw [step]
  simp only [EStateM.run_bind, EStateM.run_get]
  by_cases h : i.rd = 0
  · rw [if_pos h, if_pos h]
    rfl
  · rw [if_neg h, if_neg h, EStateM.run_bind, run_signExtendImm]
    exact run_setRd hd _

theorem run_cLui (hd : i.rd.toNat < 32) : (step .cLui).run i =
    if i.rd = 0 ∨ i.rd = 2 then .error (.sim .illegalInstructionUnimplInstr) i
    else .ok () (i.putRd ((signExtend ((i.imm <<< 12).setWidth 64) 17).setWidth 32)) := by
  rw [step]
  simp only [EStateM.run_bind, EStateM.run_get]
  by_cases h : i.rd = 0 ∨ i.rd = 2
  · rw [if_pos h, if_pos h]
    rfl
  · rw [if_neg h, if_neg h, EStateM.run_bind, run_imm]
    exact run_setRd hd _

theorem run_cAddi16sp : (step .cAddi16sp).run i =
    if i.imm = 0 then .error (.sim .illegalInstructionUnimplInstr) i
    else
      let sp : U32 := (i.state.regVal 2).setWidth 32
      .ok () { i with state := i.state.setReg 2 ((sp.setWidth 64 + i.immVal 6) <<< 4) } := by
  rw [step]
  simp only [EStateM.run_bind, run_imm]
  by_cases h : i.imm = 0
  · rw [if_pos h, if_pos h]
    rfl
  · rw [if_neg h, if_neg h, EStateM.run_bind, run_x2]
    simp only
    rw [EStateM.run_bind, run_signExtendImm]
    exact run_setSp _

theorem run_cAddi4spn (hd : i.rd.toNat < 32) : (step .cAddi4spn).run i =
    if i.imm = 0 then .error (.sim .illegalInstructionUnimplInstr) i
    else .ok () (i.putRd (((i.state.regVal 2).setWidth 32 + i.imm) <<< 4)) := by
  rw [step]
  simp only [EStateM.run_bind, run_imm]
  by_cases h : i.imm = 0
  · rw [if_pos h, if_pos h]
    rfl
  · rw [if_neg h, if_neg h, EStateM.run_bind, run_x2]
    simp only
    rw [EStateM.run_bind, run_imm]
    exact run_setRd hd _

theorem run_cLw (h₁ : i.rs1.toNat < 32) : (step .cLw).run i = (do
    setRd ((← memoryRead ((i.rs1Val + i.imm * 4).setWidth 64) 4).setWidth 32) : StepM Unit).run i := by
  rw [step, EStateM.run_bind, run_rs1 h₁]
  simp only
  rw [EStateM.run_bind, run_imm]

theorem run_cSw (h₁ : i.rs1.toNat < 32) (h₂ : i.rs2.toNat < 32) : (step .cSw).run i
    = (memoryWrite ((i.rs1Val + i.imm * 4).setWidth 64) 4 (i.rs2Val.setWidth 64)).run i := by
  rw [step, EStateM.run_bind, run_rs1 h₁]
  simp only
  rw [EStateM.run_bind, run_imm]
  simp only
  rw [EStateM.run_bind, run_rs2 h₂]

theorem run_loadWord (h₁ : i.rs1.toNat < 32) : (load 4 id).run i = (do
    setRd ((← memoryRead (i.rs1Val.setWidth 64 + i.immVal 12) 4).setWidth 32) : StepM Unit).run i := by
  rw [load, EStateM.run_bind, run_effectiveAddress h₁]
  rfl

theorem run_storeWord (h₁ : i.rs1.toNat < 32) (h₂ : i.rs2.toNat < 32) : (store 4).run i
    = (memoryWrite (i.rs1Val.setWidth 64 + i.immVal 12) 4 (i.rs2Val.setWidth 64)).run i := by
  rw [store, EStateM.run_bind, run_effectiveAddress h₁]
  simp only
  rw [EStateM.run_bind, run_rs2 h₂]

/-- The bodies that read `rd`, which their format does not decode. -/
def ReadsRd (c : Iclass) : Prop :=
  c = .cAndi ∨ c = .cSub ∨ c = .cXor ∨ c = .cOr ∨ c = .cAnd

theorem run_uninitialised {c : Iclass} (hd : 32 ≤ i.rd.toNat) (hc : ReadsRd c) :
    (step c).run i = .error .undefined i := by
  have hne : i.rd ≠ 0 := by
    intro h0
    rw [h0] at hd
    exact absurd hd (by decide)
  have hrd : rd.run i = .error .undefined i := by
    simp only [rd, EStateM.run_bind, EStateM.run_get, RiscvState.gp, if_neg hne,
      dif_neg (Nat.not_lt.mpr hd), Effect.run_lift_error]
  rcases hc with rfl | rfl | rfl | rfl | rfl <;> simp only [step, EStateM.run_bind, hrd]

/-- A jump with the C extension on: a trap, or the next PC and a register. -/
def jumpsTo (i : RiscvInstruction) (target : U64) (rd link : U32) :
    EStateM.Result Fault RiscvInstruction Unit :=
  if target &&& 1 ≠ 0 then
    .error (.sim .instructionAddressMisaligned) { i with state := i.state.write .mtval target }
  else .ok () { i with
    nextPc := target.setWidth 32, state := i.state.setReg rd (link.setWidth 64) }

section Jumps

variable (hc : i.state.compressedExtensionEnabled) (target alignment : U64)
include hc

theorem run_setPc_compressed : (setPc target alignment).run i = jumpsTo i target 0 0 := by
  rw [run_setPc, alignmentMask, if_pos hc]
  rfl

theorem run_link (hd : i.rd.toNat < 32) (size : U32) :
    (do setPc target alignment; setRd ((← pc) + size) : StepM Unit).run i
      = jumpsTo i target i.rd (i.state.pc.setWidth 32 + size) := by
  rw [EStateM.run_bind, run_setPc_compressed hc, jumpsTo, jumpsTo]
  split
  · next hodd =>
    split at hodd
    · cases hodd
    · next heven =>
      cases hodd
      rw [if_neg heven, EStateM.run_bind, run_pc]
      exact run_setRd (i := { i with nextPc := target.setWidth 32 }) hd _
  · next hodd =>
    split at hodd
    · next h => cases hodd; rw [if_pos h]
    · cases hodd

theorem run_cJ : (step .cJ).run i
    = jumpsTo i ((i.state.pc.setWidth 32 : U32).setWidth 64 + i.immVal 11) 0 0 := by
  rw [step, EStateM.run_bind, run_pc]
  simp only
  rw [EStateM.run_bind, run_signExtendImm]
  exact run_setPc_compressed hc _ _

theorem run_cJal (hd : i.rd.toNat < 32) : (step .cJal).run i
    = jumpsTo i ((i.state.pc.setWidth 32 : U32).setWidth 64 + i.immVal 11) i.rd
      (i.state.pc.setWidth 32 + 2) := by
  rw [step, EStateM.run_bind, run_pc]
  simp only
  rw [EStateM.run_bind, run_signExtendImm]
  exact run_link hc _ _ hd 2

theorem run_cBeqz (h₁ : i.rs1.toNat < 32) : (step .cBeqz).run i
    = jumpsTo i ((i.state.pc.setWidth 32 : U32).setWidth 64 +
      if i.rs1Val = 0 then i.immVal 8 else 2) 0 0 := by
  simp only [step, EStateM.run_bind, run_rs1 h₁]
  split <;> exact run_setPc_compressed hc _ _

theorem run_jalSized (hd : i.rd.toNat < 32) (size : U32) : (stepSized size .jal).run i
    = jumpsTo i ((i.state.pc.setWidth 32 : U32).setWidth 64 + i.immVal 20) i.rd
      (i.state.pc.setWidth 32 + size) := by
  rw [stepSized, EStateM.run_bind, run_pc]
  simp only
  rw [EStateM.run_bind, run_signExtendImm]
  exact run_link hc _ _ hd size

theorem run_branchSized (h₁ : i.rs1.toNat < 32) (h₂ : i.rs2.toNat < 32) (size : U32)
    (cond : U32 → U32 → Bool) : (branchSized size cond).run i
      = jumpsTo i ((i.state.pc.setWidth 32 : U32).setWidth 64 +
        if cond i.rs1Val i.rs2Val then i.immVal 13 else size.setWidth 64) 0 0 := by
  simp only [branchSized, EStateM.run_bind, run_rs1 h₁, run_rs2 h₂]
  split <;> exact run_setPc_compressed hc _ _

end Jumps

/-- The copy loop of a word does not shift too far. -/
theorem registerValue_ok (bigEndian : Bool) (bs : List Byte) (rval : U64) (k : Nat)
    (h : k + bs.length ≤ 4) : ∃ v, registerValue bigEndian rval k bs = .ok v := by
  induction bs generalizing rval k with
  | nil => exact ⟨rval, rfl⟩
  | cons b bs ih =>
    simp only [List.length_cons] at h
    have hk : k * 8 < 32 := by omega
    cases bigEndian with
    | true => exact ih _ (k + 1) (by omega)
    | false =>
      obtain ⟨v, hv⟩ := ih (rval ||| ((b.setWidth 32 : U32) <<< (k * 8)).signExtend 64) (k + 1)
        (by omega)
      refine ⟨v, ?_⟩
      rw [registerValue, orByte, if_pos hk]
      exact hv

end Step

theorem Memory.readMemory_ok {m : Memory} (hm : m.DefaultRange) (a : U64) (aligned : Bool)
    (buf : List Byte) (init : Bool) :
    ∃ r m', (readMemory a true 4 aligned buf false init).run m = .ok r m' := by
  cases hdev : m.deviceAt (low32 a) with
  | none => exact ⟨_, _, readMemory_run hm hdev (n := 4) (by decide) (by decide) aligned buf init⟩
  | some p =>
    obtain ⟨r, d, hr⟩ := readDeviceMemory_ok p (low32 a) 4 buf m
    exact ⟨r, _, (readPhysicalMemory_device hm hdev 4 buf init).trans hr⟩

/-! ### Objects -/

section Objects

variable {body : Iclass → StepM Unit} {i : RiscvInstruction} {core : RiscvState}

/-- A body that queues nothing and sets a register. -/
theorem runObject_wrote (hnext : i.nextPc = i.state.pc.setWidth 32 + 2) (hops : i.mOpsMemory = [])
    {rd : U32} {v : U64} (h : (body i.decode.iclass).run i.decode
      = .ok () { i.decode with state := i.state.setReg rd v }) :
    runObject body i core = wrote i.state core i.memory rd v := by
  rw [runObject_ok h (n := i.memory)]
  · simp only [i.decode_nextPc, hnext]
    rfl
  · simp only [i.decode_mOpsMemory, i.decode_memory, hops]
    rfl

theorem runObject_refused (hops : i.mOpsMemory = [])
    (h : (body i.decode.iclass).run i.decode
      = .error (.sim .illegalInstructionUnimplInstr) i.decode) :
    runObject body i core = refused i.state core i.memory := by
  rw [runObject_sim h (i.decode.state.illegal_eq (by simp) _) (n := i.memory)]
  · rw [i.decode_state]
    rfl
  · rw [i.decode_mOpsMemory, i.decode_memory, hops]
    rfl

/-- A body that refuses some encodings and sets a register at the others. -/
theorem runObject_guarded (hnext : i.nextPc = i.state.pc.setWidth 32 + 2) (hops : i.mOpsMemory = [])
    {p : Prop} [Decidable p] {rd : U32} {v : U64} (h : (body i.decode.iclass).run i.decode =
      if p then .error (.sim .illegalInstructionUnimplInstr) i.decode
      else .ok () { i.decode with state := i.state.setReg rd v }) :
    runObject body i core = if p then refused i.state core i.memory
      else wrote i.state core i.memory rd v := by
  by_cases hp : p
  · rw [if_pos hp]
    rw [if_pos hp] at h
    exact runObject_refused hops h
  · rw [if_neg hp]
    rw [if_neg hp] at h
    exact runObject_wrote hnext hops h

/-- A body that jumps. -/
theorem runObject_jumped (hops : i.mOpsMemory = []) {target : U64} {rd link : U32}
    (h : (body i.decode.iclass).run i.decode = Step.jumpsTo i.decode target rd link) :
    runObject body i core = jumped i.state core i.memory target rd link := by
  rw [Step.jumpsTo] at h
  rw [jumped]
  split
  · next hodd =>
    rw [if_pos hodd] at h
    rw [runObject_sim h (RiscvState.misaligned_eq _ _) (n := i.memory)]
    · rw [i.decode_state]
      simp [RiscvState.write, RiscvState.legal]
    · simp only [i.decode_mOpsMemory, i.decode_memory, hops]
      rfl
  · next heven =>
    rw [if_neg heven] at h
    rw [runObject_ok h (n := i.memory)]
    · simp only [i.decode_state]
    · simp only [i.decode_mOpsMemory, i.decode_memory, hops]
      rfl

/-- A body that loads a word into `rd`. -/
theorem runObject_loaded (hm : i.memory.DefaultRange)
    (hnext : i.nextPc = i.state.pc.setWidth 32 + 2) (hops : i.mOpsMemory = [])
    (hd : i.decode.rd.toNat < 32) {a : U64} (h : (body i.decode.iclass).run i.decode
      = (do Step.setRd ((← Step.memoryRead a 4).setWidth 32) : StepM Unit).run i.decode) :
    runObject body i core = loaded i.state core i.memory i.mbuf a i.decode.rd := by
  obtain ⟨r, m', hr⟩ := Memory.readMemory_ok hm a true i.mbuf true
  obtain ⟨v, hv⟩ := Step.registerValue_ok i.memory.hostEndianness
    (if i.memory.hostEndianness then (r.2.take 4).reverse else r.2.take 4) 0 0
    (by split <;> simp)
  have hread : (Step.memoryRead a 4).run i.decode = .ok v { i.decode with
      memory := m', mbuf := r.2
      mOpsMemory := [{ address := a, size := 4, isWrite := false }] } := by
    rw [Step.memoryRead, EStateM.run_bind, Step.checkSize, if_pos (by decide), Effect.run_lift_ok]
    simp only
    rw [EStateM.run_bind, EStateM.run_get]
    simp only
    rw [EStateM.run_bind, Step.onMemory, Effect.run_focus, i.decode_mbuf, i.decode_memory]
    rw [Int.cast_ofNat_Int, hr]
    rw [Effect.mapState_ok]
    simp only [Step.setMbuf, EStateM.run_bind, EStateM.run_modify, hv, Effect.run_lift_ok,
      Step.pushBack, EStateM.run_pure, i.decode_mOpsMemory, hops, List.nil_append]
  rw [EStateM.run_bind, hread] at h
  simp only at h
  rw [Step.run_setRd (by exact hd)] at h
  rw [runObject_ok h (n := m') rfl, loaded, hr]
  simp only [hv, RiscvInstruction.putRd, i.decode_state, i.decode_nextPc, hnext]
  rfl

/-- A body that stores a word. -/
theorem runObject_stored (hm : i.memory.DefaultRange)
    (hnext : i.nextPc = i.state.pc.setWidth 32 + 2) (hops : i.mOpsMemory = [])
    {a : U64} {v : U32} (h : (body i.decode.iclass).run i.decode
      = (Step.memoryWrite a 4 (v.setWidth 64)).run i.decode) :
    runObject body i core = stored i.state core i.memory a v := by
  have hwrite : (Step.memoryWrite a 4 (v.setWidth 64)).run i.decode = .ok () { i.decode with
      mbuf := Memory.overlay (Step.registerBytes i.memory.hostEndianness 4 (v.setWidth 64)) i.mbuf
      mOpsMemory := [{ address := a, size := 4, isWrite := true, membuffer :=
        Step.registerBytes i.memory.hostEndianness 4 (v.setWidth 64) }] } := by
    rw [Step.memoryWrite, EStateM.run_bind, Step.checkSize, if_pos (by decide), Effect.run_lift_ok]
    simp only
    rw [EStateM.run_bind, EStateM.run_get]
    simp only [Step.setMbuf, EStateM.run_bind, EStateM.run_modify, Step.pushBack, i.decode_mbuf,
      i.decode_memory, i.decode_mOpsMemory, hops, List.nil_append]
  rw [hwrite] at h
  rw [stored, Memory.writeMemory_congr hm rfl (by decide) true
    (MemoryAccess.aligned ⟨a, 4, true, Step.registerBytes i.memory.hostEndianness 4 (v.setWidth 64)⟩)]
  rw [runObject, Step.run_executeWith, h]
  simp only [writeback_run, writebackOps, if_true, EStateM.run_bind, i.decode_memory,
    i.decode_state, i.decode_nextPc, hnext]
  generalize EStateM.run (Memory.writeMemory a true _ _ _ _) i.memory = result
  cases result <;> rfl

end Objects

end Dimebox
