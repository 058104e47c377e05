import Dimebox.ManualHarts

/-! One instruction of the simulator as a step of a hart.

    `Execute` and the queued stores of `Writeback` do to the lower words of PC and registers, and to
    the bytes of RAM, what the hart does. The accesses of an instruction are listed, so that the bytes
    it found can be named afterwards. -/

namespace Dimebox

open RiscvInstruction (new)
open Manual (operand regNo)

/-- Executing `w` as `c` returns and its stores reach memory, leaving `i'` and `p`; the rest of the
    core and of memory is as before, and `accesses` are what it did to the bytes. -/
structure Executes (junk : Junk) (c : Iclass) (s : RiscvState) (m : Memory) (w : U32)
    (accesses : List (Cells.Access U64 Byte)) (i' : RiscvInstruction) (p : PhysicalMemory) :
    Prop where
  run : Step.execute.run (new junk c s m w) = .ok () i'
  state : i'.state = { s with pc := i'.state.pc, x := i'.state.x }
  narrow : i'.state.pc = i'.state.hart.pc.setWidth 64
  stores : (writebackOps i'.mOpsMemory).run i'.memory = .ok () { m with physMem := p }
  cells : Cells.Run m.physMem.seen accesses p.seen

/-- The hart of `s` goes where `Execute` goes, from any bytes that explain the accesses. -/
def FollowsHart (junk : Junk) (c : Iclass) (s : RiscvState) (m : Memory) (w : U32) : Prop :=
  ∃ accesses i' p, Executes junk c s m w accesses i' p ∧ ∀ bytes : U64 → Byte,
    Cells.Explains bytes accesses → s.hart.execute (Manual.low bytes) c w
      = some (i'.state.hart, Manual.low (Cells.after bytes accesses))

section OneWord

variable {junk : Junk} {c : Iclass} {s : RiscvState} {m : Memory} {w : U32} {i' : RiscvInstruction}

/-- An instruction that leaves memory alone. -/
theorem follows_of_quiet (hrun : Step.execute.run (new junk c s m w) = .ok () i')
    (hstate : i'.state = { s with pc := i'.state.pc, x := i'.state.x })
    (hnarrow : i'.state.pc = i'.state.hart.pc.setWidth 64) (hmem : i'.memory = m)
    (hops : i'.mOpsMemory = [])
    (hhart : ∀ bytes, s.hart.execute bytes c w = some (i'.state.hart, bytes)) :
    FollowsHart junk c s m w := by
  refine ⟨[], i', m.physMem, ⟨hrun, hstate, hnarrow, ?_, .nil (.refl _)⟩, fun bytes _ => hhart _⟩
  rw [hops, hmem]
  rfl

/-- The hart of a state that wrote `rd` and went to `t`. -/
theorem hart_wrote (t : U64) (v : U32) : RiscvState.hart { s with
    pc := t, x := fun r => if r = regNo w 7 ∧ r ≠ 0 then v.setWidth 64 else s.x r }
      = { s.hart.putRd w v with pc := t.setWidth 32 } := by
  rw [RiscvState.hart, Manual.Hart.putRd]
  congr 1
  funext r
  dsimp only [RiscvState.hart]
  split
  · simp
  · rfl

theorem follows_of_computes {v : U32} (h : Computes junk c s m w v)
    (hhart : ∀ bytes, s.hart.execute bytes c w
      = some ({ s.hart.putRd w v with pc := s.hart.pc + 4 }, bytes)) : FollowsHart junk c s m w := by
  obtain ⟨i', hrun, hstate, hmem, hops⟩ := h
  refine follows_of_quiet hrun ?_ ?_ hmem hops fun bytes => ?_
  · rw [hstate]
  · rw [hstate, ← pc_succ_eq]
    simp
  · have hpc : (BitVec.ofNat 64 ((s.pc.toNat + 4) % 2 ^ 32)).setWidth 32 = s.hart.pc + 4 := by
      rw [← pc_succ_eq]
      simp [RiscvState.hart]
    rw [hhart, hstate, hart_wrote, hpc]

/-! ### Transfers -/

theorem and_three_eq_zero_iff (a : U32) : a &&& 3 = 0 ↔ 4 ∣ a.toNat := by
  have hmod : (a &&& 3).toNat = a.toNat % 4 := by
    rw [BitVec.toNat_and]
    exact Nat.and_two_pow_sub_one_eq_mod a.toNat 2
  rw [← BitVec.toNat_inj, hmod]
  exact Nat.dvd_iff_mod_eq_zero.symm

theorem aligned_of_and {t : U32} (h : t &&& 3 = 0) : s.Aligned (t.setWidth 64) := by
  have h4 := (and_three_eq_zero_iff t).mp h
  have hnat : (t.setWidth 64 : U64).toNat = t.toNat := BitVec.toNat_setWidth_of_le (by omega)
  rw [RiscvState.Aligned, hnat]
  exact ⟨by omega, fun _ => h4⟩

theorem follows_of_goesTo (h : GoesTo junk c s m w (s.hart.destination c w))
    (hc : Manual.transfers c) (ha : s.hart.destination c w &&& 3 = 0) : FollowsHart junk c s m w := by
  obtain ⟨i', hrun, hstate, hmem, hops⟩ := h
  refine follows_of_quiet hrun ?_ ?_ hmem hops fun bytes => ?_
  · rw [hstate]
  · rw [hstate]
    simp
  · rw [Manual.Hart.execute, if_pos hc, if_pos ha, hstate]
    simp only [Option.some.injEq, Prod.mk.injEq, and_true]
    cases hl : c.links with
    | false => simp [RiscvState.hart]
    | true =>
      simp only [true_and, if_true]
      rw [hart_wrote]
      simp [RiscvState.hart]

/-- A JAL whose offset has 20 bits. -/
theorem follows_jal (hfar : w.getLsbD 31 = w.getLsbD 19)
    (ha : s.hart.destination .jal w &&& 3 = 0) : FollowsHart junk .jal s m w := by
  have hdest : s.hart.destination .jal w
      = s.pc.setWidth 32 + ((Manual.immJ w).setWidth 20).signExtend 32 := by
    obtain ⟨h20, h19⟩ := getLsbD_immJ w
    rw [← h20, ← h19, ← signExtend_immJ_iff] at hfar
    rw [hfar]
    rfl
  refine follows_of_goesTo ?_ rfl ha
  rw [hdest] at ha ⊢
  exact transfersTo_jal.1 (aligned_of_and ha)

/-- The branches and JALR. -/
theorem follows_branches (hc : c.branches) (ha : s.hart.destination c w &&& 3 = 0) :
    FollowsHart junk c s m w := by
  have hjump : c.isJump ∧ c.instrSize = 4 ∧
      (c.links → (new junk c s m w).decode.rd = field w 7 0x1f) := by
    cases c <;> simp only [Iclass.branches, Bool.false_eq_true] at hc
    case jalr => exact ⟨rfl, rfl, fun _ => rfl⟩
    all_goals exact ⟨rfl, rfl, by rintro ⟨⟩⟩
  have htransfer : TransfersTo junk c s m w _ := transfersTo_jumpTarget hjump.1 hjump.2.1 hjump.2.2
  rw [jumpTarget_branches hc] at htransfer
  exact follows_of_goesTo (htransfer.1 (aligned_of_and ha))
    (by rw [Manual.transfers, hc, Bool.or_true]) ha

/-! ### Computations -/

/-- Truncating division, the overflow included. -/
theorem divValue_eq {a b : U32} (hb : b ≠ 0) :
    divValue a b = BitVec.ofInt 32 (a.toInt.tdiv b.toInt) := by
  by_cases ho : Manual.Overflows a b
  · rw [divValue_overflow ho]
    obtain ⟨rfl, rfl⟩ := ho
    decide
  · rw [← toInt_divValue hb ho, BitVec.ofInt_toInt]

theorem remValue_eq {a b : U32} (hb : b ≠ 0) :
    remValue a b = BitVec.ofInt 32 (a.toInt.tmod b.toInt) := by
  by_cases ho : Manual.Overflows a b
  · rw [remValue_overflow ho]
    obtain ⟨rfl, rfl⟩ := ho
    decide
  · rw [← toInt_remValue hb ho, BitVec.ofInt_toInt]

theorem computes_div : Computes junk .div s m w (if operand s (regNo w 20) = 0 then 0xffffffff
    else BitVec.ofInt 32
      ((operand s (regNo w 15)).toInt.tdiv (operand s (regNo w 20)).toInt)) := by
  have h : Computes junk .div s m w
      (divValue (operand s (regNo w 15)) (operand s (regNo w 20))) := computes_alu rfl rfl
  split
  · next hb => rwa [hb] at h
  · next hb => rwa [divValue_eq hb] at h

theorem computes_rem : Computes junk .rem s m w
    (if operand s (regNo w 20) = 0 then operand s (regNo w 15)
    else BitVec.ofInt 32
      ((operand s (regNo w 15)).toInt.tmod (operand s (regNo w 20)).toInt)) := by
  have h : Computes junk .rem s m w
      (remValue (operand s (regNo w 15)) (operand s (regNo w 20))) := computes_alu rfl rfl
  split
  · next hb => rwa [hb, remValue_zero] at h
  · next hb => rwa [remValue_eq hb] at h

/-- A shift by less than 32. -/
theorem computes_shift (k : Shift) (hn : (operand s (regNo w 20)).toNat < 32) :
    Computes junk k.byRegister s m w
      (k.value (operand s (regNo w 15)) ((operand s (regNo w 20)).toNat % 32)) := by
  have h : Computes junk k.byRegister s m w _ := computes_byRegister hn
  rwa [Shift.body_eq _ hn, ← Nat.mod_eq_of_lt hn] at h

/-- The products. -/
theorem computes_product {f : U32 → U32 → U32} (hc : c.format = .r) (hs : Step.step c = Step.alu f)
    {v : U32} (hv : f (operand s (regNo w 15)) (operand s (regNo w 20)) = v) :
    Computes junk c s m w v := hv ▸ computes_alu hc hs

/-- Every integer instruction writes what the manual computes. -/
theorem computes_computed {v : U32} (hf : s.hart.followed c w)
    (hv : Manual.computed c w s.hart.pc (operand s (regNo w 15)) (operand s (regNo w 20)) = some v) :
    Computes junk c s m w v := by
  cases c <;> simp only [Manual.computed, Manual.result, Option.some.injEq, reduceCtorEq] at hv <;>
    subst hv
  case remu => simp [Manual.Hart.followed] at hf
  case sll => exact computes_shift .left (of_decide_eq_true hf)
  case srl => exact computes_shift .right (of_decide_eq_true hf)
  case sra => exact computes_shift .arithmetic (of_decide_eq_true hf)
  case div => exact computes_div
  case rem => exact computes_rem
  case divu => exact computes_divu
  case mul => exact computes_product rfl rfl (lowWord_eq _ _)
  case mulh => exact computes_product rfl rfl (mulh_value _ _)
  case mulhsu => exact computes_product rfl rfl (mulhsu_value _ _)
  case mulhu => exact computes_product rfl rfl (mulhu_value _ _)
  case add | sub | xor | or | and => exact computes_alu rfl rfl
  case slt => exact computes_alu (f := fun a b => Step.bit (a.slt b)) rfl rfl
  case sltu => exact computes_alu (f := fun a b => Step.bit (a.ult b)) rfl rfl
  case addi => exact computes_aluImm rfl rfl addImm_eq
  case slti =>
    exact computes_aluImm (g := fun a imm => Step.bit (a.slt imm)) rfl rfl fun _ _ => rfl
  case sltiu =>
    exact computes_aluImm (g := fun a imm => Step.bit (a.ult imm)) rfl rfl fun _ _ => rfl
  case xori | ori | andi => exact computes_aluImm rfl rfl fun _ _ => rfl
  case slli | srli => exact computes_shiftImm rfl rfl
  case srai =>
    rw [← sra_eq _ (shamt_lt w)]
    exact computes_shiftImm rfl rfl
  case lui => exact computes_upper (f := fun _ imm => imm) rfl rfl
  case auipc => exact computes_upper rfl rfl

/-- A class that computes is none of the others. -/
theorem execute_of_computed {v : U32}
    (hv : Manual.computed c w s.hart.pc (s.hart.rs1 w) (s.hart.rs2 w) = some v)
    (bytes : U32 → Byte) : s.hart.execute bytes c w
      = some ({ s.hart.putRd w v with pc := s.hart.pc + 4 }, bytes) := by
  rw [Manual.Hart.execute, hv]
  cases c <;> first | rfl | cases hv

/-! ### Fences, loads and stores -/

/-- FENCE and FENCE.I only go on. -/
theorem follows_fence (hc : c = .fence ∨ c = .fenceI) : FollowsHart junk c s m w := by
  have hstep : Step.step c = pure () := by rcases hc with rfl | rfl <;> rfl
  have hsize : c.instrSize = 4 := by rcases hc with rfl | rfl <;> rfl
  have hnot : Manual.transfers c = false := by rcases hc with rfl | rfl <;> rfl
  have hrun : (Step.step (new junk c s m w).decode.iclass).run (new junk c s m w).decode
      = .ok () (new junk c s m w).decode := by
    rw [RiscvInstruction.decode_iclass, RiscvInstruction.new_iclass, hstep]
    rfl
  refine follows_of_quiet (Step.execute_of_ok hrun) (by simp [RiscvState.setPc])
    (by simp [RiscvState.setPc]) (by simp) (by simp) fun bytes => ?_
  have hnext : (new junk c s m w).nextPc = s.pc.setWidth 32 + 4 := by rw [← hsize]; rfl
  rw [Manual.Hart.execute, hnot, if_neg (by decide), if_pos hc]
  simp [RiscvState.hart, RiscvState.setPc, hnext]

/-- The address an object computes is the one of the hart. -/
theorem low32_rs1Address {i : RiscvInstruction} (imm : U32)
    (hrs1 : i.rs1Val = operand s (regNo w 15)) (himm : (i.immVal 12).setWidth 32 = imm)
    (hkind : imm = if (Manual.storeKind c).isSome then Manual.immS w else Manual.immI w) :
    Memory.low32 (i.rs1Val.setWidth 64 + i.immVal 12) = (s.hart.address c w).setWidth 64 := by
  rw [low32_effectiveAddress, hrs1, himm, hkind]
  rfl

/-- A load reads its bytes and writes `rd`. -/
theorem follows_load {size : Nat} {signed : Bool} (hm : m.LittleRam)
    (hdev : ∀ a, m.deviceAt a = none) (hk : Manual.loadKind c = some (size, signed))
    (hin : (s.hart.address c w).toNat + size ≤ 2 ^ 32) : FollowsHart junk c s m w := by
  obtain ⟨hformat, hnostore, hsize⟩ := format_of_loadKind hk
  have hnot : Manual.transfers c = false ∧ c ≠ .fence ∧ c ≠ .fenceI ∧ c.instrSize = 4 := by
    cases c <;> cases hk
    all_goals exact ⟨rfl, by decide, by decide, rfl⟩
  obtain ⟨i, hi⟩ : ∃ i, i = (new junk c s m w).decode := ⟨_, rfl⟩
  have hdec := decode_itype junk s m w hformat
  rw [← hi] at hdec
  have hmem : i.memory = m := by rw [hi]; simp
  have hops : i.mOpsMemory = [] := by rw [hi]; simp
  have hstate : i.state = s := by rw [hi]; simp
  have hrd : i.rd = field w 7 0x1f := by rw [hdec]
  have hnext : i.nextPc = s.pc.setWidth 32 + 4 := by rw [hdec, ← hnot.2.2.2]; rfl
  have haddr : Memory.low32 (i.rs1Val.setWidth 64 + i.immVal 12)
      = (s.hart.address c w).setWidth 64 := by
    refine low32_rs1Address (Manual.immI w) ?_ ?_ (by rw [hnostore]; rfl)
    · rw [RiscvInstruction.rs1Val, hdec]
      exact operand_eq s w 15
    · rw [RiscvInstruction.immVal, hdec]
      exact immI_eq w
  generalize ha : (s.hart.address c w).setWidth 64 = a at haddr
  have hlen := PhysicalMemory.length_pullBytes true size m.physMem a
  obtain ⟨ext, hstep, hval⟩ := step_load hk hlen
  have hload := Step.run_load (i := i) (hmem ▸ hm) ext hsize
    (by rw [hdec]; exact field_toNat_lt w 15) (by rw [hrd]; exact field_toNat_lt w 7)
    (by rw [hmem]; exact hdev _)
  simp only [haddr, hmem, hval] at hload
  have hbody : (Step.step (new junk c s m w).decode.iclass).run (new junk c s m w).decode
      = .ok () ((Step.afterRead i (i.rs1Val.setWidth 64 + i.immVal 12) size).putRd
          (Manual.extend size signed (Manual.little (m.physMem.pullBytes a true size).1))) := by
    rw [RiscvInstruction.decode_iclass, ← hi, RiscvInstruction.new_iclass, hstep]
    exact hload
  have hset : ∀ v : U64, ((Step.afterRead i (i.rs1Val.setWidth 64 + i.immVal 12) size).state.setReg
      (Step.afterRead i (i.rs1Val.setWidth 64 + i.immVal 12) size).rd v)
        = s.setReg (field w 7 0x1f) v := by
    intro v
    simp only [Step.afterRead, hstate, hrd]
  refine ⟨_, _, (m.physMem.pullBytes a true size).2.2, ⟨Step.execute_of_ok hbody, ?_,
    by simp [RiscvState.setPc], ?_, PhysicalMemory.run_pullBytes true size m.physMem a⟩,
    fun bytes hexp => ?_⟩
  · simp only [RiscvInstruction.putRd, hset, setReg_field, RiscvState.setPc]
  · simp only [RiscvInstruction.putRd, Step.afterRead, hops, List.nil_append, haddr, hmem]
    rfl
  · rw [Cells.explains_reads _ _ _ (by simp), span_eq_map, List.map_map] at hexp
    have hbytes : Manual.loadBytes (Manual.low bytes) (s.hart.address c w) size
        = (m.physMem.pullBytes a true size).1 := by
      rw [Manual.loadBytes_low _ hin, ha, hexp]
      rfl
    rw [Cells.after_reads, Manual.Hart.execute, hnot.1, if_neg (by decide),
      if_neg (by simp [hnot.2.1, hnot.2.2.1]), hk]
    simp only [hbytes, RiscvInstruction.putRd, hset, setReg_field, RiscvState.setPc]
    simp only [Step.afterRead, hstate]
    rw [hart_wrote, hnext]
    simp [RiscvState.hart]

/-- A store leaves its bytes. -/
theorem follows_store {size : Nat} (hm : m.LittleRam) (hdev : ∀ a, m.deviceAt a = none)
    (hk : Manual.storeKind c = some size) (hin : (s.hart.address c w).toNat + size ≤ 2 ^ 32) :
    FollowsHart junk c s m w := by
  obtain ⟨hformat, hnoload, hsize, hstep⟩ := format_of_storeKind hk
  have hnot : Manual.transfers c = false ∧ c ≠ .fence ∧ c ≠ .fenceI ∧ c.instrSize = 4 := by
    cases c <;> cases hk
    all_goals exact ⟨rfl, by decide, by decide, rfl⟩
  obtain ⟨i, hi⟩ : ∃ i, i = (new junk c s m w).decode := ⟨_, rfl⟩
  have hdec := decode_stype junk s m w hformat
  rw [← hi] at hdec
  have hmem : i.memory = m := by rw [hi]; simp
  have hops : i.mOpsMemory = [] := by rw [hi]; simp
  have hstate : i.state = s := by rw [hi]; simp
  have hnext : i.nextPc = s.pc.setWidth 32 + 4 := by rw [hdec, ← hnot.2.2.2]; rfl
  have hrs2 : i.rs2Val = operand s (regNo w 20) := by
    rw [RiscvInstruction.rs2Val, hdec]
    exact operand_eq s w 20
  have haddr : Memory.low32 (i.rs1Val.setWidth 64 + i.immVal 12)
      = (s.hart.address c w).setWidth 64 := by
    refine low32_rs1Address (Manual.immS w) ?_ ?_ (by rw [hk]; rfl)
    · rw [RiscvInstruction.rs1Val, hdec]
      exact operand_eq s w 15
    · rw [RiscvInstruction.immVal, hdec]
      exact immS_eq w
  generalize ha : (s.hart.address c w).setWidth 64 = a at haddr
  obtain ⟨vs, hvs⟩ : ∃ vs, vs = Manual.bytesOf size (operand s (regNo w 20)) := ⟨_, rfl⟩
  have hlen : vs.length = size := by rw [hvs]; simp [Manual.bytesOf]
  obtain ⟨mbuf, hstore⟩ := Step.run_store (i := i) (hmem ▸ hm) hsize
    (by rw [hdec]; exact field_toNat_lt w 15) (by rw [hdec]; exact field_toNat_lt w 20)
  have hbody : (Step.step (new junk c s m w).decode.iclass).run (new junk c s m w).decode
      = .ok () { i with
        mbuf := mbuf
        mOpsMemory := i.mOpsMemory ++ [{
          address := i.rs1Val.setWidth 64 + i.immVal 12, size, isWrite := true
          membuffer := Step.registerBytes false size (i.rs2Val.setWidth 64) }] } := by
    rw [RiscvInstruction.decode_iclass, ← hi, RiscvInstruction.new_iclass, hstep]
    exact hstore
  refine ⟨_, _, m.physMem.putBytes a false vs, ⟨Step.execute_of_ok hbody, ?_,
    by simp [RiscvState.setPc], ?_, PhysicalMemory.run_putBytes false vs m.physMem a⟩,
    fun bytes _ => ?_⟩
  · simp only [hstate, RiscvState.setPc]
  · have hbuf : size ≤ vs.length := by omega
    have hwrite := Memory.writeMemory_run (a := i.rs1Val.setWidth 64 + i.immVal 12) hm.range
      (hdev _) (by omega) (by omega) hbuf
    rw [List.take_of_length_le (Nat.le_of_eq hlen), haddr] at hwrite
    simp only [hops, List.nil_append, registerBytes_eq, hrs2]
    rw [hmem, writebackOps]
    simp only [if_true]
    rw [EStateM.run_bind, ← hvs, hwrite]
    rfl
  · have hvs' : Manual.bytesOf size (s.hart.rs2 w) = vs := hvs.symm
    rw [after_writes _ _ _ (by omega), Manual.Hart.execute, hnot.1, if_neg (by decide),
      if_neg (by simp [hnot.2.1, hnot.2.2.1]), hk, hnoload]
    simp only [hvs', ← ha]
    rw [Manual.storeBytes_low _ (by omega)]
    simp only [hstate, RiscvState.setPc, hnext, RiscvState.hart]
    simp

/-! ### Every instruction -/

/-- Where the hart executes `w`, so does the simulator. -/
theorem follows_of_execute (hm : m.LittleRam) (hdev : ∀ a, m.deviceAt a = none)
    (hf : s.hart.followed c w) {bytes : U32 → Byte} (h : (s.hart.execute bytes c w).isSome) :
    FollowsHart junk c s m w := by
  rw [Manual.Hart.execute] at h
  by_cases htransfers : Manual.transfers c
  · rw [if_pos htransfers] at h
    by_cases ha : s.hart.destination c w &&& 3 = 0
    · rcases (Bool.or_eq_true _ _).mp htransfers with hjal | hbranches
      · obtain rfl := of_decide_eq_true hjal
        exact follows_jal (of_decide_eq_true hf) ha
      · exact follows_branches hbranches ha
    · rw [if_neg ha] at h
      cases h
  rw [if_neg htransfers] at h
  by_cases hfence : c = .fence ∨ c = .fenceI
  · exact follows_fence hfence
  rw [if_neg hfence] at h
  have hin : ∀ size, Manual.accessSize c = some size →
      (s.hart.address c w).toNat + size ≤ 2 ^ 32 := by
    intro size hs
    cases c <;> cases hs
    all_goals exact of_decide_eq_true hf
  cases hload : Manual.loadKind c with
  | some k =>
    obtain ⟨size, signed⟩ := k
    exact follows_load hm hdev hload (hin size (by rw [Manual.accessSize, hload]))
  | none =>
    cases hstore : Manual.storeKind c with
    | some size =>
      exact follows_store hm hdev hstore (hin size (by rw [Manual.accessSize, hload, hstore]))
    | none =>
      rw [hload, hstore, Option.isSome_map] at h
      obtain ⟨v, hv⟩ := Option.isSome_iff_exists.mp h
      exact follows_of_computes (computes_computed hf hv) (execute_of_computed hv)

end OneWord

end Dimebox
