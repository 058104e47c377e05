import Dimebox.Expansion
import Dimebox.PcAlignment

/-! Jumps and branches against the manual.

    The manual adds an offset of 13 or 21 bits to the PC, modulo 2^32; a transfer to an address the
    core may not fetch from traps on the instruction itself. The bodies form 64-bit sums from
    immediates put together out of four fields each. For the branches and JALR the two agree; the
    J-immediate of `Decode` has no bit 20, and JAL extends it from bit 19. -/

namespace Dimebox

namespace Manual

/-! ### What the manual says -/

/-- B-immediate. -/
def immB (w : U32) : BitVec 13 :=
  w.extractLsb' 31 1 ++ w.extractLsb' 7 1 ++ w.extractLsb' 25 6 ++ w.extractLsb' 8 4 ++ 0#1

/-- J-immediate. -/
def immJ (w : U32) : BitVec 21 :=
  w.extractLsb' 31 1 ++ w.extractLsb' 12 8 ++ w.extractLsb' 20 1 ++ w.extractLsb' 21 10 ++ 0#1

/-- Whether the transfer is taken for these operands. -/
def taken (c : Iclass) (a b : U32) : Bool :=
  match c with
  | .beq => a = b
  | .bne => a ≠ b
  | .blt => a.slt b
  | .bltu => a.ult b
  | .bge => !a.slt b
  | .bgeu => !a.ult b
  | _ => true

/-- Where a taken transfer goes. -/
def target (c : Iclass) (w pc a : U32) : U32 :=
  match c with
  | .jal => pc + (immJ w).signExtend 32
  | .jalr => (a + immI w) &&& ~~~1
  | _ => pc + (immB w).signExtend 32

end Manual

/-- Execution goes to `t` and sets `rd` to the address after a JAL or JALR; nothing else changes. -/
def GoesTo (junk : Junk) (c : Iclass) (s : RiscvState) (m : Memory) (w t : U32) : Prop :=
  ∃ i', Step.execute.run (.new junk c s m w) = .ok () i' ∧
    i'.state = { s with
      pc := t.setWidth 64
      x := fun r => if c.links ∧ r = Manual.regNo w 7 ∧ r ≠ 0
        then (s.pc.setWidth 32 + 4 : U32).setWidth 64 else s.x r } ∧
    i'.memory = m ∧ i'.mOpsMemory = []

/-- The state after a refused transfer to `t`: a trap of cause 0 on the instruction. -/
structure Refuses (s : RiscvState) (t : U32) (s' : RiscvState) : Prop where
  pc : s'.pc = s.mtvec
  x : s'.x = s.x
  mcause : s'.mcause = 0
  mepc : s'.mepc = s.pc
  mtval : (s'.reg .mtval).setWidth 32 = t
  level : s'.currentPrivilegeLevel = 3

/-- Execution transfers control to `t`: it goes there if the core may fetch from `t` and traps if it
    may not. -/
def TransfersTo (junk : Junk) (c : Iclass) (s : RiscvState) (m : Memory) (w t : U32) : Prop :=
  (s.Aligned (t.setWidth 64) → GoesTo junk c s m w t) ∧
    (¬ s.Aligned (t.setWidth 64) → ∃ i', Step.execute.run (.new junk c s m w) = .ok () i' ∧
      Refuses s t i'.state ∧ i'.memory = m ∧ i'.mOpsMemory = [])

/-! ### Jumps of four bytes -/

section Jumps

open RiscvInstruction (new)

variable {junk : Junk} {c : Iclass} {s : RiscvState} {m : Memory} {w : U32} {i : RiscvInstruction}

/-- The test of `SetPC` is the one of the manual. -/
theorem mask_eq_zero_iff (s : RiscvState) (target : U64) :
    target &&& Step.alignmentMask s ((4 : U32).setWidth 64) = 0
      ↔ s.Aligned ((target.setWidth 32 : U32).setWidth 64) := by
  refine ⟨RiscvState.Aligned.of_mask (.inl rfl), ?_⟩
  rintro ⟨h2, h4⟩
  rw [BitVec.toNat_setWidth, BitVec.toNat_setWidth] at h2 h4
  rw [Step.alignmentMask]
  split
  · exact (RiscvState.and_one_eq_zero target).mpr (by omega)
  · next hc =>
    have hdvd := h4 (Bool.not_eq_true _ ▸ hc)
    exact (RiscvState.and_three_eq_zero target).mpr (by omega)

/-- An accepted jump sets the next PC, and then `rd` if it links. -/
theorem run_jump_accepted (hsize : i.iclass.instrSize = 4) (hrd : i.iclass.links → i.rd.toNat < 32)
    (h : i.jumpTarget &&& Step.alignmentMask i.state ((4 : U32).setWidth 64) = 0) :
    (Step.jump i).run i = .ok () (if i.iclass.links
      then { i with nextPc := i.jumpTarget.setWidth 32 }.putRd (i.state.pc.setWidth 32 + 4)
      else { i with nextPc := i.jumpTarget.setWidth 32 }) := by
  have hset := Step.run_setPc i.jumpTarget ((4 : U32).setWidth 64) i
  rw [if_neg (not_not_intro h)] at hset
  rw [Step.jump, hsize]
  split
  · next hl =>
    have hrun := Step.run_setRd (i := { i with nextPc := i.jumpTarget.setWidth 32 }) (hrd hl)
      (i.state.pc.setWidth 32 + 4)
    rw [EStateM.run_bind, hset]
    dsimp only
    rw [EStateM.run_bind, Step.run_pc]
    exact hrun
  · exact hset

/-- A jump goes where `SetPC` is told to, reduced to 32 bits. -/
theorem transfersTo_jumpTarget (hc : c.isJump) (hsize : c.instrSize = 4)
    (hrd : c.links → (new junk c s m w).decode.rd = field w 7 0x1f) :
    TransfersTo junk c s m w ((new junk c s m w).decode.jumpTarget.setWidth 32) := by
  have hstep := Step.step_jump (i := new junk c s m w) hc
  have hclass : (new junk c s m w).decode.iclass = c := RiscvInstruction.decode_iclass _
  have hstate : (new junk c s m w).decode.state = s := RiscvInstruction.decode_state _
  have hmemory : (new junk c s m w).decode.memory = m := RiscvInstruction.decode_memory _
  have hops : (new junk c s m w).decode.mOpsMemory = [] := RiscvInstruction.decode_mOpsMemory _
  have hreturn := @Step.execute_of_ok (new junk c s m w)
  have hthrow := @Step.execute_of_sim (new junk c s m w)
  rw [RiscvInstruction.new_iclass] at hstep
  rw [hclass, hstep] at hreturn hthrow
  generalize (new junk c s m w).decode = j at *
  subst hclass hstate hmemory
  constructor
  · intro ha
    refine ⟨_, hreturn (run_jump_accepted hsize ?_ ((mask_eq_zero_iff _ _).mpr ha)), ?_, ?_, ?_⟩
    · intro hl
      rw [hrd hl]
      exact field_toNat_lt w 7
    · split
      · next hl =>
        simp only [RiscvInstruction.putRd, hrd hl, setReg_field, RiscvState.setPc]
        congr 1
        funext r
        simp [hl]
      · next hl =>
        simp only [RiscvState.setPc]
        congr 1
        funext r
        simp [hl]
    · split <;> rfl
    · split <;> exact hops
  · intro ha
    have hmask := Step.run_jump_misaligned (i := j)
      (by rw [hsize]; exact fun h => ha ((mask_eq_zero_iff _ _).mp h))
    rw [hthrow hmask, Step.run_exception_of_ok (RiscvState.misaligned_eq _ _)]
    refine ⟨_, rfl, ⟨rfl, rfl, RiscvState.reg_trapState_mcause _ _ _,
      RiscvState.reg_trapState_mepc _ _ _, ?_, RiscvState.level_trapState _ _ _⟩, rfl, hops⟩
    have hmtval : (j.state.write .mtval j.jumpTarget).reg .mtval = j.jumpTarget := by
      simp [RiscvState.write, RiscvState.legal]
    exact congrArg (BitVec.setWidth 32) ((RiscvState.reg_trapState_mtval _ _ _).trans hmtval)

/-- Where a transfer goes is determined by it, up to a multiple of four. -/
theorem TransfersTo.unique {t t' : U32} (h : TransfersTo junk c s m w t)
    (h' : TransfersTo junk c s m w t') (hmod : t.toNat % 4 = t'.toNat % 4) : t = t' := by
  have haligned : s.Aligned (t.setWidth 64) ↔ s.Aligned (t'.setWidth 64) := by
    constructor
    · intro ha
      refine ha.of_mod ?_
      rw [BitVec.toNat_setWidth, BitVec.toNat_setWidth]
      omega
    · intro ha
      refine ha.of_mod ?_
      rw [BitVec.toNat_setWidth, BitVec.toNat_setWidth]
      omega
  by_cases ha : s.Aligned (t.setWidth 64)
  · obtain ⟨i, hi, hs, -⟩ := h.1 ha
    obtain ⟨i', hi', hs', -⟩ := h'.1 (haligned.mp ha)
    have hii : i = i' := by rw [hi] at hi'; injection hi'
    have hpc := congrArg (fun u : RiscvState => (u.pc.setWidth 32 : U32)) ((hii ▸ hs).symm.trans hs')
    simpa using hpc
  · obtain ⟨i, hi, hs, -⟩ := h.2 ha
    obtain ⟨i', hi', hs', -⟩ := h'.2 fun ha' => ha (haligned.mpr ha')
    have hii : i = i' := by rw [hi] at hi'; injection hi'
    rw [← hs.mtval, ← hs'.mtval, hii]

/-! ### JAL -/

/-- The J-immediate as `Decode` puts it together. -/
theorem decode_immJ (w : U32) : ((field w 12 0xff <<< 12) ||| (field w 20 1 <<< 11) |||
    (field w 25 0x3f <<< 5) ||| (field w 21 0xf <<< 1)).toNat
      = ((Manual.immJ w).setWidth 20).toNat := by
  have h12 : (field w 12 0xff).toNat = (w.extractLsb' 12 8).toNat := field_toNat w 12 8 (by omega)
  have h20 : (field w 20 1).toNat = (w.extractLsb' 20 1).toNat := field_toNat w 20 1 (by omega)
  have h25 : (field w 25 0x3f).toNat = (w.extractLsb' 25 6).toNat := field_toNat w 25 6 (by omega)
  have h21 : (field w 21 0xf).toNat = (w.extractLsb' 21 4).toNat := field_toNat w 21 4 (by omega)
  have l12 := (w.extractLsb' 12 8).isLt
  have l20 := (w.extractLsb' 20 1).isLt
  have l25 := (w.extractLsb' 25 6).isLt
  have l21 := (w.extractLsb' 21 4).isLt
  rw [offset_toNat (by omega) (by omega) (by omega) (by omega), h12, h20, h25, h21,
    BitVec.toNat_setWidth, Manual.immJ]
  simp only [toNat_append_add, BitVec.toNat_ofNat]
  have hten : (w.extractLsb' 21 10).toNat
      = (w.extractLsb' 25 6).toNat * 2 ^ 4 + (w.extractLsb' 21 4).toNat := by
    rw [extract_toNat, extract_toNat, extract_toNat]
    omega
  omega

/-- The two extensions of the J-immediate. -/
theorem signExtend_immJ_iff (x : BitVec 21) :
    (x.setWidth 20).signExtend 32 = x.signExtend 32 ↔ x.getLsbD 20 = x.getLsbD 19 := by
  have hmsb20 : (x.setWidth 20).msb = x.getLsbD 19 := by
    rw [BitVec.msb_eq_getLsbD_last]
    simp
  have hmsb21 : x.msb = x.getLsbD 20 := BitVec.msb_eq_getLsbD_last x
  constructor
  · intro h
    have h20 := congrArg (·.getLsbD 20) h
    simp only [BitVec.getLsbD_signExtend, hmsb20] at h20
    simpa using h20.symm
  · intro h
    apply BitVec.eq_of_getLsbD_eq
    intro j hj
    rw [BitVec.getLsbD_signExtend, BitVec.getLsbD_signExtend, hmsb20, hmsb21, h,
      BitVec.getLsbD_setWidth]
    by_cases h20 : j < 20
    · have h21 : j < 21 := by omega
      simp [h20, h21]
    · by_cases h21 : j < 21
      · have hj20 : j = 20 := by omega
        rw [if_neg h20, if_pos h21, hj20, h, decide_eq_true (by omega : 20 < 32)]
      · simp [h20, h21]

/-- Its two top bits in the encoding. -/
theorem getLsbD_immJ (w : U32) :
    (Manual.immJ w).getLsbD 20 = w.getLsbD 31 ∧ (Manual.immJ w).getLsbD 19 = w.getLsbD 19 := by
  simp only [Manual.immJ, BitVec.getLsbD_append, BitVec.getLsbD_extractLsb']
  constructor <;> simp

/-- The target of `JAL::Step`. -/
theorem jumpTarget_jal : (new junk .jal s m w).decode.jumpTarget.setWidth 32
    = s.pc.setWidth 32 + ((Manual.immJ w).setWidth 20).signExtend 32 := by
  have himm := extendImm_eq (by omega) (by omega) (decode_immJ w)
  rw [← himm]
  exact addImm_eq _ _

theorem signExtend_mod_four {n : Nat} (x : BitVec n) (hn : 2 ≤ n) :
    (x.signExtend 32).toNat % 4 = x.toNat % 4 := by
  have hlow : (x.signExtend 32).setWidth 2 = x.setWidth 2 := by
    apply BitVec.eq_of_getLsbD_eq
    intro j hj
    have hj32 : j < 32 := by omega
    have hjn : j < n := by omega
    rw [BitVec.getLsbD_setWidth, BitVec.getLsbD_setWidth, BitVec.getLsbD_signExtend]
    simp [hj32, hjn]
  have h := congrArg BitVec.toNat hlow
  rwa [BitVec.toNat_setWidth, BitVec.toNat_setWidth] at h

theorem transfersTo_jal : TransfersTo junk .jal s m w
    (s.pc.setWidth 32 + ((Manual.immJ w).setWidth 20).signExtend 32) := by
  have htransfer : TransfersTo junk .jal s m w _ := transfersTo_jumpTarget rfl rfl fun _ => rfl
  rwa [jumpTarget_jal] at htransfer

theorem top_bits_of_transfersTo_jal
    (h : TransfersTo junk .jal s m w (Manual.target .jal w (s.pc.setWidth 32) 0)) :
    w.getLsbD 31 = w.getLsbD 19 := by
  obtain ⟨h20, h19⟩ := getLsbD_immJ w
  rw [← h20, ← h19, ← signExtend_immJ_iff]
  have hmod : ((Manual.immJ w).setWidth 20).toNat % 4 = (Manual.immJ w).toNat % 4 := by
    rw [BitVec.toNat_setWidth]
    omega
  have hsum := transfersTo_jal.unique h (by
    rw [Manual.target, BitVec.toNat_add, BitVec.toNat_add]
    have h1 := signExtend_mod_four ((Manual.immJ w).setWidth 20) (by omega)
    have h2 := signExtend_mod_four (Manual.immJ w) (by omega)
    omega)
  exact (BitVec.add_right_inj _).mp hsum

/-- For every state and every JAL encoding: JAL transfers control to the sum of the PC and the
    manual's offset, linking if it goes there and leaving `rd` alone if it traps, exactly if bits 31
    and 19 of the encoding are equal. -/
theorem jal_transfers_iff (junk : Junk) (s : RiscvState) (m : Memory) (w : U32)
    (hw : newInstruction w = .jal) :
    TransfersTo junk (newInstruction w) s m w (Manual.target .jal w (s.pc.setWidth 32) 0)
      ↔ w.getLsbD 31 = w.getLsbD 19 := by
  rw [hw]
  refine ⟨top_bits_of_transfersTo_jal, fun h => ?_⟩
  obtain ⟨h20, h19⟩ := getLsbD_immJ w
  rw [← h20, ← h19, ← signExtend_immJ_iff] at h
  rw [Manual.target, ← h]
  exact transfersTo_jal

/-- `jal x1,8` goes to the manual's target. -/
theorem jal_transfers_near :
    let m : Memory := { physMem := { oracle := { rand := fun _ => 0, heap := fun _ => 0 } } }
    newInstruction 0x008000ef = .jal ∧
      TransfersTo {} (newInstruction 0x008000ef) { pc := 0x1000 } m 0x008000ef 0x1008 := by
  intro m
  exact ⟨by decide,
    (jal_transfers_iff {} { pc := 0x1000 } m 0x008000ef (by decide)).mpr (by decide)⟩

/-- `jal x0,.-0x100000` stays where it is. -/
theorem jal_of_a_mebibyte_down : ¬ ∀ (junk : Junk) (s : RiscvState) (m : Memory) (w : U32),
    newInstruction w = .jal →
    TransfersTo junk (newInstruction w) s m w (Manual.target .jal w (s.pc.setWidth 32) 0) := by
  intro h
  have hall := h {} {} { physMem := { oracle := { rand := fun _ => 0, heap := fun _ => 0 } } }
    0x8000006f (by decide)
  have htop := top_bits_of_transfersTo_jal (w := 0x8000006f) hall
  exact absurd htop (by decide)

/-! ### Branches and JALR -/

/-- The branches and JALR. -/
def Iclass.branches : Iclass → Bool
  | .beq | .bne | .blt | .bltu | .bge | .bgeu | .jalr => true
  | _ => false

/-- The B-immediate as `Decode` puts it together. -/
theorem decode_immB (w : U32) : ((field w 31 1 <<< 12) ||| (field w 25 0x3f <<< 5) |||
    (field w 8 0xf <<< 1) ||| (field w 7 1 <<< 11)).toNat = (Manual.immB w).toNat := by
  have h31 : (field w 31 1).toNat = (w.extractLsb' 31 1).toNat := field_toNat w 31 1 (by omega)
  have h25 : (field w 25 0x3f).toNat = (w.extractLsb' 25 6).toNat := field_toNat w 25 6 (by omega)
  have h8 : (field w 8 0xf).toNat = (w.extractLsb' 8 4).toNat := field_toNat w 8 4 (by omega)
  have h7 : (field w 7 1).toNat = (w.extractLsb' 7 1).toNat := field_toNat w 7 1 (by omega)
  have l31 := (w.extractLsb' 31 1).isLt
  have l25 := (w.extractLsb' 25 6).isLt
  have l8 := (w.extractLsb' 8 4).isLt
  have l7 := (w.extractLsb' 7 1).isLt
  rw [or_last_second, offset_toNat (by omega) (by omega) (by omega) (by omega), h31, h25, h8, h7,
    Manual.immB]
  simp only [toNat_append_add, BitVec.toNat_ofNat]
  omega

/-- The sum of a branch that is taken and of one that is not. -/
theorem branch_sum (pc : U64) (w : U32) (taken : Bool) :
    (((pc.setWidth 32 : U32).setWidth 64 : U64) + if taken then signExtend
      (((field w 31 1 <<< 12) ||| (field w 25 0x3f <<< 5) ||| (field w 8 0xf <<< 1) |||
        (field w 7 1 <<< 11)).setWidth 64) 13 else 4).setWidth 32
      = if taken then pc.setWidth 32 + (Manual.immB w).signExtend 32 else pc.setWidth 32 + 4 := by
  rw [addImm_eq]
  cases taken with
  | true => rw [if_pos rfl, if_pos rfl, extendImm_eq (by omega) (by omega) (decode_immB w)]
  | false => rfl

/-- The sum of JALR, with bit 0 cleared. -/
theorem jalr_sum (a : U32) (w : U32) :
    ((a.setWidth 64 + signExtend ((field w 20 0xfff).setWidth 64) 12) &&& 0xfffffffe : U64).setWidth 32
      = (a + Manual.immI w) &&& ~~~1 := by
  rw [BitVec.setWidth_and, addImm_eq, immI_eq]
  rfl

/-- Where the branches and JALR go. -/
theorem jumpTarget_branches (hc : c.branches) :
    (new junk c s m w).decode.jumpTarget.setWidth 32 =
      if Manual.taken c (Manual.operand s (Manual.regNo w 15)) (Manual.operand s (Manual.regNo w 20))
      then Manual.target c w (s.pc.setWidth 32) (Manual.operand s (Manual.regNo w 15))
      else s.pc.setWidth 32 + 4 := by
  rw [← regVal_field, ← regVal_field]
  cases c <;> simp only [Iclass.branches, Bool.false_eq_true] at hc
  case jalr => exact jalr_sum _ w
  all_goals exact branch_sum s.pc w _

/-- For every state whose PC the core may fetch from and every encoding of a branch or a JALR: the
    branch that is not taken goes to the next instruction; otherwise control is transferred to the
    manual's target, with `rd` set by JALR, or the transfer is refused. -/
theorem branches_transfer (junk : Junk) (s : RiscvState) (m : Memory) (w : U32)
    (hpc : s.Aligned s.pc) (hw : (newInstruction w).branches) :
    let c := newInstruction w
    let a := Manual.operand s (Manual.regNo w 15)
    if Manual.taken c a (Manual.operand s (Manual.regNo w 20))
    then TransfersTo junk c s m w (Manual.target c w (s.pc.setWidth 32) a)
    else GoesTo junk c s m w (s.pc.setWidth 32 + 4) := by
  intro c a
  have hjump : c.isJump ∧ c.instrSize = 4 ∧
      (c.links → (new junk c s m w).decode.rd = field w 7 0x1f) := by
    change c.branches at hw
    cases hc : c <;> rw [hc] at hw <;> simp only [Iclass.branches, Bool.false_eq_true] at hw
    case jalr => exact ⟨rfl, rfl, fun _ => rfl⟩
    all_goals exact ⟨rfl, rfl, by rintro ⟨⟩⟩
  obtain ⟨hj, hsize, hrd⟩ := hjump
  have htransfer : TransfersTo junk c s m w _ := transfersTo_jumpTarget hj hsize hrd
  rw [jumpTarget_branches hw] at htransfer
  split
  · next ht => rwa [if_pos ht] at htransfer
  · next ht =>
    rw [if_neg ht] at htransfer
    exact htransfer.1 (hpc.next (.inl rfl))

/-- `beq x0,x0,.-4` at address 0 wraps, and `jalr x1,0(x1)` links into the register it jumps by. -/
theorem branches_transfer_wrap :
    let m : Memory := { physMem := { oracle := { rand := fun _ => 0, heap := fun _ => 0 } } }
    TransfersTo {} .beq {} m 0xfe000ee3 0xfffffffc ∧
      TransfersTo {} .jalr { x := fun _ => 0x2001 } m 0x000080e7 0x2000 := by
  intro m
  exact ⟨branches_transfer {} {} m 0xfe000ee3 (by decide) (by decide),
    branches_transfer {} { x := fun _ => 0x2001 } m 0x000080e7 (by decide) (by decide)⟩

end Jumps

end Dimebox
