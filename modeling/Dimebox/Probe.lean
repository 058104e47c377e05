import Dimebox.Offsets

/-! A machine to tell two instructions apart.

    Two instructions are different if they leave different registers, PC or memory on one machine.
    The ones here differ on a core at 0x1000 with an empty memory, for registers chosen to bring out
    the difference. -/

namespace Dimebox

open Rvc
open PhysicalMemory (span)

/-- A core at 0x1000 with registers `x`, trap vector 0x80000000 and the C extension. -/
def probe (x : Fin 32 → U64) : RiscvState :=
  { pc := 0x1000, x
    reg := fun
      | .misa => 0x40101104
      | .mtvec => 0x80000000
      | _ => 0 }

/-- The copy the instruction runs on. -/
def probed (x : Fin 32 → U64) : RiscvState := RiscvState.copy {} (probe x)

/-- A memory nothing was written to. -/
def blank : Memory := { physMem := { oracle := { rand := fun _ => 0, heap := fun _ => 0 } } }

theorem blank_range : blank.DefaultRange := ⟨rfl, rfl, rfl⟩

section Probe

variable (x : Fin 32 → U64)

theorem probed_enabled : (probed x).compressedExtensionEnabled := by
  rw [probed, RiscvState.copy, RiscvState.compressedExtensionEnabled, RiscvState.misa,
    RiscvState.read_update]
  have hmisa : (probe x).read .misa = 0x40101104 := rfl
  have hpc : (probe x).pc = 0x1000 := rfl
  rw [hmisa, hpc]
  decide

theorem probed_pc : (probed x).pc = 0x1000 := RiscvState.pc_copy _ _

theorem probed_pc32 : (probed x).pc32 = 0x1000 := by
  rw [RiscvState.pc32, probed_pc]
  rfl

theorem probed_x : (probed x).x = x := copy_x _ _

theorem probed_mtvec : (probed x).mtvec = 0x80000000 := by
  rw [probed, RiscvState.copy, RiscvState.mtvec,
    RiscvState.read_update_of_plain _ _ (by decide) (by decide) (by decide)]
  rfl

end Probe

/-! ### Registers -/

/-- The place of a register. -/
def place (r : BitVec 5) : Fin 32 := Fin.ofNat 32 r.toNat

theorem place_inj {r r' : BitVec 5} : place r = place r' ↔ r = r' := by
  have := r.isLt
  have := r'.isLt
  rw [place, place, Fin.ext_iff, Fin.val_ofNat, Fin.val_ofNat, Nat.mod_eq_of_lt (by omega),
    Nat.mod_eq_of_lt (by omega), BitVec.toNat_inj]

theorem operand_of_ne (s : RiscvState) {r : BitVec 5} (hr : r ≠ 0) :
    s.operand r = (s.x (place r)).setWidth 32 := by
  have hne : ¬ r.setWidth 32 = (0 : U32) := fun h0 => hr ((setWidth_eq_zero (by decide) r).mp h0)
  rw [RiscvState.operand, RiscvState.regVal, if_neg hne, reg_toNat]
  rfl

theorem x_setReg_of_ne (s : RiscvState) {r : BitVec 5} (hr : r ≠ 0) (v : U64) :
    (s.setReg (r.setWidth 32) v).x = Function.update s.x (place r) v := by
  have hne : ¬ r.setWidth 32 = (0 : U32) := fun h0 => hr ((setWidth_eq_zero (by decide) r).mp h0)
  rw [RiscvState.setReg, if_neg hne, reg_toNat]
  rfl

/-! ### What a run leaves -/

/-- The registers after a run. -/
def regsAfter : Except Fault (RiscvState × Memory) → Option (Fin 32 → U64)
  | .ok st => some st.1.x
  | .error _ => none

/-- The PC after a run. -/
def pcAfter : Except Fault (RiscvState × Memory) → Option U64
  | .ok st => some st.1.pc
  | .error _ => none

/-- The memory after a run. -/
def memoryAfter : Except Fault (RiscvState × Memory) → Option Memory
  | .ok st => some st.2
  | .error _ => none

section After

variable (s core : RiscvState) (m : Memory)

theorem regsAfter_wrote (rd : U32) (v : U64) :
    regsAfter (wrote s core m rd v) = some (s.setReg rd v).x := by
  rw [wrote, regsAfter, update_x]
  rfl

theorem pcAfter_wrote (rd : U32) (v : U64) :
    pcAfter (wrote s core m rd v) = some ((s.pc.setWidth 32 + 2 : U32).setWidth 64) := by
  rw [wrote, pcAfter, RiscvState.pc_update]
  rfl

theorem memoryAfter_wrote (rd : U32) (v : U64) :
    memoryAfter (wrote s core m rd v) = some m := rfl

theorem pcAfter_refused : pcAfter (refused s core m) = some s.mtvec := by
  rw [refused, pcAfter, RiscvState.pc_update, RiscvState.pc_trapState]

theorem pcAfter_jumped (target : U64) (rd link : U32) :
    pcAfter (jumped s core m target rd link) = some
      (if target &&& 1 ≠ 0 then s.mtvec else (target.setWidth 32 : U32).setWidth 64) := by
  rw [jumped]
  split
  · rw [pcAfter, RiscvState.pc_update, RiscvState.pc_trapState]
    rfl
  · rw [pcAfter, RiscvState.pc_update]
    rfl

theorem regsAfter_jumped (target : U64) (rd link : U32) :
    regsAfter (jumped s core m target rd link) = some
      (if target &&& 1 ≠ 0 then s.x else (s.setReg rd (link.setWidth 64)).x) := by
  rw [jumped]
  split
  · rw [regsAfter, update_x, RiscvState.x_trapState]
    rfl
  · rw [regsAfter, update_x]
    rfl

end After

theorem regsAfter_wrote_probed (x : Fin 32 → U64) (m : Memory) {r : BitVec 5} (hr : r ≠ 0) (v : U64) :
    regsAfter (wrote (probed x) (probe x) m (r.setWidth 32) v)
      = some (Function.update x (place r) v) := by
  rw [regsAfter_wrote, x_setReg_of_ne _ hr, probed_x]

/-- A refused halfword leaves another PC than an instruction that goes on. -/
theorem refused_ne_wrote (x : Fin 32 → U64) (m m' : Memory) (rd : U32) (v : U64) :
    refused (probed x) (probe x) m ≠ wrote (probed x) (probe x) m' rd v := by
  intro heq
  have hpc := congrArg pcAfter heq
  rw [pcAfter_refused, pcAfter_wrote, probed_mtvec, probed_pc] at hpc
  exact absurd hpc (by decide)

/-! ### Jumps -/

/-- Where a jump by `off` from 0x1000 goes. -/
def landing {n : Nat} (off : BitVec n) : U64 :=
  ((0x1000 + off.signExtend 64 : U64).setWidth 32 : U32).setWidth 64

theorem toInt_landing {n : Nat} (off : BitVec n) (hn : n ≤ 12) :
    ((landing off).toNat : Int) = 0x1000 + off.toInt := by
  have hlo := BitVec.le_toInt off
  have hhi := BitVec.toInt_lt (x := off)
  have hpow : (2 : Int) ^ (n - 1) ≤ 2 ^ 11 := by
    exact_mod_cast Nat.pow_le_pow_right (n := 2) (by decide) (by omega : n - 1 ≤ 11)
  have hext : (off.signExtend 64).toInt = off.toInt := BitVec.toInt_signExtend_of_le (by omega)
  have hcond := BitVec.toInt_eq_toNat_cond (off.signExtend 64)
  have hlt := (off.signExtend 64).isLt
  rw [landing, BitVec.toNat_setWidth, BitVec.toNat_setWidth, BitVec.toNat_add]
  have h1000 : (0x1000 : U64).toNat = 0x1000 := rfl
  rw [h1000]
  split at hcond <;> omega

theorem landing_lt {n : Nat} (off : BitVec n) (hn : n ≤ 12) : (landing off).toNat < 0x80000000 := by
  have hland := toInt_landing off hn
  have hhi := BitVec.toInt_lt (x := off)
  have hpow : (2 : Int) ^ (n - 1) ≤ 2 ^ 11 := by
    exact_mod_cast Nat.pow_le_pow_right (n := 2) (by decide) (by omega : n - 1 ≤ 11)
  omega

theorem even_target {n : Nat} (off : BitVec n) (hn : 1 ≤ n) (hn' : n ≤ 12) (heven : off.toNat % 2 = 0) :
    (0x1000 + off.signExtend 64 : U64) &&& 1 = 0 := by
  have hext := signExtend_even hn (by omega : n ≤ 64) heven
  apply BitVec.eq_of_toNat_eq
  have h1 : (1 : U64).toNat = 2 ^ 1 - 1 := rfl
  have h1000 : (0x1000 : U64).toNat = 0x1000 := rfl
  have h0 : (0 : U64).toNat = 0 := rfl
  rw [BitVec.toNat_and, h1, Nat.and_two_pow_sub_one_eq_mod, BitVec.toNat_add, h1000, h0]
  omega

section Landing

variable (x : Fin 32 → U64) (m : Memory) (rd link : U32) {n : Nat} (off : BitVec n)

theorem pcAfter_jumped_even (hn : 1 ≤ n) (hn' : n ≤ 12) (heven : off.toNat % 2 = 0) :
    pcAfter (jumped (probed x) (probe x) m ((probed x).pc32 + off.signExtend 64) rd link)
      = some (landing off) := by
  rw [pcAfter_jumped, probed_pc32, if_neg (not_not_intro (even_target off hn hn' heven)), landing]

theorem pcAfter_jumped_cases :
    pcAfter (jumped (probed x) (probe x) m ((probed x).pc32 + off.signExtend 64) rd link)
      = some 0x80000000 ∨
    pcAfter (jumped (probed x) (probe x) m ((probed x).pc32 + off.signExtend 64) rd link)
      = some (landing off) := by
  rw [pcAfter_jumped, probed_pc32, probed_mtvec]
  split
  · exact .inl rfl
  · exact .inr rfl

end Landing

/-- Jumps that leave the same PC have the same offset. -/
theorem toInt_eq_of_jumped {x : Fin 32 → U64} {m m' : Memory} {rd rd' link link' : U32} {n k : Nat}
    {off : BitVec n} {off' : BitVec k} (hn : n ≤ 12) (hk : 1 ≤ k) (hk' : k ≤ 12)
    (heven : off'.toNat % 2 = 0)
    (heq : jumped (probed x) (probe x) m ((probed x).pc32 + off.signExtend 64) rd link
      = jumped (probed x) (probe x) m' ((probed x).pc32 + off'.signExtend 64) rd' link') :
    off.toInt = off'.toInt := by
  have hpc := congrArg pcAfter heq
  rw [pcAfter_jumped_even x m' rd' link' off' hk hk' heven] at hpc
  have hlt := landing_lt off' hk'
  rcases pcAfter_jumped_cases x m rd link off with h | h
  · rw [h] at hpc
    rw [← Option.some.inj hpc] at hlt
    exact absurd hlt (by decide)
  · rw [h] at hpc
    have hland := toInt_landing off hn
    rw [Option.some.inj hpc, toInt_landing off' hk'] at hland
    omega

/-! ### Loads and stores -/

/-- The blank memory after a load. -/
def afterLoad (a : U64) : Memory :=
  { blank with physMem := (blank.physMem.pullBytes (Memory.low32 a) true 4).2.2 }

/-- The blank memory after a store. -/
def afterStore (a : U64) (v : U32) : Memory :=
  { blank with
    physMem := blank.physMem.putBytes (Memory.low32 a) false
      (Step.registerBytes false 4 (v.setWidth 64)) }

theorem loaded_blank (s core : RiscvState) (mbuf : List Byte) (a : U64) :
    ∃ v, ∀ rd, loaded s core blank mbuf a rd = wrote s core (afterLoad a) rd v := by
  have hrun : (Memory.readMemory a true 4 true mbuf false true).run blank = .ok
      (definedCode (blank.physMem.pullBytes (Memory.low32 a) true 4).2.1 4,
        Memory.overlay (blank.physMem.pullBytes (Memory.low32 a) true 4).1 mbuf) (afterLoad a) :=
    Memory.readMemory_run blank_range (n := 4) rfl (by decide) (by decide) true mbuf true
  obtain ⟨v, hv⟩ := Step.registerValue_ok blank.hostEndianness
    (if blank.hostEndianness
      then ((Memory.overlay (blank.physMem.pullBytes (Memory.low32 a) true 4).1 mbuf).take 4).reverse
      else (Memory.overlay (blank.physMem.pullBytes (Memory.low32 a) true 4).1 mbuf).take 4) 0 0
    (by split <;> simp)
  refine ⟨(v.setWidth 32 : U32).setWidth 64, fun rd => ?_⟩
  rw [loaded, hrun]
  simp only [hv]
  rfl

theorem stored_blank (s core : RiscvState) (a : U64) (v : U32) :
    stored s core blank a v = wrote s core (afterStore a v) 0 0 := by
  have hlen : 4 ≤ (Step.registerBytes false 4 (v.setWidth 64)).length := by
    simp [Step.registerBytes]
  have hrun : (Memory.writeMemory a true 4 true (Step.registerBytes false 4 (v.setWidth 64))
      false).run blank = .ok 0 (afterStore a v) :=
    Memory.writeMemory_run blank_range (n := 4) rfl (by decide) (by decide) hlen true
  have hhost : blank.hostEndianness = false := rfl
  rw [stored, hhost, hrun]

/-- What is defined after an access to the blank memory. -/
theorem isDefined_afterLoad (a b : U64) :
    (afterLoad a).physMem.isDefined b = decide (b ∈ span (Memory.low32 a) 4) := by
  rw [afterLoad, PhysicalMemory.isDefined_pullBytes]
  rfl

theorem isDefined_afterStore (a b : U64) (v : U32) :
    (afterStore a v).physMem.isDefined b = decide (b ∈ span (Memory.low32 a) 4) := by
  have hlen : (Step.registerBytes false 4 (v.setWidth 64)).length = 4 := by
    simp [Step.registerBytes]
  rw [afterStore, PhysicalMemory.isDefined_putBytes, hlen]
  rfl

/-- Accesses to words that define the same bytes have the same address. -/
theorem address_of_isDefined {a b : U64} {p : U64 → Bool} {q : U64 → Bool} (hpq : p = q)
    (hp : ∀ x, p x = decide (x ∈ span (Memory.low32 a) 4))
    (hq : ∀ x, q x = decide (x ∈ span (Memory.low32 b) 4)) (ha : (Memory.low32 a).toNat % 4 = 0)
    (hb : (Memory.low32 b).toNat % 4 = 0) : Memory.low32 a = Memory.low32 b := by
  have hmem : Memory.low32 b ∈ span (Memory.low32 a) 4 := by
    have hself : q (Memory.low32 b) = true := by
      rw [hq]
      exact decide_eq_true List.mem_cons_self
    rw [← hpq, hp] at hself
    exact of_decide_eq_true hself
  have hlt := Memory.low32_lt a
  have hspan := PhysicalMemory.toNat_of_mem_span hmem (by omega)
  exact BitVec.eq_of_toNat_eq (by omega)

/-- The lowest byte of a store. -/
theorem seen_afterStore (a : U64) (v : U32) :
    (afterStore a v).physMem.seen (Memory.low32 a) = some (v.setWidth 8) := by
  have hlt := Memory.low32_lt a
  obtain ⟨bs, hlen, hbs⟩ : ∃ bs, bs.length = 3 ∧
      Step.registerBytes false 4 (v.setWidth 64) = v.setWidth 8 :: bs := ⟨_, rfl, rfl⟩
  rw [afterStore, hbs, PhysicalMemory.putBytes]
  refine PhysicalMemory.seen_putBytes_of_not_mem false bs _ _ ?_ ?_
  · rw [PhysicalMemory.seen_putByte, if_pos rfl]
  · intro hmem
    have hsucc : (Memory.low32 a + 1).toNat = (Memory.low32 a).toNat + 1 :=
      Memory.toNat_succ_of_lt (by omega)
    rw [hlen] at hmem
    have := PhysicalMemory.toNat_of_mem_span hmem (by omega)
    omega

/-- Registers that differ, in any byte of an address and in the lowest byte. -/
def ramp : Fin 32 → U64 := fun r => 0x1004 * BitVec.ofNat 64 r.val

theorem ramp_place (r : BitVec 5) : (ramp (place r)).toNat = 0x1004 * r.toNat := by
  have hr := r.isLt
  have hlit : (0x1004 : U64).toNat = 0x1004 := rfl
  rw [ramp, place, Fin.val_ofNat, Nat.mod_eq_of_lt hr, BitVec.toNat_mul, BitVec.toNat_ofNat, hlit]
  omega

theorem operand_ramp {r : BitVec 5} (hr : r ≠ 0) :
    ((probed ramp).operand r).toNat = 0x1004 * r.toNat := by
  have hlt := r.isLt
  rw [operand_of_ne _ hr, probed_x, BitVec.toNat_setWidth, ramp_place]
  omega

theorem eq_of_update_ramp {r r' : BitVec 5} {v : U64}
    (hup : Function.update ramp (place r) v = Function.update ramp (place r') v) : r = r' := by
  by_contra hne
  have hp : place r ≠ place r' := fun hp => hne (place_inj.mp hp)
  have hr := congrFun hup (place r)
  have hr' := congrFun hup (place r')
  rw [Function.update_self, Function.update_of_ne hp] at hr
  rw [Function.update_self, Function.update_of_ne hp.symm, hr] at hr'
  have hnat := congrArg BitVec.toNat hr'
  rw [ramp_place, ramp_place] at hnat
  exact hne (BitVec.eq_of_toNat_eq (by omega))

end Dimebox
