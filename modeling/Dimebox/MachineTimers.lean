import Dimebox.Devices
import Dimebox.Lib.Calls

/-! The machine timer against a pair of 64-bit registers.

    The comments of the source give a LO write the whole register and a HI write the upper half. A
    LO write does that; a HI write is an OR, so bits once set in an upper half stay until the next
    LO write, and the two compare registers read as the timer. The condition under which the timer
    is still the pair is found for one access and carried over sequences of them. -/

namespace Dimebox

/-- `mtime` and `mtimecmp` as documented. -/
structure TimerPair where
  mtime : U64
  mtimecmp : U64

namespace TimerPair

/-- The half a memory-mapped register shows. -/
def get (p : TimerPair) : TimerReg → U32
  | .timerLo => p.mtime.setWidth 32
  | .timerHi => p.mtime.extractLsb' 32 32
  | .timerCompareLo => p.mtimecmp.setWidth 32
  | .timerCompareHi => p.mtimecmp.extractLsb' 32 32

/-- A LO write replaces the register, a HI write its upper half. -/
def set (p : TimerPair) : TimerReg → U32 → TimerPair
  | .timerLo, v => { p with mtime := v.setWidth 64 }
  | .timerHi, v => { p with mtime := v ++ p.mtime.setWidth 32 }
  | .timerCompareLo, v => { p with mtimecmp := v.setWidth 64 }
  | .timerCompareHi, v => { p with mtimecmp := v ++ p.mtimecmp.setWidth 32 }

def Pending (p : TimerPair) : Prop := p.mtimecmp ≠ 0 ∧ p.mtimecmp ≤ p.mtime

end TimerPair

namespace MachineTimer

/-- The offset of a register in the device window. -/
def offset : TimerReg → U64
  | .timerLo => 0x000
  | .timerHi => 0x004
  | .timerCompareLo => 0x010
  | .timerCompareHi => 0x014

inductive TimerCall where
  | read (r : TimerReg) (pa : U64) (hpa : pa &&& 0xfff = offset r)
  | write (r : TimerReg) (pa : U64) (hpa : pa &&& 0xfff = offset r) (rval : U32)
  | advanceTimer

/-- The timer beside the pair, with what the reads returned and what they should have. -/
structure TimerUse where
  timer : MachineTimer
  pair : TimerPair
  answers : List (Int × U32) := []
  expected : List U32 := []

def TimerUse.start (t : MachineTimer) : TimerUse :=
  { timer := t, pair := { mtime := t.timer, mtimecmp := t.timerCompare } }

def TimerUse.call (u : TimerUse) : TimerCall → TimerUse
  | .read r pa _ =>
    { u with answers := u.answers ++ [u.timer.readReg pa], expected := u.expected ++ [u.pair.get r] }
  | .write r pa _ rval => { u with timer := (u.timer.writeReg pa rval).2, pair := u.pair.set r rval }
  | .advanceTimer =>
    { u with
      timer := u.timer.advanceTimer
      pair := { u.pair with mtime := u.pair.mtime + u.timer.timerAdvance } }

/-- The timer is the pair: it holds the two values, every read so far returned the half it should
    have, and an interrupt is pending when the two values say so. -/
structure TimerUse.IsPair (u : TimerUse) : Prop where
  mtime : u.timer.timer = u.pair.mtime
  mtimecmp : u.timer.timerCompare = u.pair.mtimecmp
  reads : u.answers = u.expected.map fun v => (0, v)
  pending : u.timer.interruptPending = true ↔ u.pair.Pending

/-- The upper 32 bits. -/
def upper (v : U64) : U32 := (v >>> 32).setWidth 32

/-- The accesses that behave as documented: a HI write that clears no bit, a compare register read
    when timer and compare value agree in that half. -/
def Plain (t : MachineTimer) : TimerCall → Prop
  | .write .timerHi _ _ rval => upper t.timer &&& ~~~rval = 0
  | .write .timerCompareHi _ _ rval => upper t.timerCompare &&& ~~~rval = 0
  | .read .timerCompareLo _ _ => t.timer.setWidth 32 = t.timerCompare.setWidth 32
  | .read .timerCompareHi _ _ => upper t.timer = upper t.timerCompare
  | _ => True

/-! ### Halves of a register -/

theorem registerIndex_offset {pa : U64} {r : TimerReg} (h : pa &&& 0xfff = offset r) :
    registerIndex pa = some r := by
  rw [registerIndex, h]
  cases r <;> rfl

theorem lower_eq (v : U64) : (v &&& 0xffffffff).setWidth 32 = v.setWidth 32 := by
  apply BitVec.eq_of_toNat_eq
  have hand : (v &&& 0xffffffff).toNat = v.toNat % 2 ^ 32 := by
    rw [BitVec.toNat_and]
    exact Nat.and_two_pow_sub_one_eq_mod _ 32
  rw [BitVec.toNat_setWidth, BitVec.toNat_setWidth, hand, Nat.mod_mod]

theorem upper_eq (v : U64) : upper v = v.extractLsb' 32 32 := by
  apply BitVec.eq_of_toNat_eq
  rw [upper, BitVec.toNat_setWidth, BitVec.toNat_ushiftRight, BitVec.extractLsb'_toNat]

theorem getLsbD_upper (v : U64) {j : Nat} (hj : j < 32) : (upper v).getLsbD j = v.getLsbD (32 + j) := by
  simp [upper, hj]

/-- An OR into the upper half replaces it when it clears nothing there. -/
theorem or_upper_eq_iff (v : U64) (rval : U32) :
    v ||| (rval.setWidth 64 <<< 32) = rval ++ v.setWidth 32 ↔ upper v &&& ~~~rval = 0 := by
  have hor : ∀ j, 32 ≤ j → j < 64 →
      (v ||| (rval.setWidth 64 <<< 32)).getLsbD j = (v.getLsbD j || rval.getLsbD (j - 32)) := by
    intro j hlo hhi
    simp [Nat.not_lt.mpr hlo, hhi]
  have happend : ∀ j, 32 ≤ j →
      (rval ++ v.setWidth 32 : U64).getLsbD j = rval.getLsbD (j - 32) := by
    intro j hlo
    rw [BitVec.getLsbD_append, if_neg (by omega)]
  constructor
  · intro h
    apply BitVec.eq_of_getLsbD_eq
    intro j hj
    have hbit := congrArg (fun x : U64 => x.getLsbD (32 + j)) h
    simp only [hor (32 + j) (by omega) (by omega), happend (32 + j) (by omega),
      Nat.add_sub_cancel_left] at hbit
    rw [BitVec.getLsbD_and, getLsbD_upper v hj, BitVec.getLsbD_not]
    cases hv : v.getLsbD (32 + j) <;> cases hr : rval.getLsbD j <;> simp_all
  · intro h
    apply BitVec.eq_of_getLsbD_eq
    intro j hj
    by_cases hlo : 32 ≤ j
    · have hbit := congrArg (fun x : U32 => x.getLsbD (j - 32)) h
      simp only [BitVec.getLsbD_and, BitVec.getLsbD_not,
        getLsbD_upper v (show j - 32 < 32 by omega), Nat.add_sub_cancel' hlo] at hbit
      rw [hor j hlo hj, happend j hlo]
      have hlt : j - 32 < 32 := by omega
      cases hv : v.getLsbD j <;> cases hr : rval.getLsbD (j - 32) <;> simp_all
    · have hlt : j < 32 := by omega
      rw [BitVec.getLsbD_append, if_pos hlt]
      simp [hlt]

/-! ### One access -/

/-- What a read returns. -/
theorem readReg_eq (t : MachineTimer) {r : TimerReg} {pa : U64} (h : pa &&& 0xfff = offset r) :
    t.readReg pa = (0, ({ mtime := t.timer, mtimecmp := t.timer } : TimerPair).get r) := by
  rw [readReg, registerIndex_offset h]
  cases r <;> simp only [TimerPair.get, ← upper_eq, lower_eq] <;> rfl

/-- The interrupt follows from the two values. -/
theorem pending_iff {t : MachineTimer} {p : TimerPair} (hm : t.timer = p.mtime)
    (hc : t.timerCompare = p.mtimecmp) : t.interruptPending = true ↔ p.Pending := by
  simp [interruptPending, TimerPair.Pending, hm, hc]

/-- A write leaves the two values it should exactly if it is plain. -/
theorem writeReg_isPair_iff {t : MachineTimer} {p : TimerPair} {r : TimerReg} {pa : U64} {v : U32}
    (h : pa &&& 0xfff = offset r) (hm : t.timer = p.mtime) (hc : t.timerCompare = p.mtimecmp) :
    ((t.writeReg pa v).2.timer = (p.set r v).mtime ∧
      (t.writeReg pa v).2.timerCompare = (p.set r v).mtimecmp) ↔ t.Plain (.write r pa h v) := by
  rw [writeReg, registerIndex_offset h]
  cases r with
  | timerLo => simp [TimerPair.set, Plain, hc]
  | timerHi => simp [TimerPair.set, Plain, hm, hc, or_upper_eq_iff]
  | timerCompareLo => simp [TimerPair.set, Plain, hm]
  | timerCompareHi => simp [TimerPair.set, Plain, hm, hc, or_upper_eq_iff]

/-- A read returns the half it should exactly if it is plain. -/
theorem readReg_isPair_iff {t : MachineTimer} {p : TimerPair} {r : TimerReg} {pa : U64}
    (h : pa &&& 0xfff = offset r) (hm : t.timer = p.mtime) (hc : t.timerCompare = p.mtimecmp) :
    t.readReg pa = (0, p.get r) ↔ t.Plain (.read r pa h) := by
  rw [readReg_eq t h]
  cases r <;> simp [TimerPair.get, Plain, upper_eq, hm, hc]

/-! ### Sequences of accesses -/

theorem TimerUse.isPair_start (t : MachineTimer) : (TimerUse.start t).IsPair :=
  ⟨rfl, rfl, rfl, pending_iff rfl rfl⟩

theorem TimerUse.IsPair.call {u : TimerUse} {c : TimerCall} (h : u.IsPair) (hc : u.timer.Plain c) :
    (u.call c).IsPair := by
  obtain ⟨hm, hcmp, hreads, -⟩ := h
  cases c with
  | read r pa hpa =>
    refine ⟨hm, hcmp, ?_, pending_iff hm hcmp⟩
    simp only [TimerUse.call, (readReg_isPair_iff hpa hm hcmp).mpr hc, hreads]
    simp
  | write r pa hpa rval =>
    obtain ⟨hm', hcmp'⟩ := (writeReg_isPair_iff hpa hm hcmp).mpr hc
    exact ⟨hm', hcmp', hreads, pending_iff hm' hcmp'⟩
  | advanceTimer =>
    have hm' : u.timer.advanceTimer.timer = u.pair.mtime + u.timer.timerAdvance := by
      rw [advanceTimer, hm]
    exact ⟨hm', hcmp, hreads, pending_iff hm' hcmp⟩

theorem TimerUse.IsPair.plain {u : TimerUse} {c : TimerCall} (h : u.IsPair)
    (h' : (u.call c).IsPair) : u.timer.Plain c := by
  obtain ⟨hm, hcmp, hreads, -⟩ := h
  cases c with
  | read r pa hpa =>
    apply (readReg_isPair_iff hpa hm hcmp).mp
    have hlast := h'.reads
    simp only [TimerUse.call, List.map_append, List.map_cons, List.map_nil] at hlast
    exact List.singleton_inj.mp (List.append_inj_right hlast (by rw [hreads]))
  | write r pa hpa rval => exact (writeReg_isPair_iff hpa hm hcmp).mp ⟨h'.mtime, h'.mtimecmp⟩
  | advanceTimer => trivial

/-- For every timer and every sequence of accesses and ticks: the timer is a pair of 64-bit
    registers throughout exactly if every access is plain in the state it finds. -/
theorem timer_is_pair_iff (t : MachineTimer) (calls : List TimerCall) :
    Calls.Always TimerUse.call TimerUse.IsPair (.start t) calls ↔
      Calls.Respects TimerUse.call (fun u => u.timer.Plain) (.start t) calls :=
  Calls.always_iff_respects id TimerUse.IsPair.call TimerUse.IsPair.plain
    (TimerUse.isPair_start t)

/-- MTIME_HI set to 1 and then to 2 holds 3. -/
theorem second_high_write_adds_bits : ¬ ∀ (t : MachineTimer) calls,
    Calls.Always TimerUse.call TimerUse.IsPair (.start t) calls := by
  intro h
  have hm := (h {} [.write .timerHi 0x004 rfl 1, .write .timerHi 0x004 rfl 2] 2).mtime
  exact absurd hm (by decide)

end MachineTimer

end Dimebox
