import Dimebox.Devices
import Dimebox.Lib.Calls

/-! The interrupt block of the PL011.

    An interrupt clear is meant to clear status bits, and the masked status to be
    `UARTRIS & UARTIMSC`. The code stores the written value in UARTRIS, so that a clear of one bit
    sets it and drops the others, and takes a mask bit that is set for a disabled interrupt. Each of
    the two is compared with its documentation on its own, then over a whole history of events. -/

namespace Dimebox

namespace UartPl011

/-- An overrun, or a write to one of the two interrupt registers. -/
inductive UartEvent where
  | overrun
  | writeImsc (pa : U64) (hpa : pa &&& 0xfff = 0x038) (rval : U32)
  | writeIcr (pa : U64) (hpa : pa &&& 0xfff = 0x044) (rval : U32)

/-- A UART and what has happened to it since its reset. -/
structure Watched where
  uart : UartPl011
  history : List UartEvent := []

def handle (u : UartPl011) : UartEvent → UartPl011
  | .overrun => u.setOverrun true
  | .writeImsc pa _ rval | .writeIcr pa _ rval => (u.writeReg pa rval).2

def Watched.event (w : Watched) (e : UartEvent) : Watched :=
  { uart := w.uart.handle e, history := w.history ++ [e] }

/-- `UART_SUPPORTED_INTERRUPTS`, each with its bit in UARTRIS and UARTIMSC. -/
def supportedInterrupts : List (Nat × Nat) := [(10, 1), (5, 2), (4, 4)]

/-- `InterruptPending(pending_interrupts)`, the out parameter. -/
def pendingInterrupts (u : UartPl011) : Nat :=
  (if u.uartimsc &&& 0x400 = 0 ∧ u.uartris &&& 0x400 ≠ 0 then 1 else 0) |||
  (if u.uartimsc &&& 0x20 = 0 ∧ u.uartris &&& 0x20 ≠ 0 then 2 else 0) |||
  (if u.uartimsc &&& 0x10 = 0 ∧ u.uartris &&& 0x10 ≠ 0 then 4 else 0)

/-- The supported interrupts among some status bits. -/
def reported (status : U32) : Nat :=
  supportedInterrupts.foldl (fun n i => n ||| if status.getLsbD i.1 then i.2 else 0) 0

/-- Which status bit an event raises, and which it clears. -/
def Sets : UartEvent → Nat → Prop
  | .overrun, j => j = 10
  | _, _ => False

def Clears : UartEvent → Nat → Prop
  | .writeIcr _ _ rval, j => rval.getLsbD j
  | _, _ => False

/-- The event of bit `j` has occurred after the last interrupt clear that names the bit. -/
def Raised (history : List UartEvent) (j : Nat) : Prop := Calls.Latest Sets Clears history j

/-- UARTRIS shows the raised bits. -/
def Watched.RawRight (w : Watched) : Prop :=
  ∀ j, w.uart.uartris.getLsbD j = true ↔ Raised w.history j

/-- The UART reports the documented UARTMIS. -/
def PendingRight (u : UartPl011) : Prop :=
  u.pendingInterrupts = reported (u.uartris &&& u.uartimsc) ∧
    (u.interruptPending = true ↔ reported (u.uartris &&& u.uartimsc) ≠ 0)

/-! ### The raw status -/

theorem registerIndex_imsc {pa : U64} (h : pa &&& 0xfff = 0x038) :
    registerIndex pa = some .imsc := by rw [registerIndex, h]; rfl

theorem registerIndex_icr {pa : U64} (h : pa &&& 0xfff = 0x044) :
    registerIndex pa = some .ticr := by rw [registerIndex, h]; rfl

/-- What an event leaves in UARTRIS. -/
theorem handle_uartris (u : UartPl011) (e : UartEvent) : (u.handle e).uartris = match e with
    | .overrun => u.uartris ||| 0x400
    | .writeImsc .. => u.uartris
    | .writeIcr _ _ rval => rval &&& 0x7ff := by
  cases e with
  | overrun => rfl
  | writeImsc pa hpa rval => rw [handle, writeReg, registerIndex_imsc hpa]
  | writeIcr pa hpa rval => rw [handle, writeReg, registerIndex_icr hpa]

theorem getLsbD_overrun (ris : U32) (j : Nat) :
    (ris ||| 0x400).getLsbD j = true ↔ j = 10 ∨ ris.getLsbD j = true := by
  have hbit : (0x400 : U32) = BitVec.twoPow 32 10 := rfl
  rw [BitVec.getLsbD_or, hbit, BitVec.getLsbD_twoPow, Bool.or_eq_true, or_comm]
  simp only [Nat.reduceLT, decide_true, Bool.true_and, decide_eq_true_eq]
  rw [eq_comm]

/-- An interrupt clear that names no bit, with nothing to keep. -/
def IdleClear (u : UartPl011) : UartEvent → Prop
  | .writeIcr _ _ rval => rval &&& 0x7ff = 0 ∧ u.uartris = 0
  | _ => True

/-- UARTRIS has no bits above OERIS. -/
theorem raised_lt {history : List UartEvent} {j : Nat} (h : Raised history j) : j = 10 := by
  obtain ⟨e, -, hset⟩ := h.exists_sets
  cases e with
  | overrun => exact hset
  | _ => exact hset.elim

theorem Watched.RawRight.event {w : Watched} {e : UartEvent} (h : w.RawRight)
    (he : IdleClear w.uart e) : (w.event e).RawRight := by
  intro j
  rw [Watched.event, Raised, Calls.latest_append, ← Raised, ← h j, handle_uartris]
  cases e with
  | overrun =>
    rw [getLsbD_overrun]
    simp [Sets, Clears]
  | writeImsc => simp [Sets, Clears]
  | writeIcr pa hpa rval =>
    obtain ⟨hval, hris⟩ := he
    simp only [hval, hris, Sets]
    simp

/-- A clear of a bit sets it; a clear of another bit drops it. -/
theorem Watched.RawRight.idleClear {w : Watched} {e : UartEvent} (h : w.RawRight)
    (h' : (w.event e).RawRight) : IdleClear w.uart e := by
  cases e with
  | overrun => trivial
  | writeImsc => trivial
  | writeIcr pa hpa rval =>
    have hbit : ∀ j, (rval &&& 0x7ff).getLsbD j = true ↔
        w.uart.uartris.getLsbD j = true ∧ ¬ rval.getLsbD j = true := by
      intro j
      have hj := h' j
      rw [Watched.event, Raised, Calls.latest_append, ← Raised, ← h j, handle_uartris] at hj
      simpa [Sets, Clears] using hj
    have hzero : rval &&& 0x7ff = 0 := by
      apply BitVec.eq_of_getLsbD_eq
      intro j _
      by_contra hne
      have hset : (rval &&& 0x7ff).getLsbD j = true := by simpa using hne
      have hand : rval.getLsbD j = true := by
        rw [BitVec.getLsbD_and] at hset
        exact (Bool.and_eq_true_iff.mp hset).1
      exact ((hbit j).mp hset).2 hand
    refine ⟨hzero, ?_⟩
    apply BitVec.eq_of_getLsbD_eq
    intro j _
    by_contra hne
    have hris : w.uart.uartris.getLsbD j = true := by simpa using hne
    -- bit 10 is the only one ever raised, and it is in the stored part of the written value
    have hj10 : j = 10 := raised_lt ((h j).mp hris)
    have hrval : ¬ rval.getLsbD j = true := by
      intro hset
      have h10 : (rval &&& 0x7ff).getLsbD j = true := by
        rw [BitVec.getLsbD_and, hset, hj10]
        decide
      rw [hzero] at h10
      simp at h10
    have hstored := (hbit j).mpr ⟨hris, hrval⟩
    rw [hzero] at hstored
    simp at hstored

theorem rawRight_reset (u : UartPl011) : Watched.RawRight { uart := u.reset } := by
  intro j
  simp [Raised, Calls.not_latest_nil, reset]

/-- The raw status is right throughout exactly if every interrupt clear is idle. -/
theorem raw_right_iff (u : UartPl011) (events : List UartEvent) :
    Calls.Always Watched.event Watched.RawRight { uart := u.reset } events ↔
      Calls.Respects Watched.event (fun w => IdleClear w.uart) { uart := u.reset } events :=
  Calls.always_iff_respects id Watched.RawRight.event Watched.RawRight.idleClear (rawRight_reset u)

/-! ### The masked status -/

/-- Testing one bit. -/
theorem and_twoPow_eq_zero {x : U32} {j : Nat} (hj : j < 32) :
    x &&& BitVec.twoPow 32 j = 0 ↔ x.getLsbD j = false := by
  rw [BitVec.and_twoPow]
  cases hx : x.getLsbD j with
  | false => simp
  | true =>
    have hne : BitVec.twoPow 32 j ≠ 0 := by
      intro h
      have hbit := congrArg (fun y : U32 => y.getLsbD j) h
      simp [hj] at hbit
    simpa using hne

/-- A set mask bit disables: the code reports `UARTRIS & ~UARTIMSC`. -/
theorem pendingInterrupts_eq (u : UartPl011) :
    u.pendingInterrupts = reported (u.uartris &&& ~~~u.uartimsc) := by
  have h10 : (0x400 : U32) = BitVec.twoPow 32 10 := rfl
  have h5 : (0x20 : U32) = BitVec.twoPow 32 5 := rfl
  have h4 : (0x10 : U32) = BitVec.twoPow 32 4 := rfl
  simp only [pendingInterrupts, reported, supportedInterrupts, List.foldl_cons, List.foldl_nil,
    h10, h5, h4, ne_eq, and_twoPow_eq_zero (show 10 < 32 by omega),
    and_twoPow_eq_zero (show 5 < 32 by omega), and_twoPow_eq_zero (show 4 < 32 by omega),
    BitVec.getLsbD_and, BitVec.getLsbD_not]
  simp [and_comm]

theorem interruptPending_iff (u : UartPl011) : u.interruptPending = true ↔ u.pendingInterrupts ≠ 0 := by
  simp only [interruptPending, pendingInterrupts, List.any_cons, List.any_nil]
  split <;> split <;> split <;> simp_all

theorem reported_eq_iff (x y : U32) : reported x = reported y ↔
    x.getLsbD 10 = y.getLsbD 10 ∧ x.getLsbD 5 = y.getLsbD 5 ∧ x.getLsbD 4 = y.getLsbD 4 := by
  simp only [reported, supportedInterrupts, List.foldl_cons, List.foldl_nil]
  generalize x.getLsbD 10 = x₁₀, y.getLsbD 10 = y₁₀, x.getLsbD 5 = x₅, y.getLsbD 5 = y₅,
    x.getLsbD 4 = x₄, y.getLsbD 4 = y₄
  revert x₁₀ y₁₀ x₅ y₅ x₄ y₄
  decide

theorem and_supported_eq_zero (x : U32) : x &&& 0x430 = 0 ↔
    x.getLsbD 10 = false ∧ x.getLsbD 5 = false ∧ x.getLsbD 4 = false := by
  have hmask : (0x430 : U32) = BitVec.twoPow 32 10 ||| BitVec.twoPow 32 5 ||| BitVec.twoPow 32 4 :=
    by decide
  have hor : ∀ a b : U32, a ||| b = 0 ↔ a = 0 ∧ b = 0 := fun _ _ => BitVec.or_eq_zero_iff
  rw [hmask, BitVec.and_or_distrib_left, BitVec.and_or_distrib_left, hor, hor,
    ← and_twoPow_eq_zero (show 10 < 32 by omega),
    ← and_twoPow_eq_zero (show 5 < 32 by omega), ← and_twoPow_eq_zero (show 4 < 32 by omega),
    and_assoc]

/-- The two conventions agree when no supported status bit is set, whatever the mask. -/
theorem pendingRight_iff (u : UartPl011) : u.PendingRight ↔ u.uartris &&& 0x430 = 0 := by
  have hbit : ∀ {r m : Bool}, (r && !m) = (r && m) ↔ r = false := by decide
  have hreport : u.pendingInterrupts = reported (u.uartris &&& u.uartimsc) ↔
      u.uartris &&& 0x430 = 0 := by
    rw [pendingInterrupts_eq, reported_eq_iff, and_supported_eq_zero]
    simp only [BitVec.getLsbD_and, BitVec.getLsbD_not, Nat.reduceLT, decide_true, Bool.true_and,
      hbit]
  constructor
  · rintro ⟨h, -⟩
    exact hreport.mp h
  · intro h
    have heq := hreport.mpr h
    exact ⟨heq, by rw [interruptPending_iff, heq]⟩

/-! ### Both together -/

/-- An event after which the block still shows nothing. -/
def Harmless : UartEvent → Prop
  | .overrun => False
  | .writeImsc .. => True
  | .writeIcr _ _ rval => rval &&& 0x7ff = 0

/-- What is documented of the two status registers. -/
def Watched.Right (w : Watched) : Prop := w.RawRight ∧ w.uart.PendingRight

/-- The raw status is right, and empty. -/
def Watched.Idle (w : Watched) : Prop := w.RawRight ∧ w.uart.uartris = 0

theorem Watched.Idle.right {w : Watched} (h : w.Idle) : w.Right :=
  ⟨h.1, (pendingRight_iff _).mpr (by rw [h.2]; rfl)⟩

theorem Watched.Idle.event {w : Watched} {e : UartEvent} (h : w.Idle) (he : Harmless e) :
    (w.event e).Idle := by
  obtain ⟨hraw, hris⟩ := h
  cases e with
  | overrun => exact he.elim
  | writeImsc pa hpa rval =>
    exact ⟨hraw.event trivial, by rw [Watched.event, handle_uartris]; exact hris⟩
  | writeIcr pa hpa rval =>
    exact ⟨hraw.event ⟨he, hris⟩, by rw [Watched.event, handle_uartris]; exact he⟩

theorem Watched.Idle.harmless {w : Watched} {e : UartEvent} (h : w.Idle)
    (h' : (w.event e).Right) : Harmless e := by
  obtain ⟨hraw, hris⟩ := h
  obtain ⟨hraw', hpending⟩ := h'
  cases e with
  | overrun =>
    rw [pendingRight_iff, Watched.event, handle_uartris, hris] at hpending
    exact absurd hpending (by decide)
  | writeImsc => trivial
  | writeIcr pa hpa rval => exact (hraw.idleClear hraw').1

/-- For every history from a reset: both status registers are as documented throughout exactly if
    no overrun occurs and no interrupt clear names a bit. -/
theorem interrupt_status_right_iff (u : UartPl011) (events : List UartEvent) :
    Calls.Always Watched.event Watched.Right { uart := u.reset } events ↔
      ∀ e ∈ events, Harmless e := by
  rw [← Calls.respects_iff_forall]
  exact Calls.always_iff_respects Watched.Idle.right Watched.Idle.event Watched.Idle.harmless
    ⟨rawRight_reset u, rfl⟩

/-- Clearing OERIS in a UART that has just been reset raises it. -/
theorem interrupt_clear_raises_overrun :
    ¬ ∀ (u : UartPl011) events,
      Calls.Always Watched.event Watched.Right { uart := u.reset } events := by
  intro h
  have hraw := (h {} [.writeIcr 0x044 rfl 0x400] 1).1 10
  have hset : (handle (reset {}) (.writeIcr 0x044 rfl 0x400)).uartris.getLsbD 10 = true := by decide
  have hraised : Raised ([] ++ [.writeIcr 0x044 rfl 0x400]) 10 := hraw.mp hset
  rcases Calls.latest_append.mp hraised with hsets | ⟨hnil, -⟩
  · exact hsets
  · exact Calls.not_latest_nil hnil

end UartPl011

end Dimebox
