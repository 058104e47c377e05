import Dimebox.Devices
import Dimebox.Lib.BoundedQueue

/-! The FIFO of the UART.

    With the FIFO enabled a `uart_queue` is a bounded queue of 16 characters, whatever is put, taken
    and selected: the simulation step by step is `Follows.call`. The flags tell how full it is, and
    the flag register shows them. -/

namespace Dimebox

namespace UartQueue

/-- `Reset`. -/
def reset (_ : UartQueue) : UartQueue := {}

/-- `BelowThreshhold`. -/
def belowThreshhold (q : UartQueue) : Bool :=
  if q.fifoEnabled then q.fifo.length ≤ q.threshhold else !q.holdingRegisterPrimed

/-- `AboveThreshhold`. -/
def aboveThreshhold (q : UartQueue) : Bool :=
  if q.fifoEnabled then q.threshhold ≤ q.fifo.length else q.holdingRegisterPrimed

inductive FifoCall where
  | putChar (c : Byte)
  | getChar
  | selectThreshhold (select : Nat)

/-- The characters at a threshold that is selected, in eighths of 16. -/
def level : Nat → Nat
  | 0 => 16 * 1 / 8
  | 1 => 16 * 2 / 8
  | 2 => 16 * 4 / 8
  | 3 => 16 * 6 / 8
  | 4 => 16 * 7 / 8
  | _ => 16

/-- A queue, the characters `PutChar` has accepted and those `GetChar` has returned, and the
    threshold that is selected. -/
structure FifoUse where
  queue : UartQueue
  accepted : List Byte := []
  returned : List Byte := []
  selected : Nat := 16

def FifoUse.call (u : FifoUse) : FifoCall → FifoUse
  | .putChar c =>
    let r := u.queue.putChar c
    { u with queue := r.2, accepted := u.accepted ++ if r.1 then [c] else [] }
  | .getChar =>
    let r := u.queue.getChar
    { u with queue := r.2, returned := u.returned ++ r.1.toList }
  | .selectThreshhold select =>
    { u with queue := u.queue.selectThreshhold select, selected := level select }

/-- A queue that has been reset, with the FIFO enabled. -/
def FifoUse.start (q : UartQueue) : FifoUse where
  queue := q.reset.setFifoEnable true

/-- How many characters have been accepted and not returned. -/
def FifoUse.pending (u : FifoUse) : Nat := u.accepted.length - u.returned.length

/-- The calls and the flags tell what is pending, and so does the flag register of a UART that
    transmits from the queue or receives into it. -/
structure FifoUse.Bounded (u : FifoUse) : Prop where
  inOrder : u.returned <+: u.accepted
  capacity : u.pending ≤ 16
  putChar : ∀ c, (u.queue.putChar c).1 = false ↔ u.pending = 16
  refused : ∀ c, (u.queue.putChar c).1 = false → (u.queue.putChar c).2 = u.queue
  getChar : u.queue.getChar.1 = none ↔ u.pending = 0
  next : u.queue.getChar.1 = u.accepted[u.returned.length]?
  nothing : u.queue.getChar.1 = none → u.queue.getChar.2 = u.queue
  full : u.queue.full = true ↔ u.pending = 16
  empty : u.queue.empty = true ↔ u.pending = 0
  above : u.queue.aboveThreshhold = true ↔ u.selected ≤ u.pending
  below : u.queue.belowThreshhold = true ↔ u.pending ≤ u.selected
  transmitStatus : ∀ uart : UartPl011, uart.transmitQueue = u.queue →
    (uart.updateStatus.uartfr.getLsbD 7 = true ↔ u.pending = 0) ∧
      (uart.updateStatus.uartfr.getLsbD 5 = true ↔ u.pending = 16)
  receiveStatus : ∀ uart : UartPl011, uart.receiveQueue = u.queue →
    (uart.updateStatus.uartfr.getLsbD 4 = true ↔ u.pending = 0) ∧
      (uart.updateStatus.uartfr.getLsbD 6 = true ↔ u.pending = 16)

/-! ### One call -/

variable {u : FifoUse} {t : BoundedQueue.Traffic Byte 16}

/-- The queue of the UART holds what the bounded queue holds. -/
structure Follows (u : FifoUse) (t : BoundedQueue.Traffic Byte 16) : Prop where
  enabled : u.queue.fifoEnabled = true
  fifo : u.queue.fifo = t.queue.pending
  threshhold : u.queue.threshhold = u.selected
  accepted : u.accepted = t.accepted
  returned : u.returned = t.returned

theorem Follows.start (q : UartQueue) : Follows (.start q) { queue := .empty } :=
  ⟨rfl, rfl, rfl, rfl, rfl⟩

theorem Follows.putChar_fst (h : Follows u t) (c : Byte) :
    (u.queue.putChar c).1 = (t.queue.put c).1 := by
  rw [putChar, if_pos h.enabled, h.fifo, BoundedQueue.put]
  split
  · next hfull => rw [dif_neg (Nat.not_lt.mpr hfull)]
  · next hroom => rw [dif_pos (Nat.not_le.mp hroom)]

theorem Follows.getChar_fst (h : Follows u t) : u.queue.getChar.1 = t.queue.get.1 := by
  have hhead : t.queue.get.1 = t.queue.pending.head? := rfl
  rw [getChar, if_pos h.enabled, h.fifo, hhead]
  cases t.queue.pending <;> rfl

theorem Follows.putChar (h : Follows u t) (c : Byte) : Follows (u.call (.putChar c)) (t.put c) := by
  have hpending := t.queue.put_pending c
  refine ⟨?_, ?_, ?_, ?_, h.returned⟩
  · rw [FifoUse.call, UartQueue.putChar, if_pos h.enabled]
    dsimp only
    split <;> exact h.enabled
  · rw [BoundedQueue.Traffic.put]
    dsimp only
    rw [hpending, ← h.putChar_fst, ← h.fifo, FifoUse.call, UartQueue.putChar, if_pos h.enabled]
    dsimp only
    split
    · exact (List.append_nil _).symm
    · rfl
  · rw [FifoUse.call, UartQueue.putChar, if_pos h.enabled]
    dsimp only
    split <;> exact h.threshhold
  · rw [FifoUse.call, BoundedQueue.Traffic.put]
    dsimp only
    rw [h.putChar_fst, h.accepted]

theorem Follows.getChar (h : Follows u t) : Follows (u.call .getChar) t.get := by
  have hfst := h.getChar_fst
  refine ⟨?_, ?_, ?_, h.accepted, ?_⟩
  · rw [FifoUse.call, UartQueue.getChar, if_pos h.enabled]
    cases u.queue.fifo <;> exact h.enabled
  · rw [BoundedQueue.Traffic.get, BoundedQueue.get]
    dsimp only
    rw [← h.fifo, FifoUse.call, UartQueue.getChar, if_pos h.enabled]
    cases hfifo : u.queue.fifo with
    | nil => exact hfifo
    | cons => rfl
  · rw [FifoUse.call, UartQueue.getChar, if_pos h.enabled]
    cases u.queue.fifo <;> exact h.threshhold
  · rw [FifoUse.call, BoundedQueue.Traffic.get]
    dsimp only
    rw [hfst, h.returned]

theorem threshhold_selectThreshhold (q : UartQueue) (select : Nat) :
    (q.selectThreshhold select).threshhold = level select := by
  match select with
  | 0 | 1 | 2 | 3 | 4 => rfl
  | _ + 5 => rfl

theorem Follows.selectThreshhold (h : Follows u t) (select : Nat) :
    Follows (u.call (.selectThreshhold select)) t :=
  ⟨h.enabled, h.fifo, u.queue.threshhold_selectThreshhold select, h.accepted, h.returned⟩

/-! ### The flag register -/

/-- TXFE, RXFF, TXFF and RXFE. -/
theorem updateStatus_queues (uart : UartPl011) :
    uart.updateStatus.uartfr.getLsbD 7 = uart.transmitQueue.empty ∧
      uart.updateStatus.uartfr.getLsbD 6 = uart.receiveQueue.full ∧
      uart.updateStatus.uartfr.getLsbD 5 = uart.transmitQueue.full ∧
      uart.updateStatus.uartfr.getLsbD 4 = uart.receiveQueue.empty := by
  rw [UartPl011.updateStatus]
  dsimp only
  cases uart.transmitQueue.empty <;> cases uart.receiveQueue.full <;>
    cases uart.transmitQueue.full <;> cases uart.receiveQueue.empty <;> decide

/-! ### Any sequence of calls -/

/-- A queue that follows a bounded queue, with nothing lost on the way. -/
def Queued (u : FifoUse) : Prop := ∃ t : BoundedQueue.Traffic Byte 16, t.InOrder ∧ Follows u t

theorem Queued.call (h : Queued u) (c : FifoCall) : Queued (u.call c) := by
  obtain ⟨t, hinOrder, hfollows⟩ := h
  cases c with
  | putChar c => exact ⟨t.put c, hinOrder.put c, hfollows.putChar c⟩
  | getChar => exact ⟨t.get, hinOrder.get, hfollows.getChar⟩
  | selectThreshhold select => exact ⟨t, hinOrder, hfollows.selectThreshhold select⟩

theorem Queued.bounded (h : Queued u) : u.Bounded := by
  obtain ⟨t, hinOrder, hfollows⟩ := h
  have hlength : u.queue.fifo.length = u.pending := by
    rw [hfollows.fifo, hinOrder.length_pending, FifoUse.pending, hfollows.accepted,
      hfollows.returned]
  have hcap : u.pending ≤ 16 := by
    rw [← hlength, hfollows.fifo]
    exact t.queue.bounded
  have hnext : u.queue.getChar.1 = u.accepted[u.returned.length]? := by
    rw [hfollows.getChar_fst, hfollows.accepted, hfollows.returned]
    exact hinOrder.head_pending
  have hfull : u.queue.full = true ↔ u.pending = 16 := by
    rw [UartQueue.full, if_pos hfollows.enabled, decide_eq_true_iff, hlength]
    omega
  have hempty : u.queue.empty = true ↔ u.pending = 0 := by
    rw [UartQueue.empty, if_pos hfollows.enabled, List.isEmpty_iff_length_eq_zero, hlength]
  refine ⟨?_, hcap, fun c => ?_, fun c hrefused => ?_, ?_, hnext, fun hnone => ?_, hfull, hempty,
    ?_, ?_, fun uart huart => ?_, fun uart huart => ?_⟩
  · rw [hfollows.accepted, hfollows.returned]
    exact hinOrder.returned_isPrefix
  · rw [hfollows.putChar_fst, BoundedQueue.put_false_iff, ← hfollows.fifo, hlength]
  · rw [UartQueue.putChar, if_pos hfollows.enabled] at hrefused ⊢
    split at hrefused
    · next hfull => rw [if_pos hfull]
    · cases hrefused
  · rw [hnext, List.getElem?_eq_none_iff, FifoUse.pending]
    omega
  · rw [UartQueue.getChar, if_pos hfollows.enabled] at hnone ⊢
    cases hfifo : u.queue.fifo with
    | nil => rfl
    | cons c cs =>
      rw [hfifo] at hnone
      cases hnone
  · rw [aboveThreshhold, if_pos hfollows.enabled, decide_eq_true_iff, hlength, hfollows.threshhold]
  · rw [belowThreshhold, if_pos hfollows.enabled, decide_eq_true_iff, hlength, hfollows.threshhold]
  · obtain ⟨htxfe, -, htxff, -⟩ := updateStatus_queues uart
    rw [htxfe, htxff, huart]
    exact ⟨hempty, hfull⟩
  · obtain ⟨-, hrxff, -, hrxfe⟩ := updateStatus_queues uart
    rw [hrxfe, hrxff, huart]
    exact ⟨hempty, hfull⟩

/-- For every sequence of calls on a queue that has been reset and had its FIFO enabled: it is a
    bounded queue of 16 characters after each of them. -/
theorem fifo_bounded (q : UartQueue) (calls : List FifoCall) :
    Calls.Always FifoUse.call FifoUse.Bounded (.start q) calls := by
  have hall : Calls.Respects FifoUse.call (fun _ _ => True) (.start q) calls :=
    Calls.respects_iff_forall.mpr fun _ _ => trivial
  have hstart : Queued (.start q) := ⟨_, BoundedQueue.Traffic.inOrder_empty, Follows.start q⟩
  exact Calls.always_of_respects Queued.bounded (fun h _ => h.call _) hstart hall

end UartQueue

end Dimebox
