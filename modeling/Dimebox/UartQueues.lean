import Dimebox.Devices
import Dimebox.Lib.Calls

/-! What becomes of the characters a `uart_queue` accepts.

    The queue has two storage places and a mode bit that selects one of them. Nothing is lost as
    long as a character is put into the holding register only when that is free, and the mode is
    only changed when the place in use is empty. Neither is checked: `PutChar` overwrites the
    holding register and still returns true, `SetFIFOenable` leaves characters where `GetChar` no
    longer looks. -/

namespace Dimebox

namespace UartQueue

inductive QueueCall where
  | putChar (c : Byte)
  | getChar
  | setFifoEnable (enable : Bool)

/-- A queue, with the characters `PutChar` has accepted and those `GetChar` has returned. -/
structure QueueUse where
  queue : UartQueue := {}
  accepted : List Byte := []
  returned : List Byte := []

def QueueUse.call (u : QueueUse) : QueueCall → QueueUse
  | .putChar c =>
    let r := u.queue.putChar c
    { u with queue := r.2, accepted := u.accepted ++ if r.1 then [c] else [] }
  | .getChar =>
    let r := u.queue.getChar
    { u with queue := r.2, returned := u.returned ++ r.1.toList }
  | .setFifoEnable enable => { u with queue := u.queue.setFifoEnable enable }

/-- `GetChar` called until it returns false, with the characters it returns. -/
inductive Drains : UartQueue → List Byte → Prop where
  | done {q : UartQueue} (h : q.getChar.1 = none) : Drains q []
  | next {q : UartQueue} {c : Byte} {cs : List Byte} (h : q.getChar.1 = some c)
      (hcs : Drains q.getChar.2 cs) : Drains q (c :: cs)

/-- Every accepted character is returned exactly once, in the order of acceptance, if the queue is
    now drained. -/
def QueueUse.Lossless (u : QueueUse) : Prop := ∃ cs, Drains u.queue cs ∧ u.returned ++ cs = u.accepted

/-- The calls that lose nothing: no put into a primed holding register, no change of mode with
    characters in the place in use. -/
def Careful (q : UartQueue) : QueueCall → Prop
  | .putChar _ => q.fifoEnabled ∨ ¬ q.full
  | .getChar => True
  | .setFifoEnable enable => enable = q.fifoEnabled ∨ q.empty

/-! ### The two storage places -/

/-- The characters in the FIFO, or in the holding register. -/
def stored (q : UartQueue) : Bool → List Byte
  | true => q.fifo
  | false => if q.holdingRegisterPrimed then [q.holdingRegister] else []

/-- What `GetChar` can see. -/
def contents (q : UartQueue) : List Byte := q.stored q.fifoEnabled

/-- What it cannot see. -/
def hidden (q : UartQueue) : List Byte := q.stored !q.fifoEnabled

theorem empty_iff (q : UartQueue) : q.empty ↔ q.contents = [] := by
  cases he : q.fifoEnabled <;> simp [empty, contents, stored, he]

/-- A `GetChar` takes the first character it can see. -/
theorem getChar_spec (q : UartQueue) : q.getChar.1 = q.contents.head? ∧
    q.getChar.2.contents = q.contents.tail ∧ q.getChar.2.hidden = q.hidden := by
  cases he : q.fifoEnabled with
  | true => cases hf : q.fifo <;> simp [getChar, contents, hidden, stored, he, hf]
  | false => cases hp : q.holdingRegisterPrimed <;> simp [getChar, contents, hidden, stored, he, hp]

theorem drains_iff {q : UartQueue} {cs : List Byte} : Drains q cs ↔ cs = q.contents := by
  obtain ⟨hget, htail, -⟩ := q.getChar_spec
  constructor
  · intro h
    clear hget htail
    induction h with
    | @done q h =>
      rw [q.getChar_spec.1] at h
      exact (List.head?_eq_none_iff.mp h).symm
    | @next q c cs h _ ih =>
      rw [q.getChar_spec.1] at h
      rw [ih, q.getChar_spec.2.1]
      exact List.cons_head?_tail h
  · rintro rfl
    induction hc : q.contents generalizing q with
    | nil => exact .done (by rw [hget, hc]; rfl)
    | cons c cs ih =>
      have hrest : q.getChar.2.contents = cs := by rw [htail, hc]; rfl
      obtain ⟨hget', htail', -⟩ := q.getChar.2.getChar_spec
      exact .next (by rw [hget, hc]; rfl) (ih hget' htail' hrest)

theorem lossless_iff_inOrder {u : QueueUse} :
    u.Lossless ↔ u.returned ++ u.queue.contents = u.accepted := by
  simp [QueueUse.Lossless, drains_iff]

/-- A `PutChar` that is refused changes nothing. -/
theorem putChar_refused {q : UartQueue} {c : Byte} (h : (q.putChar c).1 = false) :
    (q.putChar c).2 = q := by
  cases he : q.fifoEnabled with
  | true =>
    by_cases hlen : 16 ≤ q.fifo.length
    · simp [putChar, he, hlen]
    · simp [putChar, he, hlen] at h
  | false => simp [putChar, he] at h

/-- An accepted character comes last, unless it overwrites one. -/
theorem putChar_accepted {q : UartQueue} {c : Byte} (h : (q.putChar c).1 = true) :
    (q.putChar c).2.hidden = q.hidden ∧ (q.putChar c).2.contents =
      if q.fifoEnabled ∨ ¬ q.full then q.contents ++ [c] else [c] := by
  cases he : q.fifoEnabled with
  | true =>
    by_cases hlen : 16 ≤ q.fifo.length
    · simp [putChar, he, hlen] at h
    · simp [putChar, he, hlen, contents, hidden, stored]
  | false =>
    cases hp : q.holdingRegisterPrimed <;> simp [putChar, he, hp, contents, hidden, stored, full]

/-! ### One call -/

/-- Nothing lost, and nothing out of sight. -/
structure Kept (u : QueueUse) : Prop where
  inOrder : u.returned ++ u.queue.contents = u.accepted
  visible : u.queue.hidden = []

theorem Kept.lossless {u : QueueUse} (h : Kept u) : u.Lossless := lossless_iff_inOrder.mpr h.inOrder

theorem Kept.call {u : QueueUse} {c : QueueCall} (h : Kept u) (hc : Careful u.queue c) :
    Kept (u.call c) := by
  cases c with
  | putChar c =>
    cases hp : (u.queue.putChar c).1 with
    | false => exact ⟨by simp [QueueUse.call, hp, putChar_refused hp, h.inOrder],
        by rw [QueueUse.call, putChar_refused hp]; exact h.visible⟩
    | true =>
      obtain ⟨hhidden, hcontents⟩ := putChar_accepted hp
      have hroom : u.queue.fifoEnabled = true ∨ ¬ u.queue.full = true := hc
      rw [if_pos hroom] at hcontents
      refine ⟨?_, hhidden.trans h.visible⟩
      simp only [QueueUse.call, hp, hcontents, if_true]
      rw [← List.append_assoc, h.inOrder]
  | getChar =>
    obtain ⟨hget, htail, hhidden⟩ := u.queue.getChar_spec
    refine ⟨?_, hhidden.trans h.visible⟩
    simp only [QueueUse.call, hget, htail]
    rw [List.append_assoc, ← h.inOrder]
    cases u.queue.contents <;> simp
  | setFifoEnable enable =>
    rcases hc with hsame | hempty
    · have hq : u.queue.setFifoEnable enable = u.queue := by rw [hsame]; rfl
      exact ⟨by rw [QueueUse.call, hq]; exact h.inOrder, by rw [QueueUse.call, hq]; exact h.visible⟩
    · -- both places are empty, whichever is selected
      have hstored : ∀ b, u.queue.stored b = [] := by
        intro b
        by_cases hb : b = u.queue.fifoEnabled
        · rw [hb]
          exact (empty_iff _).mp hempty
        · rw [Bool.eq_not.mpr hb]
          exact h.visible
      have hacc : u.returned = u.accepted := by
        rw [← h.inOrder, (empty_iff _).mp hempty, List.append_nil]
      refine ⟨?_, hstored _⟩
      have hnone : (u.queue.setFifoEnable enable).contents = [] := hstored enable
      simp only [QueueUse.call, hnone, List.append_nil, hacc]

/-- A call that is not careful loses a character, or leaves some where they are not found. -/
theorem Kept.careful_of_lossless {u : QueueUse} {c : QueueCall} (h : Kept u)
    (hl : (u.call c).Lossless) : Careful u.queue c := by
  rw [lossless_iff_inOrder] at hl
  have hbefore := congrArg List.length h.inOrder
  cases c with
  | putChar c =>
    by_contra hfull
    have hroom : ¬ (u.queue.fifoEnabled = true ∨ ¬ u.queue.full = true) := hfull
    have hp : (u.queue.putChar c).1 = true := by
      cases he : u.queue.fifoEnabled with
      | true => exact absurd (Or.inl he) hroom
      | false => simp [putChar, he]
    have hprimed : u.queue.contents.length = 1 := by
      cases he : u.queue.fifoEnabled with
      | true => exact absurd (Or.inl he) hroom
      | false =>
        have hfullP : u.queue.full = true := by
          by_contra hf
          exact hroom (Or.inr hf)
        rw [full, he] at hfullP
        simp at hfullP
        simp [contents, stored, he, hfullP]
    have hafter := congrArg List.length hl
    simp only [QueueUse.call, (putChar_accepted hp).2, if_neg hroom, hp, if_true,
      List.length_append, List.length_singleton] at hafter hbefore
    omega
  | getChar => trivial
  | setFifoEnable enable =>
    by_cases hsame : enable = u.queue.fifoEnabled
    · exact Or.inl hsame
    · refine Or.inr ((empty_iff _).mpr ?_)
      have hnot : enable = !u.queue.fifoEnabled := Bool.eq_not.mpr hsame
      have hnone : (u.queue.setFifoEnable enable).contents = [] := by
        rw [hnot]
        exact h.visible
      have hafter := congrArg List.length hl
      simp only [QueueUse.call, hnone, List.length_append, List.length_nil] at hafter hbefore
      exact List.length_eq_zero_iff.mp (by omega)

/-! ### Sequences of calls -/

theorem kept_start : Kept {} := ⟨rfl, rfl⟩

/-- For every sequence of calls on a fresh queue: no accepted character is lost, repeated or out of
    order at any point of it exactly if every call is careful. -/
theorem no_character_lost_iff (calls : List QueueCall) :
    Calls.Always QueueUse.call QueueUse.Lossless {} calls ↔
      Calls.Respects QueueUse.call (fun u => Careful u.queue) {} calls :=
  Calls.always_iff_respects Kept.lossless Kept.call Kept.careful_of_lossless kept_start

/-- Two puts without the FIFO: both are accepted, only the second comes back. -/
theorem second_put_overwrites :
    ¬ ∀ calls, Calls.Always QueueUse.call QueueUse.Lossless {} calls := by
  intro h
  have hl := lossless_iff_inOrder.mp (h [.putChar 0x61, .putChar 0x62] 2)
  exact absurd (congrArg List.length hl) (by decide)

end UartQueue

end Dimebox
