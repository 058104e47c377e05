import Dimebox.UartQueues

/-! The UART as a line between a terminal and a guest.

    What is typed reaches the guest, and what the guest writes reaches stdout, in order and complete,
    if the guest looks at the flags: it writes a character only while the transmit queue has room, and
    switches the FIFOs only while both queues are empty. Nothing else can lose a character, whatever
    is read, written or ticks in between, and a guest that does not look loses one at once. -/

namespace Dimebox

namespace UartPl011

open UartQueue (contents hidden)

/-- What happens at the UART: a register is read or written, a key is typed, `ServiceDevices` comes
    by. -/
inductive LineEvent where
  | read (pa : U64)
  | write (pa : U64) (rval : U32)
  | key (c : Byte)
  | tick

/-- The UART and the terminal. -/
structure SerialLine where
  uart : UartPl011
  /-- the characters that wait on stdin -/
  stdin : List Byte := []
  /-- what `Transmit` has put on stdout, without the lines `Receive` prints there -/
  stdout : List Byte := []
  /-- every key so far -/
  typed : List Byte := []
  /-- what was read from the data register, but for zeros -/
  given : List Byte := []
  /-- what was written to the data register -/
  written : List Byte := []

namespace SerialLine

def event (l : SerialLine) : LineEvent → SerialLine
  | .read pa =>
    let r := l.uart.readReg pa
    let given := if registerIndex pa = some .dr ∧ r.2.1 ≠ 0 then [r.2.1.setWidth 8] else []
    { l with uart := r.2.2, given := l.given ++ given }
  | .write pa rval =>
    let written := if registerIndex pa = some .dr then [rval.setWidth 8] else []
    { l with uart := (l.uart.writeReg pa rval).2, written := l.written ++ written }
  | .key c => { l with stdin := l.stdin ++ [c], typed := l.typed ++ [c] }
  | .tick =>
    { l with
      uart := l.uart.advanceClock.serviceIos l.stdin.head?
      -- `Receive` takes no character while the queue is full
      stdin := if l.uart.receiveQueue.full then l.stdin else l.stdin.tail
      stdout := l.stdout ++ l.uart.transmit.1.toList }

/-- The characters that are not NUL, which `Receive` drops. -/
def text (cs : List Byte) : List Byte := cs.filter (· ≠ 0)

/-- What was written is on stdout or about to be sent, what was typed has been read or can be. -/
structure Lossless (l : SerialLine) : Prop where
  sent : l.stdout ++ l.uart.transmitQueue.contents = l.written
  received : l.given ++ l.uart.receiveQueue.contents ++ text l.stdin = text l.typed

end SerialLine

/-- `FEN` of LCR_H. -/
def fen (rval : U32) : Bool := ((rval &&& 0xff) >>> 4) &&& 1 = 1

/-- The guest writes to the data register while TXFF is clear, and changes FEN while TXFE and RXFE are
    set. -/
def Heeds (u : UartPl011) : LineEvent → Prop
  | .write pa rval =>
    (registerIndex pa = some .dr → u.transmitQueue.full = false) ∧
      (registerIndex pa = some .lcrH → fen rval = u.transmitQueue.fifoEnabled ∨
        (u.transmitQueue.empty = true ∧ u.receiveQueue.empty = true))
  | _ => True

/-! ### What an access does to the queues -/

theorem readReg_queues (u : UartPl011) (pa : U64) :
    (u.readReg pa).2.2.transmitQueue = u.transmitQueue ∧
      (registerIndex pa ≠ some .dr → (u.readReg pa).2.2.receiveQueue = u.receiveQueue) := by
  unfold readReg
  cases registerIndex pa with
  | none => exact ⟨rfl, fun _ => rfl⟩
  | some r =>
    cases r
    case dr =>
      refine ⟨?_, fun h => absurd rfl h⟩
      dsimp only
      split <;> rfl
    all_goals exact ⟨rfl, fun _ => rfl⟩

/-- A read of the data register takes the first character there is. -/
theorem readReg_dr (u : UartPl011) {pa : U64} (h : registerIndex pa = some .dr) :
    (u.readReg pa).2.1 = (u.receiveQueue.contents.head?.getD 0).setWidth 32 ∧
      (u.readReg pa).2.2.receiveQueue = u.receiveQueue.getChar.2 := by
  obtain ⟨hget, -, -⟩ := u.receiveQueue.getChar_spec
  simp only [readReg, h]
  split
  · next hempty =>
    have hnone : u.receiveQueue.contents = [] := (UartQueue.empty_iff _).mp hempty
    rw [hnone] at hget ⊢
    refine ⟨rfl, ?_⟩
    cases he : u.receiveQueue.fifoEnabled with
    | true =>
      have hfifo : u.receiveQueue.fifo = [] := by
        simpa [UartQueue.contents, UartQueue.stored, he] using hnone
      simp [UartQueue.getChar, he, hfifo]
    | false =>
      have hprimed : u.receiveQueue.holdingRegisterPrimed = false := by
        simpa [UartQueue.contents, UartQueue.stored, he] using hnone
      simp [UartQueue.getChar, he, hprimed]
  · exact ⟨by rw [hget], rfl⟩

/-- What a write makes of a queue: only LCR_H and IFLS, and DR for the queue that transmits. -/
theorem writeReg_queues (u : UartPl011) (pa : U64) (rval : U32) :
    ((u.writeReg pa rval).2.transmitQueue, (u.writeReg pa rval).2.receiveQueue)
      = match registerIndex pa with
        | some .dr => ((u.transmitQueue.putChar (rval.setWidth 8)).2, u.receiveQueue)
        | some .lcrH =>
          (u.transmitQueue.setFifoEnable (fen rval), u.receiveQueue.setFifoEnable (fen rval))
        | some .ifls =>
          (u.transmitQueue.selectThreshhold ((rval &&& 0x3f) &&& 7).toNat,
            u.receiveQueue.selectThreshhold (((rval &&& 0x3f) >>> 3) &&& 7).toNat)
        | _ => (u.transmitQueue, u.receiveQueue) := by
  unfold writeReg
  cases registerIndex pa with
  | none => rfl
  | some r => cases r <;> rfl

theorem setOverrun_queues (u : UartPl011) (overrun : Bool) :
    (u.setOverrun overrun).transmitQueue = u.transmitQueue ∧
      (u.setOverrun overrun).receiveQueue = u.receiveQueue := by
  cases overrun <;> exact ⟨rfl, rfl⟩

/-- `Receive` queues a character unless there is none, or no room. -/
theorem receive_queues (u : UartPl011) (stdin : Option Byte) :
    (u.receive stdin).transmitQueue = u.transmitQueue ∧
      (u.receive stdin).receiveQueue = if u.receiveQueue.full ∨ stdin.getD 0 = 0
        then u.receiveQueue else (u.receiveQueue.putChar (stdin.getD 0)).2 := by
  obtain ⟨ht, hr⟩ := u.setOverrun_queues true
  obtain ⟨ht', hr'⟩ := u.setOverrun_queues false
  unfold receive
  dsimp only
  by_cases hfull : u.receiveQueue.full
  · rw [if_pos hfull, if_pos (Or.inl hfull)]
    exact ⟨ht, hr⟩
  · rw [if_neg hfull]
    by_cases hnul : stdin.getD 0 = 0
    · rw [if_pos hnul, if_pos (Or.inr hnul)]
      exact ⟨ht', hr'⟩
    · rw [if_neg hnul, if_neg (not_or.mpr ⟨hfull, hnul⟩)]
      exact ⟨ht', by rw [hr']⟩

theorem getChar_fifoEnabled (q : UartQueue) : q.getChar.2.fifoEnabled = q.fifoEnabled := by
  unfold UartQueue.getChar
  split
  · split <;> rfl
  · split <;> rfl

theorem putChar_fifoEnabled (q : UartQueue) (c : Byte) :
    (q.putChar c).2.fifoEnabled = q.fifoEnabled := by
  unfold UartQueue.putChar
  split
  · split <;> rfl
  · rfl

/-- A queue that is not full takes the character. -/
theorem putChar_of_room {q : UartQueue} (h : q.full = false) (c : Byte) :
    (q.putChar c).1 = true ∧ (q.putChar c).2.contents = q.contents ++ [c] ∧
      (q.putChar c).2.hidden = q.hidden := by
  have hput : (q.putChar c).1 = true := by
    unfold UartQueue.full at h
    unfold UartQueue.putChar
    split
    · next he =>
      rw [if_pos he] at h
      rw [if_neg (of_decide_eq_false h)]
    · rfl
  obtain ⟨hhidden, hcontents⟩ := UartQueue.putChar_accepted hput
  rw [if_pos (Or.inr (by rw [h]; decide))] at hcontents
  exact ⟨hput, hcontents, hhidden⟩

/-! ### One event -/

namespace SerialLine

/-- Nothing lost, nothing out of sight, and the two queues in one mode. -/
structure Kept (l : SerialLine) : Prop where
  sent : UartQueue.Kept
    { queue := l.uart.transmitQueue
      accepted := l.written
      returned := l.stdout }
  received : l.given ++ l.uart.receiveQueue.contents ++ text l.stdin = text l.typed
  visible : l.uart.receiveQueue.hidden = []
  mode : l.uart.receiveQueue.fifoEnabled = l.uart.transmitQueue.fifoEnabled
  plain : ∀ c ∈ l.uart.receiveQueue.contents, c ≠ 0

/-- The queue that receives, as one in use by the guest. -/
theorem Kept.receiver {l : SerialLine} (h : Kept l) : UartQueue.Kept
    { queue := l.uart.receiveQueue
      accepted := l.given ++ l.uart.receiveQueue.contents
      returned := l.given } := ⟨rfl, h.visible⟩

theorem Kept.lossless {l : SerialLine} (h : Kept l) : Lossless l := ⟨h.sent.inOrder, h.received⟩

/-- Reading a character and widening it back and forth. -/
theorem setWidth_back (c : Byte) : (c.setWidth 32 : U32).setWidth 8 = c := by
  rw [BitVec.setWidth_setWidth_of_le _ (by decide), BitVec.setWidth_eq]

theorem Kept.read {l : SerialLine} (h : Kept l) (pa : U64) : Kept (l.event (.read pa)) := by
  obtain ⟨htransmit, hreceive⟩ := l.uart.readReg_queues pa
  have hsent : UartQueue.Kept
      { queue := (l.uart.readReg pa).2.2.transmitQueue, accepted := l.written
        returned := l.stdout } := by
    rw [htransmit]
    exact h.sent
  by_cases hdr : registerIndex pa = some .dr
  · obtain ⟨hvalue, hqueue⟩ := l.uart.readReg_dr hdr
    obtain ⟨-, htail, hhidden⟩ := l.uart.receiveQueue.getChar_spec
    refine ⟨hsent, ?_, ?_, ?_, ?_⟩
    · have hreceived := h.received
      simp only [event, hdr, hqueue, htail, hvalue]
      cases hc : l.uart.receiveQueue.contents with
      | nil =>
        rw [hc] at hreceived
        simpa using hreceived
      | cons c cs =>
        have hne : c ≠ 0 := h.plain c (by rw [hc]; exact List.mem_cons_self)
        have hwide : ¬ c.setWidth 32 = 0#32 := by
          intro h0
          rw [← setWidth_back c, h0] at hne
          exact hne rfl
        rw [hc] at hreceived
        simpa [hwide, setWidth_back] using hreceived
    · simp only [event, hqueue, hhidden, h.visible]
    · simp only [event, hqueue, htransmit, getChar_fifoEnabled, h.mode]
    · simp only [event, hqueue, htail]
      intro c hc
      exact h.plain c (List.mem_of_mem_tail hc)
  · have hqueue := hreceive hdr
    refine ⟨hsent, ?_, ?_, ?_, ?_⟩
    · simpa [event, hdr, hqueue] using h.received
    · simp only [event, hqueue, h.visible]
    · simp only [event, hqueue, htransmit, h.mode]
    · simp only [event, hqueue]
      exact h.plain

theorem Kept.write {l : SerialLine} (h : Kept l) {pa : U64} {rval : U32}
    (he : Heeds l.uart (.write pa rval)) : Kept (l.event (.write pa rval)) := by
  obtain ⟨hdr, hlcr⟩ := he
  have hqueues := l.uart.writeReg_queues pa rval
  by_cases hr : registerIndex pa = some .dr
  · -- the character goes into the queue that transmits
    rw [hr] at hqueues
    obtain ⟨htransmit, hreceive⟩ := Prod.mk.inj hqueues
    obtain ⟨hput, -, -⟩ := putChar_of_room (hdr hr) (rval.setWidth 8)
    have hcareful : UartQueue.Careful l.uart.transmitQueue (.putChar (rval.setWidth 8)) :=
      Or.inr (by rw [hdr hr]; decide)
    have hsent := h.sent.call hcareful
    simp only [UartQueue.QueueUse.call, hput, if_true] at hsent
    refine ⟨?_, ?_, ?_, ?_, ?_⟩
    · simpa [event, hr, htransmit] using hsent
    · simpa only [event, hreceive] using h.received
    · simpa only [event, hreceive] using h.visible
    · simpa only [event, hreceive, htransmit, putChar_fifoEnabled] using h.mode
    · simpa only [event, hreceive] using h.plain
  · by_cases hl : registerIndex pa = some .lcrH
    · rw [hl] at hqueues
      obtain ⟨htransmit, hreceive⟩ := Prod.mk.inj hqueues
      have hcareful : UartQueue.Careful l.uart.transmitQueue (.setFifoEnable (fen rval)) :=
        (hlcr hl).imp_right And.left
      have hcareful' : UartQueue.Careful l.uart.receiveQueue (.setFifoEnable (fen rval)) :=
        (hlcr hl).imp (fun heq => heq.trans h.mode.symm) And.right
      have hsent := h.sent.call hcareful
      have hkept := h.receiver.call hcareful'
      simp only [UartQueue.QueueUse.call] at hsent hkept
      have hcontents : (l.uart.receiveQueue.setFifoEnable (fen rval)).contents
          = l.uart.receiveQueue.contents := List.append_cancel_left hkept.inOrder
      refine ⟨?_, ?_, ?_, ?_, ?_⟩
      · simpa [event, hl, htransmit] using hsent
      · simpa only [event, hreceive, hcontents] using h.received
      · simpa only [event, hreceive] using hkept.visible
      · simp only [event, hreceive, htransmit]
        rfl
      · simpa only [event, hreceive, hcontents] using h.plain
    · -- thresholds aside, the queues stay as they are
      have hsame : ((l.uart.writeReg pa rval).2.transmitQueue.contents
            = l.uart.transmitQueue.contents ∧
          (l.uart.writeReg pa rval).2.transmitQueue.hidden = l.uart.transmitQueue.hidden ∧
          (l.uart.writeReg pa rval).2.transmitQueue.fifoEnabled = l.uart.transmitQueue.fifoEnabled) ∧
          (l.uart.writeReg pa rval).2.receiveQueue.contents = l.uart.receiveQueue.contents ∧
          (l.uart.writeReg pa rval).2.receiveQueue.hidden = l.uart.receiveQueue.hidden ∧
          (l.uart.writeReg pa rval).2.receiveQueue.fifoEnabled = l.uart.receiveQueue.fifoEnabled := by
        cases hi : registerIndex pa with
        | none =>
          rw [hi] at hqueues
          obtain ⟨htransmit, hreceive⟩ := Prod.mk.inj hqueues
          rw [htransmit, hreceive]
          exact ⟨⟨rfl, rfl, rfl⟩, rfl, rfl, rfl⟩
        | some r =>
          rw [hi] at hqueues
          cases r
          case dr => exact absurd hi hr
          case lcrH => exact absurd hi hl
          all_goals
            obtain ⟨htransmit, hreceive⟩ := Prod.mk.inj hqueues
            rw [htransmit, hreceive]
            exact ⟨⟨rfl, rfl, rfl⟩, rfl, rfl, rfl⟩
      obtain ⟨⟨hcontents, hhidden, hmode⟩, hcontents', hhidden', hmode'⟩ := hsame
      refine ⟨⟨?_, ?_⟩, ?_, ?_, ?_, ?_⟩
      · simpa [event, hr, hcontents] using h.sent.inOrder
      · simpa only [event, hhidden] using h.sent.visible
      · simpa only [event, hcontents'] using h.received
      · simpa only [event, hhidden'] using h.visible
      · simpa only [event, hmode, hmode'] using h.mode
      · simpa only [event, hcontents'] using h.plain

theorem Kept.key {l : SerialLine} (h : Kept l) (c : Byte) : Kept (l.event (.key c)) := by
  refine ⟨h.sent, ?_, h.visible, h.mode, h.plain⟩
  have hreceived := h.received
  simp only [event, text, List.filter_append] at hreceived ⊢
  rw [← List.append_assoc, hreceived]

theorem Kept.tick {l : SerialLine} (h : Kept l) : Kept (l.event .tick) := by
  have hsent := h.sent.call (c := .getChar) trivial
  obtain ⟨htransmit, hreceive⟩ := l.uart.advanceClock.transmit.2.receive_queues l.stdin.head?
  have hsent' : UartQueue.Kept
      { queue := (l.event .tick).uart.transmitQueue
        accepted := (l.event .tick).written
        returned := (l.event .tick).stdout } := by
    simp only [event, serviceIos, htransmit]
    exact hsent
  have hqueue : (l.event .tick).uart.receiveQueue
      = if l.uart.receiveQueue.full ∨ l.stdin.head?.getD 0 = 0 then l.uart.receiveQueue
        else (l.uart.receiveQueue.putChar (l.stdin.head?.getD 0)).2 := hreceive
  have hmode : (l.event .tick).uart.transmitQueue.fifoEnabled = l.uart.transmitQueue.fifoEnabled := by
    simp only [event, serviceIos, htransmit]
    exact getChar_fifoEnabled _
  have hstay : (l.event .tick).uart.receiveQueue = l.uart.receiveQueue →
      text (l.event .tick).stdin = text l.stdin → Kept (l.event .tick) := by
    intro hsame htext
    refine ⟨hsent', ?_, by rw [hsame, h.visible], by rw [hsame, hmode, h.mode], ?_⟩
    · rw [hsame, htext]
      exact h.received
    · rw [hsame]
      exact h.plain
  cases hfull : l.uart.receiveQueue.full with
  | true =>
    rw [hfull, if_pos (Or.inl rfl)] at hqueue
    exact hstay hqueue (by simp [event, hfull])
  | false =>
    have hstdin : (l.event .tick).stdin = l.stdin.tail := by simp [event, hfull]
    cases hs : l.stdin with
    | nil =>
      rw [hs, List.head?_nil, Option.getD_none, if_pos (Or.inr rfl)] at hqueue
      exact hstay hqueue (by rw [hstdin, hs]; rfl)
    | cons c cs =>
      rw [hs, List.head?_cons, Option.getD_some] at hqueue
      by_cases hnul : c = 0
      · rw [if_pos (Or.inr hnul)] at hqueue
        exact hstay hqueue (by rw [hstdin, hs]; simp [text, hnul])
      · obtain ⟨-, hcontents, hhidden⟩ := putChar_of_room hfull c
        rw [hfull, if_neg (not_or.mpr ⟨by decide, hnul⟩)] at hqueue
        refine ⟨hsent', ?_, ?_, ?_, ?_⟩
        · have htext : text (c :: cs) = c :: text cs :=
            List.filter_cons_of_pos (decide_eq_true hnul)
          have hreceived := h.received
          rw [hs, htext] at hreceived
          rw [hqueue, hstdin, hs, hcontents, ← List.append_assoc, List.append_assoc _ [c]]
          exact hreceived
        · rw [hqueue]
          exact hhidden.trans h.visible
        · rw [hqueue, hmode, ← h.mode]
          exact putChar_fifoEnabled _ c
        · rw [hqueue, hcontents]
          intro d hd
          rcases List.mem_append.mp hd with hd | hd
          · exact h.plain d hd
          · rw [List.mem_singleton.mp hd]
            exact hnul

theorem Kept.event {l : SerialLine} {e : LineEvent} (h : Kept l) (he : Heeds l.uart e) :
    Kept (l.event e) := by
  cases e with
  | read pa => exact h.read pa
  | write pa rval => exact h.write he
  | key c => exact h.key c
  | tick => exact h.tick

/-- A full queue takes nothing, or drops the character it has. -/
theorem length_putChar_of_full {q : UartQueue} (h : q.full = true) (c : Byte) :
    (q.putChar c).2.contents.length = q.contents.length := by
  cases he : q.fifoEnabled with
  | true =>
    have hlen : 16 ≤ q.fifo.length := by simpa [UartQueue.full, he] using h
    rw [UartQueue.putChar, if_pos he, if_pos hlen]
  | false =>
    have hprimed : q.holdingRegisterPrimed = true := by simpa [UartQueue.full, he] using h
    simp [UartQueue.putChar, UartQueue.contents, UartQueue.stored, he, hprimed]

/-- A write against the flags loses something at once. -/
theorem Kept.heeds_of_lossless {l : SerialLine} {e : LineEvent} (h : Kept l)
    (hl : Lossless (l.event e)) : Heeds l.uart e := by
  cases e with
  | read pa => trivial
  | key c => trivial
  | tick => trivial
  | write pa rval =>
    have hqueues := l.uart.writeReg_queues pa rval
    refine ⟨fun hr => ?_, fun hr => ?_⟩
    · rw [hr] at hqueues
      obtain ⟨htransmit, -⟩ := Prod.mk.inj hqueues
      cases hfull : l.uart.transmitQueue.full with
      | false => rfl
      | true =>
        have hbefore := congrArg List.length h.sent.inOrder
        have hafter := congrArg List.length hl.sent
        simp only [SerialLine.event, htransmit, hr, if_true, List.length_append,
          length_putChar_of_full hfull, List.length_singleton] at hbefore hafter
        omega
    · rw [hr] at hqueues
      obtain ⟨htransmit, hreceive⟩ := Prod.mk.inj hqueues
      have hsent : UartQueue.Careful l.uart.transmitQueue (.setFifoEnable (fen rval)) := by
        refine h.sent.careful_of_lossless (UartQueue.lossless_iff_inOrder.mpr ?_)
        have hafter := hl.sent
        simpa [UartQueue.QueueUse.call, SerialLine.event, hr, htransmit] using hafter
      have hreceived : UartQueue.Careful l.uart.receiveQueue (.setFifoEnable (fen rval)) := by
        refine h.receiver.careful_of_lossless (UartQueue.lossless_iff_inOrder.mpr ?_)
        have hafter := hl.received
        simp only [SerialLine.event, hreceive] at hafter
        exact List.append_cancel_right (hafter.trans h.received.symm)
      rcases hsent with hsame | hempty
      · exact Or.inl hsame
      · rcases hreceived with hsame | hempty'
        · exact Or.inl (hsame.trans h.mode)
        · exact Or.inr ⟨hempty, hempty'⟩

/-! ### Any sequence of events -/

theorem kept_reset (u : UartPl011) : Kept { uart := u.reset } :=
  ⟨UartQueue.kept_start, rfl, rfl, rfl, by rintro c ⟨⟩⟩

/-- Whatever is typed, read, written and ticked at a UART that has been reset: at every point all
    that was written is on stdout or in the queue, in order, and all that was typed has been read, is
    in the queue or waits, in order, exactly if the guest heeds the flags. -/
theorem serial_line_lossless_iff (u : UartPl011) (events : List LineEvent) :
    Calls.Always SerialLine.event Lossless { uart := u.reset } events ↔
      Calls.Respects SerialLine.event (fun l => Heeds l.uart) { uart := u.reset } events :=
  Calls.always_iff_respects Kept.lossless Kept.event Kept.heeds_of_lossless (kept_reset u)

end SerialLine

end UartPl011

end Dimebox
