import Dimebox.AccessRuns
import Dimebox.SerialLine
import Dimebox.UartRegisters

/-! The UART in every run.

    Whatever the cores execute, the debug client asks for, the images hold and the terminal types, the
    UART stays well formed: its queues are bounded and in the mode that LCR_H says, the receive queue
    holds no NUL, and no register has a bit that its writes do not store. -/

namespace Dimebox

namespace UartQueue

/-- A queue within its bounds, with characters that satisfy `P`. -/
structure Holds (P : Byte → Prop) (q : UartQueue) : Prop where
  length : q.fifo.length ≤ 16
  threshhold : q.threshhold ∈ [2, 4, 8, 12, 14, 16]
  fifo : ∀ c ∈ q.fifo, P c
  register : q.holdingRegisterPrimed = true → P q.holdingRegister

variable {P : Byte → Prop} {q : UartQueue}

theorem Holds.getChar (h : Holds P q) : Holds P q.getChar.2 := by
  unfold UartQueue.getChar
  split
  · split
    · exact h
    · next c cs hcs =>
      have hlength := h.length
      rw [hcs, List.length_cons] at hlength
      refine ⟨by dsimp only; omega, h.threshhold, fun d hd => h.fifo d ?_, h.register⟩
      rw [hcs]
      exact List.mem_cons_of_mem c hd
  · split
    · exact ⟨h.length, h.threshhold, h.fifo, by rintro ⟨⟩⟩
    · exact h

theorem Holds.putChar (h : Holds P q) {c : Byte} (hc : P c) : Holds P (q.putChar c).2 := by
  unfold UartQueue.putChar
  split
  · split
    · exact h
    · next hlt =>
      refine ⟨?_, h.threshhold, fun d hd => ?_, h.register⟩
      · simp only [List.length_append, List.length_singleton]
        omega
      · rcases List.mem_append.mp hd with hd | hd
        · exact h.fifo d hd
        · rw [List.mem_singleton.mp hd]
          exact hc
  · exact ⟨h.length, h.threshhold, h.fifo, fun _ => hc⟩

theorem Holds.setFifoEnable (h : Holds P q) (enable : Bool) : Holds P (q.setFifoEnable enable) :=
  ⟨h.length, h.threshhold, h.fifo, h.register⟩

theorem Holds.selectThreshhold (h : Holds P q) (select : Nat) :
    Holds P (q.selectThreshhold select) := by
  refine ⟨h.length, ?_, h.fifo, h.register⟩
  unfold UartQueue.selectThreshhold
  dsimp only
  split <;> decide

end UartQueue

namespace UartPl011

structure WellFormed (u : UartPl011) : Prop where
  transmit : u.transmitQueue.Holds fun _ => True
  receive : u.receiveQueue.Holds (· ≠ 0)
  mode : u.receiveQueue.fifoEnabled = u.transmitQueue.fifoEnabled
  fen : u.transmitQueue.fifoEnabled = u.uartlcrH.getLsbD 4
  config : ∀ r : ConfigReg, r.stored u &&& ~~~r.implemented = 0
  rsr : u.uartrsr &&& ~~~0x8 = 0
  ris : u.uartris &&& ~~~0x7ff = 0

theorem wellFormed_reset (u : UartPl011) : WellFormed u.reset := by
  have hqueue : ∀ P, UartQueue.Holds P {} := by
    intro P
    exact ⟨by decide, by decide, by simp, by rintro ⟨⟩⟩
  refine ⟨hqueue _, hqueue _, rfl, by simp [reset], fun r => ?_, by simp [reset], by simp [reset]⟩
  cases r <;> simp [reset, ConfigReg.stored, ConfigReg.implemented]

theorem fen_eq (rval : U32) : fen rval = (rval &&& 0xff).getLsbD 4 := by
  have hbit : ∀ w : U32, decide (w >>> 4 &&& 1 = 1) = w.getLsbD 4 := by
    intro w
    have hone : w >>> 4 &&& 1 = _ := BitVec.and_one_eq_setWidth_ofBool_getLsbD
    rw [hone, BitVec.getLsbD_ushiftRight, Nat.add_zero]
    cases w.getLsbD 4 <;> decide
  exact hbit _

/-- The stored bits of a write. -/
theorem masked (v mask : U32) : v &&& mask &&& ~~~mask = 0 := by
  have hnone : mask &&& ~~~mask = 0#32 := BitVec.and_not_self mask
  rw [BitVec.and_assoc, hnone]
  exact BitVec.and_zero

theorem WellFormed.readReg {u : UartPl011} (h : WellFormed u) (pa : U64) :
    WellFormed (u.readReg pa).2.2 := by
  obtain ⟨htransmit, hreceive⟩ := u.readReg_queues pa
  have hqueue : (u.readReg pa).2.2.receiveQueue.Holds (· ≠ 0) ∧
      (u.readReg pa).2.2.receiveQueue.fifoEnabled = u.receiveQueue.fifoEnabled := by
    by_cases hdr : registerIndex pa = some .dr
    · rw [(u.readReg_dr hdr).2]
      exact ⟨h.receive.getChar, getChar_fifoEnabled _⟩
    · rw [hreceive hdr]
      exact ⟨h.receive, rfl⟩
  have hstatus : (u.readReg pa).2.2.uartrsr = u.uartrsr ∧ (u.readReg pa).2.2.uartris = u.uartris := by
    rw [UartPl011.readReg]
    cases registerIndex pa with
    | none => exact ⟨rfl, rfl⟩
    | some reg =>
      cases reg
      case dr =>
        dsimp only
        split <;> exact ⟨rfl, rfl⟩
      all_goals exact ⟨rfl, rfl⟩
  have hlcr := stored_readReg u .lcrH pa
  refine ⟨by rw [htransmit]; exact h.transmit, hqueue.1, ?_, ?_, ?_, ?_, ?_⟩
  · rw [hqueue.2, htransmit, h.mode]
  · rw [htransmit, h.fen]
    exact congrArg (BitVec.getLsbD · 4) hlcr.symm
  · intro r
    rw [stored_readReg, h.config]
  · rw [hstatus.1, h.rsr]
  · rw [hstatus.2, h.ris]

theorem WellFormed.writeReg {u : UartPl011} (h : WellFormed u) (pa : U64) (rval : U32) :
    WellFormed (u.writeReg pa rval).2 := by
  have hqueues := u.writeReg_queues pa rval
  have hconfig : ∀ r : ConfigReg, r.stored (u.writeReg pa rval).2 &&& ~~~r.implemented = 0 := by
    intro r
    by_cases hr : registerIndex pa = some r.reg
    · rw [(writeReg_config hr rval).2, masked]
    · rw [stored_writeReg hr, h.config]
  have hlcr : registerIndex pa ≠ some .lcrH →
      (u.writeReg pa rval).2.uartlcrH = u.uartlcrH := fun hne => stored_writeReg (r := .lcrH) hne rval
  have hstatus : (u.writeReg pa rval).2.uartrsr &&& ~~~0x8 = 0 ∧
      (u.writeReg pa rval).2.uartris &&& ~~~0x7ff = 0 := by
    rw [UartPl011.writeReg]
    cases registerIndex pa with
    | none => exact ⟨h.rsr, h.ris⟩
    | some reg =>
      cases reg
      case rsr => exact ⟨by simp, h.ris⟩
      case ticr => exact ⟨h.rsr, masked _ _⟩
      all_goals exact ⟨h.rsr, h.ris⟩
  by_cases hdr : registerIndex pa = some .dr
  · rw [hdr] at hqueues
    obtain ⟨htransmit, hreceive⟩ := Prod.mk.inj hqueues
    refine ⟨?_, by rw [hreceive]; exact h.receive, ?_, ?_, hconfig, hstatus.1, hstatus.2⟩
    · rw [htransmit]
      exact h.transmit.putChar trivial
    · rw [htransmit, hreceive, putChar_fifoEnabled, h.mode]
    · rw [htransmit, putChar_fifoEnabled, hlcr (by rw [hdr]; decide), h.fen]
  by_cases hl : registerIndex pa = some .lcrH
  · rw [hl] at hqueues
    obtain ⟨htransmit, hreceive⟩ := Prod.mk.inj hqueues
    have hstored : (u.writeReg pa rval).2.uartlcrH = rval &&& 0xff :=
      (writeReg_config (r := .lcrH) hl rval).2
    refine ⟨?_, ?_, by rw [htransmit, hreceive]; rfl, ?_, hconfig, hstatus.1, hstatus.2⟩
    · rw [htransmit]
      exact h.transmit.setFifoEnable _
    · rw [hreceive]
      exact h.receive.setFifoEnable _
    · rw [htransmit, hstored, ← fen_eq]
      rfl
  · -- the queues stay as they are, but for the thresholds
    have hsame : (u.writeReg pa rval).2.transmitQueue.Holds (fun _ => True) ∧
        (u.writeReg pa rval).2.receiveQueue.Holds (· ≠ 0) ∧
        (u.writeReg pa rval).2.transmitQueue.fifoEnabled = u.transmitQueue.fifoEnabled ∧
        (u.writeReg pa rval).2.receiveQueue.fifoEnabled = u.receiveQueue.fifoEnabled := by
      cases hr : registerIndex pa with
      | none =>
        rw [hr] at hqueues
        obtain ⟨htransmit, hreceive⟩ := Prod.mk.inj hqueues
        rw [htransmit, hreceive]
        exact ⟨h.transmit, h.receive, rfl, rfl⟩
      | some reg =>
        rw [hr] at hqueues
        cases reg
        case dr => exact absurd hr hdr
        case lcrH => exact absurd hr hl
        case ifls =>
          obtain ⟨htransmit, hreceive⟩ := Prod.mk.inj hqueues
          rw [htransmit, hreceive]
          exact ⟨h.transmit.selectThreshhold _, h.receive.selectThreshhold _, rfl, rfl⟩
        all_goals
          obtain ⟨htransmit, hreceive⟩ := Prod.mk.inj hqueues
          rw [htransmit, hreceive]
          exact ⟨h.transmit, h.receive, rfl, rfl⟩
    obtain ⟨htransmit, hreceive, hmode, hmode'⟩ := hsame
    refine ⟨htransmit, hreceive, ?_, ?_, hconfig, hstatus.1, hstatus.2⟩
    · rw [hmode, hmode', h.mode]
    · rw [hmode, hlcr hl, h.fen]

theorem WellFormed.setOverrun {u : UartPl011} (h : WellFormed u) (overrun : Bool) :
    WellFormed (u.setOverrun overrun) := by
  cases overrun with
  | true =>
    refine ⟨h.transmit, h.receive, h.mode, h.fen, h.config, ?_, ?_⟩
    · change (u.uartrsr ||| 0x8) &&& ~~~0x8 = 0
      rw [BitVec.and_or_distrib_right, h.rsr]
      decide
    · change (u.uartris ||| 0x400) &&& ~~~0x7ff = 0
      rw [BitVec.and_or_distrib_right, h.ris]
      decide
  | false =>
    refine ⟨h.transmit, h.receive, h.mode, h.fen, h.config, ?_, ?_⟩
    · change u.uartrsr &&& ~~~0x8 &&& ~~~0x8 = 0
      rw [h.rsr]
      decide
    · change u.uartris &&& ~~~0x400 &&& ~~~0x7ff = 0
      rw [BitVec.and_assoc, BitVec.and_comm (~~~0x400), ← BitVec.and_assoc, h.ris]
      decide

theorem WellFormed.serviceIos {u : UartPl011} (h : WellFormed u) (stdin : Option Byte) :
    WellFormed (u.advanceClock.serviceIos stdin) := by
  have hsent : WellFormed u.advanceClock.transmit.2 := by
    refine ⟨h.transmit.getChar, h.receive, ?_, ?_, h.config, h.rsr, h.ris⟩
    · exact h.mode.trans (getChar_fifoEnabled _).symm
    · exact (getChar_fifoEnabled _).trans h.fen
  rw [UartPl011.serviceIos, UartPl011.receive]
  dsimp only
  split
  · exact hsent.setOverrun true
  · have hclear := hsent.setOverrun false
    split
    · exact hclear
    · next hnul =>
      refine ⟨hclear.transmit, hclear.receive.putChar hnul, ?_, hclear.fen, hclear.config,
        hclear.rsr, hclear.ris⟩
      exact (putChar_fifoEnabled _ _).trans hclear.mode

end UartPl011

/-! ### Runs -/

namespace Devices

theorem wellFormed_read {d : Devices} (h : d.uart1.WellFormed) (p : DevicePtr) (bigEndian : Bool)
    (pa : U64) (n : Int) : (d.read p bigEndian pa n).2.2.uart1.WellFormed := by
  unfold read
  split
  · exact h
  · cases p with
    | uart1 => exact h.readReg pa
    | timer => exact h

theorem wellFormed_write {d : Devices} (h : d.uart1.WellFormed) (p : DevicePtr) (bigEndian : Bool)
    (pa : U64) (buf : List Byte) (n : Int) : (d.write p bigEndian pa buf n).2.uart1.WellFormed := by
  unfold write
  split
  · exact h
  · cases p with
    | uart1 => exact h.writeReg pa _
    | timer => exact h

end Devices

namespace RiscvSimulator

/-- A run keeps the UART well formed. -/
theorem runClosed_wellFormed : RunClosed fun m m' =>
    m.deviceObjects.uart1.WellFormed → m'.deviceObjects.uart1.WellFormed where
  toAccessClosed := Memory.accessClosed_of_parts (fun _ h => h) (fun h h' hm => h' (h hm))
    (fun _ _ h => h) (fun _ p pa n h => Devices.wellFormed_read h p _ pa n)
    (fun _ p pa buf n h => Devices.wellFormed_write h p _ pa buf n)
  timer := fun _ h => h
  uart := fun _ stdin h => h.serviceIos stdin

theorem wellFormed_init (simCfg : SimConfig) (host : Host) :
    (init simCfg host).memory.deviceObjects.uart1.WellFormed := by
  have hmap : ∀ (l : List (U64 × String)) (m : Memory), m.deviceObjects.uart1.WellFormed →
      (l.foldl mapDevice m).deviceObjects.uart1.WellFormed := by
    intro l
    induction l with
    | nil => exact fun m h => h
    | cons md l ih =>
      intro m h
      refine ih _ ?_
      unfold mapDevice
      split
      · exact UartPl011.wellFormed_reset _
      · split
        · exact h
        · exact h
  exact hmap simCfg.devices _ (UartPl011.wellFormed_reset {})

/-- A host whose images are these files, as `LoadTestImage` loads them. -/
def loading (host : Host) (files : List ElfFile) : Host :=
  { host with
    loadTestImage := fun m =>
      match (Elfio.loadTestImage files).run m with
      | .ok rcode m => (rcode, m)
      | .error _ m => (-1, m) }

theorem loading_memory (host : Host) (files : List ElfFile) (m : Memory) :
    ((loading host files).loadTestImage m).2 = Effect.final ((Elfio.loadTestImage files).run m) := by
  unfold loading
  dsimp only
  cases (Elfio.loadTestImage files).run m with
  | ok rcode m' => rfl
  | error e m' => rfl

/-- For every configuration, every list of images, every host and debug client, and however many turns
    `Go` makes before it returns, throws or is looked at: the UART is well formed. -/
theorem uart_stays_well_formed (simCfg : SimConfig) (host : Host) (files : List ElfFile) (n : Nat) :
    UartPl011.WellFormed
      (Effect.final ((go n).run (init simCfg (loading host files)))).memory.deviceObjects.uart1 := by
  refine go_moves runClosed_wellFormed ?_ n (wellFormed_init simCfg (loading host files))
  intro h
  have hloaded := Elfio.moves_loadTestImage runClosed_wellFormed.toAccessClosed files
    (init simCfg (loading host files)).memory h
  have hhost : (init simCfg (loading host files)).host = loading host files := rfl
  rw [hhost, loading_memory]
  exact hloaded

end RiscvSimulator

end Dimebox
