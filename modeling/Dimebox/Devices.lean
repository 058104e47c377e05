import Dimebox.Exceptions
import Mathlib.Tactic.Common

/-! Memory-mapped devices: the machine timer and the PL011 UART.

    A device answers to addresses `base .. base + 0xffc`; bits 11..0 of the address select a
    register. Only word accesses reach a register: any other size is refused with -1 and leaves the
    caller's buffer alone. Where the source reads or writes something unexpected (the compare
    registers read as the timer, a HI write is an OR, IBRD and FBRD read as their own offsets, an
    interrupt clear stores the written bits) the model does the same. -/

namespace Dimebox

/-- `memmap_device`. -/
structure MemmapDevice where
  baseAddress : U64 := 0
  extent : U64 := 0
  isImplemented : Bool := false

namespace MemmapDevice

/-- `InRange`. -/
def inRange (d : MemmapDevice) (pa : U64) : Bool :=
  d.baseAddress ≤ pa && pa ≤ d.baseAddress + 0xffc

/-- `MapDevice`, before the device is reset. -/
def mapDevice (_ : MemmapDevice) (baseAddress : U64) : MemmapDevice :=
  { baseAddress, extent := 0xffff, isImplemented := true }

end MemmapDevice

/-! ### Machine timer -/

/-- `MachineTimer`. -/
structure MachineTimer extends MemmapDevice where
  timer : U64 := 0
  timerAdvance : U64 := 1
  timerCompare : U64 := 0

inductive TimerReg where | timerLo | timerHi | timerCompareLo | timerCompareHi
  deriving DecidableEq

namespace MachineTimer

/-- `register_index`. -/
def registerIndex (pa : U64) : Option TimerReg :=
  match (pa &&& 0xfff).toNat with
  | 0x000 => some .timerLo
  | 0x004 => some .timerHi
  | 0x010 => some .timerCompareLo
  | 0x014 => some .timerCompareHi
  | _ => none

def reset (t : MachineTimer) : MachineTimer := { t with timer := 0, timerCompare := 0 }

def mapDevice (t : MachineTimer) (base : U64) : MachineTimer :=
  { t with toMemmapDevice := t.toMemmapDevice.mapDevice base }.reset

def advanceTimer (t : MachineTimer) : MachineTimer := { t with timer := t.timer + t.timerAdvance }

def interruptPending (t : MachineTimer) : Bool :=
  t.timerCompare != 0 && t.timerCompare ≤ t.timer

/-- `Read(PA,unsigned int *)`: return code and value. -/
def readReg (t : MachineTimer) (pa : U64) : Int × U32 :=
  match registerIndex pa with
  | some .timerLo | some .timerCompareLo => (0, (t.timer &&& 0xffffffff).setWidth 32)
  | some .timerHi | some .timerCompareHi => (0, (t.timer >>> 32).setWidth 32)
  | none => (-1, 0)

/-- `Write(PA,unsigned int)`. -/
def writeReg (t : MachineTimer) (pa : U64) (rval : U32) : Int × MachineTimer :=
  match registerIndex pa with
  | some .timerLo => (0, { t with timer := rval.setWidth 64 })
  | some .timerHi => (0, { t with timer := t.timer ||| (rval.setWidth 64 <<< 32) })
  | some .timerCompareLo => (0, { t with timerCompare := rval.setWidth 64 })
  | some .timerCompareHi =>
    (0, { t with timerCompare := t.timerCompare ||| (rval.setWidth 64 <<< 32) })
  | none => (-1, t)

end MachineTimer

/-! ### UART queues -/

/-- `uart_queue`; `configured_size` is 16. -/
structure UartQueue where
  fifo : List Byte := []
  threshhold : Nat := 16
  fifoEnabled : Bool := false
  holdingRegisterPrimed : Bool := false
  holdingRegister : Byte := 0

namespace UartQueue

def setFifoEnable (q : UartQueue) (enable : Bool) : UartQueue := { q with fifoEnabled := enable }

def selectThreshhold (q : UartQueue) (select : Nat) : UartQueue :=
  { q with threshhold := match select with
      | 0 => 2 | 1 => 4 | 2 => 8 | 3 => 12 | 4 => 14 | _ => 16 }

def full (q : UartQueue) : Bool :=
  if q.fifoEnabled then 16 ≤ q.fifo.length else q.holdingRegisterPrimed

def empty (q : UartQueue) : Bool :=
  if q.fifoEnabled then q.fifo.isEmpty else !q.holdingRegisterPrimed

/-- `GetChar`: the character, if there was one. -/
def getChar (q : UartQueue) : Option Byte × UartQueue :=
  if q.fifoEnabled then
    match q.fifo with
    | [] => (none, q)
    | c :: cs => (some c, { q with fifo := cs })
  else if q.holdingRegisterPrimed then
    (some q.holdingRegister, { q with holdingRegisterPrimed := false })
  else (none, q)

/-- `PutChar`: whether there was room. -/
def putChar (q : UartQueue) (c : Byte) : Bool × UartQueue :=
  if q.fifoEnabled then
    if 16 ≤ q.fifo.length then (false, q) else (true, { q with fifo := q.fifo ++ [c] })
  else (true, { q with holdingRegister := c, holdingRegisterPrimed := true })

end UartQueue

/-! ### PL011 -/

/-- `UART_pl011` with its base class `uart`. -/
structure UartPl011 extends MemmapDevice where
  transmitQueue : UartQueue := {}
  receiveQueue : UartQueue := {}
  uartdr : U32 := 0
  uartrsr : U32 := 0
  uartfr : U32 := 0x110
  uartilpr : U32 := 0
  uartibrd : U32 := 0
  uartfbrd : U32 := 0
  uartlcrH : U32 := 0
  uarttcr : U32 := 0x300
  uartifls : U32 := 0x12
  uartimsc : U32 := 0
  uartris : U32 := 0
  uartdmacr : U32 := 0
  clock : U64 := 0
  clockAdvanceInterval : U64 := 10000

inductive UartReg where
  | dr | rsr | fr | ilpr | ibrd | fbrd | lcrH | tcr | ifls | imsc | tris | tmis | ticr | tdmacr
  | pid0 | pid1 | pid2 | pid3 | cid0 | cid1 | cid2 | cid3
  deriving DecidableEq

namespace UartPl011

/-- `register_index`. -/
def registerIndex (pa : U64) : Option UartReg :=
  match (pa &&& 0xfff).toNat with
  | 0x000 => some .dr
  | 0x004 => some .rsr
  | 0x018 => some .fr
  | 0x020 => some .ilpr
  | 0x024 => some .ibrd
  | 0x028 => some .fbrd
  | 0x02c => some .lcrH
  | 0x030 => some .tcr
  | 0x034 => some .ifls
  | 0x038 => some .imsc
  | 0x03c => some .tris
  | 0x040 => some .tmis
  | 0x044 => some .ticr
  | 0x048 => some .tdmacr
  | 0xfe0 => some .pid0
  | 0xfe4 => some .pid1
  | 0xfe8 => some .pid2
  | 0xfec => some .pid3
  | 0xff0 => some .cid0
  | 0xff4 => some .cid1
  | 0xff8 => some .cid2
  | 0xffc => some .cid3
  | _ => none

/-- `Reset`: everything but the address range. -/
def reset (u : UartPl011) : UartPl011 := { toMemmapDevice := u.toMemmapDevice }

def mapDevice (u : UartPl011) (base : U64) : UartPl011 :=
  { u with toMemmapDevice := u.toMemmapDevice.mapDevice base }.reset

def advanceClock (u : UartPl011) : UartPl011 := { u with clock := u.clock + u.clockAdvanceInterval }

def flag (b : Bool) (bit : Nat) : U32 := if b then 1#32 <<< bit else 0

/-- `UpdateStatus`; RI, DCD, DSR and CTS are always on, BUSY is always off. -/
def updateStatus (u : UartPl011) : UartPl011 :=
  let fr :=
    flag true 8 ||| flag u.transmitQueue.empty 7 ||| flag u.receiveQueue.full 6 |||
    flag u.transmitQueue.full 5 ||| flag u.receiveQueue.empty 4 ||| flag false 3 |||
    flag true 2 ||| flag true 1 ||| flag true 0
  { u with uartfr := fr }

/-- `SetOverrun`: OE of the receive status, OERIS of the raw interrupt status. -/
def setOverrun (u : UartPl011) (overrun : Bool) : UartPl011 :=
  if overrun then { u with uartrsr := u.uartrsr ||| 0x8, uartris := u.uartris ||| 0x400 }
  else { u with uartrsr := u.uartrsr &&& ~~~0x8, uartris := u.uartris &&& ~~~0x400 }

/-- `Read(PA,unsigned int *)`: return code, value, and the UART. -/
def readReg (u : UartPl011) (pa : U64) : Int × U32 × UartPl011 :=
  match registerIndex pa with
  | some .dr =>
    if u.receiveQueue.empty then (0, 0, u)
    else
      let r := u.receiveQueue.getChar
      (0, (r.1.getD 0).setWidth 32, { u with receiveQueue := r.2 })
  | some .rsr => (0, u.uartrsr, u)
  | some .fr => let u := u.updateStatus; (0, u.uartfr, u)
  | some .ilpr => (0, u.uartilpr, u)
  | some .ibrd => (0, 0x24, u)
  | some .fbrd => (0, 0x28, u)
  | some .lcrH => (0, u.uartlcrH, u)
  | some .tcr => (0, u.uarttcr, u)
  | some .ifls => (0, u.uartifls, u)
  | some .imsc => (0, u.uartimsc, u)
  | some .tris => (0, u.uartris, u)
  | some .tmis | some .ticr | some .tdmacr => (0, 0, u)
  | some .pid0 => (0, 0x11, u)
  | some .pid1 => (0, 0x10, u)
  | some .pid2 => (0, 0x24, u)
  | some .pid3 => (0, 0x00, u)
  | some .cid0 => (0, 0x0d, u)
  | some .cid1 => (0, 0xf0, u)
  | some .cid2 => (0, 0x05, u)
  | some .cid3 => (0, 0xb1, u)
  | none => (-1, 0, u)

/-- `Write(PA,unsigned int)`. -/
def writeReg (u : UartPl011) (pa : U64) (rval : U32) : Int × UartPl011 :=
  match registerIndex pa with
  | some .dr => (0, { u with transmitQueue := (u.transmitQueue.putChar (rval.setWidth 8)).2 })
  | some .rsr => (0, { u with uartrsr := 0 })
  | some .ilpr => (0, { u with uartilpr := rval &&& 0xff })
  | some .ibrd => (0, { u with uartibrd := rval &&& 0xffff })
  | some .fbrd => (0, { u with uartfbrd := rval &&& 0x1f })
  | some .lcrH =>
    let lcrH := rval &&& 0xff
    let fen := (lcrH >>> 4) &&& 1 = 1
    (0, { u with
      uartlcrH := lcrH
      receiveQueue := u.receiveQueue.setFifoEnable fen
      transmitQueue := u.transmitQueue.setFifoEnable fen })
  | some .tcr => (0, { u with uarttcr := rval &&& 0xffff })
  | some .ifls =>
    let ifls := rval &&& 0x3f
    (0, { u with
      uartifls := ifls
      receiveQueue := u.receiveQueue.selectThreshhold ((ifls >>> 3) &&& 7).toNat
      transmitQueue := u.transmitQueue.selectThreshhold (ifls &&& 7).toNat })
  | some .imsc => (0, { u with uartimsc := rval &&& 0x7ff })
  | some .ticr => (0, { u with uartris := rval &&& 0x7ff })
  | some .tdmacr => (0, { u with uartdmacr := rval &&& 0x3 })
  | some .fr | some .tris | some .tmis | some .pid0 | some .pid1 | some .pid2 | some .pid3
  | some .cid0 | some .cid1 | some .cid2 | some .cid3 => (0, u)
  | none => (-1, u)

/-- `Transmit`: the character that goes to stdout. The interrupt hooks are empty. -/
def transmit (u : UartPl011) : Option Byte × UartPl011 :=
  let r := u.transmitQueue.getChar
  (r.1, { u with transmitQueue := r.2 })

/-- `Receive`, given the character stdin has ready, if any; a NUL is ignored. -/
def receive (u : UartPl011) (stdin : Option Byte) : UartPl011 :=
  if u.receiveQueue.full then u.setOverrun true
  else
    let u := u.setOverrun false
    let nc := stdin.getD 0
    if nc = 0 then u else { u with receiveQueue := (u.receiveQueue.putChar nc).2 }

/-- `ServiceIOs`. -/
def serviceIos (u : UartPl011) (stdin : Option Byte) : UartPl011 := u.transmit.2.receive stdin

/-- `InterruptPending`: overrun, transmit or receive is raised and not masked. -/
def interruptPending (u : UartPl011) : Bool :=
  [0x400#32, 0x20#32, 0x10#32].any fun b => u.uartimsc &&& b = 0 && u.uartris &&& b ≠ 0

end UartPl011

/-! ### The devices of a simulator -/

/-- A pointer of `Memory::devices`. -/
inductive DevicePtr where | uart1 | timer
  deriving DecidableEq

/-- The device objects of `RiscvSimulator`. -/
structure Devices where
  uart1 : UartPl011 := {}
  timer : MachineTimer := {}

namespace Devices

def base (d : Devices) : DevicePtr → MemmapDevice
  | .uart1 => d.uart1.toMemmapDevice
  | .timer => d.timer.toMemmapDevice

/-- `IsMapped`. -/
def isMapped (pa : U64) : DevicePtr → Bool
  | .uart1 => (UartPl011.registerIndex pa).isSome
  | .timer => (MachineTimer.registerIndex pa).isSome

/-- A word as it lies in a buffer of the host. -/
def bytesOfWord (bigEndian : Bool) (w : U32) : List Byte :=
  let bytes := [w.setWidth 8, (w >>> 8).setWidth 8, (w >>> 16).setWidth 8, (w >>> 24).setWidth 8]
  if bigEndian then bytes.reverse else bytes

/-- The word in a buffer of the host. -/
def wordOfBytes (bigEndian : Bool) (bytes : List Byte) : U32 :=
  (if bigEndian then bytes else bytes.reverse).foldl (fun w b => (w <<< 8) ||| b.setWidth 32) 0

/-- `Read(PA,buffer,access_size)`; `none` leaves the buffer alone. -/
def read (d : Devices) (p : DevicePtr) (bigEndian : Bool) (pa : U64) (accessSize : Int) :
    Int × Option (List Byte) × Devices :=
  if accessSize ≠ 4 then (-1, none, d)
  else match p with
    | .uart1 =>
      let r := d.uart1.readReg pa
      (r.1, some (bytesOfWord bigEndian r.2.1), { d with uart1 := r.2.2 })
    | .timer =>
      let r := d.timer.readReg pa
      (r.1, some (bytesOfWord bigEndian r.2), d)

/-- `Write(PA,buffer,access_size)`. -/
def write (d : Devices) (p : DevicePtr) (bigEndian : Bool) (pa : U64) (buffer : List Byte)
    (accessSize : Int) : Int × Devices :=
  if accessSize ≠ 4 then (-1, d)
  else
    let w := wordOfBytes bigEndian (buffer.take 4)
    match p with
    | .uart1 => let r := d.uart1.writeReg pa w; (r.1, { d with uart1 := r.2 })
    | .timer => let r := d.timer.writeReg pa w; (r.1, { d with timer := r.2 })

end Devices

end Dimebox
