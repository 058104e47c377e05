import Dimebox.Exceptions

/-! The GDB remote serial protocol (`RSP`): packets and commands.

    A message is what one read of the socket returned, a `List Char` of byte values. `Decode` takes
    off acknowledgements at either end, checks the framing and returns the payload. `Dispatch` picks
    a command from the payload; what the commands do is up to the server that derives from `RSP`,
    the answers the base class gives are here. -/

namespace Dimebox

namespace Rsp

/-! ### Packets -/

/-- Sum of the characters modulo 256. -/
def checksum (s : List Char) : Nat := s.foldl (fun sum c => (sum + c.toNat) % 256) 0

/-- `%x` of a `char`, which is signed. -/
def hexOfChar (c : Char) : List Char :=
  Text.hexPadded 1 (if c.toNat < 128 then c.toNat else 2 ^ 32 - 256 + c.toNat)

/-- A character XORed with 0x20. -/
def flip (c : Char) : Char := Char.ofNat (c.toNat ^^^ 0x20)

/-- The payload loop of `Decode` from packet index `i` on; `doEscape` is set after an escape. -/
def unescape : List Char → Nat → Bool → Except Fault (List Char)
  | [], _, _ => .ok []
  | dc :: cs, i, true => return flip dc :: (← unescape cs (i + 1) false)
  | dc :: cs, i, false =>
    if dc = '\x7d' then unescape cs (i + 1) true
    else if dc = '#' then
      .error (.runtimeError ("Unescaped control char in packet. Packet[".toList ++
        (Nat.repr i).toList ++ "] = '".toList ++ [dc] ++ ['\'']))
    else return dc :: (← unescape cs (i + 1) false)

/-- The check that every character is printable. -/
def checkPrintable : List Char → Nat → Except Fault Unit
  | [], _ => .ok ()
  | c :: cs, i =>
    if Text.isPrint c then checkPrintable cs (i + 1)
    else .error (.runtimeError ("Packet contains unprintable character: packet[".toList ++
      (Nat.repr i).toList ++ "] = 0x".toList ++ hexOfChar c ++ ".\n".toList))

def shortPacket (size : Nat) : Fault :=
  .runtimeError ("Short packet size: ".toList ++ (Nat.repr size).toList)

/-- `Decode` once acknowledgements are off: `packet` has `size` characters, and `buffer` is what
    lies in memory from its start on. -/
def decodeFramed (packet buffer : List Char) : Except Fault (List Char) := do
  let size := packet.length
  if size < 4 then throw (shortPacket size)
  let first := packet.getD 0 '\x00'
  if first ≠ '$' then
    throw (.runtimeError ("Packet data not prefixed with '$' (instead '".toList ++ [first] ++
      "' seen).".toList))
  let hash := packet.getD (size - 3) '\x00'
  if hash ≠ '#' then
    throw (.runtimeError ("Packet data not suffixed with '#' (instead ".toList ++ hexOfChar hash ++
      " seen?).".toList))
  checkPrintable packet 0
  -- the scan can run past the packet: a blank does not count for the width
  match Text.scanHex 2 (buffer.drop (size - 2)) with
  | none =>
    throw (.runtimeError ("Problems parsing packet checksum. Checksum chars: 0x".toList ++
      hexOfChar (packet.getD (size - 2) '\x00') ++ ",0x".toList ++
      hexOfChar (packet.getD (size - 1) '\x00')))
  | some (expected, _) =>
    let pdata ← unescape ((packet.drop 1).take (size - 4)) 1 false
    -- thrown with a message buffer that has not been filled yet
    if checksum pdata ≠ expected % 2 ^ 32 then throw (.runtimeError [])
    return pdata

/-- `Decode` of the characters one read returned. -/
def decode (message : List Char) : Except Fault (List Char) :=
  if message.length = 0 then .error (shortPacket 0)
  else
    let buffer := if message.head? = some '+' then message.drop 1 else message
    let packet := if buffer.getLast? = some '+' then buffer.dropLast else buffer
    if packet.length = 0 then .ok [] else decodeFramed packet buffer

/-- `Acknowledge`. -/
def acknowledge (packetDecoded : List Char) : List Char :=
  if 0 < packetDecoded.length then ['+'] else []

/-- `Encode`. -/
def encode (src : List Char) : List Char :=
  ['$'] ++ src ++ ['#'] ++ Text.hexPadded 2 (checksum src)

/-! ### Commands -/

/-- The `GDB_SERVER_ACTIONS` that `Dispatch` can select. -/
inductive Action where
  | ackBadResponse | clearBreakpoint | continue | continueThread | continueWithSignal | detach
  | endActiveThreadsReport | endTraceVariablesReport | fileOperation | killTarget | loadBinaryData
  | readGpRegisters | readMemory | readRegister | replyEmpty | reportFeatures | reportOffsets
  | reportProcess | reportTraceRunning | requestSymbolInfo | setBreakpoint | setThread
  | startActiveThreadsReport | startTraceVariablesReport | step | stepThread | stepWithSignal
  | usePreviousThread | writeGpRegisters | writeMemory | writeRegister | requestSupportedActions
  deriving DecidableEq

/-- The commands that are told by their first character. -/
def firstCharAction : Char → Option Action
  | 'D' => some .detach
  | 'G' => some .writeGpRegisters
  | 'k' => some .killTarget
  | 'M' => some .writeMemory
  | 'p' => some .readRegister
  | 'P' => some .writeRegister
  | 'X' => some .loadBinaryData
  | 'z' => some .clearBreakpoint
  | 'c' => some .continue
  | 's' => some .step
  | 'C' => some .continueWithSignal
  | 'S' => some .stepWithSignal
  | _ => none

/-- The selection in `Dispatch`. `Hc-` alone makes it look two characters past the end of the
    string. -/
def action (pdata : List Char) : Except Fault (Option Action) :=
  let has := fun (s : String) => Text.contains s.toList pdata
  let at_ := fun (k : Nat) => pdata.getD k '\x00'
  if has "qSupported" then .ok (some .reportFeatures)
  else if has "vMustReplyEmpty" then .ok (some .replyEmpty)
  else if pdata.take 2 = "Hg".toList ∧ Text.isDigit (at_ 2) then .ok (some .setThread)
  else if pdata = "Hc-".toList then .error .undefined
  else if pdata.take 3 = "Hc-".toList ∧ Text.isDigit (at_ 4) then .ok (some .setThread)
  else if has "qTStatus" then .ok (some .reportTraceRunning)
  else if has "qTf" then .ok (some .startTraceVariablesReport)
  else if has "qTs" then .ok (some .endTraceVariablesReport)
  else if has "qfThreadInfo" then .ok (some .startActiveThreadsReport)
  else if has "qsThreadInfo" then .ok (some .endActiveThreadsReport)
  else if pdata.take 2 = "qC".toList then .ok (some .usePreviousThread)
  else if has "qAttached" then .ok (some .reportProcess)
  else if has "qOffsets" then .ok (some .reportOffsets)
  else if pdata = "?".toList then .ok (some .ackBadResponse)
  else if pdata = "g".toList then .ok (some .readGpRegisters)
  else if at_ 0 = 'm' then .ok (some .readMemory)
  else if has "vFile" then .ok (some .fileOperation)
  else if has "qSymbol::" then .ok (some .requestSymbolInfo)
  else if at_ 0 = 'Z' then .ok (some .setBreakpoint)
  else if has "vCont?" then .ok (some .requestSupportedActions)
  else if has "vCont" then .ok (some .continueThread)
  else if has "vStep" then .ok (some .stepThread)
  else if has "vKill" then .ok (some .killTarget)
  else .ok (firstCharAction (at_ 0))

/-- The answers of the base class to the commands `DebugServer` does not override; `STEP_THREAD` has
    no case and is acknowledged like an unknown command. -/
def baseResponse : Option Action → List Char
  | some .ackBadResponse => "S05".toList
  | some .startActiveThreadsReport => "m0".toList
  | some .endActiveThreadsReport => "l".toList
  | some .reportOffsets => "Text=0;Data=0;Bss=0".toList
  | some .reportProcess => "l".toList
  | some .reportTraceRunning => "T0".toList
  | some .requestSymbolInfo => "OK".toList
  | some .stepThread => "+".toList
  | none => "+".toList
  | _ => []

end Rsp

end Dimebox
