import Dimebox.Division
import Dimebox.OperandFields

/-! What a load loads.

    The bytes of a load come from memory or from a device. A device that refuses the access says so
    with its return code and leaves the buffer of the instruction as it is; `MEMORY_READ` looks at
    the buffer only. So the load completes, with what happened to be there. -/

namespace Dimebox

open RiscvInstruction (new)

/-- A load of `n` bytes leaves the same state, memory and queue whatever was in the object before,
    its buffer included, and raises an exception if a device refuses the access. -/
structure NeverJunk (c : Iclass) (n : Nat) (s : RiscvState) (m : Memory) (w : U32) : Prop where
  same : ∀ junk junk' : Junk, outcome (Step.execute.run (new junk c s m w))
    = outcome (Step.execute.run (new junk' c s m w))
  raises : ∀ junk, m.Refuses (new junk c s m w).decode.loadAddress n →
    ∃ e i, (Step.step c).run (new junk c s m w).decode = .error (.sim e) i

section Loads

variable {c : Iclass} {n : Nat} {s : RiscvState} {m : Memory} {w : U32}

/-- The address does not depend on what was in the object. -/
theorem loadAddress_decode (hc : c.loads = some n) (junk junk' : Junk) :
    (new junk c s m w).decode.loadAddress = (new junk' c s m w).decode.loadAddress := by
  have huses := uses_assigned (usesUnsetRd_of_loads hc)
  obtain ⟨-, hrs1, himm⟩ := mem_uses_of_loads hc
  exact Step.FieldsAgree.loadAddress (agree_decode junk junk') (huses _ hrs1) (huses _ himm)

/-- A load that is refused completes. -/
theorem step_refused (hc : c.loads = some n) (junk : Junk)
    (hr : m.Refuses (new junk c s m w).decode.loadAddress n) :
    ∃ i, (Step.step c).run (new junk c s m w).decode = .ok () i := by
  have huses := uses_assigned (usesUnsetRd_of_loads hc)
  obtain ⟨hrd, hrs1, -⟩ := mem_uses_of_loads hc
  have h1 := decode_lt (i := new junk c s m w) (f := .rs1) (huses _ hrs1) (by decide)
  have hd := decode_lt (i := new junk c s m w) (f := .rd) (huses _ hrd) (by decide)
  have hclass : (new junk c s m w).decode.iclass = c := RiscvInstruction.decode_iclass _
  have hmemory : (new junk c s m w).decode.memory = m := RiscvInstruction.decode_memory _
  obtain ⟨v, hread⟩ := Step.memoryRead_refused (i := (new junk c s m w).decode) (Step.loads_size hc)
    (a := (new junk c s m w).decode.loadAddress) (by rw [hmemory]; exact hr)
  have hstep := Step.run_step_load (hclass.symm ▸ hc) h1
  rw [EStateM.run_bind, hread] at hstep
  dsimp only at hstep
  rw [Step.run_setRd (by exact hd), hclass] at hstep
  exact ⟨_, hstep⟩

theorem NeverJunk.not_refused (hc : c.loads = some n) (h : NeverJunk c n s m w) :
    ¬ m.Refuses (new {} c s m w).decode.loadAddress n := by
  intro hr
  obtain ⟨e, i, hraised⟩ := h.raises {} hr
  obtain ⟨i', hcompleted⟩ := step_refused hc {} hr
  rw [hcompleted] at hraised
  cases hraised

/-- For every load, state, memory with its devices, and encoding: the load is free of junk if and
    only if no device refuses it. -/
theorem neverJunk_iff (hc : c.loads = some n) :
    NeverJunk c n s m w ↔ ¬ m.Refuses (new {} c s m w).decode.loadAddress n := by
  constructor
  · exact NeverJunk.not_refused hc
  · intro hr
    refine ⟨independent_of_not_leaks (usesUnsetRd_of_loads hc) ?_, fun junk hrefused => ?_⟩
    · rintro ⟨-, n', hc', hrefused⟩
      rw [hc] at hc'
      cases hc'
      exact hr hrefused
    · rw [loadAddress_decode hc junk {}] at hrefused
      exact absurd hrefused hr

end Loads

/-- Memory with a UART at 0x9000000. -/
def uartMemory : Memory where
  physMem := { oracle := { rand := fun _ => 0, heap := fun _ => 0 } }
  devices := [.uart1]
  deviceObjects := { uart1 := ({} : UartPl011).mapDevice 0x9000000 }

/-- `lb x3,0(x1)` and `lw x3,0(x1)`. -/
def lbWord : U32 := 0x00008183
def lwWord : U32 := 0x0000a183

/-- A word of the flag register can be loaded. -/
theorem neverJunk_flag_word :
    NeverJunk .lw 4 (operandState 0x9000018 0) uartMemory lwWord := by
  refine (neverJunk_iff rfl).mpr ?_
  have haddress : (new {} .lw (operandState 0x9000018 0) uartMemory lwWord).decode.loadAddress
      = 0x9000018 := by rfl
  rw [haddress]
  rintro ⟨address, p, hc, hd, hnot⟩
  have hchecked : uartMemory.checkAddresses 0x9000018 4 false = .ok 0x9000018 := rfl
  obtain rfl : 0x9000018 = address := Except.ok.inj (hchecked.symm.trans hc)
  have hat : uartMemory.deviceAt 0x9000018 = some .uart1 := by decide
  obtain rfl : DevicePtr.uart1 = p := Option.some.inj (hat.symm.trans hd)
  exact hnot ⟨by decide, rfl⟩

/-- A byte of it is junk. -/
theorem flag_byte_is_junk : ¬ ∀ (c : Iclass) (n : Nat) (s : RiscvState) (m : Memory) (w : U32),
    c.loads = some n → NeverJunk c n s m w := by
  intro h
  refine (h .lb 1 (operandState 0x9000018 0) uartMemory lbWord rfl).not_refused rfl ?_
  have haddress : (new {} .lb (operandState 0x9000018 0) uartMemory lbWord).decode.loadAddress
      = 0x9000018 := by rfl
  rw [haddress]
  exact ⟨0x9000018, .uart1, rfl, rfl, fun hword => absurd hword.2 (by decide)⟩

end Dimebox
