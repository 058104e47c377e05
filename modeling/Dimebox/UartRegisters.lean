import Dimebox.Devices

/-! Reading the configuration registers of the UART back.

    Every write stores the implemented bits where no other register has anything. Of the reads,
    those of IBRD and FBRD name the register offset where they mean the member, and DMACR is left
    out: the three read as 0x24, 0x28 and 0 whatever was written. -/

namespace Dimebox

namespace UartPl011

inductive ConfigReg where | ilpr | ibrd | fbrd | lcrH | tcr | ifls | imsc | dmacr
  deriving DecidableEq

namespace ConfigReg

def reg : ConfigReg → UartReg
  | ilpr => .ilpr
  | ibrd => .ibrd
  | fbrd => .fbrd
  | lcrH => .lcrH
  | tcr => .tcr
  | ifls => .ifls
  | imsc => .imsc
  | dmacr => .tdmacr

/-- The bits a write stores. -/
def implemented : ConfigReg → U32
  | ilpr => 0xff
  | ibrd => 0xffff
  | fbrd => 0x1f
  | lcrH => 0xff
  | tcr => 0xffff
  | ifls => 0x3f
  | imsc => 0x7ff
  | dmacr => 0x3

/-- Where it stores them. -/
def stored (u : UartPl011) : ConfigReg → U32
  | ilpr => u.uartilpr
  | ibrd => u.uartibrd
  | fbrd => u.uartfbrd
  | lcrH => u.uartlcrH
  | tcr => u.uarttcr
  | ifls => u.uartifls
  | imsc => u.uartimsc
  | dmacr => u.uartdmacr

/-- What a register reads as when `v` is stored. -/
def shown : ConfigReg → U32 → U32
  | ibrd, _ => 0x24
  | fbrd, _ => 0x28
  | dmacr, _ => 0
  | _, v => v

/-- An address of the register. -/
def address : ConfigReg → U64
  | ilpr => 0x020
  | ibrd => 0x024
  | fbrd => 0x028
  | lcrH => 0x02c
  | tcr => 0x030
  | ifls => 0x034
  | imsc => 0x038
  | dmacr => 0x048

end ConfigReg

/-- `Read(PA,buffer,access_size)` or `Write(PA,buffer,access_size)`. -/
inductive RegAccess where
  | read (pa : U64) (accessSize : Int)
  | write (pa : U64) (rval : U32) (accessSize : Int)

def RegAccess.pa : RegAccess → U64
  | read pa _ => pa
  | write pa _ _ => pa

/-- What the access makes of the UART; only words are accessed. -/
def access (u : UartPl011) : RegAccess → UartPl011
  | .read pa accessSize => if accessSize ≠ 4 then u else (u.readReg pa).2.2
  | .write pa rval accessSize => if accessSize ≠ 4 then u else (u.writeReg pa rval).2

/-- A word `v` written to `r` is read back, masked to the implemented bits, after any accesses to
    other registers; and what the other configuration registers read as is left alone. -/
def ReadsBack (u : UartPl011) (r : ConfigReg) (v : U32) : Prop :=
  ∀ pa, registerIndex pa = some r.reg → (u.writeReg pa v).1 = 0 ∧
    (∀ accesses : List RegAccess, (∀ a ∈ accesses, registerIndex a.pa ≠ some r.reg) →
      ∀ pa', registerIndex pa' = some r.reg →
        ((accesses.foldl access (u.writeReg pa v).2).readReg pa').1 = 0 ∧
          ((accesses.foldl access (u.writeReg pa v).2).readReg pa').2.1 = v &&& r.implemented) ∧
    ∀ r' ≠ r, ∀ pa', registerIndex pa' = some r'.reg →
      ((u.writeReg pa v).2.readReg pa').2.1 = (u.readReg pa').2.1

/-- IBRD must be written its offset, DMACR zero; no value of FBRD is its offset. -/
def Readable : ConfigReg → U32 → Prop
  | .ibrd, v => v &&& 0xffff = 0x24
  | .fbrd, _ => False
  | .dmacr, v => v &&& 0x3 = 0
  | _, _ => True

/-! ### One access -/

section OneAccess

variable {u : UartPl011} {r : ConfigReg} {pa : U64}

theorem registerIndex_address (r : ConfigReg) : registerIndex r.address = some r.reg := by
  cases r <;> rfl

theorem readReg_config (h : registerIndex pa = some r.reg) :
    u.readReg pa = (0, r.shown (r.stored u), u) := by
  rw [readReg, h]
  cases r <;> rfl

theorem writeReg_config (h : registerIndex pa = some r.reg) (v : U32) :
    (u.writeReg pa v).1 = 0 ∧ r.stored (u.writeReg pa v).2 = v &&& r.implemented := by
  rw [writeReg, h]
  cases r <;> exact ⟨rfl, rfl⟩

/-- No read changes a configuration register. -/
theorem stored_readReg (u : UartPl011) (r : ConfigReg) (pa : U64) :
    r.stored (u.readReg pa).2.2 = r.stored u := by
  rw [readReg]
  cases registerIndex pa with
  | none => rfl
  | some reg =>
    cases reg with
    | dr => dsimp only; split <;> cases r <;> rfl
    | fr => cases r <;> rfl
    | _ => rfl

/-- No write changes a configuration register but the one it is to. -/
theorem stored_writeReg (h : registerIndex pa ≠ some r.reg) (v : U32) :
    r.stored (u.writeReg pa v).2 = r.stored u := by
  rw [writeReg]
  cases hpa : registerIndex pa with
  | none => rfl
  | some reg =>
    rw [hpa] at h
    have hne : reg ≠ r.reg := fun heq => h (congrArg some heq)
    cases reg <;> cases r <;> first | rfl | exact absurd rfl hne

theorem stored_access {a : RegAccess} (h : registerIndex a.pa ≠ some r.reg) :
    r.stored (u.access a) = r.stored u := by
  cases a with
  | read pa accessSize =>
    rw [access]
    split
    · rfl
    · exact stored_readReg u r pa
  | write pa rval accessSize =>
    rw [access]
    split
    · rfl
    · exact stored_writeReg h rval

end OneAccess

/-! ### Any accesses -/

theorem stored_accesses {r : ConfigReg} {accesses : List RegAccess}
    (h : ∀ a ∈ accesses, registerIndex a.pa ≠ some r.reg) (u : UartPl011) :
    r.stored (accesses.foldl access u) = r.stored u := by
  induction accesses generalizing u with
  | nil => rfl
  | cons a accesses ih =>
    rw [List.foldl_cons, ih (fun b hb => h b (List.mem_cons_of_mem a hb)),
      stored_access (h a List.mem_cons_self)]

/-- No five bits are 0x28. -/
theorem and_fbrd_ne (v : U32) : v &&& 0x1f ≠ 0x28 := by
  intro h
  have hbit := congrArg (fun x : U32 => x.getLsbD 5) h
  simp at hbit

theorem shown_eq_iff (r : ConfigReg) (v : U32) :
    r.shown (v &&& r.implemented) = v &&& r.implemented ↔ Readable r v := by
  cases r with
  | ibrd => exact eq_comm
  | fbrd => exact ⟨fun h => and_fbrd_ne v h.symm, False.elim⟩
  | dmacr => exact eq_comm
  | _ => exact ⟨fun _ => trivial, fun _ => rfl⟩

theorem reg_injective {r r' : ConfigReg} (h : r.reg = r'.reg) : r = r' := by
  cases r <;> cases r' <;> first | rfl | cases h

/-- A value that is read back at once is shown. -/
theorem ReadsBack.readable {u : UartPl011} {r : ConfigReg} {v : U32} (h : ReadsBack u r v) :
    Readable r v := by
  obtain ⟨-, hread, -⟩ := h r.address (registerIndex_address r)
  have hback := (hread [] (fun a ha => absurd ha List.not_mem_nil) r.address
    (registerIndex_address r)).2
  rw [List.foldl_nil, readReg_config (registerIndex_address r),
    (writeReg_config (registerIndex_address r) v).2] at hback
  exact (shown_eq_iff r v).mp hback

/-- For every UART, configuration register and value: the value is read back if and only if it is
    what the register reads as. -/
theorem readsBack_iff (u : UartPl011) (r : ConfigReg) (v : U32) : ReadsBack u r v ↔ Readable r v := by
  constructor
  · exact ReadsBack.readable
  · intro h pa hpa
    rw [← shown_eq_iff] at h
    obtain ⟨hcode, hstored⟩ := writeReg_config (u := u) hpa v
    refine ⟨hcode, fun accesses hother pa' hpa' => ?_, fun r' hne pa' hpa' => ?_⟩
    · rw [readReg_config hpa', stored_accesses hother, hstored]
      exact ⟨rfl, h⟩
    · have hdiff : registerIndex pa ≠ some r'.reg := by
        rw [hpa]
        exact fun heq => hne (reg_injective (Option.some.inj heq).symm)
      rw [readReg_config hpa', readReg_config hpa', stored_writeReg hdiff]

/-- IBRD reads as 0x24 after a write of 0. -/
theorem ibrd_reads_as_offset : ¬ ∀ u r v, ReadsBack u r v := by
  intro h
  have hoffset : (0 : U32) &&& 0xffff = 0x24 := (h {} .ibrd 0).readable
  exact absurd hoffset (by decide)

end UartPl011

end Dimebox
