import Dimebox.RamFrame

/-! Accesses to memory of any size, at any address.

    The cores access memory in sizes it takes; a client asks for what it likes. The address checks
    come first, then what is at the address decides: a register of a device takes a word, RAM takes
    1 to 32 bytes. A read that is refused changes nothing that can be read; one that is not
    initialises the bytes it covers. -/

namespace Dimebox

namespace PhysicalMemory

theorem isDefined_putBlock_blockAt (m : PhysicalMemory) (B : U64) :
    (m.putBlock B (m.blockAt B, m.oracle)).isDefined = m.isDefined := by
  funext a
  rw [isDefined, isDefined]
  by_cases h : MemBlock.blockAddress a = B
  · rw [h, blockAt_putBlock_self]
  · rw [blockAt_putBlock_ne _ h]

/-- A read that initialises counts the bytes that were undefined before it. -/
theorem pullBytes_undef_eq_zero_iff (n : Nat) (m : PhysicalMemory) (a : U64) :
    (m.pullBytes a true n).2.1 = 0 ↔ ∀ b ∈ span a n, m.isDefined b = true := by
  induction n generalizing m a with
  | zero => simp [pullBytes, span]
  | succ n ih =>
    rw [pullBytes, Nat.add_eq_zero_iff, ih, span]
    cases hdef : m.isDefined a with
    | false => simp [hdef]
    | true =>
      have hsame : ∀ b, (m.pullByte a true).isDefined b = m.isDefined b := by
        intro b
        rw [isDefined_pullByte]
        by_cases hb : b = a
        · simp [hb, hdef]
        · simp [hb]
      simp [hsame, hdef]

end PhysicalMemory

namespace Memory

/-- What can be read from memory is the same. -/
structure SameContents (m m' : Memory) : Prop where
  seen : m'.physMem.seen = m.physMem.seen
  isDefined : m'.physMem.isDefined = m.physMem.isDefined
  devices : m'.deviceObjects = m.deviceObjects

theorem SameContents.refl (m : Memory) : SameContents m m := ⟨rfl, rfl, rfl⟩

/-- The addresses pass the checks. -/
def Valid (m : Memory) (a : U64) (n : Int) : Prop :=
  ∃ address, m.checkAddresses a n false = .ok address

/-- The access is of a size that what is at the address takes: a word for a register of a device, up
    to 32 bytes for RAM. -/
def Takes (m : Memory) (a : U64) (n : Int) : Prop :=
  match m.deviceAt (a &&& m.paMask) with
  | some p => Devices.isMapped (a &&& m.paMask) p ∧ n = 4
  | none => 1 ≤ n ∧ n ≤ 32

/-- The bytes of the access that are in RAM have been written. -/
def Initialised (m : Memory) (a : U64) (n : Int) : Prop :=
  ∀ b ∈ m.ramSpan a n.toNat, m.physMem.isDefined b = true

theorem Takes.bounds {m : Memory} {a : U64} {n : Int} (h : m.Takes a n) : 1 ≤ n ∧ n ≤ 32 := by
  unfold Takes at h
  split at h
  · omega
  · exact h

theorem readDeviceMemory_code (p : DevicePtr) (a : U64) (n : Int) (buf : List Byte) (m : Memory) :
    ∃ rcode bytes m', (readDeviceMemory p a n buf false).run m = .ok (rcode, bytes) m' ∧
      (rcode = 0 ↔ Devices.isMapped a p ∧ n = 4) ∧ (rcode ≠ 0 → m' = m) := by
  rw [readDeviceMemory, EStateM.run_bind, EStateM.run_get]
  simp only [Bool.false_eq_true, if_false]
  by_cases hmapped : Devices.isMapped a p
  · rw [if_pos hmapped]
    refine ⟨_, _, _, rfl, ?_⟩
    by_cases hn : n = 4
    · have hcode : (m.deviceObjects.read p m.hostEndianness a n).1 = 0 := by
        unfold Devices.read
        rw [if_neg (by simpa using hn)]
        cases p with
        | uart1 =>
          dsimp only
          rw [Devices.isMapped, Option.isSome_iff_exists] at hmapped
          obtain ⟨r, hr⟩ := hmapped
          rw [UartPl011.readReg, hr]
          cases r <;> first | rfl | (dsimp only; split <;> rfl)
        | timer =>
          dsimp only
          rw [Devices.isMapped, Option.isSome_iff_exists] at hmapped
          obtain ⟨r, hr⟩ := hmapped
          rw [MachineTimer.readReg, hr]
          cases r <;> rfl
      exact ⟨⟨fun _ => ⟨hmapped, hn⟩, fun _ => hcode⟩, fun h => absurd hcode h⟩
    · have hread : m.deviceObjects.read p m.hostEndianness a n = (-1, none, m.deviceObjects) := by
        unfold Devices.read
        rw [if_pos (by simpa using hn)]
      rw [hread]
      exact ⟨⟨fun h => absurd h (by simp), fun h => absurd h.2 hn⟩, fun _ => rfl⟩
  · rw [if_neg hmapped]
    exact ⟨_, _, _, rfl, ⟨fun h => absurd h (by decide), fun h => absurd h.1 hmapped⟩, fun _ => rfl⟩

/-- A read that is refused: it throws or returns an error code, and changes nothing. -/
theorem readPhysicalMemory_refused {m : Memory} {a : U64} {n : Int}
    (h : ¬ (m.Valid a n ∧ m.Takes a n)) (buf : List Byte) :
    ∃ m', SameContents m m' ∧
      ((∃ f, f ≠ .undefined ∧ (readPhysicalMemory a n buf false true).run m = .error f m') ∨
        ∃ rcode bytes, rcode ≠ 0 ∧
          (readPhysicalMemory a n buf false true).run m = .ok (rcode, bytes) m') := by
  cases hcheck : m.checkAddresses a n false with
  | error f =>
    rw [readPhysicalMemory_unchecked buf true hcheck, Step.checkAddresses_error hcheck]
    exact ⟨m, .refl m, .inl ⟨_, by decide, rfl⟩⟩
  | ok address =>
    obtain rfl := checkAddresses_ok hcheck
    have htakes : ¬ m.Takes a n := fun ht => h ⟨⟨_, hcheck⟩, ht⟩
    rw [Takes] at htakes
    cases hdev : m.deviceAt (a &&& m.paMask) with
    | some p =>
      rw [hdev] at htakes
      rw [readPhysicalMemory_of_device buf true hcheck hdev]
      obtain ⟨rcode, bytes, m', hrun, hcode, hsame⟩ :=
        readDeviceMemory_code p (a &&& m.paMask) n buf m
      have hne : rcode ≠ 0 := fun h0 => htakes (hcode.mp h0)
      obtain rfl := hsame hne
      exact ⟨m', .refl m', .inr ⟨rcode, bytes, hne, hrun⟩⟩
    | none =>
      rw [hdev] at htakes
      rw [readPhysicalMemory_of_ram buf true hcheck hdev, map_eq_pure_bind, EStateM.run_bind,
        PhysicalMemory.read_run_invalid (by dsimp only at htakes; omega), Effect.mapState_error]
      refine ⟨_, ?_, .inl ⟨.mblock .memError, by decide, rfl⟩⟩
      exact ⟨PhysicalMemory.seen_putBlock_blockAt .., PhysicalMemory.isDefined_putBlock_blockAt ..,
        rfl⟩

/-- A read that is not refused: the code says whether the bytes had been written, and afterwards they
    are. -/
theorem readPhysicalMemory_taken {m : Memory} {a : U64} {n : Int} (hvalid : m.Valid a n)
    (htakes : m.Takes a n) (buf : List Byte) :
    ∃ rcode bytes m', (readPhysicalMemory a n buf false true).run m = .ok (rcode, bytes) m' ∧
      (rcode = 0 ↔ m.Initialised a n) ∧
      ∀ b ∈ m.ramSpan a n.toNat, m'.physMem.isDefined b = true := by
  obtain ⟨address, hcheck⟩ := hvalid
  obtain rfl := checkAddresses_ok hcheck
  rw [Takes] at htakes
  rw [Initialised, ramSpan]
  cases hdev : m.deviceAt (a &&& m.paMask) with
  | some p =>
    rw [hdev] at htakes
    obtain ⟨rcode, bytes, m', hrun, hcode, -⟩ := readDeviceMemory_code p (a &&& m.paMask) n buf m
    rw [readPhysicalMemory_of_device buf true hcheck hdev]
    exact ⟨rcode, bytes, m', hrun, by simp [hcode.mpr htakes], by simp⟩
  | none =>
    rw [hdev] at htakes
    dsimp only at htakes ⊢
    obtain ⟨k, rfl⟩ := Int.eq_ofNat_of_zero_le (show 0 ≤ n by omega)
    have hread := PhysicalMemory.read_run (n := k) (by omega) (by omega) (a &&& m.paMask) true
      m.physMem
    dsimp only at hread
    rw [readPhysicalMemory_of_ram buf true hcheck hdev, map_eq_pure_bind, EStateM.run_bind, hread]
    refine ⟨_, _, _, rfl, ?_, fun b hb => ?_⟩
    · rw [Int.toNat_natCast, ← PhysicalMemory.pullBytes_undef_eq_zero_iff]
      simp only [definedCode, allBytesFree, someBytesUndefined, allBytesDefined]
      split_ifs <;> omega
    · rw [PhysicalMemory.isDefined_pullBytes]
      rw [Int.toNat_natCast] at hb
      simp [hb]

theorem writePhysicalMemory_refused {m : Memory} {a : U64} {n : Int} (h : ¬ m.Valid a n)
    (buf : List Byte) :
    (writePhysicalMemory a n buf false false).run m = .error (.sim .generationError) m := by
  rw [writePhysicalMemory, EStateM.run_bind, EStateM.run_get]
  dsimp only
  rw [EStateM.run_bind]
  cases hcheck : m.checkAddresses a n false with
  | error f => rw [Step.checkAddresses_error hcheck]; rfl
  | ok address => exact absurd ⟨address, hcheck⟩ h

/-- A write whose addresses are valid returns, also if the device refuses it, or it throws
    `MEM_ERROR`. -/
theorem writePhysicalMemory_valid {m : Memory} {a : U64} {n : Int} (hvalid : m.Valid a n)
    {buf : List Byte} (hbuf : n.toNat ≤ buf.length) :
    (∃ rcode m', (writePhysicalMemory a n buf false false).run m = .ok rcode m') ∨
      ¬ m.Takes a n ∧
        ∃ m', (writePhysicalMemory a n buf false false).run m = .error (.mblock .memError) m' := by
  obtain ⟨address, hcheck⟩ := hvalid
  obtain rfl := checkAddresses_ok hcheck
  rw [writePhysicalMemory, EStateM.run_bind, EStateM.run_get]
  dsimp only
  rw [EStateM.run_bind, hcheck, Effect.run_lift_ok]
  dsimp only
  rw [Takes]
  cases hdev : m.deviceAt (a &&& m.paMask) with
  | some p =>
    obtain ⟨rcode, hrun⟩ := writeDeviceMemory_run m p (a &&& m.paMask) n buf
    exact .inl ⟨rcode, _, hrun⟩
  | none =>
    dsimp only [onPhysMem]
    rw [Effect.run_focus]
    by_cases hn : n ≤ 0 ∨ 32 < n
    · rw [PhysicalMemory.write_run_invalid hn, Effect.mapState_error]
      exact .inr ⟨by omega, _, rfl⟩
    · obtain ⟨k, rfl⟩ := Int.eq_ofNat_of_zero_le (show 0 ≤ n by omega)
      rw [Int.toNat_natCast] at hbuf
      rw [PhysicalMemory.write_run (by omega) (by omega) hbuf, Effect.mapState_ok]
      exact .inl ⟨_, _, rfl⟩

end Memory

end Dimebox
