import Dimebox.StepThrows

/-! What an access leaves alone.

    A read never changes the value of a byte that already has one, whatever its size and whether it
    returns or throws; a write changes the bytes of its own span if it returns, and none if it
    throws. Loads are the only thing `Execute` does to memory, so it keeps every byte. -/

namespace Dimebox

namespace PhysicalMemory

variable {n : Int}

/-- `operator[]` on a block decides no byte. -/
theorem seen_putBlock_blockAt (m : PhysicalMemory) (B : U64) :
    (m.putBlock B (m.blockAt B, m.oracle)).seen = m.seen := by
  funext a
  rw [seen, seen]
  by_cases h : MemBlock.blockAddress a = B
  · rw [h, blockAt_putBlock_self]
  · rw [blockAt_putBlock_ne _ h]

theorem validateAccess_invalid (hn : n ≤ 0 ∨ 32 < n) (a : U64) :
    MemBlock.validateAccess (MemBlock.offset a) n = .error (.mblock .memError) := by
  have := MemBlock.offset_lt a
  rw [MemBlock.validateAccess, if_neg (by omega), if_pos hn]

/-- A write of a size that is refused. -/
theorem write_run_invalid (hn : n ≤ 0 ∨ 32 < n) (a : U64) (buf : List Byte) (iv : Bool)
    (m : PhysicalMemory) :
    (write a buf n iv).run m = .error (.mblock .memError)
      (m.putBlock (MemBlock.blockAddress a) (m.blockAt (MemBlock.blockAddress a), m.oracle)) := by
  have hblock : (MemBlock.write a buf n iv).run (m.blockAt (MemBlock.blockAddress a), m.oracle)
      = .error (.mblock .memError) (m.blockAt (MemBlock.blockAddress a), m.oracle) := by
    rw [MemBlock.write]
    simp only [EStateM.run_bind, validateAccess_invalid hn, Effect.run_lift_error]
  simp only [write, blockWrite, EStateM.run_bind, Effect.run_tryCatch, run_onBlock, hblock,
    Effect.mapState_error, Effect.run_throw]

/-- A read of a size that is refused. -/
theorem read_run_invalid (hn : n ≤ 0 ∨ 32 < n) (a : U64) (init : Bool) (m : PhysicalMemory) :
    (read a init n).run m = .error (.mblock .memError)
      (m.putBlock (MemBlock.blockAddress a) (m.blockAt (MemBlock.blockAddress a), m.oracle)) := by
  have hblock : (MemBlock.read a n init).run (m.blockAt (MemBlock.blockAddress a), m.oracle)
      = .error (.mblock .memError) (m.blockAt (MemBlock.blockAddress a), m.oracle) := by
    rw [MemBlock.read]
    simp only [EStateM.run_bind, validateAccess_invalid hn, Effect.run_lift_error]
  simp only [read, blockRead, Effect.run_tryCatch, run_onBlock, hblock, Effect.mapState_error,
    Effect.run_throw]

/-- A read keeps every byte. -/
theorem read_keeps (a : U64) (init : Bool) (n : Int) (m : PhysicalMemory) :
    Cells.KeepsOff [] m.seen (Effect.final ((read a init n).run m)).seen := by
  by_cases hn : n ≤ 0 ∨ 32 < n
  · rw [read_run_invalid hn, Effect.final_error, seen_putBlock_blockAt]
    exact fun _ _ h _ => h
  · obtain ⟨k, rfl⟩ := Int.eq_ofNat_of_zero_le (show 0 ≤ n by omega)
    rw [read_run (by omega) (by omega)]
    exact (run_pullBytes init k m a).keepsOff fun b v h => absurd h (Cells.not_mem_reads _ _)

/-- A byte that has a value is read as that value. -/
theorem read_of_seen {m : PhysicalMemory} {a : U64} {v : Byte} (h : m.seen a = some v)
    (init : Bool) : ∃ rcode m', (read a init 1).run m = .ok (rcode, [v]) m' := by
  have hbyte : m.byteAt a = v := by
    rw [byteAt, seen_touch_grows m a a v h]
    rfl
  have hrun := read_run (n := 1) (by omega) (by omega) a init m
  simp only [pullBytes, hbyte] at hrun
  exact ⟨_, _, hrun⟩

end PhysicalMemory

/-! ### Accesses through `Memory` -/

namespace Devices

variable (d : Devices) (p q : DevicePtr) (bigEndian : Bool) (pa : U64)

/-- A device access leaves the address ranges alone. -/
theorem base_read (n : Int) : (d.read p bigEndian pa n).2.2.base q = d.base q := by
  have huart : (d.uart1.readReg pa).2.2.toMemmapDevice = d.uart1.toMemmapDevice := by
    unfold UartPl011.readReg
    split <;> try rfl
    split <;> rfl
  unfold read
  split
  · rfl
  · cases p
    · cases q
      · exact huart
      · rfl
    · rfl

theorem base_write (buf : List Byte) (n : Int) :
    (d.write p bigEndian pa buf n).2.base q = d.base q := by
  have huart : ∀ w, (d.uart1.writeReg pa w).2.toMemmapDevice = d.uart1.toMemmapDevice := by
    intro w
    unfold UartPl011.writeReg
    split <;> rfl
  have htimer : ∀ w, (d.timer.writeReg pa w).2.toMemmapDevice = d.timer.toMemmapDevice := by
    intro w
    unfold MachineTimer.writeReg
    split <;> rfl
  unfold write
  split
  · rfl
  · cases p
    · cases q
      · exact huart _
      · rfl
    · cases q
      · rfl
      · exact htimer _

end Devices

namespace Memory

/-- The same addresses are RAM. -/
structure SameMap (m m' : Memory) : Prop where
  size : m'.sizeInBits = m.sizeInBits
  devices : m'.devices = m.devices
  base : ∀ p, m'.deviceObjects.base p = m.deviceObjects.base p

/-- The RAM bytes an access covers; an access that starts in a device goes to the device. -/
def ramSpan (m : Memory) (address : U64) (numberOfBytes : Nat) : List U64 :=
  match m.deviceAt (address &&& m.paMask) with
  | some _ => []
  | none => PhysicalMemory.span (address &&& m.paMask) numberOfBytes

theorem SameMap.refl (m : Memory) : SameMap m m := ⟨rfl, rfl, fun _ => rfl⟩

theorem SameMap.trans {m m' m'' : Memory} (h : SameMap m m') (h' : SameMap m' m'') :
    SameMap m m'' :=
  ⟨h'.size.trans h.size, h'.devices.trans h.devices, fun p => (h'.base p).trans (h.base p)⟩

theorem SameMap.deviceAt_eq {m m' : Memory} (h : SameMap m m') (a : U64) :
    m'.deviceAt a = m.deviceAt a := by
  simp only [deviceAt, h.devices, h.base]

theorem SameMap.paMask_eq {m m' : Memory} (h : SameMap m m') : m'.paMask = m.paMask := by
  rw [paMask, paMask, h.size]

theorem SameMap.ramSpan_eq {m m' : Memory} (h : SameMap m m') (a : U64) (n : Nat) :
    m'.ramSpan a n = m.ramSpan a n := by
  simp only [ramSpan, h.paMask_eq, h.deviceAt_eq]

/-- The same addresses are RAM, and RAM bytes outside `W` keep their values. -/
structure RamFrame (W : List U64) (m m' : Memory) : Prop extends SameMap m m' where
  keeps : Cells.KeepsOff W m.physMem.seen m'.physMem.seen

theorem RamFrame.refl (m : Memory) : RamFrame [] m m := ⟨SameMap.refl m, fun _ _ h _ => h⟩

theorem RamFrame.trans {W W' : List U64} {m m' m'' : Memory} (h : RamFrame W m m')
    (h' : RamFrame W' m' m'') : RamFrame (W ++ W') m m'' :=
  ⟨h.toSameMap.trans h'.toSameMap, h.keeps.trans h'.keeps⟩

/-- What the address checks let through. -/
theorem checkAddresses_ok {m : Memory} {a address : U64} {n : Int} {forTest : Bool}
    (h : m.checkAddresses a n forTest = .ok address) : address = a &&& m.paMask := by
  have hvalidate : ∀ {x y}, m.validatePhysicalMemoryAddress x forTest = .ok y →
      y = x &&& m.paMask := by
    intro x y hx
    unfold validatePhysicalMemoryAddress at hx
    split at hx
    · cases hx
    · simp only at hx
      split at hx
      · exact (Except.ok.inj hx).symm
      · split at hx
        · exact (Except.ok.inj hx).symm
        · cases hx
  unfold checkAddresses at h
  cases h₁ : m.validatePhysicalMemoryAddress a forTest with
  | error f => rw [h₁] at h; cases h
  | ok x =>
    rw [h₁] at h
    obtain rfl := hvalidate h₁
    cases h₂ : m.validatePhysicalMemoryAddress
        ((a &&& m.paMask) + BitVec.ofInt 64 n - 1) forTest with
    | error f =>
      simp only [Bind.bind, Except.bind] at h
      rw [h₂] at h
      cases h
    | ok y =>
      simp only [Bind.bind, Except.bind] at h
      rw [h₂] at h
      exact (Except.ok.inj h).symm

theorem readDeviceMemory_frame (p : DevicePtr) (a : U64) (n : Int) (buf : List Byte)
    (forTest : Bool) : Effect.Moves (RamFrame []) (readDeviceMemory p a n buf forTest) := by
  intro m
  rw [readDeviceMemory, EStateM.run_bind, EStateM.run_get]
  simp only
  split
  · exact RamFrame.refl m
  · split
    · exact ⟨⟨rfl, rfl, fun q => Devices.base_read ..⟩, fun _ _ h _ => h⟩
    · exact RamFrame.refl m

theorem readPhysicalMemory_frame (a : U64) (n : Int) (buf : List Byte) (forTest init : Bool) :
    Effect.Moves (RamFrame []) (readPhysicalMemory a n buf forTest init) := by
  intro m
  rw [readPhysicalMemory, EStateM.run_bind, EStateM.run_get]
  simp only
  rw [EStateM.run_bind]
  cases m.checkAddresses a n forTest with
  | error f => exact RamFrame.refl m
  | ok address =>
    rw [Effect.run_lift_ok]
    simp only
    cases m.deviceAt address with
    | some p => exact readDeviceMemory_frame p address n buf forTest m
    | none =>
      have hkeep := PhysicalMemory.read_keeps address init n m.physMem
      simp only [onPhysMem]
      rw [EStateM.run_bind, Effect.run_focus]
      cases hrun : (PhysicalMemory.read address init n).run m.physMem with
      | ok r p => rw [hrun] at hkeep; exact ⟨⟨rfl, rfl, fun _ => rfl⟩, hkeep⟩
      | error f p => rw [hrun] at hkeep; exact ⟨⟨rfl, rfl, fun _ => rfl⟩, hkeep⟩

theorem frame_bind {α β : Type} {x : EStateM Fault Memory α} {f : α → EStateM Fault Memory β}
    (hx : Effect.Moves (RamFrame []) x) (hf : ∀ a, Effect.Moves (RamFrame []) (f a)) :
    Effect.Moves (RamFrame []) (x >>= f) := Effect.moves_bind (fun h h' => h.trans h') hx hf

/-- `ReadMemory` is a sequence of physical reads. -/
theorem readMemory_moves {R : Memory → Memory → Prop} (hr : ∀ m, R m m)
    (ht : ∀ {a b c}, R a b → R b c → R a c) (forTest : Bool)
    (h : ∀ a n buf init, Effect.Moves R (readPhysicalMemory a n buf forTest init)) (la : U64)
    (isData : Bool) (n : Int) (aligned : Bool) (buf : List Byte) (init : Bool) :
    Effect.Moves R (readMemory la isData n aligned buf forTest init) := by
  have hblocks : ∀ (blocks blockOffset : Nat) (rcode : Int) (buf : List Byte),
      Effect.Moves R (readBlocks la forTest init blocks blockOffset rcode buf) := by
    intro blocks
    induction blocks with
    | zero => exact fun _ _ _ => Effect.moves_pure hr _
    | succ blocks ih =>
      intro blockOffset rcode buf
      rw [readBlocks]
      split
      · exact Effect.moves_pure hr _
      · exact Effect.moves_bind (R := R) ht (h _ _ _ _) fun _ => ih _ _ _
  have hread : Effect.Moves R (readMemory la true n true buf forTest init) := by
    rw [readMemory]
    simp only [Bool.not_true, Bool.false_and, Bool.false_eq_true, if_false]
    split
    · exact h _ _ _ _
    · refine Effect.moves_bind (R := R) ht (hblocks _ _ _ _) fun r => ?_
      obtain ⟨rcode, blockOffset, buf⟩ := r
      simp only
      split
      · exact Effect.moves_bind (R := R) ht (h _ _ _ _) fun _ => Effect.moves_pure hr _
      · exact Effect.moves_pure hr _
  cases isData <;> cases aligned
  · exact Effect.moves_throw hr _
  all_goals exact hread

theorem readMemory_frame (la : U64) (isData : Bool) (n : Int) (aligned : Bool) (buf : List Byte)
    (forTest init : Bool) :
    Effect.Moves (RamFrame []) (readMemory la isData n aligned buf forTest init) :=
  readMemory_moves RamFrame.refl (fun h h' => h.trans h') forTest
    (fun a n buf init => readPhysicalMemory_frame a n buf forTest init) la isData n aligned buf init

/-! ### Writes -/

/-- What a write to a device leaves. -/
def deviceWritten (m : Memory) (p : DevicePtr) (address : U64) (numberOfBytes : Int)
    (buffer : List Byte) : Memory :=
  if Devices.isMapped address p then
    { m with
      deviceObjects := (m.deviceObjects.write p m.hostEndianness address buffer numberOfBytes).2 }
  else m

/-- What a write that returns leaves. -/
def written (m : Memory) (addressIn : U64) (numberOfBytes : Int) (buffer : List Byte) : Memory :=
  match m.deviceAt (addressIn &&& m.paMask) with
  | some p => m.deviceWritten p (addressIn &&& m.paMask) numberOfBytes buffer
  | none =>
    { m with
      physMem := m.physMem.putBytes (addressIn &&& m.paMask) false
        (buffer.take numberOfBytes.toNat) }

theorem deviceWritten_frame (m : Memory) (p : DevicePtr) (a : U64) (n : Int) (buf : List Byte) :
    RamFrame [] m (m.deviceWritten p a n buf) := by
  unfold deviceWritten
  split
  · exact ⟨⟨rfl, rfl, fun q => Devices.base_write ..⟩, fun _ _ h _ => h⟩
  · exact RamFrame.refl m

/-- The RAM writes a write consists of. -/
theorem run_written (m : Memory) (a : U64) {n : Int} {buf : List Byte}
    (hbuf : n.toNat ≤ buf.length) :
    Cells.Run m.physMem.seen (Cells.writes (m.ramSpan a n.toNat) buf)
      (m.written a n buf).physMem.seen := by
  unfold ramSpan written
  cases m.deviceAt (a &&& m.paMask) with
  | some p => exact .nil (deviceWritten_frame m p _ _ _).keeps.grows
  | none =>
    have hwrites : Cells.writes (PhysicalMemory.span (a &&& m.paMask) n.toNat) buf
        = Cells.writes (PhysicalMemory.span (a &&& m.paMask) (buf.take n.toNat).length)
          (buf.take n.toNat) := by
      rw [List.length_take, Nat.min_eq_left hbuf, Cells.writes, Cells.writes,
        List.zipWith_eq_zipWith_take_min, PhysicalMemory.length_span, Nat.min_eq_left hbuf,
        List.take_of_length_le (Nat.le_of_eq (PhysicalMemory.length_span ..))]
    simp only
    rw [hwrites]
    exact PhysicalMemory.run_putBytes false (buf.take n.toNat) m.physMem _

theorem written_frame (m : Memory) (a : U64) {n : Int} {buf : List Byte}
    (hbuf : n.toNat ≤ buf.length) : RamFrame (m.ramSpan a n.toNat) m (m.written a n buf) := by
  refine ⟨?_, (run_written m a hbuf).keepsOff fun b v h => Cells.mem_of_mem_writes _ _ h⟩
  unfold written
  cases m.deviceAt (a &&& m.paMask) with
  | some p => exact (deviceWritten_frame m p ..).toSameMap
  | none => exact ⟨rfl, rfl, fun _ => rfl⟩

theorem writeDeviceMemory_run (m : Memory) (p : DevicePtr) (a : U64) (n : Int) (buf : List Byte) :
    ∃ rcode, (writeDeviceMemory p a n buf false).run m = .ok rcode (m.deviceWritten p a n buf) := by
  rw [writeDeviceMemory, EStateM.run_bind, EStateM.run_get, deviceWritten]
  simp only [Bool.false_eq_true, if_false]
  split
  · exact ⟨_, rfl⟩
  · exact ⟨_, rfl⟩

/-- `WritePhysicalMemory`: a write that returns has been done, one that throws left RAM alone. -/
theorem writePhysicalMemory_cases (m : Memory) (a : U64) (n : Int) {buf : List Byte}
    (hbuf : n.toNat ≤ buf.length) :
    (∃ rcode, (writePhysicalMemory a n buf false false).run m
      = .ok rcode (m.written a n buf)) ∨
    ∃ f m', (writePhysicalMemory a n buf false false).run m = .error f m' ∧ RamFrame [] m m' ∧
      (∀ what, f ≠ .runtimeError what) := by
  rw [writePhysicalMemory, EStateM.run_bind, EStateM.run_get]
  simp only
  rw [EStateM.run_bind]
  cases hcheck : m.checkAddresses a n false with
  | error f =>
    refine .inr ⟨f, m, rfl, RamFrame.refl m, fun what hf => ?_⟩
    rw [Step.checkAddresses_error hcheck] at hf
    cases hf
  | ok address =>
    obtain rfl := checkAddresses_ok hcheck
    rw [Effect.run_lift_ok]
    simp only
    unfold written
    cases m.deviceAt (a &&& m.paMask) with
    | some p => exact .inl (writeDeviceMemory_run m p _ n buf)
    | none =>
      simp only [onPhysMem]
      rw [Effect.run_focus]
      by_cases hn : n ≤ 0 ∨ 32 < n
      · rw [PhysicalMemory.write_run_invalid hn, Effect.mapState_error]
        refine .inr ⟨_, _, rfl, ⟨⟨rfl, rfl, fun _ => rfl⟩, ?_⟩, by simp⟩
        rw [PhysicalMemory.seen_putBlock_blockAt]
        exact fun _ _ h _ => h
      · have hk : (n.toNat : Int) = n := Int.toNat_of_nonneg (by omega)
        have hrun := PhysicalMemory.write_run (n := n.toNat) (by omega) (by omega) hbuf
          (a &&& m.paMask) false m.physMem
        rw [hk] at hrun
        rw [hrun, Effect.mapState_ok]
        exact .inl ⟨_, rfl⟩

end Memory

/-! ### Execute and Writeback -/

/-- What `Execute` does to memory and to the queue of accesses. -/
structure LoadsOnly (i i' : RiscvInstruction) : Prop where
  ram : Memory.RamFrame [] i.memory i'.memory
  queue : (∀ a ∈ i.mOpsMemory, a.WellSized) → ∀ a ∈ i'.mOpsMemory, a.WellSized

theorem LoadsOnly.refl (i : RiscvInstruction) : LoadsOnly i i := ⟨.refl _, fun h => h⟩

theorem LoadsOnly.trans {i i' i'' : RiscvInstruction} (h : LoadsOnly i i') (h' : LoadsOnly i' i'') :
    LoadsOnly i i'' := ⟨h.ram.trans h'.ram, fun hq => h'.queue (h.queue hq)⟩

theorem LoadsOnly.of_micro {i i' : RiscvInstruction} (h : Micro i i') : LoadsOnly i i' := by
  cases h with
  | setGp _ | write | jump | mbuf => exact ⟨.refl _, fun hq => hq⟩
  | read a n hn buf => exact ⟨Memory.readMemory_frame a true n true buf false true _, fun hq => hq⟩
  | queue access hw =>
    refine ⟨.refl _, fun hq a ha => ?_⟩
    rcases List.mem_append.mp ha with ha | ha
    · exact hq a ha
    · exact List.mem_singleton.mp ha ▸ hw

theorem execute_loadsOnly : Effect.Moves LoadsOnly Step.execute :=
  Step.execute_moves LoadsOnly.refl LoadsOnly.trans LoadsOnly.of_micro
    (fun i => ⟨by rw [RiscvInstruction.decode_memory]; exact .refl _,
      by rw [RiscvInstruction.decode_mOpsMemory]; exact fun hq => hq⟩)
    fun i s => ⟨.refl _, fun hq => hq⟩

namespace MemoryAccess

/-- A queued store applied to memory. -/
def apply (m : Memory) (a : MemoryAccess) : Memory :=
  if a.isWrite then m.written a.address a.size a.membuffer else m

/-- The RAM bytes a queued store writes. -/
def ramWrites (m : Memory) (a : MemoryAccess) : List (Cells.Access U64 Byte) :=
  if a.isWrite then Cells.writes (m.ramSpan a.address a.size) a.membuffer else []

end MemoryAccess

/-- The loop of `Writeback` applies the stores of the queue, each once and in order; it throws no
    `std::runtime_error`. -/
theorem writebackOps_cases (ops : List MemoryAccess) (m : Memory) (h : ∀ a ∈ ops, a.WellSized) :
    (writebackOps ops).run m = .ok () (ops.foldl MemoryAccess.apply m) ∨
    ∃ f m', (writebackOps ops).run m = .error f m' ∧ ∀ what, f ≠ .runtimeError what := by
  induction ops generalizing m with
  | nil => exact .inl rfl
  | cons a ops ih =>
    have hrest := fun m' => ih m' fun b hb => h b (List.mem_cons_of_mem _ hb)
    obtain ⟨hpos, hle, hbuf⟩ := h a (List.mem_cons_self ..)
    rw [writebackOps, List.foldl_cons, MemoryAccess.apply]
    by_cases hw : a.isWrite
    · have hle' : (a.size : Int) ≤ 32 := by omega
      simp only [hw, if_true, Memory.writeMemory, Bool.not_true, Bool.false_and,
        Bool.false_eq_true, if_false, hle', Memory.writeMemoryBlock]
      rw [EStateM.run_bind]
      have hlen : (a.size : Int).toNat ≤ a.membuffer.length := Nat.le_of_eq (hbuf hw).symm
      rcases Memory.writePhysicalMemory_cases m a.address a.size hlen with
        ⟨rcode, hrun⟩ | ⟨f, m', hrun, -, hf⟩
      · rw [hrun]; exact hrest _
      · rw [hrun]; exact .inr ⟨f, m', rfl, hf⟩
    · simp only [hw, Bool.false_eq_true, if_false]
      exact hrest m

/-- The stores of a queue as byte writes. -/
theorem run_apply (ops : List MemoryAccess) (m m₀ : Memory) (hmap : Memory.SameMap m₀ m)
    (h : ∀ a ∈ ops, a.WellSized) :
    Cells.Run m.physMem.seen (ops.flatMap (MemoryAccess.ramWrites m₀))
      (ops.foldl MemoryAccess.apply m).physMem.seen := by
  induction ops generalizing m with
  | nil => exact .nil (.refl _)
  | cons a ops ih =>
    have hbuf := (h a (List.mem_cons_self ..)).2.2
    rw [List.flatMap_cons, List.foldl_cons]
    have hops := fun b hb => h b (List.mem_cons_of_mem _ hb)
    unfold MemoryAccess.ramWrites MemoryAccess.apply
    by_cases hw : a.isWrite
    · have hlen : (a.size : Int).toNat ≤ a.membuffer.length := Nat.le_of_eq (hbuf hw).symm
      simp only [hw, if_true]
      rw [← hmap.ramSpan_eq]
      exact (Memory.run_written m a.address hlen).append
        (ih _ (hmap.trans (Memory.written_frame m a.address hlen).toSameMap) hops)
    · simp only [hw, Bool.false_eq_true, if_false, List.nil_append]
      exact ih m hmap hops

end Dimebox
