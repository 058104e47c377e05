import Dimebox.LoadStore
import Dimebox.Runs

/-! The instruction fetch.

    `StepCore` reads two bytes and tries them as a compressed instruction; only if they are none does
    it read four. The two decoders share no encoding, and the second read sees the bytes of the first
    even where memory was still untouched, so in RAM the two low bits of the word at the PC decide. A
    device refuses the first read and has compressed instructions nowhere. -/

namespace Dimebox

open Manual

/-! ### Reading the same bytes again -/

namespace PhysicalMemory

/-- The same blocks, in any order, and the same oracle. -/
structure Same (p p' : PhysicalMemory) : Prop where
  blockAt : ∀ B, p.blockAt B = p'.blockAt B
  oracle : p.oracle = p'.oracle

variable {p p' : PhysicalMemory}

theorem Same.touch (h : Same p p') (a : U64) : Same (p.touch a) (p'.touch a) := by
  refine ⟨fun B => ?_, ?_⟩
  · by_cases hB : B = MemBlock.blockAddress a
    · rw [hB, PhysicalMemory.touch, PhysicalMemory.touch, blockAt_putBlock_self,
        blockAt_putBlock_self, h.blockAt, h.oracle]
    · rw [PhysicalMemory.touch, PhysicalMemory.touch, blockAt_putBlock_ne _ hB,
        blockAt_putBlock_ne _ hB, h.blockAt]
  · rw [PhysicalMemory.touch, PhysicalMemory.touch, oracle_putBlock, oracle_putBlock, h.blockAt,
      h.oracle]

theorem Same.byteAt (h : Same p p') (a : U64) : p.byteAt a = p'.byteAt a := by
  rw [PhysicalMemory.byteAt, PhysicalMemory.byteAt, seen, seen, (h.touch a).blockAt]

/-- The block of an address is allocated. -/
def Ready (p : PhysicalMemory) (a : U64) : Prop := (p.blockAt (MemBlock.blockAddress a)).Allocated

theorem same_touch (h : p.Ready a) : Same (p.touch a) p := by
  have halloc := MemBlock.allocate_of_allocated h p.oracle
  refine ⟨fun B => ?_, ?_⟩
  · by_cases hB : B = MemBlock.blockAddress a
    · rw [hB, touch, blockAt_putBlock_self, halloc]
    · rw [touch, blockAt_putBlock_ne _ hB]
  · rw [touch, oracle_putBlock, halloc]

theorem Ready.touch (h : p.Ready a) (b : U64) : (p.touch b).Ready a := by
  by_cases hb : MemBlock.blockAddress a = MemBlock.blockAddress b
  · rw [Ready, hb]
    exact allocated_touch p b
  · rw [Ready, PhysicalMemory.touch, blockAt_putBlock_ne _ hb]
    exact h

@[simp] theorem pullByte_false (p : PhysicalMemory) (a : U64) : p.pullByte a false = p.touch a := rfl

theorem Same.pullBytes (n : Nat) {p p' : PhysicalMemory} (a : U64) (h : Same p p') :
    (p.pullBytes a false n).1 = (p'.pullBytes a false n).1 := by
  induction n generalizing p p' a with
  | zero => rfl
  | succ n ih =>
    simp only [PhysicalMemory.pullBytes, pullByte_false]
    rw [h.byteAt a, ih (a + 1) (h.touch a)]

theorem Ready.pullBytes {a : U64} (n : Nat) {p : PhysicalMemory} (b : U64) (h : p.Ready a) :
    (p.pullBytes b false n).2.2.Ready a := by
  induction n generalizing p b with
  | zero => exact h
  | succ n ih => exact ih (b + 1) (h.touch b)

theorem seen_pullBytes_grows (n : Nat) (p : PhysicalMemory) (a : U64) :
    Cells.Grows p.seen (p.pullBytes a false n).2.2.seen := by
  induction n generalizing p a with
  | zero => exact fun _ _ h => h
  | succ n ih =>
    intro b v h
    exact ih (p.touch a) (a + 1) b v (seen_touch_grows p a b v h)

/-- Bytes read once are read again, with whatever follows them, as if they had not been. -/
theorem pullBytes_again (k n : Nat) (p : PhysicalMemory) (a : U64) (hk : k ≤ n) :
    ((p.pullBytes a false k).2.2.pullBytes a false n).1 = (p.pullBytes a false n).1 := by
  induction k generalizing n p a with
  | zero => rfl
  | succ k ih =>
    obtain ⟨n, rfl⟩ : ∃ l, n = l + 1 := ⟨n - 1, by omega⟩
    -- what is left after the first byte is the same with the block of the first byte ready
    have hready : ((p.touch a).pullBytes (a + 1) false k).2.2.Ready a :=
      Ready.pullBytes k (a + 1) (allocated_touch p a)
    have hbyte : ((p.touch a).pullBytes (a + 1) false k).2.2.byteAt a = p.byteAt a := by
      have hseen := seen_pullBytes_grows k (p.touch a) (a + 1) a _ (seen_touch_self p a)
      rw [byteAt, seen_touch_grows _ a a _ hseen, Option.getD_some]
    have ih := ih n (p.touch a) (a + 1) (by omega)
    simp only [pullBytes, pullByte_false]
    rw [hbyte, Same.pullBytes n (a + 1) (same_touch hready), ih]

end PhysicalMemory

/-! ### The bytes as a word -/

/-- The word in a buffer of a little-endian host. -/
theorem wordOfBytes_little (bs : List Byte) : Devices.wordOfBytes false bs = little bs := by
  induction bs with
  | nil => rfl
  | cons b bs ih =>
    rw [Devices.wordOfBytes, if_neg (by decide), List.foldl_reverse] at ih ⊢
    rw [List.foldr_cons, ih, little, BitVec.or_comm]

theorem little_toNat (b : Byte) (bs : List Byte) :
    (little (b :: bs)).toNat = b.toNat + 256 * ((little bs).toNat % 2 ^ 24) := by
  have hb : (b.setWidth 32).toNat = b.toNat := by
    rw [BitVec.toNat_setWidth]
    exact Nat.mod_eq_of_lt (by have := b.isLt; omega)
  have hshift : (little bs <<< 8).toNat = 2 ^ 8 * ((little bs).toNat % 2 ^ 24) := by
    rw [BitVec.toNat_shiftLeft, Nat.shiftLeft_eq]
    omega
  rw [little, BitVec.toNat_or, hb, hshift, Nat.or_comm, ← Nat.two_pow_add_eq_or_of_lt b.isLt,
    Nat.add_comm]

/-- Two bytes in a word that is zero otherwise. -/
theorem little_halfword (b₀ b₁ b₂ b₃ : Byte) :
    little [b₀, b₁, 0, 0] = little [b₀, b₁, b₂, b₃] % 0x10000 := by
  apply BitVec.eq_of_toNat_eq
  have hzero : (little [0, 0]).toNat = 0 := rfl
  have hmod : (0x10000 : U32).toNat = 65536 := rfl
  rw [BitVec.toNat_umod, hmod, little_toNat, little_toNat b₁, little_toNat b₀, little_toNat b₁, hzero]
  have := b₀.isLt
  have := b₁.isLt
  omega

namespace Memory

/-- On a little-endian host `ApplyEndianness` copies every byte to itself. -/
theorem applyEndianness_little {m : Memory} (h : m.hostEndianness = false) (buffer : List Byte)
    (accessSize total : Nat) : m.applyEndianness buffer false accessSize total = buffer := by
  have hinner : ∀ (i : Nat) (js : List Nat) (buf : List Byte), js.foldl (fun buf j =>
      buf.set (i * accessSize + j) (buf.getD (i * accessSize + j) 0)) buf = buf := by
    intro i js buf
    refine List.foldlRecOn js _ (motive := fun b => b = buf) rfl ?_
    rintro b rfl j -
    apply List.ext_getElem?
    intro n
    rw [List.getElem?_set]
    split
    · next hn =>
      subst hn
      by_cases hlt : i * accessSize + j < b.length
      · simp [hlt]
      · simp [hlt]
    · rfl
  unfold applyEndianness
  simp only [h, if_true, hinner]
  exact List.foldlRecOn _ _ (motive := fun b => b = buffer) rfl fun _ hb _ _ => hb

/-- `ReadMemory` of instructions is one physical access. -/
theorem readMemory_instr (a : U64) {n : Nat} (hn : n ≤ 32) (buf : List Byte) :
    readMemory a false n true buf false false = readPhysicalMemory a n buf false false := by
  have hle : (n : Int) ≤ 32 := by omega
  rw [readMemory]
  simp only [Bool.not_false, Bool.not_true, Bool.and_false, Bool.false_eq_true, if_false, hle,
    if_true]
  rfl

theorem readDeviceMemory_halfword (p : DevicePtr) (a : U64) (buf : List Byte) (m : Memory) :
    (readDeviceMemory p a 2 buf false).run m = .ok (-1, buf) m := by
  rw [readDeviceMemory, EStateM.run_bind, EStateM.run_get]
  simp only [Bool.false_eq_true, if_false]
  split <;> rfl

end Memory

namespace RiscvSimulator
open Memory

/-- A fetch of four bytes at `pc`: the little-endian word. -/
def fetchWord (pc : U32) : EStateM Fault Memory U32 := do
  let r ← Memory.readMemory (pc.setWidth 64) false 4 true (List.replicate 4 0) false false
  return little r.2

/-- What `StepCore` makes of the word `w` at its PC: class and encoding. -/
def selected (work : RiscvState) (device : Bool) (w : U32) : Iclass × U32 :=
  if !device && newInstruction16 work (w % 0x10000) ≠ .unknownInstruction then
    (newInstruction16 work (w % 0x10000), w % 0x10000)
  else (newInstruction w, w)

/-- The two reads of the fetch on a little-endian host. -/
theorem fetch_run (work : RiscvState) {pc : U32} {m m₁ m₂ : Memory} {r r' : Int × List Byte}
    (hread : (readMemory (pc.setWidth 64) false 2 true (List.replicate 4 0) false false).run m
      = .ok r m₁) (hhost : m₁.hostEndianness = false)
    (hread' : (readMemory (pc.setWidth 64) false 4 true r.2 false false).run m₁ = .ok r' m₂)
    (hhost' : m₂.hostEndianness = false) :
    (fetch work pc).run m =
      if newInstruction16 work (little r.2) ≠ .unknownInstruction then
        .ok (newInstruction16 work (little r.2), little r.2) m₁
      else .ok (newInstruction (little r'.2), little r'.2) m₂ := by
  rw [fetch, EStateM.run_bind, hread]
  simp only [EStateM.run_bind, EStateM.run_get, applyEndianness_little hhost, hhost,
    wordOfBytes_little]
  split
  · rfl
  · rw [EStateM.run_bind, hread']
    simp only [EStateM.run_bind, EStateM.run_get, applyEndianness_little hhost', hhost',
      wordOfBytes_little]
    rfl

theorem fetchWord_run {pc : U32} {m m' : Memory} {r : Int × List Byte}
    (hread : (readMemory (pc.setWidth 64) false 4 true (List.replicate 4 0) false false).run m
      = .ok r m') : (fetchWord pc).run m = .ok (little r.2) m' := by
  rw [fetchWord, EStateM.run_bind, hread]
  rfl

/-- In RAM both reads see the same bytes. -/
theorem fetch_ram (work : RiscvState) {pc : U32} {m : Memory} (hm : m.DefaultRange)
    (hhost : m.hostEndianness = false) (hdev : m.deviceAt (low32 (pc.setWidth 64)) = none) :
    ∃ w m₁, (fetchWord pc).run m = .ok w m₁ ∧
      ∃ m₂, (fetch work pc).run m = .ok (selected work false w) m₂ := by
  have hread : ∀ (n : Nat) (m' : Memory) (buf : List Byte), m'.DefaultRange →
      m'.deviceAt (low32 (pc.setWidth 64)) = none → 0 < n → n ≤ 32 →
      (readMemory (pc.setWidth 64) false n true buf false false).run m' =
        let r := m'.physMem.pullBytes (low32 (pc.setWidth 64)) false n
        .ok (definedCode r.2.1 n, overlay r.1 buf) { m' with physMem := r.2.2 } := by
    intro n m' buf hm' hdev' hn hn'
    rw [readMemory_instr _ hn']
    exact readPhysicalMemory_run hm' hdev' hn hn' buf false
  generalize low32 (pc.setWidth 64) = a at *
  have h2 := hread 2 m (List.replicate 4 0) hm hdev (by decide) (by decide)
  have h4 := hread 4 m (List.replicate 4 0) hm hdev (by decide) (by decide)
  have h4' := hread 4 { m with physMem := (m.physMem.pullBytes a false 2).2.2 }
    (overlay (m.physMem.pullBytes a false 2).1 (List.replicate 4 0)) (hm.withPhysMem _) hdev
    (by decide) (by decide)
  have hsame := PhysicalMemory.pullBytes_again 2 4 m.physMem a (by decide)
  have hhalf : little (overlay (m.physMem.pullBytes a false 2).1 (List.replicate 4 0))
      = little (overlay (m.physMem.pullBytes a false 4).1 (List.replicate 4 0)) % 0x10000 :=
    little_halfword _ _ _ _
  have hover : overlay (m.physMem.pullBytes a false 4).1
      (overlay (m.physMem.pullBytes a false 2).1 (List.replicate 4 0))
      = overlay (m.physMem.pullBytes a false 4).1 (List.replicate 4 0) := rfl
  refine ⟨_, _, fetchWord_run h4, ?_⟩
  rw [fetch_run work h2 hhost h4' hhost, hsame, hover, hhalf, selected]
  split
  · next h => exact ⟨_, by rw [if_pos (by simpa using h)]⟩
  · next h => exact ⟨_, by rw [if_neg (by simpa using h)]⟩

theorem fetch_device (work : RiscvState) {pc : U32} {m : Memory} (hm : m.DefaultRange)
    (hhost : m.hostEndianness = false) {p : DevicePtr}
    (hdev : m.deviceAt (low32 (pc.setWidth 64)) = some p) :
    ∃ w m₁, (fetchWord pc).run m = .ok w m₁ ∧
      ∃ m₂, (fetch work pc).run m = .ok (selected work true w) m₂ := by
  have hread : ∀ (n : Nat), n ≤ 32 →
      (readMemory (pc.setWidth 64) false n true (List.replicate 4 0) false false).run m =
        (readDeviceMemory p (low32 (pc.setWidth 64)) n (List.replicate 4 0) false).run m := by
    intro n hn
    rw [readMemory_instr _ hn]
    exact readPhysicalMemory_device hm hdev n _ false
  have h2 := (hread 2 (by decide)).trans (readDeviceMemory_halfword _ _ _ _)
  obtain ⟨r, d, hok⟩ := readDeviceMemory_ok p (low32 (pc.setWidth 64)) 4 (List.replicate 4 0) m
  have h4 := (hread 4 (by decide)).trans hok
  have hzero : newInstruction16 work (little (List.replicate 4 0)) = .unknownInstruction := by
    have : little (List.replicate 4 0) = 0 := rfl
    rw [this]
    simp [newInstruction16]
  refine ⟨_, _, fetchWord_run h4, { m with deviceObjects := d }, ?_⟩
  rw [fetch_run work h2 hhost h4 hhost, if_neg (not_not_intro hzero)]
  rfl

theorem fetch_selects (work : RiscvState) (pc : U32) {m : Memory} (hm : m.DefaultRange)
    (hhost : m.hostEndianness = false) : ∃ w m₁, (fetchWord pc).run m = .ok w m₁ ∧ ∃ m₂,
      (fetch work pc).run m
        = .ok (selected work (m.deviceAt (low32 (pc.setWidth 64))).isSome w) m₂ := by
  cases hdev : m.deviceAt (low32 (pc.setWidth 64)) with
  | none => exact fetch_ram work hm hhost hdev
  | some p => exact fetch_device work hm hhost hdev

/-! ### Instruction length -/

/-- Class `c` and encoding `e` for the word `w` at the PC, in a device window or not. -/
structure LengthRule (work : RiscvState) (device : Bool) (w : U32) (c : Iclass) (e : U32) :
    Prop where
  /-- a word that ends in 11 is a 32-bit instruction, and never a compressed one -/
  word : w.toNat % 4 = 3 → c = newInstruction w ∧ e = w ∧
    ∀ state, newInstruction16 state (w % 0x10000) = .unknownInstruction
  halfword : w.toNat % 4 ≠ 3 → device = false → work.compressedExtensionEnabled →
    newInstruction16 work (w % 0x10000) ≠ .unknownInstruction →
    c = newInstruction16 work (w % 0x10000) ∧ e = w % 0x10000
  unknown : w.toNat % 4 ≠ 3 → device = true ∨ ¬ work.compressedExtensionEnabled ∨
    newInstruction16 work (w % 0x10000) = .unknownInstruction → c = .unknownInstruction
  /-- another word is never a 32-bit instruction -/
  short : w.toNat % 4 ≠ 3 → c = .unknownInstruction ∨ c.instrSize = 2

theorem selected_lengthRule (work : RiscvState) (device : Bool) (w : U32) :
    LengthRule work device w (selected work device w).1 (selected work device w).2 := by
  have hhalf : (w % 0x10000).toNat % 4 = w.toNat % 4 := by
    have h : (0x10000 : U32).toNat = 65536 := rfl
    rw [BitVec.toNat_umod, h]
    omega
  have hword : w.toNat % 4 = 3 →
      ∀ state, newInstruction16 state (w % 0x10000) = .unknownInstruction :=
    fun h state => newInstruction16_of_low state (hhalf.trans h)
  unfold selected
  split
  · next hsel =>
    obtain ⟨hdev, hsome⟩ : device = false ∧ newInstruction16 work (w % 0x10000) ≠ .unknownInstruction :=
      by simpa using hsel
    refine ⟨fun h => absurd (hword h work) hsome, fun _ _ _ _ => ⟨rfl, rfl⟩, ?_, fun _ => ?_⟩
    · rintro - (h | h | h)
      · rw [hdev] at h; cases h
      · exact absurd (newInstruction16_of_disabled (by simpa using h) _) hsome
      · exact absurd h hsome
    · exact instrSize_newInstruction16 work _
  · next hsel =>
    refine ⟨fun h => ⟨rfl, rfl, hword h⟩, fun _ hdev _ hsome => ?_, fun h _ => ?_, fun h => ?_⟩
    · rw [hdev, Bool.not_false, Bool.true_and, decide_eq_true_iff] at hsel
      exact absurd hsome hsel
    · exact newInstruction_of_low h
    · exact .inl (newInstruction_of_low h)

/-- `StepCore` of core `k` selects class `c` with encoding `e`: this is what it goes on with, and it
    does go on unless a debug client holds it. -/
def Selects (k : Nat) (s : RiscvSimulator) (c : Iclass) (e : U32) : Prop :=
  (∀ core pc i s', (prepare k).run s = .ok (.ok (core, pc, i)) s' →
    i.iclass = c ∧ i.encoding = e) ∧
  (s.debugServer = none → ∃ r s', (prepare k).run s = .ok (.ok r) s')

/-- The two low bits of the word at its PC decide the length of the instruction a core executes,
    except that a device window has no compressed instructions. -/
theorem length_decided_by_low_bits (s : RiscvSimulator) (k : Nat) (core work : RiscvState)
    (hm : s.memory.DefaultRange) (hhost : s.memory.hostEndianness = false)
    (hcore : s.cores[k]? = some core)
    (hserviced : serviceInterrupt (RiscvState.copy (s.host.storage s.calls) core) = .ok work)
    (hawake : work.lowPowerMode = false) :
    ∃ w m c e, (fetchWord (work.pc.setWidth 32)).run s.memory = .ok w m ∧ Selects k s c e ∧
      LengthRule work (s.memory.deviceAt (low32 ((work.pc.setWidth 32).setWidth 64))).isSome w c e := by
  obtain ⟨w, m₁, hword, m₂, hfetch⟩ := fetch_selects work (work.pc.setWidth 32) hm hhost
  refine ⟨w, m₁, _, _, hword, ⟨?_, fun hnone => ?_⟩, selected_lengthRule work _ w⟩
  · intro core' pc i s' hprep
    obtain ⟨work', c, w', m, client, hcore', hserviced', -, rfl, hfetch', -, rfl⟩ :=
      prepare_fetched hprep
    obtain rfl : core = core' := Option.some.inj (hcore.symm.trans hcore')
    obtain rfl : work = work' := Except.ok.inj (hserviced.symm.trans hserviced')
    obtain ⟨hsel, -⟩ := EStateM.Result.ok.inj (hfetch.symm.trans hfetch')
    rw [hsel]
    exact ⟨rfl, rfl⟩
  · exact ⟨_, _, prepare_of_fetch hcore hserviced hawake hfetch hnone⟩

/-- The working state of the first core, if no interrupt is pending. -/
def workOf (s : RiscvSimulator) : RiscvState :=
  RiscvState.copy (s.host.storage s.calls) ((s.cores[0]?).getD {})

theorem workOf_serviced {s : RiscvSimulator} (hcore : s.cores[0]?.isSome)
    (hnone : (workOf s).interruptPending = none) : ∃ core, s.cores[0]? = some core ∧
      serviceInterrupt (RiscvState.copy (s.host.storage s.calls) core) = .ok (workOf s) := by
  obtain ⟨core, hcore⟩ := Option.isSome_iff_exists.mp hcore
  rw [workOf, hcore, Option.getD_some] at hnone
  refine ⟨core, hcore, ?_⟩
  rw [serviceInterrupt, hnone, workOf, hcore, Option.getD_some]

/-- C.NOP at the reset address. -/
def nopMachine : RiscvSimulator :=
  (init { resetAddress := 0x80000000 } (.simple 0x80000000 [0x01, 0x00, 0x13, 0x00] {})).loaded

theorem nopMachine_fetches_a_halfword : Selects 0 nopMachine .cNop 1 := by
  have hword : ∃ m, (fetchWord ((workOf nopMachine).pc.setWidth 32)).run nopMachine.memory
      = .ok 0x130001 m := Effect.ok_of_result (by decide +kernel)
  obtain ⟨m, hword⟩ := hword
  obtain ⟨core, hcore, hserviced⟩ := workOf_serviced (s := nopMachine) (by decide +kernel)
    (by decide +kernel)
  obtain ⟨w, m', c, e, hword', hsel, hrule⟩ := length_decided_by_low_bits nopMachine 0 core
    (workOf nopMachine) ⟨by decide +kernel, by decide +kernel, by decide +kernel⟩
    (by decide +kernel) hcore hserviced (by decide +kernel)
  have hw : 0x130001 = w := (EStateM.Result.ok.inj (hword.symm.trans hword')).1
  subst hw
  have hnop : newInstruction16 (workOf nopMachine) ((0x130001 : U32) % 0x10000) = .cNop := by
    decide +kernel
  have hone : (0x130001 : U32) % 0x10000 = 1 := by decide
  obtain ⟨hc, he⟩ := hrule.halfword (by decide) (by decide +kernel) (by decide +kernel)
    (by decide +kernel)
  rwa [hc, he, hnop, hone] at hsel

/-- The machine timer at the reset address, after one tick. -/
def timerMachine : RiscvSimulator :=
  let s := init { resetAddress := 0x1000, devices := [(0x1000, "MACHINE_TIMER")] }
    (.simple 0 [] {})
  let d := s.memory.deviceObjects
  { s with memory := { s.memory with deviceObjects := { d with timer := d.timer.advanceTimer } } }

/-- The word in the timer is 1, which is C.NOP in RAM. -/
theorem timerMachine_has_no_halfword : ∃ core work w m c e,
    timerMachine.cores[0]? = some core ∧
    serviceInterrupt (RiscvState.copy (timerMachine.host.storage timerMachine.calls) core)
      = .ok work ∧ work.lowPowerMode = false ∧
    (fetchWord (work.pc.setWidth 32)).run timerMachine.memory = .ok w m ∧
    Selects 0 timerMachine c e ∧ ¬ LengthRule work false w c e := by
  obtain ⟨m, hword⟩ : ∃ m, (fetchWord ((workOf timerMachine).pc.setWidth 32)).run
      timerMachine.memory = .ok 1 m := Effect.ok_of_result (by decide +kernel)
  obtain ⟨core, hcore, hserviced⟩ := workOf_serviced (s := timerMachine) (by decide +kernel)
    (by decide +kernel)
  have hview : (Effect.result ((prepare 0).run timerMachine)).map
      (Except.toOption · |>.map fun r => (r.2.2.iclass, r.2.2.encoding))
      = some (some (.unknownInstruction, 1)) := by
    decide +kernel
  refine ⟨core, workOf timerMachine, 1, m, .unknownInstruction, 1, hcore, hserviced,
    by decide +kernel, hword, ⟨?_, fun _ => ?_⟩, fun h => ?_⟩
  · intro core' pc i s' hprep
    rw [hprep] at hview
    simpa [Effect.result, Except.toOption] using hview
  · cases hprep : (prepare 0).run timerMachine with
    | error f s' => rw [hprep] at hview; cases hview
    | ok r s' =>
      cases r with
      | error why => rw [hprep] at hview; cases hview
      | ok r => exact ⟨r, s', rfl⟩
  · have hnop := (h.halfword (by decide) rfl (by decide +kernel) (by decide +kernel)).1
    exact absurd hnop (by decide +kernel)

end RiscvSimulator

end Dimebox
