import Dimebox.Fetch
import Dimebox.HartSteps
import Dimebox.Budget
import Dimebox.Sleep

/-! An instruction of the simulator as a step of a hart of the manual.

    The harts share bytes that the memory of the simulator settles only when it is first asked for
    them. A step is matched from its end, by bytes that explain the accesses of the fetch and of the
    instruction. -/

namespace Dimebox

open Manual (Hart Harts)

namespace RiscvSimulator

/-- The harts have the PCs and registers of the cores, and their bytes are the ones memory has
    settled. -/
structure Stands (s : RiscvSimulator) (M : Harts) : Prop where
  harts : M.harts = s.cores.map RiscvState.hart
  bytes : ∀ a v, s.memory.physMem.seen (a.setWidth 64) = some v → M.bytes a = v

/-- The harts of `s` over these bytes. -/
def hartsOver (s : RiscvSimulator) (bytes : U64 → Byte) : Harts where
  harts := s.cores.map RiscvState.hart
  bytes := Manual.low bytes

theorem stands_hartsOver {s : RiscvSimulator} {bytes : U64 → Byte}
    (h : Cells.Resolves bytes s.memory.physMem.seen) : Stands s (s.hartsOver bytes) :=
  ⟨rfl, fun _ v hv => h _ v hv⟩

/-- Every machine a simulator may stand for is one over resolved bytes. -/
theorem Stands.exists_bytes {s : RiscvSimulator} {M : Harts} (h : Stands s M) :
    ∃ bytes, Cells.Resolves bytes s.memory.physMem.seen ∧ M = s.hartsOver bytes := by
  refine ⟨fun a => if a.toNat < 2 ^ 32 then M.bytes (a.setWidth 32)
    else (s.memory.physMem.seen a).getD 0, fun a v hv => ?_, ?_⟩
  · dsimp only
    split
    · next ha =>
      have hback : ((a.setWidth 32 : U32).setWidth 64 : U64) = a := by
        apply BitVec.eq_of_toNat_eq
        rw [BitVec.toNat_setWidth, BitVec.toNat_setWidth]
        omega
      exact h.bytes _ v (by rw [hback]; exact hv)
    · rw [hv]; rfl
  · obtain ⟨harts, bytes⟩ := M
    obtain rfl : harts = s.cores.map RiscvState.hart := h.harts
    rw [hartsOver]
    congr 1
    funext a
    have hlt : (a.setWidth 64 : U64).toNat < 2 ^ 32 := by
      rw [BitVec.toNat_setWidth_of_le (by omega)]
      exact a.isLt
    rw [Manual.low, if_pos hlt]
    simp

theorem exists_stands (s : RiscvSimulator) : ∃ M, Stands s M :=
  ⟨s.hartsOver fun a => (s.memory.physMem.seen a).getD 0, stands_hartsOver fun a v h => by simp [h]⟩

/-! ### The fetch -/

/-- One read of instruction bytes. -/
theorem readInstr_cells (pc : U32) {m : Memory} (hm : m.LittleRam) (hdev : ∀ a, m.deviceAt a = none)
    {n : Nat} (hn : 0 < n) (hn' : n ≤ 32) (p : PhysicalMemory) (buf : List Byte) :
    ∃ code bs p', (Memory.readMemory (pc.setWidth 64) false n true buf false false).run
        { m with physMem := p } = .ok (code, Memory.overlay bs buf) { m with physMem := p' } ∧
      bs.length = n ∧
      Cells.Run p.seen (Cells.reads (PhysicalMemory.span (pc.setWidth 64) n) bs) p'.seen := by
  have hlow : Memory.low32 (pc.setWidth 64) = pc.setWidth 64 := by rw [low32_eq]; simp
  have hrun := Memory.readPhysicalMemory_run (hm.range.withPhysMem p) (a := pc.setWidth 64) (hdev _)
    hn hn' buf false
  rw [hlow] at hrun
  rw [Memory.readMemory_instr _ hn']
  exact ⟨_, _, _, hrun, PhysicalMemory.length_pullBytes false n p _,
    PhysicalMemory.run_pullBytes false n p _⟩

theorem load_four (bytes : U64 → Byte) (a : U64) : FlatMachine.load bytes a 4
    = [bytes a, bytes (a + 1), bytes (a + 2), bytes (a + 3)] := by
  simp [FlatMachine.load, List.range_succ]

/-- The accesses of a fetch, and what it selects; it agrees with the word there on the last two bits,
    and is the word if these are 11. -/
theorem fetch_cells (work : RiscvState) (pc : U32) {m : Memory} (hm : m.LittleRam)
    (hdev : ∀ a, m.deviceAt a = none) : ∃ c w p accesses,
      (fetch work pc).run m = .ok (c, w) { m with physMem := p } ∧
      Cells.Grows m.physMem.seen p.seen ∧ Cells.Run m.physMem.seen accesses p.seen ∧
      (w.toNat % 4 = 3 → c = newInstruction w) ∧
      ∀ bytes, Cells.Explains bytes accesses → Cells.after bytes accesses = bytes ∧
        ∀ v, v = Manual.little (FlatMachine.load bytes (pc.setWidth 64) 4) →
          v.toNat % 4 = w.toNat % 4 ∧ (w.toNat % 4 = 3 → v = w) := by
  obtain ⟨code, bs, p, h2, hlen, hcells⟩ := readInstr_cells pc hm hdev (n := 2) (by decide)
    (by decide) m.physMem (List.replicate 4 0)
  obtain ⟨code', bs', p', h4, hlen', hcells'⟩ := readInstr_cells pc hm hdev (n := 4) (by decide)
    (by decide) p (Memory.overlay bs (List.replicate 4 0))
  obtain ⟨b₀, b₁, rfl⟩ := List.length_eq_two.mp hlen
  have hfetch := fetch_run work h2 hm.host h4 hm.host
  generalize (pc.setWidth 64 : U64) = a at hcells hcells' ⊢
  have hgrows := (hcells.keepsOff fun b v h => absurd h (Cells.not_mem_reads _ _)).grows
  have hgrows' := (hcells'.keepsOff fun b v h => absurd h (Cells.not_mem_reads _ _)).grows
  have hspan : PhysicalMemory.span a 2 = [a, a + 1] := rfl
  rw [hspan] at hcells
  -- the first read explains the first two bytes
  have hfirst : ∀ bytes, Cells.Explains bytes (Cells.reads [a, a + 1] [b₀, b₁]) →
      b₀ = bytes a ∧ b₁ = bytes (a + 1) := by
    intro bytes hexp
    rw [Cells.explains_reads _ [a, a + 1] [b₀, b₁] rfl] at hexp
    simpa using hexp
  by_cases hcomp : newInstruction16 work (Manual.little
      (Memory.overlay [b₀, b₁] (List.replicate 4 0))) ≠ .unknownInstruction
  · rw [if_pos hcomp] at hfetch
    have hnot : (Manual.little (Memory.overlay [b₀, b₁] (List.replicate 4 0))).toNat % 4 ≠ 3 :=
      fun h => hcomp (newInstruction16_of_low work h)
    refine ⟨_, _, p, _, hfetch, hgrows, hcells, fun h => absurd h hnot, fun bytes hexp =>
      ⟨Cells.after_reads _ _ _, ?_⟩⟩
    rintro v rfl
    obtain ⟨rfl, rfl⟩ := hfirst bytes hexp
    have hhalf := little_halfword (bytes a) (bytes (a + 1)) (bytes (a + 2)) (bytes (a + 3))
    rw [← load_four] at hhalf
    have hover : Memory.overlay [bytes a, bytes (a + 1)] (List.replicate 4 0)
        = [bytes a, bytes (a + 1), 0, 0] := rfl
    have hmod : (0x10000 : U32).toNat = 65536 := rfl
    refine ⟨?_, fun h => absurd h hnot⟩
    rw [hover, hhalf, BitVec.toNat_umod, hmod]
    omega
  · rw [if_neg hcomp] at hfetch
    refine ⟨_, _, p', _, hfetch, hgrows.trans hgrows', hcells.append hcells', fun _ => rfl,
      fun bytes hexp => ⟨by simp, ?_⟩⟩
    rintro v rfl
    rw [Cells.explains_append, Cells.after_reads, Cells.explains_reads _ _ bs' (by simp [hlen'])]
      at hexp
    have hover : Memory.overlay bs' (Memory.overlay [b₀, b₁] (List.replicate 4 0)) = bs' := by
      simp [Memory.overlay, hlen']
    rw [hover, hexp.2, span_eq_map, List.map_map]
    exact ⟨rfl, fun _ => rfl⟩

/-! ### One step -/

/-- `endTest` aside, the core stays. -/
theorem keeps_setEndTest (isaTest : Bool) (c : Iclass) (pc : U32) (core : RiscvState) :
    (setEndTest isaTest c pc core).hart = core.hart ∧
      (setEndTest isaTest c pc core).lowPowerMode = core.lowPowerMode ∧
      (setEndTest isaTest c pc core).interruptPending = core.interruptPending := by
  obtain ⟨b, hb⟩ := setEndTest_eq isaTest c pc core
  rw [hb]
  exact ⟨rfl, rfl, rfl⟩

theorem hart_update (s t : RiscvState) : (s.update t).hart = t.hart := by
  rw [RiscvState.update_eq]
  rfl

theorem execute_iclass {i i' : RiscvInstruction} (h : Step.execute.run i = .ok () i') :
    i'.iclass = i.iclass := by
  have hmoves := Step.execute_moves (R := fun i i' => i'.iclass = i.iclass) (fun _ => rfl)
    (fun h h' => h'.trans h) (fun h => by cases h <;> rfl) (fun i => i.decode_iclass)
    (fun _ _ => rfl) i
  rwa [h] at hmoves

theorem endTest_setEndTest (isaTest : Bool) {c : Iclass} (hc : c ≠ .ecall) (pc : U32)
    {core : RiscvState} (hawake : core.lowPowerMode = false) :
    (setEndTest isaTest c pc core).endTest
      = (core.endTest || decide (core.pc = pc.setWidth 64)) := by
  rw [setEndTest, decide_eq_false hc, Bool.and_false]
  simp only [Bool.false_eq_true, if_false]
  split
  · next h => rw [h]; rfl
  · next h =>
    rw [hawake, if_neg (by decide), Bool.eq_false_iff.mpr h]
    rfl

/-- What a matched step leaves of its core. -/
structure Follower (core core' : RiscvState) : Prop where
  awake : core'.lowPowerMode = false
  quiet : core'.interruptPending = none
  endTest : core'.endTest = (core.endTest || decide (core'.hart.pc = core.hart.pc))

/-- The PC tells a jump to self. -/
theorem setWidth_pc_eq_iff (a b : U32) : (a.setWidth 64 : U64) = b.setWidth 64 ↔ a = b := by
  refine ⟨fun h => ?_, fun h => by rw [h]⟩
  have h32 := congrArg (fun a : U64 => (a.setWidth 32 : U32)) h
  simpa using h32

/-- The core after an instruction that executed on the copy `work`. -/
theorem follower_of_execute {core work storage : RiscvState} (hwork : work = .copy storage core)
    (hawake : work.lowPowerMode = false) (hquiet : work.interruptPending = none) {i : RiscvInstruction}
    (hstate : i.state = { work with pc := i.state.pc, x := i.state.x })
    (hnarrow : i.state.pc = i.state.hart.pc.setWidth 64) (hne : i.iclass ≠ .ecall) (isaTest : Bool) :
    Follower core (setEndTest isaTest i.iclass (work.pc.setWidth 32) (core.update i.state)) := by
  have hhart : work.hart = core.hart := by rw [hwork, RiscvState.copy, hart_update]
  have hend : work.endTest = core.endTest := by rw [hwork, RiscvState.copy, RiscvState.update_eq]
  have hcommitted : (core.update i.state).lowPowerMode = false := by
    rw [RiscvState.lowPowerMode, RiscvState.update_eq, hstate]
    exact hawake
  have hupdated : (core.update i.state).endTest = core.endTest := by
    rw [RiscvState.update_eq, ← hend, hstate]
  have hsame : i.state.interruptPending = work.interruptPending := by rw [hstate]; rfl
  obtain ⟨hhart', hmode', hpending'⟩ := keeps_setEndTest isaTest i.iclass (work.pc.setWidth 32)
    (core.update i.state)
  refine ⟨hmode'.trans hcommitted, ?_, ?_⟩
  · rw [hpending', RiscvState.interruptPending_update, hsame, hquiet]
  · rw [endTest_setEndTest _ hne _ hcommitted, hupdated, RiscvState.pc_update, hnarrow, hhart',
      hart_update, ← hhart, RiscvState.hart_pc work,
      decide_eq_decide.mpr (setWidth_pc_eq_iff i.state.hart.pc (work.pc.setWidth 32))]

/-- An aligned hart over resolved bytes is at the word memory has at its PC. -/
theorem word_hartsOver (s : RiscvSimulator) (bytes : U64 → Byte) {h : Hart} (hpc : h.pc &&& 3 = 0) :
    (s.hartsOver bytes).word h
      = Manual.little (FlatMachine.load bytes (h.pc.setWidth 64) 4) := by
  have hin : h.pc.toNat + 4 ≤ 2 ^ 32 := by
    have h4 := (and_three_eq_zero_iff _).mp hpc
    have := h.pc.isLt
    omega
  rw [Harts.word, hartsOver, Manual.loadBytes_low _ hin]

/-- Fetching and executing on core `k` is the step of hart `k`, unless hart `k` has none, whatever
    memory will settle. Between the fetch and the execution it may have settled more bytes. -/
theorem instruction_simulates {s : RiscvSimulator} (hm : s.memory.LittleRam)
    (hdev : ∀ a, s.memory.deviceAt a = none) {k : Nat} {core : RiscvState}
    (hk : s.cores[k]? = some core) {work : RiscvState} (hhart : work.hart = core.hart) (junk : Junk) :
    ∃ c w p, (fetch work (work.pc.setWidth 32)).run s.memory
        = .ok (c, w) { s.memory with physMem := p } ∧ Cells.Grows s.memory.physMem.seen p.seen ∧
      ∀ p₁, Cells.Grows p.seen p₁.seen →
        (∀ b, Cells.Resolves b p₁.seen → (s.hartsOver b).step k = none) ∨ c ≠ .ecall ∧
        ∃ accesses i' p', Executes junk c work { s.memory with physMem := p₁ } w accesses i' p' ∧
          ∀ s' : RiscvSimulator,
            s'.cores.map RiscvState.hart = (s.cores.map RiscvState.hart).set k i'.state.hart →
            s'.memory.physMem = p' → Simulation.Leads Stands Harts.step s [k] s' := by
  obtain ⟨c, w, p, fetched, hfetch, hgrows, hcells, hclass, hselect⟩ :=
    fetch_cells work (work.pc.setWidth 32) hm hdev
  refine ⟨c, w, p, hfetch, hgrows, fun p₁ hp₁ => ?_⟩
  by_cases hnone : ∀ b, Cells.Resolves b p₁.seen → (s.hartsOver b).step k = none
  · exact .inl hnone
  · refine .inr ?_
    -- the bytes of a step that is possible explain the fetch
    simp only [not_forall] at hnone
    obtain ⟨b, hres₁, hstep₀⟩ := hnone
    obtain ⟨b₀, -, hexp₀, hafter₀⟩ := Cells.exists_initial hcells (hres₁.of_grows hp₁)
    rw [(hselect b₀ hexp₀).1] at hafter₀
    subst hafter₀
    obtain ⟨M₀, hstep₀⟩ := Option.ne_none_iff_exists'.mp hstep₀
    obtain ⟨h, c₀, h', bytes, hk₀, hpc, hdec, hfollowed, hexec, -⟩ := Harts.step_eq_some.mp hstep₀
    have hh : h = work.hart := by
      rw [hartsOver, List.getElem?_map, hk, Option.map_some] at hk₀
      rw [hhart, Option.some.inj hk₀]
    subst hh
    -- every explanation has the same word there
    have hword : ∀ b, (s.hartsOver b).word work.hart
        = Manual.little (FlatMachine.load b ((work.pc.setWidth 32 : U32).setWidth 64) 4) :=
      fun b => word_hartsOver s b hpc
    obtain ⟨hlow₀, hw₀⟩ := (hselect b₀ hexp₀).2 _ (hword b₀)
    have hlow : w.toNat % 4 = 3 := hlow₀.symm.trans (Manual.low_of_decode hdec)
    rw [hw₀ hlow] at hdec hfollowed hexec
    obtain rfl : c = c₀ := (hclass hlow).trans (Manual.newInstruction_of_decode hdec)
    have hne : c ≠ .ecall := by
      rintro rfl
      cases hexec
    have hfollows : FollowsHart junk c work { s.memory with physMem := p₁ } w :=
      follows_of_execute ⟨hm.range.withPhysMem _, hm.host⟩ hdev hfollowed
        (Option.isSome_of_mem hexec)
    obtain ⟨accesses, i', p', hexecutes, hexplains⟩ := hfollows
    refine ⟨hne, accesses, i', p', hexecutes, fun s' hharts hmem M' hM' => ?_⟩
    obtain ⟨b', hres', rfl⟩ := hM'.exists_bytes
    rw [hmem] at hres'
    obtain ⟨b₁, hres₁, hexp₁, hafter⟩ := Cells.exists_initial hexecutes.cells hres'
    obtain ⟨b, hres, hexp, hsame⟩ := Cells.exists_initial hcells (hres₁.of_grows hp₁)
    rw [(hselect b hexp).1] at hsame
    subst hsame
    refine ⟨_, stands_hartsOver hres, ?_⟩
    have hw : (s.hartsOver b).word work.hart = w := ((hselect b hexp).2 _ (hword b)).2 hlow
    have hkb : (s.hartsOver b).harts[k]? = some work.hart := by
      rw [hartsOver, List.getElem?_map, hk, Option.map_some, hhart]
    rw [Simulation.run_singleton, Harts.step_eq_some]
    refine ⟨work.hart, c, _, _, hkb, hpc, hw ▸ hdec, hw ▸ hfollowed, hw ▸ hexplains b hexp₁, ?_⟩
    rw [hartsOver, hartsOver, hafter, hharts]

end RiscvSimulator

end Dimebox
