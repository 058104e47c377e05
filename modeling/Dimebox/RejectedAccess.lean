import Dimebox.Elfio
import Dimebox.RamFrame
import Dimebox.Lib.Uniform
import Mathlib.Data.List.Sort

/-! What a rejected physical access leaves behind.

    The block of an access is looked up with `operator[]` before the size is validated. If the block
    is there, nothing happens. If it is not, a block without storage is inserted; none of its bytes
    is marked free, so it counts as completely used, `AddressList` lists it, and `ReadInitialState`
    and with it `Save` throw on it. -/

namespace Dimebox

namespace PhysicalMemory

/-- A read or write of a number of bytes that is refused. -/
inductive RejectedAccess where
  | read (address : U64) (initIfFree : Bool) (numberOfBytes : Int)
      (invalid : numberOfBytes ≤ 0 ∨ 32 < numberOfBytes)
  | write (address : U64) (buffer : List Byte) (numberOfBytes : Int) (initialValues : Bool)
      (invalid : numberOfBytes ≤ 0 ∨ 32 < numberOfBytes)

namespace RejectedAccess

def address : RejectedAccess → U64
  | read a .. => a
  | write a .. => a

def perform : RejectedAccess → EStateM Fault PhysicalMemory Unit
  | read a init n _ => do let _ ← PhysicalMemory.read a init n
  | write a buf n iv _ => do let _ ← PhysicalMemory.write a buf n iv

end RejectedAccess

/-- `ReadInitialState` returns. -/
def Readable (m : PhysicalMemory) (isData : Bool) (address : U64) : Prop :=
  (Effect.result ((readInitialState address isData).run m)).isSome

/-- Nothing anyone can tell: the same blocks under the same addresses, the same lists of addresses,
    blocks that can be read if all could before, and the same sections or failure on saving. -/
structure LeftAlone (m m' : PhysicalMemory) : Prop where
  blocks : ∀ a, m'.blocks.lookup a = m.blocks.lookup a
  lists : ∀ skip, (m'.addressList skip).Perm (m.addressList skip)
  readable : ∀ skip isData, (∀ a ∈ m.addressList skip, m.Readable isData a) →
    ∀ a ∈ m'.addressList skip, m'.Readable isData a
  saves : ∀ (mem : Memory) (compress : Bool),
    Effect.result ((Elfio.save compress).run { mem with physMem := m' }) =
      Effect.result ((Elfio.save compress).run { mem with physMem := m })

theorem mem_addressList {m : PhysicalMemory} {skip : Bool} {A : U64} : A ∈ m.addressList skip ↔
    ∃ b, m.blocks.lookup A = some b ∧ (skip = true → 0 < b.byteCount) := by
  rw [addressList, List.mem_map]
  constructor
  · rintro ⟨⟨B, b⟩, he, rfl⟩
    obtain ⟨hmem, hcount⟩ := List.mem_filter.mp he
    refine ⟨b, AList.mem_lookup_iff.mpr hmem, ?_⟩
    rintro rfl
    simpa using hcount
  · rintro ⟨b, hb, hcount⟩
    refine ⟨⟨A, b⟩, List.mem_filter.mpr ⟨AList.mem_lookup_iff.mp hb, ?_⟩, rfl⟩
    cases skip with
    | false => rfl
    | true => simpa using hcount rfl

/-! ### The same blocks in another order -/

/-- The same map of blocks, and the same random bytes to come. -/
structure SameBlocks (m m' : PhysicalMemory) : Prop where
  lookup : ∀ a, m'.blocks.lookup a = m.blocks.lookup a
  oracle : m'.oracle = m.oracle

theorem SameBlocks.blockAt {m m' : PhysicalMemory} (h : SameBlocks m m') (a : U64) :
    m'.blockAt a = m.blockAt a := by rw [PhysicalMemory.blockAt, PhysicalMemory.blockAt, h.lookup]

theorem SameBlocks.putBlock {m m' : PhysicalMemory} (h : SameBlocks m m') (B : U64)
    (bo : MemBlock × Oracle) : SameBlocks (m.putBlock B bo) (m'.putBlock B bo) := by
  refine ⟨fun a => ?_, rfl⟩
  by_cases ha : a = B
  · rw [ha]
    simp [PhysicalMemory.putBlock]
  · simp [PhysicalMemory.putBlock, AList.lookup_insert_ne ha, h.lookup]

theorem SameBlocks.addressList {m m' : PhysicalMemory} (h : SameBlocks m m') (skip : Bool) :
    (m'.addressList skip).Perm (m.addressList skip) := by
  refine List.Perm.map _ (List.Perm.filter _ ?_)
  refine List.lookup_ext m'.blocks.nodupKeys m.blocks.nodupKeys fun a b => ?_
  have hlookup : m'.blocks.entries.dlookup a = m.blocks.entries.dlookup a := h.lookup a
  rw [hlookup]

/-- A call of a member function of a block cannot tell the order of the map. -/
theorem uniform_onBlock {α : Type} (B : U64) (x : EStateM Fault (MemBlock × Oracle) α) :
    Effect.Uniform SameBlocks (onBlock B x) := by
  intro s t h
  rw [run_onBlock, run_onBlock, h.blockAt, h.oracle]
  cases x.run (s.blockAt B, s.oracle) with
  | ok a bo => exact .ok a (h.putBlock B bo)
  | error e bo => exact .error e (h.putBlock B bo)

theorem uniform_readInitialState (a : U64) (isData : Bool) :
    Effect.Uniform SameBlocks (readInitialState a isData) := by
  unfold readInitialState
  split
  · exact Effect.uniform_throw _
  · exact uniform_onBlock a _

theorem uniform_read (a : U64) (init : Bool) (n : Int) : Effect.Uniform SameBlocks (read a init n) := by
  refine Effect.uniform_tryCatch (uniform_onBlock _ _) fun f => ?_
  split
  · exact Effect.uniform_bind (uniform_onBlock _ _) fun _ =>
      Effect.uniform_bind (uniform_onBlock _ _) fun _ => Effect.uniform_pure _
  · exact Effect.uniform_throw _
  · exact Effect.uniform_throw _

end PhysicalMemory

namespace Memory

/-- The same memory up to the order of the blocks. -/
def SameStore (m m' : Memory) : Prop :=
  ∃ p, m' = { m with physMem := p } ∧ PhysicalMemory.SameBlocks m.physMem p

theorem uniform_onPhysMem {α : Type} {x : EStateM Fault PhysicalMemory α}
    (hx : Effect.Uniform PhysicalMemory.SameBlocks x) :
    Effect.Uniform SameStore (onPhysMem x) := by
  refine Effect.uniform_focus hx ?_ ?_
  · rintro s t ⟨p, rfl, h⟩
    exact h
  · rintro s t s' t' ⟨p, rfl, -⟩ h'
    exact ⟨t', rfl, h'⟩

/-- A test read, which never gets to a device register. -/
theorem uniform_readPhysicalMemory (a : U64) (n : Int) (buf : List Byte) (init : Bool) :
    Effect.Uniform SameStore (readPhysicalMemory a n buf true init) := by
  refine Effect.uniform_get_bind ?_ fun m => ?_
  · rintro s t ⟨p, rfl, -⟩
    rfl
  · refine Effect.uniform_bind (Effect.uniform_lift _) fun address => ?_
    cases m.deviceAt address with
    | some p =>
      refine Effect.uniform_get_bind (fun _ _ _ => ?_) fun _ => ?_
      · simp only [if_true]
      · simp only [if_true]
        exact Effect.uniform_pure _
    | none =>
      exact Effect.uniform_bind (uniform_onPhysMem (PhysicalMemory.uniform_read _ _ _)) fun _ =>
        Effect.uniform_pure _

end Memory

namespace Elfio

open Memory (SameStore)

theorem testBlockAddresses_eq {m m' : Memory} (h : SameStore m m') :
    testBlockAddresses m' = testBlockAddresses m := by
  obtain ⟨p, rfl, hp⟩ := h
  refine List.Perm.eq_of_pairwise' (r := (· ≤ ·)) (List.pairwise_mergeSort' _ _)
    (List.pairwise_mergeSort' _ _) ?_
  exact (List.mergeSort_perm _ _).trans
    ((hp.addressList true).trans (List.mergeSort_perm _ _).symm)

theorem uniform_readEachByte (n : Nat) (a : U64) :
    Effect.Uniform SameStore (readEachByte a n) := by
  induction n generalizing a with
  | zero => exact Effect.uniform_pure _
  | succ n ih =>
    refine Effect.uniform_bind (Memory.uniform_readPhysicalMemory _ _ _ _) fun _ => ?_
    exact Effect.uniform_bind (ih _) fun _ => Effect.uniform_pure _

theorem uniform_readSection (a : U64) (size : Nat) :
    Effect.Uniform SameStore (readSection a size) := by
  unfold readSection
  split
  · refine Effect.uniform_bind
      (Memory.uniform_onPhysMem (PhysicalMemory.uniform_readInitialState a false)) fun _ => ?_
    split
    · exact Effect.uniform_throw _
    · exact Effect.uniform_pure _
  · exact uniform_readEachByte size a

theorem uniform_saveSections (size : Nat) (as : List U64) (added : List ElfSection) :
    Effect.Uniform SameStore (saveSections size as added) := by
  induction as generalizing added with
  | nil => exact Effect.uniform_pure _
  | cons a as ih =>
    unfold saveSections
    split
    · exact Effect.uniform_pure _
    · exact Effect.uniform_bind (uniform_readSection a size) fun _ => ih _

/-- Saving cannot tell the order of the map. -/
theorem uniform_save (compress : Bool) : Effect.Uniform SameStore (save compress) := by
  refine Effect.uniform_get_bind ?_ fun m => ?_
  · intro s t h
    rw [testBlockAddresses_eq h]
  · cases compress with
    | true => exact uniform_saveSections 32 _ []
    | false =>
      simp only [Bool.false_eq_true, if_false]
      cases chooseFileBlockSize (testBlockAddresses m) with
      | none => exact Effect.uniform_pure _
      | some bits =>
        dsimp only
        split
        · exact Effect.uniform_throw _
        · exact uniform_saveSections _ _ []

end Elfio

namespace PhysicalMemory

/-! ### A rejected access -/

/-- It throws `MEM_ERROR`, and has called `operator[]` before. -/
theorem RejectedAccess.perform_run (x : RejectedAccess) (m : PhysicalMemory) :
    x.perform.run m = .error (.mblock .memError) (m.putBlock (MemBlock.blockAddress x.address)
      (m.blockAt (MemBlock.blockAddress x.address), m.oracle)) := by
  cases x with
  | read a init n invalid =>
    rw [perform, EStateM.run_bind, read_run_invalid invalid]
    rfl
  | write a buf n iv invalid =>
    rw [perform, EStateM.run_bind, write_run_invalid invalid]
    rfl

/-- `operator[]` on a block that is there. -/
theorem sameBlocks_of_lookup {m : PhysicalMemory} {B : U64} (h : (m.blocks.lookup B).isSome) :
    SameBlocks m (m.putBlock B (m.blockAt B, m.oracle)) := by
  obtain ⟨b, hb⟩ := Option.isSome_iff_exists.mp h
  refine ⟨fun a => ?_, rfl⟩
  by_cases ha : a = B
  · rw [ha, hb]
    simp [putBlock, PhysicalMemory.blockAt, hb]
  · simp [putBlock, AList.lookup_insert_ne ha]

theorem SameBlocks.leftAlone {m m' : PhysicalMemory} (h : SameBlocks m m') : LeftAlone m m' := by
  refine ⟨h.lookup, h.addressList, ?_, ?_⟩
  · intro skip isData hall a ha
    have heq := (uniform_readInitialState a isData m m' h).result_eq
    rw [Readable, ← heq]
    exact hall a ((h.addressList skip).mem_iff.mp ha)
  · intro mem compress
    exact (Elfio.uniform_save compress { mem with physMem := m } { mem with physMem := m' }
      ⟨m', rfl, h⟩).result_eq.symm

/-- For every memory state and every read or write of an invalid size: the rejected access leaves
    memory as it was exactly if the block of its address is there already. -/
theorem rejected_access_left_alone_iff (m : PhysicalMemory) (x : RejectedAccess) :
    LeftAlone m (Effect.final (x.perform.run m)) ↔
      (m.blocks.lookup (MemBlock.blockAddress x.address)).isSome := by
  rw [x.perform_run, Effect.final_error]
  constructor
  · intro h
    rw [← h.blocks]
    simp [putBlock]
  · intro h
    exact (sameBlocks_of_lookup h).leftAlone

/-- A read of no bytes in an empty memory. -/
theorem rejected_read_inserts_block : ¬ ∀ (m : PhysicalMemory) (x : RejectedAccess),
    LeftAlone m (Effect.final (x.perform.run m)) := by
  intro h
  have hblocks := (h { oracle := { rand := fun _ => 0, heap := fun _ => 0 } }
    (.read 0 false 0 (Or.inl (by decide)))).blocks 0
  rw [RejectedAccess.perform_run, Effect.final_error] at hblocks
  have hzero : MemBlock.blockAddress (RejectedAccess.address (.read 0 false 0 (Or.inl (by decide)))) =
      0 := by decide
  rw [hzero, putBlock] at hblocks
  exact Option.some_ne_none _ ((AList.lookup_insert _).symm.trans hblocks)

/-- `ReadInitialState` of one of the two buffers of a block. -/
theorem readInitialState_cases (a : U64) (isData : Bool) (p : PhysicalMemory) :
    (∃ mem, MemBlock.offset a = 0 ∧
      (if isData then (p.blockAt a).mptrInit else (p.blockAt a).mptr) = some mem ∧
      (readInitialState a isData).run p =
        .ok ((List.range 32).map mem) (p.putBlock a (p.blockAt a, p.oracle))) ∨
    (¬ (MemBlock.offset a = 0 ∧
        (if isData then (p.blockAt a).mptrInit else (p.blockAt a).mptr).isSome) ∧ ∃ p',
      (readInitialState a isData).run p = .error (.mblock .memError) p') := by
  rw [readInitialState]
  by_cases hoff : MemBlock.offset a = 0
  · rw [if_neg (not_not.mpr hoff), run_onBlock, EStateM.run_bind, EStateM.run_get]
    dsimp only
    rw [MemBlock.readInitialState, if_neg (not_not.mpr hoff)]
    cases hmem : if isData then (p.blockAt a).mptrInit else (p.blockAt a).mptr with
    | none => exact .inr ⟨fun h => Bool.false_ne_true h.2, _, rfl⟩
    | some mem => exact .inl ⟨mem, hoff, rfl, rfl⟩
  · rw [if_pos hoff]
    exact .inr ⟨fun h => hoff h.1, p, rfl⟩

/-! ### What surfaces later -/

/-- A block without storage counts as completely used. -/
theorem byteCount_empty : ({} : MemBlock).byteCount = 32 := by decide

/-- A block that was not there is listed after the access, and cannot be read. -/
theorem rejected_access_lists_unreadable (m : PhysicalMemory) (x : RejectedAccess)
    (h : m.blocks.lookup (MemBlock.blockAddress x.address) = none) (skip isData : Bool) :
    MemBlock.blockAddress x.address ∈ (Effect.final (x.perform.run m)).addressList skip ∧
      ¬ (Effect.final (x.perform.run m)).Readable isData (MemBlock.blockAddress x.address) := by
  have hblock : m.blockAt (MemBlock.blockAddress x.address) = {} := by rw [blockAt, h]; rfl
  rw [x.perform_run, Effect.final_error, hblock]
  generalize MemBlock.blockAddress x.address = B
  constructor
  · have hmem : (⟨B, {}⟩ : Sigma fun _ : U64 => MemBlock) ∈
        (m.putBlock B ({}, m.oracle)).blocks.entries := by
      rw [putBlock, AList.entries_insert]
      exact List.mem_cons_self
    refine List.mem_map.mpr ⟨⟨B, {}⟩, List.mem_filter.mpr ⟨hmem, ?_⟩, rfl⟩
    rw [byteCount_empty]
    exact Bool.or_true _
  · rw [Readable]
    rcases readInitialState_cases B isData (m.putBlock B ({}, m.oracle)) with
      ⟨mem, -, hmem, -⟩ | ⟨-, p', hrun⟩
    · rw [blockAt_putBlock_self] at hmem
      cases isData <;> cases hmem
    · rw [hrun]
      exact Bool.false_ne_true

end PhysicalMemory

end Dimebox
