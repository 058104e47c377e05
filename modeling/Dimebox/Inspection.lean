import Dimebox.Requests
import Dimebox.RejectedAccess
import Dimebox.FileBlocks

/-! Whether looking at RAM changes it.

    `m` reads through `ReadPhysicalMemory`, whose `init_if_free` the debug server leaves at its
    default, true. A read allocates the blocks it touches and initialises the bytes that are free, so
    that the client gets `E0` once and random bytes from then on; one of a size that is refused leaves
    a block without storage in the map. Nothing changes if there is nothing to initialise. -/

namespace Dimebox

namespace PhysicalMemory

/-- The same values, the same free bytes, the same blocks. -/
structure Undisturbed (m m' : PhysicalMemory) : Prop where
  seen : m'.seen = m.seen
  isDefined : m'.isDefined = m.isDefined
  blocks : ∀ skip A, A ∈ m'.addressList skip ↔ A ∈ m.addressList skip

theorem Undisturbed.refl (m : PhysicalMemory) : Undisturbed m m := ⟨rfl, rfl, fun _ _ => .rfl⟩

theorem Undisturbed.trans {m m' m'' : PhysicalMemory} (h : Undisturbed m m')
    (h' : Undisturbed m' m'') : Undisturbed m m'' :=
  ⟨h'.seen.trans h.seen, h'.isDefined.trans h.isDefined,
    fun skip A => (h'.blocks skip A).trans (h.blocks skip A)⟩

theorem SameBlocks.undisturbed {m m' : PhysicalMemory} (h : SameBlocks m m') : Undisturbed m m' := by
  refine ⟨funext fun a => ?_, funext fun a => ?_, fun skip _ => (h.addressList skip).mem_iff⟩
  · rw [PhysicalMemory.seen, PhysicalMemory.seen, h.blockAt]
  · rw [PhysicalMemory.isDefined, PhysicalMemory.isDefined, h.blockAt]

/-- The byte is defined, and every byte of its block has a value. -/
def Settled (m : PhysicalMemory) (b : U64) : Prop :=
  m.isDefined b = true ∧
    ∀ c, MemBlock.blockAddress c = MemBlock.blockAddress b → (m.seen c).isSome

theorem Undisturbed.settled_iff {m m' : PhysicalMemory} (h : Undisturbed m m') (b : U64) :
    m'.Settled b ↔ m.Settled b := by
  rw [Settled, Settled, h.seen, h.isDefined]

/-! ### Bytes that are settled -/

/-- Allocation marks bytes free in a block that had no storage. -/
theorem freeBytes_allocate {b : MemBlock} (h : b.mptr.isSome = true) (o : Oracle) :
    (MemBlock.allocate (b, o)).1.freeBytes = b.freeBytes := by
  obtain ⟨mptr, mptrInit, _, _⟩ := b
  cases mptr with
  | none => cases h
  | some _ => cases mptrInit <;> rfl

theorem byteCount_allocate {b : MemBlock} (h : b.mptr.isSome = true) (o : Oracle) :
    (MemBlock.allocate (b, o)).1.byteCount = b.byteCount := by
  simp only [MemBlock.byteCount, MemBlock.byteIsFree, freeBytes_allocate h]

theorem undisturbed_touch {m : PhysicalMemory} {a : U64} (h : m.Settled a) :
    Undisturbed m (m.touch a) := by
  obtain ⟨hdef, hvalues⟩ := h
  refine ⟨funext fun c => ?_, funext fun c => isDefined_touch m a c, fun skip A => ?_⟩
  · by_cases hc : MemBlock.blockAddress c = MemBlock.blockAddress a
    · obtain ⟨v, hv⟩ := Option.isSome_iff_exists.mp (hvalues c hc)
      rw [hv, seen_touch_grows m a c v hv]
    · rw [seen, touch, blockAt_putBlock_ne _ hc]
      rfl
  · rw [mem_addressList, mem_addressList, touch, putBlock]
    by_cases hA : A = MemBlock.blockAddress a
    · have hstorage : (m.blockAt (MemBlock.blockAddress a)).mptr.isSome = true := by
        rw [isDefined, MemBlock.isDefined, Bool.and_eq_true] at hdef
        exact hdef.1
      rw [hA, lookup_of_isDefined hdef]
      simp [byteCount_allocate hstorage]
    · rw [AList.lookup_insert_ne hA]

theorem pullBytes_settled {n : Nat} {m : PhysicalMemory} {a : U64}
    (h : ∀ b ∈ span a n, m.Settled b) :
    (m.pullBytes a true n).1 = (span a n).map (fun b => (m.seen b).getD 0) ∧
      (m.pullBytes a true n).2.1 = 0 ∧ Undisturbed m (m.pullBytes a true n).2.2 := by
  induction n generalizing m a with
  | zero => exact ⟨rfl, rfl, .refl m⟩
  | succ n ih =>
    have ha : m.Settled a := h a List.mem_cons_self
    have htouch := undisturbed_touch ha
    have hpull : m.pullByte a true = m.touch a := by
      rw [pullByte, ha.1]
      rfl
    obtain ⟨hbytes, hundef, hrest⟩ := ih (m := m.touch a) (a := a + 1) fun b hb =>
      (htouch.settled_iff b).mpr (h b (List.mem_cons_of_mem _ hb))
    rw [pullBytes, hpull, span, List.map_cons, byteAt, hbytes, hundef, htouch.seen, ha.1]
    exact ⟨rfl, rfl, htouch.trans hrest⟩

/-! ### What a read settles -/

theorem seen_of_allocated {b : MemBlock} (h : b.Allocated) (i : Nat) : (b.seen i).isSome := by
  obtain ⟨mem, hmem⟩ := Option.isSome_iff_exists.mp h.1
  obtain ⟨ini, hini⟩ := Option.isSome_iff_exists.mp h.2
  rw [MemBlock.seen, hmem, hini, Option.bind_some]
  split <;> rfl

theorem seen_touch_isSome {m : PhysicalMemory} {a c : U64}
    (hc : MemBlock.blockAddress c = MemBlock.blockAddress a) : ((m.touch a).seen c).isSome := by
  rw [seen, hc]
  exact seen_of_allocated (allocated_touch m a) _

theorem seen_putByte_isSome {m : PhysicalMemory} {a c : U64} (v : Byte) (iv : Bool)
    (hc : MemBlock.blockAddress c = MemBlock.blockAddress a) :
    ((m.putByte a v iv).seen c).isSome := by
  rw [seen_putByte]
  split
  · rfl
  · exact seen_touch_isSome hc

theorem seen_pullByte_isSome {m : PhysicalMemory} {a c : U64} (init : Bool)
    (hc : MemBlock.blockAddress c = MemBlock.blockAddress a) :
    ((m.pullByte a init).seen c).isSome := by
  rw [pullByte]
  split
  · exact seen_putByte_isSome _ _ hc
  · exact seen_touch_isSome hc

theorem seen_pullBytes_isSome {n : Nat} {m : PhysicalMemory} {a b c : U64} (init : Bool)
    (hb : b ∈ span a n) (hc : MemBlock.blockAddress c = MemBlock.blockAddress b) :
    ((m.pullBytes a init n).2.2.seen c).isSome := by
  induction n generalizing m a with
  | zero => exact absurd hb List.not_mem_nil
  | succ n ih =>
    rw [pullBytes]
    rcases List.mem_cons.mp hb with rfl | hb
    · obtain ⟨v, hv⟩ := Option.isSome_iff_exists.mp (seen_pullByte_isSome (m := m) init hc)
      -- the bytes read later leave it as it is
      have hkeeps := (run_pullBytes init n (m.pullByte b init) (b + 1)).keepsOff
        (W := []) fun b v h => absurd h (Cells.not_mem_reads _ _)
      rw [hkeeps c v hv List.not_mem_nil]
      rfl
    · exact ih hb

/-- A read that initialises what is free changes nothing if and only if all is settled before. -/
theorem undisturbed_pullBytes_iff (m : PhysicalMemory) (a : U64) (n : Nat) :
    Undisturbed m (m.pullBytes a true n).2.2 ↔ ∀ b ∈ span a n, m.Settled b := by
  constructor
  · intro h b hb
    refine ⟨?_, fun c hc => ?_⟩
    · rw [← h.isDefined, isDefined_pullBytes]
      simp [hb]
    · rw [← h.seen]
      exact seen_pullBytes_isSome true hb hc
  · exact fun h => (pullBytes_settled h).2.2

/-- `operator[]` changes nothing if and only if the block is there. -/
theorem undisturbed_putBlock_iff (m : PhysicalMemory) (B : U64) :
    Undisturbed m (m.putBlock B (m.blockAt B, m.oracle)) ↔ (m.blocks.lookup B).isSome := by
  constructor
  · intro h
    have hB : B ∈ (m.putBlock B (m.blockAt B, m.oracle)).addressList false :=
      mem_addressList.mpr ⟨_, AList.lookup_insert _, fun h => by cases h⟩
    obtain ⟨b, hb, -⟩ := mem_addressList.mp ((h.blocks false B).mp hB)
    rw [hb]
    rfl
  · exact fun h => (sameBlocks_of_lookup h).undisturbed

end PhysicalMemory

namespace Memory

open PhysicalMemory (span Settled Undisturbed)

/-- No byte of the range is in the window of a device. -/
def InRam (m : Memory) (a : U64) (n : Int) : Prop :=
  ∀ i < n.toNat, m.deviceAt ((a + BitVec.ofNat 64 i) &&& m.paMask) = none

/-- The access gets to the block store. -/
def ReachesStore (m : Memory) (a : U64) (n : Int) : Prop :=
  m.Valid a n ∧ m.deviceAt (a &&& m.paMask) = none

/-- A read has nothing to initialise: the bytes are settled or, if it is refused for its size, the
    block it looks up is there. -/
def NothingToInitialise (m : Memory) (a : U64) (n : Int) : Prop :=
  m.ReachesStore a n →
    if 1 ≤ n ∧ n ≤ 32 then ∀ b ∈ span (a &&& m.paMask) n.toNat, m.physMem.Settled b
    else (m.physMem.blocks.lookup (MemBlock.blockAddress (a &&& m.paMask))).isSome

theorem readPhysicalMemory_store {m : Memory} {a : U64} {n : Int} (h : m.ReachesStore a n)
    (buf : List Byte) : (readPhysicalMemory a n buf false true).run m =
      Effect.mapState (fun p => { m with physMem := p })
        (((fun r => (r.1, overlay r.2 buf)) <$>
          PhysicalMemory.read (a &&& m.paMask) true n).run m.physMem) := by
  obtain ⟨⟨address, hcheck⟩, hram⟩ := h
  obtain rfl := checkAddresses_ok hcheck
  exact readPhysicalMemory_of_ram buf true hcheck hram

/-- A read that does not get to the block store changes nothing. -/
theorem readPhysicalMemory_elsewhere {m : Memory} {a : U64} {n : Int} (hn : 0 ≤ n)
    (hram : m.InRam a n) (h : ¬ m.ReachesStore a n) (buf : List Byte) :
    (readPhysicalMemory a n buf false true).run m = .error (.sim .generationError) m ∨
      ∃ rcode bytes, rcode ≠ 0 ∧
        (readPhysicalMemory a n buf false true).run m = .ok (rcode, bytes) m := by
  cases hcheck : m.checkAddresses a n false with
  | error f =>
    left
    rw [readPhysicalMemory_unchecked buf true hcheck, Step.checkAddresses_error hcheck]
  | ok address =>
    obtain rfl := checkAddresses_ok hcheck
    cases hdev : m.deviceAt (a &&& m.paMask) with
    | none => exact absurd ⟨⟨_, hcheck⟩, hdev⟩ h
    | some p =>
      -- the range is empty, and a device does not take that
      have hzero : n = 0 := by
        by_contra hne
        have hfirst := hram 0 (by omega)
        have hadd : a + BitVec.ofNat 64 0 = a := BitVec.add_zero a
        rw [hadd, hdev] at hfirst
        cases hfirst
      obtain ⟨rcode, bytes, m', hrun, hcode, hsame⟩ :=
        readDeviceMemory_code p (a &&& m.paMask) n buf m
      have hne : rcode ≠ 0 := fun h0 => by
        have := (hcode.mp h0).2
        omega
      obtain rfl := hsame hne
      right
      rw [readPhysicalMemory_of_device buf true hcheck hdev]
      exact ⟨rcode, bytes, hne, hrun⟩

end Memory

namespace DebugServer

open PhysicalMemory (span Undisturbed)

/-- The session after a request. -/
def sessionAfter (s : DebugSession) (pdata : List Char) : DebugSession :=
  Effect.final ((dispatch pdata).run s)

/-- The request changes nothing in RAM, and the same request again gets the same packet. -/
structure InspectsOnly (s : DebugSession) (pdata : List Char) : Prop where
  undisturbed : Undisturbed s.memory.physMem (sessionAfter s pdata).memory.physMem
  again : ∃ packet, answer s pdata = some packet ∧ answer (sessionAfter s pdata) pdata = some packet

/-- If the request leaves the session as it is, that is all. -/
theorem inspectsOnly_of_run {s : DebugSession} {pdata packet : List Char}
    (h : (dispatch pdata).run s = .ok packet s) : InspectsOnly s pdata := by
  have hafter : sessionAfter s pdata = s := by rw [sessionAfter, h, Effect.final_ok]
  have hanswer : answer s pdata = some packet := by rw [answer, h]; rfl
  refine ⟨?_, packet, hanswer, ?_⟩
  · rw [hafter]
    exact .refl _
  · rw [hafter, hanswer]

/-- The values of the bytes, as a reply shows them. -/
def shownBytes (s : DebugSession) (a : U64) (n : Int) : List Char :=
  ((span (a &&& s.memory.paMask) n.toNat).map fun b => (s.memory.physMem.seen b).getD 0).flatMap
    fun b => Text.hexPadded 2 b.toNat

/-- The session with another store. -/
def withStore (s : DebugSession) (p : PhysicalMemory) : DebugSession :=
  { s with memory := { s.memory with physMem := p } }

theorem reachesStore_withStore {s : DebugSession} {a : U64} {n : Int} (p : PhysicalMemory) :
    (withStore s p).memory.ReachesStore a n ↔ s.memory.ReachesStore a n := .rfl

section Read

variable {s : DebugSession} {pdata : List Char} {a : U64} {n : Int}

theorem readMemory_scanned (hscan : scanAddressSize pdata = some (a, n)) (hn : 0 ≤ n) :
    (readMemory pdata).run s =
    match (Memory.readPhysicalMemory a n (List.replicate n.toNat 0) false true).run s.memory with
    | .ok (rcode, bytes) m => .ok (if rcode ≠ 0 then "E0".toList
        else (bytes.take n.toNat).flatMap fun b => Text.hexPadded 2 b.toNat) { s with memory := m }
    | .error .undefined m => .error .undefined { s with memory := m }
    | .error _ m => .ok "E0".toList { s with memory := m } := by
  rw [scanAddressSize_eq, Option.map_eq_some_iff] at hscan
  obtain ⟨⟨maddr, msize⟩, hfields, heq⟩ := hscan
  cases heq
  exact readMemory_run hfields (Int.not_lt.mpr hn)

variable (haction : Rsp.action pdata = .ok (some .readMemory))
include haction

theorem dispatch_read_of_run {text : List Char} {s' : DebugSession}
    (h : (readMemory pdata).run s = .ok text s') :
    (dispatch pdata).run s = .ok (Rsp.encode text) s' := by
  refine dispatch_of_respond ?_ haction h
  rintro rfl
  exact absurd haction (by decide)

theorem inspectsOnly_of_no_fields (hscan : scanAddressSize pdata = none) : InspectsOnly s pdata := by
  have hrun : (readMemory pdata).run s = .ok "E1".toList s := by
    rw [readMemory, hscan]
    rfl
  exact inspectsOnly_of_run (dispatch_read_of_run haction hrun)

variable (hscan : scanAddressSize pdata = some (a, n)) (hn : 0 ≤ n)
include hscan hn

/-- A request that does not get to the block store. -/
theorem inspectsOnly_elsewhere (hram : s.memory.InRam a n) (h : ¬ s.memory.ReachesStore a n) :
    InspectsOnly s pdata := by
  have hrun : (readMemory pdata).run s = .ok "E0".toList s := by
    rw [readMemory_scanned hscan hn]
    rcases Memory.readPhysicalMemory_elsewhere hn hram h (List.replicate n.toNat 0) with
      hread | ⟨rcode, bytes, hne, hread⟩
    · rw [hread]
    · rw [hread]
      dsimp only
      rw [if_pos hne]
  exact inspectsOnly_of_run (dispatch_read_of_run haction hrun)

/-- A request of a size that is refused. -/
theorem dispatch_read_invalid (h : s.memory.ReachesStore a n) (hsize : ¬ (1 ≤ n ∧ n ≤ 32)) :
    (dispatch pdata).run s = .ok (Rsp.encode "E0".toList) (withStore s
      (s.memory.physMem.putBlock (MemBlock.blockAddress (a &&& s.memory.paMask))
        (s.memory.physMem.blockAt (MemBlock.blockAddress (a &&& s.memory.paMask)),
          s.memory.physMem.oracle))) := by
  refine dispatch_read_of_run haction ?_
  rw [readMemory_scanned hscan hn, Memory.readPhysicalMemory_store h, map_eq_pure_bind,
    EStateM.run_bind, PhysicalMemory.read_run_invalid (by omega)]
  rfl

/-- A request of 1 to 32 bytes. -/
theorem dispatch_read_valid (h : s.memory.ReachesStore a n) (hsize : 1 ≤ n ∧ n ≤ 32) :
    let r := s.memory.physMem.pullBytes (a &&& s.memory.paMask) true n.toNat
    (dispatch pdata).run s = .ok (Rsp.encode (if r.2.1 ≠ 0 then "E0".toList
      else r.1.flatMap fun b => Text.hexPadded 2 b.toNat)) (withStore s r.2.2) := by
  intro r
  obtain ⟨k, rfl⟩ := Int.eq_ofNat_of_zero_le hn
  have hread := PhysicalMemory.read_run (n := k) (by omega) (by omega) (a &&& s.memory.paMask) true
    s.memory.physMem
  have htake : (Memory.overlay r.1 (List.replicate k 0)).take k = r.1 :=
    List.take_left' (PhysicalMemory.length_pullBytes true k _ _)
  have hcode : definedCode r.2.1 k ≠ 0 ↔ r.2.1 ≠ 0 := by
    simp only [definedCode, allBytesFree, someBytesUndefined, allBytesDefined]
    split_ifs <;> omega
  refine dispatch_read_of_run haction ?_
  rw [readMemory_scanned hscan hn, Memory.readPhysicalMemory_store h, map_eq_pure_bind,
    EStateM.run_bind, hread]
  simp only [EStateM.run_pure, Effect.mapState_ok, Int.toNat_natCast]
  simp only [← hcode]
  rw [← htake]
  rfl

/-- The reply to a request for bytes that are settled. -/
theorem answer_read_settled (h : s.memory.ReachesStore a n) (hsize : 1 ≤ n ∧ n ≤ 32)
    (hsettled : ∀ b ∈ span (a &&& s.memory.paMask) n.toNat, s.memory.physMem.Settled b) :
    answer s pdata = some (Rsp.encode (shownBytes s a n)) := by
  obtain ⟨hbytes, hundef, -⟩ := PhysicalMemory.pullBytes_settled hsettled
  have hrun := dispatch_read_valid haction hscan hn h hsize
  dsimp only at hrun
  rw [hundef, if_neg (fun hne => hne rfl), hbytes] at hrun
  rw [answer, hrun]
  rfl

/-- The reply is the same from a store that cannot be told apart. -/
theorem answer_read_undisturbed (h : s.memory.ReachesStore a n) (hsize : 1 ≤ n ∧ n ≤ 32)
    (hsettled : ∀ b ∈ span (a &&& s.memory.paMask) n.toNat, s.memory.physMem.Settled b)
    {p : PhysicalMemory} (hsame : Undisturbed s.memory.physMem p) :
    answer (withStore s p) pdata = some (Rsp.encode (shownBytes s a n)) := by
  have hshown : shownBytes (withStore s p) a n = shownBytes s a n := by
    rw [shownBytes, shownBytes, ← hsame.seen]
    rfl
  rw [← hshown]
  exact answer_read_settled haction hscan hn ((reachesStore_withStore p).mpr h) hsize
    fun b hb => (hsame.settled_iff b).mpr (hsettled b hb)

theorem inspectsOnly_invalid_iff (h : s.memory.ReachesStore a n) (hsize : ¬ (1 ≤ n ∧ n ≤ 32)) :
    InspectsOnly s pdata ↔
      (s.memory.physMem.blocks.lookup (MemBlock.blockAddress (a &&& s.memory.paMask))).isSome := by
  have hrun := dispatch_read_invalid haction hscan hn h hsize
  have hafter := congrArg Effect.final hrun
  rw [Effect.final_ok] at hafter
  rw [← PhysicalMemory.undisturbed_putBlock_iff]
  constructor
  · rintro ⟨hsame, -⟩
    rwa [sessionAfter, hafter] at hsame
  · intro hsame
    refine ⟨?_, Rsp.encode "E0".toList, ?_, ?_⟩
    · rwa [sessionAfter, hafter]
    · rw [answer, hrun]
      rfl
    · rw [answer, sessionAfter, hafter]
      exact congrArg Effect.result
        (dispatch_read_invalid haction hscan hn ((reachesStore_withStore _).mpr h) hsize)

theorem inspectsOnly_valid_iff (h : s.memory.ReachesStore a n) (hsize : 1 ≤ n ∧ n ≤ 32) :
    InspectsOnly s pdata ↔
      ∀ b ∈ span (a &&& s.memory.paMask) n.toNat, s.memory.physMem.Settled b := by
  have hrun := dispatch_read_valid haction hscan hn h hsize
  have hafter := congrArg Effect.final hrun
  rw [Effect.final_ok] at hafter
  rw [← PhysicalMemory.undisturbed_pullBytes_iff]
  constructor
  · rintro ⟨hsame, -⟩
    rwa [sessionAfter, hafter] at hsame
  · intro hsame
    have hsettled := (PhysicalMemory.undisturbed_pullBytes_iff ..).mp hsame
    refine ⟨?_, Rsp.encode (shownBytes s a n), ?_, ?_⟩
    · rwa [sessionAfter, hafter]
    · exact answer_read_settled haction hscan hn h hsize hsettled
    · rw [sessionAfter, hafter]
      exact answer_read_undisturbed haction hscan hn h hsize hsettled hsame

/-- A request that gets to the block store. -/
theorem inspectsOnly_iff (h : s.memory.ReachesStore a n) :
    InspectsOnly s pdata ↔ s.memory.NothingToInitialise a n := by
  by_cases hsize : 1 ≤ n ∧ n ≤ 32
  · rw [inspectsOnly_valid_iff haction hscan hn h hsize, Memory.NothingToInitialise, if_pos hsize]
    exact ⟨fun hall _ => hall, fun hall => hall h⟩
  · rw [inspectsOnly_invalid_iff haction hscan hn h hsize, Memory.NothingToInitialise,
      if_neg hsize]
    exact ⟨fun hblock _ => hblock, fun hblock => hblock h⟩

end Read

/-- For every memory state and every `m` request for a range in RAM: handling it leaves RAM as it was,
    and the same request again gets the same reply, if and only if the read has nothing to
    initialise. -/
theorem inspection_leaves_ram_iff (s : DebugSession) (pdata : List Char)
    (haction : Rsp.action pdata = .ok (some .readMemory))
    (hrange : ∀ a n, scanAddressSize pdata = some (a, n) → 0 ≤ n ∧ s.memory.InRam a n) :
    InspectsOnly s pdata ↔
      ∀ a n, scanAddressSize pdata = some (a, n) → s.memory.NothingToInitialise a n := by
  cases hscan : scanAddressSize pdata with
  | none => exact iff_of_true (inspectsOnly_of_no_fields haction hscan) fun a n h => by cases h
  | some r =>
    obtain ⟨a, n⟩ := r
    obtain ⟨hn, hram⟩ := hrange a n hscan
    have hone : (∀ a' n', some (a, n) = some (a', n') → s.memory.NothingToInitialise a' n') ↔
        s.memory.NothingToInitialise a n := by
      refine ⟨fun h => h a n rfl, fun h a' n' heq => ?_⟩
      cases heq
      exact h
    rw [hone]
    by_cases hstore : s.memory.ReachesStore a n
    · exact inspectsOnly_iff haction hscan hn hstore
    · exact iff_of_true (inspectsOnly_elsewhere haction hscan hn hram hstore)
        fun h => absurd h hstore

theorem scan_one : scanAddressSize "m1000,1".toList = some (0x1000, 1) := by decide

/-- Looking at a byte that has been written. -/
theorem inspect_written :
    InspectsOnly (withStore sevens (sevens.memory.physMem.putByte 0x1000 1 false))
      "m1000,1".toList := by
  refine (inspection_leaves_ram_iff _ _ (by decide) ?_).mpr ?_
  · rintro a n hscan
    rw [scan_one] at hscan
    cases hscan
    exact ⟨by decide, fun i _ => rfl⟩
  · rintro a n hscan
    rw [scan_one] at hscan
    cases hscan
    have hspan : span (0x1000 &&& (withStore sevens
        (sevens.memory.physMem.putByte 0x1000 1 false)).memory.paMask) (1 : Int).toNat = [0x1000] := by
      decide
    rw [Memory.NothingToInitialise, if_pos (by decide), hspan]
    rintro - b hb
    obtain rfl := List.mem_singleton.mp hb
    refine ⟨?_, fun c hc => ?_⟩
    · exact (PhysicalMemory.isDefined_putByte ..).trans (by simp)
    · exact PhysicalMemory.seen_putByte_isSome 1 false hc

/-- Four bytes of an empty memory: refused at first, then read. -/
theorem inspection_initialises : answer sevens "m1000,4".toList = some (Rsp.encode "E0".toList) ∧
    answer (sessionAfter sevens "m1000,4".toList) "m1000,4".toList =
      some (Rsp.encode "00000000".toList) ∧
    ¬ InspectsOnly sevens "m1000,4".toList := by
  have hfirst : answer sevens "m1000,4".toList = some (Rsp.encode "E0".toList) := by
    decide +kernel
  have hsecond : answer (sessionAfter sevens "m1000,4".toList) "m1000,4".toList =
      some (Rsp.encode "00000000".toList) := by
    decide +kernel
  refine ⟨hfirst, hsecond, ?_⟩
  rintro ⟨-, packet, hp, hp'⟩
  have heq := hfirst.symm.trans (hp.trans (hp'.symm.trans hsecond))
  exact absurd heq (by decide)

end DebugServer

end Dimebox
