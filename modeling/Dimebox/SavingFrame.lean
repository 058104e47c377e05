import Dimebox.LongAccess
import Dimebox.Inspection
import Dimebox.ExitStatus

/-! What saving does to the memory that is saved.

    Sections of 32 bytes are copied out of the memory blocks. The bytes of larger ones are read one at
    a time through `ReadPhysicalMemory`, whose `init_if_free` is left at its default, true: a free byte
    is written as zero, and is defined from then on with a value `rand` drew. What is written for a
    defined byte is right; memory is as before only if nothing was free (`saving_harmless_iff`). -/

namespace Dimebox

namespace PhysicalMemory

/-! ### Bytes read one at a time -/

/-- The same values, the same free bytes. -/
structure SameBytes (p p' : PhysicalMemory) : Prop where
  seen : p'.seen = p.seen
  isDefined : p'.isDefined = p.isDefined

theorem SameBytes.refl (p : PhysicalMemory) : SameBytes p p := ⟨rfl, rfl⟩

theorem SameBytes.trans {p p₁ p' : PhysicalMemory} (h : SameBytes p p₁) (h' : SameBytes p₁ p') :
    SameBytes p p' := ⟨h'.seen.trans h.seen, h'.isDefined.trans h.isDefined⟩

theorem SameBytes.kept {p p' : PhysicalMemory} (h : SameBytes p p') : Kept p p' := by
  refine ⟨fun b hb => ?_, fun b v hb => ?_⟩
  · rw [h.isDefined, hb]
  · rw [h.seen, hb]

theorem Undisturbed.sameBytes {p p' : PhysicalMemory} (h : Undisturbed p p') : SameBytes p p' :=
  ⟨h.seen, h.isDefined⟩

/-- A block that is put back. -/
theorem sameBytes_putBlock (p : PhysicalMemory) (B : U64) :
    SameBytes p (p.putBlock B (p.blockAt B, p.oracle)) := by
  have hblock : ∀ A, (p.putBlock B (p.blockAt B, p.oracle)).blockAt A = p.blockAt A := by
    intro A
    by_cases hA : A = B
    · rw [hA, blockAt_putBlock_self]
    · rw [blockAt_putBlock_ne _ hA]
  refine ⟨funext fun b => ?_, funext fun b => ?_⟩
  · rw [PhysicalMemory.seen, hblock]
    rfl
  · rw [PhysicalMemory.isDefined, hblock]
    rfl

theorem Kept.settled {p p' : PhysicalMemory} (h : Kept p p') {b : U64} (hb : p.Settled b) :
    p'.Settled b := by
  refine ⟨h.isDefined b hb.1, fun c hc => ?_⟩
  obtain ⟨v, hv⟩ := Option.isSome_iff_exists.mp (hb.2 c hc)
  rw [h.seen c v hv]
  rfl

/-- A byte that has been read is settled. -/
theorem settled_pullEach {p : PhysicalMemory} {bs : List U64} {b : U64} (hb : b ∈ bs) :
    (p.pullEach bs).Settled b := by
  induction bs generalizing p with
  | nil => exact absurd hb List.not_mem_nil
  | cons a bs ih =>
    rw [pullEach_cons]
    rcases List.mem_cons.mp hb with rfl | hb
    · refine (kept_pullEach _ bs).settled ⟨?_, fun c hc => seen_pullByte_isSome true hc⟩
      rw [isDefined_pullByte]
      simp
    · exact ih hb

/-- Nothing happens to bytes that are settled. -/
theorem undisturbed_pullEach {p : PhysicalMemory} {bs : List U64} (h : ∀ b ∈ bs, p.Settled b) :
    Undisturbed p (p.pullEach bs) := by
  induction bs generalizing p with
  | nil => exact .refl p
  | cons b bs ih =>
    have hb := h b List.mem_cons_self
    have hpull : p.pullByte b true = p.touch b := by
      rw [pullByte, hb.1]
      rfl
    have htouch := undisturbed_touch hb
    rw [pullEach_cons, hpull]
    exact htouch.trans (ih fun c hc => (htouch.settled_iff c).mpr (h c (List.mem_cons_of_mem _ hc)))

theorem sameBytes_pullEach_iff {p : PhysicalMemory} {bs : List U64} :
    SameBytes p (p.pullEach bs) ↔ ∀ b ∈ bs, p.Settled b := by
  constructor
  · intro h b hb
    have hsettled := settled_pullEach (p := p) hb
    rwa [Settled, h.seen, h.isDefined] at hsettled
  · exact fun h => (undisturbed_pullEach h).sameBytes

end PhysicalMemory

namespace Memory

open PhysicalMemory (SameBytes Copied)

/-! ### One byte -/

section Byte

variable {m : Memory} {a b : U64} {forTest : Bool}

/-- What a guest load of a defined byte returns. -/
theorem byteRead_defined (hm : m.devices = []) {q : AccessMode}
    (h : m.validatePhysicalMemoryAddress a q.forTest = .ok b) (hdef : m.physMem.isDefined b = true)
    (init : Bool) {v : Byte} (hv : m.physMem.seen b = some v) :
    byteRead q init m a = some (allBytesDefined, v) := by
  have hrun := readByte_run hm h init
  rw [byteRead, readMemory, q.not_refused, if_neg Bool.false_ne_true, if_pos (by decide),
    readMemoryBlock, hrun, hdef, byteAt_of_seen hv]
  rfl

end Byte

end Memory

namespace Elfio

open PhysicalMemory (span SameBytes Copied Kept)

/-! ### The bytes that are read -/

/-- The bytes `SaveToELF` reads one at a time: those of the blocks in front of the first that is not
    aligned, up to the first that does not pass. -/
def bytesRead (m : Memory) (as : List U64) (size : Nat) : List U64 :=
  ((as.takeWhile fun a => a &&& BitVec.ofNat 64 (size - 1) = 0).flatMap fun a =>
    span a size).takeWhile (passesTest m)

/-- How a run of the section loop ends: in this store, defined, with copies of what was there. -/
structure Reads (m : Memory) (added : List ElfSection) (p : PhysicalMemory)
    (r : EStateM.Result Fault Memory (Option (List ElfSection))) : Prop where
  final : Effect.final r = { m with physMem := p }
  defined : Effect.thrown r ≠ some .undefined
  copied : ∀ sections, Effect.result r = some (some sections) → ∀ s ∈ sections,
    s ∈ added ∨ Copied m.physMem s.address s.bytes

section Reads

variable {m : Memory} {added : List ElfSection} {p : PhysicalMemory}

theorem Reads.ended (size : Nat) : Reads m added m.physMem ((saveSections size [] added).run m) := by
  refine ⟨rfl, fun h => (by cases h), fun sections h s hs => .inl ?_⟩
  rwa [← Option.some.inj (Option.some.inj h)] at hs

/-- An address that is not aligned. -/
theorem Reads.refused : Reads m added m.physMem (.ok none m) :=
  ⟨rfl, fun h => (by cases h), fun _ h => (by cases h)⟩

theorem Reads.thrown {f : Fault} (hf : f ≠ .undefined) :
    Reads m added p (.error f { m with physMem := p }) :=
  ⟨rfl, fun h => hf (Option.some.inj h), fun _ h => (by cases h)⟩

/-- A section more, from a store that has kept what there was. -/
theorem Reads.section_added {p₁ : PhysicalMemory} {count : Nat} {a : U64} {data : List Byte}
    {r : EStateM.Result Fault Memory (Option (List ElfSection))} (hcopied : Copied m.physMem a data)
    (hkept : Kept m.physMem p₁)
    (h : Reads { m with physMem := p₁ } (added ++ [textSection count a data]) p r) :
    Reads m added p r := by
  refine ⟨h.final, h.defined, fun sections hr s hs => ?_⟩
  rcases h.copied sections hr s hs with hmem | hlater
  · rcases List.mem_append.mp hmem with hmem | hmem
    · exact .inl hmem
    · obtain rfl := List.mem_singleton.mp hmem
      refine .inr ?_
      rw [bytes_textSection]
      exact hcopied
  · exact .inr (hlater.of_kept hkept)

end Reads

/-- Saving in blocks that are larger than a memory block reads these bytes, whatever comes of it. -/
theorem saveSections_reads {m : Memory} (hm : m.devices = []) {size : Nat} (hsize : 32 < size)
    (as : List U64) (added : List ElfSection) :
    Reads m added (m.physMem.pullEach (bytesRead m as size))
      ((saveSections size as added).run m) := by
  induction as generalizing m added with
  | nil => exact .ended size
  | cons a as ih =>
    rw [saveSections, bytesRead, List.takeWhile_cons]
    by_cases haligned : a &&& BitVec.ofNat 64 (size - 1) = 0
    · rw [if_neg (not_not.mpr haligned), if_pos (decide_eq_true haligned), List.flatMap_cons,
        EStateM.run_bind, readSection, if_neg (Nat.not_le.mpr hsize)]
      rcases readEachByte_passing hm a size with ⟨hall, data, hrun, -, hcopied⟩ | ⟨hsome, hrun⟩
      · have hkept := PhysicalMemory.kept_pullEach m.physMem (span a size)
        obtain ⟨p, hp⟩ : ∃ p, p = m.physMem.pullEach (span a size) := ⟨_, rfl⟩
        rw [List.takeWhile_append_of_pos (List.all_eq_true.mp hall),
          PhysicalMemory.pullEach_append, hrun, ← hp]
        rw [← hp] at hkept
        exact .section_added hcopied.copied hkept (@ih { m with physMem := p } hm _)
      · have hshort : ((span a size).takeWhile (passesTest m)).length ≠ (span a size).length := by
          intro hlen
          have hself := (List.takeWhile_sublist (passesTest m)).eq_of_length hlen
          rw [List.takeWhile_eq_self_iff, ← List.all_eq_true, hsome] at hself
          cases hself
        rw [List.takeWhile_append, if_neg hshort, hrun]
        exact .thrown (by decide)
    · rw [if_pos haligned, if_neg fun h => haligned (of_decide_eq_true h)]
      exact .refused

/-! ### Sections of a memory block, or shorter -/

/-- The address of a block that has its storage. -/
def HasBlock (m : Memory) (a : U64) : Prop :=
  MemBlock.offset a = 0 ∧ (m.physMem.blockAt a).mptr.isSome

/-- `ReadInitialState` gives the bytes of a block, and changes none. -/
theorem readInitialState_cases (m : Memory) (a : U64) :
    (HasBlock m a ∧ ∃ data p, (Memory.onPhysMem (PhysicalMemory.readInitialState a false)).run m =
        .ok data { m with physMem := p } ∧ SameBytes m.physMem p ∧ Copied m.physMem a data) ∨
    (¬ HasBlock m a ∧ ∃ p, (Memory.onPhysMem (PhysicalMemory.readInitialState a false)).run m =
        .error (.mblock .memError) { m with physMem := p } ∧ SameBytes m.physMem p) := by
  have hsame : SameBytes m.physMem
      (Effect.final ((PhysicalMemory.readInitialState a false).run m.physMem)) := by
    rw [PhysicalMemory.readInitialState]
    split
    · exact .refl _
    · rw [PhysicalMemory.run_onBlock, Effect.final_mapState, EStateM.run_bind, EStateM.run_get]
      dsimp only
      cases (m.physMem.blockAt a).readInitialState a false with
      | error f => exact PhysicalMemory.sameBytes_putBlock m.physMem a
      | ok data => exact PhysicalMemory.sameBytes_putBlock m.physMem a
  rw [Memory.onPhysMem, Effect.run_focus]
  rcases PhysicalMemory.readInitialState_cases a false m.physMem with
    ⟨mem, hoff, hmem, hrun⟩ | ⟨hnot, p', hrun⟩
  · rw [if_neg Bool.false_ne_true] at hmem
    rw [hrun] at hsame ⊢
    exact .inl ⟨⟨hoff, by rw [hmem]; rfl⟩, _, _, rfl, hsame,
      (PhysicalMemory.copiedFrom_block hoff hmem).copied⟩
  · rw [if_neg Bool.false_ne_true] at hnot
    rw [hrun] at hsame ⊢
    exact .inr ⟨hnot, p', rfl, hsame⟩

/-- Saving memory blocks changes nothing. -/
theorem saveSections_blocks (m : Memory) (as : List U64) (added : List ElfSection) :
    ∃ p, SameBytes m.physMem p ∧ Reads m added p ((saveSections 32 as added).run m) := by
  induction as generalizing m added with
  | nil => exact ⟨m.physMem, .refl _, .ended 32⟩
  | cons a as ih =>
    rw [saveSections]
    by_cases haligned : a &&& BitVec.ofNat 64 (32 - 1) = 0
    · rw [if_neg (not_not.mpr haligned), EStateM.run_bind, readSection, if_pos (Nat.le_refl 32),
        EStateM.run_bind]
      rcases readInitialState_cases m a with ⟨-, data, p₁, hrun, hsame₁, hcopied⟩ | ⟨-, p, hrun, hsame⟩
      · obtain ⟨p, hsame, hrest⟩ := ih { m with physMem := p₁ }
          (added ++ [textSection (added.length + 1) a data])
        rw [hrun]
        exact ⟨p, hsame₁.trans hsame, .section_added hcopied hsame₁.kept hrest⟩
      · rw [hrun]
        exact ⟨p, hsame, .thrown (by decide)⟩
    · rw [if_pos haligned]
      exact ⟨m.physMem, .refl _, .refused⟩

/-- A shorter section is overrun, unless it cannot be read. -/
theorem saveSections_short (m : Memory) {size : Nat} (hpos : 1 ≤ size) (hshort : size < 32)
    (as : List U64) (added : List ElfSection) :
    ((∃ a ∈ as.head?, HasBlock m a) ∧
      Effect.thrown ((saveSections size as added).run m) = some .undefined) ∨
    ((∀ a ∈ as.head?, ¬ HasBlock m a) ∧
      ∃ p, SameBytes m.physMem p ∧ Reads m added p ((saveSections size as added).run m)) := by
  cases as with
  | nil => exact .inr ⟨fun a ha => (by cases ha), m.physMem, .refl _, .ended size⟩
  | cons a as =>
    have hhead : ∀ b ∈ (a :: as).head?, b = a := fun b hb => (Option.mem_some_iff.mp hb).symm
    rw [saveSections]
    by_cases haligned : a &&& BitVec.ofNat 64 (size - 1) = 0
    · rw [if_neg (not_not.mpr haligned), EStateM.run_bind, readSection, if_pos (by omega),
        EStateM.run_bind]
      rcases readInitialState_cases m a with ⟨hblock, data, p, hrun, -⟩ | ⟨hnone, p, hrun, hsame⟩
      · refine .inl ⟨⟨a, rfl, hblock⟩, ?_⟩
        rw [hrun]
        dsimp only
        rw [if_pos hshort]
        rfl
      · refine .inr ⟨fun b hb => hhead b hb ▸ hnone, p, hsame, ?_⟩
        rw [hrun]
        exact .thrown (by decide)
    · refine .inr ⟨fun b hb hblock => haligned ?_, m.physMem, .refl _, ?_⟩
      · -- the address of a memory block has no bit below 32
        have hoff := hhead b hb ▸ hblock.1
        have hmod : (a.toNat &&& (size - 1)) % 2 ^ 5 = 0 := by
          rw [MemBlock.offset_eq] at hoff
          rw [Nat.and_mod_two_pow, hoff, Nat.zero_and]
        have hle : a.toNat &&& (size - 1) ≤ size - 1 := Nat.and_le_right
        apply BitVec.eq_of_toNat_eq
        rw [BitVec.toNat_and, BitVec.toNat_ofNat, Nat.mod_eq_of_lt (by omega)]
        show a.toNat &&& (size - 1) = 0
        omega
      · rw [if_pos haligned]
        exact .refused

/-! ### Saving -/

/-- `SaveToELF` leaves the bytes of `m` as they are, and writes for every defined location what a
    guest load of it returns. -/
structure HarmlessSave (m : Memory) (as : List U64) (size : Nat) : Prop where
  defined : Effect.thrown ((saveToElf as size).run m) ≠ some .undefined
  same : SameBytes m.physMem (Effect.final ((saveToElf as size).run m)).physMem
  written : ∀ sections, Effect.result ((saveToElf as size).run m) = some (some sections) →
    ∀ s ∈ sections, ∀ b v, m.physMem.isDefined b = true → s.byteAt b = some v →
      ∀ a, m.validatePhysicalMemoryAddress a false = .ok b →
        Memory.byteRead Memory.dataMode true m a = some (allBytesDefined, v)

/-- The first section is not overrun; if sections are larger than a memory block, the bytes that are
    read are settled. -/
def NothingToDisturb (m : Memory) (as : List U64) (size : Nat) : Prop :=
  if size < 32 then ∀ a ∈ as.head?, ¬ HasBlock m a
  else size = 32 ∨ ∀ b ∈ bytesRead m as size, m.physMem.Settled b

theorem harmless_of_reads {m : Memory} (hm : m.devices = []) {as : List U64} {size : Nat}
    {p : PhysicalMemory} (h : Reads m [] p ((saveToElf as size).run m)) :
    HarmlessSave m as size ↔ SameBytes m.physMem p := by
  have hfinal : (Effect.final ((saveToElf as size).run m)).physMem = p := by rw [h.final]
  constructor
  · intro hharmless
    rw [← hfinal]
    exact hharmless.same
  · intro hsame
    refine ⟨h.defined, by rwa [hfinal], fun sections hrun s hs b v hdef hv a ha => ?_⟩
    have hcopied := (h.copied sections hrun s hs).resolve_left List.not_mem_nil
    exact Memory.byteRead_defined hm ha hdef true (hcopied b v hdef hv)

/-- For every memory without devices, all blocks and block sizes: saving is harmless if and only if
    there is nothing to disturb. -/
theorem saving_harmless_iff (m : Memory) (hm : m.devices = []) (as : List U64) (size : Nat)
    (hpos : 1 ≤ size) : HarmlessSave m as size ↔ NothingToDisturb m as size := by
  rw [NothingToDisturb]
  by_cases hshort : size < 32
  · rw [if_pos hshort]
    rcases saveSections_short m hpos hshort as [] with
      ⟨⟨a, ha, hblock⟩, hundefined⟩ | ⟨hnone, p, hsame, hreads⟩
    · exact iff_of_false (fun h => h.defined hundefined) fun h => h a ha hblock
    · exact iff_of_true ((harmless_of_reads hm hreads).mpr hsame) hnone
  · rw [if_neg hshort]
    by_cases hblock : size = 32
    · subst hblock
      obtain ⟨p, hsame, hreads⟩ := saveSections_blocks m as []
      exact iff_of_true ((harmless_of_reads hm hreads).mpr hsame) (.inl rfl)
    · have hreads := saveSections_reads hm (by omega : 32 < size) as []
      rw [harmless_of_reads hm hreads, PhysicalMemory.sameBytes_pullEach_iff, or_iff_right hblock]

/-- One byte of memory. -/
def oneByte : Memory :=
  { Memory.empty Memory.counting with
    physMem := (Memory.empty Memory.counting).physMem.putByte 0 0x13 false }

/-- Its block is saved without harm. -/
theorem one_byte_saved : HarmlessSave oneByte [0] 32 :=
  (saving_harmless_iff oneByte rfl [0] 32 (by decide)).mpr (.inl rfl)

/-- In a section of 4096 bytes the others become defined. -/
theorem page_with_one_byte_disturbed : ¬ ∀ (m : Memory) (as : List U64) (size : Nat),
    m.devices = [] → 1 ≤ size → HarmlessSave m as size := by
  intro h
  have hreads := saveSections_reads (m := oneByte) rfl (by decide : 32 < 4096) [0] []
  have hsettled := PhysicalMemory.sameBytes_pullEach_iff.mp
    ((harmless_of_reads rfl hreads).mp (h oneByte [0] 4096 rfl (by decide)))
  have hspan : span 0 4096 = 0 :: 1 :: span 2 4094 := rfl
  have hnext : (1 : U64) ∈ bytesRead oneByte [0] 4096 := by
    have haligned : ([0].takeWhile fun a : U64 => a &&& BitVec.ofNat 64 (4096 - 1) = 0) = [0] := by
      decide
    rw [bytesRead, haligned, List.flatMap_cons, hspan]
    exact List.mem_cons_of_mem _ List.mem_cons_self
  have hfree : oneByte.physMem.isDefined 1 = false := by decide
  have hdefined := (hsettled 1 hnext).1
  rw [hfree] at hdefined
  exact Bool.false_ne_true hdefined

end Elfio

end Dimebox
