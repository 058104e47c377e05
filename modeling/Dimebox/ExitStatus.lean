import Dimebox.RunSimulation
import Dimebox.ClientAccess
import Dimebox.AddressRange
import Dimebox.RejectedAccess

/-! Whether a failure of `Go` is seen outside.

    `run_simulation` keeps one return code, and `WriteTestSignature` overwrites the one of `Go`. So the
    process reports a failure of `Go` only if something else fails after it: the signature cannot be
    written, or the dump. -/

namespace Dimebox

namespace Memory

/-! ### Reads that go through -/

theorem SameRange.valid_iff {m m' : Memory} (h : SameRange m m') (a : U64) (n : Int) :
    m'.Valid a n ↔ m.Valid a n := by
  rw [Valid, Valid, h.checkAddresses]

end Memory

/-! ### The signature -/

/-- Every line passes the address checks. -/
def LinesValid (m : Memory) (start : U64) (n : Nat) : Prop :=
  ∀ k < n, m.Valid (start + BitVec.ofNat 64 (16 * k)) 16

theorem linesValid_succ (m : Memory) (start : U64) (n : Nat) :
    LinesValid m start (n + 1) ↔ m.Valid start 16 ∧ LinesValid m (start + 16) n := by
  have hfirst : start + BitVec.ofNat 64 (16 * 0) = start := BitVec.add_zero start
  have hnext : ∀ k, start + BitVec.ofNat 64 (16 * (k + 1)) = start + 16 + BitVec.ofNat 64 (16 * k) := by
    intro k
    have hof : BitVec.ofNat 64 (16 * (k + 1)) = 16 + BitVec.ofNat 64 (16 * k) := by
      rw [Nat.mul_succ, Nat.add_comm, BitVec.ofNat_add]
      rfl
    rw [hof, BitVec.add_assoc]
  constructor
  · intro h
    refine ⟨?_, fun k hk => ?_⟩
    · rw [← hfirst]
      exact h 0 (Nat.succ_pos n)
    · rw [← hnext]
      exact h (k + 1) (Nat.succ_lt_succ hk)
  · rintro ⟨hhead, hrest⟩ k hk
    cases k with
    | zero => rwa [hfirst]
    | succ k =>
      rw [hnext]
      exact hrest k (Nat.lt_of_succ_lt_succ hk)

/-- The loop returns, with 0 if every line can be read. -/
theorem writeSignatureLines_run (host : TestHost) (n : Nat) (start : U64) (m : Memory) :
    ∃ rcode text m', (writeSignatureLines host n start).run m = .ok (rcode, text) m' ∧
      (LinesValid m start n ∧ rcode = 0 ∨ ¬ LinesValid m start n ∧ rcode = -1) := by
  induction n generalizing start m with
  | zero => exact ⟨0, [], m, rfl, .inl ⟨fun k hk => absurd hk (Nat.not_lt_zero k), rfl⟩⟩
  | succ n ih =>
    rw [linesValid_succ, writeSignatureLines, EStateM.run_bind, Effect.run_tryCatch,
      map_eq_pure_bind, EStateM.run_bind]
    by_cases hvalid : m.Valid start 16
    · obtain ⟨address, hcheck⟩ := hvalid
      obtain ⟨r, m₁, hread, hsame⟩ := Memory.readPhysicalMemory_of_checked (n := 16) hcheck
        (by decide) (by decide) ((List.range 16).map host.tbuf) true
      have hline : (Memory.readPhysicalMemory start 16 ((List.range 16).map host.tbuf) false
          true).run m = .ok r m₁ := hread
      obtain ⟨rcode, text, m', hrun, hcode⟩ := ih (start + 16) m₁
      have hlines : LinesValid m₁ (start + 16) n ↔ LinesValid m (start + 16) n :=
        forall₂_congr fun _ _ => hsame.valid_iff _ _
      rw [hlines] at hcode
      rw [hline]
      simp only [EStateM.run_pure, EStateM.run_bind, EStateM.run_get, hrun]
      exact ⟨rcode, _, m', rfl, by simpa [show m.Valid start 16 from ⟨address, hcheck⟩] using hcode⟩
    · rw [Memory.readPhysicalMemory_of_unchecked hvalid]
      exact ⟨-1, [], m, rfl, .inr ⟨fun h => hvalid h.1, rfl⟩⟩

namespace TestConfig

variable (cfg : TestConfig) (host : TestHost) (m : Memory)

/-- A signature is wanted and is refused: its size is no number of lines, or a line cannot be read. -/
def SignatureFails : Prop :=
  cfg.signatureStartAddress ≠ 0 ∧ (cfg.signatureSize.tmod 16 ≠ 0 ∨
    host.opensSignature ∧ ¬ LinesValid m cfg.signatureStartAddress cfg.signatureLines)

/-- No signature is wanted, or it can be written. -/
def SignatureDone : Prop :=
  cfg.signatureStartAddress = 0 ∨ cfg.signatureSize.tmod 16 = 0 ∧
    host.opensSignature ∧ LinesValid m cfg.signatureStartAddress cfg.signatureLines

end TestConfig

theorem writeTestSignature_cases (cfg : TestConfig) (host : TestHost) (m : Memory) :
    (cfg.SignatureDone host m ∧ ¬ cfg.SignatureFails host m ∧
      ∃ text m', (writeTestSignature cfg host).run m = .ok (0, text) m') ∨
    (cfg.SignatureFails host m ∧
      ∃ text m', (writeTestSignature cfg host).run m = .ok (-1, text) m') ∨
    (¬ cfg.SignatureDone host m ∧ ¬ cfg.SignatureFails host m ∧
      (writeTestSignature cfg host).run m = .error .undefined m) := by
  rw [writeTestSignature, TestConfig.SignatureDone, TestConfig.SignatureFails]
  by_cases hstart : cfg.signatureStartAddress = 0
  · rw [if_pos hstart]
    exact .inl ⟨.inl hstart, fun h => h.1 hstart, none, m, rfl⟩
  · rw [if_neg hstart]
    by_cases hsize : cfg.signatureSize.tmod 16 = 0
    · rw [if_neg (not_not.mpr hsize)]
      cases hopen : host.opensSignature with
      | false =>
        refine .inr (.inr ⟨?_, ?_, rfl⟩)
        · rintro (h | ⟨-, h, -⟩)
          · exact hstart h
          · cases h
        · rintro ⟨-, h | ⟨h, -⟩⟩
          · exact h hsize
          · cases h
      | true =>
        obtain ⟨rcode, text, m', hrun, ⟨hlines, hcode⟩ | ⟨hlines, hcode⟩⟩ :=
          writeSignatureLines_run host cfg.signatureLines cfg.signatureStartAddress m
        · rw [hcode] at hrun
          refine .inl ⟨.inr ⟨hsize, rfl, hlines⟩, ?_, some text, m', ?_⟩
          · rintro ⟨-, h | ⟨-, h⟩⟩
            · exact h hsize
            · exact h hlines
          · simp only [Bool.not_true, Bool.false_eq_true, if_false, EStateM.run_bind, hrun]
            rfl
        · rw [hcode] at hrun
          refine .inr (.inl ⟨⟨hstart, .inr ⟨rfl, hlines⟩⟩, some text, m', ?_⟩)
          simp only [Bool.not_true, Bool.false_eq_true, if_false, EStateM.run_bind, hrun]
          rfl
    · rw [if_pos hsize]
      exact .inr (.inl ⟨⟨hstart, .inl hsize⟩, none, m, rfl⟩)

/-! ### The dump -/

namespace Memory

/-- The data of a section of `size` bytes can be read: the block has storage, or every byte passes the
    address checks of a test access. -/
def HasSection (m : Memory) (size : Nat) (a : U64) : Prop :=
  if size ≤ 32 then
    MemBlock.offset a = 0 ∧ (m.physMem.blockAt a).mptr.isSome
  else ∀ j < size, ∃ address, m.checkAddresses (a + BitVec.ofNat 64 j) 1 true = .ok address

theorem readEachByte_cases (n : Nat) (a : U64) (m : Memory) :
    ((∀ j < n, ∃ address, m.checkAddresses (a + BitVec.ofNat 64 j) 1 true = .ok address) ∧
      ∃ data m', (Elfio.readEachByte a n).run m = .ok data m' ∧ SameRange m m') ∨
    (¬ (∀ j < n, ∃ address, m.checkAddresses (a + BitVec.ofNat 64 j) 1 true = .ok address) ∧
      ∃ m', (Elfio.readEachByte a n).run m = .error (.sim .generationError) m') := by
  induction n generalizing a m with
  | zero => exact .inl ⟨fun j hj => absurd hj (Nat.not_lt_zero j), [], m, rfl, .refl m⟩
  | succ n ih =>
    have hfirst : a + BitVec.ofNat 64 0 = a := BitVec.add_zero a
    rw [Elfio.readEachByte, EStateM.run_bind]
    by_cases hcheck : ∃ address, m.checkAddresses a 1 true = .ok address
    · obtain ⟨address, hcheck'⟩ := hcheck
      obtain ⟨r, m₁, hread, hsame⟩ :=
        readPhysicalMemory_of_checked (n := 1) hcheck' (by decide) (by decide) [0] true
      have hbyte : (readPhysicalMemory a 1 [0] true true).run m = .ok r m₁ := hread
      rw [hbyte]
      dsimp only
      rw [EStateM.run_bind]
      have hrest : (∀ j < n + 1, ∃ address,
          m.checkAddresses (a + BitVec.ofNat 64 j) 1 true = .ok address) ↔
          ∀ j < n, ∃ address, m₁.checkAddresses (a + 1 + BitVec.ofNat 64 j) 1 true = .ok address := by
        constructor
        · intro h j hj
          rw [MemBlock.succ_add_ofNat, hsame.checkAddresses]
          exact h (j + 1) (Nat.succ_lt_succ hj)
        · intro h j hj
          cases j with
          | zero => exact ⟨address, by rw [hfirst, hcheck']⟩
          | succ j =>
            rw [← MemBlock.succ_add_ofNat, ← hsame.checkAddresses]
            exact h j (Nat.lt_of_succ_lt_succ hj)
      rw [hrest]
      rcases ih (a + 1) m₁ with ⟨hall, data, m', hrun, hsame'⟩ | ⟨hnot, m', hrun⟩
      · rw [hrun]
        exact .inl ⟨hall, _, m', rfl, hsame.trans hsame'⟩
      · rw [hrun]
        exact .inr ⟨hnot, m', rfl⟩
    · have hbyte : (readPhysicalMemory a 1 [0] true true).run m = .error (.sim .generationError) m :=
        readPhysicalMemory_of_unchecked hcheck [0] true
      rw [hbyte]
      refine .inr ⟨fun h => hcheck ?_, m, rfl⟩
      rw [← hfirst]
      exact h 0 (Nat.succ_pos n)

/-- The data is read if it can be; the other sections can be read as before. -/
theorem readSection_run {size : Nat} (hsize : 32 ≤ size) (a : U64) (m : Memory) :
    (m.HasSection size a ∧ ∃ data m', (Elfio.readSection a size).run m = .ok data m' ∧
      ∀ b, m'.HasSection size b ↔ m.HasSection size b) ∨
    (¬ m.HasSection size a ∧ ∃ f m', f ≠ .undefined ∧
      (Elfio.readSection a size).run m = .error f m') := by
  unfold HasSection Elfio.readSection
  split
  · rw [EStateM.run_bind, onPhysMem, Effect.run_focus]
    rcases PhysicalMemory.readInitialState_cases a false m.physMem with
      ⟨mem, hoff, hmem, hrun⟩ | ⟨hnot, p', hrun⟩
    · rw [if_neg Bool.false_ne_true] at hmem
      rw [hrun, Effect.mapState_ok]
      dsimp only
      rw [if_neg (Nat.not_lt.mpr hsize)]
      refine .inl ⟨⟨hoff, by rw [hmem]; rfl⟩, _, _, rfl, fun b => ?_⟩
      dsimp only
      by_cases hb : b = a
      · rw [hb, PhysicalMemory.blockAt_putBlock_self]
      · rw [PhysicalMemory.blockAt_putBlock_ne _ hb]
    · rw [if_neg Bool.false_ne_true] at hnot
      rw [hrun]
      exact .inr ⟨hnot, _, _, by decide, rfl⟩
  · rcases readEachByte_cases size a m with ⟨hall, data, m', hrun, hsame⟩ | ⟨hnot, m', hrun⟩
    · refine .inl ⟨hall, data, m', hrun, fun b => ?_⟩
      simp only [hsame.checkAddresses]
    · exact .inr ⟨hnot, _, m', by decide, hrun⟩

end Memory

namespace ElfWriter

/-- The return code of `Save`, from the sections it has added. -/
def codeOf (sections : Option (List ElfSection)) : Ending :=
  if sections.isSome then .code 0 else .code (-1)

/-- The host refuses nothing. -/
structure Willing (w : ElfWriter) (elfFile : List Char) : Prop where
  init : w.init elfFile = .ok 0
  adds : ∀ k, w.adds k = true
  fini : w.fini = .code 0

theorem Willing.saveSections {w : ElfWriter} {elfFile : List Char} (h : w.Willing elfFile)
    (size : Nat) (as : List U64) (k : Nat) (added : List ElfSection) (m : Memory) :
    (w.saveSections size as k).run m = (codeOf <$> Elfio.saveSections size as added).run m := by
  induction as generalizing k added m with
  | nil =>
    rw [ElfWriter.saveSections, h.fini]
    rfl
  | cons a as ih =>
    rw [ElfWriter.saveSections, Elfio.saveSections, map_eq_pure_bind, EStateM.run_bind]
    by_cases haligned : a &&& BitVec.ofNat 64 (size - 1) = 0
    · rw [if_neg (not_not.mpr haligned), if_neg (not_not.mpr haligned), EStateM.run_bind,
        EStateM.run_bind]
      cases (Elfio.readSection a size).run m with
      | error f m' => rfl
      | ok data m' =>
        dsimp only
        rw [h.adds k, if_pos rfl, ih (k + 1) (added ++ [Elfio.textSection (added.length + 1) a data]),
          map_eq_pure_bind, EStateM.run_bind]
    · rw [if_pos haligned, if_pos haligned]
      rfl

/-- `Save` with such a host is `Save` as far as the sections. -/
theorem Willing.save {w : ElfWriter} {elfFile : List Char} (h : w.Willing elfFile) (m : Memory) :
    (w.save elfFile).run m = (codeOf <$> Elfio.save false).run m := by
  rw [ElfWriter.save, Elfio.save, map_eq_pure_bind, EStateM.run_bind, EStateM.run_bind,
    EStateM.run_bind, EStateM.run_get]
  simp only [Bool.false_eq_true, if_false]
  cases Elfio.chooseFileBlockSize (Elfio.testBlockAddresses m) with
  | none => rfl
  | some bits =>
    dsimp only
    split
    · rfl
    · rw [saveToElf, Elfio.saveToElf, EStateM.run_bind, h.init, Effect.run_lift_ok]
      simp only [ne_eq, not_true_eq_false, if_false]
      rw [h.saveSections _ _ 0 [], map_eq_pure_bind, EStateM.run_bind]

end ElfWriter

/-- What a process ends with whose last call is this. -/
def endingStatus : EStateM.Result Fault Memory Ending → Option Nat
  | .ok e _ => some e.status
  | .error .undefined _ => none
  | .error _ _ => some abortStatus

namespace ElfWriter

/-- The sections are written, and the file. -/
def Writes (w : ElfWriter) (m : Memory) (size : Nat) (addresses : List U64) (k : Nat) : Prop :=
  (∀ j a, addresses[j]? = some a → a &&& BitVec.ofNat 64 (size - 1) = 0 ∧ m.HasSection size a ∧
    w.adds (k + j)) ∧ w.addsNames ∧ w.updates

theorem writes_cons (w : ElfWriter) (m : Memory) (size : Nat) (a : U64) (as : List U64) (k : Nat) :
    w.Writes m size (a :: as) k ↔ a &&& BitVec.ofNat 64 (size - 1) = 0 ∧ m.HasSection size a ∧
      w.adds k ∧ w.Writes m size as (k + 1) := by
  rw [Writes, Writes]
  constructor
  · rintro ⟨hall, hend⟩
    obtain ⟨haligned, hread, hadd⟩ := hall 0 a rfl
    refine ⟨haligned, hread, hadd, fun j b hb => ?_, hend⟩
    have hj := hall (j + 1) b hb
    rwa [show k + (j + 1) = k + 1 + j by omega] at hj
  · rintro ⟨haligned, hread, hadd, hall, hend⟩
    refine ⟨fun j b hb => ?_, hend⟩
    cases j with
    | zero =>
      cases hb
      exact ⟨haligned, hread, hadd⟩
    | succ j =>
      rw [show k + (j + 1) = k + 1 + j by omega]
      exact hall j b hb

/-- The process ends with 0 exactly if all is written, and with some status in any case. -/
theorem saveSections_status (w : ElfWriter) {size : Nat} (hsize : 32 ≤ size) (as : List U64)
    (k : Nat) (m : Memory) :
    ∃ status, endingStatus ((w.saveSections size as k).run m) = some status ∧
      (status = 0 ↔ w.Writes m size as k) := by
  induction as generalizing k m with
  | nil =>
    have hnil : w.Writes m size [] k ↔ w.addsNames = true ∧ w.updates = true := by
      simp [Writes]
    rw [hnil]
    refine ⟨w.fini.status, rfl, ?_⟩
    rw [fini]
    cases w.addsNames with
    | false => simp [Ending.status]
    | true => cases w.updates <;> simp [Ending.status]
  | cons a as ih =>
    rw [writes_cons, saveSections]
    by_cases haligned : a &&& BitVec.ofNat 64 (size - 1) = 0
    · rw [if_neg (not_not.mpr haligned), EStateM.run_bind]
      rcases Memory.readSection_run hsize a m with
        ⟨hread, data, m', hrun, hsame⟩ | ⟨hnot, f, m', hf, hrun⟩
      · rw [hrun]
        dsimp only
        cases hadd : w.adds k with
        | false => exact ⟨255, rfl, by simp⟩
        | true =>
          obtain ⟨status, hstatus, hiff⟩ := ih (k + 1) m'
          have hrest : w.Writes m' size as (k + 1) ↔ w.Writes m size as (k + 1) := by
            simp only [Writes, hsame]
          exact ⟨status, hstatus, by rw [hiff, hrest]; simp [haligned, hread]⟩
      · rw [hrun]
        refine ⟨abortStatus, ?_, iff_of_false (by decide) fun h => hnot h.2.1⟩
        cases f with
        | undefined => exact absurd rfl hf
        | _ => rfl
    · rw [if_pos haligned]
      exact ⟨255, rfl, iff_of_false (by decide) fun h => haligned h.1⟩

/-- The addresses of the sections for blocks of `2 ^ bits` bytes. -/
def sectionAddresses (m : Memory) (bits : Nat) : List U64 :=
  Elfio.setFileBlockAddresses (Elfio.blockMask bits) [] (Elfio.testBlockAddresses m)

/-- No buffer overflows: the block size fits in an `int`, the name of the file in its buffer and in
    the message. -/
def Fits (w : ElfWriter) (elfFile : List Char) (m : Memory) : Prop :=
  ∀ bits, Elfio.chooseFileBlockSize (Elfio.testBlockAddresses m) = some bits →
    bits < 31 ∧ ∃ rcode, w.init elfFile = .ok rcode

/-- The file is written. -/
def Dumps (w : ElfWriter) (elfFile : List Char) (m : Memory) : Prop :=
  ∃ bits, Elfio.chooseFileBlockSize (Elfio.testBlockAddresses m) = some bits ∧
    w.init elfFile = .ok 0 ∧ w.Writes m (2 ^ bits) (sectionAddresses m bits) 0

theorem init_code {w : ElfWriter} {elfFile : List Char} {rcode : Int}
    (h : w.init elfFile = .ok rcode) : rcode = 0 ∨ rcode = -1 := by
  unfold init at h
  split_ifs at h <;> cases h
  · exact .inr rfl
  · exact .inr rfl
  · exact .inr rfl
  · exact .inl rfl

theorem init_error {w : ElfWriter} {elfFile : List Char} {f : Fault}
    (h : w.init elfFile = .error f) : f = .undefined := by
  unfold init at h
  split_ifs at h <;> cases h <;> rfl

theorem save_status (w : ElfWriter) (elfFile : List Char) (m : Memory) :
    (w.Fits elfFile m ∧ ∃ status, endingStatus ((w.save elfFile).run m) = some status ∧
      (status = 0 ↔ w.Dumps elfFile m)) ∨
    (¬ w.Fits elfFile m ∧ endingStatus ((w.save elfFile).run m) = none) := by
  rw [save, EStateM.run_bind, EStateM.run_get, Fits, Dumps]
  dsimp only
  cases hbits : Elfio.chooseFileBlockSize (Elfio.testBlockAddresses m) with
  | none =>
    refine .inl ⟨fun _ h => (by cases h), 255, rfl, iff_of_false (by decide) ?_⟩
    rintro ⟨_, h, -⟩
    cases h
  | some bits =>
    dsimp only
    by_cases hsize : 31 ≤ bits
    · rw [if_pos hsize]
      refine .inr ⟨fun h => ?_, rfl⟩
      have := (h bits rfl).1
      omega
    · rw [if_neg hsize, saveToElf]
      cases hinit : w.init elfFile with
      | error f =>
        obtain rfl := init_error hinit
        refine .inr ⟨fun h => ?_, rfl⟩
        obtain ⟨rcode, hr⟩ := (h bits rfl).2
        cases hr
      | ok rcode =>
        have hfits : ∀ b, some bits = some b →
            b < 31 ∧ ∃ r, (Except.ok rcode : Except Fault Int) = .ok r := by
          rintro b hb
          cases hb
          exact ⟨by omega, rcode, rfl⟩
        refine .inl ⟨hfits, ?_⟩
        rcases init_code hinit with rfl | rfl
        · have hblock : 2 ^ 5 ≤ 2 ^ bits :=
            Nat.pow_le_pow_right (by omega) (Elfio.five_le_of_choose hbits)
          obtain ⟨status, hstatus, hiff⟩ :=
            saveSections_status w hblock (sectionAddresses m bits) 0 m
          refine ⟨status, hstatus, hiff.trans ?_⟩
          constructor
          · exact fun h => ⟨bits, rfl, rfl, h⟩
          · rintro ⟨_, hb, -, h⟩
            cases hb
            exact h
        · refine ⟨255, rfl, iff_of_false (by decide) ?_⟩
          rintro ⟨_, -, h, -⟩
          cases h

end ElfWriter

/-! ### The process -/

/-- A dump is wanted and cannot be written. -/
def DumpFails (cfg : TestConfig) (host : TestHost) (m : Memory) : Prop :=
  cfg.dumpFile ≠ [] ∧ host.elf.Fits cfg.dumpFile m ∧ ¬ host.elf.Dumps cfg.dumpFile m

/-- The memory `DumpTest` finds: the lines of the signature have been read. -/
def afterSignature (cfg : TestConfig) (host : TestHost) (m : Memory) : Memory :=
  Effect.final ((writeTestSignature cfg host).run m)

/-- Something fails after `Go`. -/
def FailsLater (cfg : TestConfig) (host : TestHost) (m : Memory) : Prop :=
  cfg.SignatureFails host m ∨
    cfg.SignatureDone host m ∧ DumpFails cfg host (afterSignature cfg host m)

theorem afterGo_status (cfg : TestConfig) (host : TestHost) (m : Memory) :
    (∃ status, endingStatus ((afterGo cfg host).run m) = some status ∧ status ≠ 0) ↔
      FailsLater cfg host m := by
  rw [FailsLater, afterSignature, afterGo, EStateM.run_bind]
  rcases writeTestSignature_cases cfg host m with ⟨hdone, hfails, text, m', hrun⟩ |
    ⟨hfails, text, m', hrun⟩ | ⟨hdone, hfails, hrun⟩
  · rw [hrun, Effect.final_ok, DumpFails]
    dsimp only
    by_cases hdump : cfg.dumpFile = []
    · rw [if_neg (fun h => h.2 hdump)]
      refine iff_of_false ?_ ?_
      · rintro ⟨status, hstatus, hne⟩
        cases hstatus
        exact hne rfl
      · rintro (h | ⟨-, h, -⟩)
        · exact hfails h
        · exact h hdump
    · rw [if_pos ⟨rfl, hdump⟩, dumpTest]
      rcases host.elf.save_status cfg.dumpFile m' with ⟨hfits, status, hstatus, hiff⟩ | ⟨hfits, hnone⟩
      · rw [hstatus]
        constructor
        · rintro ⟨status', heq, hne⟩
          cases heq
          exact .inr ⟨hdone, hdump, hfits, fun h => hne (hiff.mpr h)⟩
        · rintro (h | ⟨-, -, -, h⟩)
          · exact absurd h hfails
          · exact ⟨status, rfl, fun h0 => h (hiff.mp h0)⟩
      · rw [hnone]
        refine iff_of_false ?_ ?_
        · rintro ⟨status, h, -⟩
          cases h
        · rintro (h | ⟨-, -, h, -⟩)
          · exact hfails h
          · exact hfits h
  · rw [hrun]
    exact iff_of_true ⟨255, rfl, by decide⟩ (.inl hfails)
  · rw [hrun]
    refine iff_of_false ?_ ?_
    · rintro ⟨status, h, -⟩
      cases h
    · rintro (h | ⟨h, -⟩)
      · exact hfails h
      · exact hdone h

/-- The process ends with a status other than 0. -/
def FailureReported (cfg : TestConfig) (host : TestHost) (n : Nat) : Prop :=
  ∃ status, processStatus cfg host n = some status ∧ status ≠ 0

/-- If `Go` returns, the process ends with what follows it. -/
theorem failureReported_iff_afterGo {cfg : TestConfig} {host : TestHost} {n : Nat} {rcode : Int}
    {events : List RiscvSimulator.Event} {s : RiscvSimulator}
    (hgo : (RiscvSimulator.go n).run (.init cfg.toSimConfig host.toHost) =
      .ok (some rcode, events) s) :
    FailureReported cfg host n ↔
      ∃ status, endingStatus ((afterGo cfg host).run s.memory) = some status ∧ status ≠ 0 := by
  rw [FailureReported, processStatus, runSimulation, Effect.run_tryCatch, EStateM.run_bind, hgo]
  dsimp only
  rw [map_eq_pure_bind, EStateM.run_bind, RiscvSimulator.onMemory, Effect.run_focus]
  cases (afterGo cfg host).run s.memory with
  | ok e m => exact .rfl
  | error f m =>
    cases f with
    | runtimeError what =>
      -- it is caught, and the return code is -1
      exact iff_of_true ⟨255, rfl, by decide⟩ ⟨abortStatus, rfl, by decide⟩
    | _ => exact .rfl

/-- For every configuration, every image and host, and every number of turns in which `Go` returns:
    that the process reports a failure of `Go` is the same as that something fails later as well. -/
theorem failure_reported_iff (cfg : TestConfig) (host : TestHost) (n : Nat) (rcode : Int)
    (events : List RiscvSimulator.Event) (s : RiscvSimulator)
    (hgo : (RiscvSimulator.go n).run (.init cfg.toSimConfig host.toHost) =
      .ok (some rcode, events) s) :
    (rcode ≠ 0 → FailureReported cfg host n) ↔ (rcode ≠ 0 → FailsLater cfg host s.memory) := by
  rw [failureReported_iff_afterGo hgo, afterGo_status]

/-- A host without the image. -/
def missingImage : TestHost :=
  { toHost := { Host.simple 0 [] { incoming := [] } with loadTestImage := fun m => (-1, m) } }

/-- A signature of one byte. -/
def oneByteSignature : TestConfig where
  signatureStartAddress := 0x10
  signatureEndAddress := 0x11

theorem go_missingImage (cfg : TestConfig) :
    (RiscvSimulator.go 0).run (.init cfg.toSimConfig missingImage.toHost) = .ok (some (-1), [])
      { RiscvSimulator.init cfg.toSimConfig missingImage.toHost with rcode := -1 } := rfl

theorem missing_image_reported : FailureReported oneByteSignature missingImage 0 :=
  (failure_reported_iff oneByteSignature missingImage 0 _ _ _ (go_missingImage _)).mpr
    (fun _ => .inl ⟨by decide, .inl (by decide)⟩) (by decide)

/-- Without a signature and a dump the process ends with 0. -/
theorem missing_image_lost : ¬ ∀ (cfg : TestConfig) (host : TestHost) (n : Nat) (rcode : Int)
    (events : List RiscvSimulator.Event) (s : RiscvSimulator),
    (RiscvSimulator.go n).run (.init cfg.toSimConfig host.toHost) = .ok (some rcode, events) s →
    rcode ≠ 0 → FailureReported cfg host n := by
  intro h
  obtain ⟨status, hstatus, hne⟩ := h {} missingImage 0 _ _ _ (go_missingImage {}) (by decide)
  have hzero : processStatus {} missingImage 0 = some 0 := rfl
  rw [hzero] at hstatus
  cases hstatus
  exact hne rfl

end Dimebox
