import Dimebox.PhysicalBytes

/-! The block store refines the flat byte map.

    Both implementations of `PhysicalMemory` run the same sequence of calls. They agree on every
    return code, on which addresses are defined and on every byte ever written; the values of the
    other bytes are random in one and `MEM_UNDEF_VAL` in the other, and in both they stay what they
    were when first read. -/

namespace Dimebox

open PhysicalMemory (span)

/-- A call of `PhysicalMemory::Write` or `PhysicalMemory::Read`. -/
inductive StoreOp where
  | write (address : U64) (buffer : List Byte) (initialValues : Bool)
  | read (address : U64) (numberOfBytes : Nat) (initIfFree : Bool)

namespace StoreOp

def size : StoreOp → Nat
  | .write _ buffer _ => buffer.length
  | .read _ n _ => n

/-- The sizes the store accepts. -/
def Valid (op : StoreOp) : Prop := 1 ≤ op.size ∧ op.size ≤ 32

instance (op : StoreOp) : Decidable op.Valid := inferInstanceAs (Decidable (_ ∧ _))

/-- The addresses the call writes. -/
def written : StoreOp → List U64
  | .write a buffer _ => span a buffer.length
  | .read _ _ _ => []

/-- The call on the block store: its return code and the bytes it put into the buffer. -/
def onBlocks : StoreOp → EStateM Fault PhysicalMemory (Int × List Byte)
  | .write a buffer iv => do return (← PhysicalMemory.write a buffer buffer.length iv, [])
  | .read a n init => PhysicalMemory.read a init n

/-- The call on the flat map. -/
def onFlat (f : FlatMemory) : StoreOp → (Int × List Byte) × FlatMemory
  | .write a buffer _ => ((0, []), f.write a buffer)
  | .read a n init => let r := f.read a init n; ((r.1, r.2.1), r.2.2)

/-- The call on a total map from addresses to bytes: the bytes read, and the map after it. -/
def onMap (c : U64 → Byte) : StoreOp → List Byte × (U64 → Byte)
  | .write a buffer _ => ([], Cells.after c (Cells.writes (span a buffer.length) buffer))
  | .read a n _ => ((span a n).map c, c)

/-- The call and the bytes it returned, as accesses to cells. -/
def accesses : StoreOp → List Byte → List (Cells.Access U64 Byte)
  | .write a buffer _, _ => Cells.writes (span a buffer.length) buffer
  | .read a n _, bytes => Cells.reads (span a n) bytes

end StoreOp

/-- A sequence of calls on the block store. -/
def blockRun : List StoreOp → EStateM Fault PhysicalMemory (List (Int × List Byte))
  | [] => return []
  | op :: ops => do
    let r ← op.onBlocks
    let rs ← blockRun ops
    return r :: rs

/-- A sequence of calls on the flat map. -/
def flatRun (f : FlatMemory) : List StoreOp → List (Int × List Byte) × FlatMemory
  | [] => ([], f)
  | op :: ops =>
    let r := op.onFlat f
    let rs := flatRun r.2 ops
    (r.1 :: rs.1, rs.2)

/-- What the calls read from a total map that starts as `c`. -/
def mapRun (c : U64 → Byte) : List StoreOp → List (List Byte)
  | [] => []
  | op :: ops => (op.onMap c).1 :: mapRun (op.onMap c).2 ops

/-- The addresses a sequence of calls writes. -/
def written (ops : List StoreOp) : List U64 := ops.flatMap StoreOp.written

/-! ### The flat map byte by byte -/

namespace FlatMemory

/-- The flat map as a total map. -/
def contents (f : FlatMemory) (a : U64) : Byte := (f.bytes.lookup a).getD memUndefVal

/-- The map after a read of one byte. -/
def pullByte (f : FlatMemory) (a : U64) (init : Bool) : FlatMemory :=
  if (f.bytes.lookup a).isNone && init then { bytes := f.bytes.insert a memUndefVal } else f

theorem contents_insert (f : FlatMemory) (a : U64) (v : Byte) :
    contents { bytes := f.bytes.insert a v } = Function.update f.contents a v := by
  funext b
  by_cases hb : b = a
  · subst hb; simp [contents]
  · simp [contents, hb, AList.lookup_insert_ne hb]

theorem contents_pullByte (f : FlatMemory) (a : U64) (init : Bool) :
    (f.pullByte a init).contents = f.contents := by
  rw [pullByte]
  split
  · next h =>
    rw [contents_insert]
    refine Function.update_eq_iff.mpr ⟨?_, fun _ _ => rfl⟩
    rw [Bool.and_eq_true, Option.isNone_iff_eq_none] at h
    rw [contents, h.1, Option.getD_none]
  · rfl

theorem contents_write (buf : List Byte) (f : FlatMemory) (a : U64) :
    (f.write a buf).contents = Cells.after f.contents (Cells.writes (span a buf.length) buf) := by
  induction buf generalizing f a with
  | nil => rfl
  | cons v buf ih =>
    rw [write, ih, contents_insert]
    rfl

theorem contents_readLoop (init : Bool) (n : Nat) (f : FlatMemory) (a : U64) :
    (f.readLoop a init n).1 = (span a n).map f.contents ∧
      (f.readLoop a init n).2.2.contents = f.contents := by
  induction n generalizing f a with
  | zero => exact ⟨rfl, rfl⟩
  | succ n ih =>
    have ih := ih (f.pullByte a init) (a + 1)
    rw [contents_pullByte] at ih
    exact ⟨congrArg (f.contents a :: ·) ih.1, ih.2⟩

end FlatMemory

theorem StoreOp.onFlat_eq_onMap (f : FlatMemory) (op : StoreOp) :
    (op.onFlat f).1.2 = (op.onMap f.contents).1 ∧
      (op.onFlat f).2.contents = (op.onMap f.contents).2 := by
  cases op with
  | write a buf iv => exact ⟨rfl, FlatMemory.contents_write buf f a⟩
  | read a n init => exact FlatMemory.contents_readLoop init n f a

/-- The flat store reads as a total map. -/
theorem flatRun_reads (ops : List StoreOp) (f : FlatMemory) :
    (flatRun f ops).1.map Prod.snd = mapRun f.contents ops := by
  induction ops generalizing f with
  | nil => rfl
  | cons op ops ih =>
    obtain ⟨hread, hmap⟩ := op.onFlat_eq_onMap f
    rw [flatRun, mapRun, List.map_cons, ih, hread, hmap]

/-! ### The simulation -/

/-- The two stores agree on what is defined, and on the bytes in `W`. -/
structure Agree (W : List U64) (m : PhysicalMemory) (f : FlatMemory) : Prop where
  isDefined : ∀ a, m.isDefined a = (f.bytes.lookup a).isSome
  value : ∀ a ∈ W, ∃ v, m.seen a = some v ∧ f.bytes.lookup a = some v

theorem Agree.putByte {W : List U64} {m : PhysicalMemory} {f : FlatMemory} (h : Agree W m f)
    (a : U64) (v : Byte) (iv : Bool) :
    Agree (a :: W) (m.putByte a v iv) { bytes := f.bytes.insert a v } := by
  constructor
  · intro b
    rw [PhysicalMemory.isDefined_putByte, h.isDefined]
    by_cases hb : b = a
    · subst hb; simp
    · simp [hb, AList.lookup_insert_ne hb]
  · intro b hb
    by_cases hba : b = a
    · exact ⟨v, by rw [PhysicalMemory.seen_putByte, if_pos hba], by rw [hba, AList.lookup_insert]⟩
    · obtain ⟨w, hm, hf⟩ := h.value b ((List.mem_cons.mp hb).resolve_left hba)
      refine ⟨w, ?_, by rw [AList.lookup_insert_ne hba, hf]⟩
      rw [PhysicalMemory.seen_putByte, if_neg hba]
      exact PhysicalMemory.seen_touch_grows m a b w hm

theorem Agree.pullByte {W : List U64} {m : PhysicalMemory} {f : FlatMemory} (h : Agree W m f)
    (a : U64) (init : Bool) : Agree W (m.pullByte a init) (f.pullByte a init) := by
  constructor
  · intro b
    rw [PhysicalMemory.isDefined_pullByte, h.isDefined, FlatMemory.pullByte]
    by_cases hb : b = a
    · subst hb
      cases hl : f.bytes.lookup b <;> cases init <;> simp [hl]
    · split <;> simp [hb, AList.lookup_insert_ne hb]
  · intro b hb
    obtain ⟨w, hm, hf⟩ := h.value b hb
    refine ⟨w, ?_, ?_⟩
    · cases PhysicalMemory.step_pullByte m a init with
      | read grow _ => exact grow b w hm
    · rw [FlatMemory.pullByte]
      split
      · next hfree =>
        have hba : b ≠ a := by
          rintro rfl
          simp [hf] at hfree
        rw [AList.lookup_insert_ne hba, hf]
      · exact hf

theorem Agree.putBytes (iv : Bool) (buf : List Byte) {W : List U64} {m : PhysicalMemory}
    {f : FlatMemory} (a : U64) (h : Agree W m f) :
    Agree (W ++ span a buf.length) (m.putBytes a iv buf) (f.write a buf) := by
  induction buf generalizing W m f a with
  | nil =>
    rw [List.length_nil, PhysicalMemory.span, List.append_nil]
    exact h
  | cons v buf ih =>
    have ih := ih (a + 1) (h.putByte a v iv)
    refine ⟨ih.isDefined, fun b hb => ih.value b ?_⟩
    simp only [List.length_cons, PhysicalMemory.span, List.mem_append, List.mem_cons] at hb ⊢
    tauto

theorem Agree.pullBytes (init : Bool) (n : Nat) {W : List U64} {m : PhysicalMemory}
    {f : FlatMemory} (a : U64) (h : Agree W m f) :
    Agree W (m.pullBytes a init n).2.2 (f.readLoop a init n).2.2 ∧
      (m.pullBytes a init n).2.1 = (f.readLoop a init n).2.1 := by
  induction n generalizing m f a with
  | zero => exact ⟨h, rfl⟩
  | succ n ih =>
    obtain ⟨ih, hcount⟩ := ih (a + 1) (h.pullByte a init)
    refine ⟨ih, ?_⟩
    have hnone : (!m.isDefined a) = (f.bytes.lookup a).isNone := by
      rw [h.isDefined, Option.not_isSome]
    simp only [PhysicalMemory.pullBytes, FlatMemory.readLoop]
    rw [hcount, hnone]
    rfl

/-- One call on both stores: the block store does not fail, the codes agree, the stores agree
    afterwards, and the bytes are those of an access to cells. -/
theorem StoreOp.onBlocks_spec {W : List U64} {m : PhysicalMemory} {f : FlatMemory} {op : StoreOp}
    (hop : op.Valid) (h : Agree W m f) :
    ∃ r m', op.onBlocks.run m = .ok r m' ∧ r.1 = (op.onFlat f).1.1 ∧
      Agree (W ++ op.written) m' (op.onFlat f).2 ∧
      Cells.Run m.seen (op.accesses r.2) m'.seen ∧
      ∀ c, Cells.Explains c (op.accesses r.2) → r.2 = (op.onMap c).1 := by
  cases op with
  | write a buf iv =>
    obtain ⟨hpos, hle⟩ : 0 < buf.length ∧ buf.length ≤ 32 := hop
    refine ⟨(0, []), m.putBytes a iv buf, ?_, rfl, Agree.putBytes iv buf a h,
      PhysicalMemory.run_putBytes iv buf m a, fun _ _ => rfl⟩
    simp only [StoreOp.onBlocks, EStateM.run_bind,
      PhysicalMemory.write_run hpos hle (Nat.le_refl _), List.take_length]
    rfl
  | read a n init =>
    obtain ⟨hpos, hle⟩ : 0 < n ∧ n ≤ 32 := hop
    obtain ⟨hagree, hcount⟩ := Agree.pullBytes init n a h
    refine ⟨_, _, PhysicalMemory.read_run hpos hle a init m, ?_, ?_,
      PhysicalMemory.run_pullBytes init n m a, ?_⟩
    · exact congrArg (definedCode · n) hcount
    · rw [StoreOp.written, List.append_nil]
      exact hagree
    · intro c hc
      exact (Cells.explains_reads c _ _ (by simp)).mp hc

/-- A sequence of calls on both stores. -/
theorem blockRun_spec (ops : List StoreOp) {W : List U64} {m : PhysicalMemory} {f : FlatMemory}
    (hops : ∀ op ∈ ops, op.Valid) (h : Agree W m f) :
    ∃ rs m', (blockRun ops).run m = .ok rs m' ∧
      rs.map Prod.fst = (flatRun f ops).1.map Prod.fst ∧
      Agree (W ++ written ops) m' (flatRun f ops).2 ∧
      ∃ l, Cells.Run m.seen l m'.seen ∧
        ∀ c, Cells.Explains c l → rs.map Prod.snd = mapRun c ops := by
  induction ops generalizing W m f with
  | nil =>
    rw [written, List.flatMap_nil, List.append_nil]
    exact ⟨[], m, rfl, rfl, h, [], .nil (.refl _), fun _ _ => rfl⟩
  | cons op ops ih =>
    obtain ⟨r, m₁, hrun, hcode, hagree, hcells, hread⟩ :=
      StoreOp.onBlocks_spec (hops op (List.mem_cons_self ..)) h
    obtain ⟨rs, m₂, hrun', hcodes, hagree', l, hcells', hreads⟩ :=
      ih (fun op' h' => hops op' (List.mem_cons_of_mem _ h')) hagree
    refine ⟨r :: rs, m₂, ?_, ?_, ?_, op.accesses r.2 ++ l, hcells.append hcells', ?_⟩
    · simp only [blockRun, EStateM.run_bind, hrun, hrun', EStateM.run_pure]
    · simp only [flatRun, List.map_cons, hcode, hcodes]
    · rw [List.append_assoc] at hagree'
      exact hagree'
    · intro c hc
      rw [Cells.explains_append] at hc
      have hmap : Cells.after c (op.accesses r.2) = (op.onMap c).2 := by
        cases op with
        | write a buf iv => rfl
        | read a n init => exact Cells.after_reads c _ _
      rw [hmap] at hc
      rw [List.map_cons, mapRun, hread c hc.1, hreads _ hc.2]

theorem agree_empty (o : Oracle) : Agree [] { oracle := o } {} := by
  refine ⟨fun a => ?_, fun a ha => absurd ha List.not_mem_nil⟩
  simp [PhysicalMemory.isDefined, PhysicalMemory.blockAt, MemBlock.isDefined]

/-- Whatever the calls, the random bytes and the fresh storage: the block store fails on none of
    them, returns the codes of the flat map, defines the same addresses and holds the same value in
    every byte ever written; and there are initial bytes, fixed for the whole run, such that every
    read returns the byte last written or else the initial one. The flat map does the same with
    `MEM_UNDEF_VAL` for the initial bytes. -/
theorem block_store_refines_flat_map (o : Oracle) (ops : List StoreOp)
    (hops : ∀ op ∈ ops, op.Valid) :
    ∃ rs m, (blockRun ops).run { oracle := o } = .ok rs m ∧
      rs.map Prod.fst = (flatRun {} ops).1.map Prod.fst ∧
      (∀ a, m.isDefined a = ((flatRun {} ops).2.bytes.lookup a).isSome) ∧
      (∀ a ∈ written ops, ∃ v,
        m.seen a = some v ∧ (flatRun {} ops).2.bytes.lookup a = some v) ∧
      (∃ initial : U64 → Byte, rs.map Prod.snd = mapRun initial ops) ∧
      (flatRun {} ops).1.map Prod.snd = mapRun (fun _ => FlatMemory.memUndefVal) ops := by
  obtain ⟨rs, m, hrun, hcodes, hagree, l, hcells, hreads⟩ :=
    blockRun_spec ops hops (agree_empty o)
  refine ⟨rs, m, hrun, hcodes, hagree.isDefined, fun a ha => hagree.value a (by simpa using ha), ?_, ?_⟩
  · -- what is still open at the end of the run can be anything
    have hres : Cells.Resolves (fun a => (m.seen a).getD 0) m.seen := by
      intro a v hv
      simp [hv]
    obtain ⟨initial, -, hexp, -⟩ := Cells.exists_initial hcells hres
    exact ⟨initial, hreads initial hexp⟩
  · rw [flatRun_reads]
    rfl

/-- A write over a block boundary, a read around it and a read of two free bytes. -/
theorem block_store_refines_flat_map_across_blocks :
    let ops : List StoreOp :=
      [.write 0x1e [1, 2, 3, 4] false, .read 0x1c 8 true, .read 0x3f 2 false]
    (∀ op ∈ ops, op.Valid) ∧
      ∃ rs m, (blockRun ops).run { oracle := { rand := fun _ => 7, heap := fun _ => 9 } }
        = .ok rs m ∧ rs.map Prod.fst = [allBytesDefined, someBytesUndefined, allBytesFree] := by
  intro ops
  have hops : ∀ op ∈ ops, op.Valid := by decide
  obtain ⟨rs, m, hrun, hcodes, -⟩ :=
    block_store_refines_flat_map { rand := fun _ => 7, heap := fun _ => 9 } ops hops
  exact ⟨hops, rs, m, hrun, hcodes.trans (by decide)⟩

end Dimebox
