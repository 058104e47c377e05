import Dimebox.Elfio
import Dimebox.PhysicalAccess

/-! What loading an ELF file does to memory.

    A section goes to memory in full blocks and a shorter rest; together they are one run of byte
    writes, so a section replaces the bytes it covers and later sections win (`putSection`,
    `loadSections_run`). `Load` visits as many sections as `e_shnum` of the header counts, which is
    0 for a file with 0xff00 sections or more, and keeps the size of a section in an `int`: from
    2^31 bytes on a section looks empty and is passed. Memory is right exactly if what is left out
    that way is not missed (`load_exact_iff`). -/

namespace Dimebox

/-- Memory without a block or a device. -/
def Memory.empty (oracle : Oracle) : Memory := { physMem := { oracle } }

namespace PhysicalMemory

/-! ### Replacing bytes -/

/-- `p'` is `p` with the bytes `f` says: these are defined and have their values, the others are
    as they were. -/
structure Patched (f : U64 → Option Byte) (p p' : PhysicalMemory) : Prop where
  covered : ∀ b v, f b = some v → p'.isDefined b = true ∧ p'.seen b = some v
  other : ∀ b, f b = none →
    p'.isDefined b = p.isDefined b ∧ ∀ v, p.seen b = some v → p'.seen b = some v

theorem Patched.refl (p : PhysicalMemory) : Patched (fun _ => none) p p :=
  ⟨fun _ _ h => (Option.some_ne_none _ h.symm).elim, fun _ _ => ⟨rfl, fun _ h => h⟩⟩

/-- The later replacement wins. -/
theorem Patched.trans {f g : U64 → Option Byte} {p p₁ p' : PhysicalMemory} (h : Patched f p p₁)
    (h' : Patched g p₁ p') : Patched (fun b => (g b).or (f b)) p p' := by
  constructor
  · intro b v hb
    rcases Option.or_eq_some_iff.mp hb with hg | ⟨hg, hf⟩
    · exact h'.covered b v hg
    · obtain ⟨hdef, hseen⟩ := h.covered b v hf
      obtain ⟨hdef', hseen'⟩ := h'.other b hg
      exact ⟨hdef'.trans hdef, hseen' v hseen⟩
  · intro b hb
    obtain ⟨hg, hf⟩ := Option.or_eq_none_iff.mp hb
    obtain ⟨hdef, hseen⟩ := h.other b hf
    obtain ⟨hdef', hseen'⟩ := h'.other b hg
    exact ⟨hdef'.trans hdef, fun v hv => hseen' v (hseen v hv)⟩

/-- The byte a buffer that starts at `a` has for address `b`. -/
def bytesAt (a : U64) (buf : List Byte) (b : U64) : Option Byte :=
  if a.toNat ≤ b.toNat then buf[b.toNat - a.toNat]? else none

theorem bytesAt_nil (a b : U64) : bytesAt a [] b = none := by simp [bytesAt]

theorem bytesAt_append {a : U64} (xs ys : List Byte) (h : a.toNat + xs.length < 2 ^ 64) (b : U64) :
    bytesAt a (xs ++ ys) b = (bytesAt (a + BitVec.ofNat 64 xs.length) ys b).or (bytesAt a xs b) := by
  have ha : (a + BitVec.ofNat 64 xs.length).toNat = a.toNat + xs.length := by
    rw [BitVec.toNat_add, BitVec.toNat_ofNat]
    omega
  rw [bytesAt, bytesAt, bytesAt, ha]
  by_cases hlo : a.toNat ≤ b.toNat
  · rw [if_pos hlo, if_pos hlo]
    by_cases hhi : a.toNat + xs.length ≤ b.toNat
    · have hle : xs.length ≤ b.toNat - a.toNat := by omega
      have hsub : b.toNat - a.toNat - xs.length = b.toNat - (a.toNat + xs.length) := by omega
      rw [if_pos hhi, List.getElem?_append_right hle, List.getElem?_eq_none hle, hsub, Option.or_none]
    · rw [if_neg hhi, List.getElem?_append_left (by omega), Option.none_or]
  · rw [if_neg hlo, if_neg hlo, if_neg (by omega)]
    rfl

theorem bytesAt_singleton (a : U64) (v : Byte) (b : U64) :
    bytesAt a [v] b = if b = a then some v else none := by
  rw [bytesAt]
  by_cases hb : b = a
  · simp [hb]
  · have hne : b.toNat ≠ a.toNat := fun h => hb (BitVec.eq_of_toNat_eq h)
    rw [if_neg hb]
    split
    · exact List.getElem?_eq_none (by simp only [List.length_singleton]; omega)
    · rfl

theorem bytesAt_cons {a : U64} (v : Byte) (buf : List Byte) (h : a.toNat + 1 < 2 ^ 64) (b : U64) :
    bytesAt a (v :: buf) b = (bytesAt (a + 1) buf b).or (if b = a then some v else none) := by
  rw [← bytesAt_singleton]
  exact bytesAt_append [v] buf (by simp only [List.length_singleton]; omega) b

/-- A buffer in two parts, the second right behind the first. -/
theorem Patched.append {a : U64} {xs ys : List Byte} {p p₁ p' : PhysicalMemory}
    (h : Patched (bytesAt a xs) p p₁)
    (h' : Patched (bytesAt (a + BitVec.ofNat 64 xs.length) ys) p₁ p')
    (hlen : a.toNat + xs.length < 2 ^ 64) : Patched (bytesAt a (xs ++ ys)) p p' := by
  have hboth : bytesAt a (xs ++ ys) = fun b =>
      (bytesAt (a + BitVec.ofNat 64 xs.length) ys b).or (bytesAt a xs b) :=
    funext fun b => bytesAt_append xs ys hlen b
  rw [hboth]
  exact h.trans h'

theorem patched_putByte (p : PhysicalMemory) (a : U64) (v : Byte) (iv : Bool) :
    Patched (fun b => if b = a then some v else none) p (p.putByte a v iv) := by
  constructor
  · intro b w hb
    split at hb
    · next heq =>
      obtain rfl := Option.some.inj hb
      rw [heq, isDefined_putByte, seen_putByte]
      simp
    · cases hb
  · intro b hb
    split at hb
    · cases hb
    · next hne =>
      rw [isDefined_putByte, seen_putByte, if_neg hne]
      exact ⟨by simp [hne], fun w hw => seen_touch_grows p a b w hw⟩

theorem seen_of_isDefined {p : PhysicalMemory} {b : U64} (h : p.isDefined b = true) :
    ∃ v, p.seen b = some v := by
  rw [isDefined, MemBlock.isDefined, Bool.and_eq_true, Bool.not_eq_true'] at h
  obtain ⟨mem, hmem⟩ := Option.isSome_iff_exists.mp h.1
  exact ⟨_, by rw [seen, MemBlock.seen, hmem, Option.bind_some, h.2]; rfl⟩

/-- A run of byte writes replaces the bytes it covers. -/
theorem patched_putBytes (iv : Bool) (buf : List Byte) (p : PhysicalMemory) (a : U64)
    (h : a.toNat + buf.length < 2 ^ 64) : Patched (bytesAt a buf) p (p.putBytes a iv buf) := by
  induction buf generalizing p a with
  | nil =>
    have hnil : bytesAt a [] = fun _ => none := funext fun b => bytesAt_nil a b
    rw [hnil]
    exact Patched.refl p
  | cons v buf ih =>
    rw [List.length_cons] at h
    have hsucc : (a + 1).toNat = a.toNat + 1 := by rw [MemBlock.toNat_succ, Nat.mod_eq_of_lt (by omega)]
    have hsplit : bytesAt a (v :: buf) = fun b =>
        (bytesAt (a + 1) buf b).or (if b = a then some v else none) :=
      funext fun b => bytesAt_cons v buf (by omega) b
    rw [hsplit]
    exact (patched_putByte p a v iv).trans (ih _ (a + 1) (by rw [hsucc]; omega))

end PhysicalMemory

namespace ElfSection

open PhysicalMemory (bytesAt)

/-! ### Sections -/

/-- The bytes libelf has of a section. -/
def bytes (s : ElfSection) : List Byte := s.chunks.flatten

/-- The byte a section has for an address. -/
def byteAt (s : ElfSection) (b : U64) : Option Byte := bytesAt s.address s.bytes b

/-- What the last section that covers an address has for it. -/
def lastByte : List ElfSection → U64 → Option Byte
  | [], _ => none
  | s :: ss, b => (lastByte ss b).or (s.byteAt b)

/-- `Load` takes the section for contents of memory. -/
def isContents (s : ElfSection) : Bool := !s.isSkipped && s.isData

/-- Contents whose size fits in an `int`. -/
def taken (s : ElfSection) : Bool := s.isContents && decide (s.size < 2 ^ 31)

theorem not_contents (s : ElfSection) (c : Bool) :
    (s.isSkipped || !s.isData || c) = (!s.isContents || c) := by
  rw [isContents]
  cases s.isSkipped <;> cases s.isData <;> rfl

theorem lastByte_append (b : U64) (xs ys : List ElfSection) :
    lastByte (xs ++ ys) b = (lastByte ys b).or (lastByte xs b) := by
  induction xs with
  | nil => exact Option.or_none.symm
  | cons s xs ih => rw [List.cons_append, lastByte, ih, lastByte, Option.or_assoc]

theorem lastByte_eq_none_iff {b : U64} {ss : List ElfSection} :
    lastByte ss b = none ↔ ∀ s ∈ ss, s.byteAt b = none := by
  induction ss with
  | nil => simp [lastByte]
  | cons s ss ih => rw [lastByte, Option.or_eq_none_iff, ih, List.forall_mem_cons, and_comm]

/-- Program bits or an initialisation array, not a skipped name, at least a byte, inside the 32-bit
    space; libelf delivers as many bytes as the header says. -/
structure Loadable (s : ElfSection) : Prop where
  kind : s.shType = shtProgbits ∨ s.shType = shtInitArray ∨ s.shType = shtFiniArray
  name : s.isSkipped = false
  nonempty : 1 ≤ s.size
  bound : s.address.toNat + s.size ≤ 2 ^ 32
  delivered : s.bytes.length = s.size

theorem Loadable.isContents {s : ElfSection} (h : s.Loadable) : s.isContents = true := by
  rw [ElfSection.isContents, h.name]
  rcases h.kind with hk | hk | hk <;> simp [isData, hk]

theorem toInt_of_lt {n : Nat} (h : n < 2 ^ 31) : toInt n = n := by
  rw [toInt, BitVec.toInt_ofInt, Int.bmod_eq_emod]
  split <;> omega

theorem toInt_nonpos {n : Nat} (h : 2 ^ 31 ≤ n) (h' : n ≤ 2 ^ 32) : toInt n ≤ 0 := by
  rw [toInt, BitVec.toInt_ofInt, Int.bmod_eq_emod]
  split <;> omega

theorem toInt_add (a b : Int) : toInt (toInt a + b) = toInt (a + b) := by
  simp only [toInt, BitVec.toInt_ofInt]
  exact Int.bmod_add_bmod

/-- The read loop takes all chunks, or stops where the count it keeps is no longer below the size. -/
theorem readChunks_cases (size : Nat) (cs : List (List Byte)) (buf : List Byte) :
    readChunks size cs (toInt buf.length) buf
        = (toInt (buf ++ cs.flatten).length, buf ++ cs.flatten) ∨
      ∃ n : Nat, n ≤ (buf ++ cs.flatten).length ∧ size ≤ (BitVec.ofInt 64 (toInt n)).toNat ∧
        readChunks size cs (toInt buf.length) buf = (toInt n, (buf ++ cs.flatten).take n) := by
  induction cs generalizing buf with
  | nil => simp [readChunks]
  | cons c cs ih =>
    by_cases hlt : (BitVec.ofInt 64 (toInt buf.length)).toNat < size
    · have hlen : toInt (toInt buf.length + c.length) = toInt (buf ++ c).length := by
        rw [toInt_add, List.length_append, Int.natCast_add]
      have happ : buf ++ (c :: cs).flatten = (buf ++ c) ++ cs.flatten := by simp
      rw [readChunks, if_pos hlt, hlen, happ]
      exact ih (buf ++ c)
    · rw [readChunks, if_neg hlt]
      exact .inr ⟨buf.length, by simp, Nat.le_of_not_lt hlt, by simp⟩

/-- A section of less than 2^31 bytes is read. -/
theorem read_of_lt {s : ElfSection} (h : s.Loadable) (hlt : s.size < 2 ^ 31) :
    s.sizeInBytes = s.size ∧ s.sectionData = s.bytes := by
  have hlen : (s.chunks.flatten).length = s.size := h.delivered
  rw [sizeInBytes, sectionData, bytes]
  rcases readChunks_cases s.size s.chunks [] with hall | ⟨n, hn, hsize, hpart⟩
  · have hread : readChunks s.size s.chunks 0 [] = (toInt s.chunks.flatten.length, s.chunks.flatten) :=
      hall
    rw [hread]
    exact ⟨by rw [hlen, toInt_of_lt hlt], rfl⟩
  · -- the loop can only stop early behind the last byte
    rw [List.nil_append, hlen] at hn
    have hn64 : (BitVec.ofInt 64 (toInt n)).toNat = n := by
      rw [toInt_of_lt (by omega), BitVec.toNat_ofInt]
      omega
    rw [hn64] at hsize
    obtain rfl : n = s.size := by omega
    have hread : readChunks s.size s.chunks 0 [] =
        (toInt s.size, s.chunks.flatten.take s.size) := hpart
    rw [hread]
    exact ⟨toInt_of_lt hlt, List.take_of_length_le (Nat.le_of_eq hlen)⟩

theorem sizeInBytes_of_nil {s : ElfSection} (h : s.chunks = []) : s.sizeInBytes = 0 := by
  rw [sizeInBytes, h, readChunks]

/-- A larger one looks empty. -/
theorem sizeInBytes_of_ge {s : ElfSection} (h : s.Loadable) (hge : 2 ^ 31 ≤ s.size) :
    s.sizeInBytes ≤ 0 := by
  have hlen : (s.chunks.flatten).length = s.size := h.delivered
  have hbound := h.bound
  rw [sizeInBytes]
  rcases readChunks_cases s.size s.chunks [] with hall | ⟨n, hn, hsize, hpart⟩
  · have hread : readChunks s.size s.chunks 0 [] = (toInt s.chunks.flatten.length, s.chunks.flatten) :=
      hall
    rw [hread, hlen]
    exact toInt_nonpos hge (by omega)
  · rw [List.nil_append, hlen] at hn
    have hbig : 2 ^ 31 ≤ n := by
      by_contra hsmall
      rw [toInt_of_lt (by omega), BitVec.toNat_ofInt] at hsize
      omega
    have hread : readChunks s.size s.chunks 0 [] = (toInt n, s.chunks.flatten.take n) := hpart
    rw [hread]
    exact toInt_nonpos hbig (by omega)

end ElfSection

namespace Elfio

open ElfSection (lastByte taken)
open PhysicalMemory (Patched bytesAt)

/-- No byte of the section is in a device window. -/
def NoDevice (m : Memory) (s : ElfSection) : Prop := ∀ b, (s.byteAt b).isSome → m.deviceAt b = none

/-! ### One section -/

section Section

variable {m : Memory} {a : U64} {data : List Byte}

/-- The addresses from `a` on, `n` of them, are RAM. -/
def RamAt (m : Memory) (a : U64) (n : Nat) : Prop :=
  ∀ b : U64, a.toNat ≤ b.toNat → b.toNat < a.toNat + n → m.deviceAt b = none

theorem toNat_add_ofNat {k : Nat} (h : a.toNat + k < 2 ^ 64) :
    (a + BitVec.ofNat 64 k).toNat = a.toNat + k := by
  rw [BitVec.toNat_add, BitVec.toNat_ofNat]
  omega

theorem add_ofNat_add (a : U64) (k n : Nat) :
    a + BitVec.ofNat 64 k + BitVec.ofNat 64 n = a + BitVec.ofNat 64 (k + n) := by
  rw [BitVec.add_assoc, ← BitVec.ofNat_add]

/-- A block in front of the others. -/
theorem take_blocks_succ (data : List Byte) (off n : Nat) : (data.drop off).take (32 * (n + 1)) =
    (data.drop off).take 32 ++ (data.drop (off + 32)).take (32 * n) := by
  rw [Nat.mul_succ, Nat.add_comm, List.take_add, List.drop_drop]

/-- A piece of a section. -/
theorem tryWrite_run (hm : m.DefaultRange) {off n : Nat} (hn : 0 < n) (hn' : n ≤ 32)
    (hlen : off + n ≤ data.length) (hbound : a.toNat + data.length ≤ 2 ^ 32)
    (hram : RamAt m a data.length) (iv : Bool) :
    (tryWrite (a + BitVec.ofNat 64 off) n (data.drop off) iv).run m = .ok true { m with
      physMem := m.physMem.putBytes (a + BitVec.ofNat 64 off) iv ((data.drop off).take n) } := by
  have haddr : (a + BitVec.ofNat 64 off).toNat = a.toNat + off := toNat_add_ofNat (by omega)
  have hlow : Memory.low32 (a + BitVec.ofNat 64 off) = a + BitVec.ofNat 64 off :=
    Memory.low32_of_lt (by omega)
  have hdev : m.deviceAt (Memory.low32 (a + BitVec.ofNat 64 off)) = none := by
    rw [hlow]
    exact hram _ (by omega) (by omega)
  have hbuf : n ≤ (data.drop off).length := by rw [List.length_drop]; omega
  have hrun := Memory.writePhysicalMemory_run hm hdev hn hn' hbuf iv
  rw [tryWrite, Effect.run_tryCatch, EStateM.run_bind, hrun, hlow]
  rfl

/-- The full blocks of a section. -/
theorem loadBlocks_run (hm : m.DefaultRange) (hbound : a.toNat + data.length ≤ 2 ^ 32)
    (hram : RamAt m a data.length) {n off : Nat} (hlen : off + 32 * n ≤ data.length) :
    (loadBlocks a data n off).run m = .ok (0, off + 32 * n) { m with
      physMem := m.physMem.putBytes (a + BitVec.ofNat 64 off) true
        ((data.drop off).take (32 * n)) } := by
  induction n generalizing off m with
  | zero => simp [loadBlocks, PhysicalMemory.putBytes]
  | succ n ih =>
    obtain ⟨p, hp⟩ : ∃ p, p = m.physMem.putBytes (a + BitVec.ofNat 64 off) true
        ((data.drop off).take 32) := ⟨_, rfl⟩
    have hpiece : (tryWrite (a + BitVec.ofNat 64 off) 32 (data.drop off) true).run m =
        .ok true { m with physMem := p } := by
      rw [hp]
      exact tryWrite_run hm (n := 32) (by omega) (by omega) (by omega) hbound hram true
    have hend : off + 32 + 32 * n ≤ data.length := by omega
    have hrest := ih (hm.withPhysMem p) hram hend
    have hlen32 : ((data.drop off).take 32).length = 32 :=
      List.length_take_of_le (by rw [List.length_drop]; omega)
    rw [loadBlocks, EStateM.run_bind]
    rw [hpiece]
    simp only [if_true]
    rw [hrest, take_blocks_succ, PhysicalMemory.putBytes_append, hlen32, add_ofNat_add, hp,
      Nat.mul_succ, Nat.add_right_comm, Nat.add_assoc]

/-- A section in memory: its full blocks, as initial values too, and the rest. -/
def putSection (p : PhysicalMemory) (a : U64) (data : List Byte) : PhysicalMemory :=
  (p.putBytes a true (data.take (32 * (data.length / 32)))).putBytes
    (a + BitVec.ofNat 64 (32 * (data.length / 32))) false (data.drop (32 * (data.length / 32)))

theorem putSection_nil (p : PhysicalMemory) (a : U64) : putSection p a [] = p := rfl

/-- `Load` writes a section in two runs of bytes. -/
theorem loadSection_eq (hm : m.DefaultRange) (hpos : 0 < data.length)
    (hbound : a.toNat + data.length ≤ 2 ^ 32) (hram : RamAt m a data.length) :
    (loadSection a data data.length).run m =
      .ok 0 { m with physMem := putSection m.physMem a data } := by
  have hlow : Memory.low32 a = a := Memory.low32_of_lt (by omega)
  have hblocks : ((data.length : Int) / 32).toNat = data.length / 32 := by omega
  obtain ⟨k, hk⟩ : ∃ k, k = 32 * (data.length / 32) := ⟨_, rfl⟩
  obtain ⟨p₁, hp₁⟩ : ∃ p₁, p₁ = m.physMem.putBytes a true (data.take k) := ⟨_, rfl⟩
  have hrun : (loadBlocks a data (data.length / 32) 0).run m =
      .ok (0, k) { m with physMem := p₁ } := by
    have hend : 0 + 32 * (data.length / 32) ≤ data.length := by omega
    have hloop := loadBlocks_run hm hbound hram hend
    rw [hloop, hp₁, hk]
    simp
  rw [loadSection, EStateM.run_bind, EStateM.run_get]
  dsimp only
  rw [EStateM.run_bind, Memory.validate_eq hm, Effect.run_lift_ok, hlow]
  dsimp only
  rw [EStateM.run_bind, hblocks, hrun, putSection, ← hk, ← hp₁]
  dsimp only
  by_cases hextra : 0 < (data.length : Int) % 32
  · have hrest : (data.length : Int) % 32 = ((data.drop k).length : Nat) := by
      rw [List.length_drop]
      omega
    have hend : k + (data.drop k).length ≤ data.length := by rw [List.length_drop]; omega
    have hpiece := tryWrite_run (hm.withPhysMem p₁) (by omega) (by omega) hend hbound hram false
    rw [List.take_length] at hpiece
    rw [if_pos hextra, EStateM.run_bind, hrest, hpiece]
    rfl
  · have hnone : data.drop k = [] := List.drop_eq_nil_of_le (by omega)
    rw [if_neg hextra, hnone]
    rfl

/-- A section replaces the bytes it covers. -/
theorem patched_putSection (p : PhysicalMemory) (hbound : a.toNat + data.length ≤ 2 ^ 32) :
    Patched (bytesAt a data) p (putSection p a data) := by
  rw [putSection]
  obtain ⟨k, hk⟩ : ∃ k, k = 32 * (data.length / 32) := ⟨_, rfl⟩
  rw [← hk]
  have hlenk : (data.take k).length = k := List.length_take_of_le (by omega)
  have hfirst := PhysicalMemory.patched_putBytes true (data.take k) p a (by rw [hlenk]; omega)
  have hsecond := PhysicalMemory.patched_putBytes false (data.drop k) (p.putBytes a true (data.take k))
    (a + BitVec.ofNat 64 k) (by rw [toNat_add_ofNat (by omega), List.length_drop]; omega)
  have hwhole := hfirst.append (by rw [hlenk]; exact hsecond) (by rw [hlenk]; omega)
  rwa [List.take_append_drop] at hwhole

end Section

/-! ### The section list -/

/-- What is said of a section that may be loaded into `m`. One without data, such as NOBITS, may
    stand among the others. -/
def Ready (m : Memory) (s : ElfSection) : Prop :=
  s.isContents = true → (s.Loadable ∨ s.chunks = []) ∧ NoDevice m s

theorem ramAt_of_noDevice {m : Memory} {s : ElfSection} (h : NoDevice m s) :
    RamAt m s.address s.bytes.length := by
  intro b hlo hhi
  refine h b ?_
  rw [ElfSection.byteAt, bytesAt, if_pos hlo]
  rw [List.getElem?_eq_getElem (by omega), Option.isSome_some]

/-- What `Load` makes of memory with one section. -/
def loadInto (p : PhysicalMemory) (s : ElfSection) : PhysicalMemory :=
  if s.taken then putSection p s.address s.bytes else p

theorem patched_loadInto {m : Memory} {s : ElfSection} (hready : Ready m s) (p : PhysicalMemory) :
    Patched (lastByte ([s].filter taken)) p (loadInto p s) := by
  rw [loadInto]
  by_cases htake : s.taken = true
  · have hone : lastByte ([s].filter taken) = bytesAt s.address s.bytes := by
      funext b
      rw [List.filter_cons, if_pos htake]
      exact Option.none_or
    rw [if_pos htake, hone]
    rw [ElfSection.taken, Bool.and_eq_true] at htake
    rcases (hready htake.1).1 with hload | hnil
    · refine patched_putSection p ?_
      rw [hload.delivered]
      exact hload.bound
    · have hbytes : s.bytes = [] := by rw [ElfSection.bytes, hnil]; rfl
      have hnone : bytesAt s.address [] = fun _ => none :=
        funext fun b => PhysicalMemory.bytesAt_nil _ b
      rw [hbytes, putSection_nil, hnone]
      exact .refl p
  · rw [if_neg htake, List.filter_cons, if_neg htake]
    exact .refl p

/-- The sections one over the other. -/
theorem patched_foldl {m : Memory} {ss : List ElfSection} (hready : ∀ s ∈ ss, Ready m s)
    (p : PhysicalMemory) : Patched (lastByte (ss.filter taken)) p (ss.foldl loadInto p) := by
  induction ss generalizing p with
  | nil => exact .refl p
  | cons s ss ih =>
    have hsplit : lastByte ((s :: ss).filter taken) = fun b =>
        (lastByte (ss.filter taken) b).or (lastByte ([s].filter taken) b) := by
      funext b
      rw [← List.singleton_append, List.filter_append, ElfSection.lastByte_append]
    rw [hsplit]
    exact (patched_loadInto (hready s List.mem_cons_self) p).trans
      (ih (fun t ht => hready t (List.mem_cons_of_mem _ ht)) _)

theorem loadSections_passed {s : ElfSection} (hname : s.name.length < sectionNameSize)
    (hpass : ¬ (s.isContents = true ∧ 0 < s.sizeInBytes)) (n : Nat) (ss : List ElfSection)
    (count : Nat) : loadSections 0xffffffffffffffff (n + 1) (s :: ss) count =
      loadSections 0xffffffffffffffff n ss count := by
  have hskip : (s.isSkipped || !s.isData || decide (s.sizeInBytes ≤ 0)) = true := by
    rw [ElfSection.not_contents]
    by_cases hcontents : s.isContents = true
    · have hle : s.sizeInBytes ≤ 0 := Int.not_lt.mp fun h => hpass ⟨hcontents, h⟩
      simp [hle]
    · simp [hcontents]
  rw [loadSections, if_neg (Nat.not_le_of_lt hname), hskip, if_pos rfl]

/-- One section: `Load` goes on behind it, with the bytes of the section in memory if it is taken. -/
theorem loadSections_cons {m : Memory} (hm : m.DefaultRange) {s : ElfSection} (hready : Ready m s)
    (hname : s.name.length < sectionNameSize) (n : Nat) (ss : List ElfSection) (count : Nat) :
    ∃ c, (loadSections 0xffffffffffffffff (n + 1) (s :: ss) count).run m =
      (loadSections 0xffffffffffffffff n ss c).run { m with physMem := loadInto m.physMem s } := by
  by_cases htaken : s.isContents = true ∧ 0 < s.sizeInBytes
  · obtain ⟨hcontents, hpos⟩ := htaken
    obtain ⟨hload, hdev⟩ := hready hcontents
    have hload : s.Loadable := by
      rcases hload with hload | hnil
      · exact hload
      · rw [ElfSection.sizeInBytes_of_nil hnil] at hpos
        exact absurd hpos (Int.lt_irrefl 0)
    have hlt : s.size < 2 ^ 31 := by
      by_contra hge
      exact absurd (ElfSection.sizeInBytes_of_ge hload (by omega)) (by omega)
    have htake : s.taken = true := by
      rw [ElfSection.taken, hcontents, decide_eq_true hlt]
      rfl
    obtain ⟨hsize, hbytes⟩ := ElfSection.read_of_lt hload hlt
    have hlen : s.bytes.length = s.size := hload.delivered
    have hsome : 0 < s.bytes.length := by rw [hlen]; exact hload.nonempty
    have hbound : s.address.toNat + s.bytes.length ≤ 2 ^ 32 := by rw [hlen]; exact hload.bound
    have hskip : (s.isSkipped || !s.isData || decide (s.sizeInBytes ≤ 0)) = false := by
      have hpos := hload.nonempty
      rw [ElfSection.not_contents, hcontents, decide_eq_false (by omega)]
      rfl
    refine ⟨count + 1, ?_⟩
    rw [loadSections, if_neg (Nat.not_le_of_lt hname), hskip]
    simp only [Bool.false_eq_true, if_false, ne_eq, not_true_eq_false, false_and]
    rw [EStateM.run_bind, hbytes, hsize, ← hlen,
      loadSection_eq hm hsome hbound (ramAt_of_noDevice hdev), loadInto, if_pos htake]
    rfl
  · have hsame : loadInto m.physMem s = m.physMem := by
      rw [loadInto]
      split_ifs with htake
      · simp only [ElfSection.taken, Bool.and_eq_true, decide_eq_true_eq] at htake
        rcases (hready htake.1).1 with hload | hnil
        · have hsize := (ElfSection.read_of_lt hload htake.2).1
          have hpos := hload.nonempty
          exact absurd ⟨htake.1, by omega⟩ htaken
        · have hbytes : s.bytes = [] := by rw [ElfSection.bytes, hnil]; rfl
          rw [hbytes, putSection_nil]
      · rfl
    exact ⟨count, by rw [loadSections_passed hname htaken, hsame]⟩

/-- The section loop loads the sections it takes, one over the other. -/
theorem loadSections_eq {m : Memory} (hm : m.DefaultRange) (n : Nat) {ss : List ElfSection}
    (hready : ∀ s ∈ ss, Ready m s) (hnames : ∀ s ∈ ss.take n, s.name.length < sectionNameSize)
    (count : Nat) : (loadSections 0xffffffffffffffff n ss count).run m =
      .ok 0 { m with physMem := (ss.take n).foldl loadInto m.physMem } := by
  induction n generalizing m ss count with
  | zero => rfl
  | succ n ih =>
    cases ss with
    | nil =>
      have hnone : ∀ s ∈ ([] : List ElfSection), Ready m s := by simp
      have hrest := ih hm hnone (by simp) count
      rw [loadSections]
      simp only [List.take_nil] at hrest ⊢
      exact hrest
    | cons s ss =>
      rw [List.take_succ_cons] at hnames ⊢
      obtain ⟨c, hstep⟩ := loadSections_cons hm (hready s (List.mem_cons_self ..))
        (hnames s (List.mem_cons_self ..)) n ss count
      exact hstep.trans (ih (hm.withPhysMem (loadInto m.physMem s))
        (fun t ht => hready t (List.mem_cons_of_mem _ ht))
        (fun t ht => hnames t (List.mem_cons_of_mem _ ht)) c)

theorem loadSections_run {m : Memory} (hm : m.DefaultRange) (n : Nat) {ss : List ElfSection}
    (hready : ∀ s ∈ ss, Ready m s) (hnames : ∀ s ∈ ss.take n, s.name.length < sectionNameSize)
    (count : Nat) : ∃ p,
    (loadSections 0xffffffffffffffff n ss count).run m = .ok 0 { m with physMem := p } ∧
      Patched (lastByte ((ss.take n).filter taken)) m.physMem p :=
  ⟨_, loadSections_eq hm n hready hnames count,
    patched_foldl (fun s hs => hready s (List.mem_of_mem_take hs)) _⟩

/-- A name that does not fit stops it. -/
theorem loadSections_overflow {m : Memory} (hm : m.DefaultRange) {n : Nat} {ss : List ElfSection}
    (hready : ∀ s ∈ ss, Ready m s) (hlong : ∃ s ∈ ss.take n, sectionNameSize ≤ s.name.length)
    (count : Nat) :
    ∃ m', (loadSections 0xffffffffffffffff n ss count).run m = .error .undefined m' := by
  induction n generalizing m ss count with
  | zero => simp at hlong
  | succ n ih =>
    cases ss with
    | nil => simp at hlong
    | cons s ss =>
      by_cases hname : sectionNameSize ≤ s.name.length
      · exact ⟨m, by rw [loadSections, if_pos hname]; rfl⟩
      · obtain ⟨c, hstep⟩ := loadSections_cons hm (hready s (List.mem_cons_self ..))
          (Nat.lt_of_not_le hname) n ss count
        rw [hstep]
        refine ih (hm.withPhysMem (loadInto m.physMem s))
          (fun t ht => hready t (List.mem_cons_of_mem _ ht)) ?_ c
        obtain ⟨t, ht, hlt⟩ := hlong
        rw [List.take_succ_cons] at ht
        rcases List.mem_cons.mp ht with rfl | ht
        · exact absurd hlt hname
        · exact ⟨t, ht, hlt⟩

/-! ### Whole files -/

/-- A file all of whose data sections may be loaded. -/
structure LoadableFile extends ElfFile where
  loadable : ∀ s ∈ sections, s.isContents = true → s.Loadable ∨ s.chunks = []

variable (file : LoadableFile)

/-- What the file says about memory. -/
def contents : List ElfSection := file.sections.filter ElfSection.isContents

/-- The part of it in the sections of the count whose size is a positive `int`. -/
def counted : List ElfSection := (file.sections.take file.shnum).filter taken

/-- `Load` returns 0 and memory has all contents of the file. -/
def LoadsExactly (m : Memory) : Prop :=
  ∃ p, (load file.toElfFile).run m = .ok 0 { m with physMem := p } ∧
    Patched (lastByte (contents file)) m.physMem p

/-- The names that are read fit, and where the sections that count do not have the last word on a
    byte they say nothing, and memory has that byte already. -/
structure Complete (m : Memory) : Prop where
  names : ∀ s ∈ file.sections.take file.shnum, s.name.length < sectionNameSize
  bytes : ∀ b v, lastByte (contents file) b = some v → lastByte (counted file) b = some v ∨
    lastByte (counted file) b = none ∧ m.physMem.isDefined b = true ∧ m.physMem.seen b = some v

variable {file} {m : Memory}

theorem ready_of_noDevice (hdev : ∀ s ∈ contents file, NoDevice m s) :
    ∀ s ∈ file.sections, Ready m s := fun s hs hcontents =>
  ⟨file.loadable s hs hcontents, hdev s (List.mem_filter.mpr ⟨hs, hcontents⟩)⟩

/-- `Load` replaces the bytes of the sections that count. -/
theorem load_run (hm : m.DefaultRange) (hdev : ∀ s ∈ contents file, NoDevice m s)
    (hnames : ∀ s ∈ file.sections.take file.shnum, s.name.length < sectionNameSize) :
    ∃ p, (load file.toElfFile).run m = .ok 0 { m with physMem := p } ∧
      Patched (lastByte (counted file)) m.physMem p :=
  loadSections_run hm file.shnum (ready_of_noDevice hdev) hnames 0

theorem names_of_loadsExactly (hm : m.DefaultRange) (hdev : ∀ s ∈ contents file, NoDevice m s)
    (h : LoadsExactly file m) :
    ∀ s ∈ file.sections.take file.shnum, s.name.length < sectionNameSize := by
  by_contra hlong
  push Not at hlong
  obtain ⟨p, hrun, -⟩ := h
  obtain ⟨m', herr⟩ := loadSections_overflow hm (ready_of_noDevice hdev) hlong 0
  rw [load, loadAt, herr] at hrun
  cases hrun

/-- A file that is loaded exactly leaves the bytes of all its contents and those of the sections
    that count. -/
theorem patched_of_loadsExactly (hm : m.DefaultRange) (hdev : ∀ s ∈ contents file, NoDevice m s)
    (h : LoadsExactly file m) : ∃ p, Patched (lastByte (contents file)) m.physMem p ∧
      Patched (lastByte (counted file)) m.physMem p := by
  obtain ⟨p', hrun', hcounted⟩ := load_run hm hdev (names_of_loadsExactly hm hdev h)
  obtain ⟨p, hrun, hall⟩ := h
  obtain rfl : p = p' := by
    rw [hrun] at hrun'
    injection hrun' with _ hmem
    exact congrArg Memory.physMem hmem
  exact ⟨p, hall, hcounted⟩

/-- What no section of the file covers none that counts does. -/
theorem counted_none {b : U64} (h : lastByte (contents file) b = none) :
    lastByte (counted file) b = none := by
  rw [ElfSection.lastByte_eq_none_iff] at h ⊢
  intro s hs
  obtain ⟨hmem, htaken⟩ := List.mem_filter.mp hs
  rw [ElfSection.taken, Bool.and_eq_true] at htaken
  exact h s (List.mem_filter.mpr ⟨List.mem_of_mem_take hmem, htaken.1⟩)

/-- For every file whose data sections are loadable and every memory without a device in their way:
    the file is loaded exactly if and only if it is complete for that memory. -/
theorem load_exact_iff (hm : m.DefaultRange) (hdev : ∀ s ∈ contents file, NoDevice m s) :
    LoadsExactly file m ↔ Complete file m := by
  constructor
  · intro h
    have hnames := names_of_loadsExactly hm hdev h
    refine ⟨hnames, ?_⟩
    intro b v hb
    obtain ⟨p, hpatch, hpatch'⟩ := patched_of_loadsExactly hm hdev h
    obtain ⟨hdef, hseen⟩ := hpatch.covered b v hb
    cases hc : lastByte (counted file) b with
    | some w =>
      obtain ⟨-, hseen'⟩ := hpatch'.covered b w hc
      exact .inl (hseen'.symm.trans hseen)
    | none =>
      obtain ⟨hsame, hkeep⟩ := hpatch'.other b hc
      have hdef₀ : m.physMem.isDefined b = true := hsame.symm.trans hdef
      obtain ⟨w, hw⟩ := PhysicalMemory.seen_of_isDefined hdef₀
      exact .inr ⟨rfl, hdef₀, hw.trans ((hkeep w hw).symm.trans hseen)⟩
  · intro ⟨hnames, hbytes⟩
    obtain ⟨p, hrun, hpatch⟩ := load_run hm hdev hnames
    refine ⟨p, hrun, ?_, fun b hb => hpatch.other b (counted_none hb)⟩
    intro b v hb
    rcases hbytes b v hb with hc | ⟨hnone, hdef, hseen⟩
    · exact hpatch.covered b v hc
    · obtain ⟨hsame, hkeep⟩ := hpatch.other b hnone
      exact ⟨hsame.trans hdef, hkeep v hseen⟩

/-- A file with one instruction, as it is written: the null section and the string table count. -/
def oneInstruction : LoadableFile where
  shnum := 3
  sections :=
    [{ name := ".text1".toList
       shType := ElfSection.shtProgbits
       address := 0x80000000
       size := 4
       chunks := [[0x13, 0, 0, 0]] }]
  loadable := by
    intro s hs _
    obtain rfl := List.mem_singleton.mp hs
    exact .inl ⟨.inl rfl, by decide, by decide, by decide, rfl⟩

theorem oneInstruction_loaded :
    LoadsExactly oneInstruction (.empty { rand := fun _ => 0, heap := fun _ => 0 }) := by
  refine (load_exact_iff ⟨rfl, rfl, rfl⟩ fun _ _ _ _ => Memory.deviceAt_nil rfl _).mpr
    ⟨?_, fun _ _ hb => .inl hb⟩
  intro s hs
  obtain rfl : s = _ := List.mem_singleton.mp hs
  decide

/-- A file with one section of `n` ones at address 0. -/
def ones (n : Nat) (hpos : 1 ≤ n) (hbound : n ≤ 2 ^ 32) : LoadableFile where
  shnum := 3
  sections :=
    [{ name := ".text1".toList
       shType := ElfSection.shtProgbits
       address := 0
       size := n
       chunks := [List.replicate n 1] }]
  loadable := by
    intro s hs _
    obtain rfl : s = _ := List.mem_singleton.mp hs
    refine .inl ⟨.inl rfl, rfl, hpos, (Nat.zero_add n).symm ▸ hbound, ?_⟩
    rw [ElfSection.bytes, List.flatten_singleton, List.length_replicate]

/-- From half the address space on it loads as if there were no section. -/
theorem ones_passed {n : Nat} (hpos : 1 ≤ n) (hbound : n ≤ 2 ^ 32) (hbig : 2 ^ 31 ≤ n)
    (o : Oracle) : ¬ LoadsExactly (ones n hpos hbound) (.empty o) := by
  intro h
  have hm : (Memory.empty o).DefaultRange := ⟨rfl, rfl, rfl⟩
  have hdev : ∀ s ∈ contents (ones n hpos hbound), NoDevice (.empty o) s :=
    fun _ _ _ _ => Memory.deviceAt_nil rfl _
  obtain ⟨p, hpatch, hpatch'⟩ := patched_of_loadsExactly hm hdev h
  have hnone : lastByte (counted (ones n hpos hbound)) 0 = none := by
    rw [ElfSection.lastByte_eq_none_iff]
    intro s hs
    obtain ⟨hmem, htaken⟩ := List.mem_filter.mp hs
    obtain rfl : s = _ := List.mem_singleton.mp (List.mem_of_mem_take hmem)
    rw [ElfSection.taken, Bool.and_eq_true, decide_eq_true_eq] at htaken
    exact absurd htaken.2 (by dsimp only; omega)
  have hsome : lastByte (contents (ones n hpos hbound)) 0 = some 1 := by
    have hall : contents (ones n hpos hbound) = (ones n hpos hbound).sections := by
      refine List.filter_eq_self.mpr fun s hs => ?_
      obtain rfl : s = _ := List.mem_singleton.mp hs
      rfl
    rw [hall]
    simp [ones, lastByte, ElfSection.byteAt, ElfSection.bytes, bytesAt]
    exact List.getElem?_replicate_of_lt hpos
  have hdef := (hpatch.covered 0 1 hsome).1
  rw [(hpatch'.other 0 hnone).1] at hdef
  exact Bool.false_ne_true hdef

theorem half_of_memory_is_passed : ¬ ∀ (file : LoadableFile) (m : Memory), m.DefaultRange →
    (∀ s ∈ contents file, NoDevice m s) → LoadsExactly file m := fun h =>
  ones_passed (n := 2 ^ 31) (by decide) (by decide) (Nat.le_refl _)
    { rand := fun _ => 0, heap := fun _ => 0 }
    (h _ _ ⟨rfl, rfl, rfl⟩ fun _ _ _ _ => Memory.deviceAt_nil rfl _)

end Elfio

end Dimebox
