import Dimebox.SavedImage
import Mathlib.Data.List.Destutter

/-! How many sections a memory image has.

    `ChooseFileBlockSize` compares `ELF_MAX_SECTIONS` with the number of memory blocks, and for
    larger blocks with the changes of block along the list of addresses, from block 0 on. What is
    written is a section for every block, the null section and the string table. At the limit that
    is too many: the count of the header is then 0, and `Load` sees no section. -/

namespace Dimebox

namespace Elfio

/-- Addresses of memory blocks, in any order. -/
structure BlockList where
  addresses : List U64
  nodup : addresses.Nodup
  aligned : ∀ a ∈ addresses, MemBlock.offset a = 0
  below : ∀ a ∈ addresses, a.toNat < 2 ^ 32

/-- The blocks of `2 ^ bits` bytes the addresses are in, by number. -/
def blockNumbers (as : List U64) (bits : Nat) : List Nat := as.map fun a => a.toNat / 2 ^ bits

/-- How many different ones there are. -/
def fileBlocks (as : List U64) (bits : Nat) : Nat := (blockNumbers as bits).toFinset.card

/-- How often the block changes along the list. -/
def blockChanges (as : List U64) (bits : Nat) : Nat :=
  ((0 :: blockNumbers as bits).destutter (· ≠ ·)).length - 1

/-- `SaveToELF` makes a section for every address. -/
theorem addresses_saveSections {size : Nat} {as : List U64} {added sections : List ElfSection}
    {m m' : Memory} (h : (saveSections size as added).run m = .ok (some sections) m') :
    sections.map (·.address) = added.map (·.address) ++ as := by
  induction as generalizing m added with
  | nil =>
    rw [saveSections] at h
    cases h
    rw [List.append_nil]
  | cons a as ih =>
    rw [saveSections] at h
    split at h
    · cases h
    · rw [EStateM.run_bind] at h
      cases hread : (readSection a size).run m with
      | error f m₁ =>
        rw [hread] at h
        cases h
      | ok data m₁ =>
        rw [hread] at h
        rw [ih h, List.map_append, List.append_assoc]
        rfl

/-- The size `ChooseFileBlockSize` chooses gives a file whose sections, the null section among them,
    are fewer than 0xff00 and are all counted in `e_shnum`. -/
def OrdinaryNumbering (as : List U64) : Prop :=
  ∀ bits, chooseFileBlockSize as = some bits → ∀ sections : List ElfSection,
    sections.map (·.address) = setFileBlockAddresses (blockMask bits) [] as →
      (writtenFile sections).sections.length + 1 < 0xff00 ∧
        (writtenFile sections).shnum = (writtenFile sections).sections.length + 1

/-- Fewer than 0xfefe memory blocks; from 0xff00 on, fewer than 0xfefe blocks of the first size up to
    2^16 with fewer than 0xff00 changes, if there is one. -/
def BelowLimit (as : List U64) : Prop :=
  if as.length < 0xff00 then as.length < 0xfefe
  else ∀ bits, ([12, 13, 14, 15, 16].find? fun b => blockChanges as b < 0xff00) = some bits →
    fileBlocks as bits < 0xfefe

/-! ### Counting blocks -/

section Counting

variable {bits : Nat} {as : List U64}

/-- `SetFileBlockAddresses` lists every block once. -/
theorem length_setFileBlockAddresses (h : bits < 64) (as : List U64) :
    (setFileBlockAddresses (blockMask bits) [] as).length = fileBlocks as bits := by
  have henum : Enumerates bits ((blockNumbers as bits).toFinset : Set Nat)
      (setFileBlockAddresses (blockMask bits) [] as) := by
    refine ⟨nodup_setFileBlockAddresses _ _ _, fun k hk => ?_, fun A => ?_⟩
    · rw [List.coe_toFinset, Set.mem_ofPred_eq, blockNumbers, List.mem_map] at hk
      obtain ⟨a, -, rfl⟩ := hk
      exact Nat.lt_of_le_of_lt (Nat.div_mul_le_self _ _) a.isLt
    · rw [mem_setFileBlockAddresses, List.coe_toFinset]
      simp only [List.not_mem_nil, not_false_eq_true, true_and, Set.mem_ofPred_eq, blockNumbers,
        List.mem_map, exists_exists_and_eq_and]
      refine exists_congr fun a => and_congr_right fun _ => ?_
      rw [← blockMask_toNat h, BitVec.toNat_inj, eq_comm]
  rw [henum.length, Set.ncard_coe_finset, fileBlocks]

/-- `estimateELFFileSize` counts changes. -/
theorem length_mergedBlocks (h : bits < 64) (as : List U64) {current : U64} {k : Nat}
    (hk : current.toNat = k * 2 ^ bits) :
    (mergedBlocks (blockMask bits) current as).length + 1 =
      ((blockNumbers as bits).destutter' (· ≠ ·) k).length := by
  induction as generalizing current k with
  | nil => rfl
  | cons a as ih =>
    have hmask := blockMask_toNat h a
    have hsame : a &&& blockMask bits = current ↔ a.toNat / 2 ^ bits = k := by
      rw [← BitVec.toNat_inj, hmask, hk]
      exact Nat.mul_left_inj (Nat.two_pow_pos bits).ne'
    rw [mergedBlocks, blockNumbers, List.map_cons, List.destutter'_cons]
    by_cases hcur : a &&& blockMask bits = current
    · rw [if_neg (not_not.mpr hcur), if_neg (not_not.mpr (hsame.mp hcur).symm)]
      exact ih hk
    · have hne : k ≠ a.toNat / 2 ^ bits := fun heq => hcur (hsame.mpr heq.symm)
      rw [if_pos hcur, if_pos hne, List.length_cons, List.length_cons]
      exact congrArg (· + 1) (ih hmask)

theorem estimatedBlockCount_eq_blockChanges (h : bits < 64) (as : List U64) :
    estimatedBlockCount as bits = blockChanges as bits := by
  have hzero : (0 : U64).toNat = 0 * 2 ^ bits := (Nat.zero_mul _).symm
  rw [blockChanges, List.destutter_cons', ← length_mergedBlocks h as hzero, estimatedBlockCount,
    Nat.add_sub_cancel]

end Counting

namespace BlockList

variable (l : BlockList)

/-- Every memory block is a block of its own. -/
theorem fileBlocks_five : fileBlocks l.addresses 5 = l.addresses.length := by
  have hnodup : (blockNumbers l.addresses 5).Nodup := by
    refine l.nodup.map_on fun a ha b hb hab => BitVec.eq_of_toNat_eq ?_
    have hoffa := l.aligned a ha
    have hoffb := l.aligned b hb
    rw [MemBlock.offset_eq] at hoffa hoffb
    omega
  rw [fileBlocks, List.toFinset_card_of_nodup hnodup, blockNumbers, List.length_map]

/-- The 32-bit space has 4096 blocks of 2^20 bytes, and fewer that are larger. -/
theorem fileBlocks_le {bits : Nat} (h : 20 ≤ bits) : fileBlocks l.addresses bits ≤ 4096 := by
  have hsub : (blockNumbers l.addresses bits).toFinset ⊆ Finset.range 4096 := by
    intro k hk
    rw [List.mem_toFinset, blockNumbers, List.mem_map] at hk
    obtain ⟨a, ha, rfl⟩ := hk
    have hlt := l.below a ha
    have hpow : 2 ^ 20 ≤ 2 ^ bits := Nat.pow_le_pow_right (by omega) h
    have hle : a.toNat / 2 ^ bits ≤ a.toNat / 2 ^ 20 := Nat.div_le_div_left hpow (by omega)
    rw [Finset.mem_range]
    omega
  exact (Finset.card_le_card hsub).trans (Nat.le_of_eq (Finset.card_range _))

/-- In one block of 2^32 bytes nothing changes. -/
theorem blockChanges_whole : blockChanges l.addresses 32 = 0 := by
  have hzero : ∀ k ∈ blockNumbers l.addresses 32, k = 0 := by
    intro k hk
    rw [blockNumbers, List.mem_map] at hk
    obtain ⟨a, ha, rfl⟩ := hk
    exact Nat.div_eq_of_lt (l.below a ha)
  have hall : ∀ {ks : List Nat}, (∀ k ∈ ks, k = 0) → ks.destutter' (· ≠ ·) 0 = [0] := by
    intro ks hks
    induction ks with
    | nil => rfl
    | cons k ks ih =>
      obtain rfl := hks k List.mem_cons_self
      rw [List.destutter'_cons_neg _ (not_not.mpr rfl)]
      exact ih fun j hj => hks j (List.mem_cons_of_mem _ hj)
  rw [blockChanges, List.destutter_cons', hall hzero]
  rfl

end BlockList

/-! ### The limit -/

section Limit

variable {as : List U64}

/-- The trial sizes by their changes. -/
theorem find_changes (as : List U64) :
    (trialBlockSizes.find? fun b => estimatedBlockCount as b < elfMaxSections) =
      trialBlockSizes.find? fun b => blockChanges as b < 0xff00 := by
  have htrial : ∀ b ∈ trialBlockSizes, b < 64 := by decide
  refine List.find?_congr fun b hb => ?_
  rw [estimatedBlockCount_eq_blockChanges (htrial b hb)]
  rfl

theorem chooseFileBlockSize_small (h : as.length < 0xff00) : chooseFileBlockSize as = some 5 := by
  have hmax : elfMaxSections = 0xff00 := rfl
  rw [chooseFileBlockSize, hmax, if_pos h]

/-- Some trial size has few enough changes, and the first is chosen. -/
theorem BlockList.chooseFileBlockSize_large (l : BlockList) (h : 0xff00 ≤ l.addresses.length) :
    ∃ bits, (trialBlockSizes.find? fun b => blockChanges l.addresses b < 0xff00) = some bits ∧
      bits < 64 ∧ chooseFileBlockSize l.addresses = some bits := by
  have htrial : ∀ b ∈ trialBlockSizes, b < 64 := by decide
  obtain ⟨bits, hfind⟩ := Option.isSome_iff_exists.mp (List.find?_isSome.mpr
    ⟨32, by decide, by rw [l.blockChanges_whole]; rfl⟩ :
      (trialBlockSizes.find? fun b => blockChanges l.addresses b < 0xff00).isSome)
  have hlt := htrial bits (List.mem_of_find?_eq_some hfind)
  have hfew : blockChanges l.addresses bits < 0xff00 := of_decide_eq_true (List.find?_some hfind :)
  have hmax : elfMaxSections = 0xff00 := rfl
  refine ⟨bits, hfind, hlt, ?_⟩
  rw [chooseFileBlockSize, find_changes, hfind, hmax, if_neg (Nat.not_lt.mpr h)]
  dsimp only [Option.getD_some]
  rw [estimatedBlockCount_eq_blockChanges hlt, if_neg (Nat.not_lt.mpr (Nat.le_of_lt hfew))]

/-- The sections of the written file are numbered in the ordinary way if there are few enough
    blocks. -/
theorem ordinaryNumbering_of_choose {bits : Nat} (h : bits < 64)
    (hchoose : chooseFileBlockSize as = some bits) :
    OrdinaryNumbering as ↔ fileBlocks as bits < 0xfefe := by
  have hlength : ∀ sections : List ElfSection,
      (writtenFile sections).sections.length = sections.length + 1 := fun sections => by
    rw [writtenFile, List.length_append, List.length_singleton]
  rw [← length_setFileBlockAddresses h]
  constructor
  · intro hordinary
    have hsections : ((setFileBlockAddresses (blockMask bits) [] as).map fun a =>
        textSection 0 a []).map (·.address) = setFileBlockAddresses (blockMask bits) [] as := by
      rw [List.map_map]
      exact List.map_id _
    have hcount := (hordinary bits hchoose _ hsections).1
    rw [hlength, List.length_map] at hcount
    omega
  · intro hfew bits' hchoose' sections hsections
    obtain rfl : bits = bits' := Option.some.inj (hchoose.symm.trans hchoose')
    rw [← hsections, List.length_map] at hfew
    have hshnum : (writtenFile sections).shnum = sections.length + 2 :=
      if_pos (by rw [shnLoreserve]; omega)
    rw [hshnum, hlength]
    omega

/-- For every list of memory blocks: a file of the size that is chosen for it has ordinary section
    numbers if and only if the list is below the limit. -/
theorem ordinary_numbering_iff (l : BlockList) :
    OrdinaryNumbering l.addresses ↔ BelowLimit l.addresses := by
  rw [BelowLimit]
  by_cases hsmall : l.addresses.length < 0xff00
  · rw [if_pos hsmall, ordinaryNumbering_of_choose (by decide) (chooseFileBlockSize_small hsmall),
      l.fileBlocks_five]
  · rw [if_neg hsmall]
    obtain ⟨bits, hfind, hlt, hchoose⟩ := l.chooseFileBlockSize_large (Nat.not_lt.mp hsmall)
    rw [ordinaryNumbering_of_choose hlt hchoose]
    have hsplit : trialBlockSizes = [12, 13, 14, 15, 16] ++ [20, 24, 32] := rfl
    rw [hsplit, List.find?_append] at hfind
    cases hsixteen : [12, 13, 14, 15, 16].find? fun b => blockChanges l.addresses b < 0xff00 with
    | some b =>
      rw [hsixteen, Option.some_or] at hfind
      obtain rfl := Option.some.inj hfind
      exact ⟨fun h c hc => Option.some.inj hc ▸ h, fun h => h b rfl⟩
    | none =>
      -- the sizes that are left have few blocks
      have hlarge : ∀ b ∈ [20, 24, 32], 20 ≤ b := by decide
      rw [hsixteen, Option.none_or] at hfind
      have hle := l.fileBlocks_le (hlarge bits (List.mem_of_find?_eq_some hfind))
      exact iff_of_true (by omega) (by simp)

end Limit

/-! ### 0xfefe blocks -/

/-- The first `n` memory blocks. -/
def firstBlocks (n : Nat) (h : n ≤ 2 ^ 27) : BlockList where
  addresses := (List.range n).map fun i => BitVec.ofNat 64 (32 * i)
  nodup := by
    refine List.nodup_range.map_on fun i hi j hj hij => ?_
    have heq := congrArg BitVec.toNat hij
    rw [List.mem_range] at hi hj
    rw [BitVec.toNat_ofNat, BitVec.toNat_ofNat] at heq
    omega
  aligned := by
    intro a ha
    obtain ⟨i, -, rfl⟩ := List.mem_map.mp ha
    rw [MemBlock.offset_eq, BitVec.toNat_ofNat]
    omega
  below := by
    intro a ha
    obtain ⟨i, hi, rfl⟩ := List.mem_map.mp ha
    rw [List.mem_range] at hi
    rw [BitVec.toNat_ofNat]
    omega

/-- They are written as 0xff00 sections. -/
theorem blocks_reach_reserved_number : ¬ ∀ l : BlockList, OrdinaryNumbering l.addresses := by
  intro h
  have hlen : (firstBlocks 0xfefe (by omega)).addresses.length = 0xfefe := by
    rw [firstBlocks, List.length_map, List.length_range]
  have hchoose : chooseFileBlockSize (firstBlocks 0xfefe (by omega)).addresses = some 5 :=
    chooseFileBlockSize_small (by omega)
  have hfew := (ordinaryNumbering_of_choose (by decide) hchoose).mp (h _)
  rw [BlockList.fileBlocks_five] at hfew
  omega

end Elfio

end Dimebox
