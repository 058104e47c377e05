import Dimebox.SectionCount

/-! The block size of a file, for every sorted list of memory blocks.

    The estimate takes the changes of block along the list, from address zero on. On a sorted list
    that is every block but the one at zero, so it is one too low if there is something in the
    lowest block, and right otherwise. The 32-bit space has only 4096 blocks of 2^20 bytes: no list
    needs larger ones. -/

namespace Dimebox

namespace Elfio

/-- What `TestBlockAddresses` makes: addresses of memory blocks, in order. -/
structure SortedBlocks extends BlockList where
  sorted : addresses.Pairwise (· ≤ ·)

/-- The sizes that are chosen. -/
def chosenSizes : List Nat := [5, 12, 13, 14, 15, 16, 20]

/-- A file block has room for a memory block at `a`. -/
def Holds (bits : Nat) (F a : U64) : Prop :=
  F.toNat ≤ a.toNat ∧ a.toNat + 32 ≤ F.toNat + 2 ^ bits

/-- A size is chosen that fits in an `int`; the file blocks of that size pass the check of
    `SaveToELF`, are different, and every memory block is in exactly one of them. -/
def UsableSize (as : List U64) : Prop :=
  ∃ bits ∈ chosenSizes, chooseFileBlockSize as = some bits ∧ 2 ^ bits < 2 ^ 31 ∧
    (∀ F ∈ setFileBlockAddresses (blockMask bits) [] as, F &&& BitVec.ofNat 64 (2 ^ bits - 1) = 0) ∧
    (setFileBlockAddresses (blockMask bits) [] as).Nodup ∧
    ∀ a ∈ as, ∃! F, F ∈ setFileBlockAddresses (blockMask bits) [] as ∧ Holds bits F a

/-! ### The estimate -/

section Estimate

variable {bits : Nat} {as : List U64}

/-- The merged blocks of a sorted list are the file blocks, without the one at address zero. -/
theorem mergedBlocks_perm (h : bits < 64) (hsorted : as.Pairwise (· ≤ ·)) :
    (mergedBlocks (blockMask bits) 0 as).Perm
      ((setFileBlockAddresses (blockMask bits) [] as).erase 0) := by
  have hmasked : as.Pairwise fun a b => a &&& blockMask bits ≤ b &&& blockMask bits :=
    hsorted.imp fun hab => mask_mono h hab
  have hle : ∀ a ∈ as, 0 ≤ a &&& blockMask bits := fun _ _ => BitVec.le_def.mpr (Nat.zero_le _)
  have hnodup := nodup_setFileBlockAddresses (blockMask bits) as []
  refine (List.perm_ext_iff_of_nodup (nodup_mergedBlocks _ hmasked hle) (hnodup.erase 0)).mpr
    fun A => ?_
  rw [mem_mergedBlocks _ _ hmasked hle, hnodup.mem_erase_iff, mem_setFileBlockAddresses]
  simp only [List.not_mem_nil, not_false_eq_true, true_and]

theorem estimatedBlockCount_eq_erase (h : bits < 64) (hsorted : as.Pairwise (· ≤ ·)) :
    estimatedBlockCount as bits =
      ((setFileBlockAddresses (blockMask bits) [] as).erase 0).length :=
  (mergedBlocks_perm h hsorted).length_eq

/-- The file block at address zero. -/
theorem zero_mem_setFileBlockAddresses (h : bits < 64) :
    (0 : U64) ∈ setFileBlockAddresses (blockMask bits) [] as ↔ ∃ a ∈ as, a.toNat < 2 ^ bits := by
  have hzero : ∀ a : U64, a &&& blockMask bits = 0 ↔ a.toNat < 2 ^ bits := by
    intro a
    rw [← BitVec.toNat_inj, blockMask_toNat h]
    have hpos : 0 < 2 ^ bits := Nat.two_pow_pos bits
    constructor
    · intro hmul
      exact (Nat.div_eq_zero_iff_lt hpos).mp ((Nat.mul_eq_zero.mp hmul).resolve_right hpos.ne')
    · intro hlt
      rw [Nat.div_eq_of_lt hlt, Nat.zero_mul]
      rfl
  rw [mem_setFileBlockAddresses]
  simp only [List.not_mem_nil, not_false_eq_true, true_and, hzero]

/-- For every sorted list of distinct addresses and every block size: the estimate is the number of
    file blocks if and only if no address is in the lowest one. -/
theorem estimate_matches_iff (h : bits < 64) (hsorted : as.Pairwise (· < ·)) :
    estimatedBlockCount as bits = (setFileBlockAddresses (blockMask bits) [] as).length ↔
      ∀ a ∈ as, 2 ^ bits ≤ a.toNat := by
  have hle : as.Pairwise (· ≤ ·) := hsorted.imp fun hab => BitVec.le_of_lt hab
  rw [estimatedBlockCount_eq_erase h hle, List.length_erase]
  constructor
  · intro hcount a ha
    by_contra hlow
    have hmem : (0 : U64) ∈ setFileBlockAddresses (blockMask bits) [] as :=
      (zero_mem_setFileBlockAddresses h).mpr ⟨a, ha, Nat.not_le.mp hlow⟩
    have hpos := List.length_pos_of_mem hmem
    rw [if_pos hmem] at hcount
    omega
  · intro hhigh
    rw [if_neg]
    intro hmem
    obtain ⟨a, ha, hlow⟩ := (zero_mem_setFileBlockAddresses h).mp hmem
    exact absurd (hhigh a ha) (Nat.not_le.mpr hlow)

/-- Two blocks of 4k, neither at address zero. -/
theorem estimate_matches_two :
    estimatedBlockCount [0x1000, 0x1020, 0x3000] 12 =
        (setFileBlockAddresses (blockMask 12) [] [0x1000, 0x1020, 0x3000]).length ↔
      ∀ a ∈ ([0x1000, 0x1020, 0x3000] : List U64), 2 ^ 12 ≤ a.toNat :=
  estimate_matches_iff (by decide) (by decide)

/-- A block at address zero is written, and not counted. -/
theorem lowest_block_not_counted : ¬ ∀ (as : List U64) (bits : Nat), bits < 64 →
    as.Pairwise (· < ·) →
      estimatedBlockCount as bits = (setFileBlockAddresses (blockMask bits) [] as).length := by
  intro h
  exact absurd (h [0] 12 (by decide) (by decide)) (by decide)

end Estimate

/-! ### The size that is chosen -/

namespace SortedBlocks

variable (l : SortedBlocks)

/-- Blocks of 2^20 bytes are always few enough. -/
theorem estimatedBlockCount_lt : estimatedBlockCount l.addresses 20 < elfMaxSections := by
  have hle := l.fileBlocks_le (Nat.le_refl 20)
  rw [← length_setFileBlockAddresses (by decide)] at hle
  rw [estimatedBlockCount_eq_erase (by decide) l.sorted, elfMaxSections]
  exact Nat.lt_of_le_of_lt ((List.erase_sublist ..).length_le.trans hle) (by decide)

theorem exists_chosen : ∃ bits ∈ chosenSizes, chooseFileBlockSize l.addresses = some bits := by
  by_cases hsmall : l.addresses.length < elfMaxSections
  · exact ⟨5, by decide, by rw [chooseFileBlockSize, if_pos hsmall]⟩
  · have hsplit : trialBlockSizes = [12, 13, 14, 15, 16, 20] ++ [24, 32] := rfl
    obtain ⟨bits, hfind⟩ := Option.isSome_iff_exists.mp (List.find?_isSome.mpr
      ⟨20, by decide, decide_eq_true l.estimatedBlockCount_lt⟩ :
        ([12, 13, 14, 15, 16, 20].find? fun b =>
          estimatedBlockCount l.addresses b < elfMaxSections).isSome)
    have hfew : estimatedBlockCount l.addresses bits < elfMaxSections :=
      of_decide_eq_true (List.find?_some hfind :)
    refine ⟨bits, List.mem_cons_of_mem _ (List.mem_of_find?_eq_some hfind), ?_⟩
    rw [chooseFileBlockSize, if_neg hsmall, hsplit, List.find?_append, hfind, Option.some_or]
    dsimp only [Option.getD_some]
    rw [if_neg (Nat.not_lt.mpr (Nat.le_of_lt hfew))]

end SortedBlocks

/-- The file block of a memory block is the one whose number it has. -/
theorem holds_iff {bits : Nat} (h : 5 ≤ bits) {F a : U64} {k : Nat} (hF : F.toNat = k * 2 ^ bits)
    (ha : MemBlock.offset a = 0) : Holds bits F a ↔ a.toNat / 2 ^ bits = k := by
  have hdvd : 32 ∣ 2 ^ bits := Nat.pow_dvd_pow 2 h
  have hrem := Nat.div_add_mod' a.toNat (2 ^ bits)
  have hlt := Nat.mod_lt a.toNat (Nat.two_pow_pos bits)
  rw [Holds, hF]
  constructor
  · rintro ⟨hlow, hhigh⟩
    refine Nat.div_eq_of_lt_le hlow ?_
    rw [Nat.add_mul, Nat.one_mul]
    omega
  · rintro rfl
    -- the place in the file block is a multiple of 32, as the size of that is
    have hplace : a.toNat % 2 ^ bits % 32 = 0 := by
      rw [Nat.mod_mod_of_dvd _ hdvd, ← MemBlock.offset_eq, ha]
    omega

/-- For every sorted list of memory blocks, of any length: a usable size is chosen. -/
theorem chooseFileBlockSize_usable (l : SortedBlocks) : UsableSize l.addresses := by
  obtain ⟨bits, hchosen, hchoose⟩ := l.exists_chosen
  have hsizes : ∀ b ∈ chosenSizes, 5 ≤ b ∧ b < 31 := by decide
  obtain ⟨h5, h31⟩ := hsizes bits hchosen
  have hbits : bits < 64 := by omega
  have hnumber : ∀ F ∈ setFileBlockAddresses (blockMask bits) [] l.addresses,
      ∃ k, F.toNat = k * 2 ^ bits := by
    intro F hF
    obtain ⟨-, a, -, rfl⟩ := (mem_setFileBlockAddresses ..).mp hF
    exact ⟨_, blockMask_toNat hbits a⟩
  refine ⟨bits, hchosen, hchoose, Nat.pow_lt_pow_right (by omega) h31, fun F hF => ?_,
    nodup_setFileBlockAddresses _ _ _, fun a ha => ?_⟩
  · obtain ⟨k, hk⟩ := hnumber F hF
    exact and_low_eq_zero hbits hk
  · have hoff := l.aligned a ha
    have hmem : a &&& blockMask bits ∈ setFileBlockAddresses (blockMask bits) [] l.addresses :=
      (mem_setFileBlockAddresses ..).mpr ⟨List.not_mem_nil, a, ha, rfl⟩
    refine ⟨a &&& blockMask bits, ⟨hmem, (holds_iff h5 (blockMask_toNat hbits a) hoff).mpr rfl⟩, ?_⟩
    rintro F ⟨hF, hholds⟩
    obtain ⟨k, hk⟩ := hnumber F hF
    refine BitVec.eq_of_toNat_eq ?_
    rw [blockMask_toNat hbits, hk, (holds_iff h5 hk hoff).mp hholds]

end Elfio

end Dimebox
