import Dimebox.Elfio

/-! The table of section names that a written file ends with.

    Every name is added behind what is there already, so that the offsets handed out before stay
    where they are. The size is an `int`: from 2^31 bytes on it no longer holds the size, and the
    name is copied to where no table is. -/

namespace Dimebox

namespace Elfio

/-- `struct string_table`. -/
structure StringTable where
  snames : List Byte
  nbytes : Int

/-- `init_string_table`. -/
def initStringTable : StringTable where
  snames := [0]
  nbytes := 1

/-- `realloc` to `n` bytes; `fresh` is what memory holds behind the old ones. -/
def realloc (fresh : Nat → Byte) (bytes : List Byte) (n : Nat) : List Byte :=
  (List.range n).map fun i => bytes.getD i (fresh i)

/-- `memcpy` to an offset of a table. -/
def memcpy (table : List Byte) (offset : Nat) (source : List Byte) : List Byte :=
  table.take offset ++ source ++ table.drop (offset + source.length)

/-- A section name without its nil; there is at least one character. -/
structure SectionName where
  bytes : List Byte
  nonempty : bytes ≠ []
  nilFree : (0 : Byte) ∉ bytes

/-- `add_section_name`: the offset and the table. The copy is undefined if it is not inside of the
    `nbytes` bytes that were asked for. -/
def addSectionName (fresh : Nat → Byte) (stab : StringTable) (secname : SectionName) :
    Option (Int × StringTable) :=
  let snameOffset := stab.nbytes
  let nbytes := ElfSection.toInt (stab.nbytes + (secname.bytes.length + 1))
  if nbytes < snameOffset + (secname.bytes.length + 1) then none
  else some (snameOffset,
    { snames := memcpy (realloc fresh stab.snames nbytes.toNat) snameOffset.toNat
        (secname.bytes ++ [0])
      nbytes })

/-- A name to add, and what `realloc` finds behind the table. -/
structure Addition where
  name : SectionName
  fresh : Nat → Byte

/-- Names added one after the other, with the offsets that are returned. -/
def addSectionNames (stab : StringTable) : List Addition → Option (List Int × StringTable)
  | [] => some ([], stab)
  | a :: as => do
    let (offset, stab) ← addSectionName a.fresh stab a.name
    let (offsets, stab) ← addSectionNames stab as
    return (offset :: offsets, stab)

/-- The `Elf_Data` of the string table section. -/
structure ElfData where
  buf : List Byte
  off : Nat
  size : Nat

/-- `elfio_strptr`: what the returned pointer points to. -/
def strptr (d : ElfData) (offset : Nat) : Option (List Byte) :=
  if d.off ≤ offset ∧ offset < d.off + d.size then some (d.buf.drop (offset - d.off)) else none

/-- The string table as `elf_writer_fini` hands it to libelf. -/
def StringTable.data (stab : StringTable) : ElfData where
  buf := stab.snames
  off := 0
  size := stab.nbytes.toNat

/-! ### What the table is for -/

/-- The bytes up to the next nil are `s`, and there is a nil behind them. -/
def IsString (p s : List Byte) : Prop := (0 : Byte) ∉ s ∧ s ++ [0] <+: p

/-- The size of a table with these names: a nil, and a nil behind every name. -/
def tableSize : List Addition → Nat
  | [] => 1
  | a :: as => a.name.bytes.length + 1 + tableSize as

/-- Every offset leads to its name, with and without `elfio_strptr`; the first byte is the empty
    string, and behind the table there is nothing. -/
structure RoundTrip (as : List Addition) (offsets : List Int) (stab : StringTable) : Prop where
  size : stab.nbytes = tableSize as ∧ stab.snames.length = tableSize as
  empty : IsString stab.snames []
  names : List.Forall₂ (fun a offset => 0 ≤ offset ∧ IsString (stab.snames.drop offset.toNat)
    a.name.bytes) as offsets
  found : List.Forall₂ (fun a offset => ∃ p, strptr stab.data offset.toNat = some p ∧
    IsString p a.name.bytes) as offsets
  outside : ∀ offset : Nat, stab.nbytes ≤ offset → strptr stab.data offset = none

/-- All of the names can be added, and they can be found. -/
def NamesKept (as : List Addition) : Prop :=
  ∃ offsets stab, addSectionNames initStringTable as = some (offsets, stab) ∧
    RoundTrip as offsets stab

/-! ### One name -/

/-- The names, one behind the other. -/
def laidOut (as : List Addition) : List Byte := as.flatMap fun a => a.name.bytes ++ [0]

/-- Their offsets, if the first has offset `n`. -/
def offsetsFrom (n : Nat) : List Addition → List Int
  | [] => []
  | a :: as => n :: offsetsFrom (n + (a.name.bytes.length + 1)) as

theorem length_realloc (fresh : Nat → Byte) (bytes : List Byte) (n : Nat) :
    (realloc fresh bytes n).length = n := by
  rw [realloc, List.length_map, List.length_range]

/-- A table that grows keeps what is in it. -/
theorem take_realloc (fresh : Nat → Byte) {bytes : List Byte} {n : Nat} (h : bytes.length ≤ n) :
    (realloc fresh bytes n).take bytes.length = bytes := by
  refine List.ext_getElem ?_ fun i hi hi' => ?_
  · rw [List.length_take, length_realloc, Nat.min_eq_left h]
  · rw [List.getElem_take]
    simp only [realloc, List.getElem_map, List.getElem_range]
    rw [List.getD_eq_getElem?_getD, List.getElem?_eq_getElem hi', Option.getD_some]

/-- A table knows its size. -/
def StringTable.Sized (stab : StringTable) : Prop := stab.nbytes = stab.snames.length

/-- As long as the size fits in an `int`, a name goes behind the others. -/
theorem addSectionName_run (fresh : Nat → Byte) {stab : StringTable} (hs : stab.Sized)
    (name : SectionName) (hfits : stab.snames.length + (name.bytes.length + 1) < 2 ^ 31) :
    addSectionName fresh stab name = some ((stab.snames.length : Int),
      { snames := stab.snames ++ (name.bytes ++ [0])
        nbytes := (stab.snames.length + (name.bytes.length + 1) : Nat) }) := by
  have hsize : ElfSection.toInt (stab.snames.length + (name.bytes.length + 1))
      = ((stab.snames.length + (name.bytes.length + 1) : Nat) : Int) := by
    rw [ElfSection.toInt, BitVec.toInt_ofInt]
    push_cast
    rw [Int.bmod_eq_of_le (by omega) (by omega)]
  rw [addSectionName, hs, hsize, if_neg (by push_cast; omega), Int.toNat_natCast,
    Int.toNat_natCast, memcpy, take_realloc fresh (by omega), List.drop_eq_nil_of_le, List.append_nil]
  rw [length_realloc, List.length_append, List.length_singleton]

/-- From 2^31 bytes on there is no table. -/
theorem addSectionName_overflow (fresh : Nat → Byte) {stab : StringTable} (hs : stab.Sized)
    (name : SectionName) (hlarge : 2 ^ 31 ≤ stab.snames.length + (name.bytes.length + 1)) :
    addSectionName fresh stab name = none := by
  have hlt : ElfSection.toInt (stab.snames.length + (name.bytes.length + 1)) < 2 ^ 31 := by
    rw [ElfSection.toInt, BitVec.toInt_ofInt]
    exact Int.bmod_lt (by omega)
  rw [addSectionName, hs, if_pos (by omega)]

/-! ### Any number of names -/

theorem laidOut_cons (a : Addition) (as : List Addition) :
    laidOut (a :: as) = (a.name.bytes ++ [0]) ++ laidOut as := rfl

theorem length_laidOut (as : List Addition) : 1 + (laidOut as).length = tableSize as := by
  induction as with
  | nil => rfl
  | cons a as ih =>
    rw [laidOut_cons, List.length_append, List.length_append, List.length_singleton, tableSize]
    omega

/-- A name and the nil behind it. -/
theorem length_grown (snames name : List Byte) :
    (snames ++ (name ++ [0])).length = snames.length + (name.length + 1) := by
  rw [List.length_append, List.length_append, List.length_singleton]

/-- The names that are added go behind one another; the offsets are those of where they begin. -/
theorem addSectionNames_run {as : List Addition} {stab : StringTable} (hs : stab.Sized)
    (hfits : stab.snames.length + (laidOut as).length < 2 ^ 31) :
    addSectionNames stab as = some (offsetsFrom stab.snames.length as,
      { snames := stab.snames ++ laidOut as
        nbytes := (stab.snames.length + (laidOut as).length : Nat) }) := by
  induction as generalizing stab with
  | nil =>
    have hsame : stab = { snames := stab.snames ++ [], nbytes := (stab.snames.length + 0 : Nat) } := by
      rw [List.append_nil, Nat.add_zero, ← hs]
    exact congrArg (fun t => some ([], t)) hsame
  | cons a as ih =>
    rw [laidOut_cons, List.length_append, List.length_append, List.length_singleton] at hfits ⊢
    have hadd := addSectionName_run a.fresh hs a.name (by omega)
    have hgrown := length_grown stab.snames a.name.bytes
    have hrest := @ih { snames := stab.snames ++ (a.name.bytes ++ [0])
                        nbytes := (stab.snames.length + (a.name.bytes.length + 1) : Nat) }
      (by rw [StringTable.Sized, hgrown]) (by rw [hgrown]; omega)
    rw [addSectionNames, hadd]
    dsimp only [Option.bind_eq_bind, Option.bind_some]
    rw [hrest]
    dsimp only [Option.bind_some]
    rw [hgrown, offsetsFrom, List.append_assoc, Nat.add_assoc]
    rfl

/-- What lies at the offsets. -/
theorem isString_laidOut (front : List Byte) (as : List Addition) :
    List.Forall₂ (fun a offset => (0 ≤ offset ∧
        IsString ((front ++ laidOut as).drop offset.toNat) a.name.bytes) ∧
      offset.toNat < (front ++ laidOut as).length) as (offsetsFrom front.length as) := by
  induction as generalizing front with
  | nil => exact .nil
  | cons a as ih =>
    have hgrown := length_grown front a.name.bytes
    have hrest := ih (front ++ (a.name.bytes ++ [0]))
    rw [List.append_assoc, ← laidOut_cons, hgrown] at hrest
    refine .cons ⟨⟨Int.natCast_nonneg _, a.name.nilFree, ?_⟩, ?_⟩ hrest
    · rw [Int.toNat_natCast, List.drop_left, laidOut_cons]
      exact List.prefix_append _ _
    · rw [Int.toNat_natCast, List.length_append, laidOut_cons, List.length_append,
        List.length_append, List.length_singleton]
      omega

/-- The table that the names grow is the one at the end of a written file. -/
theorem snames_eq_sectionNames {as : List Addition} {names : List (List Char)}
    (h : as.map (·.name.bytes) = names.map fun n => n.map fun c => BitVec.ofNat 8 c.toNat) :
    initStringTable.snames ++ laidOut as = sectionNames names := by
  have hlaid : laidOut as = (as.map (·.name.bytes)).flatMap (· ++ [0]) := by
    rw [List.flatMap_map]
    rfl
  rw [hlaid, h, List.flatMap_map]
  rfl

/-- An addition that overflows leaves none behind it. -/
theorem addSectionNames_overflow {as : List Addition} {stab : StringTable} (hs : stab.Sized)
    (hroom : stab.snames.length < 2 ^ 31)
    (hlarge : 2 ^ 31 ≤ stab.snames.length + (laidOut as).length) :
    addSectionNames stab as = none := by
  induction as generalizing stab with
  | nil =>
    rw [laidOut, List.flatMap_nil, List.length_nil] at hlarge
    omega
  | cons a as ih =>
    rw [laidOut_cons, List.length_append, List.length_append, List.length_singleton] at hlarge
    rw [addSectionNames]
    by_cases hfits : stab.snames.length + (a.name.bytes.length + 1) < 2 ^ 31
    · have hgrown := length_grown stab.snames a.name.bytes
      have hrest := @ih { snames := stab.snames ++ (a.name.bytes ++ [0])
                          nbytes := (stab.snames.length + (a.name.bytes.length + 1) : Nat) }
        (by rw [StringTable.Sized, hgrown]) (by rw [hgrown]; exact hfits) (by rw [hgrown]; omega)
      rw [addSectionName_run a.fresh hs a.name hfits]
      dsimp only [Option.bind_eq_bind, Option.bind_some]
      rw [hrest]
      rfl
    · rw [addSectionName_overflow a.fresh hs a.name (Nat.not_lt.mp hfits)]
      rfl

theorem strptr_data (stab : StringTable) (offset : Nat) : strptr stab.data offset =
    if offset < stab.nbytes.toNat then some (stab.snames.drop offset) else none := by
  rw [strptr, StringTable.data]
  dsimp only
  simp only [Nat.zero_le, true_and, Nat.zero_add, Nat.sub_zero]

theorem sized_initStringTable : initStringTable.Sized := rfl

theorem NamesKept.fits {as : List Addition} (h : NamesKept as) : tableSize as < 2 ^ 31 := by
  have hlength := length_laidOut as
  have hone : initStringTable.snames.length = 1 := rfl
  obtain ⟨offsets, stab, hrun, -⟩ := h
  by_contra hlarge
  rw [addSectionNames_overflow sized_initStringTable (by omega) (by omega)] at hrun
  cases hrun

/-- For every sequence of names: all are kept if and only if the table has fewer than 2^31
    bytes. -/
theorem namesKept_iff (as : List Addition) : NamesKept as ↔ tableSize as < 2 ^ 31 := by
  have hlength := length_laidOut as
  have hone : initStringTable.snames.length = 1 := rfl
  constructor
  · exact NamesKept.fits
  · intro hfits
    have htotal : (initStringTable.snames ++ laidOut as).length = tableSize as := by
      rw [List.length_append, hone, hlength]
    have hstored := isString_laidOut initStringTable.snames as
    refine ⟨_, _, addSectionNames_run sized_initStringTable (by omega), ⟨?_, htotal⟩, ?_, ?_, ?_, ?_⟩
    · rw [hone, hlength]
    · exact ⟨List.not_mem_nil, ⟨laidOut as, rfl⟩⟩
    · exact hstored.imp fun _ _ h => h.1
    · refine hstored.imp fun a offset h => ⟨_, ?_, h.1.2⟩
      rw [htotal] at h
      rw [strptr_data, if_pos]
      rw [hone, hlength, Int.toNat_natCast]
      exact h.2
    · intro offset hout
      rw [strptr_data, if_neg]
      rw [Int.toNat_natCast]
      exact Nat.not_lt.mpr (Int.ofNat_le.mp hout)

/-- A name with `n` characters. -/
def nameOfLength (n : Nat) (h : 0 < n) : SectionName where
  bytes := List.replicate n 0x61
  nonempty := List.ne_nil_of_length_pos (by rwa [List.length_replicate])
  nilFree h := absurd (List.eq_of_mem_replicate h) (by decide)

/-- The table of one name with 2^31 - 2 characters does not fit. -/
theorem huge_name_not_kept : ¬ ∀ as, NamesKept as := by
  intro h
  have hpos : 0 < 2 ^ 31 - 2 := by omega
  have hlt := (h [{ name := nameOfLength (2 ^ 31 - 2) hpos, fresh := fun _ => 0 }]).fits
  rw [tableSize, nameOfLength, List.length_replicate, tableSize] at hlt
  omega

end Elfio

end Dimebox
