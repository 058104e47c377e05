import Dimebox.RegisterWrites

/-! What `decoded_le4` takes for a register value.

    `le4` writes a value as eight digits. The loop that reads them back goes on after a pair that
    does not scan, and so past the end of a string that is too short, and it leaves each pair to
    `sscanf`, which also takes a single digit, blanks and a sign. Whatever it refuses, it refuses
    rightly; what it accepts is right if it is eight digits. -/

namespace Dimebox

namespace DebugServer

/-- The first eight characters are hexadecimal digits. -/
def EightDigits (s : List Char) : Prop := 8 ≤ s.length ∧ ∀ c ∈ s.take 8, (Text.hexValue c).isSome

/-- `decoded_le4` stays inside of the string and its nil, accepts eight digits and nothing else, and
    gets the value whose encoding they are. -/
structure DecodesExactly (s : List Char) : Prop where
  inside : ∀ f, decodedLe4 s ≠ .error f
  accepts : (∃ v, decodedLe4 s = .ok (some v)) ↔ EightDigits s
  value : ∀ v, decodedLe4 s = .ok (some v) → (s.take 8).map Char.toLower = le4 v

/-- There is something at every place that is looked at, and either the digits are there or one of
    the four pairs does not scan. -/
def Distinguished (s : List Char) : Prop :=
  6 ≤ s.length ∧ (EightDigits s ∨ ∃ i < 4, ¬ Text.Scannable (s.drop (i * 2)))

/-! ### The loop -/

/-- Six characters are needed, and four pairs that scan. -/
theorem decodedLe4_cases (s : List Char) :
    (s.length < 6 ∧ decodedLe4 s = .error .undefined) ∨
      6 ≤ s.length ∧ (((∀ i < 4, Text.Scannable (s.drop (i * 2))) ∧
        ∃ v, decodedLe4 s = .ok (some v)) ∨
      ((∃ i < 4, ¬ Text.Scannable (s.drop (i * 2))) ∧ decodedLe4 s = .ok none)) := by
  by_cases hlen : s.length < 6
  · refine .inl ⟨hlen, ?_⟩
    rw [decodedLe4, decodedPairs_short _ _ _ _ ⟨3, by simp, by omega⟩]
    rfl
  · refine .inr ⟨Nat.not_lt.mp hlen, ?_⟩
    obtain ⟨rv, hpairs⟩ := decodedPairs_ok s [0, 1, 2, 3] true 0 fun i hi => by
      have hle : i ≤ 3 := by simp at hi; omega
      omega
    have hall : ([0, 1, 2, 3].all fun i => (Text.scanHex 2 (s.drop (i * 2))).isSome) = true ↔
        ∀ i < 4, Text.Scannable (s.drop (i * 2)) := by
      rw [List.all_eq_true]
      constructor
      · intro h i hi
        exact (Text.scanHex_two_isSome _).mp (h i (by simp; omega))
      · intro h i hi
        exact (Text.scanHex_two_isSome _).mpr (h i (by simp at hi; omega))
    rw [decodedLe4, hpairs]
    by_cases hscans : ∀ i < 4, Text.Scannable (s.drop (i * 2))
    · rw [hall.mpr hscans]
      exact .inl ⟨hscans, _, rfl⟩
    · rw [Bool.eq_false_iff.mpr fun h => hscans (hall.mp h)]
      refine .inr ⟨?_, rfl⟩
      simpa only [not_forall, exists_prop] using hscans

/-! ### Eight digits -/

/-- A digit, with its value. -/
structure Digit where
  char : Char
  value : Nat
  spells : Text.hexValue char = some value

/-- The byte two digits say. -/
def byteOfDigits (c d : Digit) : Nat := c.value * 16 + d.value

theorem byteOfDigits_lt (c d : Digit) : byteOfDigits c d < 256 := by
  have hc := (Text.hexDigit_of_hexValue c.spells).1
  have hd := (Text.hexDigit_of_hexValue d.spells).1
  rw [byteOfDigits]
  omega

/-- It is printed as the two in lower case. -/
theorem hexPadded_byteOfDigits (c d : Digit) :
    Text.hexPadded 2 (byteOfDigits c d) = [c.char.toLower, d.char.toLower] := by
  obtain ⟨hc, hcdigit⟩ := Text.hexDigit_of_hexValue c.spells
  obtain ⟨hd, hddigit⟩ := Text.hexDigit_of_hexValue d.spells
  have hhigh : byteOfDigits c d / 16 = c.value := by rw [byteOfDigits]; omega
  have hlow : byteOfDigits c d % 16 = d.value := by rw [byteOfDigits]; omega
  rw [Text.hexPadded_two (byteOfDigits_lt c d), hhigh, hlow, hcdigit, hddigit]

theorem exists_digits {cs : List Char} (h : ∀ c ∈ cs, (Text.hexValue c).isSome) :
    ∃ ds : List Digit, ds.map (·.char) = cs := by
  induction cs with
  | nil => exact ⟨[], rfl⟩
  | cons c cs ih =>
    obtain ⟨ds, rfl⟩ := ih fun d hd => h d (List.mem_cons_of_mem c hd)
    obtain ⟨v, hv⟩ := Option.isSome_iff_exists.mp (h c List.mem_cons_self)
    exact ⟨⟨c, v, hv⟩ :: ds, rfl⟩

/-- A byte goes above those that are there. -/
theorem toNat_or_byte {rv : U32} {b k : Nat} (hrv : rv.toNat < 2 ^ k) (hb : b < 256)
    (hk : k ≤ 24) : (rv ||| (BitVec.ofNat 32 b <<< k)).toNat = rv.toNat + b * 2 ^ k := by
  have hpow : 2 ^ k ≤ 2 ^ 24 := Nat.pow_le_pow_right (by omega) hk
  have hshift : (BitVec.ofNat 32 b <<< k).toNat = b <<< k := by
    have hlt : b * 2 ^ k ≤ 255 * 2 ^ 24 := Nat.mul_le_mul (by omega) hpow
    rw [BitVec.toNat_shiftLeft, BitVec.toNat_ofNat, Nat.mod_eq_of_lt (a := b) (by omega),
      Nat.mod_eq_of_lt (by rw [Nat.shiftLeft_eq]; omega)]
  rw [BitVec.toNat_or, hshift, Nat.or_comm, ← Nat.shiftLeft_add_eq_or_of_lt hrv, Nat.shiftLeft_eq,
    Nat.add_comm]

/-- One turn of the loop. -/
theorem decodedPairs_digits {encoded tail : List Char} {i : Nat} {c d : Digit}
    (h : encoded.drop (i * 2) = c.char :: d.char :: tail) (is : List Nat) (success : Bool) (rv : U32) :
    decodedPairs encoded (i :: is) success rv =
      decodedPairs encoded is success (rv ||| (BitVec.ofNat 32 (byteOfDigits c d) <<< (i * 8))) := by
  have hin : ¬ encoded.length < i * 2 := by
    intro hout
    rw [List.drop_eq_nil_of_le (Nat.le_of_lt hout)] at h
    cases h
  rw [decodedPairs, if_neg hin, h, Text.scanHex_pair c.spells d.spells]
  rfl

/-- The bytes of a value are printed one after the other. -/
theorem le4_of_bytes {v : U32} {b0 b1 b2 b3 : Nat} (h0 : b0 < 256) (h1 : b1 < 256) (h2 : b2 < 256)
    (hv : v.toNat = b0 + b1 * 2 ^ 8 + b2 * 2 ^ 16 + b3 * 2 ^ 24) : le4 v =
      Text.hexPadded 2 b0 ++ Text.hexPadded 2 b1 ++ Text.hexPadded 2 b2 ++ Text.hexPadded 2 b3 := by
  have hlt := v.isLt
  have hrange : List.range 4 = [0, 1, 2, 3] := rfl
  have hb0 : v.toNat / 2 ^ (0 * 8) % 256 = b0 := by omega
  have hb1 : v.toNat / 2 ^ (1 * 8) % 256 = b1 := by omega
  have hb2 : v.toNat / 2 ^ (2 * 8) % 256 = b2 := by omega
  have hb3 : v.toNat / 2 ^ (3 * 8) % 256 = b3 := by omega
  rw [le4, hrange]
  simp only [List.flatMap_cons, List.flatMap_nil, List.append_nil, byteOf_toNat, hb0, hb1, hb2, hb3,
    List.append_assoc]

/-- The bytes of a register value, lowest first. -/
def ofBytes (b0 b1 b2 b3 : Nat) : U32 :=
  (0 : U32) ||| (BitVec.ofNat 32 b0 <<< (0 * 8)) ||| (BitVec.ofNat 32 b1 <<< (1 * 8)) |||
    (BitVec.ofNat 32 b2 <<< (2 * 8)) ||| (BitVec.ofNat 32 b3 <<< (3 * 8))

theorem toNat_ofBytes {b0 b1 b2 b3 : Nat} (h0 : b0 < 256) (h1 : b1 < 256) (h2 : b2 < 256)
    (h3 : b3 < 256) :
    (ofBytes b0 b1 b2 b3).toNat = b0 + b1 * 2 ^ 8 + b2 * 2 ^ 16 + b3 * 2 ^ 24 := by
  have hzero : (0 : U32).toNat = 0 := rfl
  have ht0 := @toNat_or_byte 0 b0 (0 * 8) (by decide) h0 (by decide)
  have ht1 := toNat_or_byte (k := 1 * 8) (by rw [ht0]; omega) h1 (by decide)
  have ht2 := toNat_or_byte (k := 2 * 8) (by rw [ht1, ht0]; omega) h2 (by decide)
  have ht3 := toNat_or_byte (k := 3 * 8) (by rw [ht2, ht1, ht0]; omega) h3 (by decide)
  rw [ofBytes, ht3, ht2, ht1, ht0, hzero]
  omega

/-- Eight digits are decoded to the value that is encoded as these digits in lower case. -/
theorem decodedLe4_digits (c0 c1 c2 c3 c4 c5 c6 c7 : Digit) (rest : List Char) :
    ∃ v, decodedLe4 ([c0, c1, c2, c3, c4, c5, c6, c7].map (·.char) ++ rest) = .ok (some v) ∧
      le4 v = [c0, c1, c2, c3, c4, c5, c6, c7].map (·.char.toLower) := by
  have h0 := byteOfDigits_lt c0 c1
  have h1 := byteOfDigits_lt c2 c3
  have h2 := byteOfDigits_lt c4 c5
  have hv := toNat_ofBytes h0 h1 h2 (byteOfDigits_lt c6 c7)
  refine ⟨_, ?_, (le4_of_bytes h0 h1 h2 hv).trans ?_⟩
  · rw [decodedLe4, decodedPairs_digits (c := c0) (d := c1) rfl,
      decodedPairs_digits (c := c2) (d := c3) rfl, decodedPairs_digits (c := c4) (d := c5) rfl,
      decodedPairs_digits (c := c6) (d := c7) rfl, decodedPairs]
    rfl
  · rw [hexPadded_byteOfDigits, hexPadded_byteOfDigits, hexPadded_byteOfDigits,
      hexPadded_byteOfDigits]
    rfl

theorem decodedLe4_eightDigits {s : List Char} (h : EightDigits s) :
    ∃ v, decodedLe4 s = .ok (some v) ∧ le4 v = (s.take 8).map Char.toLower := by
  obtain ⟨hlen, hdigits⟩ := h
  obtain ⟨ds, hds⟩ := exists_digits hdigits
  have hcount : ds.length = 8 := by
    rw [← List.length_map (f := (·.char)), hds, List.length_take_of_le hlen]
  match ds, hcount with
  | [c0, c1, c2, c3, c4, c5, c6, c7], _ =>
    obtain ⟨v, hv, hle4⟩ := decodedLe4_digits c0 c1 c2 c3 c4 c5 c6 c7 (s.drop 8)
    rw [hds, List.take_append_drop] at hv
    exact ⟨v, hv, by rw [hle4, ← hds, List.map_map]; rfl⟩

/-! ### What is accepted -/

/-- Where the digits are there, every pair scans. -/
theorem EightDigits.scannable {s : List Char} (h : EightDigits s) :
    ∀ i < 4, Text.Scannable (s.drop (i * 2)) := by
  obtain ⟨v, hv, -⟩ := decodedLe4_eightDigits h
  rcases decodedLe4_cases s with ⟨-, hundefined⟩ | ⟨-, ⟨hscans, -⟩ | ⟨-, hnone⟩⟩
  · rw [hundefined] at hv
    cases hv
  · exact hscans
  · rw [hnone] at hv
    cases hv

/-- For every string and every value: the string is decoded exactly if and only if it is
    distinguished, and the value is decoded from its own encoding. -/
theorem decodesExactly_iff (s : List Char) (v : U32) :
    (DecodesExactly s ↔ Distinguished s) ∧ decodedLe4 (le4 v) = .ok (some v) := by
  refine ⟨?_, decodedLe4_le4 v⟩
  rcases decodedLe4_cases s with ⟨hshort, hundefined⟩ | ⟨hlen, ⟨hscans, w, hw⟩ | ⟨hfails, hnone⟩⟩
  · exact iff_of_false (fun h => h.inside _ hundefined) fun h => absurd h.1 (by omega)
  · constructor
    · exact fun h => ⟨hlen, .inl (h.accepts.mp ⟨w, hw⟩)⟩
    · rintro ⟨-, hdigits | ⟨i, hi, hnot⟩⟩
      · obtain ⟨v, hv, hle4⟩ := decodedLe4_eightDigits hdigits
        refine ⟨fun f hf => ?_, iff_of_true ⟨v, hv⟩ hdigits, fun u hu => ?_⟩
        · rw [hv] at hf
          cases hf
        · rw [hv] at hu
          cases hu
          exact hle4.symm
      · exact absurd (hscans i hi) hnot
  · have hnot : ¬ EightDigits s := by
      intro hdigits
      obtain ⟨i, hi, hfail⟩ := hfails
      exact hfail (hdigits.scannable i hi)
    refine iff_of_true ⟨fun f hf => ?_, iff_of_false ?_ hnot, fun u hu => ?_⟩
      ⟨hlen, .inr hfails⟩
    · rw [hnone] at hf
      cases hf
    · rintro ⟨u, hu⟩
      rw [hnone] at hu
      cases hu
    · rw [hnone] at hu
      cases hu

/-- Seven digits are accepted. -/
theorem seven_digits_accepted : ¬ ∀ s, DecodesExactly s := by
  intro h
  have hdigits := (h "1234567".toList).accepts.mp ⟨0x07563412, by rfl⟩
  exact absurd hdigits.1 (by decide)

end DebugServer

end Dimebox
