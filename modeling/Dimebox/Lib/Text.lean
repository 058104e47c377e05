import Mathlib.Algebra.Group.Nat.Defs
import Mathlib.Data.List.Induction
import Mathlib.Data.List.TakeWhile
import Mathlib.Tactic.Common

/-! Text in and out of C: `sprintf` with `%0wx` and the `sscanf` conversions `%x`, `%d` and `%2x`.

    A C string is a `List Char`. A scan takes the characters that are left and returns the value
    with the characters after it, or `none` when the conversion does not match. -/

namespace Text

/-- Lower-case hexadecimal digit of a value below 16. -/
def hexDigit (n : Nat) : Char := if n < 10 then Char.ofNat (48 + n) else Char.ofNat (87 + n)

/-- The last `k` hexadecimal digits of `n`, most significant first. -/
def hexFixed : Nat → Nat → List Char
  | 0, _ => []
  | k + 1, n => hexFixed k (n / 16) ++ [hexDigit (n % 16)]

/-- `%0wx` of a 64-bit value: at least `w` digits, more when the value needs them. -/
def hexPadded (w n : Nat) : List Char :=
  let digits := (hexFixed 16 n).dropWhile (· = '0')
  List.replicate (w - digits.length) '0' ++ digits

/-- Value of a hexadecimal digit of either case. -/
def hexValue (c : Char) : Option Nat :=
  if '0' ≤ c ∧ c ≤ '9' then some (c.toNat - 48)
  else if 'a' ≤ c ∧ c ≤ 'f' then some (c.toNat - 87)
  else if 'A' ≤ c ∧ c ≤ 'F' then some (c.toNat - 55)
  else none

/-- Value of a decimal digit. -/
def decValue (c : Char) : Option Nat :=
  if '0' ≤ c ∧ c ≤ '9' then some (c.toNat - 48) else none

/-- `isspace` in the C locale. -/
def isSpace (c : Char) : Bool := c = ' ' || (9 ≤ c.toNat && c.toNat ≤ 13)

/-- `isprint` in the C locale. -/
def isPrint (c : Char) : Bool := 32 ≤ c.toNat && c.toNat ≤ 126

/-- `isdigit`. -/
def isDigit (c : Char) : Bool := (decValue c).isSome

/-- The longest run of digits of the given base, at most `width` of them, folded onto `acc`;
    returns the value, whether a digit was seen, and the rest. -/
def scanDigits (value : Char → Option Nat) (base : Nat) :
    Nat → List Char → Nat → Bool → Nat × Bool × List Char
  | 0, cs, acc, seen => (acc, seen, cs)
  | _ + 1, [], acc, seen => (acc, seen, [])
  | w + 1, c :: cs, acc, seen =>
    match value c with
    | some d => scanDigits value base w cs (acc * base + d) true
    | none => (acc, seen, c :: cs)

/-- An optional sign: whether it was `-`, the width left and the rest. -/
def scanSign (width : Nat) : List Char → Bool × Nat × List Char
  | '-' :: cs => if 0 < width then (true, width - 1, cs) else (false, width, '-' :: cs)
  | '+' :: cs => if 0 < width then (false, width - 1, cs) else (false, width, '+' :: cs)
  | cs => (false, width, cs)

/-- The optional `0x` of `%x`: whether its `0` was taken as a digit, the width left and the rest. -/
def scanPrefix (width : Nat) : List Char → Bool × Nat × List Char
  | '0' :: x :: cs =>
    if 2 ≤ width ∧ (x = 'x' ∨ x = 'X') then (true, width - 2, cs) else (false, width, '0' :: x :: cs)
  | cs => (false, width, cs)

/-- A magnitude with its sign, saturated and wrapped as `strtoull` does. -/
def wrapUnsigned (negative : Bool) (n : Nat) : Nat :=
  if 2 ^ 64 ≤ n then 2 ^ 64 - 1 else if negative then (2 ^ 64 - n) % 2 ^ 64 else n

/-- A magnitude with its sign, saturated as `strtol` does. -/
def clampSigned (negative : Bool) (n : Nat) : Int :=
  if negative then -(min n (2 ^ 63) : Nat) else (min n (2 ^ 63 - 1) : Nat)

/-- `%x` with at most `width` characters after the blanks, as the 64-bit value before truncation. -/
def scanHex (width : Nat) (cs : List Char) : Option (Nat × List Char) :=
  let (negative, width, cs) := scanSign width (cs.dropWhile isSpace)
  let (zero, width, cs) := scanPrefix width cs
  let (n, seen, cs) := scanDigits hexValue 16 width cs 0 zero
  if seen then some (wrapUnsigned negative n, cs) else none

/-- `%d` as the 64-bit value before truncation. -/
def scanDec (cs : List Char) : Option (Int × List Char) :=
  let (negative, width, cs) := scanSign (cs.length + 1) (cs.dropWhile isSpace)
  let (n, seen, cs) := scanDigits decValue 10 width cs 0 false
  if seen then some (clampSigned negative n, cs) else none

/-- A literal character of a format. -/
def scanChar (c : Char) : List Char → Option (List Char)
  | d :: cs => if c = d then some cs else none
  | [] => none

/-- `std::string::find(needle) != npos`. -/
def contains (needle : List Char) : List Char → Bool
  | [] => needle.isEmpty
  | c :: cs => needle.isPrefixOf (c :: cs) || contains needle cs

/-- `std::string::find(c)`. -/
def find (c : Char) (s : List Char) : Option Nat := s.findIdx? (· = c)

theorem mem_of_contains {needle : List Char} {c : Char} (hc : c ∈ needle) {s : List Char}
    (h : contains needle s = true) : c ∈ s := by
  induction s with
  | nil =>
    rw [contains, List.isEmpty_iff] at h
    rw [h] at hc
    exact absurd hc List.not_mem_nil
  | cons d s ih =>
    rw [contains, Bool.or_eq_true] at h
    rcases h with h | h
    · exact (List.isPrefixOf_iff_prefix.mp h).subset hc
    · exact List.mem_cons_of_mem d (ih h)

/-! ### Hexadecimal digits -/

theorem mem_hexFixed {k n : Nat} {c : Char} (h : c ∈ hexFixed k n) : ∃ d < 16, c = hexDigit d := by
  induction k generalizing n with
  | zero => simp [hexFixed] at h
  | succ k ih =>
    rw [hexFixed, List.mem_append, List.mem_singleton] at h
    rcases h with h | rfl
    · exact ih h
    · exact ⟨n % 16, Nat.mod_lt _ (by decide), rfl⟩

theorem mem_hexPadded {w n : Nat} {c : Char} (h : c ∈ hexPadded w n) :
    ∃ d < 16, c = hexDigit d := by
  rw [hexPadded, List.mem_append] at h
  rcases h with h | h
  · exact ⟨0, by decide, List.eq_of_mem_replicate h⟩
  · exact mem_hexFixed ((List.dropWhile_sublist _).subset h)

theorem not_mem_hexPadded {c : Char} (hc : ∀ d < 16, hexDigit d ≠ c) (w n : Nat) :
    c ∉ hexPadded w n := by
  intro h
  obtain ⟨d, hd, heq⟩ := mem_hexPadded h
  exact hc d hd heq.symm

theorem hexFixed_zero (k : Nat) : hexFixed k 0 = List.replicate k '0' := by
  induction k with
  | zero => rfl
  | succ k ih =>
    rw [hexFixed, Nat.zero_div, ih, List.replicate_succ']
    rfl

/-- A byte has two digits. -/
theorem hexPadded_two {n : Nat} (hn : n < 256) :
    hexPadded 2 n = [hexDigit (n / 16), hexDigit (n % 16)] := by
  have hfixed : hexFixed 16 n = List.replicate 14 '0' ++ [hexDigit (n / 16), hexDigit (n % 16)] := by
    have hhigh : n / 16 / 16 = 0 := by omega
    have hdigit : n / 16 % 16 = n / 16 := by omega
    rw [hexFixed, hexFixed, hhigh, hexFixed_zero, hdigit, List.append_assoc]
    rfl
  rw [hexPadded, hfixed]
  by_cases hhigh : hexDigit (n / 16) = '0'
  · by_cases hlow : hexDigit (n % 16) = '0'
    · rw [hhigh, hlow]; rfl
    · simp [hhigh, hlow]
  · simp [hhigh]

theorem hexDigit_inj : ∀ d < 16, ∀ e < 16, hexDigit d = hexDigit e → d = e := by decide

/-- Two digits determine a byte. -/
theorem hexPadded_two_inj {m n : Nat} (hm : m < 256) (hn : n < 256)
    (h : hexPadded 2 m = hexPadded 2 n) : m = n := by
  rw [hexPadded_two hm, hexPadded_two hn] at h
  have hhigh := hexDigit_inj _ (by omega) _ (by omega) (List.cons.inj h).1
  have hlow := hexDigit_inj _ (Nat.mod_lt _ (by decide)) _ (Nat.mod_lt _ (by decide))
    (List.cons.inj (List.cons.inj h).2).1
  omega

/-! ### Numbers in digits -/

/-- The number that digits say. -/
def number (value : Char → Option Nat) (base : Nat) (s : List Char) : Nat :=
  s.foldl (fun n c => n * base + (value c).getD 0) 0

/-- `s` is `n` in hexadecimal, in digits of either case and with leading zeros or without. -/
structure Spells (s : List Char) (n : Nat) : Prop where
  nonempty : s ≠ []
  digits : ∀ c ∈ s, (hexValue c).isSome
  number : number hexValue 16 s = n

theorem number_append_singleton (value : Char → Option Nat) (base : Nat) (s : List Char) (c : Char) :
    number value base (s ++ [c]) = number value base s * base + (value c).getD 0 := by
  rw [number, number, List.foldl_append]
  rfl

theorem hexValue_hexDigit : ∀ d < 16, hexValue (hexDigit d) = some d := by decide

theorem number_hexFixed (k n : Nat) : number hexValue 16 (hexFixed k n) = n % 16 ^ k := by
  induction k generalizing n with
  | zero => rw [Nat.pow_zero, Nat.mod_one]; rfl
  | succ k ih =>
    rw [hexFixed, number_append_singleton, ih, hexValue_hexDigit _ (Nat.mod_lt _ (by decide)),
      Option.getD_some, Nat.pow_succ', Nat.mod_mul, Nat.mul_comm, Nat.add_comm]

theorem number_zeros (k : Nat) (s : List Char) :
    number hexValue 16 (List.replicate k '0' ++ s) = number hexValue 16 s := by
  induction k with
  | zero => rfl
  | succ k ih => exact ih

/-- Leading zeros do not count. -/
theorem number_dropWhile (s : List Char) :
    number hexValue 16 (s.dropWhile (· = '0')) = number hexValue 16 s := by
  induction s with
  | nil => rfl
  | cons c s ih =>
    by_cases hc : c = '0'
    · rw [List.dropWhile_cons_of_pos (by simpa using hc), ih, hc]
      exact (number_zeros 1 s).symm
    · rw [List.dropWhile_cons_of_neg (by simpa using hc)]

/-- What `%x` prints. -/
theorem spells_hexPadded (w : Nat) {n : Nat} (hn : n < 2 ^ 64) : Spells (hexPadded (w + 1) n) n := by
  refine ⟨?_, ?_, ?_⟩
  · intro hnil
    have hlen := congrArg List.length hnil
    simp only [hexPadded, List.length_append, List.length_replicate, List.length_nil] at hlen
    omega
  · intro c hc
    obtain ⟨d, hd, rfl⟩ := mem_hexPadded hc
    rw [hexValue_hexDigit d hd]
    rfl
  · rw [hexPadded, number_zeros, number_dropWhile, number_hexFixed, Nat.mod_eq_of_lt (by omega)]

/-! ### Scanning numbers -/

/-- A hexadecimal digit is no blank, no sign and no part of the prefix of `%x`. -/
theorem plain_of_hexValue {c : Char} (h : (hexValue c).isSome) :
    isSpace c = false ∧ c ≠ '-' ∧ c ≠ '+' ∧ c ≠ 'x' ∧ c ≠ 'X' := by
  have hnot : ∀ d, hexValue d = none → c ≠ d := by
    rintro d hd rfl
    rw [hd] at h
    cases h
  have hdigit : 48 ≤ c.toNat := by
    unfold hexValue at h
    split_ifs at h with h0 ha hA
    · exact h0.1
    · exact Nat.le_trans (by decide) (show 97 ≤ c.toNat from ha.1)
    · exact Nat.le_trans (by decide) (show 65 ≤ c.toNat from hA.1)
    · cases h
  refine ⟨?_, hnot _ rfl, hnot _ rfl, hnot _ rfl, hnot _ rfl⟩
  have hspace : c ≠ ' ' := hnot _ rfl
  simp only [isSpace, hspace, decide_false, Bool.false_or, Bool.and_eq_false_iff,
    decide_eq_false_iff_not]
  omega

theorem hexValue_of_decValue {c : Char} {d : Nat} (h : decValue c = some d) :
    hexValue c = some d ∧ d < 10 := by
  unfold decValue at h
  split_ifs at h with hc
  obtain rfl := Option.some.inj h
  have hlow : 48 ≤ c.toNat := hc.1
  have hhigh : c.toNat ≤ 57 := hc.2
  exact ⟨if_pos hc, by omega⟩

/-- A run of digits that fills the width, or that something else follows. -/
theorem scanDigits_run {value : Char → Option Nat} {base : Nat} {s cs : List Char} {w : Nat}
    (h : ∀ c ∈ s, (value c).isSome) (hw : s.length ≤ w)
    (hend : w = s.length ∨ ∀ c ∈ cs.head?, value c = none) (acc : Nat) (seen : Bool) :
    scanDigits value base w (s ++ cs) acc seen =
      (s.foldl (fun n c => n * base + (value c).getD 0) acc, seen || !s.isEmpty, cs) := by
  induction s generalizing w acc seen with
  | nil =>
    cases w with
    | zero => simp [scanDigits]
    | succ w =>
      have hhead := hend.resolve_left (Nat.succ_ne_zero w)
      cases cs with
      | nil => simp [scanDigits]
      | cons c cs => simp [scanDigits, hhead c rfl]
  | cons c s ih =>
    rw [List.length_cons] at hw hend
    obtain ⟨w, rfl⟩ : ∃ v, w = v + 1 := ⟨w - 1, by omega⟩
    obtain ⟨d, hd⟩ := Option.isSome_iff_exists.mp (h c List.mem_cons_self)
    have hrest := ih (fun e he => h e (List.mem_cons_of_mem _ he)) (Nat.le_of_succ_le_succ hw)
      (hend.imp_left Nat.succ.inj) (acc * base + d) true
    simp only [List.cons_append, scanDigits, hd, hrest, List.foldl_cons, Option.getD_some,
      List.isEmpty_cons, Bool.not_false, Bool.or_true, Bool.true_or]

theorem scanSign_plain {c : Char} (hminus : c ≠ '-') (hplus : c ≠ '+') (w : Nat) (cs : List Char) :
    scanSign w (c :: cs) = (false, w, c :: cs) := by
  rw [scanSign]
  · exact fun _ heq => hminus (List.cons.inj heq).1
  · exact fun _ heq => hplus (List.cons.inj heq).1

/-- Nothing is skipped in front of a digit. -/
theorem scanSign_digit {s : List Char} (hne : s ≠ []) (h : ∀ c ∈ s, (hexValue c).isSome) (w : Nat)
    (cs : List Char) : scanSign w ((s ++ cs).dropWhile isSpace) = (false, w, s ++ cs) := by
  obtain ⟨c, s, rfl⟩ := List.exists_cons_of_ne_nil hne
  obtain ⟨hspace, hminus, hplus, -, -⟩ := plain_of_hexValue (h c List.mem_cons_self)
  rw [List.cons_append, List.dropWhile_cons_of_neg (by simp [hspace]), scanSign_plain hminus hplus]

/-- There is no `0x` in front of a number in digits. -/
theorem scanPrefix_digits {s cs : List Char} (h : ∀ c ∈ s, (hexValue c).isSome) {w : Nat}
    (hend : w = s.length ∨ ∀ c ∈ cs.head?, hexValue c = none ∧ c ≠ 'x' ∧ c ≠ 'X') (hne : s ≠ []) :
    scanPrefix w (s ++ cs) = (false, w, s ++ cs) := by
  obtain ⟨d, s, rfl⟩ := List.exists_cons_of_ne_nil hne
  rw [List.cons_append]
  unfold scanPrefix
  split
  · next x rest heq =>
    have htail := (List.cons.inj heq).2
    rw [heq, if_neg]
    rintro ⟨h2, hx⟩
    cases s with
    | nil =>
      rcases hend with rfl | hhead
      · exact absurd h2 (Nat.not_succ_le_self 1)
      · have hplain := hhead x (by rw [← List.nil_append cs, htail]; rfl)
        exact hx.elim hplain.2.1 hplain.2.2
    | cons e s =>
      obtain ⟨-, -, -, hnotx, hnotX⟩ :=
        plain_of_hexValue (h e (List.mem_cons_of_mem _ List.mem_cons_self))
      rw [← (List.cons.inj htail).1] at hx
      exact hx.elim hnotx hnotX
  · rfl

/-- `%x` of a number in digits. -/
theorem scanHex_run {s cs : List Char} {n w : Nat} (h : Spells s n) (hn : n < 2 ^ 64)
    (hw : s.length ≤ w)
    (hend : w = s.length ∨ ∀ c ∈ cs.head?, hexValue c = none ∧ c ≠ 'x' ∧ c ≠ 'X') :
    scanHex w (s ++ cs) = some (n, cs) := by
  have hrun := @scanDigits_run hexValue 16 s cs w h.digits hw
    (hend.imp_right fun hc c hmem => (hc c hmem).1) 0 false
  have hseen : s.isEmpty = false := List.isEmpty_eq_false_iff.mpr h.nonempty
  have hval : s.foldl (fun n c => n * 16 + (hexValue c).getD 0) 0 = n := h.number
  rw [scanHex, scanSign_digit h.nonempty h.digits]
  simp only
  rw [scanPrefix_digits h.digits hend h.nonempty]
  simp only
  rw [hrun]
  simp only [hval, hseen, Bool.not_false, Bool.or_true, if_true]
  rw [wrapUnsigned, if_neg (by omega)]
  rfl

/-- Two digits of a byte. -/
theorem scanHex_byte {b : Nat} (hb : b < 256) (cs : List Char) :
    scanHex 2 (hexPadded 2 b ++ cs) = some (b, cs) := by
  have hlen : (hexPadded 2 b).length = 2 := by rw [hexPadded_two hb]; rfl
  exact scanHex_run (spells_hexPadded 1 (by omega)) (by omega) (Nat.le_of_eq hlen) (.inl hlen.symm)

/-- `%d` of a number in digits. -/
theorem scanDec_run {s cs : List Char} (h : ∀ c ∈ s, (decValue c).isSome) (hne : s ≠ [])
    (hend : ∀ c ∈ cs.head?, decValue c = none) :
    scanDec (s ++ cs) = some (clampSigned false (number decValue 10 s), cs) := by
  have hhex : ∀ c ∈ s, (hexValue c).isSome := by
    intro c hc
    obtain ⟨d, hd⟩ := Option.isSome_iff_exists.mp (h c hc)
    rw [(hexValue_of_decValue hd).1]
    rfl
  have hrun := @scanDigits_run decValue 10 s cs ((s ++ cs).length + 1) h
    (by rw [List.length_append]; omega) (.inr hend) 0 false
  have hseen : s.isEmpty = false := List.isEmpty_eq_false_iff.mpr hne
  rw [scanDec, scanSign_digit hne hhex]
  simp only
  rw [hrun, hseen]
  rfl

/-- `%d` where there is no number. -/
theorem scanDec_none {c : Char} (hspace : isSpace c = false) (hminus : c ≠ '-') (hplus : c ≠ '+')
    (hc : decValue c = none) (cs : List Char) : scanDec (c :: cs) = none := by
  rw [scanDec, List.dropWhile_cons_of_neg (by simp [hspace]), scanSign_plain hminus hplus]
  simp [scanDigits, hc]

/-! ### A hexadecimal number read with `%d` -/

theorem number_le_append (value : Char → Option Nat) {base : Nat} (hb : 0 < base) (s t : List Char) :
    number value base s ≤ number value base (s ++ t) := by
  induction t using List.reverseRecOn with
  | nil => exact Nat.le_of_eq (by rw [List.append_nil])
  | append_singleton t c ih =>
    rw [← List.append_assoc, number_append_singleton]
    exact Nat.le_trans ih (Nat.le_trans (Nat.le_mul_of_pos_right _ hb) (Nat.le_add_right _ _))

theorem ten_le_hexValue {c : Char} (h : (hexValue c).isSome) (hc : decValue c = none) :
    10 ≤ (hexValue c).getD 0 := by
  unfold decValue at hc
  unfold hexValue at h ⊢
  split_ifs at hc with hdigit
  rw [if_neg hdigit] at h ⊢
  split_ifs at h ⊢ with ha hA
  · have hlow : 97 ≤ c.toNat := ha.1
    rw [Option.getD_some]
    omega
  · have hlow : 65 ≤ c.toNat := hA.1
    rw [Option.getD_some]
    omega
  · cases h

/-- Decimal digits are worth less in decimal, unless the number is a single digit. -/
theorem number_decimal {s : List Char} (h : ∀ c ∈ s, (decValue c).isSome) :
    number decValue 10 s ≤ number hexValue 16 s ∧
      (number decValue 10 s = number hexValue 16 s ↔ number hexValue 16 s ≤ 9) := by
  induction s using List.reverseRecOn with
  | nil => exact ⟨Nat.le_refl _, iff_of_true rfl (Nat.zero_le _)⟩
  | append_singleton s c ih =>
    obtain ⟨hle, heq⟩ := ih fun e he => h e (List.mem_append_left _ he)
    obtain ⟨d, hd⟩ := Option.isSome_iff_exists.mp (h c (List.mem_append_right _ List.mem_cons_self))
    obtain ⟨hx, hlt⟩ := hexValue_of_decValue hd
    rw [number_append_singleton, number_append_singleton, hd, hx, Option.getD_some]
    omega

theorem clampSigned_le (k : Nat) : 0 ≤ clampSigned false k ∧ clampSigned false k ≤ k := by
  rw [clampSigned, if_neg Bool.false_ne_true]
  exact ⟨Int.natCast_nonneg _, by exact_mod_cast Nat.min_le_left k (2 ^ 63 - 1)⟩

/-- `%d` of a number in hexadecimal gets the number if it has one digit, and less than the number or
    nothing otherwise. -/
theorem scanDec_spells {s : List Char} {n : Nat} (h : Spells s n) :
    if n ≤ 9 then scanDec s = some ((n : Int), [])
    else ∀ v rest, scanDec s = some (v, rest) → 0 ≤ v ∧ v < n := by
  have hsplit : s.takeWhile isDigit ++ s.dropWhile isDigit = s := List.takeWhile_append_dropWhile
  have hrun : ∀ c ∈ s.takeWhile isDigit, (decValue c).isSome := by
    intro c hc
    have hdigit : isDigit c = true := List.mem_takeWhile_imp hc
    exact hdigit
  have hstop : ∀ c ∈ (s.dropWhile isDigit).head?, decValue c = none := by
    intro c hc
    have hnot := List.head?_dropWhile_not isDigit s
    rw [Option.mem_def.mp hc] at hnot
    simpa [isDigit] using hnot
  obtain ⟨hle, heq⟩ := number_decimal hrun
  have hscan : s.takeWhile isDigit ≠ [] → scanDec s =
      some (clampSigned false (number decValue 10 (s.takeWhile isDigit)), s.dropWhile isDigit) := by
    intro hne
    have hall := scanDec_run hrun hne hstop
    rwa [hsplit] at hall
  have hless : s.takeWhile isDigit ≠ [] → number decValue 10 (s.takeWhile isDigit) < n →
      ∀ v rest, scanDec s = some (v, rest) → 0 ≤ v ∧ v < n := by
    intro hne hlt v rest hv
    rw [hscan hne] at hv
    obtain ⟨rfl, -⟩ := Prod.mk.inj (Option.some.inj hv)
    obtain ⟨hpos, hbound⟩ := clampSigned_le (number decValue 10 (s.takeWhile isDigit))
    exact ⟨hpos, by omega⟩
  -- where the run of decimal digits stops there is a letter, or the end
  rcases hrest : s.dropWhile isDigit with _ | ⟨c, rest⟩
  · have hs : s.takeWhile isDigit = s := by rw [hrest, List.append_nil] at hsplit; exact hsplit
    rw [hs] at hle heq hscan hless
    rw [h.number] at hle heq
    split_ifs with hn
    · rw [hscan h.nonempty, hrest, heq.mpr hn, clampSigned, if_neg Bool.false_ne_true,
        Nat.min_eq_left (by omega)]
    · exact hless h.nonempty (by omega)
  · have hmem : c ∈ s := by rw [← hsplit, hrest]; simp
    have hletter : decValue c = none := hstop c (by rw [hrest]; rfl)
    have hvalue := ten_le_hexValue (h.digits c hmem) hletter
    have hfirst := @number_le_append hexValue 16 (by decide) (s.takeWhile isDigit ++ [c]) rest
    rw [List.append_assoc, List.singleton_append, ← hrest, hsplit, h.number,
      number_append_singleton] at hfirst
    rw [if_neg (by omega)]
    by_cases hnil : s.takeWhile isDigit = []
    · obtain ⟨hspace, hminus, hplus, -, -⟩ := plain_of_hexValue (h.digits c hmem)
      rw [hnil, List.nil_append, hrest] at hsplit
      intro v rest' hv
      rw [← hsplit, scanDec_none hspace hminus hplus hletter] at hv
      cases hv
    · exact hless hnil (by omega)

/-! ### Digits of either case -/

/-- The digit of the value of a digit is the digit in lower case. -/
theorem hexDigit_of_hexValue {c : Char} {d : Nat} (h : hexValue c = some d) :
    d < 16 ∧ hexDigit d = c.toLower := by
  have hall : ∀ n < 128, (hexValue (Char.ofNat n)).all
      (fun d => d < 16 && hexDigit d == (Char.ofNat n).toLower) = true := by decide
  have hlt : c.toNat < 128 := by
    unfold hexValue at h
    split_ifs at h with h0 ha hA
    · exact Nat.lt_of_le_of_lt (show c.toNat ≤ 57 from h0.2) (by decide)
    · exact Nat.lt_of_le_of_lt (show c.toNat ≤ 102 from ha.2) (by decide)
    · exact Nat.lt_of_le_of_lt (show c.toNat ≤ 70 from hA.2) (by decide)
  have hc := hall c.toNat hlt
  rw [Char.ofNat_toNat, h, Option.all_some, Bool.and_eq_true, decide_eq_true_iff, beq_iff_eq] at hc
  exact hc

/-- Two digits of either case. -/
theorem scanHex_pair {c e : Char} {d f : Nat} (hc : hexValue c = some d) (he : hexValue e = some f)
    (cs : List Char) : scanHex 2 (c :: e :: cs) = some (d * 16 + f, cs) := by
  have hd := (hexDigit_of_hexValue hc).1
  have hf := (hexDigit_of_hexValue he).1
  have hspells : Spells [c, e] (d * 16 + f) := by
    refine ⟨List.cons_ne_nil _ _, fun x hx => ?_, ?_⟩
    · rcases List.mem_cons.mp hx with rfl | hx
      · rw [hc]
        rfl
      · rw [List.mem_singleton.mp hx, he]
        rfl
    · simp [number, hc, he]
  exact scanHex_run (s := [c, e]) hspells (by omega) (Nat.le_refl 2) (.inl rfl)

/-- Behind the blanks there is a digit, or a sign and a digit. -/
def Scannable (cs : List Char) : Prop :=
  match cs.dropWhile isSpace with
  | c :: rest =>
    (hexValue c).isSome ∨ (c = '-' ∨ c = '+') ∧ ∃ d ∈ rest.head?, (hexValue d).isSome
  | [] => False

theorem scanDigits_of_seen (value : Char → Option Nat) (base w : Nat) (cs : List Char) (acc : Nat) :
    (scanDigits value base w cs acc true).2.1 = true := by
  induction w generalizing cs acc with
  | zero => rfl
  | succ w ih =>
    cases cs with
    | nil => rfl
    | cons c cs =>
      rw [scanDigits]
      cases value c with
      | none => rfl
      | some d => exact ih cs _

/-- A digit is seen if the first character is one. -/
theorem scanDigits_seen (value : Char → Option Nat) (base w : Nat) (cs : List Char) (acc : Nat) :
    (scanDigits value base (w + 1) cs acc false).2.1 = true ↔ ∃ c ∈ cs.head?, (value c).isSome := by
  cases cs with
  | nil => simp [scanDigits]
  | cons c cs =>
    rw [scanDigits]
    cases hc : value c with
    | none => simp [hc]
    | some d =>
      simp only [scanDigits_of_seen, true_iff]
      exact ⟨c, rfl, by rw [hc]; rfl⟩

/-- Also with `0x` in front: its `0` is a digit. -/
theorem scanPrefix_seen (w : Nat) (cs : List Char) :
    (scanDigits hexValue 16 (scanPrefix (w + 1) cs).2.1 (scanPrefix (w + 1) cs).2.2 0
      (scanPrefix (w + 1) cs).1).2.1 = true ↔ ∃ c ∈ cs.head?, (hexValue c).isSome := by
  unfold scanPrefix
  split
  · split
    · simp only [scanDigits_of_seen, true_iff]
      exact ⟨'0', rfl, rfl⟩
    · exact scanDigits_seen hexValue 16 w _ 0
  · exact scanDigits_seen hexValue 16 w cs 0

/-- `%2x` needs no second digit, and blanks and a sign may stand in front. -/
theorem scanHex_two_isSome (cs : List Char) : (scanHex 2 cs).isSome ↔ Scannable cs := by
  have hisSome : ∀ (b : Bool) (x : Nat × List Char),
      (if b = true then some x else none).isSome ↔ b = true := by
    intro b x
    cases b <;> simp
  rw [scanHex, Scannable]
  cases hskip : cs.dropWhile isSpace with
  | nil => simp [scanSign, scanPrefix, scanDigits]
  | cons c rest =>
    dsimp only
    rw [hisSome]
    by_cases hsign : c = '-' ∨ c = '+'
    · have hnot : ¬ (hexValue c).isSome := by
        rcases hsign with rfl | rfl <;> decide
      obtain ⟨negative, hrest⟩ : ∃ negative, scanSign 2 (c :: rest) = (negative, 1, rest) := by
        rcases hsign with rfl | rfl <;> exact ⟨_, rfl⟩
      rw [hrest, scanPrefix_seen 0 rest]
      simp only [hnot, hsign, Bool.false_eq_true, false_or, true_and]
    · have hplain := not_or.mp hsign
      rw [scanSign_plain hplain.1 hplain.2, scanPrefix_seen 1 (c :: rest)]
      simp only [hsign, false_and, or_false, List.head?_cons, Option.mem_some_iff, exists_eq_left']

end Text
