import Mathlib.Data.List.Basic
import Mathlib.Tactic.Common

/-! Decimal numbers out of C (`%u` and `%d`), and texts put together from fields.

    A field ends where its separator stands, so texts of fields that do not contain their separators
    can be read back. -/

namespace Text

/-- `%u`. -/
def unsigned (n : Nat) : List Char := Nat.toDigits 10 n

/-- `%d`. -/
def signed (z : Int) : List Char := if z < 0 then '-' :: unsigned z.natAbs else unsigned z.natAbs

theorem unsigned_inj {m n : Nat} (h : unsigned m = unsigned n) : m = n := by
  have hread := congrArg (Nat.ofDigitChars 10 · 0) h
  simpa only [unsigned, Nat.ofDigitChars_ten_toDigits] using hread

theorem isDigit_of_mem_unsigned {n : Nat} {c : Char} (h : c ∈ unsigned n) : c.isDigit :=
  Nat.isDigit_of_mem_toDigits (by decide) (by decide) h

theorem not_mem_unsigned {c : Char} (hc : c.isDigit = false) (n : Nat) : c ∉ unsigned n := by
  intro h
  rw [isDigit_of_mem_unsigned h] at hc
  cases hc

theorem not_mem_signed {c : Char} (hc : c.isDigit = false) (hminus : c ≠ '-') (z : Int) :
    c ∉ signed z := by
  rw [signed]
  split
  · rw [List.mem_cons, not_or]
    exact ⟨hminus, not_mem_unsigned hc _⟩
  · exact not_mem_unsigned hc _

theorem signed_inj {y z : Int} (h : signed y = signed z) : y = z := by
  have hne : ∀ m n : Nat, '-' :: unsigned m ≠ unsigned n := by
    intro m n heq
    have hmem : '-' ∈ unsigned n := by
      rw [← heq]
      exact List.mem_cons_self
    exact not_mem_unsigned (by decide) n hmem
  rw [signed, signed] at h
  split at h <;> split at h
  · have habs := unsigned_inj (List.cons.inj h).2
    omega
  · exact absurd h (hne _ _)
  · exact absurd h.symm (hne _ _)
  · have habs := unsigned_inj h
    omega

/-! ### Fields and separators -/

/-- A field that contains no separator. -/
def Plain (seps field : List Char) : Prop := ∀ c ∈ field, c ∉ seps

instance (seps field : List Char) : Decidable (Plain seps field) := List.decidableBAll _ _

/-- A field ends at the first separator. -/
theorem cut {seps field field' rest rest' : List Char} {c c' : Char}
    (hfield : Plain seps field) (hfield' : Plain seps field') (hc : c ∈ seps)
    (hc' : c' ∈ seps) (h : field ++ c :: rest = field' ++ c' :: rest') :
    field = field' ∧ c = c' ∧ rest = rest' := by
  induction field generalizing field' with
  | nil =>
    cases field' with
    | nil =>
      obtain ⟨hhead, htail⟩ := List.cons.inj h
      exact ⟨rfl, hhead, htail⟩
    | cons d field' =>
      obtain ⟨rfl, -⟩ := List.cons.inj h
      exact absurd hc (hfield' c List.mem_cons_self)
  | cons d field ih =>
    cases field' with
    | nil =>
      obtain ⟨rfl, -⟩ := List.cons.inj h
      exact absurd hc' (hfield d List.mem_cons_self)
    | cons d' field' =>
      obtain ⟨rfl, htail⟩ := List.cons.inj h
      obtain ⟨rfl, hsep, hrest⟩ := ih (fun e he => hfield e (List.mem_cons_of_mem _ he))
        (fun e he => hfield' e (List.mem_cons_of_mem _ he)) htail
      exact ⟨rfl, hsep, hrest⟩

/-- Fields, each after its separator. -/
def parts (l : List (Char × List Char)) : List Char := l.flatMap fun p => p.1 :: p.2

/-- The parts are separated by characters of `seps`, which the fields do not contain. -/
def Separated (seps : List Char) (l : List (Char × List Char)) : Prop :=
  ∀ p ∈ l, p.1 ∈ seps ∧ Plain seps p.2

/-- A text can be read back: a field without separators, and separated ones after it. -/
theorem parts_inj {seps : List Char} {field field' : List Char} {l l' : List (Char × List Char)}
    (hfield : Plain seps field) (hfield' : Plain seps field') (hl : Separated seps l)
    (hl' : Separated seps l') (h : field ++ parts l = field' ++ parts l') :
    field = field' ∧ l = l' := by
  induction l generalizing field field' l' with
  | nil =>
    cases l' with
    | nil =>
      rw [parts, List.flatMap_nil, List.append_nil, List.append_nil] at h
      exact ⟨h, rfl⟩
    | cons p l' =>
      have hmem : p.1 ∈ field ++ parts [] := by
        rw [h]
        exact List.mem_append_right _ List.mem_cons_self
      rw [parts, List.flatMap_nil, List.append_nil] at hmem
      exact absurd (hl' p List.mem_cons_self).1 (hfield _ hmem)
  | cons p l ih =>
    obtain ⟨hsep, hp⟩ := hl p List.mem_cons_self
    cases l' with
    | nil =>
      have hmem : p.1 ∈ field' ++ parts [] := by
        rw [← h]
        exact List.mem_append_right _ List.mem_cons_self
      rw [parts, List.flatMap_nil, List.append_nil] at hmem
      exact absurd hsep (hfield' _ hmem)
    | cons p' l' =>
      obtain ⟨hsep', hp'⟩ := hl' p' List.mem_cons_self
      obtain ⟨rfl, hc, hrest⟩ := cut hfield hfield' hsep hsep' h
      obtain ⟨hvalue, rfl⟩ := ih hp hp' (fun q hq => hl q (List.mem_cons_of_mem _ hq))
        (fun q hq => hl' q (List.mem_cons_of_mem _ hq)) hrest
      exact ⟨rfl, by rw [Prod.ext hc hvalue]⟩

end Text
