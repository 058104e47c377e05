import Mathlib.Data.List.TakeWhile

/-! Texts with an escape character.

    An escape stands for no character itself: the character behind it is the flipped one. Reading a
    text goes on with a flag, whether an escape is pending, so that a text can be read in parts.
    Two escapes in a row say one flipped escape and leave the flag as it is, which is how far the
    two readings of a text, with and without a pending escape, run beside each other
    (`decoded_pairs`). -/

namespace Escape

variable {α : Type} [DecidableEq α] (esc : α) (flip : α → α)

/-- What a text says. -/
def decoded : Bool → List α → List α
  | _, [] => []
  | true, c :: cs => flip c :: decoded false cs
  | false, c :: cs => if c = esc then decoded true cs else c :: decoded false cs

/-- Whether an escape is pending behind a text. -/
def pending : Bool → List α → Bool
  | p, [] => p
  | true, _ :: cs => pending false cs
  | false, c :: cs => pending (c = esc) cs

/-- The characters that are said as they are. -/
def bare : Bool → List α → List α
  | _, [] => []
  | true, _ :: cs => bare false cs
  | false, c :: cs => if c = esc then bare true cs else c :: bare false cs

/-- A text that says `s`, with the characters escaped that are `special`. -/
def encoded (special : α → Bool) (s : List α) : List α :=
  s.flatMap fun c => if special c then [esc, flip c] else [c]

/-! ### Reading in parts -/

variable {esc flip}

theorem decoded_append (p : Bool) (s t : List α) : decoded esc flip p (s ++ t) =
    decoded esc flip p s ++ decoded esc flip (pending esc p s) t := by
  induction s generalizing p with
  | nil => cases t <;> simp [decoded, pending]
  | cons c s ih =>
    cases p with
    | true => simp [decoded, pending, ih]
    | false => by_cases hc : c = esc <;> simp [decoded, pending, ih, hc]

theorem bare_append (p : Bool) (s t : List α) :
    bare esc p (s ++ t) = bare esc p s ++ bare esc (pending esc p s) t := by
  induction s generalizing p with
  | nil => cases t <;> simp [bare, pending]
  | cons c s ih =>
    cases p with
    | true => simp [bare, pending, ih]
    | false => by_cases hc : c = esc <;> simp [bare, pending, ih, hc]

/-- An escape and what it escapes, in front of a text. -/
theorem decoded_escape (c : α) (t : List α) :
    decoded esc flip false (esc :: c :: t) = flip c :: decoded esc flip false t := by
  simp [decoded]

theorem decoded_cons_of_ne {c : α} (hc : c ≠ esc) (t : List α) :
    decoded esc flip false (c :: t) = c :: decoded esc flip false t := by
  simp [decoded, hc]

theorem bare_cons_of_ne {c : α} (hc : c ≠ esc) (t : List α) :
    bare esc false (c :: t) = c :: bare esc false t := by
  simp [bare, hc]

/-! ### Texts without an escape -/

theorem decoded_of_not_mem {s : List α} (h : esc ∉ s) : decoded esc flip false s = s := by
  induction s with
  | nil => rfl
  | cons c s ih =>
    obtain ⟨hc, hs⟩ := not_or.mp (fun hor => h (List.mem_cons.mpr hor))
    rw [decoded_cons_of_ne (Ne.symm hc), ih hs]

theorem bare_of_not_mem {s : List α} (h : esc ∉ s) : bare esc false s = s := by
  induction s with
  | nil => rfl
  | cons c s ih =>
    obtain ⟨hc, hs⟩ := not_or.mp (fun hor => h (List.mem_cons.mpr hor))
    rw [bare_cons_of_ne (Ne.symm hc), ih hs]

theorem length_decoded_le (p : Bool) (s : List α) : (decoded esc flip p s).length ≤ s.length := by
  induction s generalizing p with
  | nil => simp [decoded]
  | cons c s ih =>
    have hplain := ih false
    have hescaped := ih true
    cases p with
    | true => simpa [decoded] using hplain
    | false =>
      by_cases hc : c = esc
      · simp only [decoded, hc, if_true, List.length_cons]
        omega
      · simpa [decoded, hc] using hplain

/-- A text with an escape says less than it has characters. -/
theorem length_decoded_lt {s : List α} (h : esc ∈ s) :
    (decoded esc flip false s).length < s.length := by
  induction s with
  | nil => exact absurd h List.not_mem_nil
  | cons c s ih =>
    by_cases hc : c = esc
    · have hrest : (decoded esc flip true s).length ≤ s.length := length_decoded_le true s
      simp only [decoded, hc, if_true, List.length_cons]
      omega
    · have hs := ih ((List.mem_cons.mp h).resolve_left (Ne.symm hc))
      rw [decoded_cons_of_ne hc, List.length_cons, List.length_cons]
      omega

/-! ### Reading what was escaped -/

section Encoded

variable {special : α → Bool}

omit [DecidableEq α] in
theorem encoded_cons (c : α) (s : List α) : encoded esc flip special (c :: s) =
    (if special c then [esc, flip c] else [c]) ++ encoded esc flip special s := rfl

/-- A text in which escapes are escaped, and flipping goes back, says what it was made from. -/
theorem decoded_encoded (hesc : special esc = true) (hflip : ∀ c, special c = true →
    flip (flip c) = c) (s : List α) :
    decoded esc flip false (encoded esc flip special s) = s := by
  induction s with
  | nil => rfl
  | cons c s ih =>
    rw [encoded_cons]
    by_cases hc : special c = true
    · rw [if_pos hc, List.cons_append, List.singleton_append, decoded_escape, hflip c hc, ih]
    · have hne : c ≠ esc := fun h => hc (h ▸ hesc)
      rw [if_neg hc, List.singleton_append, decoded_cons_of_ne hne, ih]

/-- No special character is left bare. -/
theorem not_special_of_mem_bare (hesc : special esc = true) {c : α} {s : List α}
    (h : c ∈ bare esc false (encoded esc flip special s)) : special c = false := by
  induction s with
  | nil => exact absurd h List.not_mem_nil
  | cons d s ih =>
    rw [encoded_cons] at h
    by_cases hd : special d = true
    · rw [if_pos hd, List.cons_append, List.singleton_append] at h
      exact ih (by simpa [bare] using h)
    · have hne : d ≠ esc := fun heq => hd (heq ▸ hesc)
      rw [if_neg hd, List.singleton_append, bare_cons_of_ne hne] at h
      rcases List.mem_cons.mp h with rfl | h
      · exact Bool.eq_false_iff.mpr hd
      · exact ih h

end Encoded

/-! ### Runs of escapes -/

theorem decoded_pairs (p : Bool) (k : Nat) (t : List α) :
    decoded esc flip p (List.replicate (2 * k) esc ++ t) =
      List.replicate k (flip esc) ++ decoded esc flip p t := by
  induction k with
  | zero => rfl
  | succ k ih =>
    have hrun : List.replicate (2 * (k + 1)) esc ++ t =
        esc :: esc :: (List.replicate (2 * k) esc ++ t) := by
      rw [Nat.mul_succ, List.replicate_succ, List.replicate_succ, List.cons_append, List.cons_append]
    rw [hrun]
    cases p with
    | true => simp [decoded, ih, List.replicate_succ]
    | false => simp [decoded, ih, List.replicate_succ]

theorem bare_pairs (p : Bool) (k : Nat) (t : List α) :
    bare esc p (List.replicate (2 * k) esc ++ t) = bare esc p t := by
  induction k with
  | zero => rfl
  | succ k ih =>
    have hrun : List.replicate (2 * (k + 1)) esc ++ t =
        esc :: esc :: (List.replicate (2 * k) esc ++ t) := by
      rw [Nat.mul_succ, List.replicate_succ, List.replicate_succ, List.cons_append, List.cons_append]
    rw [hrun]
    cases p <;> simpa [bare] using ih

/-- A text starts with a run of escapes. -/
theorem run_append_rest (esc : α) (t : List α) :
    List.replicate (t.takeWhile (· = esc)).length esc ++ t.dropWhile (· = esc) = t := by
  have hrun : t.takeWhile (· = esc) = List.replicate (t.takeWhile (· = esc)).length esc := by
    refine List.eq_replicate_of_mem fun c hc => ?_
    simpa using List.mem_takeWhile_imp hc
  rw [← hrun, List.takeWhile_append_dropWhile]

theorem head_rest_ne {t : List α} {c : α} (h : (t.dropWhile (· = esc)).head? = some c) :
    c ≠ esc := by
  have hnot := List.head?_dropWhile_not (· = esc) t
  rw [h] at hnot
  simpa using hnot

end Escape
