import Mathlib.Data.Option.Basic
import Mathlib.Tactic.Common

/-! Loops: iterations of a partial function.

    `next` does one iteration; it is `none` if the loop is left. A loop ends if it performs finitely
    many iterations. `ends_of_progress` proves that with a measure that has to go down only now and
    then, and `not_ends_of_invariant` disproves it. -/

namespace Loop

variable {σ : Type} (next : σ → Option σ)

/-- The state after `n` iterations, if there are that many. -/
def iterate : Nat → σ → Option σ
  | 0, s => some s
  | n + 1, s => (next s).bind (iterate n)

theorem iterate_add (m n : Nat) (s : σ) :
    iterate next (m + n) s = (iterate next m s).bind (iterate next n) := by
  induction m generalizing s with
  | zero => rw [Nat.zero_add]; rfl
  | succ m ih =>
    rw [Nat.succ_add, iterate, iterate]
    cases next s with
    | none => rfl
    | some s' => exact ih s'

/-- The loop performs finitely many iterations. -/
def Ends (s : σ) : Prop := ∃ n, iterate next n s = none

variable {next} {s s' : σ}

theorem ends_of_none (h : next s = none) : Ends next s := ⟨1, by rw [iterate, h]; rfl⟩

/-- A loop ends if it ends from some later state. -/
theorem ends_of_iterate {n : Nat} (h : iterate next n s = some s') (hs' : Ends next s') :
    Ends next s := by
  obtain ⟨m, hm⟩ := hs'
  exact ⟨n + m, by rw [iterate_add, h]; exact hm⟩

/-- A loop that ends does so from every later state. -/
theorem Ends.later {n : Nat} (h : Ends next s) (hs' : iterate next n s = some s') :
    Ends next s' := by
  obtain ⟨m, hm⟩ := h
  refine ⟨m, ?_⟩
  have hsum : iterate next (m + n) s = none := by rw [iterate_add, hm]; rfl
  rw [Nat.add_comm, iterate_add, hs'] at hsum
  exact hsum

/-- A loop ends if from every state that it passes and that meets `I`, it ends or comes to a state
    that meets `I` and has a smaller measure. -/
theorem ends_of_progress (μ : σ → Nat) {I : σ → Prop}
    (progress : ∀ s, I s → Ends next s ∨ ∃ n s', iterate next n s = some s' ∧ I s' ∧ μ s' < μ s)
    (hs : I s) : Ends next s := by
  induction hμ : μ s using Nat.strongRecOn generalizing s with
  | ind m ih =>
    rcases progress s hs with hends | ⟨n, s', hn, hs', hlt⟩
    · exact hends
    · exact ends_of_iterate hn (ih (μ s') (hμ ▸ hlt) hs' rfl)

/-- A loop does not end if it keeps an invariant that makes it go on. -/
theorem not_ends_of_invariant {I : σ → Prop} (step : ∀ s, I s → ∃ s', next s = some s' ∧ I s')
    (hs : I s) : ¬ Ends next s := by
  rintro ⟨n, hn⟩
  induction n generalizing s with
  | zero => cases hn
  | succ n ih =>
    obtain ⟨s', hnext, hs'⟩ := step s hs
    rw [iterate, hnext] at hn
    exact ih hs' hn

end Loop
