import Mathlib.Data.List.Basic

/-! Runs of a labelled transition system.

    A step has a label if it is visible; a run is listed by the labels of its visible steps. -/

namespace Trace

variable {σ ε : Type} {Step : σ → Option ε → σ → Prop} {s s₁ s' : σ} {xs ys : List ε}

/-- A sequence of steps, with the labels of the visible ones. -/
inductive Run (Step : σ → Option ε → σ → Prop) : σ → List ε → σ → Prop where
  | refl (s : σ) : Run Step s [] s
  | tail {s s₁ s' : σ} {xs : List ε} {o : Option ε} (h : Run Step s xs s₁) (hs : Step s₁ o s') :
      Run Step s (xs ++ o.toList) s'

namespace Run

theorem single {o : Option ε} (h : Step s o s') : Run Step s o.toList s' := (Run.refl s).tail h

theorem trans (h : Run Step s xs s₁) (h' : Run Step s₁ ys s') : Run Step s (xs ++ ys) s' := by
  induction h' with
  | refl => rw [List.append_nil]; exact h
  | tail _ hs ih => rw [← List.append_assoc]; exact ih.tail hs

/-- A step without a label. -/
theorem tail_silent (h : Run Step s xs s₁) (hs : Step s₁ none s') : Run Step s xs s' := by
  have hrun := h.tail hs
  rwa [Option.toList_none, List.append_nil] at hrun

/-- What holds at the start and is kept by every step whose label meets `ok` holds at the end. -/
theorem invariant {P : σ → Prop} {ok : ε → Prop}
    (hstep : ∀ {s o s'}, Step s o s' → (∀ x ∈ o, ok x) → P s → P s') (h : Run Step s xs s')
    (hok : ∀ x ∈ xs, ok x) (hs : P s) : P s' := by
  induction h with
  | refl => exact hs
  | tail _ hlast ih =>
    refine hstep hlast (fun x hx => hok x ?_) (ih fun x hx => hok x (List.mem_append_left _ hx))
    exact List.mem_append_right _ (Option.mem_toList.mpr hx)

/-- A run can be cut at every label. -/
theorem split {x : ε} : Run Step s (xs ++ x :: ys) s' → ∃ s₁ s₂,
    Run Step s xs s₁ ∧ Step s₁ (some x) s₂ ∧ Run Step s₂ ys s' := by
  generalize hl : xs ++ x :: ys = l
  intro h
  induction h generalizing ys with
  | refl => simp at hl
  | @tail t₁ s' l' o h hs ih =>
    cases o with
    | none =>
      rw [Option.toList_none, List.append_nil] at hl
      obtain ⟨t, t', hpre, hx, hpost⟩ := ih hl
      exact ⟨t, t', hpre, hx, hpost.tail_silent hs⟩
    | some y =>
      rcases List.eq_nil_or_concat ys with rfl | ⟨zs, z, rfl⟩
      · obtain ⟨rfl, hy⟩ := List.append_inj' hl rfl
        obtain rfl : x = y := by simpa using hy
        exact ⟨t₁, s', h, hs, .refl s'⟩
      · have hcons : xs ++ x :: (zs ++ [z]) = (xs ++ x :: zs) ++ [z] := by simp
        rw [List.concat_eq_append, hcons] at hl
        obtain ⟨hl', hz⟩ := List.append_inj' hl rfl
        obtain rfl : z = y := by simpa using hz
        obtain ⟨t, t', hpre, hx, hpost⟩ := ih hl'
        exact ⟨t, t', hpre, hx, by rw [List.concat_eq_append]; exact hpost.tail hs⟩

end Run

end Trace
