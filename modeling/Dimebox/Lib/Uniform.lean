import Dimebox.Lib.Effect

/-! States a computation cannot tell apart.

    From two states that are related by `R`, a uniform computation returns the same value or throws
    the same error, and leaves two related states. -/

namespace Effect

variable {ε σ τ α β : Type} {R : σ → σ → Prop}

/-- The same outcome, in related states. -/
inductive Alike (R : σ → σ → Prop) : EStateM.Result ε σ α → EStateM.Result ε σ α → Prop where
  | ok (a : α) {s t : σ} (h : R s t) : Alike R (.ok a s) (.ok a t)
  | error (e : ε) {s t : σ} (h : R s t) : Alike R (.error e s) (.error e t)

theorem Alike.result_eq {r r' : EStateM.Result ε σ α} (h : Alike R r r') : result r = result r' := by
  cases h <;> rfl

theorem Alike.cases {r r' : EStateM.Result ε σ α} (h : Alike R r r') :
    (∃ a s t, r = .ok a s ∧ r' = .ok a t ∧ R s t) ∨
      ∃ e s t, r = .error e s ∧ r' = .error e t ∧ R s t := by
  cases h with
  | ok a h => exact .inl ⟨a, _, _, rfl, rfl, h⟩
  | error e h => exact .inr ⟨e, _, _, rfl, rfl, h⟩

def Uniform (R : σ → σ → Prop) (x : EStateM ε σ α) : Prop :=
  ∀ s t, R s t → Alike R (x.run s) (x.run t)

theorem uniform_pure (a : α) : Uniform R (pure a : EStateM ε σ α) := fun _ _ h => .ok a h

theorem uniform_throw (e : ε) : Uniform R (throw e : EStateM ε σ α) := fun _ _ h => .error e h

theorem uniform_lift (r : Except ε α) : Uniform R (lift r : EStateM ε σ α) := by
  cases r with
  | ok a => exact uniform_pure a
  | error e => exact uniform_throw e

theorem uniform_bind {x : EStateM ε σ α} {f : α → EStateM ε σ β} (hx : Uniform R x)
    (hf : ∀ a, Uniform R (f a)) : Uniform R (x >>= f) := by
  intro s t h
  rw [EStateM.run_bind, EStateM.run_bind]
  rcases (hx s t h).cases with ⟨a, s', t', hs, ht, h'⟩ | ⟨e, s', t', hs, ht, h'⟩
  · rw [hs, ht]
    exact hf a s' t' h'
  · rw [hs, ht]
    exact .error e h'

/-- Reading the state and going on alike. -/
theorem uniform_get_bind {f : σ → EStateM ε σ β} (heq : ∀ s t, R s t → f s = f t)
    (hf : ∀ s, Uniform R (f s)) : Uniform R (get >>= f) := by
  intro s t h
  rw [EStateM.run_bind, EStateM.run_bind, EStateM.run_get, EStateM.run_get]
  dsimp only
  rw [heq s t h]
  exact hf t s t h

theorem uniform_tryCatch {x : EStateM ε σ α} {h : ε → EStateM ε σ α} (hx : Uniform R x)
    (hh : ∀ e, Uniform R (h e)) : Uniform R (tryCatch x h) := by
  intro s t hst
  rw [run_tryCatch, run_tryCatch]
  rcases (hx s t hst).cases with ⟨a, s', t', hs, ht, h'⟩ | ⟨e, s', t', hs, ht, h'⟩
  · rw [hs, ht]
    exact .ok a h'
  · rw [hs, ht]
    exact hh e s' t' h'

theorem uniform_focus {Q : τ → τ → Prop} {get : σ → τ} {put : τ → σ → σ} {x : EStateM ε τ α}
    (hx : Uniform Q x) (hget : ∀ s t, R s t → Q (get s) (get t))
    (hput : ∀ s t s' t', R s t → Q s' t' → R (put s' s) (put t' t)) :
    Uniform R (focus get put x) := by
  intro s t h
  rw [run_focus, run_focus]
  rcases (hx _ _ (hget s t h)).cases with ⟨a, s', t', hs, ht, h'⟩ | ⟨e, s', t', hs, ht, h'⟩
  · rw [hs, ht]
    exact .ok a (hput _ _ _ _ h h')
  · rw [hs, ht]
    exact .error e (hput _ _ _ _ h h')

end Effect
