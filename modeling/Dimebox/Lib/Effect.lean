import Mathlib.Tactic.Common

/-! Effects of C++ member functions: a state, and exceptions that do not roll it back.

    A member function is an `EStateM ε σ α`: it reads and writes the object `σ` and may throw an
    `ε`; what it wrote before the throw stays written. `focus` runs a member function of a
    sub-object, and `Moves R` says that every run — returned or thrown — moves the state along the
    relation `R`. The rules below derive `Moves` for a body from `Moves` for its parts, so that a
    frame condition is checked one statement at a time. -/

namespace Effect

variable {ε σ τ α β : Type}

/-- The state a run leaves behind, whether it returned or threw. -/
def final : EStateM.Result ε σ α → σ
  | .ok _ s => s
  | .error _ s => s

/-- Apply `f` to the state a run leaves behind. -/
def mapState (f : σ → τ) : EStateM.Result ε σ α → EStateM.Result ε τ α
  | .ok a s => .ok a (f s)
  | .error e s => .error e (f s)

/-- Run `x` on the part `get s` of the state and put the part it leaves back, also after a throw. -/
def focus (get : σ → τ) (put : τ → σ → σ) (x : EStateM ε τ α) : EStateM ε σ α := fun s =>
  mapState (fun t => put t s) (x.run (get s))

/-- A computation that only reads: return its value or throw its error. -/
def lift : Except ε α → EStateM ε σ α
  | .ok a => pure a
  | .error e => throw e

@[simp] theorem final_ok (a : α) (s : σ) : final (.ok a s : EStateM.Result ε σ α) = s := rfl
@[simp] theorem final_error (e : ε) (s : σ) : final (.error e s : EStateM.Result ε σ α) = s := rfl

@[simp] theorem mapState_ok (f : σ → τ) (a : α) (s : σ) :
    mapState f (.ok a s : EStateM.Result ε σ α) = .ok a (f s) := rfl

@[simp] theorem mapState_error (f : σ → τ) (e : ε) (s : σ) :
    mapState f (.error e s : EStateM.Result ε σ α) = .error e (f s) := rfl

@[simp] theorem final_mapState (f : σ → τ) (r : EStateM.Result ε σ α) :
    final (mapState f r) = f (final r) := by
  cases r <;> rfl

@[simp] theorem run_focus (get : σ → τ) (put : τ → σ → σ) (x : EStateM ε τ α) (s : σ) :
    (focus get put x).run s = mapState (fun t => put t s) (x.run (get s)) := rfl

@[simp] theorem run_lift_ok (a : α) (s : σ) : (lift (.ok a : Except ε α)).run s = .ok a s := rfl

@[simp] theorem run_lift_error (e : ε) (s : σ) :
    (lift (.error e : Except ε α) : EStateM ε σ α).run s = .error e s := rfl

@[simp] theorem run_throw (e : ε) (s : σ) :
    (throw e : EStateM ε σ α).run s = .error e s := rfl

@[simp] theorem run_tryCatch (x : EStateM ε σ α) (h : ε → EStateM ε σ α) (s : σ) :
    (tryCatch x h).run s = match x.run s with
      | .ok a s' => .ok a s'
      | .error e s' => (h e).run s' := by
  simp only [tryCatch, tryCatchThe, MonadExceptOf.tryCatch, EStateM.run, EStateM.tryCatch]
  cases x s <;> rfl

/-! ### Inversion -/

theorem ok_of_bind {x : EStateM ε σ α} {f : α → EStateM ε σ β} {s s' : σ} {b : β}
    (h : (x >>= f).run s = .ok b s') : ∃ a s₁, x.run s = .ok a s₁ ∧ (f a).run s₁ = .ok b s' := by
  rw [EStateM.run_bind] at h
  cases hx : x.run s with
  | ok a s₁ => rw [hx] at h; exact ⟨a, s₁, rfl, h⟩
  | error e s₁ => rw [hx] at h; cases h

/-- What a run returned, if it returned. -/
def result : EStateM.Result ε σ α → Option α
  | .ok a _ => some a
  | .error _ _ => none

theorem ok_of_result {r : EStateM.Result ε σ α} {a : α} (h : result r = some a) :
    ∃ s, r = .ok a s := by
  cases r with
  | ok b s => exact ⟨s, by rw [Option.some.inj h]⟩
  | error e s => cases h

/-- The result is a result of its own. -/
theorem ok_ok_of_result {δ : Type} {r : EStateM.Result ε σ (Except δ α)} {a : α}
    (h : (result r).map Except.toOption = some (some a)) : r = .ok (.ok a) (final r) := by
  cases r with
  | ok b s =>
    cases b with
    | ok c => rw [Option.some.inj (Option.some.inj h), final_ok]
    | error d => cases h
  | error e s => cases h

/-- What a run threw, if it threw. -/
def thrown : EStateM.Result ε σ α → Option ε
  | .ok _ _ => none
  | .error e _ => some e

theorem error_of_thrown {r : EStateM.Result ε σ α} {e : ε} (h : thrown r = some e) :
    r = .error e (final r) := by
  cases r with
  | ok a s => cases h
  | error e' s => rw [Option.some.inj h, final_error]

/-! ### Frame conditions -/

/-- Every run of `x`, thrown or not, moves the state along `R`. -/
def Moves (R : σ → σ → Prop) (x : EStateM ε σ α) : Prop := ∀ s, R s (final (x.run s))

section Rules

variable {R : σ → σ → Prop}

theorem moves_pure (hr : ∀ s, R s s) (a : α) : Moves R (pure a : EStateM ε σ α) := hr

theorem moves_throw (hr : ∀ s, R s s) (e : ε) : Moves R (throw e : EStateM ε σ α) := hr

theorem moves_throw_bind (hr : ∀ s, R s s) (e : ε) (f : α → EStateM ε σ β) :
    Moves R (throw e >>= f) := hr

theorem moves_lift (hr : ∀ s, R s s) (r : Except ε α) : Moves R (lift r : EStateM ε σ α) := by
  cases r <;> exact hr

theorem moves_bind (ht : ∀ {a b c}, R a b → R b c → R a c) {x : EStateM ε σ α}
    {f : α → EStateM ε σ β} (hx : Moves R x) (hf : ∀ a, Moves R (f a)) : Moves R (x >>= f) := by
  intro s
  have h := hx s
  rw [EStateM.run_bind]
  cases hrun : x.run s with
  | ok a s' => rw [hrun] at h; exact ht h (hf a s')
  | error e s' => rw [hrun] at h; exact h

theorem moves_tryCatch (ht : ∀ {a b c}, R a b → R b c → R a c) {x : EStateM ε σ α}
    {h : ε → EStateM ε σ α} (hx : Moves R x) (hh : ∀ e, Moves R (h e)) :
    Moves R (tryCatch x h) := by
  intro s
  have hs := hx s
  rw [run_tryCatch]
  cases hrun : x.run s with
  | ok a s' => rw [hrun] at hs; exact hs
  | error e s' => rw [hrun] at hs; exact ht hs (hh e s')

theorem moves_focus {Q : τ → τ → Prop} {get : σ → τ} {put : τ → σ → σ} {x : EStateM ε τ α}
    (hx : Moves Q x) (hput : ∀ s t, Q (get s) t → R s (put t s)) : Moves R (focus get put x) := by
  intro s
  rw [run_focus, final_mapState]
  exact hput s _ (hx (get s))

end Rules

/-! ### What a computation does not look at -/

/-- `x` neither reads nor writes what `g` changes: it does the same before and after the change. -/
def Commutes (g : σ → σ) (x : EStateM ε σ α) : Prop := ∀ s, x.run (g s) = mapState g (x.run s)

section Commuting

variable {g : σ → σ}

theorem commutes_pure (a : α) : Commutes g (pure a : EStateM ε σ α) := fun _ => rfl

theorem commutes_throw (e : ε) : Commutes g (throw e : EStateM ε σ α) := fun _ => rfl

theorem commutes_lift (r : Except ε α) : Commutes g (lift r : EStateM ε σ α) := by
  cases r with
  | ok a => exact commutes_pure a
  | error e => exact commutes_throw e

theorem commutes_bind {x : EStateM ε σ α} {f : α → EStateM ε σ β} (hx : Commutes g x)
    (hf : ∀ a, Commutes g (f a)) : Commutes g (x >>= f) := by
  intro s
  rw [EStateM.run_bind, EStateM.run_bind, hx s]
  cases x.run s with
  | ok a s' => exact hf a s'
  | error e s' => rfl

/-- A part of the state is read that `g` does not change. -/
theorem commutes_get_bind {f : σ → EStateM ε σ β} (hg : ∀ s, f (g s) = f s)
    (hf : ∀ s, Commutes g (f s)) : Commutes g (get >>= f) := by
  intro s
  rw [EStateM.run_bind, EStateM.run_bind, EStateM.run_get, EStateM.run_get]
  dsimp only
  rw [hg s]
  exact hf s s

theorem commutes_tryCatch {x : EStateM ε σ α} {h : ε → EStateM ε σ α} (hx : Commutes g x)
    (hh : ∀ e, Commutes g (h e)) : Commutes g (tryCatch x h) := by
  intro s
  rw [run_tryCatch, run_tryCatch, hx s]
  cases x.run s with
  | ok a s' => rfl
  | error e s' => exact hh e s'

theorem commutes_focus {get : σ → τ} {put : τ → σ → σ} (hget : ∀ s, get (g s) = get s)
    (hput : ∀ t s, put t (g s) = g (put t s)) (x : EStateM ε τ α) :
    Commutes g (focus get put x) := by
  intro s
  rw [run_focus, run_focus, hget]
  cases x.run (get s) with
  | ok a t => exact congrArg (EStateM.Result.ok a) (hput t s)
  | error e t => exact congrArg (EStateM.Result.error e) (hput t s)

/-- What `g` does not change at the start it does not change at the end. -/
theorem Commutes.fixed {x : EStateM ε σ α} (hx : Commutes g x) {s : σ} (h : g s = s) :
    g (final (x.run s)) = final (x.run s) := by
  have hs := congrArg final (hx s)
  rw [h, final_mapState] at hs
  exact hs.symm

end Commuting

/-! ### Pre- and postconditions -/

/-- From a state that meets `P`, `x` returns as `Q` says or throws as `E` says. -/
def Triple (P : σ → Prop) (x : EStateM ε σ α) (Q : α → σ → Prop) (E : ε → σ → Prop) : Prop :=
  ∀ s, P s → match x.run s with
    | .ok a s' => Q a s'
    | .error e s' => E e s'

section Triples

variable {P : σ → Prop} {Q : α → σ → Prop} {Q' : β → σ → Prop} {E E' : ε → σ → Prop}

theorem Triple.ok {x : EStateM ε σ α} (h : Triple P x Q E) {s s' : σ} {a : α} (hs : P s)
    (hrun : x.run s = .ok a s') : Q a s' := by
  have hx := h s hs
  rwa [hrun] at hx

theorem Triple.error {x : EStateM ε σ α} (h : Triple P x Q E) {s s' : σ} {e : ε} (hs : P s)
    (hrun : x.run s = .error e s') : E e s' := by
  have hx := h s hs
  rwa [hrun] at hx

/-- The postconditions can be weakened. -/
theorem Triple.weaken {R : α → σ → Prop} {x : EStateM ε σ α} (h : Triple P x R E')
    (hQ : ∀ a s, R a s → Q a s) (hE : ∀ e s, E' e s → E e s) : Triple P x Q E := by
  intro s hs
  have hx := h s hs
  cases hrun : x.run s with
  | ok a s' => rw [hrun] at hx; exact hQ a s' hx
  | error e s' => rw [hrun] at hx; exact hE e s' hx

theorem triple_bind {x : EStateM ε σ α} {f : α → EStateM ε σ β} (hx : Triple P x Q E)
    (hf : ∀ a, Triple (Q a) (f a) Q' E) : Triple P (x >>= f) Q' E := by
  intro s hs
  have hxs := hx s hs
  rw [EStateM.run_bind]
  cases hrun : x.run s with
  | ok a s' => rw [hrun] at hxs; exact hf a s' hxs
  | error e s' => rw [hrun] at hxs; exact hxs

theorem triple_tryCatch {x : EStateM ε σ α} {h : ε → EStateM ε σ α} (hx : Triple P x Q E')
    (hh : ∀ e, Triple (E' e) (h e) Q E) : Triple P (tryCatch x h) Q E := by
  intro s hs
  have hxs := hx s hs
  rw [run_tryCatch]
  cases hrun : x.run s with
  | ok a s' => rw [hrun] at hxs; exact hxs
  | error e s' => rw [hrun] at hxs; exact hh e s' hxs

/-- A computation that keeps the precondition. -/
theorem triple_keep {x : EStateM ε σ α} (hx : Moves (fun s s' => P s → P s') x)
    (hE : ∀ e s, P s → E e s) : Triple P x (fun _ => P) E := by
  intro s hs
  have hxs := hx s hs
  cases hrun : x.run s with
  | ok a s' => rw [hrun] at hxs; exact hxs
  | error e s' => rw [hrun] at hxs; exact hE e s' hxs

end Triples

/-- Everything `x` returns meets `P`, and everything it throws meets `Q`. -/
def Yields (P : α → Prop) (Q : ε → Prop) (x : EStateM ε σ α) : Prop :=
  Triple (fun _ => True) x (fun a _ => P a) fun e _ => Q e

section Yielding

variable {P : α → Prop} {P' : β → Prop} {Q R : ε → Prop}

theorem Yields.ok {x : EStateM ε σ α} (h : Yields P Q x) {s s' : σ} {a : α}
    (hrun : x.run s = .ok a s') : P a := Triple.ok h trivial hrun

theorem Yields.error {x : EStateM ε σ α} (h : Yields P Q x) {s s' : σ} {e : ε}
    (hrun : x.run s = .error e s') : Q e := Triple.error h trivial hrun

theorem yields_pure {a : α} (h : P a) : Yields P Q (pure a : EStateM ε σ α) := fun _ _ => h

theorem yields_throw {e : ε} (h : Q e) : Yields P Q (throw e : EStateM ε σ α) := fun _ _ => h

theorem yields_throw_bind {e : ε} (h : Q e) (f : α → EStateM ε σ β) :
    Yields P' Q (throw e >>= f) := fun _ _ => h

theorem yields_lift {r : Except ε α} (hok : ∀ a, r = .ok a → P a) (herr : ∀ e, r = .error e → Q e) :
    Yields P Q (lift r : EStateM ε σ α) := by
  cases r with
  | ok a => exact yields_pure (hok a rfl)
  | error e => exact yields_throw (herr e rfl)

theorem yields_bind {x : EStateM ε σ α} {f : α → EStateM ε σ β} (hx : Yields P Q x)
    (hf : ∀ a, P a → Yields P' Q (f a)) : Yields P' Q (x >>= f) :=
  triple_bind hx fun a s ha => hf a ha s trivial

/-- The state is read. -/
theorem yields_get_bind {f : σ → EStateM ε σ β} (hf : ∀ s, Yields P' Q (f s)) :
    Yields P' Q (get >>= f) := fun s => hf s s

theorem yields_tryCatch {x : EStateM ε σ α} {h : ε → EStateM ε σ α} (hx : Yields P R x)
    (hh : ∀ e, R e → Yields P Q (h e)) : Yields P Q (tryCatch x h) :=
  triple_tryCatch hx fun e s he => hh e he s trivial

theorem yields_focus {get : σ → τ} {put : τ → σ → σ} {x : EStateM ε τ α} (hx : Yields P Q x) :
    Yields P Q (focus get put x) := by
  intro s _
  have hs := hx (get s) trivial
  rw [run_focus]
  cases hrun : x.run (get s) with
  | ok a t => rw [hrun] at hs; exact hs
  | error e t => rw [hrun] at hs; exact hs

end Yielding

end Effect
