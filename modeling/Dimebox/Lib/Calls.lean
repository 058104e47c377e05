import Mathlib.Data.List.Basic

/-! Sequences of calls on an object.

    `Always P` says that a property holds in every state a sequence of calls passes through,
    `Respects ok` that each call meets a condition in the state it is made in. If an invariant is
    kept by exactly the calls that meet the condition, and the others break the property at once,
    the two agree.

    `Latest` is for objects that remember: an entry of the history has set a key, and none after it
    has cleared it. -/

namespace Calls

variable {σ ι : Type} (step : σ → ι → σ)

/-- `P` holds after every prefix of the calls. -/
def Always (P : σ → Prop) (s : σ) (calls : List ι) : Prop := ∀ n, P ((calls.take n).foldl step s)

/-- Each call meets `ok` in the state it is made in. -/
def Respects (ok : σ → ι → Prop) : σ → List ι → Prop
  | _, [] => True
  | s, c :: calls => ok s c ∧ Respects ok (step s c) calls

variable {step} {P Inv : σ → Prop} {ok : σ → ι → Prop} {s : σ} {c : ι} {calls : List ι}

theorem always_nil : Always step P s [] ↔ P s := by simp [Always]

theorem always_cons : Always step P s (c :: calls) ↔ P s ∧ Always step P (step s c) calls := by
  constructor
  · intro h
    exact ⟨h 0, fun n => h (n + 1)⟩
  · rintro ⟨hs, h⟩ n
    cases n with
    | zero => exact hs
    | succ n => exact h n

theorem Always.start (h : Always step P s calls) : P s := h 0

/-- A condition that does not look at the state is one on the calls alone. -/
theorem respects_iff_forall {ok : ι → Prop} :
    Respects step (fun _ => ok) s calls ↔ ∀ c ∈ calls, ok c := by
  induction calls generalizing s with
  | nil => simp [Respects]
  | cons c calls ih => rw [Respects, ih, List.forall_mem_cons]

/-- Calls that meet the condition keep the invariant, so the property holds all along. -/
theorem always_of_respects (hP : ∀ {s}, Inv s → P s)
    (hkeep : ∀ {s c}, Inv s → ok s c → Inv (step s c)) (hs : Inv s)
    (h : Respects step ok s calls) : Always step P s calls := by
  induction calls generalizing s with
  | nil => exact always_nil.mpr (hP hs)
  | cons c calls ih => exact always_cons.mpr ⟨hP hs, ih (hkeep hs h.1) h.2⟩

/-- The first call that misses the condition breaks the property. -/
theorem respects_of_always (hkeep : ∀ {s c}, Inv s → ok s c → Inv (step s c))
    (hbreak : ∀ {s c}, Inv s → P (step s c) → ok s c) (hs : Inv s)
    (h : Always step P s calls) : Respects step ok s calls := by
  induction calls generalizing s with
  | nil => trivial
  | cons c calls ih =>
    obtain ⟨-, hrest⟩ := always_cons.mp h
    have hok : ok s c := hbreak hs hrest.start
    exact ⟨hok, ih (hkeep hs hok) hrest⟩

theorem always_iff_respects (hP : ∀ {s}, Inv s → P s)
    (hkeep : ∀ {s c}, Inv s → ok s c → Inv (step s c))
    (hbreak : ∀ {s c}, Inv s → P (step s c) → ok s c) (hs : Inv s) :
    Always step P s calls ↔ Respects step ok s calls :=
  ⟨respects_of_always hkeep hbreak hs, always_of_respects hP hkeep hs⟩

/-! ### Histories -/

variable {κ : Type} {sets clears : ι → κ → Prop} {history : List ι} {k : κ}

/-- An entry has set `k`, and no later one has cleared it. -/
def Latest (sets clears : ι → κ → Prop) (history : List ι) (k : κ) : Prop :=
  ∃ pre c post, history = pre ++ c :: post ∧ sets c k ∧ ∀ c' ∈ post, ¬ clears c' k

theorem not_latest_nil : ¬ Latest sets clears [] k := by
  rintro ⟨pre, c, post, h, -⟩
  cases pre <;> cases h

theorem Latest.exists_sets (h : Latest sets clears history k) : ∃ c ∈ history, sets c k := by
  obtain ⟨pre, c, post, rfl, hset, -⟩ := h
  exact ⟨c, List.mem_append_right _ List.mem_cons_self, hset⟩

theorem latest_append :
    Latest sets clears (history ++ [c]) k ↔
      sets c k ∨ (Latest sets clears history k ∧ ¬ clears c k) := by
  constructor
  · rintro ⟨pre, c₁, post, h, hset, hclear⟩
    rcases List.eq_nil_or_concat post with rfl | ⟨post, c₂, rfl⟩
    · obtain ⟨-, hc⟩ := List.append_inj' h rfl
      cases hc
      exact Or.inl hset
    · rw [List.concat_eq_append] at h hclear
      have hsplit : history ++ [c] = (pre ++ c₁ :: post) ++ [c₂] := by rw [h]; simp
      obtain ⟨rfl, hc⟩ := List.append_inj' hsplit rfl
      cases hc
      refine Or.inr ⟨⟨pre, c₁, post, rfl, hset, fun x hx => ?_⟩, ?_⟩
      · exact hclear x (List.mem_append_left _ hx)
      · exact hclear _ (List.mem_append_right _ (List.mem_singleton_self _))
  · rintro (hset | ⟨⟨pre, c₁, post, rfl, hset, hclear⟩, hlast⟩)
    · exact ⟨history, c, [], rfl, hset, by simp⟩
    · refine ⟨pre, c₁, post ++ [c], by simp, hset, ?_⟩
      intro x hx
      rcases List.mem_append.mp hx with hx | hx
      · exact hclear x hx
      · rw [List.mem_singleton.mp hx]
        exact hlast

end Calls
