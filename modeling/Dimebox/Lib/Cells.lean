import Mathlib.Logic.Function.Basic
import Mathlib.Tactic.Common

/-! Memories whose cells are settled lazily.

    A cell of such a memory has no value until something touches it, and then keeps it until it is
    written. `View` says which cells are settled and to what. A run that only settles cells and
    writes them cannot be told from a run over a total memory that held the right values from the
    start: `exists_initial` finds those values by going through the run backwards, a write undoing
    what it wrote. -/

namespace Cells

variable {A V : Type}

/-- The settled cells and their values. -/
abbrev View (A V : Type) := A → Option V

/-- A read of one cell with the value it returned, or a write of one cell. -/
inductive Access (A V : Type) where
  | read (a : A) (v : V)
  | write (a : A) (v : V)

/-- `after` settles at least what `before` settles, to the same values. -/
def Grows (before after : View A V) : Prop := ∀ a v, before a = some v → after a = some v

theorem Grows.refl (s : View A V) : Grows s s := fun _ _ h => h

theorem Grows.trans {s t u : View A V} (h₁ : Grows s t) (h₂ : Grows t u) : Grows s u :=
  fun a v h => h₂ a v (h₁ a v h)

/-- What one access does to the view. -/
inductive Step : View A V → Access A V → View A V → Prop where
  | read {s t : View A V} {a : A} {v : V} (grow : Grows s t) (now : t a = some v) :
      Step s (.read a v) t
  | write {s t : View A V} {a : A} {v : V} (grow : ∀ b ≠ a, ∀ w, s b = some w → t b = some w)
      (now : t a = some v) : Step s (.write a v) t

/-- A run, as the list of its accesses; cells may be settled between two accesses. -/
inductive Run : View A V → List (Access A V) → View A V → Prop where
  | nil {s t : View A V} (grow : Grows s t) : Run s [] t
  | cons {s t u : View A V} {x : Access A V} {l : List (Access A V)} (head : Step s x t)
      (tail : Run t l u) : Run s (x :: l) u

theorem Run.append {s t u : View A V} {l l' : List (Access A V)} (h : Run s l t)
    (h' : Run t l' u) : Run s (l ++ l') u := by
  induction h with
  | nil grow =>
    cases h' with
    | nil grow' => exact .nil (grow.trans grow')
    | cons head tail =>
      refine .cons ?_ tail
      cases head with
      | read grow' now => exact .read (grow.trans grow') now
      | write grow' now => exact .write (fun b hb w hw => grow' b hb w (grow b w hw)) now
  | cons head _ ih => exact .cons head (ih h')

/-- Settled cells outside `W` keep their values. -/
def KeepsOff (W : List A) (before after : View A V) : Prop :=
  ∀ a v, before a = some v → a ∉ W → after a = some v

theorem KeepsOff.grows {s t : View A V} (h : KeepsOff [] s t) : Grows s t :=
  fun a v hs => h a v hs List.not_mem_nil

theorem KeepsOff.trans {W W' : List A} {s t u : View A V} (h : KeepsOff W s t)
    (h' : KeepsOff W' t u) : KeepsOff (W ++ W') s u := by
  intro a v hs hn
  rw [List.mem_append, not_or] at hn
  exact h' a v (h a v hs hn.1) hn.2

/-- `after` is `before` with the cells `f` says; a cell that had no value keeps none or draws one. -/
structure Overlaid {D : Type} (draw : D → V) (f before after : View A V) : Prop where
  covered : ∀ a v, f a = some v → after a = some v
  other : ∀ a, f a = none → after a = before a ∨ before a = none ∧ ∃ k, after a = some (draw k)

section Overlaid

variable {D : Type} {draw : D → V} {f g s t u : View A V}

theorem Overlaid.refl (draw : D → V) (s : View A V) : Overlaid draw (fun _ => none) s s :=
  ⟨fun _ _ h => (Option.some_ne_none _ h.symm).elim, fun _ _ => .inl rfl⟩

/-- The later overlay wins. -/
theorem Overlaid.trans (h : Overlaid draw f s t) (h' : Overlaid draw g t u) :
    Overlaid draw (fun a => (g a).or (f a)) s u := by
  constructor
  · intro a v ha
    rcases Option.or_eq_some_iff.mp ha with hg | ⟨hg, hf⟩
    · exact h'.covered a v hg
    · have hv := h.covered a v hf
      rcases h'.other a hg with hsame | ⟨hnone, -⟩
      · rw [hsame, hv]
      · rw [hv] at hnone
        cases hnone
  · intro a ha
    obtain ⟨hg, hf⟩ := Option.or_eq_none_iff.mp ha
    rcases h.other a hf with hsame | ⟨hnone, k, hk⟩
    · have hother := h'.other a hg
      rwa [hsame] at hother
    · rcases h'.other a hg with hsame' | ⟨hnone', -⟩
      · exact .inr ⟨hnone, k, hsame'.trans hk⟩
      · rw [hk] at hnone'
        cases hnone'

/-- A value that is not overlaid stays. -/
theorem Overlaid.keeps (h : Overlaid draw f s t) {a : A} {v : V} (hf : f a = none)
    (hv : s a = some v) : t a = some v := by
  rcases h.other a hf with hsame | ⟨hnone, -⟩
  · rw [hsame, hv]
  · rw [hv] at hnone
    cases hnone

end Overlaid

/-- A run keeps the cells it does not write. -/
theorem Run.keepsOff {s t : View A V} {l : List (Access A V)} (h : Run s l t) {W : List A}
    (hW : ∀ a v, Access.write a v ∈ l → a ∈ W) : KeepsOff W s t := by
  induction h with
  | nil grow => exact fun a v hs _ => grow a v hs
  | cons head _ ih =>
    intro a v hs hn
    refine ih (fun b w hb => hW b w (List.mem_cons_of_mem _ hb)) a v ?_ hn
    cases head with
    | read grow _ => exact grow a v hs
    | write grow _ =>
      refine grow a (fun hab => hn ?_) v hs
      subst hab
      exact hW _ _ (List.mem_cons_self ..)

/-- Reads of `addrs` returning `vals`, or writes of `vals` at `addrs`. -/
def reads (addrs : List A) (vals : List V) : List (Access A V) := List.zipWith .read addrs vals
def writes (addrs : List A) (vals : List V) : List (Access A V) := List.zipWith .write addrs vals

theorem not_mem_reads {a : A} {v : V} (addrs : List A) (vals : List V) :
    Access.write a v ∉ reads addrs vals := by
  induction addrs generalizing vals with
  | nil => exact List.not_mem_nil
  | cons b addrs ih =>
    cases vals with
    | nil => exact List.not_mem_nil
    | cons w vals =>
      intro h
      rcases List.mem_cons.mp h with h | h
      · cases h
      · exact ih vals h

/-- A read of a cell that is settled returns its value. -/
theorem Run.reads_settled {s t : View A V} {addrs : List A} {vals : List V}
    (h : Run s (reads addrs vals) t) (hlen : vals.length = addrs.length) {c : A → V}
    (hs : ∀ a ∈ addrs, s a = some (c a)) : vals = addrs.map c := by
  induction addrs generalizing s vals with
  | nil => exact List.length_eq_zero_iff.mp hlen
  | cons a addrs ih =>
    cases vals with
    | nil => cases hlen
    | cons v vals =>
      cases h with
      | cons head tail =>
        cases head with
        | read grow now =>
          have hv := (grow a (c a) (hs a List.mem_cons_self)).symm.trans now
          have hrest := ih tail (Nat.succ.inj hlen) fun b hb =>
            grow b (c b) (hs b (List.mem_cons_of_mem _ hb))
          rw [List.map_cons, Option.some.inj hv, hrest]

/-- Afterwards the cells that were read have the values returned. -/
theorem Run.settles {s t : View A V} {addrs : List A} {vals : List V} (h : Run s (reads addrs vals) t)
    {i : Nat} {a : A} {v : V} (ha : addrs[i]? = some a) (hv : vals[i]? = some v) : t a = some v := by
  induction addrs generalizing s vals i with
  | nil => cases ha
  | cons b addrs ih =>
    cases vals with
    | nil => cases hv
    | cons w vals =>
      cases h with
      | cons head tail =>
        cases i with
        | zero =>
          cases ha
          cases hv
          cases head with
          | read grow now =>
            exact (tail.keepsOff fun c x hx => absurd hx (not_mem_reads _ _)).grows a v now
        | succ i => exact ih tail ha hv

theorem mem_of_mem_writes {a : A} {v : V} (addrs : List A) (vals : List V)
    (h : Access.write a v ∈ writes addrs vals) : a ∈ addrs := by
  induction addrs generalizing vals with
  | nil => exact absurd h List.not_mem_nil
  | cons b addrs ih =>
    cases vals with
    | nil => exact absurd h List.not_mem_nil
    | cons w vals =>
      rcases List.mem_cons.mp h with h | h
      · cases h; exact List.mem_cons_self ..
      · exact List.mem_cons_of_mem _ (ih vals h)

/-- The total memory `c` agrees with every settled cell. -/
def Resolves (c : A → V) (s : View A V) : Prop := ∀ a v, s a = some v → c a = v

theorem Resolves.of_grows {c : A → V} {s t : View A V} (h : Resolves c t) (hg : Grows s t) :
    Resolves c s := fun a v ha => h a v (hg a v ha)

variable [DecidableEq A]

/-- The reads of the run return what a total memory that starts as `c` holds. -/
def Explains (c : A → V) : List (Access A V) → Prop
  | [] => True
  | .read a v :: l => c a = v ∧ Explains c l
  | .write a v :: l => Explains (Function.update c a v) l

/-- The total memory after the run. -/
def after (c : A → V) : List (Access A V) → A → V
  | [] => c
  | .read _ _ :: l => after c l
  | .write a v :: l => after (Function.update c a v) l

@[simp] theorem after_append (c : A → V) : ∀ l l' : List (Access A V),
    after c (l ++ l') = after (after c l) l'
  | [], _ => rfl
  | .read _ _ :: l, l' => after_append c l l'
  | .write a v :: l, l' => after_append (Function.update c a v) l l'

theorem explains_append (c : A → V) (l l' : List (Access A V)) :
    Explains c (l ++ l') ↔ Explains c l ∧ Explains (after c l) l' := by
  induction l generalizing c with
  | nil => simp [Explains, after]
  | cons x l ih =>
    cases x with
    | read a v => simp [Explains, after, ih, and_assoc]
    | write a v => simpa [Explains, after] using ih (Function.update c a v)

/-- Every run is a run over a total memory: some contents, fixed before the run starts, explain
    every read of it. -/
theorem exists_initial {s t : View A V} {l : List (Access A V)} (h : Run s l t) {c : A → V}
    (hc : Resolves c t) : ∃ c₀, Resolves c₀ s ∧ Explains c₀ l ∧ after c₀ l = c := by
  induction h with
  | nil grow => exact ⟨c, hc.of_grows grow, trivial, rfl⟩
  | @cons s t u x l head _ ih =>
    obtain ⟨c₁, hres, hexp, haft⟩ := ih hc
    cases head with
    | read grow now => exact ⟨c₁, hres.of_grows grow, ⟨hres _ _ now, hexp⟩, haft⟩
    | @write _ a v grow now =>
      -- before the write the cell held what it was settled to, if it was
      have hback : Function.update (Function.update c₁ a ((s a).getD v)) a v = c₁ := by
        rw [Function.update_idem]
        exact (Function.update_eq_iff).mpr ⟨(hres a v now).symm, fun _ _ => rfl⟩
      refine ⟨Function.update c₁ a ((s a).getD v), ?_, ?_, ?_⟩
      · intro b w hb
        by_cases hba : b = a
        · subst hba; simp [hb]
        · rw [Function.update_of_ne hba]; exact hres b w (grow b hba w hb)
      · rw [Explains, hback]; exact hexp
      · rw [after, hback]; exact haft

@[simp] theorem after_reads (c : A → V) : ∀ (addrs : List A) (vals : List V),
    after c (reads addrs vals) = c
  | [], _ => rfl
  | _ :: _, [] => rfl
  | _ :: addrs, _ :: vals => after_reads c addrs vals

theorem explains_reads (c : A → V) (addrs : List A) (vals : List V)
    (h : addrs.length = vals.length) : Explains c (reads addrs vals) ↔ vals = addrs.map c := by
  induction addrs generalizing vals with
  | nil =>
    have hnil : vals = [] := List.length_eq_zero_iff.mp h.symm
    simp [hnil, reads, Explains]
  | cons a addrs ih =>
    cases vals with
    | nil => simp at h
    | cons v vals =>
      have ih := ih vals (by simpa using h)
      simp only [reads, List.zipWith_cons_cons, Explains, List.map_cons, List.cons.injEq] at ih ⊢
      rw [ih, eq_comm (a := c a)]

end Cells
