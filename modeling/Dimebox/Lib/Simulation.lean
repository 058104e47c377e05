import Mathlib.Data.List.Basic
import Mathlib.Tactic.Common

/-! Backward simulation.

    A concrete system is compared with an abstract machine whose steps are labelled and may be
    missing. `R` relates a concrete state to every abstract state it may stand for; some of what the
    abstract state holds is settled only later in the concrete run, so that a run is matched from its
    end: whatever the last state stands for, the first one stands for something that leads there, and
    that passes through something every state between stands for (`LeadsAlong.matched`). -/

namespace Simulation

variable {A C L : Type} (R : C → A → Prop) (step : L → A → Option A)

/-- The steps `ls` of the abstract machine, one after the other. -/
def run (ls : List L) (a : A) : Option A := ls.foldlM (fun a l => step l a) a

@[simp] theorem run_nil (a : A) : run step [] a = some a := rfl

theorem run_cons (l : L) (ls : List L) (a : A) :
    run step (l :: ls) a = (step l a).bind (run step ls) := rfl

@[simp] theorem run_singleton (l : L) (a : A) : run step [l] a = step l a := by
  rw [run_cons]
  cases step l a <;> rfl

theorem run_append (ls ls' : List L) (a : A) :
    run step (ls ++ ls') a = (run step ls a).bind (run step ls') := List.foldlM_append

/-- Whatever `c'` stands for is where the steps `ls` lead from something `c` stands for. -/
def Leads (c : C) (ls : List L) (c' : C) : Prop :=
  ∀ a', R c' a' → ∃ a, R c a ∧ run step ls a = some a'

/-- A path of the concrete system, in legs: the steps of each, and the state it ends in. -/
abbrev Path (C L : Type) := List (List L × C)

/-- The steps of a path. -/
def labels (path : Path C L) : List L := path.flatMap Prod.fst

/-- Where a path from `c` ends. -/
def last : C → Path C L → C
  | c, [] => c
  | _, (_, c) :: path => last c path

/-- The legs of a path from `c` are matched from their ends. -/
def LeadsAlong : C → Path C L → Prop
  | _, [] => True
  | c, (ls, c') :: path => Leads R step c ls c' ∧ LeadsAlong c' path

/-- From `a` the steps of the path are possible, and at the end of every leg they have led to
    something the state there stands for. -/
def Matches : A → Path C L → Prop
  | _, [] => True
  | a, (ls, c) :: path => ∃ a', run step ls a = some a' ∧ R c a' ∧ Matches a' path

variable {R step} {c c₁ c' : C} {ls ls' : List L}

theorem Leads.of_same (h : ∀ a, R c' a → R c a) : Leads R step c [] c' :=
  fun a' ha => ⟨a', h a' ha, rfl⟩

theorem Leads.trans (h : Leads R step c ls c₁) (h' : Leads R step c₁ ls' c') :
    Leads R step c (ls ++ ls') c' := by
  intro a' ha'
  obtain ⟨a₁, ha₁, hrun'⟩ := h' a' ha'
  obtain ⟨a, ha, hrun⟩ := h a₁ ha₁
  refine ⟨a, ha, ?_⟩
  rw [run_append, hrun]
  exact hrun'

/-! ### Paths -/

variable {path path' : Path C L}

@[simp] theorem labels_nil : labels ([] : Path C L) = [] := rfl

@[simp] theorem labels_cons (ls : List L) (c : C) (path : Path C L) :
    labels ((ls, c) :: path) = ls ++ labels path := rfl

@[simp] theorem labels_append (path path' : Path C L) :
    labels (path ++ path') = labels path ++ labels path' := List.flatMap_append

@[simp] theorem last_append (c : C) (path path' : Path C L) :
    last c (path ++ path') = last (last c path) path' := by
  induction path generalizing c with
  | nil => rfl
  | cons leg path ih => exact ih leg.2

theorem LeadsAlong.append (h : LeadsAlong R step c path)
    (h' : LeadsAlong R step (last c path) path') : LeadsAlong R step c (path ++ path') := by
  induction path generalizing c with
  | nil => exact h'
  | cons leg path ih => exact ⟨h.1, ih h.2 h'⟩

/-- One abstract state accompanies the whole path. -/
theorem LeadsAlong.matched (h : LeadsAlong R step c path) {a' : A} (ha' : R (last c path) a') :
    ∃ a, R c a ∧ Matches R step a path ∧ run step (labels path) a = some a' := by
  induction path generalizing c with
  | nil => exact ⟨a', ha', trivial, rfl⟩
  | cons leg path ih =>
    obtain ⟨ls, c₁⟩ := leg
    obtain ⟨hleg, hrest⟩ := h
    obtain ⟨a₁, ha₁, hmatches, hrun'⟩ := ih hrest ha'
    obtain ⟨a, ha, hrun⟩ := hleg a₁ ha₁
    refine ⟨a, ha, ⟨a₁, hrun, ha₁, hmatches⟩, ?_⟩
    rw [labels_cons, run_append, hrun]
    exact hrun'

end Simulation
