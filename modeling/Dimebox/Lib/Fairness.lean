import Mathlib.Data.List.Nodup

/-! Schedules that consist of rounds.

    A round gives every participant at most one turn, in any order. Those that take part in every
    round have equally many turns after each of them, so they are never more than one turn apart, and
    in any stretch of the schedule they are at most two apart, whatever the orders. -/

namespace Fairness

variable {α : Type} [DecidableEq α] {rounds : List (List α)} {l : List α} {a b : α}

/-- After any number of turns. -/
theorem count_le_of_start (hnodup : ∀ r ∈ rounds, r.Nodup) (ha : ∀ r ∈ rounds, a ∈ r)
    (hb : ∀ r ∈ rounds, b ∈ r) (h : l <+: rounds.flatten) : l.count a ≤ l.count b + 1 := by
  induction rounds generalizing l with
  | nil =>
    obtain rfl : l = [] := List.prefix_nil.mp h
    simp
  | cons r rounds ih =>
    have hr := hnodup r List.mem_cons_self
    rw [List.flatten_cons] at h
    rcases List.prefix_or_prefix_of_prefix h (List.prefix_append r rounds.flatten) with
      hl | ⟨later, rfl⟩
    · -- within the first round
      have hone : l.count a ≤ r.count a := hl.sublist.count_le a
      rw [List.count_eq_one_of_mem hr (ha r List.mem_cons_self)] at hone
      omega
    · have hlater := ih (fun r' hr' => hnodup r' (List.mem_cons_of_mem _ hr'))
        (fun r' hr' => ha r' (List.mem_cons_of_mem _ hr'))
        (fun r' hr' => hb r' (List.mem_cons_of_mem _ hr')) ((List.prefix_append_right_inj r).mp h)
      rw [List.count_append, List.count_append,
        List.count_eq_one_of_mem hr (ha r List.mem_cons_self),
        List.count_eq_one_of_mem hr (hb r List.mem_cons_self)]
      omega

/-- In any stretch of the schedule. -/
theorem count_le_of_stretch (hnodup : ∀ r ∈ rounds, r.Nodup) (ha : ∀ r ∈ rounds, a ∈ r)
    (hb : ∀ r ∈ rounds, b ∈ r) (h : l <:+: rounds.flatten) : l.count a ≤ l.count b + 2 := by
  obtain ⟨before, after, hrounds⟩ := h
  have hupto := count_le_of_start hnodup ha hb (l := before ++ l) ⟨after, hrounds⟩
  have hbefore := count_le_of_start hnodup hb ha (l := before)
    ⟨l ++ after, by rw [← List.append_assoc]; exact hrounds⟩
  rw [List.count_append, List.count_append] at hupto
  omega

end Fairness
