import Dimebox.Lib.Calls

/-! Queues of bounded size.

    A queue holds what is pending, at most `cap` elements. `Traffic` follows the elements that were
    taken in and those that came out again: the pending ones are those in between, so what has come
    out is the beginning of what was taken in, and how many are pending follows from the counts. -/

/-- At most `cap` elements, the oldest first. -/
structure BoundedQueue (α : Type) (cap : Nat) where
  pending : List α
  bounded : pending.length ≤ cap

namespace BoundedQueue

variable {α : Type} {cap : Nat}

def empty : BoundedQueue α cap := ⟨[], Nat.zero_le cap⟩

/-- An element goes to the back, if there is room. -/
def put (q : BoundedQueue α cap) (x : α) : Bool × BoundedQueue α cap :=
  if h : q.pending.length < cap then
    (true, ⟨q.pending ++ [x], by rw [List.length_append]; exact h⟩)
  else (false, q)

/-- The one in front is taken, if there is one. -/
def get (q : BoundedQueue α cap) : Option α × BoundedQueue α cap :=
  (q.pending.head?, ⟨q.pending.tail,
    Nat.le_trans (List.length_tail ▸ Nat.sub_le _ _) q.bounded⟩)

theorem put_false_iff {q : BoundedQueue α cap} {x : α} :
    (q.put x).1 = false ↔ q.pending.length = cap := by
  have hle := q.bounded
  rw [put]
  split
  · next h => exact ⟨fun hput => (by cases hput), fun hcap => absurd h (by omega)⟩
  · next h => exact ⟨fun _ => by omega, fun _ => rfl⟩

theorem put_pending (q : BoundedQueue α cap) (x : α) :
    (q.put x).2.pending = q.pending ++ if (q.put x).1 then [x] else [] := by
  rw [put]
  split
  · rfl
  · exact (List.append_nil _).symm

/-- A queue, with what it has taken in and what it has given out. -/
structure Traffic (α : Type) (cap : Nat) where
  queue : BoundedQueue α cap
  accepted : List α := []
  returned : List α := []

namespace Traffic

variable {t : Traffic α cap}

def put (t : Traffic α cap) (x : α) : Traffic α cap :=
  { t with queue := (t.queue.put x).2, accepted := t.accepted ++ if (t.queue.put x).1 then [x] else [] }

def get (t : Traffic α cap) : Traffic α cap :=
  { t with queue := t.queue.get.2, returned := t.returned ++ t.queue.get.1.toList }

/-- What was taken in has come out, or is pending, in this order. -/
def InOrder (t : Traffic α cap) : Prop := t.returned ++ t.queue.pending = t.accepted

theorem inOrder_empty : InOrder { queue := (empty : BoundedQueue α cap) } := rfl

theorem InOrder.put (h : t.InOrder) (x : α) : (t.put x).InOrder := by
  rw [InOrder, Traffic.put]
  dsimp only
  rw [put_pending, ← List.append_assoc, h]

theorem InOrder.get (h : t.InOrder) : t.get.InOrder := by
  rw [InOrder, Traffic.get, ← show t.returned ++ t.queue.pending = t.accepted from h]
  dsimp only [BoundedQueue.get]
  rw [List.append_assoc]
  cases t.queue.pending <;> rfl

/-- How many are pending. -/
theorem InOrder.length_pending (h : t.InOrder) :
    t.queue.pending.length = t.accepted.length - t.returned.length := by
  rw [← show t.returned ++ t.queue.pending = t.accepted from h, List.length_append,
    Nat.add_sub_cancel_left]

theorem InOrder.returned_isPrefix (h : t.InOrder) : t.returned <+: t.accepted := ⟨_, h⟩

/-- The next one to come out. -/
theorem InOrder.head_pending (h : t.InOrder) :
    t.queue.pending.head? = t.accepted[t.returned.length]? := by
  rw [← show t.returned ++ t.queue.pending = t.accepted from h,
    List.getElem?_append_right (Nat.le_refl _), Nat.sub_self, List.head?_eq_getElem?]

end Traffic

end BoundedQueue
