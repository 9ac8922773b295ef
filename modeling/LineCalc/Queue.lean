/-!
# Queues

A queue gives back first what it was given first. It is seen as the list of its items from the front
to the back. The back is held in reverse, so that an item joins or leaves at a cost that is constant
on average.
-/

namespace LineCalc

/-- A queue: the items in front, and behind them the others with the newest first. -/
structure Queue (α : Type) where
  front : List α
  back : List α

namespace Queue

variable {α : Type}

/-- The queue without items. -/
def empty : Queue α := ⟨[], []⟩

/-- The items from the front to the back. -/
def toList (q : Queue α) : List α := q.front ++ q.back.reverse

/-- One more item at the back. -/
def enqueue (q : Queue α) (a : α) : Queue α := { q with back := a :: q.back }

/-- All items of a list at the back, in their order. -/
def append (q : Queue α) (items : List α) : Queue α := items.foldl enqueue q

/-- The item in front, and the queue without it. -/
def dequeue? (q : Queue α) : Option (α × Queue α) :=
  match q.front with
  | a :: front => some (a, { q with front })
  | [] =>
    match q.back.reverse with
    | a :: front => some (a, ⟨front, []⟩)
    | [] => none

/-- An empty queue has no items. -/
@[simp]
theorem toList_empty : (empty : Queue α).toList = [] := rfl

/-- What is enqueued is last. -/
@[simp]
theorem toList_enqueue (q : Queue α) (a : α) : (q.enqueue a).toList = q.toList ++ [a] := by
  simp [toList, enqueue]

/-- Items that are appended are last, in their order. -/
@[simp]
theorem toList_append (q : Queue α) (items : List α) :
    (q.append items).toList = q.toList ++ items := by
  induction items generalizing q with
  | nil => simp [append]
  | cons a items ih => exact (ih (q.enqueue a)).trans (by simp)

/-- What leaves the queue is its first item, and the others keep their order. -/
theorem dequeue?_map_toList (q : Queue α) :
    q.dequeue?.map (fun (a, rest) => a :: rest.toList) =
      if q.toList = [] then none else some q.toList := by
  obtain ⟨front, back⟩ := q
  cases front with
  | cons a front => simp [dequeue?, toList]
  | nil =>
    cases reversed : back.reverse with
    | nil => simp [dequeue?, toList, reversed]
    | cons a front => simp [dequeue?, toList, reversed]

end Queue

end LineCalc
