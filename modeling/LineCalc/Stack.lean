/-!
# Stacks

A stack gives back last what it was given first. It is seen as the list of its items from the bottom
to the top.
-/

namespace LineCalc

/-- A stack, held as the list of its items from the top down. -/
structure Stack (α : Type) where
  items : List α

namespace Stack

variable {α : Type}

/-- The stack without items. -/
def empty : Stack α := ⟨[]⟩

/-- The items from the bottom to the top. -/
def toList (s : Stack α) : List α := s.items.reverse

/-- How many items there are. -/
def size (s : Stack α) : Nat := s.items.length

/-- Whether there are no items. -/
def isEmpty (s : Stack α) : Bool := s.items.isEmpty

/-- One more item on top. -/
def push (s : Stack α) (a : α) : Stack α := ⟨a :: s.items⟩

/-- The item on top, which stays there. -/
def peek? (s : Stack α) : Option α := s.items.head?

/-- The item on top and the stack without it. -/
def pop? (s : Stack α) : Option (α × Stack α) :=
  match s.items with
  | [] => none
  | a :: rest => some (a, ⟨rest⟩)

/-- The item on top if it passes the test, and the stack without it. -/
def popIf? (s : Stack α) (test : α → Bool) : Option (α × Stack α) :=
  s.pop?.filter fun popped => test popped.1

/-- The items above the topmost one that fails the test, the top first, and the stack without them. -/
def popWhile (s : Stack α) (test : α → Bool) : List α × Stack α :=
  (s.items.takeWhile test, ⟨s.items.dropWhile test⟩)

/-- An empty stack has no items. -/
@[simp]
theorem toList_empty : (empty : Stack α).toList = [] := rfl

/-- What is pushed is on top. -/
@[simp]
theorem toList_push (s : Stack α) (a : α) : (s.push a).toList = s.toList ++ [a] := by
  simp [toList, push]

/-- What is popped is the last item, and the others stay. -/
theorem pop?_eq_some_iff {s rest : Stack α} {a : α} :
    s.pop? = some (a, rest) ↔ s.toList = rest.toList ++ [a] := by
  obtain ⟨items⟩ := s
  obtain ⟨others⟩ := rest
  cases items with
  | nil => simp [pop?, toList]
  | cons b items =>
    have reversed : items.reverse = others.reverse ↔ items = others := List.reverse_inj
    simp [pop?, toList, reversed, and_comm]

/-- Taking items while they pass the test splits the stack. -/
theorem toList_popWhile (s : Stack α) (test : α → Bool) :
    (s.popWhile test).2.toList ++ (s.popWhile test).1.reverse = s.toList := by
  simp [popWhile, toList, ← List.reverse_append, List.takeWhile_append_dropWhile]

end Stack

end LineCalc
