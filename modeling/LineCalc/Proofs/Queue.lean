import LineCalc.Queue
import Mathlib.Tactic.Lemma

/-!
# Operations on a queue

Each operation hands out items from the front of the queue or puts one at its back. So the items it hands out
and those that it leaves are the items there were, and behind them the one it puts in. The items may all leave
at once or one after the other, which makes no difference to their order.
-/

namespace LineCalc.Queue

variable {α : Type} {q rest : Queue α} {a : α}

/-- What is dequeued was first. -/
lemma toList_of_dequeue? (left : q.dequeue? = some (a, rest)) : q.toList = a :: rest.toList := by
  have law := dequeue?_map_toList q
  rw [left] at law
  split at law
  · cases law
  · exact (Option.some.inj law).symm

/-- Where nothing can be dequeued there is nothing. -/
lemma toList_of_dequeue?_eq_none (nothing : q.dequeue? = none) : q.toList = [] := by
  have law := dequeue?_map_toList q
  rw [nothing] at law
  split at law
  · assumption
  · cases law

/-- The items that leave the queue one after the other, until none is left. -/
def drain (q : Queue α) : List α :=
  match _ : q.dequeue? with
  | some (a, rest) => a :: rest.drain
  | none => []
termination_by q.toList.length
decreasing_by
  have fewer := toList_of_dequeue? ‹q.dequeue? = some (a, rest)›
  rw [fewer]
  exact Nat.lt_succ_self _

/-- Items that leave one after the other leave in their order. -/
lemma drain_eq_toList (q : Queue α) : q.drain = q.toList := by
  fun_induction drain q with
  | case1 q a rest left ih => rw [ih, toList_of_dequeue? left]
  | case2 q nothing => exact (toList_of_dequeue?_eq_none nothing).symm

/-- What a queue is asked for. Whoever wants all of its items gets them as a list or one after the other. -/
inductive Operation (α : Type) where
  | enqueue (a : α)
  | dequeue
  | intoList
  | iterate

namespace Operation

/-- The item that an operation puts in, if it does. -/
def enqueued? : Operation α → Option α
  | .enqueue a => some a
  | _ => none

/-- What is to be handed out of the items that are queued. -/
def due (items : List α) : Operation α → List α
  | .enqueue _ => []
  | .dequeue => items.take 1
  | .intoList | .iterate => items

end Operation

/-- The items that are handed out, and the queue that is left. -/
def perform (q : Queue α) : Operation α → List α × Queue α
  | .enqueue a => ([], q.enqueue a)
  | .dequeue =>
    match q.dequeue? with
    | some (a, rest) => ([a], rest)
    | none => ([], q)
  | .intoList => (q.toList, empty)
  | .iterate => (q.drain, empty)

variable (q) (op : Operation α)

/-- An operation hands out what is due. -/
lemma perform_fst : (q.perform op).1 = op.due q.toList := by
  cases op with
  | enqueue a => rfl
  | dequeue =>
    rw [perform, Operation.due]
    split
    next left => rw [toList_of_dequeue? left, List.take_succ_cons, List.take_zero]
    next nothing => rw [toList_of_dequeue?_eq_none nothing, List.take_nil]
  | intoList => rfl
  | iterate => exact drain_eq_toList q

/-- An operation neither loses nor invents an item, and keeps the items in order. -/
lemma perform_conserves :
    (q.perform op).1 ++ (q.perform op).2.toList = q.toList ++ op.enqueued?.toList := by
  cases op with
  | enqueue a => exact toList_enqueue q a
  | dequeue =>
    rw [perform]
    split
    next left => exact (toList_of_dequeue? left).symm.trans (List.append_nil _).symm
    next nothing => exact (List.append_nil _).symm
  | intoList => rfl
  | iterate =>
    rw [perform, drain_eq_toList]
    rfl

end LineCalc.Queue
