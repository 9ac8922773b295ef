import LineCalc.Proofs.Queue
import LineCalc.Proofs.Stack

/-!
# Histories of queues and stacks

A container is used by one operation after the other, in any order and as often as one likes. Over its whole
history it neither loses nor invents an item: what was enqueued leaves the queue in the order in which it came,
or is still queued, and what was pushed stays on the stack until it is removed, the last item first.
-/

namespace LineCalc

namespace History

variable {σ ω ρ : Type} {perform : σ → ω → ρ × σ} {s : σ} {ops : List ω} {m : Nat}

/-- Operations that are performed one after the other, each with its answer. -/
def events (perform : σ → ω → ρ × σ) (s : σ) : List ω → List (ω × ρ)
  | [] => []
  | op :: ops => (op, (perform s op).1) :: events perform (perform s op).2 ops

/-- What operations make of the state. -/
def after (perform : σ → ω → ρ × σ) (s : σ) (ops : List ω) : σ :=
  ops.foldl (fun s op => (perform s op).2) s

/-- An event leads from the state at its time to the state at the next time. -/
lemma perform_after_take {op : ω} {answer : ρ} (here : (events perform s ops)[m]? = some (op, answer)) :
    perform (after perform s (ops.take m)) op = (answer, after perform s (ops.take (m + 1))) := by
  induction ops generalizing s m with
  | nil => cases here
  | cons first ops ih =>
    cases m with
    | zero =>
      cases here
      rfl
    | succ m => exact ih here

/-- Without an event the state stays. -/
lemma after_take_succ (ends : (events perform s ops)[m]? = none) :
    after perform s (ops.take (m + 1)) = after perform s (ops.take m) := by
  induction ops generalizing s m with
  | nil => rw [List.take_nil, List.take_nil]
  | cons first ops ih =>
    cases m with
    | zero => cases ends
    | succ m => exact ih ends

end History

open History

/-- What operations hand out and what they leave is what there was, and behind it what they enqueue. -/
lemma Queue.events_conserve {α : Type} (q : Queue α) (ops : List (Operation α)) :
    (events perform q ops).flatMap Prod.snd ++ (after perform q ops).toList =
      q.toList ++ ops.filterMap Operation.enqueued? := by
  induction ops generalizing q with
  | nil => exact (List.append_nil _).symm
  | cons op ops ih =>
    let next := (q.perform op).2
    calc
      _ = (q.perform op).1 ++ ((events perform next ops).flatMap Prod.snd ++ (after perform next ops).toList) :=
        List.append_assoc ..
      _ = (q.perform op).1 ++ (next.toList ++ ops.filterMap Operation.enqueued?) := by rw [ih]
      _ = (q.perform op).1 ++ next.toList ++ ops.filterMap Operation.enqueued? :=
        (List.append_assoc ..).symm
      _ = q.toList ++ op.enqueued?.toList ++ ops.filterMap Operation.enqueued? := by
        rw [perform_conserves]
      _ = q.toList ++ (op :: ops).filterMap Operation.enqueued? := by
        rw [List.append_assoc, List.filterMap_cons]
        cases op.enqueued? <;> rfl

namespace Stack

variable {α : Type} (ops : List (Operation α)) (m : Nat)

/-- At all times a stack holds what was pushed and has not been removed, in the order in which it was pushed. -/
lemma exists_dates :
    ∃ times, Dates (events perform empty ops) m times (after perform empty (ops.take m)).toList := by
  induction m with
  | zero => exact ⟨[], .nil⟩
  | succ m ih =>
    obtain ⟨times, dates⟩ := ih
    cases here : (events perform empty ops)[m]? with
    | none =>
      rw [after_take_succ here]
      exact ⟨times, dates.idle here⟩
    | some e =>
      have moves := moves_perform (after perform empty (ops.take m)) e.1
      rw [perform_after_take here] at moves
      exact dates.step here moves

end Stack

/-- Over all histories, what was enqueued is what has been handed out and behind it what is still queued. As long
as items are queued, they are handed out to whoever asks for them. A stack always holds what was pushed and has
not been removed, in the order in which it was pushed. Each removal takes what was pushed last of it, each answer
reports it, and where nothing is pushed or removed the stack stays as it is. -/
theorem items_conserved {α : Type} :
    (∀ ops : List (Queue.Operation α),
      let history := events Queue.perform .empty ops
      let queue := after Queue.perform .empty
      history.flatMap Prod.snd ++ (queue ops).toList = ops.filterMap Queue.Operation.enqueued? ∧
      ∀ m (op : Queue.Operation α) handed, history[m]? = some (op, handed) →
        handed = op.due (queue (ops.take m)).toList) ∧
    ∀ ops : List (Stack.Operation α),
      let history := events Stack.perform .empty ops
      let stack := after Stack.perform .empty
      (∀ m, ∃ times, Stack.Dates history m times (stack (ops.take m)).toList) ∧
      ∀ m (e : Stack.Event α), history[m]? = some e → Stack.Reports history m e ∧
        (e.pushed? = none → e.removed? = none → stack (ops.take (m + 1)) = stack (ops.take m)) := by
  constructor
  · refine fun ops => ⟨Queue.events_conserve .empty ops, fun m op handed here => ?_⟩
    rw [← Queue.perform_fst, perform_after_take here]
  · refine fun ops => ⟨Stack.exists_dates ops, fun m e here => ?_⟩
    obtain ⟨times, dates⟩ := Stack.exists_dates ops m
    have reports := dates.reports e.1
    have moves := Stack.moves_perform (after Stack.perform .empty (ops.take m)) e.1
    rw [perform_after_take here] at reports moves
    exact ⟨reports, moves.eq_of_none⟩

end LineCalc
