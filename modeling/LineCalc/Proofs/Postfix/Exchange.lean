import LineCalc.Proofs.Postfix.Conversion
import LineCalc.Proofs.Postfix.Evaluation

/-!
# Operands for operands

A conversion moves its operands about without looking at them. So if other operands are put in the place of
the operands of a list, the list is converted to the same order with the other operands in it, or refused for
the same reason. An evaluation knows nothing of an operand but its value, so operands of the same value may
stand for each other.
-/

namespace LineCalc

/-- Another operand in the place of the token, if it is one. -/
def Token.mapOperand (f : Operand → Operand) (t : Token) : Token :=
  match t.operand? with
  | some a => (f a).token
  | none => t

/-- A queue with every item changed. -/
def Queue.map {α β : Type} (f : α → β) (q : Queue α) : Queue β := ⟨q.front.map f, q.back.map f⟩

namespace Queue

variable {α β : Type} (f : α → β) (q : Queue α)

/-- The items are changed where they stand. -/
@[simp]
lemma toList_map : (q.map f).toList = q.toList.map f := by
  simp [toList, map]

/-- A changed item may be enqueued, or the item be changed in the queue. -/
lemma enqueue_map (a : α) : (q.map f).enqueue (f a) = (q.enqueue a).map f := rfl

/-- Changed items may be appended, or the items be changed in the queue. -/
lemma append_map (items : List α) : (q.map f).append (items.map f) = (q.append items).map f := by
  induction items generalizing q with
  | nil => rfl
  | cons a items ih => exact ih (q.enqueue a)

end Queue

variable {f : Operand → Operand}

/-- The token of an operand becomes that of the other operand. -/
@[simp]
lemma Token.mapOperand_token (a : Operand) : a.token.mapOperand f = (f a).token := by
  rw [mapOperand, operand?_token]

namespace Postfix

/-- What waits are symbols, which stay as they are. -/
lemma map_mapOperand_token (waiting : List Pending) :
    (waiting.map Pending.token).map (Token.mapOperand f) = waiting.map Pending.token :=
  List.map_map

namespace Conversion

/-- The conversion that has written the other operands. -/
def mapOperands (f : Operand → Operand) (s : Conversion) : Conversion :=
  { s with output := s.output.map (Token.mapOperand f) }

variable (s : Conversion) (position : Nat)

section Fields

/-- What has been written is exchanged token by token. -/
@[simp]
lemma output_mapOperands : (s.mapOperands f).output = s.output.map (Token.mapOperand f) := rfl

/-- Nothing that waits is exchanged. -/
@[simp]
lemma pending_mapOperands : (s.mapOperands f).pending = s.pending := rfl

/-- No group is opened or closed by an exchange. -/
@[simp]
lemma openGroups_mapOperands : (s.mapOperands f).openGroups = s.openGroups := rfl

/-- An operand is expected as before the exchange. -/
@[simp]
lemma expectsOperand_mapOperands : (s.mapOperands f).expectsOperand = s.expectsOperand := rfl

end Fields

section Step

/-- Operators are released in the same way after an exchange. -/
lemma release_mapOperands (test : Pending → Bool) :
    (s.mapOperands f).release test = (s.release test).mapOperands f := by
  have written := Queue.append_map (Token.mapOperand f) s.output ((s.pending.popWhile test).1.map Pending.token)
  rw [map_mapOperand_token] at written
  simp only [release, mapOperands, written]

/-- Groups are closed in the same way after an exchange. -/
lemma closeGroup_mapOperands : (s.mapOperands f).closeGroup = s.closeGroup.mapOperands f := by
  rw [closeGroup, closeGroup, release_mapOperands]
  simp only [pending_mapOperands]
  cases (s.release fun p => !p.isOpening).pending.pop? <;> rfl

/-- The other operand is taken where the operand is. -/
lemma takeOperand_mapOperands (a : Operand) :
    (s.mapOperands f).takeOperand position (f a).token =
      (s.takeOperand position a.token).map (mapOperands f) := by
  have written := Queue.enqueue_map (Token.mapOperand f) s.output a.token
  rw [Token.mapOperand_token] at written
  rw [takeOperand, takeOperand, expectsOperand_mapOperands]
  split
  · exact congrArg Except.ok (congrArg (fun output => { s with output, expectsOperand := false }) written)
  · rfl

/-- Symbols are taken in the same way after an exchange. -/
lemma takeSymbol_mapOperands (symbol : Symbol) :
    (s.mapOperands f).takeSymbol position symbol = (s.takeSymbol position symbol).map (mapOperands f) := by
  cases symbol with
  | negation =>
    rw [takeSymbol, takeSymbol, expectsOperand_mapOperands]
    split <;> rfl
  | opening =>
    rw [takeSymbol, takeSymbol, expectsOperand_mapOperands]
    split <;> rfl
  | closing =>
    rw [takeSymbol, takeSymbol, openGroups_mapOperands, expectsOperand_mapOperands, closeGroup_mapOperands]
    split
    · rfl
    · split <;> rfl
  | binary op =>
    rw [takeSymbol, takeSymbol, expectsOperand_mapOperands, release_mapOperands]
    split <;> rfl

/-- Each step takes the other operands as it takes the operands. -/
lemma step_mapOperands (t : Token) :
    (s.mapOperands f).step position (t.mapOperand f) = (s.step position t).map (mapOperands f) := by
  cases t.view with
  | operand a =>
    rw [Token.mapOperand_token, step_operand, step_operand]
    exact takeOperand_mapOperands s position a
  | symbol symbol =>
    have same : (Token.ofSymbol symbol).mapOperand f = .ofSymbol symbol := rfl
    rw [same, step_ofSymbol, step_ofSymbol]
    exact takeSymbol_mapOperands s position symbol
  | @unknown c meaningless =>
    have same : (Token.symbol c).mapOperand f = .symbol c := rfl
    rw [same, step, step, meaningless]
    rfl

end Step

/-- A run that has taken the other operands in the place of its own has come to the same point. -/
lemma steps_mapOperands (ts : List Token) :
    (s.mapOperands f).steps position (ts.map (Token.mapOperand f)) =
      (s.steps position ts).map (mapOperands f) := by
  induction ts generalizing s position with
  | nil => rfl
  | cons t ts ih =>
    rw [List.map_cons, steps, steps, step_mapOperands]
    cases s.step position t with
    | error e => rfl
    | ok s' => exact ih s' (position + 1)

/-- The end is the same after an exchange. -/
lemma finish_mapOperands (length : Nat) :
    (s.mapOperands f).finish length = (s.finish length).map (List.map (Token.mapOperand f)) := by
  rw [finish, finish, expectsOperand_mapOperands, pending_mapOperands]
  split
  · rfl
  · cases s.pending.items.find? Pending.isOpening with
    | some group => rfl
    | none =>
      apply congrArg Except.ok
      rw [Queue.toList_append, Queue.toList_append, output_mapOperands, Queue.toList_map, List.map_append,
        map_mapOperand_token]

end Conversion

/-- Other operands are found at the same places after a conversion, or it fails for the same reason. -/
theorem ofTokens_mapOperand (ts : List Token) :
    ofTokens (ts.map (Token.mapOperand f)) = (ofTokens ts).map (List.map (Token.mapOperand f)) := by
  have run := Conversion.steps_mapOperands (f := f) .start 0 ts
  have start : Conversion.start.mapOperands f = .start := rfl
  rw [start] at run
  rw [ofTokens, ofTokens, run, List.length_map]
  cases Conversion.start.steps 0 ts with
  | error e => rfl
  | ok s => exact Conversion.finish_mapOperands s ts.length

section SameValue

variable (same : ∀ a, (f a).value = a.value)

include same

/-- Operands of the same value are evaluated in the same way. -/
lemma evaluateToken_mapOperand (values : Stack Float) (t : Token) :
    evaluateToken values (t.mapOperand f) = evaluateToken values t := by
  cases t.view with
  | operand a => rw [Token.mapOperand_token, evaluateToken_token, evaluateToken_token, same]
  | symbol symbol => rfl
  | unknown meaningless => rfl

/-- Nothing but the values of operands makes a difference to an evaluation. -/
theorem evaluate_mapOperand (ts : List Token) : evaluate (ts.map (Token.mapOperand f)) = evaluate ts := by
  rw [evaluate, evaluate, List.foldlM_map]
  simp only [evaluateToken_mapOperand same]

end SameValue

end Postfix

end LineCalc
