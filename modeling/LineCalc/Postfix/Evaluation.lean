import LineCalc.Binary64
import LineCalc.Stack
import LineCalc.Symbol
import LineCalc.Token

/-!
# Evaluation

A postfix list is evaluated with a stack of doubles.

## Arithmetic

What the operators do with doubles. Truth is 1 and falsehood 0; negation asks whether its operand is
a zero of either sign, conjunction and disjunction whether their operands are positive. The results of
the five arithmetic operators have to be finite, and nothing is divided by a zero. Integers take part
only where a double holds them exactly.
-/

namespace LineCalc

/-- How a postfix list falls short of an expression. -/
inductive Malformation
  | operandMissing (c : Char)
  | valueMissing
  | valuesLeft (count : Nat)
deriving DecidableEq, Repr

/-- Why an expression has no value. -/
inductive EvaluationError
  | divisionByZero
  | unsupportedOperator (c : Char)
  | malformed (reason : Malformation)
  | nonFinite (c : Char)
  | integerTooLarge (n : Int)
deriving DecidableEq, Repr

/-- What a report says of a list that is no expression. -/
def Malformation.details : Malformation → String
  | operandMissing c => "missing operand for '" ++ c.toString ++ "'"
  | valueMissing => "no value left on the stack"
  | valuesLeft count => toString count ++ " values left on the stack"

/-- What a report says of an expression without a value. -/
def EvaluationError.message : EvaluationError → String
  | divisionByZero => "Division by zero."
  | unsupportedOperator c => "Unsupported operator '" ++ c.toString ++ "'."
  | malformed reason => "Malformed expression: " ++ reason.details ++ "."
  | nonFinite c => "Result of '" ++ c.toString ++ "' is not a finite number."
  | integerTooLarge n =>
    "Integer " ++ toString n ++ " cannot be represented exactly as a real number."

namespace Arithmetic

/-- The greatest magnitude of an integer that takes part in arithmetic. -/
def maxExactInteger : Nat := 9007199254740991

/-- The double of an integer that a double holds exactly, with room to tell its neighbours apart. -/
def ofInteger (n : Int) : Except EvaluationError Float :=
  if n.natAbs ≤ maxExactInteger then .ok (Binary64.ofInt n) else .error (.integerTooLarge n)

/-- A truth value as a number. -/
def truth (b : Bool) : Float := Binary64.ofInt (if b then 1 else 0)

/-- Whether a number is a zero of either sign. -/
def isZero (x : Float) : Bool := Binary64.magnitudeBits x == 0

/-- A result that has to be finite. -/
def finite (c : Char) (x : Float) : Except EvaluationError Float :=
  if Binary64.magnitudeBits x < Binary64.infinityBits then .ok x else .error (.nonFinite c)

/-- Truth for a zero, falsehood for everything else. -/
def negate (x : Float) : Float := truth (isZero x)

/-- Whether a number counts as true for the connectives. -/
def isPositive (x : Float) : Bool := decide ((0 : Float) < x)

/-- The value of a binary operator. -/
def combine (op : BinaryOperator) (left right : Float) : Except EvaluationError Float :=
  match op with
  | .add => finite op.char (left + right)
  | .subtract => finite op.char (left - right)
  | .multiply => finite op.char (left * right)
  | .divide => if isZero right then .error .divisionByZero else finite op.char (left / right)
  | .power => finite op.char (left.pow right)
  | .less => .ok (truth (decide (left < right)))
  | .greater => .ok (truth (decide (right < left)))
  | .equal => .ok (truth (left == right))
  | .and => .ok (truth (isPositive left && isPositive right))
  | .or => .ok (truth (isPositive left || isPositive right))

/-- A character applied to one operand, if it is that of the negation. -/
def unary (c : Char) (operand : Float) : Except EvaluationError Float :=
  match Symbol.ofChar? c with
  | some .negation => .ok (negate operand)
  | _ => .error (.unsupportedOperator c)

/-- A character applied to two operands, if it is that of a binary operator. -/
def binary (c : Char) (left right : Float) : Except EvaluationError Float :=
  match Symbol.ofChar? c with
  | some (.binary op) => combine op left right
  | _ => .error (.unsupportedOperator c)

end Arithmetic

end LineCalc

/-!
## Evaluation of postfix lists

Tokens are taken from left to right. An operand puts its value on a stack, an operator takes its
operands from there and puts back what it makes of them. The list is an expression exactly if one
value is left. Any list of tokens may be given, and the first token that fails is reported.
-/

namespace LineCalc.Postfix

/-- The operand of a negation is on top of the stack. -/
def applyNegation (values : Stack Float) : Except EvaluationError (Stack Float) :=
  match values.pop? with
  | some (operand, rest) => .ok (rest.push (Arithmetic.negate operand))
  | none => .error (.malformed (.operandMissing Symbol.negation.char))

/-- The right operand is on top of the stack and the left one below it. -/
def applyBinary (op : BinaryOperator) (values : Stack Float) :
    Except EvaluationError (Stack Float) :=
  match values.pop? with
  | some (right, rest) =>
    match rest.pop? with
    | some (left, rest) => (Arithmetic.combine op left right).map rest.push
    | none => .error (.malformed (.operandMissing op.char))
  | none => .error (.malformed (.operandMissing op.char))

/-- What one token does to the values so far. -/
def evaluateToken (values : Stack Float) : Token → Except EvaluationError (Stack Float)
  | .integer n => (Arithmetic.ofInteger n).map values.push
  | .real x => .ok (values.push x)
  | .symbol c =>
    match Symbol.ofChar? c with
    | some .negation => applyNegation values
    | some (.binary op) => applyBinary op values
    | _ => .error (.unsupportedOperator c)

/-- The result, if it is the only value that is left. -/
def onlyValue (values : Stack Float) : Except EvaluationError Float :=
  match values.pop? with
  | none => .error (.malformed .valueMissing)
  | some (value, rest) =>
    if rest.isEmpty then .ok value else .error (.malformed (.valuesLeft values.size))

/-- The value of a postfix list: one step for each token, and then the only value that is left. -/
def evaluate (tokens : List Token) : Except EvaluationError Float := do
  onlyValue (← tokens.foldlM evaluateToken .empty)

end LineCalc.Postfix
