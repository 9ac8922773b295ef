import LineCalc.Queue
import LineCalc.Stack
import LineCalc.Token

/-!
# Conversion to postfix order

Operands go straight to the output. A symbol waits on a stack until what belongs to it has been
written: a binary operator releases the binary operators on top that bind more tightly, and a closing
parenthesis releases everything above its opening one. A negation and an opening parenthesis let no
operator pass, and operators of one rank group to the right. All along the conversion knows whether
an operand or an operator has to come next, so that every misplaced token is found where it stands.
-/

namespace LineCalc

/-- What is wrong with the place of a token. -/
inductive Misplacement
  | operandAfterOperand
  | negationAfterOperand
  | openingAfterOperand
  | closingBeforeOperand
  | leftOperandMissing (op : BinaryOperator)
  | rightOperandMissing
  | nothingToEvaluate
deriving DecidableEq, Repr

/-- Why tokens are no expression, and the position of the token where this is found. -/
inductive ConversionError
  | invalidOperator (c : Char) (position : Nat)
  | unbalancedParenthesis (position : Nat)
  | invalidExpression (reason : Misplacement) (position : Nat)
deriving DecidableEq, Repr

/-- What a report says of a misplaced token. -/
def Misplacement.details : Misplacement → String
  | operandAfterOperand => "missing operator between operands"
  | negationAfterOperand => "'!' cannot follow an operand"
  | openingAfterOperand => "missing operator before '('"
  | closingBeforeOperand => "missing operand before ')'"
  | leftOperandMissing op => "missing left operand for '" ++ op.char.toString ++ "'"
  | rightOperandMissing => "missing right operand"
  | nothingToEvaluate => "empty expression"

/-- What a report says of tokens that are no expression. -/
def ConversionError.message : ConversionError → String
  | invalidOperator c position =>
    "Invalid operator '" ++ c.toString ++ "' at token " ++ toString position ++ "."
  | unbalancedParenthesis position =>
    "Unbalanced parenthesis at token " ++ toString position ++ "."
  | invalidExpression reason position =>
    "Invalid expression at token " ++ toString position ++ ": " ++ reason.details ++ "."

namespace Postfix

/-- A symbol that waits for its operands, and where it stands among the tokens. -/
structure Pending where
  symbol : Symbol
  position : Nat
deriving DecidableEq, Repr

namespace Pending

/-- The token that a waiting symbol was and becomes again. -/
def token (p : Pending) : Token := .ofSymbol p.symbol

/-- Whether a group waits to be closed. -/
def isOpening (p : Pending) : Bool := p.symbol == .opening

/-- Whether the symbol is a binary operator that binds more tightly than the given one. -/
def isTighter (op : BinaryOperator) (p : Pending) : Bool :=
  match p.symbol with
  | .binary waiting => op.rank < waiting.rank
  | _ => false

end Pending

/-- What has been written, what waits, how many groups are open and whether an operand is expected. -/
structure Conversion where
  output : Queue Token
  pending : Stack Pending
  openGroups : Nat
  expectsOperand : Bool

namespace Conversion

/-- Before the first token nothing waits, and an operand is expected. -/
def start : Conversion := ⟨.empty, .empty, 0, true⟩

/-- Write the symbols above the topmost one that fails the test. -/
def release (s : Conversion) (test : Pending → Bool) : Conversion :=
  let (released, pending) := s.pending.popWhile test
  { s with output := s.output.append (released.map Pending.token), pending }

/-- A symbol waits on the stack, with its position. -/
def hold (s : Conversion) (symbol : Symbol) (position : Nat) : Conversion :=
  { s with pending := s.pending.push ⟨symbol, position⟩ }

/-- Write what a group holds, and drop its opening parenthesis. -/
def closeGroup (s : Conversion) : Conversion :=
  let s := s.release fun p => !p.isOpening
  match s.pending.pop? with
  | some (_, pending) => { s with pending, openGroups := s.openGroups - 1 }
  | none => s

/-- An operand is written at once. -/
def takeOperand (s : Conversion) (position : Nat) (t : Token) : Except ConversionError Conversion :=
  if s.expectsOperand then
    .ok { s with output := s.output.enqueue t, expectsOperand := false }
  else .error (.invalidExpression .operandAfterOperand position)

/-- A symbol is held, or ends a group. -/
def takeSymbol (s : Conversion) (position : Nat) : Symbol → Except ConversionError Conversion
  | .negation =>
    if s.expectsOperand then .ok (s.hold .negation position)
    else .error (.invalidExpression .negationAfterOperand position)
  | .opening =>
    if s.expectsOperand then
      .ok { s.hold .opening position with openGroups := s.openGroups + 1 }
    else .error (.invalidExpression .openingAfterOperand position)
  | .closing =>
    if s.openGroups = 0 then .error (.unbalancedParenthesis position)
    else if s.expectsOperand then .error (.invalidExpression .closingBeforeOperand position)
    else .ok s.closeGroup
  | .binary op =>
    if s.expectsOperand then .error (.invalidExpression (.leftOperandMissing op) position)
    else
      .ok { (s.release (Pending.isTighter op)).hold (.binary op) position with expectsOperand := true }

/-- One more token. A character has to have a meaning, and any other token is an operand. -/
def step (s : Conversion) (position : Nat) : Token → Except ConversionError Conversion
  | .symbol c =>
    match Symbol.ofChar? c with
    | some symbol => s.takeSymbol position symbol
    | none => .error (.invalidOperator c position)
  | t => s.takeOperand position t

/-- All tokens of a list, of which the first has the given position. -/
def steps (s : Conversion) (position : Nat) : List Token → Except ConversionError Conversion
  | [] => .ok s
  | t :: rest => do (← s.step position t).steps (position + 1) rest

/-- After the last of so many tokens, write what still waits; no group may be open. -/
def finish (s : Conversion) (length : Nat) : Except ConversionError (List Token) :=
  if s.expectsOperand then
    let reason := if length = 0 then Misplacement.nothingToEvaluate else .rightOperandMissing
    .error (.invalidExpression reason (length - 1))
  else
    match s.pending.items.find? Pending.isOpening with
    | some group => .error (.unbalancedParenthesis group.position)
    | none => .ok (s.output.append (s.pending.items.map Pending.token)).toList

end Conversion

/-- The postfix order of tokens: one step for each of them, and then what still waits. -/
def ofTokens (tokens : List Token) : Except ConversionError (List Token) := do
  (← Conversion.start.steps 0 tokens).finish tokens.length

end Postfix

end LineCalc
