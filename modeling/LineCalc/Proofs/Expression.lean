import LineCalc.Postfix.Evaluation
import LineCalc.Token
import Mathlib.Tactic.Lemma

/-!
# Expression trees

An expression is an operand, a negation or two expressions joined by a binary operator. Its value is
found from the leaves up, the left side before the right one, and the first part without a value
decides the error. The listing in postorder has every operator behind its operands; the one in inorder
has a negation before its operand and a binary operator between its operands.
-/

namespace LineCalc

/-- An operand is an integer or a real. -/
inductive Operand
  | integer (n : Int)
  | real (x : Float)
deriving DecidableEq

namespace Operand

/-- The token that an operand is written as. -/
def token : Operand → Token
  | integer n => .integer n
  | real x => .real x

/-- The value of an operand; an integer has one if a double holds it exactly. -/
def value : Operand → Except EvaluationError Float
  | integer n => Arithmetic.ofInteger n
  | real x => .ok x

/-- An operand has no meaning as a symbol. -/
@[simp]
lemma symbol?_token (a : Operand) : a.token.symbol? = none := by
  cases a <;> rfl

end Operand

namespace Token

/-- The operand that a token is, if it is one. -/
def operand? : Token → Option Operand
  | integer n => some (.integer n)
  | real x => some (.real x)
  | symbol _ => none

/-- The token of an operand is that operand. -/
@[simp]
lemma operand?_token (a : Operand) : a.token.operand? = some a := by
  cases a <;> rfl

/-- Every token that is an operand is the token of one. -/
lemma exists_token_of_isOperand {t : Token} (operand : t.isOperand) : ∃ a : Operand, a.token = t := by
  cases t with
  | integer n => exact ⟨.integer n, rfl⟩
  | real x => exact ⟨.real x, rfl⟩
  | symbol c => cases operand

/-- What is found as the operand of a token has that token. -/
lemma token_of_operand? {t : Token} {a : Operand} (found : t.operand? = some a) : a.token = t := by
  cases t <;> cases found <;> rfl

/-- A token with a meaning is the token of that meaning. -/
lemma ofSymbol_of_symbol? {t : Token} {s : Symbol} (found : t.symbol? = some s) : ofSymbol s = t := by
  cases t with
  | symbol c => exact congrArg symbol (Symbol.char_of_ofChar? found)
  | _ => cases found

/-- The token of an operand is an operand. -/
@[simp]
lemma isOperand_token (a : Operand) : a.token.isOperand := by
  cases a <;> rfl

/-- The token of a symbol is no operand. -/
@[simp]
lemma isOperand_ofSymbol (s : Symbol) : (ofSymbol s).isOperand = false := rfl

/-- What a token can be: an operand, a character with a meaning, or any other character. -/
inductive View : Token → Prop
  | operand (a : Operand) : View a.token
  | symbol (s : Symbol) : View (ofSymbol s)
  | unknown {c : Char} (meaningless : Symbol.ofChar? c = none) : View (symbol c)

/-- Every token can be viewed in one of these ways. -/
lemma view (t : Token) : View t := by
  cases t with
  | integer n => exact .operand (.integer n)
  | real x => exact .operand (.real x)
  | symbol c =>
    cases found : Symbol.ofChar? c with
    | none => exact .unknown found
    | some s =>
      rw [← Symbol.char_of_ofChar? found]
      exact .symbol s

end Token

/-- An operand, a negated expression, or two expressions that an operator joins. -/
inductive Expression
  | operand (a : Operand)
  | negation (e : Expression)
  | binary (op : BinaryOperator) (left right : Expression)
deriving DecidableEq

namespace Expression

/-- The tokens with every operator behind its operands. -/
def postorder : Expression → List Token
  | operand a => [a.token]
  | negation e => e.postorder ++ [.ofSymbol .negation]
  | binary op left right => left.postorder ++ right.postorder ++ [.ofSymbol (.binary op)]

/-- The tokens with every negation before its operand and every binary operator between its operands. -/
def inorder : Expression → List Token
  | operand a => [a.token]
  | negation e => .ofSymbol .negation :: e.inorder
  | binary op left right => left.inorder ++ .ofSymbol (.binary op) :: right.inorder

/-- The value of the tree: the left side is evaluated first, then the right side, then the operator. -/
def value : Expression → Except EvaluationError Float
  | operand a => a.value
  | negation e => do
    let x ← e.value
    return Arithmetic.negate x
  | binary op left right => do
    let x ← left.value
    let y ← right.value
    Arithmetic.combine op x y

/-- The operands of the tree from left to right. -/
def operands : Expression → List Operand
  | operand a => [a]
  | negation e => e.operands
  | binary _ left right => left.operands ++ right.operands

end Expression

/-!
## Written expressions

A written expression is a tree whose parts may stand in parentheses, any number of them. It is
admissible if the parentheses that are needed are there: around a left operand whose operator binds no
more tightly than the one above it, around a left operand with a negation open at its right edge, and
around a right operand whose operator binds less tightly. Every expression has an admissible writing.
-/

/-- An expression with the parentheses around its parts. -/
inductive Writing
  | operand (a : Operand)
  | negation (w : Writing)
  | binary (op : BinaryOperator) (left right : Writing)
  | group (w : Writing)
deriving DecidableEq

namespace Writing

/-- What a writing means: the same tree without its parentheses. -/
def expression : Writing → Expression
  | operand a => .operand a
  | negation w => .negation w.expression
  | binary op left right => .binary op left.expression right.expression
  | group w => w.expression

/-- The tokens of a writing, from left to right. -/
def tokens : Writing → List Token
  | operand a => [a.token]
  | negation w => .ofSymbol .negation :: w.tokens
  | binary op left right => left.tokens ++ .ofSymbol (.binary op) :: right.tokens
  | group w => .ofSymbol .opening :: (w.tokens ++ [.ofSymbol .closing])

/-- The binary operator above the whole, if it stands outside all parentheses. -/
def root? : Writing → Option BinaryOperator
  | binary op _ _ => some op
  | _ => none

/-- Whether the right edge meets a negation before it meets a parenthesis. -/
def reachesNegation : Writing → Bool
  | operand _ => false
  | negation _ => true
  | binary _ _ right => right.reachesNegation
  | group _ => false

/-- What may stand on both sides of an operator as it is. -/
structure Fits (op : BinaryOperator) (left right : Writing) : Prop where
  left_tighter : ∀ inner, left.root? = some inner → op.rank < inner.rank
  left_closed : left.reachesNegation = false
  right_tighter : ∀ inner, right.root? = some inner → op.rank ≤ inner.rank

/-- Every operator in the writing has the parentheses that it needs. -/
inductive Admissible : Writing → Prop
  | operand {a} : Admissible (operand a)
  | negation {w} : Admissible w → Admissible (negation w)
  | binary {op left right} :
    Fits op left right → Admissible left → Admissible right → Admissible (binary op left right)
  | group {w} : Admissible w → Admissible (group w)

end Writing

/-- The writing with parentheses around everything but operands. -/
def Expression.grouped : Expression → Writing
  | operand a => .operand a
  | negation e => .group (.negation e.grouped)
  | binary op left right => .group (.binary op left.grouped right.grouped)

namespace Writing

/-- Parentheses around every part leave the expression as it is. -/
lemma expression_grouped (e : Expression) : e.grouped.expression = e := by
  induction e with
  | operand a => rfl
  | negation e ih => exact congrArg Expression.negation ih
  | binary op left right ihl ihr =>
    rw [Expression.grouped, expression, expression, ihl, ihr]

/-- Grouped parts fit around every operator. -/
lemma Fits.grouped (op : BinaryOperator) (left right : Expression) :
    Fits op left.grouped right.grouped := by
  have closed (e : Expression) : e.grouped.root? = none ∧ e.grouped.reachesNegation = false := by
    cases e <;> exact ⟨rfl, rfl⟩
  refine ⟨fun inner found => ?_, (closed left).2, fun inner found => ?_⟩
  · rw [(closed left).1] at found
    cases found
  · rw [(closed right).1] at found
    cases found

/-- With parentheses around every part a writing is admissible. -/
lemma Admissible.grouped (e : Expression) : e.grouped.Admissible := by
  induction e with
  | operand a => exact .operand
  | negation e ih => exact .group (.negation ih)
  | binary op left right ihl ihr => exact .group (.binary (.grouped op left right) ihl ihr)

/-- Every expression can be written. -/
theorem Admissible.exists_of_expression (e : Expression) :
    ∃ w : Writing, w.Admissible ∧ w.expression = e :=
  ⟨e.grouped, .grouped e, expression_grouped e⟩

end Writing

end LineCalc
