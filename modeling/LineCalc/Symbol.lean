/-!
# Symbols

The thirteen characters that mean something in an expression. Every one has a rank of its own, and
the rank of a binary operator says how tightly it binds: no two bind alike, so `-` is looser than
`+`, and `/` looser than `*`. The ranks below and above those of the binary operators belong to the
negation and to the parentheses.
-/

namespace LineCalc

/-- The operators that stand between two operands, the loosest first. -/
inductive BinaryOperator
  | or | and | equal | less | greater | subtract | add | divide | multiply | power
deriving DecidableEq, Repr

/-- What a character can mean: a negation, a binary operator or a parenthesis. -/
inductive Symbol
  | negation
  | binary (op : BinaryOperator)
  | opening
  | closing
deriving DecidableEq, Repr

/-- How many operands a symbol takes, if it takes any. -/
inductive Arity
  | unary | binary | grouping
deriving DecidableEq, Repr

namespace BinaryOperator

/-- The character of a binary operator. -/
def char : BinaryOperator → Char
  | or => '|'
  | and => '&'
  | equal => '='
  | less => '<'
  | greater => '>'
  | subtract => '-'
  | add => '+'
  | divide => '/'
  | multiply => '*'
  | power => '^'

/-- How tightly the operator binds, from 1 to 10. -/
def rank : BinaryOperator → Nat
  | or => 1
  | and => 2
  | equal => 3
  | less => 4
  | greater => 5
  | subtract => 6
  | add => 7
  | divide => 8
  | multiply => 9
  | power => 10

end BinaryOperator

namespace Symbol

/-- The character of a symbol. -/
def char : Symbol → Char
  | negation => '!'
  | binary op => op.char
  | opening => '('
  | closing => ')'

/-- The place of the symbol in the order of all symbols. -/
def rank : Symbol → Nat
  | negation => 0
  | binary op => op.rank
  | opening => 11
  | closing => 12

/-- Negation takes one operand, the operators between operands two, and parentheses group. -/
def arity : Symbol → Arity
  | negation => .unary
  | binary _ => .binary
  | opening => .grouping
  | closing => .grouping

/-- All symbols in the order of their ranks. -/
def all : List Symbol :=
  [negation, binary .or, binary .and, binary .equal, binary .less, binary .greater,
    binary .subtract, binary .add, binary .divide, binary .multiply, binary .power,
    opening, closing]

/-- The symbol of a character, if it has a meaning. -/
def ofChar? (c : Char) : Option Symbol := all.find? fun s => s.char == c

/-- The symbol of a rank, if there is one. -/
def ofRank? (rank : Nat) : Option Symbol := all[rank]?

/-- Every symbol is what its character means. -/
@[simp]
theorem ofChar?_char (s : Symbol) : ofChar? s.char = some s := by
  cases s with
  | binary op => cases op <;> rfl
  | _ => rfl

/-- A character with a meaning is the character of that symbol, so no two mean the same. -/
theorem char_of_ofChar? {c : Char} {s : Symbol} (found : ofChar? c = some s) : s.char = c := by
  simpa using List.find?_some found

/-- Every symbol has a rank of its own. -/
@[simp]
theorem ofRank?_rank (s : Symbol) : ofRank? s.rank = some s := by
  cases s with
  | binary op => cases op <;> rfl
  | _ => rfl

end Symbol

end LineCalc
