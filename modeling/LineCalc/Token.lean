import LineCalc.Decimal
import LineCalc.Lexeme
import LineCalc.Symbol

/-!
# Tokens

A token is an operand, integer or real, or a single character. A character need not have a meaning:
that is found out when an expression is converted or evaluated. A list of tokens is written with one
space between neighbours.
-/

namespace LineCalc

/-- An operand or a character. -/
inductive Token
  | integer (n : Int)
  | real (x : Float)
  | symbol (c : Char)
deriving DecidableEq

namespace Token

/-- The character of a token that is no operand. -/
def char? : Token → Option Char
  | symbol c => some c
  | _ => none

/-- The meaning of a token that is no operand, if it has one. -/
def symbol? (t : Token) : Option Symbol := t.char?.bind Symbol.ofChar?

/-- A token that is no character is an operand. -/
def isOperand (t : Token) : Bool := t.char?.isNone

/-- A symbol as the token of its character. -/
def ofSymbol (s : Symbol) : Token := symbol s.char

/-- The token of a symbol has its meaning. -/
@[simp]
theorem symbol?_ofSymbol (s : Symbol) : (ofSymbol s).symbol? = some s := by
  simp [ofSymbol, symbol?, char?]

/-- A token as it is written: an integer with its digits, a real in the general form, a character as it is. -/
def chars : Token → List Char
  | integer n => Numeral.integer n
  | real x => Numeral.real Numeral.general x
  | symbol c => [c]

/-- A token as a text. -/
def text (t : Token) : String := String.ofList t.chars

/-- A list of tokens as it is written. -/
def listText (tokens : List Token) : String :=
  String.ofList ([' '].intercalate (tokens.map chars))

end Token

/-!
## Reading tokens

Lexemes are read as tokens from left to right. A number has to fit: an integer into 63 bits, a real
into a finite double. The first lexeme that is no token ends the reading, at the column in bytes
where it starts.
-/

/-- Why a line has no tokens, and the column of the lexeme where this is found. -/
inductive LexicalError
  | strayPoint (column : Nat)
  | literalTooLarge (literal : String) (column : Nat)
deriving DecidableEq, Repr

/-- What a report says of a line without tokens. -/
def LexicalError.message : LexicalError → String
  | strayPoint column => "Unexpected input '.' at column " ++ toString column ++ "."
  | literalTooLarge literal column =>
    "Literal '" ++ literal ++ "' at column " ++ toString column ++ " is too large."

namespace Token

/-- The greatest integer of 63 bits. -/
def maxInteger : Nat := 9223372036854775807

/-- The integer of a list of digits, if it fits. -/
def integer? (digits : List Char) : Option Token :=
  let n := Decimal.ofDigitChars digits
  if n ≤ maxInteger then some (integer n) else none

/-- The double nearest to a decimal fraction, if it is finite. -/
def real? (whole fraction : List Char) : Option Token :=
  (Binary64.nearest? (Decimal.ofDigitChars (whole ++ fraction)) (Nat.pow 10 fraction.length)).map real

/-- A token of the literal, or the complaint that it is too large. -/
def fitting (lexeme : Lexeme) (column : Nat) : Option Token → Except LexicalError Token
  | some t => .ok t
  | none => .error (.literalTooLarge (String.ofList lexeme.chars) column)

/-- The token of a lexeme that starts at a column; a gap has none. -/
def ofLexeme (column : Nat) : Lexeme → Except LexicalError (List Token)
  | .gap _ => .ok []
  | .integer digits => (fitting (.integer digits) column (integer? digits)).map ([·])
  | .real whole fraction => (fitting (.real whole fraction) column (real? whole fraction)).map ([·])
  | .point => .error (.strayPoint column)
  | .symbol c => .ok [symbol c]

/-- The tokens of lexemes of which the first starts at a column. -/
def ofLexemes (column : Nat) : List Lexeme → Except LexicalError (List Token)
  | [] => .ok []
  | lexeme :: rest => do
    let token ← ofLexeme column lexeme
    let tokens ← ofLexemes (column + lexeme.size) rest
    return token ++ tokens

/-- The tokens of a line, whose first lexeme stands in column zero. -/
def ofText (line : String) : Except LexicalError (List Token) :=
  ofLexemes 0 (Lexeme.split line.toList)

end Token

end LineCalc
