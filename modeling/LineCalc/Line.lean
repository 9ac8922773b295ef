import LineCalc.Postfix.Conversion
import LineCalc.Postfix.Evaluation
import LineCalc.Token

/-!
# Lines

A line holds one expression. Its tokens are read, put into postfix order and evaluated, and the first
stage that fails says why the line has no value. A result is written with two places.
-/

namespace LineCalc

/-- Why a line has no value: the error of the first stage that fails. -/
inductive LineError
  | lexical (e : LexicalError)
  | conversion (e : ConversionError)
  | evaluation (e : EvaluationError)
deriving DecidableEq, Repr

/-- What a report says of a failed line is what the stage says. -/
def LineError.message : LineError → String
  | lexical e => e.message
  | conversion e => e.message
  | evaluation e => e.message

namespace Line

/-- The tokens of a line as they stand in it. -/
def tokens (line : String) : Except LineError (List Token) :=
  (Token.ofText line).mapError .lexical

/-- The postfix order of tokens. -/
def convert (tokens : List Token) : Except LineError (List Token) :=
  (Postfix.ofTokens tokens).mapError .conversion

/-- The value of tokens in postfix order. -/
def value (tokens : List Token) : Except LineError Float :=
  (Postfix.evaluate tokens).mapError .evaluation

/-- The value of a line, stage after stage. -/
def evaluate (line : String) : Except LineError Float := do
  value (← convert (← tokens line))

/-- How far a line got: its tokens with their postfix order if they have one, and its value. -/
structure Outcome where
  conversion : Option (List Token × List Token)
  value : Except LineError Float

/-- The stages of a line, with what each of them leaves for a report. -/
def outcome (line : String) : Outcome :=
  match tokens line with
  | .error e => ⟨none, .error e⟩
  | .ok source =>
    match convert source with
    | .error e => ⟨none, .error e⟩
    | .ok converted => ⟨some (source, converted), value converted⟩

/-- An outcome ends with the value of the line. -/
theorem value_outcome (line : String) : (outcome line).value = evaluate line := by
  unfold outcome evaluate
  cases tokens line with
  | error e => rfl
  | ok source =>
    change (match convert source with
      | .error e => (⟨none, .error e⟩ : Outcome)
      | .ok converted => ⟨some (source, converted), value converted⟩).value = _
    cases converted : convert source with
    | error e => simp [converted, bind, Except.bind]
    | ok order => simp [converted, bind, Except.bind]

/-- A value as a result, with two places. -/
def resultText (x : Float) : String := String.ofList (Numeral.real Numeral.twoPlaces x)

end Line

end LineCalc
