import LineCalc.Proofs.Line.Integer
import LineCalc.Proofs.Postfix.Exchange
import LineCalc.Proofs.Token.Concatenation

/-!
# A point behind an integer

A point behind the digits of an integer makes a real of them, and the lexemes around it stay as they are. If
the integer takes part in arithmetic, then the real is the double of that integer, so the two are operands of
the same value, and one may stand for the other in any expression. Only an error of reading notices the point,
if it is found behind it.
-/

namespace LineCalc

namespace LexicalError

/-- The column in bytes that an error names. -/
def column : LexicalError → Nat
  | strayPoint column => column
  | literalTooLarge _ column => column

/-- The same error when one more byte stands at a column: it is found one byte further on if it is behind. -/
def pushed (place : Nat) (e : LexicalError) : LexicalError := if place ≤ e.column then e.moved 1 else e

variable {place : Nat} {e : LexicalError}

/-- An error in front of the column stays. -/
lemma pushed_of_lt (before : e.column < place) : e.pushed place = e := if_neg (Nat.not_le.2 before)

/-- An error from the column on moves by one. -/
lemma pushed_of_le (behind : place ≤ e.column) : e.pushed place = e.moved 1 := if_pos behind

end LexicalError

namespace Lexeme

variable {lexemes before after : List Lexeme} {l : Lexeme} {digits line : List Char}

/-- A line is divided into lexemes. -/
lemma Divided.wellFormed (divided : Divided lexemes line) (mem : l ∈ lexemes) : l.WellFormed := by
  induction divided with
  | nil => cases mem
  | cons wf _ _ ih =>
    rcases List.mem_cons.1 mem with rfl | mem
    · exact wf
    · exact ih mem

/-- The lexemes of a division are the line, put together. -/
lemma Divided.flatMap_chars (divided : Divided lexemes line) : lexemes.flatMap chars = line := by
  rw [divided_iff.1 divided]
  exact flatMap_chars_split line

/-- A point joins the digits in front of it, and nothing else changes. -/
lemma Divided.append_point (divided : Divided (before ++ integer digits :: after) line) :
    Divided (before ++ real digits [] :: after)
      (before.flatMap chars ++ digits ++ '.' :: after.flatMap chars) := by
  cases divided.wellFormed (List.mem_append_right before List.mem_cons_self) with
  | integer nonempty all =>
    induction before generalizing line with
    | nil =>
      cases divided with
      | cons _ stop divided =>
        -- What the digits did not take does not go on with a digit.
        rw [← divided.flatMap_chars] at stop divided
        have wf : (real digits []).WellFormed :=
          .real (List.append_ne_nil_of_left_ne_nil nonempty []) all nofun
        rw [List.flatMap_nil, List.nil_append, List.append_cons]
        exact .cons wf (fun c first => isDigit_of_not_isNumeric (stop c first)) divided
    | cons l before ih =>
      cases divided with
      | @cons _ _ line wf stop divided =>
        have divided : Divided (before ++ integer digits :: after) line := divided
        have unchanged (behind : List Char) :
            (before.flatMap chars ++ digits ++ behind).head? = (before.flatMap chars ++ digits).head? :=
          List.head?_append_of_ne_nil _ (List.append_ne_nil_of_right_ne_nil _ nonempty)
        rw [← divided.flatMap_chars, List.flatMap_append, List.flatMap_cons, chars, ← List.append_assoc,
          unchanged] at stop
        rw [List.flatMap_cons, List.append_assoc, List.append_assoc, ← List.append_assoc _ digits]
        exact .cons wf (by rwa [unchanged]) (ih divided)

end Lexeme

namespace Token

section Columns

variable {lexemes : List Lexeme} {l : Lexeme} {column : Nat} {e : LexicalError}

/-- A lexeme that is no token fails where it starts. -/
lemma column_of_ofLexeme (failed : ofLexeme column l = .error e) : e.column = column := by
  have number {found : Option Token} (failed : (fitting l column found).map ([·]) = .error e) :
      e.column = column := by
    obtain ⟨_, rfl⟩ := fitting_eq_error_iff.1 (Except.map_eq_error_iff.1 failed)
    rfl
  cases l with
  | integer digits => exact number failed
  | real whole fraction => exact number failed
  | point =>
    cases failed
    rfl
  | _ => cases failed

/-- An error of lexemes is found neither in front of them nor behind them. -/
lemma column_of_ofLexemes (failed : ofLexemes column lexemes = .error e) :
    column ≤ e.column ∧ e.column ≤ column + (String.ofList (lexemes.flatMap Lexeme.chars)).utf8ByteSize := by
  induction lexemes generalizing column with
  | nil => cases failed
  | cons l lexemes ih =>
    rcases Except.bind_eq_error_iff.1 failed with here | ⟨first, _, failed⟩
    · rw [column_of_ofLexeme here]
      exact ⟨Nat.le_refl _, Nat.le_add_right _ _⟩
    rcases Except.bind_eq_error_iff.1 failed with there | ⟨later, _, failed⟩
    · obtain ⟨least, most⟩ := ih there
      rw [List.flatMap_cons, String.ofList_append, String.utf8ByteSize_append, ← Nat.add_assoc]
      exact ⟨Nat.le_of_add_right_le least, most⟩
    · cases failed

end Columns

section Small

variable {digits : List Char} (small : Decimal.ofDigitChars digits ≤ Arithmetic.maxExactInteger)

include small

/-- An integer that fits is a token, and the lexemes behind it are read from its end on. -/
lemma ofLexemes_integer_cons (column : Nat) (after : List Lexeme) :
    ofLexemes column (.integer digits :: after) =
      (ofLexemes (column + (String.ofList digits).utf8ByteSize) after).map
        (.integer (Decimal.ofDigitChars digits) :: ·) := by
  have here : ofLexeme column (.integer digits) = .ok [.integer (Decimal.ofDigitChars digits)] := by
    rw [ofLexeme, integer?, if_pos (small.trans (by decide))]
    rfl
  rw [ofLexemes, here]
  rfl

/-- The point makes no difference to the number, and what is behind it is found one byte further on. -/
lemma ofLexemes_real_cons (column : Nat) (after : List Lexeme) :
    ofLexemes column (.real digits [] :: after) =
      ((ofLexemes (column + (String.ofList digits).utf8ByteSize) after).mapError (.moved 1)).map
        (.real (Binary64.ofInt (Decimal.ofDigitChars digits)) :: ·) := by
  have nearest : Binary64.nearest? (Decimal.ofDigitChars (digits ++ [])) (Nat.pow 10 0) =
      some (Binary64.ofInt (Decimal.ofDigitChars digits)) := by
    rw [List.append_nil]
    exact Binary64.nearest?_one small
  have here : ofLexeme column (.real digits []) =
      .ok [.real (Binary64.ofInt (Decimal.ofDigitChars digits))] := by
    rw [ofLexeme, real?, List.length_nil, nearest]
    rfl
  have longer : (Lexeme.real digits []).size = (String.ofList digits).utf8ByteSize + 1 := by
    rw [Lexeme.size, Lexeme.chars, String.ofList_append, String.utf8ByteSize_append]
    rfl
  rw [ofLexemes, here, longer, ← ofLexemes_add, Nat.add_comm 1, Nat.add_assoc]
  rfl

end Small

/-- With the point a line has the same tokens but for one operand of the same value, or the same error, found
one byte further on if it is behind the integer. -/
lemma ofText_point {line line' : String} {before after : List Lexeme} {digits : List Char}
    (divided : Lexeme.Divided (before ++ .integer digits :: after) line.toList)
    (small : Decimal.ofDigitChars digits ≤ Arithmetic.maxExactInteger)
    (pointed : line'.toList = before.flatMap Lexeme.chars ++ digits ++ '.' :: after.flatMap Lexeme.chars) :
    (∃ (ts us : List Token) (a b : Operand), a.value = b.value ∧
      ofText line = .ok (ts ++ a.token :: us) ∧ ofText line' = .ok (ts ++ b.token :: us)) ∨
    ∃ e, ofText line = .error e ∧
      ofText line' =
        .error (e.pushed (String.ofList (before.flatMap Lexeme.chars ++ digits)).utf8ByteSize) := by
  have divided' := divided.append_point
  rw [← pointed] at divided'
  have nonempty : 0 < (String.ofList digits).utf8ByteSize := by
    cases divided.wellFormed (List.mem_append_right before List.mem_cons_self) with
    | integer nonempty _ =>
      apply Nat.pos_of_ne_zero
      exact fun none => nonempty (String.ofList_eq_empty_iff.1 (String.utf8ByteSize_eq_zero_iff.1 none))
  rw [ofText, ofText, ← Lexeme.divided_iff.1 divided, ← Lexeme.divided_iff.1 divided', ofLexemes_append,
    ofLexemes_append, ofLexemes_integer_cons small, ofLexemes_real_cons small, String.ofList_append,
    String.utf8ByteSize_append]
  -- What stands in front of the integer is read first, and the point does not move it.
  cases first : ofLexemes 0 before with
  | error e =>
    have inside := (column_of_ofLexemes first).2
    have pushed := LexicalError.pushed_of_lt (inside.trans_lt (Nat.lt_add_of_pos_right nonempty))
    rw [Nat.zero_add] at pushed
    exact .inr ⟨e, rfl, congrArg Except.error pushed.symm⟩
  | ok ts =>
    rw [Nat.zero_add]
    generalize (String.ofList (before.flatMap Lexeme.chars)).utf8ByteSize +
      (String.ofList digits).utf8ByteSize = place
    -- All that stands behind the integer is one byte further on.
    cases later : ofLexemes place after with
    | error e =>
      have pushed := LexicalError.pushed_of_le (column_of_ofLexemes later).1
      exact .inr ⟨e, rfl, congrArg Except.error pushed.symm⟩
    | ok us =>
      have exact' : Arithmetic.ofInteger (Decimal.ofDigitChars digits) =
          .ok (Binary64.ofInt (Decimal.ofDigitChars digits)) := if_pos small
      exact .inl ⟨ts, us, .integer _, .real _, exact', rfl, rfl⟩

end Token

namespace Line

/-- Operands of the same value may stand for each other. -/
lemma convert_value_congr {a b : Operand} (same : a.value = b.value) (before after : List Token) :
    convert (before ++ a.token :: after) >>= value = convert (before ++ b.token :: after) >>= value := by
  let f (c : Operand) : Operand := if c = a then b else c
  have values (c : Operand) : (f c).value = c.value := by
    by_cases replaced : c = a
    · rw [replaced, same]
      exact congrArg Operand.value (if_pos rfl)
    · exact congrArg Operand.value (if_neg replaced)
  have unchanged (ts : List Token) :
      convert (ts.map (Token.mapOperand f)) >>= value = convert ts >>= value := by
    rw [convert, convert, Postfix.ofTokens_mapOperand]
    cases Postfix.ofTokens ts with
    | error e => rfl
    | ok p => exact congrArg (Except.mapError LineError.evaluation) (Postfix.evaluate_mapOperand values p)
  -- Both lists have the same operands once the first operand is replaced wherever it stands.
  have replaced : f a = b := if_pos rfl
  have kept : f b = b := ite_self b
  rw [← unchanged, ← unchanged (before ++ b.token :: after), List.map_append, List.map_append, List.map_cons,
    List.map_cons, Token.mapOperand_token, Token.mapOperand_token, replaced, kept]

/-- A point behind an integer that takes part in arithmetic makes no difference to the value of a line, nor to
the error of its conversion or evaluation. An error of reading is the same, found one byte further on if it is
behind the integer. -/
theorem evaluate_point {line line' : String} {before after : List Lexeme} {digits : List Char}
    (divided : Lexeme.Divided (before ++ .integer digits :: after) line.toList)
    (small : Decimal.ofDigitChars digits ≤ 2 ^ 53 - 1)
    (pointed : line'.toList = before.flatMap Lexeme.chars ++ digits ++ '.' :: after.flatMap Lexeme.chars) :
    (∀ v, evaluate line = .ok v → evaluate line' = .ok v) ∧
    (∀ e, evaluate line = .error (.conversion e) → evaluate line' = .error (.conversion e)) ∧
    (∀ e, evaluate line = .error (.evaluation e) → evaluate line' = .error (.evaluation e)) ∧
    ∀ e, evaluate line = .error (.lexical e) →
      let place := (String.ofList (before.flatMap Lexeme.chars ++ digits)).utf8ByteSize
      evaluate line' = .error (.lexical (if place ≤ e.column then e.moved 1 else e)) := by
  rcases Token.ofText_point divided small pointed with ⟨ts, us, a, b, same, read, read'⟩ | ⟨e, unread, unread'⟩
  · have unchanged : evaluate line' = evaluate line := by
      rw [evaluate_of_read read, evaluate_of_read read', convert_value_congr same]
    rw [unchanged]
    refine ⟨fun _ done => done, fun _ failed => failed, fun _ failed => failed, fun e failed => ?_⟩
    cases read.symm.trans (unread_of_evaluate failed)
  · rw [evaluate_of_unread unread, evaluate_of_unread unread']
    refine ⟨nofun, nofun, nofun, fun e' failed => ?_⟩
    cases failed
    rfl

/-- A difference keeps its value, and a point that stands alone is found one byte further on. -/
theorem evaluate_point_difference :
    evaluate "8-2-1" = .ok 7 ∧ evaluate "8-2.-1" = .ok 7 ∧
    evaluate "2é ." = .error (.lexical (.strayPoint 4)) ∧
    evaluate "2.é ." = .error (.lexical (.strayPoint 5)) := by
  have difference : Lexeme.Divided
      ([.integer ['8'], .symbol '-'] ++ .integer ['2'] :: [.symbol '-', .integer ['1']]) "8-2-1".toList :=
    Lexeme.divided_iff.2 (by decide)
  have stray : Lexeme.Divided ([] ++ .integer ['2'] :: [.symbol 'é', .gap ' ', .point]) "2é .".toList :=
    Lexeme.divided_iff.2 (by decide)
  have done : evaluate "8-2-1" = .ok 7 := by decide +kernel
  have failed : evaluate "2é ." = .error (.lexical (.strayPoint 4)) := by decide +kernel
  have kept := @evaluate_point _ "8-2.-1" _ _ _ difference (by decide) (by decide)
  have moved := @evaluate_point _ "2.é ." _ _ _ stray (by decide) (by decide)
  exact ⟨done, kept.1 _ done, failed, moved.2.2.2 _ failed⟩

end Line

end LineCalc
