import LineCalc.Proofs.Postfix.Decoding

/-!
# Where an evaluation fails

Every operand adds a value to those at hand and every binary operator takes one away, so the values
available to a token can be counted in the tokens in front of it. While no token fails, these tokens are
the postorders of trees, one for each value (`exists_of_run`), and an operator takes the values of the
last trees. So whether a token fails, and how, depends on the tokens in front of it alone (`fails_iff`).
-/

namespace LineCalc

/-- The number of values that an operator takes. -/
def Arity.operands : Arity → Nat
  | unary => 1
  | binary => 2
  | grouping => 0

/-- Whether a token is a binary operator. -/
def Token.isBinary (t : Token) : Bool := t.symbol?.any fun s => s.arity = .binary

/-- The character of a binary operator applies that operator. -/
lemma Arithmetic.binary_char (op : BinaryOperator) (x y : Float) :
    binary (Symbol.binary op).char x y = combine op x y := by
  rw [binary, Symbol.ofChar?_char]

namespace Postfix

/-- The number of values behind the tokens: operands less binary operators. -/
def available (ts : List Token) : Int := (ts.countP Token.isOperand : Int) - ts.countP Token.isBinary

/-- The token fails behind the tokens in front of it, with the error. -/
inductive Fails (before : List Token) : Token → EvaluationError → Prop
  | integer {n : Int} :
    2 ^ 53 - 1 < n.natAbs → Fails before (.integer n) (.integerTooLarge n)
  | unsupported {c : Char} :
    (Token.symbol c).isOperator = false → Fails before (.symbol c) (.unsupportedOperator c)
  | missing {s : Symbol} :
    s.arity ≠ .grouping → available before < s.arity.operands →
    Fails before (.ofSymbol s) (.malformed (.operandMissing s.char))
  | unary {s : Symbol} {rest : List Token} {operand : Expression} {x : Float} {e : EvaluationError} :
    s.arity = .unary → before = rest ++ operand.postorder → operand.value = .ok x →
    Arithmetic.unary s.char x = .error e → Fails before (.ofSymbol s) e
  | binary {s : Symbol} {rest : List Token} {left right : Expression} {x y : Float} {e : EvaluationError} :
    s.arity = .binary → before = rest ++ left.postorder ++ right.postorder →
    left.value = .ok x → right.value = .ok y →
    Arithmetic.binary s.char x y = .error e → Fails before (.ofSymbol s) e

/-- No token fails. -/
def Passes (ts : List Token) : Prop :=
  ∀ before t after e, ts = before ++ t :: after → ¬ Fails before t e

variable {values : Stack Float} {trees : List Expression} {before ts p : List Token} {t : Token}
  {e : EvaluationError}

section Counting

/-- The values behind two lists are those of each. -/
lemma available_append (ts more : List Token) : available (ts ++ more) = available ts + available more := by
  simp only [available, List.countP_append]
  omega

/-- An operand is one value. -/
lemma available_token (a : Operand) : available [a.token] = 1 := by
  simp [available, Token.isBinary]

/-- A negation takes one value and gives one. -/
lemma available_negation : available [.ofSymbol .negation] = 0 := rfl

/-- A binary operator takes two values and gives one. -/
lemma available_binary (op : BinaryOperator) : available [.ofSymbol (.binary op)] = -1 := by
  simp [available, Token.isBinary, Symbol.arity]

/-- An expression has one value. -/
lemma available_postorder (e : Expression) : available e.postorder = 1 := by
  induction e with
  | operand a => exact available_token a
  | negation e ih => rw [Expression.postorder, available_append, ih, available_negation, add_zero]
  | binary op left right ihl ihr =>
    rw [Expression.postorder, available_append, available_append, ihl, ihr, available_binary]
    rfl

/-- There is one value for each tree. -/
lemma available_postorders (trees : List Expression) :
    available (Expression.postorders trees) = trees.length := by
  induction trees with
  | nil => rfl
  | cons e trees ih =>
    rw [Expression.postorders_cons, available_append, ih, available_postorder, List.length_cons]
    rfl

end Counting

section Trees

/-- Trees are found again in their postorders. -/
lemma foldlM_join?_postorders (trees : List Expression) :
    (Expression.postorders trees).foldlM Expression.join? [] = some trees := by
  induction trees with
  | nil => rfl
  | cons e trees ih =>
    rw [Expression.postorders_cons, List.foldlM_append, ih]
    exact Expression.foldlM_join? e trees

/-- Tokens that end with a postorder end with its tree. -/
lemma exists_of_postorders_eq {e : Expression} {rest : List Token}
    (same : Expression.postorders trees = rest ++ e.postorder) :
    ∃ others, trees = e :: others ∧ Expression.postorders others = rest := by
  have run := foldlM_join?_postorders trees
  rw [same, List.foldlM_append] at run
  obtain ⟨others, front, run⟩ := Option.bind_eq_some_iff.1 run
  rw [Expression.foldlM_join?] at run
  exact ⟨others, (Option.some.inj run).symm, Expression.postorders_of_foldlM front⟩

/-- There is a value for every tree. -/
lemma Holds.length_eq (holds : Holds values trees) : values.items.length = trees.length :=
  List.Forall₂.length_eq holds

end Trees

section Step

/-- A character that is no operator is refused, whatever values there are. -/
lemma evaluateToken_of_not_isOperator {c : Char} (group : (Token.symbol c).isOperator = false)
    (values : Stack Float) : evaluateToken values (.symbol c) = .error (.unsupportedOperator c) := by
  cases found : Symbol.ofChar? c with
  | none => simp only [evaluateToken, found]
  | some s =>
    cases s with
    | opening => simp only [evaluateToken, found]
    | closing => simp only [evaluateToken, found]
    | negation => simp [Token.isOperator, Token.symbol?, Token.char?, found, Symbol.arity] at group
    | binary op => simp [Token.isOperator, Token.symbol?, Token.char?, found, Symbol.arity] at group

/-- An operator with too few values at hand lacks an operand. -/
lemma evaluateToken_of_length_lt {s : Symbol} (operator : s.arity ≠ .grouping)
    (few : values.items.length < s.arity.operands) :
    evaluateToken values (.ofSymbol s) = .error (.malformed (.operandMissing s.char)) := by
  obtain ⟨items⟩ := values
  cases s with
  | opening => exact absurd rfl operator
  | closing => exact absurd rfl operator
  | negation =>
    rw [evaluateToken_ofSymbol_negation]
    match items, few with
    | [], _ => rfl
  | binary op =>
    rw [evaluateToken_ofSymbol_binary]
    match items, few with
    | [], _ => rfl
    | [_], _ => rfl

/-- A token that fails behind the postorders of trees is not taken with their values. -/
lemma Holds.evaluateToken_eq_error (holds : Holds values trees)
    (fails : Fails (Expression.postorders trees) t e) : evaluateToken values t = .error e := by
  cases fails with
  | integer large =>
    exact Except.map_eq_error_iff.2 (Arithmetic.ofInteger_eq_error_iff.2 ⟨large, rfl⟩)
  | unsupported group => exact evaluateToken_of_not_isOperator group values
  | missing operator few =>
    rw [available_postorders, ← holds.length_eq] at few
    exact evaluateToken_of_length_lt operator (Int.ofNat_lt.1 few)
  | @unary s rest operand x e unary same value failed =>
    cases s with
    -- There is a negation of every number.
    | negation => cases failed
    | _ => cases unary
  | @binary s rest left right x y e binary same valuel valuer failed =>
    cases s with
    | binary op =>
      -- The two postorders in front of the operator are those of the last two trees.
      obtain ⟨trees, rfl, front⟩ := exists_of_postorders_eq same
      obtain ⟨others, rfl, _⟩ := exists_of_postorders_eq front
      obtain ⟨items⟩ := values
      cases holds with
      | cons valuer' holds =>
        cases holds with
        | cons valuel' holds =>
          cases Except.ok.inj (valuel.symm.trans valuel')
          cases Except.ok.inj (valuer.symm.trans valuer')
          rw [Arithmetic.binary_char] at failed
          rw [evaluateToken_ofSymbol_binary]
          exact Except.map_eq_error_iff.2 failed
    | _ => cases binary

/-- A token that is not taken with the values of trees fails behind their postorders. -/
lemma Holds.fails (holds : Holds values trees) (failed : evaluateToken values t = .error e) :
    Fails (Expression.postorders trees) t e := by
  cases t.view with
  | operand a =>
    rw [evaluateToken_token] at failed
    cases a with
    | integer n =>
      obtain ⟨large, rfl⟩ := Arithmetic.ofInteger_eq_error_iff.1 (Except.map_eq_error_iff.1 failed)
      exact .integer large
    | real x => cases failed
  | @unknown c meaningless =>
    have group : (Token.symbol c).isOperator = false := by
      simp [Token.isOperator, Token.symbol?, Token.char?, meaningless]
    rw [evaluateToken_of_not_isOperator group] at failed
    cases failed
    exact .unsupported group
  | symbol s =>
    obtain ⟨items⟩ := values
    cases s with
    | opening =>
      cases failed
      exact .unsupported rfl
    | closing =>
      cases failed
      exact .unsupported rfl
    | negation =>
      rw [evaluateToken_ofSymbol_negation] at failed
      cases holds with
      | nil =>
        cases failed
        exact .missing (by decide) (by decide)
      | cons value holds => cases failed
    | binary op =>
      rw [evaluateToken_ofSymbol_binary] at failed
      have operator : (Symbol.binary op).arity ≠ .grouping := by simp [Symbol.arity]
      cases holds with
      | nil =>
        cases failed
        exact .missing operator two_pos
      | @cons y right rest trees valuer holds =>
        cases holds with
        -- The only value has been taken as the right operand.
        | nil =>
          cases failed
          refine .missing operator ?_
          rw [available_postorders]
          exact one_lt_two
        | @cons x left rest trees valuel holds =>
          have listed : Expression.postorders (right :: left :: trees) =
              Expression.postorders trees ++ left.postorder ++ right.postorder := by
            rw [Expression.postorders_cons, Expression.postorders_cons]
          have failed := Except.map_eq_error_iff.1 failed
          rw [← Arithmetic.binary_char] at failed
          exact .binary rfl listed valuel valuer failed

end Step

section Run

/-- While no token has failed, the tokens are the postorders of trees with the values at hand. -/
lemma exists_of_run (run : ts.foldlM evaluateToken .empty = .ok values) :
    ∃ trees, Expression.postorders trees = ts ∧ Holds values trees := by
  have start : Holds .empty [] := List.Forall₂.nil
  obtain ⟨trees, joined, holds⟩ := start.of_tokens run
  exact ⟨trees, Expression.postorders_of_foldlM joined, holds⟩

/-- Whether a token fails, and how, is decided by the tokens in front of it. -/
lemma fails_iff (run : ts.foldlM evaluateToken .empty = .ok values) :
    Fails ts t e ↔ evaluateToken values t = .error e := by
  obtain ⟨trees, rfl, holds⟩ := exists_of_run run
  exact ⟨holds.evaluateToken_eq_error, holds.fails⟩

/-- Where all tokens are taken none fails. -/
lemma passes_of_run (run : ts.foldlM evaluateToken .empty = .ok values) : Passes ts := by
  rintro before t after e rfl fails
  rw [List.foldlM_append] at run
  obtain ⟨values₁, front, run⟩ := Except.bind_eq_ok_iff.1 run
  rw [List.foldlM_cons, (fails_iff front).1 fails] at run
  cases run

/-- A run that fails has taken the tokens in front of one that it did not take. -/
lemma exists_of_foldlM_eq_error (failed : ts.foldlM evaluateToken values = .error e) :
    ∃ before t after values', ts = before ++ t :: after ∧
      before.foldlM evaluateToken values = .ok values' ∧ evaluateToken values' t = .error e := by
  induction ts generalizing values with
  | nil => cases failed
  | cons t ts ih =>
    rcases Except.bind_eq_error_iff.1 failed with failed | ⟨values₁, one, failed⟩
    · exact ⟨[], t, ts, values, rfl, rfl, failed⟩
    · obtain ⟨before, t', after, values', rfl, run, failed⟩ := ih failed
      exact ⟨t :: before, t', after, values', rfl, Except.bind_eq_ok_iff.2 ⟨values₁, one, run⟩, failed⟩

/-- A run that fails has a first token that fails, with the error of the run. -/
lemma exists_of_run_eq_error (failed : ts.foldlM evaluateToken .empty = .error e) :
    ∃ before t after, ts = before ++ t :: after ∧ Passes before ∧ Fails before t e := by
  obtain ⟨before, t, after, values, same, front, failed⟩ := exists_of_foldlM_eq_error failed
  exact ⟨before, t, after, same, passes_of_run front, (fails_iff front).2 failed⟩

/-- No token fails if and only if all are taken. -/
lemma passes_iff : Passes ts ↔ ∃ values, ts.foldlM evaluateToken .empty = .ok values := by
  refine ⟨fun passes => ?_, fun ⟨values, run⟩ => passes_of_run run⟩
  cases run : ts.foldlM evaluateToken .empty with
  | ok values => exact ⟨values, rfl⟩
  | error e =>
    obtain ⟨before, t, after, same, _, fails⟩ := exists_of_run_eq_error run
    exact absurd fails (passes before t after e same)

/-- The error of an evaluation is that of the first token that fails. -/
lemma evaluate_of_fails {after : List Token} (passes : Passes before) (fails : Fails before t e) :
    evaluate (before ++ t :: after) = .error e := by
  obtain ⟨values, front⟩ := passes_iff.1 passes
  have failed : (t :: after).foldlM evaluateToken values = .error e :=
    Except.bind_eq_error_iff.2 (.inl ((fails_iff front).1 fails))
  refine Except.bind_eq_error_iff.2 (.inl ?_)
  rw [List.foldlM_append]
  exact Except.bind_eq_error_iff.2 (.inr ⟨values, front, failed⟩)

/-- Where a token fails there is a first one. -/
lemma exists_of_not_passes (fails : ¬ Passes p) :
    ∃ before t after e, p = before ++ t :: after ∧ Passes before ∧ Fails before t e := by
  cases run : p.foldlM evaluateToken .empty with
  | ok values => exact absurd (passes_of_run run) fails
  | error e =>
    obtain ⟨before, t, after, first⟩ := exists_of_run_eq_error run
    exact ⟨before, t, after, e, first⟩

end Run

section Values

/-- Two or more values are none. -/
lemma onlyValue_of_two_le (many : 2 ≤ values.items.length) :
    onlyValue values = .error (.malformed (.valuesLeft values.items.length)) := by
  obtain ⟨items⟩ := values
  match items, many with
  | _ :: _ :: _, _ => rfl

/-- Without a failing token the values at hand are as many as the tokens make available. -/
lemma exists_of_passes (passes : Passes p) :
    ∃ values, evaluate p = onlyValue values ∧ available p = values.items.length ∧
      (values.items = [] ↔ p = []) := by
  obtain ⟨values, run⟩ := passes_iff.1 passes
  obtain ⟨trees, rfl, holds⟩ := exists_of_run run
  refine ⟨values, ?_, ?_, ?_⟩
  · rw [evaluate, run]
    rfl
  · rw [available_postorders, holds.length_eq]
  · constructor
    · intro none
      rw [Holds, none] at holds
      cases holds
      rfl
    · intro none
      have count := available_postorders trees
      rw [none, ← holds.length_eq] at count
      exact List.length_eq_zero_iff.1 (Int.ofNat.inj count).symm

end Values

/-- The evaluation of any list of tokens has the error of the first token that fails. Where no token
fails, nothing but the number of values that the tokens make available decides: there is none only without
tokens, one is the result, and more are too many. What is malformed is told in these words. -/
theorem evaluate_classified (p : List Token) :
    (¬ Passes p → ∃ before t after e, p = before ++ t :: after ∧ Passes before ∧ Fails before t e) ∧
    (∀ before t after e, p = before ++ t :: after → Passes before → Fails before t e →
      evaluate p = .error e) ∧
    (Passes p →
      (evaluate p = .error (.malformed .valueMissing) ↔ p = []) ∧
      (p ≠ [] → 1 ≤ available p) ∧
      (available p = 1 → ∃ v, evaluate p = .ok v) ∧
      ∀ n : Nat, 2 ≤ n → available p = n → evaluate p = .error (.malformed (.valuesLeft n))) ∧
    (∀ c : Char, (Malformation.operandMissing c).details = "missing operand for '" ++ c.toString ++ "'") ∧
    Malformation.valueMissing.details = "no value left on the stack" ∧
    ∀ n : Nat, (Malformation.valuesLeft n).details = toString n ++ " values left on the stack" := by
  refine ⟨exists_of_not_passes, ?_, fun passes => ?_, fun _ => rfl, rfl, fun _ => rfl⟩
  · rintro before t after e rfl passes fails
    exact evaluate_of_fails passes fails
  -- All tokens are taken, and only the number of values that are left decides.
  obtain ⟨⟨items⟩, done, count, none⟩ := exists_of_passes passes
  rw [done, count]
  refine ⟨?_, ?_, ?_, ?_⟩
  · rw [← none]
    match items with
    | [] => exact ⟨fun _ => rfl, fun _ => rfl⟩
    | [x] => exact ⟨nofun, nofun⟩
    | _ :: _ :: _ => exact ⟨nofun, nofun⟩
  · intro some
    exact Int.ofNat_le.2 (List.length_pos_iff.2 (mt none.1 some))
  · intro one
    obtain ⟨v, rfl⟩ := List.length_eq_one_iff.1 (Int.ofNat.inj one)
    exact ⟨v, rfl⟩
  · intro n many same
    obtain rfl := Int.ofNat.inj same
    exact onlyValue_of_two_le many

/-- A quotient by zero fails although a parenthesis follows, a negation without a value in front of it
fails at once, and a number without an operator is a value too many. -/
theorem evaluate_classified_quotient :
    (Passes [.integer 4, .integer 0] ∧ Fails [.integer 4, .integer 0] (.symbol '/') .divisionByZero ∧
      evaluate [.integer 4, .integer 0, .symbol '/', .symbol '('] = .error .divisionByZero) ∧
    (¬ Passes [.symbol '!', .integer 7] ∧ ∃ before t after e,
      [.symbol '!', .integer 7] = before ++ t :: after ∧ Passes before ∧ Fails before t e) ∧
    (Passes [.integer 7] ∧ available [.integer 7] = 1 ∧ ∃ v, evaluate [.integer 7] = .ok v) ∧
    available [.integer 4, .integer 0] = 2 ∧
      evaluate [.integer 4, .integer 0] = .error (.malformed (.valuesLeft 2)) := by
  have two : Passes [.integer 4, .integer 0] := passes_iff.2 ⟨_, rfl⟩
  have one : Passes [.integer 7] := passes_iff.2 ⟨_, rfl⟩
  have zero : Arithmetic.binary '/' (Binary64.ofInt 4) (Binary64.ofInt 0) = .error .divisionByZero := by
    decide +kernel
  have fails : Fails [.integer 4, .integer 0] (.symbol '/') .divisionByZero :=
    @Fails.binary _ (.binary .divide) [] (.operand (.integer 4)) (.operand (.integer 0)) _ _ _
      rfl rfl rfl rfl zero
  have missing : Fails [] (.symbol '!') (.malformed (.operandMissing '!')) :=
    @Fails.missing [] .negation (by decide) (by decide)
  have early : ¬ Passes [.symbol '!', .integer 7] := fun passes => passes [] _ _ _ rfl missing
  refine ⟨⟨two, fails, ?_⟩, ⟨early, ?_⟩, ⟨one, rfl, ?_⟩, rfl, ?_⟩
  · exact (evaluate_classified _).2.1 _ _ _ _ rfl two fails
  · exact (evaluate_classified _).1 early
  · exact ((evaluate_classified _).2.2.1 one).2.2.1 rfl
  · exact ((evaluate_classified _).2.2.1 two).2.2.2 2 le_rfl rfl

end Postfix

end LineCalc
