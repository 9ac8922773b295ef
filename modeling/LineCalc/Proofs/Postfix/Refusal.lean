import LineCalc.Proofs.Expression.Groups
import LineCalc.Proofs.Postfix.Conversion
import Mathlib.Order.Bounds.Basic

/-!
# Where a conversion is refused

Tokens are viable if more tokens can make them an expression. A conversion that has taken its tokens so
far can always be brought to an end: an operand is added where one is expected, and the open groups are
closed (`viable_iff`). So a token is refused only where no expression starts with it and what is in front
of it, and the error names the first such token. If there is none, the tokens end too early, and the
error names the last token or the last group that stays open.
-/

namespace LineCalc.Postfix

/-- More tokens can make an expression of these. -/
def Viable (ts : List Token) : Prop := ∃ more p, ofTokens (ts ++ more) = .ok p

/-- The error for a token that is refused at a position, inside a group or outside all of them. -/
inductive Refused (inside : Prop) (position : Nat) : Token → ConversionError → Prop
  | unknown {c : Char} :
    Symbol.ofChar? c = none → Refused inside position (.symbol c) (.invalidOperator c position)
  | unopened :
    ¬ inside → Refused inside position (.ofSymbol .closing) (.unbalancedParenthesis position)
  | closing :
    inside →
    Refused inside position (.ofSymbol .closing) (.invalidExpression .closingBeforeOperand position)
  | operand (a : Operand) :
    Refused inside position a.token (.invalidExpression .operandAfterOperand position)
  | negation :
    Refused inside position (.ofSymbol .negation) (.invalidExpression .negationAfterOperand position)
  | opening :
    Refused inside position (.ofSymbol .opening) (.invalidExpression .openingAfterOperand position)
  | binary (op : BinaryOperator) :
    Refused inside position (.ofSymbol (.binary op)) (.invalidExpression (.leftOperandMissing op) position)

/-- There are no tokens, or the last is a binary operator, a negation or an opening parenthesis. -/
def AwaitsOperand (ts : List Token) : Prop := ∀ t ∈ ts.getLast?, ∃ s ≠ Symbol.closing, t = .ofSymbol s

/-- The error for tokens that end too early. -/
inductive Unfinished (ts : List Token) : ConversionError → Prop
  | nothing : ts = [] → Unfinished ts (.invalidExpression .nothingToEvaluate 0)
  | operand :
    ts ≠ [] → AwaitsOperand ts →
    Unfinished ts (.invalidExpression .rightOperandMissing (ts.length - 1))
  | group {i : Nat} :
    ¬ AwaitsOperand ts → IsGreatest {i | Token.Unclosed ts i} i →
    Unfinished ts (.unbalancedParenthesis i)

variable {s s' : Conversion} {ts more : List Token} {ctx : Context} {current : Option Writing}
  {position : Nat} {t : Token} {e : ConversionError}

section OpenGroups

/-- A frame that is no open group is balanced. -/
lemma Frame.balanced_tokens {f : Frame} (closed : f.isOpening = false) : Token.Balanced f.tokens := by
  cases f with
  | negation => exact .singleton (Token.nesting_ofSymbol .negation)
  | opening => cases closed
  | binary left op =>
    exact left.balanced_tokens.append (.singleton (Token.nesting_ofSymbol (.binary op)))

namespace Context

/-- The outer frames come first. -/
lemma tokens_append (inner outer : Context) :
    tokens (inner ++ outer) = tokens outer ++ tokens inner := by
  induction inner with
  | nil => exact (List.append_nil _).symm
  | cons f inner ih => rw [List.cons_append, tokens, tokens, ih, List.append_assoc]

/-- Frames other than groups are balanced. -/
lemma balanced_tokens (closed : ∀ f ∈ ctx, f.isOpening = false) : Token.Balanced ctx.tokens := by
  induction ctx with
  | nil => exact .nil
  | cons f outer ih =>
    obtain ⟨first, closed⟩ := List.forall_mem_cons.1 closed
    exact (ih closed).append (Frame.balanced_tokens first)

end Context

namespace Conversion.Tracks

/-- The operand that has just been read is balanced. -/
lemma balanced_current (current : Option Writing) :
    Token.Balanced (current.elim [] Writing.tokens) := by
  cases current with
  | none => exact .nil
  | some w => exact w.balanced_tokens

/-- Behind the innermost group that waits the tokens are balanced. -/
lemma exists_balanced {outer : Context} (tracks : s.Tracks ts ctx current)
    (waits : ctx.dropWhile (fun f => !f.isOpening) = .opening :: outer) :
    ∃ inner, Token.Balanced inner ∧ ts = outer.tokens ++ .ofSymbol .opening :: inner := by
  have split : ctx.takeWhile (fun f => !f.isOpening) ++ .opening :: outer = ctx := by
    rw [← waits]
    exact List.takeWhile_append_dropWhile
  have closed (f : Frame) (mem : f ∈ ctx.takeWhile fun f => !f.isOpening) : f.isOpening = false := by
    simpa using List.mem_takeWhile_imp mem
  have opening : Frame.opening.tokens = [.ofSymbol .opening] := rfl
  have read := tracks.tokens
  rw [← split, Context.tokens_append, Context.tokens, opening, List.append_assoc, List.append_assoc] at read
  exact ⟨_, (Context.balanced_tokens closed).append (balanced_current current), read.symm⟩

/-- The innermost group that waits starts with the last parenthesis that stays open. -/
lemma isGreatest_unclosed {outer : Context} (tracks : s.Tracks ts ctx current)
    (waits : ctx.dropWhile (fun f => !f.isOpening) = .opening :: outer) :
    IsGreatest {i | Token.Unclosed ts i} outer.tokens.length := by
  obtain ⟨inner, balanced, rfl⟩ := tracks.exists_balanced waits
  exact balanced.isGreatest_unclosed outer.tokens

/-- A conversion knows whether a group stays open. -/
lemma openGroups_ne_zero_iff (tracks : s.Tracks ts ctx current) :
    s.openGroups ≠ 0 ↔ ∃ i, Token.Unclosed ts i := by
  rw [tracks.shown.openGroups]
  constructor
  · intro opened
    obtain ⟨outer, waits, _⟩ := Context.exists_opening opened
    exact ⟨_, (tracks.isGreatest_unclosed waits).1⟩
  · rintro ⟨i, unclosed⟩ none
    have closed (f : Frame) (mem : f ∈ ctx) : f.isOpening = false := by
      simpa using List.countP_eq_zero.1 none f mem
    have balanced := (Context.balanced_tokens closed).append (balanced_current current)
    rw [tracks.tokens] at balanced
    exact balanced.not_unclosed i unclosed

end Conversion.Tracks

end OpenGroups

section Steps

namespace Conversion

/-- What one step refuses. -/
lemma refused_of_step (failed : s.step position t = .error e) :
    Refused (s.openGroups ≠ 0) position t e := by
  cases t.view with
  | operand a =>
    rw [step_operand, takeOperand] at failed
    split at failed
    · cases failed
    · cases failed
      exact .operand a
  | unknown meaningless =>
    rw [step, meaningless] at failed
    cases failed
    exact .unknown meaningless
  | symbol symbol =>
    rw [step_ofSymbol] at failed
    cases symbol with
    | negation =>
      rw [takeSymbol] at failed
      split at failed
      · cases failed
      · cases failed
        exact .negation
    | opening =>
      rw [takeSymbol] at failed
      split at failed
      · cases failed
      · cases failed
        exact .opening
    | closing =>
      -- Whether there is a group to close is asked before what stands in front of the parenthesis.
      rw [takeSymbol] at failed
      split at failed
      case isTrue none =>
        cases failed
        exact .unopened (not_not.2 none)
      case isFalse opened =>
        split at failed
        · cases failed
          exact .closing opened
        · cases failed
    | binary op =>
      rw [takeSymbol] at failed
      split at failed
      · cases failed
        exact .binary op
      · cases failed

/-- A run fails at the first token that is refused. -/
lemma exists_of_steps_eq_error (failed : s.steps position ts = .error e) :
    ∃ n t s', ts[n]? = some t ∧ s.steps position (ts.take n) = .ok s' ∧
      s'.step (position + n) t = .error e := by
  induction ts generalizing s position with
  | nil => cases failed
  | cons t ts ih =>
    rcases Except.bind_eq_error_iff.1 failed with refused | ⟨s₁, one, failed⟩
    · exact ⟨0, t, s, rfl, rfl, refused⟩
    · obtain ⟨n, t', s', found, run, refused⟩ := ih failed
      refine ⟨n + 1, t', s', found, Except.bind_eq_ok_iff.2 ⟨s₁, one, run⟩, ?_⟩
      rw [Nat.add_right_comm] at refused
      exact refused

/-- More tokens do not mend a run that has failed. -/
lemma steps_append_of_error (failed : s.steps position ts = .error e) :
    s.steps position (ts ++ more) = .error e := by
  induction ts generalizing s position with
  | nil => cases failed
  | cons t ts ih =>
    rcases Except.bind_eq_error_iff.1 failed with refused | ⟨s₁, one, failed⟩
    · exact Except.bind_eq_error_iff.2 (.inl refused)
    · exact Except.bind_eq_error_iff.2 (.inr ⟨s₁, one, ih failed⟩)

/-- What follows tokens is taken from where these have brought the conversion. -/
lemma steps_start_append (run : start.steps 0 ts = .ok s) (more : List Token) :
    start.steps 0 (ts ++ more) = s.steps ts.length more := by
  have first : start.steps ([] : List Token).length ts = .ok s := run
  exact steps_append first

end Conversion

end Steps

section Endings

namespace Conversion.Tracks

/-- Open groups can be closed behind an operand. -/
lemma exists_closed {w : Writing} (tracks : s.Tracks ts ctx (some w)) :
    ∃ more s' ctx' w', s.steps ts.length more = .ok s' ∧ s'.Tracks (ts ++ more) ctx' (some w') ∧
      ctx'.openGroups = 0 := by
  generalize count : ctx.openGroups = groups
  induction groups generalizing s ts ctx w with
  | zero =>
    refine ⟨[], s, ctx, w, rfl, ?_, count⟩
    rw [List.append_nil]
    exact tracks
  | succ groups ih =>
    obtain ⟨s₁, outer, count₁, one, tracks₁⟩ := tracks.closing (count ▸ Nat.succ_ne_zero groups)
    rw [count] at count₁
    obtain ⟨more, s', ctx', w', run, tracks', closed⟩ := ih tracks₁ (Nat.succ_injective count₁).symm
    rw [← List.append_cons] at tracks'
    exact ⟨_, s', ctx', w', (steps_cons one).trans run, tracks', closed⟩

/-- Every conversion can be brought to an end. -/
lemma exists_finish (tracks : s.Tracks ts ctx current) :
    ∃ more s' p, s.steps ts.length more = .ok s' ∧ s'.finish (ts ++ more).length = .ok p := by
  cases current with
  | some w =>
    obtain ⟨more, s', ctx', w', run, tracks', closed⟩ := tracks.exists_closed
    obtain ⟨v, _, _, done⟩ := tracks'.finish closed
    exact ⟨more, s', _, run, done⟩
  | none =>
    -- Any operand will do.
    obtain ⟨s₁, one, tracks₁⟩ := tracks.operand (.integer 0)
    obtain ⟨more, s', ctx', w', run, tracks', closed⟩ := tracks₁.exists_closed
    obtain ⟨v, _, _, done⟩ := tracks'.finish closed
    rw [← List.append_cons] at done
    exact ⟨_, s', _, (steps_cons one).trans run, done⟩

/-- A conversion expects an operand where the tokens do. -/
lemma awaitsOperand_iff (tracks : s.Tracks ts ctx current) : AwaitsOperand ts ↔ current = none := by
  have read := tracks.tokens
  cases current with
  | none =>
    refine ⟨fun _ => rfl, fun _ => ?_⟩
    rw [Option.elim, List.append_nil] at read
    rw [← read]
    intro t last
    -- The last token is the symbol of the innermost frame, and no frame waits with a closing parenthesis.
    cases ctx with
    | nil => cases last
    | cons f outer =>
      rw [Context.tokens, Frame.tokens, ← List.append_assoc, List.getLast?_concat] at last
      cases last
      refine ⟨f.symbol, fun closing => ?_, rfl⟩
      cases f <;> cases closing
  | some w =>
    refine ⟨fun awaits => ?_, fun clash => absurd clash (Option.some_ne_none w)⟩
    obtain ⟨_, rootless, clear⟩ := tracks.current w rfl
    rw [← read] at awaits
    -- What has just been read ends with an operand or with a closing parenthesis.
    cases w with
    | operand a =>
      obtain ⟨symbol, _, same⟩ := awaits a.token List.getLast?_concat
      cases a <;> cases same
    | negation => cases clear
    | binary => cases rootless
    | group w =>
      have last : (ctx.tokens ++ (Writing.group w).tokens).getLast? = some (.ofSymbol .closing) := by
        rw [Writing.tokens, ← List.cons_append, ← List.append_assoc, List.getLast?_concat]
      obtain ⟨symbol, other, same⟩ := awaits _ last
      have meant := congrArg Token.symbol? same
      rw [Token.symbol?_ofSymbol, Token.symbol?_ofSymbol] at meant
      exact absurd (Option.some.inj meant).symm other

/-- What fails at the end is unfinished, in the way that the error says. -/
lemma unfinished_of_finish (tracks : s.Tracks ts ctx current) (failed : s.finish ts.length = .error e) :
    Unfinished ts e := by
  cases current with
  | none =>
    have awaits := tracks.awaitsOperand_iff.2 rfl
    rw [Conversion.finish, tracks.expectsOperand] at failed
    cases failed
    cases ts with
    | nil => exact .nothing rfl
    | cons t ts => exact .operand (List.cons_ne_nil t ts) awaits
  | some w =>
    by_cases closed : ctx.openGroups = 0
    · obtain ⟨v, _, _, done⟩ := tracks.finish closed
      cases done.symm.trans failed
    · obtain ⟨outer, waits, unfinished⟩ := tracks.finish_of_opened closed
      cases unfinished.symm.trans failed
      exact .group (mt tracks.awaitsOperand_iff.1 (Option.some_ne_none w))
        (tracks.isGreatest_unclosed waits)

end Conversion.Tracks

end Endings

section Viable

/-- Tokens are viable as long as none of them is refused. -/
lemma viable_iff : Viable ts ↔ ∃ s, Conversion.start.steps 0 ts = .ok s := by
  constructor
  · rintro ⟨more, p, done⟩
    obtain ⟨_, whole, _⟩ := Except.bind_eq_ok_iff.1 done
    cases run : Conversion.start.steps 0 ts with
    | ok s => exact ⟨s, rfl⟩
    | error e =>
      rw [Conversion.steps_append_of_error run] at whole
      cases whole
  · rintro ⟨s, run⟩
    obtain ⟨ctx, current, tracks⟩ := Conversion.Tracks.start.of_steps run
    rw [List.nil_append] at tracks
    obtain ⟨more, s', p, ending, done⟩ := tracks.exists_finish
    refine ⟨more, p, Except.bind_eq_ok_iff.2 ⟨s', ?_, done⟩⟩
    exact (Conversion.steps_start_append run more).trans ending

/-- The first tokens of viable ones are viable. -/
lemma Viable.of_isPrefix (viable : Viable more) (start : ts <+: more) : Viable ts := by
  obtain ⟨rest, rfl⟩ := start
  obtain ⟨more, p, done⟩ := viable
  rw [List.append_assoc] at done
  exact ⟨rest ++ more, p, done⟩

/-- What is refused stays refused for the same reason. -/
lemma ofTokens_append_of_not_viable (refused : ¬ Viable ts) (more : List Token) :
    ofTokens (ts ++ more) = ofTokens ts := by
  cases run : Conversion.start.steps 0 ts with
  | ok s => exact absurd (viable_iff.2 ⟨s, run⟩) refused
  | error e =>
    rw [ofTokens, ofTokens, Conversion.steps_append_of_error run, run]
    rfl

/-- A token that is refused behind others decides the conversion, whatever follows. -/
lemma ofTokens_append_of_refused (run : Conversion.start.steps 0 ts = .ok s)
    (refused : s.step ts.length t = .error e) (more : List Token) : ofTokens (ts ++ t :: more) = .error e := by
  have whole := Conversion.steps_start_append run (t :: more)
  refine Except.bind_eq_error_iff.2 (.inl (whole.trans ?_))
  exact Except.bind_eq_error_iff.2 (.inl refused)

/-- A character without a meaning is refused where it stands if nothing in front of it is. -/
lemma Viable.ofTokens_append_symbol {c : Char} (viable : Viable ts) (meaningless : Symbol.ofChar? c = none)
    (more : List Token) : ofTokens (ts ++ .symbol c :: more) = .error (.invalidOperator c ts.length) := by
  obtain ⟨s, run⟩ := viable_iff.1 viable
  refine ofTokens_append_of_refused run ?_ more
  rw [Conversion.step, meaningless]

/-- Characters without a meaning around tokens are refused, or else make no difference. -/
lemma ofTokens_around {before after : List Char}
    (meaningless : ∀ c ∈ before ++ after, Symbol.ofChar? c = none) (ts : List Token) :
    let all := before.map .symbol ++ (ts ++ after.map .symbol)
    ofTokens all = ofTokens ts ∨
    ∃ c ∈ before ++ after, ∃ position, ofTokens all = .error (.invalidOperator c position) := by
  cases before with
  | cons c before =>
    have nothing : Viable [] := viable_iff.2 ⟨.start, rfl⟩
    exact .inr ⟨c, List.mem_cons_self, _,
      nothing.ofTokens_append_symbol (meaningless c List.mem_cons_self) _⟩
  | nil =>
    cases after with
    | nil => exact .inl (congrArg ofTokens (List.append_nil ts))
    | cons c after =>
      by_cases viable : Viable ts
      · exact .inr ⟨c, List.mem_cons_self, _,
          viable.ofTokens_append_symbol (meaningless c List.mem_cons_self) _⟩
      · exact .inl (ofTokens_append_of_not_viable viable _)

/-- The token that a run fails at is the first without which the tokens would be viable. -/
lemma isLeast_of_step {n : Nat} (found : ts[n]? = some t)
    (run : Conversion.start.steps 0 (ts.take n) = .ok s) (refused : s.step n t = .error e) :
    IsLeast {p | p < ts.length ∧ ¬ Viable (ts.take (p + 1))} n := by
  obtain ⟨inside, rfl⟩ := List.getElem?_eq_some_iff.1 found
  refine ⟨⟨inside, ?_⟩, ?_⟩
  · rw [viable_iff, List.take_succ_eq_append_getElem inside]
    rintro ⟨s', whole⟩
    have length : (ts.take n).length = n := List.length_take_of_le inside.le
    have last := Conversion.steps_start_append run [ts[n]]
    rw [length] at last
    obtain ⟨_, one, _⟩ := Except.bind_eq_ok_iff.1 (last.symm.trans whole)
    cases refused.symm.trans one
  · intro p ⟨_, beyond⟩
    by_contra before
    apply beyond
    exact (viable_iff.2 ⟨s, run⟩).of_isPrefix (List.take_prefix_take_left (Nat.lt_of_not_le before))

end Viable

/-- An error is that of the first token with which no expression starts, and names its position. If there
is none, it is that of tokens which end too early. -/
theorem ofTokens_eq_error (failed : ofTokens ts = .error e) :
    (∀ p, IsLeast {p | p < ts.length ∧ ¬ Viable (ts.take (p + 1))} p →
      ∃ t, ts[p]? = some t ∧ Refused (∃ i, Token.Unclosed (ts.take p) i) p t e) ∧
    ((∀ p < ts.length, Viable (ts.take (p + 1))) → Unfinished ts e) := by
  rcases Except.bind_eq_error_iff.1 failed with failed | ⟨s, run, failed⟩
  · obtain ⟨n, t, s, found, run, refused⟩ := Conversion.exists_of_steps_eq_error failed
    rw [Nat.zero_add] at refused
    have least := isLeast_of_step found run refused
    obtain ⟨ctx, current, tracks⟩ := Conversion.Tracks.start.of_steps run
    constructor
    · intro p least'
      cases least.unique least'
      have refused := Conversion.refused_of_step refused
      rw [tracks.openGroups_ne_zero_iff] at refused
      exact ⟨t, found, refused⟩
    · exact fun all => absurd (all n least.1.1) least.1.2
  · constructor
    · intro p least
      have viable := (viable_iff.2 ⟨s, run⟩).of_isPrefix (List.take_prefix (p + 1) ts)
      exact absurd viable least.1.2
    · obtain ⟨ctx, current, tracks⟩ := Conversion.Tracks.start.of_steps run
      exact fun _ => tracks.unfinished_of_finish failed

/-- A parenthesis that stays open is found at the end, and one that closes nothing where it stands. -/
theorem ofTokens_eq_error_parentheses :
    let opened : List Token := [.symbol '(', .integer 1]
    let closed : List Token := [.integer 1, .symbol ')', .symbol '#']
    ofTokens opened = .error (.unbalancedParenthesis 0) ∧
    (∀ p < opened.length, Viable (opened.take (p + 1))) ∧
    Unfinished opened (.unbalancedParenthesis 0) ∧
    ofTokens closed = .error (.unbalancedParenthesis 1) ∧
    IsLeast {p | p < closed.length ∧ ¬ Viable (closed.take (p + 1))} 1 ∧
    ∃ t, closed[1]? = some t ∧
      Refused (∃ i, Token.Unclosed (closed.take 1) i) 1 t (.unbalancedParenthesis 1) := by
  intro opened closed
  have unfinished : ofTokens opened = .error (.unbalancedParenthesis 0) := rfl
  have refused : ofTokens closed = .error (.unbalancedParenthesis 1) := rfl
  have viable (p : Nat) (inside : p < 2) : Viable (opened.take (p + 1)) := by
    match p with
    | 0 => exact ⟨[.integer 1, .symbol ')'], [.integer 1], rfl⟩
    | 1 => exact ⟨[.symbol ')'], [.integer 1], rfl⟩
  have least : IsLeast {p | p < closed.length ∧ ¬ Viable (closed.take (p + 1))} 1 :=
    isLeast_of_step (t := .symbol ')') rfl rfl rfl
  exact ⟨unfinished, viable, (ofTokens_eq_error unfinished).2 viable, refused, least,
    (ofTokens_eq_error refused).1 1 least⟩

end LineCalc.Postfix
