import LineCalc.Proofs.Expression.Listing
import LineCalc.Proofs.Postfix.Conversion

/-!
# Substitution

One operand of what is written may be taken out and something else put in its place.

## Written expressions with a hole

A part of a written expression leaves a hole when it is taken out. The tokens around the hole do not depend
on what is put there, nor does what is listed in postorder before and behind it. Every operand among the
tokens has such a hole (`exists_of_tokens`), and a group may be put there instead: the parentheses that are
needed are all there still.
-/

namespace LineCalc.Writing

/-- A written expression with one part missing. -/
inductive Hole
  | here
  | negation (hole : Hole)
  | onLeft (op : BinaryOperator) (hole : Hole) (right : Writing)
  | onRight (op : BinaryOperator) (left : Writing) (hole : Hole)
  | group (hole : Hole)

namespace Hole

/-- A writing in the place of the hole. -/
def fill (w : Writing) : Hole → Writing
  | here => w
  | negation hole => .negation (hole.fill w)
  | onLeft op hole right => .binary op (hole.fill w) right
  | onRight op left hole => .binary op left (hole.fill w)
  | group hole => .group (hole.fill w)

/-- The tokens in front of the hole. -/
def before : Hole → List Token
  | here => []
  | negation hole => .ofSymbol .negation :: hole.before
  | onLeft _ hole _ => hole.before
  | onRight op left hole => left.tokens ++ .ofSymbol (.binary op) :: hole.before
  | group hole => .ofSymbol .opening :: hole.before

/-- The tokens behind the hole. -/
def after : Hole → List Token
  | here => []
  | negation hole => hole.after
  | onLeft op hole right => hole.after ++ .ofSymbol (.binary op) :: right.tokens
  | onRight _ _ hole => hole.after
  | group hole => hole.after ++ [.ofSymbol .closing]

/-- What is listed before the missing part in postorder. -/
def listedBefore : Hole → List Token
  | here => []
  | negation hole => hole.listedBefore
  | onLeft _ hole _ => hole.listedBefore
  | onRight _ left hole => left.expression.postorder ++ hole.listedBefore
  | group hole => hole.listedBefore

/-- What is listed behind the missing part in postorder. -/
def listedAfter : Hole → List Token
  | here => []
  | negation hole => hole.listedAfter ++ [.ofSymbol .negation]
  | onLeft op hole right => hole.listedAfter ++ right.expression.postorder ++ [.ofSymbol (.binary op)]
  | onRight op _ hole => hole.listedAfter ++ [.ofSymbol (.binary op)]
  | group hole => hole.listedAfter

variable {hole : Hole} {v w : Writing}

section Listings

/-- The tokens around the hole stay as they are. -/
lemma tokens_fill (hole : Hole) (w : Writing) :
    (hole.fill w).tokens = hole.before ++ (w.tokens ++ hole.after) := by
  induction hole with
  | here => exact (List.append_nil w.tokens).symm
  | negation hole ih => simp [fill, tokens, before, after, ih]
  | onLeft op hole right ih => simp [fill, tokens, before, after, ih]
  | onRight op left hole ih => simp [fill, tokens, before, after, ih]
  | group hole ih => simp [fill, tokens, before, after, ih]

/-- The listing around the hole stays as it is. -/
lemma postorder_fill (hole : Hole) (w : Writing) :
    (hole.fill w).expression.postorder =
      hole.listedBefore ++ (w.expression.postorder ++ hole.listedAfter) := by
  induction hole with
  | here => exact (List.append_nil w.expression.postorder).symm
  | negation hole ih => simp [fill, expression, Expression.postorder, listedBefore, listedAfter, ih]
  | onLeft op hole right ih => simp [fill, expression, Expression.postorder, listedBefore, listedAfter, ih]
  | onRight op left hole ih => simp [fill, expression, Expression.postorder, listedBefore, listedAfter, ih]
  | group hole ih => simp [fill, expression, listedBefore, listedAfter, ih]

/-- The operands in front of the hole are listed before the missing part, and no others are. -/
lemma filter_isOperand_listedBefore (hole : Hole) :
    hole.listedBefore.filter Token.isOperand = hole.before.filter Token.isOperand := by
  induction hole with
  | here => rfl
  | negation hole ih => simp [listedBefore, before, ih]
  | onLeft op hole right ih => exact ih
  | onRight op left hole ih =>
    simp [listedBefore, before, filter_isOperand_tokens, Expression.filter_isOperand_postorder, ih]
  | group hole ih => simp [listedBefore, before, ih]

end Listings

section Fitting

/-- Two writings with the same root leave the same root in the whole. -/
lemma root?_fill (same : v.root? = w.root?) (hole : Hole) : (hole.fill v).root? = (hole.fill w).root? := by
  cases hole with
  | here => exact same
  | _ => rfl

/-- Two writings that reach a negation alike do so in the whole. -/
lemma reachesNegation_fill (same : v.reachesNegation = w.reachesNegation) (hole : Hole) :
    (hole.fill v).reachesNegation = (hole.fill w).reachesNegation := by
  induction hole with
  | here => exact same
  | onRight op left hole ih => exact ih
  | _ => rfl

/-- One part may stand where another one stands that looks the same from outside. -/
lemma admissible_fill (adm : (hole.fill w).Admissible) (adm' : v.Admissible) (root : v.root? = w.root?)
    (edge : v.reachesNegation = w.reachesNegation) : (hole.fill v).Admissible := by
  induction hole with
  | here => exact adm'
  | negation hole ih =>
    cases adm with
    | negation adm => exact .negation (ih adm)
  | onLeft op hole right ih =>
    cases adm with
    | binary fits adml admr =>
      refine .binary ⟨?_, ?_, fits.right_tighter⟩ (ih adml) admr
      · rw [root?_fill root hole]
        exact fits.left_tighter
      · rw [reachesNegation_fill edge hole]
        exact fits.left_closed
  | onRight op left hole ih =>
    cases adm with
    | binary fits adml admr =>
      refine .binary ⟨fits.left_tighter, fits.left_closed, ?_⟩ adml (ih admr)
      rw [root?_fill root hole]
      exact fits.right_tighter
  | group hole ih =>
    cases adm with
    | group adm => exact .group (ih adm)

end Fitting

section Operands

variable {a : Operand} {s : Symbol} {front back l r : List Token}

/-- An operand stands on one side of a symbol. -/
lemma sides_of_tokens (same : l ++ .ofSymbol s :: r = front ++ a.token :: back) :
    (∃ between, l = front ++ a.token :: between ∧ back = between ++ .ofSymbol s :: r) ∨
    ∃ between, front = l ++ .ofSymbol s :: between ∧ r = between ++ a.token :: back := by
  have apart : Token.ofSymbol s ≠ a.token := by
    intro clash
    have meant := congrArg Token.symbol? clash
    simp at meant
  rcases List.append_eq_append_iff.1 same with ⟨between, rfl, rest⟩ | ⟨between, rfl, rest⟩
  · cases between with
    | nil => exact absurd (List.cons.inj rest).1 apart
    | cons t between =>
      obtain ⟨rfl, rfl⟩ := List.cons.inj rest
      exact .inr ⟨between, rfl, rfl⟩
  · cases between with
    | nil => exact absurd (List.cons.inj rest).1.symm apart
    | cons t between =>
      obtain ⟨rfl, rfl⟩ := List.cons.inj rest
      exact .inl ⟨between, rfl, rfl⟩

/-- Every operand among the tokens of a written expression can be taken out. -/
lemma exists_of_tokens (same : w.tokens = front ++ a.token :: back) :
    ∃ hole : Hole, hole.fill (.operand a) = w ∧ hole.before = front ∧ hole.after = back := by
  induction w generalizing front back with
  | operand b =>
    rcases List.cons_eq_append_iff.1 same with ⟨rfl, same⟩ | ⟨_, _, clash⟩
    · obtain ⟨token, rfl⟩ := List.cons.inj same
      have found := congrArg Token.operand? token
      rw [Token.operand?_token, Token.operand?_token] at found
      cases found
      exact ⟨here, rfl, rfl, rfl⟩
    · simp at clash
  | negation w ih =>
    rcases sides_of_tokens (l := []) same with ⟨_, clash, _⟩ | ⟨front, rfl, inner⟩
    · simp at clash
    · obtain ⟨hole, rfl, rfl, rfl⟩ := ih inner
      exact ⟨negation hole, rfl, rfl, rfl⟩
  | binary op left right ihl ihr =>
    rcases sides_of_tokens same with ⟨back, inner, rfl⟩ | ⟨front, rfl, inner⟩
    · obtain ⟨hole, rfl, rfl, rfl⟩ := ihl inner
      exact ⟨onLeft op hole right, rfl, rfl, rfl⟩
    · obtain ⟨hole, rfl, rfl, rfl⟩ := ihr inner
      exact ⟨onRight op left hole, rfl, rfl, rfl⟩
  | group w ih =>
    -- The operand is neither of the two parentheses, so it stands between them.
    rcases sides_of_tokens (l := []) same with ⟨_, clash, _⟩ | ⟨front, rfl, rest⟩
    · simp at clash
    rcases sides_of_tokens rest with ⟨back, inner, rfl⟩ | ⟨_, _, clash⟩
    · obtain ⟨hole, rfl, rfl, rfl⟩ := ih inner
      exact ⟨group hole, rfl, rfl, rfl⟩
    · simp at clash

end Operands

end Hole

end LineCalc.Writing

/-!
## Substitution before and after a conversion

An operand of what is converted may be replaced by something else in parentheses. What is around it is
converted as before, and what the parentheses hold is converted as it is by itself.
-/

namespace LineCalc.Postfix

variable {pre post ts p q : List Token} {x : Token}

/-- Putting tokens in parentheses for an operand puts their conversion for the operand with as many operands
in front of it. -/
theorem ofTokens_substitute (operand : x.isOperand) (whole : ofTokens (pre ++ x :: post) = .ok p)
    (part : ofTokens ts = .ok q) :
    ∃ before after, p = before ++ x :: after ∧
      before.countP Token.isOperand = pre.countP Token.isOperand ∧
      ofTokens (pre ++ .ofSymbol .opening :: (ts ++ .ofSymbol .closing :: post)) =
        .ok (before ++ (q ++ after)) := by
  obtain ⟨a, rfl⟩ := Token.exists_token_of_isOperand operand
  obtain ⟨w, adm, written, rfl⟩ := ofTokens_eq_ok_iff_writing.1 whole
  obtain ⟨v, admv, rfl, rfl⟩ := ofTokens_eq_ok_iff_writing.1 part
  obtain ⟨hole, rfl, rfl, rfl⟩ := Writing.Hole.exists_of_tokens written
  refine ⟨hole.listedBefore, hole.listedAfter, hole.postorder_fill _, ?_, ?_⟩
  · rw [List.countP_eq_length_filter, hole.filter_isOperand_listedBefore, List.countP_eq_length_filter]
  · refine ofTokens_eq_ok_iff_writing.2 ⟨hole.fill (.group v), ?_, ?_, hole.postorder_fill _⟩
    · exact Writing.Hole.admissible_fill adm (.group admv) rfl rfl
    · simp [Writing.Hole.tokens_fill, Writing.tokens]

/-- In a difference inside a negation the first two is replaced by a sum in parentheses. -/
theorem ofTokens_substitute_difference :
    let pre : List Token := [.symbol '!', .integer 2, .symbol '*']
    let post : List Token := [.symbol '-', .integer 2]
    let ts : List Token := [.integer 3, .symbol '+', .symbol '!', .integer 2]
    (Token.integer 2).isOperand ∧
    ofTokens (pre ++ .integer 2 :: post) =
      .ok [.integer 2, .integer 2, .symbol '*', .integer 2, .symbol '-', .symbol '!'] ∧
    ofTokens ts = .ok [.integer 3, .integer 2, .symbol '!', .symbol '+'] ∧
    ∃ before after,
      [.integer 2, .integer 2, .symbol '*', .integer 2, .symbol '-', .symbol '!'] =
        before ++ .integer 2 :: after ∧
      before.countP Token.isOperand = pre.countP Token.isOperand ∧
      ofTokens (pre ++ .ofSymbol .opening :: (ts ++ .ofSymbol .closing :: post)) =
        .ok (before ++ ([.integer 3, .integer 2, .symbol '!', .symbol '+'] ++ after)) := by
  intro pre post ts
  exact ⟨rfl, rfl, rfl, ofTokens_substitute rfl rfl rfl⟩

end LineCalc.Postfix
