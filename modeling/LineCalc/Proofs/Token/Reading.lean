import LineCalc.Proofs.Decimal
import LineCalc.Proofs.Except
import LineCalc.Proofs.Lexeme
import LineCalc.Token
import Mathlib.Data.List.Chain

/-!
# Written tokens are read back

A token is spelled by its character, by digits or by digits around a point, and a list of tokens is
written by spelling one after the other, with any gaps around them. Where no operand follows an operand,
the tokens that are read from the line are those that were written.
-/

namespace LineCalc.Token

/-- The characters that stand for a token. -/
inductive Spelled : Token → List Char → Prop
  | integer {digits : List Char} {n : Int} :
    digits ≠ [] → (∀ c ∈ digits, c.isDigit) → Decimal.ofDigitChars digits = n → n ≤ maxInteger →
    Spelled (.integer n) digits
  | real {whole fraction : List Char} {x : Float} :
    whole ++ fraction ≠ [] → (∀ c ∈ whole, c.isDigit) → (∀ c ∈ fraction, c.isDigit) →
    Binary64.nearest? (Decimal.ofDigitChars (whole ++ fraction)) (Nat.pow 10 fraction.length) = some x →
    Spelled (.real x) (whole ++ '.' :: fraction)
  | symbol {c : Char} :
    Lexeme.isNumeric c = false → Lexeme.isGap c = false → Spelled (.symbol c) [c]

/-- The lines of the tokens, with any gaps in front of, between and behind them. -/
inductive Written : List Token → List Char → Prop
  | nil : Written [] []
  | gap {c tokens line} : Lexeme.isGap c → Written tokens line → Written tokens (c :: line)
  | token {t lexeme tokens line} :
    Spelled t lexeme → Written tokens line → Written (t :: tokens) (lexeme ++ line)

/-- Not both are operands. -/
def Apart (t u : Token) : Prop := t.isOperand → ¬ u.isOperand

variable {t : Token} {lexeme line : List Char} {tokens : List Token}

/-- A symbol is spelled by its character. -/
lemma Spelled.ofSymbol (s : Symbol) : Spelled (ofSymbol s) [s.char] := by
  apply Spelled.symbol
  · cases s with
    | binary op => cases op <;> rfl
    | _ => rfl
  · cases s with
    | binary op => cases op <;> rfl
    | _ => rfl

/-- Digits around a point spell the double that they are nearest to. -/
lemma Spelled.of_reads {bits : Nat} (reads : Decimal.Reads lexeme bits)
    (finite : bits < Binary64.infinityBits) :
    Spelled (.real (Binary64.ofMagnitudeBits false bits)) lexeme := by
  cases reads with
  | intro nonempty left right nearest =>
    refine .real nonempty left right ?_
    rw [Binary64.nearest?, nearest]
    exact if_pos finite

/-- What spells a token is one lexeme, and that lexeme is read as the token. -/
lemma Spelled.exists_lexeme (spelled : Spelled t lexeme) :
    ∃ l, Lexeme.split lexeme = [l] ∧ ∀ column, ofLexeme column l = .ok [t] := by
  cases spelled with
  | integer nonempty digits denoted fits =>
    refine ⟨.integer lexeme, Lexeme.split_digits digits nonempty, fun column => ?_⟩
    rw [← denoted] at fits ⊢
    rw [ofLexeme, integer?, if_pos (Int.ofNat_le.1 fits)]
    rfl
  | real nonempty left right rounded =>
    refine ⟨_, Lexeme.split_decimal left right nonempty, fun column => ?_⟩
    rw [ofLexeme, real?, rounded]
    rfl
  | symbol other visible =>
    rename_i c
    refine ⟨.symbol c, ?_, fun column => rfl⟩
    rw [Lexeme.split_cons, Lexeme.attach_of_not_isNumeric other, visible]
    rfl

/-- A line does not go on with a number if its first token is no operand. -/
lemma Written.not_isNumeric (written : Written tokens line) (other : ∀ t ∈ tokens.head?, ¬ t.isOperand) :
    ∀ c ∈ line.head?, ¬ Lexeme.isNumeric c := by
  cases written with
  | nil => exact fun c first => nomatch first
  | gap gap written =>
    intro c first
    cases first
    rw [Lexeme.isNumeric_of_isGap gap]
    exact Bool.false_ne_true
  | token spelled written =>
    cases spelled with
    | integer => exact absurd rfl (other _ rfl)
    | real => exact absurd rfl (other _ rfl)
    | symbol outside =>
      intro c first
      cases first
      rw [outside]
      exact Bool.false_ne_true

/-- A written line can be cut behind its first token. -/
lemma Spelled.separable (spelled : Spelled t lexeme) (written : Written tokens line)
    (apart : ∀ u ∈ tokens.head?, Apart t u) : Lexeme.Separable lexeme line := by
  intro x last numeric
  cases spelled with
  | integer => exact written.not_isNumeric fun u first => apart u first rfl
  | real => exact written.not_isNumeric fun u first => apart u first rfl
  | symbol other =>
    rw [List.getLast?_singleton] at last
    cases last
    rw [other] at numeric
    cases numeric

/-- The tokens of lexemes are those of the first and those of the rest. -/
lemma ofLexemes_cons {column : Nat} {l : Lexeme} {rest : List Lexeme} {first : List Token}
    (here : ofLexeme column l = .ok first) (there : ofLexemes (column + l.size) rest = .ok tokens) :
    ofLexemes column (l :: rest) = .ok (first ++ tokens) := by
  rw [ofLexemes, here]
  change (ofLexemes (column + l.size) rest >>= fun tokens => .ok (first ++ tokens)) = _
  rw [there]
  rfl

/-- A gap behind the last lexeme makes no difference. -/
lemma ofLexemes_concat_gap (column : Nat) (lexemes : List Lexeme) (c : Char) :
    ofLexemes column (lexemes ++ [.gap c]) = ofLexemes column lexemes := by
  induction lexemes generalizing column with
  | nil => rfl
  | cons l lexemes ih => rw [List.cons_append, ofLexemes, ofLexemes, ih]

/-- A gap at the end of a line changes neither its tokens nor its error. -/
lemma ofText_push {c : Char} (gap : Lexeme.isGap c) (line : String) :
    ofText (line.push c) = ofText line := by
  rw [ofText, String.toList_push, Lexeme.split_append_cons (Lexeme.isNumeric_of_isGap gap), if_pos gap]
  exact ofLexemes_concat_gap 0 (Lexeme.split line.toList) c

/-- The lexemes of a written line have the tokens that were written. -/
lemma ofLexemes_written (written : Written tokens line) (apart : tokens.IsChain Apart) (column : Nat) :
    ofLexemes column (Lexeme.split line) = .ok tokens := by
  induction written generalizing column with
  | nil => rfl
  | @gap c _ _ gap written ih =>
    rw [Lexeme.split_cons, Lexeme.attach_of_not_isNumeric (Lexeme.isNumeric_of_isGap gap), if_pos gap]
    have here : ofLexeme column (.gap c) = .ok [] := rfl
    exact ofLexemes_cons here (ih apart _)
  | token spelled written ih =>
    -- The line can be cut behind the token, since no number goes on there.
    rw [List.isChain_cons] at apart
    obtain ⟨l, alone, read⟩ := spelled.exists_lexeme
    rw [Lexeme.split_append (spelled.separable written apart.1), alone]
    exact ofLexemes_cons (read column) (ih apart.2 _)

/-- The tokens of a line are those that are written in it. -/
theorem ofText_written {line : String} (written : Written tokens line.toList)
    (apart : tokens.IsChain Apart) : ofText line = .ok tokens :=
  ofLexemes_written written apart 0

/-- A line that spells a token has that token alone. -/
lemma ofText_spelled {line : String} (spelled : Spelled t line.toList) : ofText line = .ok [t] := by
  apply ofText_written _ (.singleton t)
  rw [← List.append_nil line.toList]
  exact .token spelled .nil

/-- A real that is read is finite. -/
lemma isFinite_of_ofLexeme {column : Nat} {l : Lexeme} {x : Float}
    (read : ofLexeme column l = .ok tokens) (mem : real x ∈ tokens) : Binary64.IsFinite x := by
  cases l with
  | gap c =>
    cases read
    cases mem
  | integer digits =>
    obtain ⟨t, fits, rfl⟩ := Except.map_eq_ok_iff.1 read
    cases List.mem_singleton.1 mem
    rw [integer?] at fits
    split at fits <;> cases fits
  | real whole fraction =>
    obtain ⟨t, fits, rfl⟩ := Except.map_eq_ok_iff.1 read
    cases List.mem_singleton.1 mem
    rw [real?] at fits
    cases rounded : Binary64.nearest? (Decimal.ofDigitChars (whole ++ fraction))
        (Nat.pow 10 fraction.length) with
    | none =>
      rw [rounded] at fits
      cases fits
    | some y =>
      rw [rounded] at fits
      cases fits
      exact Binary64.isFinite_of_nearest? rounded
  | point => cases read
  | symbol c =>
    cases read
    cases List.mem_singleton.1 mem

/-- The reals that are read from a line are finite. -/
lemma isFinite_of_ofLexemes {column : Nat} {lexemes : List Lexeme} {x : Float}
    (read : ofLexemes column lexemes = .ok tokens) (mem : real x ∈ tokens) : Binary64.IsFinite x := by
  induction lexemes generalizing column tokens with
  | nil =>
    cases read
    cases mem
  | cons l rest ih =>
    obtain ⟨first, here, read⟩ := Except.bind_eq_ok_iff.1 read
    obtain ⟨later, there, done⟩ := Except.bind_eq_ok_iff.1 read
    cases done
    rcases List.mem_append.1 mem with mem | mem
    · exact isFinite_of_ofLexeme here mem
    · exact ih there mem

end LineCalc.Token
