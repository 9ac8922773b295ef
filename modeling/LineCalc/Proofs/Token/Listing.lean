import LineCalc.Proofs.Numeral
import LineCalc.Proofs.Token.Division

/-!
# Listed tokens are read back

A list of tokens is written with a space between neighbours, so what is read from it is what is read from
the texts of the tokens, one after the other. An integer, a character or a real without an exponent is
read as itself. The exponent of a real is read as a token of its own, so a list with such a real is read as
a longer one.
-/

namespace LineCalc

/-- The exponent is a lexeme of its own, behind the number in front of it. -/
lemma Decimal.split_scientific (d : Decimal) :
    ∃ l rest, Lexeme.split d.scientific = l :: .symbol 'e' :: rest ∧ ∀ c, l ≠ .gap c := by
  have digits : ∀ c ∈ digitChars d.digits, c.isDigit := fun c => isDigit_of_mem_digitChars
  have nonempty := digitChars_ne_nil d.digits
  rw [scientific]
  generalize digitChars d.digits = cs at *
  rw [List.append_assoc, List.cons_append, Lexeme.split_append_cons rfl]
  by_cases one : cs.length = 1
  · rw [if_pos one, List.append_nil, List.take_of_length_le (Nat.le_of_eq one),
      Lexeme.split_digits digits nonempty]
    exact ⟨_, _, rfl, nofun⟩
  · rw [if_neg one, Lexeme.split_decimal (fun c mem => digits c (List.mem_of_mem_take mem))
      (fun c mem => digits c (List.mem_of_mem_drop mem))]
    · exact ⟨_, _, rfl, nofun⟩
    · rw [List.take_append_drop]
      exact nonempty

namespace Token

/-- A token that is written without an exponent. -/
def IsPlain (t : Token) : Prop := ∀ x, t = real x → Numeral.isPlain (Binary64.magnitudeBits x)

variable {t : Token} {lexeme : List Char} {tokens : List Token} {lexemes lexemes' : List Lexeme}

section Read

/-- Every token that is listed is spelled by some lexeme. -/
lemma Listed.exists_spelled (listed : Listed lexemes tokens) :
    ∀ t ∈ tokens, ∃ lexeme, Spelled t lexeme := by
  induction listed with
  | nil => exact nofun
  | gap listed ih => exact ih
  | token spelled listed ih => exact List.forall_mem_cons.2 ⟨⟨_, spelled⟩, ih⟩

/-- Lexemes that follow list their tokens behind. -/
lemma Listed.append {tokens' : List Token} (listed : Listed lexemes tokens)
    (listed' : Listed lexemes' tokens') : Listed (lexemes ++ lexemes') (tokens ++ tokens') := by
  induction listed with
  | nil => exact listed'
  | gap listed ih => exact .gap ih
  | token spelled listed ih => exact .token spelled ih

/-- Tokens of two lists of lexemes are those of the first and those of the second. -/
lemma Listed.exists_of_append (listed : Listed (lexemes ++ lexemes') tokens) :
    ∃ first later, tokens = first ++ later ∧ Listed lexemes first ∧ Listed lexemes' later := by
  induction lexemes generalizing tokens with
  | nil => exact ⟨[], tokens, rfl, .nil, listed⟩
  | cons l lexemes ih =>
    cases listed with
    | gap listed =>
      obtain ⟨first, later, rfl, before, behind⟩ := ih listed
      exact ⟨first, later, rfl, .gap before, behind⟩
    | token spelled listed =>
      obtain ⟨first, later, rfl, before, behind⟩ := ih listed
      exact ⟨_ :: first, later, rfl, .token spelled before, behind⟩

end Read

section Chars

/-- What spells a token is read as the token alone. -/
lemma Spelled.listed (spelled : Spelled t lexeme) : Listed (Lexeme.split lexeme) [t] := by
  obtain ⟨l, alone, _⟩ := spelled.exists_lexeme
  have whole := Lexeme.flatMap_chars_split lexeme
  rw [alone, List.flatMap_singleton] at whole
  rw [alone]
  rw [← whole] at spelled
  exact .token spelled .nil

/-- A real that is read from a line is finite and has no sign. -/
lemma Spelled.exists_bits {x : Float} (spelled : Spelled (.real x) lexeme) :
    ∃ bits, bits < Binary64.infinityBits ∧ x = Binary64.ofMagnitudeBits false bits := by
  cases spelled with
  | real nonempty left right nearest =>
    obtain ⟨finite, same⟩ := Option.ite_none_right_eq_some.1 nearest
    exact ⟨_, finite, (Option.some.inj same).symm⟩

/-- A real that is read has no sign to write. -/
lemma Spelled.chars_real {x : Float} (spelled : Spelled (.real x) lexeme) :
    (Token.real x).chars = Numeral.general (Binary64.magnitudeBits x) := by
  obtain ⟨bits, finite, rfl⟩ := spelled.exists_bits
  rw [Token.chars, Numeral.real_of_isFinite (Binary64.isFinite_ofMagnitudeBits finite),
    Binary64.isNegative_ofMagnitudeBits finite]
  rfl

/-- A token that is read from a line is spelled by its own text, unless that has an exponent. -/
lemma Spelled.chars (spelled : Spelled t lexeme) (plain : t.IsPlain) : Spelled t t.chars := by
  cases spelled with
  | @integer digits n nonempty all denoted fits =>
    have positive : ¬ n < 0 := by omega
    rw [Token.chars, Numeral.integer, if_neg positive, List.nil_append]
    refine .integer (Decimal.digitChars_ne_nil _) (fun c => Decimal.isDigit_of_mem_digitChars) ?_ fits
    rw [Decimal.ofDigitChars_digitChars]
    omega
  | @real whole fraction x nonempty left right nearest =>
    have spelled : Spelled (.real x) (whole ++ '.' :: fraction) := .real nonempty left right nearest
    have reads := Numeral.reads_general (plain x rfl)
    rw [spelled.chars_real]
    obtain ⟨bits, finite, rfl⟩ := spelled.exists_bits
    rw [Binary64.magnitudeBits_ofMagnitudeBits finite] at reads ⊢
    exact .of_reads reads finite
  | symbol other visible => exact .symbol other visible

/-- Scientific notation is not read as one token. -/
lemma Listed.one_lt_length {d : Decimal} (listed : Listed (Lexeme.split d.scientific) tokens) :
    1 < tokens.length := by
  obtain ⟨l, rest, whole, visible⟩ := d.split_scientific
  rw [whole] at listed
  cases listed with
  | gap => exact absurd rfl (visible _)
  | token _ listed =>
    cases listed with
    | token => exact Nat.succ_lt_succ (Nat.succ_pos _)

/-- The text of a token is read as at least one token, and as just one only if it has no exponent. -/
lemma Spelled.length_of_listed (spelled : Spelled t lexeme)
    (listed : Listed (Lexeme.split t.chars) tokens) :
    0 < tokens.length ∧ (tokens.length = 1 → t.IsPlain) := by
  by_cases plain : t.IsPlain
  · have divided := Lexeme.divided_split t.chars
    have alone : ofLexemes 0 (Lexeme.split t.chars) = .ok [t] :=
      (ofLexemes_eq_ok_iff divided).2 (spelled.chars plain).listed
    rw [(ofLexemes_eq_ok_iff divided).2 listed] at alone
    cases alone
    exact ⟨Nat.one_pos, fun _ => plain⟩
  · obtain ⟨x, clash⟩ := not_forall.1 plain
    obtain ⟨rfl, other⟩ := Classical.not_imp.1 clash
    rw [spelled.chars_real, Numeral.general_of_not_isPlain other] at listed
    have long := listed.one_lt_length
    exact ⟨Nat.zero_lt_of_lt long, fun one => absurd one (Nat.ne_of_gt long)⟩

end Chars

section Listing

/-- A gap spells no token. -/
lemma not_spelled_gap {c : Char} (gap : Lexeme.isGap c) : ¬ Spelled t [c] := by
  intro spelled
  obtain ⟨l, alone, read⟩ := spelled.exists_lexeme
  rw [Lexeme.split_cons, Lexeme.attach_of_not_isNumeric (Lexeme.isNumeric_of_isGap gap), if_pos gap] at alone
  cases alone
  cases read 0

/-- The characters of a list of tokens. -/
def listChars (tokens : List Token) : List Char := [' '].intercalate (tokens.map chars)

/-- The tokens of a listing are those of its first token's text and those of the rest. -/
lemma listed_listChars_cons {us : List Token} :
    Listed (Lexeme.split (listChars (t :: tokens))) us ↔
      ∃ first later, us = first ++ later ∧ Listed (Lexeme.split t.chars) first ∧
        Listed (Lexeme.split (listChars tokens)) later := by
  cases tokens with
  | nil =>
    have whole : listChars [t] = t.chars := List.intercalate_singleton
    rw [whole]
    constructor
    · exact fun listed => ⟨us, [], (List.append_nil us).symm, listed, .nil⟩
    · rintro ⟨first, later, rfl, listed, none⟩
      cases none
      rw [List.append_nil]
      exact listed
  | cons u tokens =>
    have whole : listChars (t :: u :: tokens) = t.chars ++ ' ' :: listChars (u :: tokens) := by
      rw [listChars, List.map_cons, List.map_cons, List.intercalate_cons_cons, List.append_assoc]
      rfl
    have gap : Lexeme.isGap ' ' := rfl
    rw [whole, Lexeme.split_append_cons (Lexeme.isNumeric_of_isGap gap), if_pos gap]
    constructor
    · intro listed
      obtain ⟨first, later, rfl, before, behind⟩ := listed.exists_of_append
      cases behind with
      | gap behind => exact ⟨first, later, rfl, before, behind⟩
      | token spelled => exact absurd spelled (not_spelled_gap gap)
    · rintro ⟨first, later, rfl, before, behind⟩
      exact before.append (.gap behind)

/-- The lexemes of a listing spell its tokens, if none is written with an exponent. -/
lemma listed_listChars (spelled : ∀ t ∈ tokens, ∃ lexeme, Spelled t lexeme)
    (plain : ∀ t ∈ tokens, t.IsPlain) : Listed (Lexeme.split (listChars tokens)) tokens := by
  induction tokens with
  | nil => exact .nil
  | cons t tokens ih =>
    obtain ⟨⟨lexeme, here⟩, there⟩ := List.forall_mem_cons.1 spelled
    obtain ⟨plain, others⟩ := List.forall_mem_cons.1 plain
    exact listed_listChars_cons.2 ⟨[t], tokens, rfl, (here.chars plain).listed, ih there others⟩

/-- A listing is read as at least as many tokens, and as just as many only if it has no exponent. -/
lemma length_of_listed_listChars {us : List Token} (spelled : ∀ t ∈ tokens, ∃ lexeme, Spelled t lexeme)
    (listed : Listed (Lexeme.split (listChars tokens)) us) :
    tokens.length ≤ us.length ∧ (us.length = tokens.length → ∀ t ∈ tokens, t.IsPlain) := by
  induction tokens generalizing us with
  | nil => exact ⟨Nat.zero_le _, fun _ => nofun⟩
  | cons t tokens ih =>
    obtain ⟨⟨lexeme, here⟩, there⟩ := List.forall_mem_cons.1 spelled
    obtain ⟨first, later, rfl, before, behind⟩ := listed_listChars_cons.1 listed
    obtain ⟨some, one⟩ := here.length_of_listed before
    obtain ⟨more, same⟩ := ih there behind
    rw [List.length_append, List.length_cons]
    refine ⟨by omega, fun length => ?_⟩
    exact List.forall_mem_cons.2 ⟨one (by omega), same (by omega)⟩

/-- Tokens that were read from a line are read back from their listing if and only if each of their reals
is zero or from `10 ^ -4` up to `10 ^ 16`. -/
theorem ofText_listText_eq_ok_iff {line : String} (read : ofText line = .ok tokens) :
    ofText (listText tokens) = .ok tokens ↔
      ∀ x, real x ∈ tokens → Binary64.magnitude x = 0 ∨
        (1 / 10 ^ 4 ≤ Binary64.magnitude x ∧ Binary64.magnitude x < 10 ^ 16) := by
  have spelled := ((ofLexemes_eq_ok_iff (Lexeme.divided_split line.toList)).1 read).exists_spelled
  have again : ofText (listText tokens) = .ok tokens ↔ ∀ t ∈ tokens, t.IsPlain := by
    rw [ofText, listText, String.toList_ofList, ofLexemes_eq_ok_iff (Lexeme.divided_split _)]
    constructor
    · exact fun listed => (length_of_listed_listChars spelled listed).2 rfl
    · exact listed_listChars spelled
  rw [again]
  constructor
  · exact fun plain x mem => (Numeral.isPlain_iff x).1 (plain (real x) mem x rfl)
  · rintro range t mem x rfl
    exact (Numeral.isPlain_iff x).2 (range x mem)

/-- One half is written with a zero in front of the point, and read back as one half. -/
theorem ofText_listText_half :
    let tokens : List Token := [.integer 1, .symbol '+', .real 0.5]
    ofText "1+.5" = .ok tokens ∧ ofText (listText tokens) = .ok tokens := by
  have read : ofText "1+.5" = .ok [.integer 1, .symbol '+', .real 0.5] := by decide +kernel
  refine ⟨read, (ofText_listText_eq_ok_iff read).2 fun x mem => ?_⟩
  have half : x = 0.5 := by simpa using mem
  rw [half, ← Numeral.isPlain_iff]
  decide +kernel

/-- An exponent is read as a character and an integer. -/
example : ofText (listText [.real 1e16]) = .ok [.integer 1, .symbol 'e', .integer 16] := by
  decide +kernel

end Listing

end Token

end LineCalc
