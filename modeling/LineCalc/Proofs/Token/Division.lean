import LineCalc.Proofs.Lexeme.Division
import LineCalc.Proofs.Token.Reading

/-!
# Every character of a line is accounted for

The tokens of a line are those that the lexemes of its division spell. A line has no tokens if its
division has a point that stands alone or a number that does not fit. Reading then stops at the first of
these, and what is in front of it has tokens.
-/

namespace LineCalc.Token

/-- The tokens that lexemes spell, one after the other; gaps spell none. -/
inductive Listed : List Lexeme → List Token → Prop
  | nil : Listed [] []
  | gap {c : Char} {lexemes : List Lexeme} {tokens : List Token} :
    Listed lexemes tokens → Listed (.gap c :: lexemes) tokens
  | token {l : Lexeme} {t : Token} {lexemes : List Lexeme} {tokens : List Token} :
    Spelled t l.chars → Listed lexemes tokens → Listed (l :: lexemes) (t :: tokens)

/-- The numbers that do not fit, an integer into 63 bits or a real into a finite double. -/
inductive TooLarge : Lexeme → Prop
  | integer {digits : List Char} :
    maxInteger < Decimal.ofDigitChars digits → TooLarge (.integer digits)
  | real {whole fraction : List Char} :
    Binary64.nearest? (Decimal.ofDigitChars (whole ++ fraction)) (Nat.pow 10 fraction.length) = none →
    TooLarge (.real whole fraction)

/-- What stands where reading stops, with the error that it stops with. -/
inductive Refused (column : Nat) : List Char → LexicalError → Prop
  | point {after : List Char} :
    (∀ c ∈ after.head?, c.isDigit = false) → Refused column ('.' :: after) (.strayPoint column)
  | number {l : Lexeme} {line : List Char} :
    l.WellFormed → TooLarge l → l.chars <+: line →
    (∀ l' : Lexeme, l'.WellFormed → l'.chars <+: line → l'.chars.length ≤ l.chars.length) →
    Refused column line (.literalTooLarge (String.ofList l.chars) column)

variable {l : Lexeme} {lexemes : List Lexeme} {line : List Char} {tokens : List Token} {column : Nat}
  {e : LexicalError}

section Accepted

/-- What fits is the token that was found. -/
lemma fitting_eq_ok_iff {found : Option Token} {t : Token} :
    fitting l column found = .ok t ↔ found = some t := by
  cases found with
  | none => exact ⟨nofun, nofun⟩
  | some u =>
    rw [fitting, Except.ok.injEq, Option.some.injEq]

/-- A lexeme is read as the token that it spells, or as nothing if it is a gap. -/
lemma ofLexeme_eq_ok_iff (wf : l.WellFormed) :
    ofLexeme column l = .ok tokens ↔
      ((∃ c, l = .gap c) ∧ tokens = []) ∨ ∃ t, tokens = [t] ∧ Spelled t l.chars := by
  constructor
  · intro read
    cases wf with
    | gap gap =>
      cases read
      exact .inl ⟨⟨_, rfl⟩, rfl⟩
    | integer nonempty digits =>
      obtain ⟨t, fits, rfl⟩ := Except.map_eq_ok_iff.1 read
      obtain ⟨le, same⟩ := Option.ite_none_right_eq_some.1 (fitting_eq_ok_iff.1 fits)
      cases same
      exact .inr ⟨_, rfl, .integer nonempty digits rfl (Int.ofNat_le.2 le)⟩
    | real nonempty left right =>
      obtain ⟨t, fits, rfl⟩ := Except.map_eq_ok_iff.1 read
      obtain ⟨x, rounded, rfl⟩ := Option.map_eq_some_iff.1 (fitting_eq_ok_iff.1 fits)
      exact .inr ⟨_, rfl, .real nonempty left right rounded⟩
    | point => cases read
    | symbol other visible =>
      cases read
      exact .inr ⟨_, rfl, .symbol other visible⟩
  · rintro (⟨⟨c, rfl⟩, rfl⟩ | ⟨t, rfl, spelled⟩)
    · rfl
    · obtain ⟨l', alone, read⟩ := spelled.exists_lexeme
      rw [wf.split_chars] at alone
      cases alone
      exact read column

/-- A lexeme in front adds the token that it spells, or none if it is a gap. -/
lemma Listed.cons {first : List Token} (listed : Listed lexemes tokens)
    (here : ((∃ c, l = .gap c) ∧ first = []) ∨ ∃ t, first = [t] ∧ Spelled t l.chars) :
    Listed (l :: lexemes) (first ++ tokens) := by
  rcases here with ⟨⟨c, rfl⟩, rfl⟩ | ⟨t, rfl, spelled⟩
  · exact .gap listed
  · exact .token spelled listed

/-- The lexemes of a division are read as the tokens that they spell. -/
lemma ofLexemes_eq_ok_iff (divided : Lexeme.Divided lexemes line) :
    ofLexemes column lexemes = .ok tokens ↔ Listed lexemes tokens := by
  induction divided generalizing column tokens with
  | nil =>
    constructor
    · intro read
      cases read
      exact .nil
    · intro listed
      cases listed
      rfl
  | @cons l lexemes line wf stop divided ih =>
    constructor
    · intro read
      obtain ⟨first, here, read⟩ := Except.bind_eq_ok_iff.1 read
      obtain ⟨later, there, done⟩ := Except.bind_eq_ok_iff.1 read
      cases done
      exact (ih.1 there).cons ((ofLexeme_eq_ok_iff wf).1 here)
    · intro listed
      cases listed with
      | @gap c _ _ listed =>
        have here : ofLexeme column (.gap c) = .ok [] := rfl
        exact ofLexemes_cons here (ih.2 listed)
      | @token _ t _ _ spelled listed =>
        have here : ofLexeme column l = .ok [t] :=
          (ofLexeme_eq_ok_iff wf).2 (.inr ⟨t, rfl, spelled⟩)
        exact ofLexemes_cons here (ih.2 listed)

/-- A point that stands alone spells no token. -/
lemma Listed.point_notMem (listed : Listed lexemes tokens) : .point ∉ lexemes := by
  induction listed with
  | nil => exact List.not_mem_nil
  | gap listed ih =>
    intro mem
    rcases List.mem_cons.1 mem with same | mem
    · cases same
    · exact ih mem
  | token spelled listed ih =>
    intro mem
    rcases List.mem_cons.1 mem with rfl | mem
    · obtain ⟨l, alone, read⟩ := spelled.exists_lexeme
      cases alone
      cases read 0
    · exact ih mem

end Accepted

section Refused

/-- What does not fit is complained of as a literal. -/
lemma fitting_eq_error_iff {found : Option Token} :
    fitting l column found = .error e ↔
      found = none ∧ .literalTooLarge (String.ofList l.chars) column = e := by
  cases found with
  | none => simp [fitting]
  | some t => simp [fitting]

/-- What a lexeme is not read for: it is a point that stands alone, or it is too large. -/
lemma refused_of_ofLexeme {after : List Char} (wf : l.WellFormed)
    (stop : ∀ c ∈ after.head?, l.takes c = false) (failed : ofLexeme column l = .error e) :
    Refused column (l.chars ++ after) e := by
  have number (large : TooLarge l) :
      Refused column (l.chars ++ after) (.literalTooLarge (String.ofList l.chars) column) :=
    .number wf large (List.prefix_append _ _) fun l' => wf.length_le stop
  cases wf with
  | gap gap => cases failed
  | integer nonempty digits =>
    obtain ⟨beyond, rfl⟩ := fitting_eq_error_iff.1 (Except.map_eq_error_iff.1 failed)
    rw [integer?, ite_eq_right_iff] at beyond
    refine number (.integer (Nat.lt_of_not_le fun le => ?_))
    exact absurd (beyond le) (Option.some_ne_none _)
  | real nonempty left right =>
    obtain ⟨beyond, rfl⟩ := fitting_eq_error_iff.1 (Except.map_eq_error_iff.1 failed)
    exact number (.real (Option.map_eq_none_iff.1 beyond))
  | point =>
    cases failed
    exact .point stop
  | symbol other visible => cases failed

/-- More characters behind leave the first one. -/
lemma head?_append_of_mem {before after : List Char} {c : Char} (first : c ∈ before.head?) :
    c ∈ (before ++ after).head? := by
  cases before with
  | nil => cases first
  | cons d before => exact first

/-- Reading stops at a lexeme with tokens in front of it. -/
lemma exists_of_ofLexemes_eq_error (divided : Lexeme.Divided lexemes line)
    (failed : ofLexemes column lexemes = .error e) :
    ∃ before after accepted tokens, line = before ++ after ∧ Lexeme.Divided accepted before ∧
      Listed accepted tokens ∧ Refused (column + (String.ofList before).utf8ByteSize) after e := by
  induction divided generalizing column with
  | nil => cases failed
  | @cons l lexemes line wf stop divided ih =>
    rcases Except.bind_eq_error_iff.1 failed with here | ⟨first, here, failed⟩
    · exact ⟨[], l.chars ++ line, [], [], rfl, .nil, .nil, refused_of_ofLexeme wf stop here⟩
    rcases Except.bind_eq_error_iff.1 failed with there | ⟨later, there, failed⟩
    · obtain ⟨before, after, accepted, tokens, rfl, divided, listed, refused⟩ := ih there
      refine ⟨l.chars ++ before, after, l :: accepted, first ++ tokens, ?_, ?_, ?_, ?_⟩
      · rw [List.append_assoc]
      · exact .cons wf (fun c first => stop c (head?_append_of_mem first)) divided
      · exact listed.cons ((ofLexeme_eq_ok_iff wf).1 here)
      · rw [String.ofList_append, String.utf8ByteSize_append, ← Nat.add_assoc]
        exact refused
    · cases failed

end Refused

/-- A line has tokens if and only if its only division has no point that stands alone and no number that
does not fit, and they are what the lexemes spell. If it has none, reading stops at the first of these. -/
theorem ofText_accounts (line : String) :
    (∀ tokens, ofText line = .ok tokens ↔ ∃ lexemes,
      Lexeme.Divided lexemes line.toList ∧ .point ∉ lexemes ∧ Listed lexemes tokens) ∧
    (∀ lexemes lexemes', Lexeme.Divided lexemes line.toList → Lexeme.Divided lexemes' line.toList →
      lexemes = lexemes') ∧
    ∀ e, ofText line = .error e → ∃ before after tokens, line = before ++ after ∧
      ofText before = .ok tokens ∧ Refused before.utf8ByteSize after.toList e := by
  refine ⟨fun tokens => ⟨fun read => ?_, ?_⟩, fun _ _ => Lexeme.Divided.unique, fun e failed => ?_⟩
  · have divided := Lexeme.divided_split line.toList
    have listed := (ofLexemes_eq_ok_iff divided).1 read
    exact ⟨_, divided, listed.point_notMem, listed⟩
  · rintro ⟨lexemes, divided, _, listed⟩
    rw [ofText, ← Lexeme.divided_iff.1 divided]
    exact (ofLexemes_eq_ok_iff divided).2 listed
  · obtain ⟨before, after, accepted, tokens, whole, divided, listed, refused⟩ :=
      exists_of_ofLexemes_eq_error (Lexeme.divided_split line.toList) failed
    refine ⟨String.ofList before, String.ofList after, tokens, ?_, ?_, ?_⟩
    · rw [← String.ofList_append, ← whole, String.ofList_toList]
    · rw [ofText, String.toList_ofList, ← Lexeme.divided_iff.1 divided]
      exact (ofLexemes_eq_ok_iff divided).2 listed
    · rw [String.toList_ofList, ← Nat.zero_add (String.ofList before).utf8ByteSize]
      exact refused

end LineCalc.Token
