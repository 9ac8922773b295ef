import LineCalc.Lexeme
import LineCalc.Proofs.Batch.Faults
import LineCalc.Proofs.Line
import LineCalc.Proofs.Postfix.Refusal
import LineCalc.Proofs.Token.Concatenation
import Mathlib.Data.List.DropRight

/-!
# Failures seen again

A skipped line is quoted in the report without the blanks around it.

## Lines without the blanks around them

Trimming removes blanks from both ends of a line. The gaps among them make no difference to the tokens.
Any other blank is a token that has no meaning, so a line with one has no value, and what is left may
still have one. If a line fails for anything but such a blank, then what is left of it fails for the
same kind of reason.
-/

namespace LineCalc

namespace Blank

/-- The blanks in front of a line. -/
def leading (cs : List Char) : List Char := cs.takeWhile isBlank

/-- The blanks at the end of a line, unless nothing stands before them. -/
def trailing (cs : List Char) : List Char := (cs.dropWhile isBlank).rtakeWhile isBlank

/-- The blanks that trimming removes from a line. -/
def removed (line : String) : List Char := leading line.toList ++ trailing line.toList

variable {c : Char} {line : String}

/-- Only blanks are removed. -/
lemma isBlank_of_mem_removed (mem : c ∈ removed line) : isBlank c := by
  rcases List.mem_append.1 mem with mem | mem
  · exact List.mem_takeWhile_imp mem
  · exact List.mem_rtakeWhile_imp mem

/-- A line is what trimming leaves of it, between the blanks that it removes. -/
lemma exists_removed (line : String) :
    ∃ before after : String,
      before ++ (trim line ++ after) = line ∧ before.toList ++ after.toList = removed line := by
  refine ⟨.ofList (leading line.toList), .ofList (trailing line.toList), ?_, ?_⟩
  · have rest : trimChars line.toList ++ trailing line.toList = line.toList.dropWhile isBlank :=
      List.rdropWhile_append_rtakeWhile
    apply String.toList_inj.1
    rw [String.toList_append, String.toList_append, trim, String.toList_ofList, String.toList_ofList,
      String.toList_ofList, rest]
    exact List.takeWhile_append_dropWhile
  · rw [String.toList_ofList, String.toList_ofList]
    rfl

/-- A blank is no part of a number. -/
lemma isNumeric_of_isBlank (blank : isBlank c) : Lexeme.isNumeric c = false := by
  rw [Lexeme.isNumeric, Bool.or_eq_false_iff, beq_eq_false_iff_ne]
  constructor
  · refine Bool.eq_false_iff.2 fun digit => ?_
    have range := Decimal.toNat_of_isDigit digit
    simp [isBlank, ranges] at blank
    omega
  · rintro rfl
    cases blank

/-- A blank has no meaning. -/
lemma ofChar?_of_isBlank (blank : isBlank c) : Symbol.ofChar? c = none := by
  cases meaning : Symbol.ofChar? c with
  | none => rfl
  | some s =>
    cases Symbol.char_of_ofChar? meaning
    cases s with
    | binary op => cases op <;> cases blank
    | _ => cases blank

end Blank

namespace LineError

/-- The kinds of errors, whatever place or value they name. -/
inductive Kind
  | strayPoint | literalTooLarge
  | invalidOperator | unbalancedParenthesis | invalidExpression
  | divisionByZero | unsupportedOperator | malformed | nonFinite | integerTooLarge
deriving DecidableEq, Repr

/-- The kind of an error, without the place and the value it names. -/
def kind : LineError → Kind
  | lexical (.strayPoint _) => .strayPoint
  | lexical (.literalTooLarge ..) => .literalTooLarge
  | conversion (.invalidOperator ..) => .invalidOperator
  | conversion (.unbalancedParenthesis _) => .unbalancedParenthesis
  | conversion (.invalidExpression ..) => .invalidExpression
  | evaluation .divisionByZero => .divisionByZero
  | evaluation (.unsupportedOperator _) => .unsupportedOperator
  | evaluation (.malformed _) => .malformed
  | evaluation (.nonFinite _) => .nonFinite
  | evaluation (.integerTooLarge _) => .integerTooLarge

/-- An error that is found further on is of the same kind. -/
lemma kind_moved (size : Nat) (e : LexicalError) : (lexical (e.moved size)).kind = (lexical e).kind := by
  cases e <;> rfl

end LineError

namespace Line

variable {line : String} {e : LineError}

/-- What trimming leaves of a line fails for the same kind of reason, unless the line fails for a blank
that trimming removes and that is no gap. -/
lemma evaluate_trim (failed : evaluate line = .error e) :
    (∃ e', evaluate (Blank.trim line) = .error e' ∧ e'.kind = e.kind) ∨
    ∃ c ∈ Blank.removed line, Lexeme.isGap c = false ∧
      ∃ position, e = .conversion (.invalidOperator c position) := by
  obtain ⟨before, after, whole, removed⟩ := Blank.exists_removed line
  have other (c : Char) (mem : c ∈ before.toList ++ after.toList) : Lexeme.isNumeric c = false :=
    Blank.isNumeric_of_isBlank (Blank.isBlank_of_mem_removed (removed ▸ mem))
  have visible (c : Char) (mem : c ∈ Lexeme.visible before.toList ++ Lexeme.visible after.toList) :
      c ∈ Blank.removed line ∧ Lexeme.isGap c = false := by
    rw [← Lexeme.visible_append, removed] at mem
    exact Lexeme.mem_visible_iff.1 mem
  have meaningless (c : Char) (mem : c ∈ Lexeme.visible before.toList ++ Lexeme.visible after.toList) :
      Symbol.ofChar? c = none :=
    Blank.ofChar?_of_isBlank (Blank.isBlank_of_mem_removed (visible c mem).1)
  -- No blank is part of a number, so each of those removed is a gap or a token by itself.
  have read := Token.ofText_between other (Blank.trim line)
  rw [whole] at read
  cases found : Token.ofText (Blank.trim line) with
  | error e' =>
    rw [found] at read
    cases failed.symm.trans (evaluate_of_unread read)
    exact .inl ⟨_, evaluate_of_unread found, (LineError.kind_moved _ e').symm⟩
  | ok ts =>
    rw [found] at read
    rw [evaluate_of_read read] at failed
    rcases Postfix.ofTokens_around meaningless ts with same | ⟨c, mem, position, refused⟩
    · refine .inl ⟨e, ?_, rfl⟩
      rw [evaluate_of_read found, convert, ← same]
      exact failed
    · rw [convert, refused] at failed
      cases failed
      obtain ⟨mem, other⟩ := visible c mem
      exact .inr ⟨c, mem, other, position, rfl⟩

end Line

end LineCalc

/-!
## What is quoted of a skipped line

The report of a skipped line quotes the line without the blanks around it, so that the failure can be seen
again in what is quoted. That holds unless the line failed for one of these blanks: the five gaps separate
lexemes, but any other blank is refused as an operator, and it is not quoted.
-/

namespace LineCalc.Batch

variable {number number' : Nat} {line : List UInt8} {levels : List Level} {events : List Event}
  {error : LineError} {expression : String}

/-- The report of a skipped line has the error of its text, and quotes that text without the blanks
around it. -/
lemma Reported.of_skipped (reported : Reported number line levels events)
    (mem : .skipped number' error expression ∈ events) :
    number' = number ∧ ∃ text,
      text? line = some text ∧ Line.evaluate text = .error error ∧ expression = Blank.trim text := by
  have stages (text : String) :
      Line.evaluate text = (Line.tokens text >>= Line.convert) >>= Line.value :=
    (bind_assoc _ _ _).symm
  cases reported with
  | undecodable => cases List.mem_singleton.1 mem
  | @unconverted text _ is failed =>
    cases List.mem_singleton.1 mem
    refine ⟨rfl, text, text?_eq_some_iff.2 is, ?_, rfl⟩
    rw [stages, failed]
    rfl
  | @unvalued text _ _ _ is read converted failed =>
    rcases List.mem_cons.1 mem with clash | mem
    · cases clash
    · cases List.mem_singleton.1 mem
      refine ⟨rfl, text, text?_eq_some_iff.2 is, ?_, rfl⟩
      rw [stages, Except.bind_eq_ok_iff.2 ⟨_, read, converted⟩]
      exact failed
  | valued => cases List.mem_singleton.1 mem

/-- What is reported of a run is reported of one of its lines, or at the end. -/
lemma exists_line_of_mem {source : Source} {sink : Sink} {event : Event}
    (mem : event ∈ (run source sink).events) :
    (∃ line number, (line, number) ∈ (pieces source.bytes).zipIdx 1 ∧
      event ∈ (Contribution.ofBytes number line).events) ∨
    ∃ evaluated skipped, event = .finished evaluated skipped := by
  rw [← Array.mem_toList_iff] at mem
  have whole := (prefix_events_run source sink).subset mem
  rw [events_run_unlimited, List.mem_append, List.mem_flatten] at whole
  rcases whole with ⟨group, mem, inside⟩ | last
  · obtain ⟨⟨line, number⟩, numbered, rfl⟩ := List.mem_map.1 mem
    exact .inl ⟨line, number, numbered, inside⟩
  · exact .inr ⟨_, _, List.mem_singleton.1 last⟩

/-- What is quoted of a skipped line fails for the same kind of reason as the line, unless that failed for
a blank at one of its ends that is no gap. -/
theorem run_skipped_reproducible {source : Source} {sink : Sink}
    (skipped : .skipped number error expression ∈ (run source sink).events) :
    ∃ line text, (line, number) ∈ (pieces source.bytes).zipIdx 1 ∧ text? line = some text ∧
      Line.evaluate text = .error error ∧ expression = Blank.trim text ∧
      ((∃ error', Line.evaluate expression = .error error' ∧ error'.kind = error.kind) ∨
        ∃ c ∈ Blank.removed text, Lexeme.isGap c = false ∧
          ∃ position, error = .conversion (.invalidOperator c position)) := by
  rcases exists_line_of_mem skipped with ⟨line, number', numbered, mem⟩ | ⟨_, _, clash⟩
  · obtain ⟨_, reported⟩ := Contribution.exists_reported_ofBytes number' line
    obtain ⟨rfl, text, found, failed, rfl⟩ := reported.of_skipped mem
    exact ⟨line, text, numbered, found, failed, rfl, Line.evaluate_trim failed⟩
  · cases clash

/-- A division by zero between spaces is quoted without them, and divides by zero again. -/
theorem run_skipped_reproducible_division :
    let source : Source := ⟨" 1/0 \n".toUTF8.data.toList, none⟩
    .skipped 1 (.evaluation .divisionByZero) "1/0" ∈ (run source .unlimited).events ∧
    ∃ error', Line.evaluate "1/0" = .error error' ∧ error'.kind = .divisionByZero := by
  intro source
  have skipped : .skipped 1 (.evaluation .divisionByZero) "1/0" ∈ (run source .unlimited).events := by
    decide +kernel
  refine ⟨skipped, ?_⟩
  obtain ⟨_, _, _, _, _, _, again | ⟨_, _, _, _, clash⟩⟩ := run_skipped_reproducible skipped
  · exact again
  · cases clash

/-- Not everything that is quoted of a skipped line fails for the same kind of reason: a no-break space in
front of a sum is refused, and the sum alone has a value. -/
theorem not_run_skipped_reproducible :
    ¬ ∀ (bytes : List UInt8) (number : Nat) (error : LineError) (expression : String),
      .skipped number error expression ∈ (run ⟨bytes, none⟩ .unlimited).events →
      ∃ error', Line.evaluate expression = .error error' ∧ error'.kind = error.kind := by
  intro claim
  have skipped : .skipped 1 (.conversion (.invalidOperator '\u00a0' 0)) "1 + 2" ∈
      (run ⟨"\u00a01 + 2\n".toUTF8.data.toList, none⟩ .unlimited).events := by decide +kernel
  have value : Line.evaluate "1 + 2" = .ok 3 := by decide +kernel
  obtain ⟨error', failed, _⟩ := claim _ 1 _ "1 + 2" skipped
  cases value.symm.trans failed

end LineCalc.Batch
