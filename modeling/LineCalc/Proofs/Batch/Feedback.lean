import LineCalc.Proofs.Batch.Lines
import LineCalc.Proofs.Batch.Run
import LineCalc.Proofs.Line.Result

/-!
# The output as input

The results of a run are written on lines of their own. If none of them has a minus sign, each of these
lines is read as a number with the same result, so a run over the output writes it once more.
-/

namespace LineCalc.Batch

/-- The bytes of a result, without a line feed. -/
def resultLine (v : Float) : List UInt8 := (Line.resultText v).toUTF8.data.toList

/-- The values of the lines of bytes, in order. -/
def answers (bytes : List UInt8) : List Float := (pieces bytes).filterMap answer?

/-- A line with a value adds the line of that value to the output. -/
lemma answerBytes_of_answer? {line : List UInt8} {v : Float} (answered : answer? line = some v) :
    answerBytes line = resultLine v ++ [lineFeed] := by
  rw [answerBytes, answered]
  rfl

section Output

variable (bytes : List UInt8)

/-- The output is the results, each with a line feed. -/
lemma output_eq_answers :
    (run ⟨bytes, none⟩ .unlimited).output.toList =
      ((answers bytes).map resultLine).flatMap (· ++ [lineFeed]) := by
  rw [output_run_unlimited, flatMap_answerBytes, answers, List.flatMap_map]
  rfl

end Output

section Result

variable {v : Float}

/-- A result has neither a line feed nor a carriage return. -/
lemma notMem_resultLine (finite : Binary64.IsFinite v) {byte : UInt8}
    (other : byte ∉ Numeral.plainChars.flatMap String.utf8EncodeChar) : byte ∉ resultLine v := by
  intro mem
  rw [resultLine, toList_data_toUTF8] at mem
  obtain ⟨c, inside, mem⟩ := List.mem_flatMap.1 mem
  exact other (List.mem_flatMap.2 ⟨c, Numeral.mem_plainChars_of_resultText finite inside, mem⟩)

/-- The text of a written result is the result. -/
lemma text?_resultLine (finite : Binary64.IsFinite v) :
    text? (resultLine v) = some (Line.resultText v) := by
  have kept : dropReturn (resultLine v) = resultLine v := by
    apply if_neg
    exact fun last => notMem_resultLine finite (by decide) (List.mem_of_getLast? last)
  rw [text?, kept, fromUTF8?_eq_some_iff, ← toList_data_toUTF8, resultLine]

/-- The line of a result adds the same line to the output. -/
lemma answerBytes_resultLine (finite : Binary64.IsFinite v) (positive : Binary64.isNegative v = false) :
    isAnswered (resultLine v) ∧ answerBytes (resultLine v) = resultLine v ++ [lineFeed] := by
  obtain ⟨x, read, same⟩ := Line.exists_ofText_resultText finite positive
  have answered : answer? (resultLine v) = some x := by
    rw [answer?, text?_resultLine finite]
    exact congrArg Except.toOption (Line.evaluate_of_real read)
  rw [isAnswered, answered, answerBytes_of_answer? answered, resultLine, same]
  exact ⟨rfl, rfl⟩

end Result

section Again

variable {bytes : List UInt8}

/-- The values of lines are finite. -/
lemma isFinite_of_mem_answers {v : Float} (mem : v ∈ answers bytes) : Binary64.IsFinite v := by
  obtain ⟨line, _, answered⟩ := List.mem_filterMap.1 mem
  exact isFinite_of_answer? answered

/-- The lines of an output are its results. -/
lemma pieces_output (bytes : List UInt8) :
    pieces (run ⟨bytes, none⟩ .unlimited).output.toList = (answers bytes).map resultLine := by
  rw [output_eq_answers]
  apply pieces_flatMap
  intro line mem
  obtain ⟨v, inside, rfl⟩ := List.mem_map.1 mem
  exact notMem_resultLine (isFinite_of_mem_answers inside) (by decide)

/-- If no result has a minus sign, then each line of the output adds itself to the output. -/
lemma answerBytes_of_mem (positive : ∀ v ∈ answers bytes, Binary64.isNegative v = false) :
    ∀ line ∈ (answers bytes).map resultLine,
      isAnswered line ∧ answerBytes line = line ++ [lineFeed] := by
  intro line mem
  obtain ⟨v, inside, rfl⟩ := List.mem_map.1 mem
  exact answerBytes_resultLine (isFinite_of_mem_answers inside) (positive v inside)

end Again

/-- A result without a minus sign is one number with the same result, and a run over an output of such
results writes it again and skips nothing. -/
theorem run_again :
    (∀ v, Binary64.IsFinite v → Binary64.isNegative v = false →
      ∃ x, Token.ofText (Line.resultText v) = .ok [.real x] ∧
        Line.evaluate (Line.resultText v) = .ok x ∧ Line.resultText x = Line.resultText v) ∧
    ∀ bytes, (∀ v ∈ answers bytes, Binary64.isNegative v = false) →
      let first := run ⟨bytes, none⟩ .unlimited
      let again := run ⟨first.output.toList, none⟩ .unlimited
      again.output = first.output ∧
      ∃ evaluated skipped,
        first.result = .ok ⟨evaluated, skipped⟩ ∧ again.result = .ok ⟨evaluated, 0⟩ := by
  constructor
  · intro v finite positive
    obtain ⟨x, read, same⟩ := Line.exists_ofText_resultText finite positive
    exact ⟨x, read, Line.evaluate_of_real read, same⟩
  · intro bytes positive
    have lines := answerBytes_of_mem positive
    -- Every line of the output is a result, so it is answered with itself.
    refine ⟨?_, _, _, result_run_unlimited bytes, ?_⟩
    · apply Array.toList_inj.1
      rw [output_run_unlimited, pieces_output, output_eq_answers]
      exact List.flatMap_congr fun line mem => (lines line mem).2
    · have all := List.countP_eq_length.2 fun line mem => (lines line mem).1
      have none : ((answers bytes).map resultLine).countP (!isAnswered ·) = 0 := by
        rw [List.countP_eq_zero]
        intro line mem
        rw [(lines line mem).1]
        decide
      rw [result_run_unlimited, pieces_output, all, none, countP_isAnswered, ← answers, List.length_map]

/-- Two and a half and a tenth are written once more, and the line without a value is gone. -/
theorem run_again_quotient :
    let bytes := "5 / 2\n1 +\n.1".toUTF8.data.toList
    (Binary64.IsFinite 2.5 ∧ Binary64.isNegative 2.5 = false ∧
      ∃ x, Token.ofText (Line.resultText 2.5) = .ok [.real x] ∧
        Line.evaluate (Line.resultText 2.5) = .ok x ∧ Line.resultText x = Line.resultText 2.5) ∧
    answers bytes = [2.5, 0.1] ∧
    (run ⟨(run ⟨bytes, none⟩ .unlimited).output.toList, none⟩ .unlimited).output =
      "2.50\n0.10\n".toUTF8.data := by
  have finite : Binary64.IsFinite 2.5 := by decide +kernel
  have positive : Binary64.isNegative 2.5 = false := by decide +kernel
  have values : answers "5 / 2\n1 +\n.1".toUTF8.data.toList = [2.5, 0.1] := by decide +kernel
  refine ⟨⟨finite, positive, run_again.1 2.5 finite positive⟩, values, ?_⟩
  rw [(run_again.2 _ ?_).1]
  · decide +kernel
  · rw [values]
    decide +kernel

end LineCalc.Batch
