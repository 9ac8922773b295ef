import LineCalc.Proofs.Batch.Run
import LineCalc.Proofs.Numeral

/-!
# What a run may write

Whatever the lines are and wherever a run stops, its output consists of the characters of finite results
and of line feeds. So it never tells of an infinity or of something that is no number. The main statement
adds what this rests on: what is converted can be evaluated, and its value is finite.
-/

namespace LineCalc.Batch

/-- The bytes of finite results and of the ends of their lines. -/
def plainBytes : List UInt8 := ('\n' :: Numeral.plainChars).flatMap String.utf8EncodeChar

/-- Nothing but the bytes of finite results. -/
def Plain (bytes : Array UInt8) : Prop := ∀ b ∈ bytes, b ∈ plainBytes

/-- Plain characters have plain bytes. -/
lemma Plain.of_toUTF8 {s : String} (plain : ∀ c ∈ s.toList, c ∈ '\n' :: Numeral.plainChars) :
    Plain s.toUTF8.data := by
  intro b mem
  rw [← Array.mem_toList_iff, toList_data_toUTF8] at mem
  obtain ⟨c, inside, mem⟩ := List.mem_flatMap.1 mem
  exact List.mem_flatMap.2 ⟨c, plain c inside, mem⟩

/-- A finite result is written with plain bytes. -/
lemma plain_resultBytes {v : Float} (finite : Binary64.IsFinite v) : Plain (resultBytes v) := by
  apply Plain.of_toUTF8
  intro c mem
  rw [String.toList_append] at mem
  rcases List.mem_append.1 mem with text | feed
  · exact List.mem_cons_of_mem _ (Numeral.mem_plainChars_of_resultText finite text)
  · cases List.mem_singleton.1 feed
    exact List.mem_cons_self

section Faults

variable {sink : Sink} {p : Progress} {held offered : Array UInt8}

/-- Plain bytes stay plain with more of them. -/
lemma Plain.append (before : Plain held) (more : Plain offered) : Plain (held ++ offered) := by
  intro b mem
  rcases Array.mem_append.1 mem with mem | mem
  · exact before b mem
  · exact more b mem

/-- What a sink holds stays plain, whatever part it takes of plain bytes. -/
lemma Plain.accept (sink : Sink) (before : Plain held) (more : Plain offered) :
    Plain (sink.accept held offered).1 := by
  rw [Sink.accept]
  cases sink.room with
  | none => exact before.append more
  | some limit =>
    dsimp only
    split
    · exact before.append more
    · apply before.append
      intro b mem
      rw [← Array.mem_toList_iff, Array.take_eq_extract, Array.toList_extract] at mem
      exact more b (Array.mem_toList_iff.1 (List.mem_of_mem_take mem))

/-- How far lines were taken, whether all of them were or a fault stopped them. -/
def reached : Except (Progress × Fault) Progress → Progress
  | .ok p => p
  | .error (p, _) => p

/-- One more line keeps the output plain, even if a fault stops it. -/
lemma plain_addLine (plain : Plain p.output) (line : List UInt8) :
    Plain (reached (p.addLine sink line)).output := by
  rw [Progress.addLine, Contribution.value_ofBytes]
  cases answered : answer? line with
  | none => exact plain
  | some v =>
    have accepted := plain.accept sink (plain_resultBytes (isFinite_of_answer? answered))
    dsimp only
    cases taken : sink.accept p.output (resultBytes v) with
    | mk output fault =>
      rw [taken] at accepted
      cases fault <;> exact accepted

/-- Lines keep the output plain, up to the first that is stopped. -/
lemma plain_foldlM (plain : Plain p.output) (lines : List (List UInt8)) :
    Plain (reached (lines.foldlM (Progress.addLine sink) p)).output := by
  induction lines generalizing p with
  | nil => exact plain
  | cons line lines ih =>
    -- A line that a fault stops may still have written a part of its result.
    have step : Plain (reached (p.addLine sink line)).output := plain_addLine plain line
    rw [List.foldlM_cons]
    cases added : p.addLine sink line with
    | error stop =>
      rw [added] at step
      exact step
    | ok p' =>
      rw [added] at step
      exact ih step

/-- The output of a run is what its lines have written, however the run ends. -/
lemma output_run (source : Source) (sink : Sink) :
    (run source sink).output =
      (reached (source.lines.foldlM (Progress.addLine sink) .start)).output := by
  rw [run]
  cases source.lines.foldlM (Progress.addLine sink) .start with
  | error stop => rfl
  | ok p =>
    dsimp only
    cases source.fault with
    | some fault => rfl
    | none =>
      dsimp only
      cases sink.flushFault with
      | some fault => rfl
      | none => rfl

end Faults

/-- Every run writes plain bytes only. -/
lemma plain_run (source : Source) (sink : Sink) : Plain (run source sink).output := by
  rw [output_run]
  apply plain_foldlM
  exact fun b mem => absurd mem (Array.not_mem_empty b)

/-- A text with a character whose bytes are not plain is not in plain bytes. -/
lemma Plain.excludes {bytes : Array UInt8} {s : String} {c : Char} (plain : Plain bytes)
    (mem : c ∈ s.toList) (other : ∀ b ∈ String.utf8EncodeChar c, b ∉ plainBytes) :
    ¬ s.toUTF8.data.toList <:+: bytes.toList := by
  intro inside
  obtain ⟨b, encoded⟩ := List.exists_mem_of_ne_nil _ (String.utf8EncodeChar_ne_nil (c := c))
  have written : b ∈ s.toUTF8.data.toList := by
    rw [toList_data_toUTF8]
    exact List.mem_flatMap.2 ⟨c, mem, encoded⟩
  exact other b encoded (plain b (Array.mem_toList_iff.1 (inside.subset written)))

/-- What is converted has a value or fails by its numbers, and its value is finite. So a line fails
neither for its form nor for an operator in the evaluation, and no run writes an infinity or something
that is no number. -/
theorem converted_evaluable :
    (∀ ts p, Postfix.ofTokens ts = .ok p →
      (∀ reason, Postfix.evaluate p ≠ .error (.malformed reason)) ∧
      (∀ c, Postfix.evaluate p ≠ .error (.unsupportedOperator c)) ∧
      ((∀ x, Token.real x ∈ ts → Binary64.IsFinite x) →
        ∀ v, Postfix.evaluate p = .ok v → Binary64.IsFinite v)) ∧
    (∀ line,
      (∀ reason, Line.evaluate line ≠ .error (.evaluation (.malformed reason))) ∧
      (∀ c, Line.evaluate line ≠ .error (.evaluation (.unsupportedOperator c)))) ∧
    ∀ source sink,
      ¬ "NaN".toUTF8.data.toList <:+: (run source sink).output.toList ∧
      ¬ "inf".toUTF8.data.toList <:+: (run source sink).output.toList := by
  refine ⟨fun ts p converted => ⟨?_, ?_, ?_⟩, fun line => ⟨?_, ?_⟩, fun source sink => ⟨?_, ?_⟩⟩
  · intro reason failed
    cases Postfix.numerical_of_ofTokens converted failed
  · intro c failed
    cases Postfix.numerical_of_ofTokens converted failed
  · exact fun finite v done => Postfix.isFinite_of_ofTokens converted finite done
  · intro reason failed
    cases Line.numerical_of_evaluate failed
  · intro c failed
    cases Line.numerical_of_evaluate failed
  · exact (plain_run source sink).excludes (c := 'N') (by decide) (by decide +kernel)
  · exact (plain_run source sink).excludes (c := 'i') (by decide) (by decide +kernel)

/-- One and a half is the finite value of a sum of an integer and a real. -/
theorem converted_evaluable_sum :
    Postfix.ofTokens [.integer 1, .symbol '+', .real 0.5] = .ok [.integer 1, .real 0.5, .symbol '+'] ∧
    Postfix.evaluate [.integer 1, .real 0.5, .symbol '+'] = .ok 1.5 ∧ Binary64.IsFinite 1.5 := by
  have converted : Postfix.ofTokens [.integer 1, .symbol '+', .real 0.5] =
      .ok [.integer 1, .real 0.5, .symbol '+'] := by decide +kernel
  have evaluated : Postfix.evaluate [.integer 1, .real 0.5, .symbol '+'] = .ok 1.5 := by
    decide +kernel
  refine ⟨converted, evaluated, (converted_evaluable.1 _ _ converted).2.2 ?_ _ evaluated⟩
  intro x mem
  have half : x = 0.5 := by simpa using mem
  rw [half]
  decide +kernel

end LineCalc.Batch
