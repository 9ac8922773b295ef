import LineCalc.Batch.Run
import LineCalc.Proofs.Batch.Lines
import LineCalc.Proofs.Line

/-!
# Runs without faults

Every line contributes what its bytes decide, and a run is what its lines contribute, in order.

## What one line contributes

The bytes of a line are its text, if they are UTF-8, and the text has a value or an error. What is
reported says how far the line got: not to a text, not to a postfix order, not to a value, or to the end.
-/

namespace LineCalc.Batch

/-- The value of a line of bytes, if it is a text with a value. -/
def answer? (line : List UInt8) : Option Float :=
  (text? line).bind fun text => (Line.evaluate text).toOption

/-- The bytes that a line adds to the output: its value, if it has one, on a line of its own. -/
def answerBytes (line : List UInt8) : List UInt8 :=
  match answer? line with
  | some value => (Line.resultText value).toUTF8.data.toList ++ [lineFeed]
  | none => []

/-- A line has an answer if it has a text with that value. -/
lemma answer?_eq_some_iff {line : List UInt8} {v : Float} :
    answer? line = some v ↔ ∃ text, IsText text line ∧ Line.evaluate text = .ok v := by
  simp only [answer?, Option.bind_eq_some_iff, text?_eq_some_iff, Except.toOption_eq_some_iff]

/-- An answer is a finite value. -/
lemma isFinite_of_answer? {line : List UInt8} {v : Float} (answered : answer? line = some v) :
    Binary64.IsFinite v := by
  obtain ⟨_, _, valued⟩ := answer?_eq_some_iff.1 answered
  exact Line.isFinite_of_evaluate valued

/-- The events of a line with a number, and their levels: how far the text of the line gets, if its bytes
have one. -/
inductive Reported (number : Nat) (line : List UInt8) : List Level → List Event → Prop
  | undecodable : (∀ text, ¬ IsText text line) → Reported number line [.warn] [.undecodable number]
  | unconverted {text e} :
    IsText text line → Line.tokens text >>= Line.convert = .error e →
    Reported number line [.warn] [.skipped number e (Blank.trim text)]
  | unvalued {text source order e} :
    IsText text line → Line.tokens text = .ok source → Line.convert source = .ok order →
    Line.value order = .error e →
    Reported number line [.debug, .warn]
      [.converted number source order, .skipped number e (Blank.trim text)]
  | valued {text source order v} :
    IsText text line → Line.tokens text = .ok source → Line.convert source = .ok order →
    Line.value order = .ok v → Reported number line [.debug] [.converted number source order]

namespace Reported

variable {number : Nat} {line : List UInt8} {levels : List Level} {events : List Event}

/-- The events have the levels that are told of them. -/
lemma map_level (reported : Reported number line levels events) : events.map Event.level = levels := by
  cases reported <;> rfl

/-- All events of a line have its number. -/
lemma line?_eq (reported : Reported number line levels events) :
    ∀ event ∈ events, event.line? = some number := by
  intro event mem
  cases reported with
  | unvalued =>
    rcases List.mem_cons.1 mem with rfl | mem
    · rfl
    · cases List.mem_singleton.1 mem
      rfl
  | _ =>
    cases List.mem_singleton.1 mem
    rfl

/-- An expression is quoted by the warnings of a line that has a text, and by nothing else. -/
lemma quoted_iff (reported : Reported number line levels events) :
    ∀ event ∈ events, "expression" ∈ event.fields.map Prod.fst ↔
      event.level = .warn ∧ ∃ text, IsText text line := by
  have quoted {e s} : "expression" ∈ (Event.skipped number e s).fields.map Prod.fst :=
    List.mem_cons_of_mem _ List.mem_cons_self
  have silent {source order} : "expression" ∉ (Event.converted number source order).fields.map Prod.fst := by
    simp [Event.fields]
  intro event mem
  cases reported with
  | undecodable none =>
    cases List.mem_singleton.1 mem
    exact iff_of_false (by simp [Event.fields]) fun told => told.2.elim none
  | unconverted is =>
    cases List.mem_singleton.1 mem
    exact iff_of_true quoted ⟨rfl, _, is⟩
  | unvalued is =>
    rcases List.mem_cons.1 mem with rfl | mem
    · exact iff_of_false silent fun told => nomatch told.1
    · cases List.mem_singleton.1 mem
      exact iff_of_true quoted ⟨rfl, _, is⟩
  | valued =>
    cases List.mem_singleton.1 mem
    exact iff_of_false silent fun told => nomatch told.1

end Reported

namespace Contribution

/-- The value that a line contributes is its answer. -/
lemma value_ofBytes (number : Nat) (line : List UInt8) : (ofBytes number line).value = answer? line := by
  rw [ofBytes, answer?]
  cases text? line with
  | none => rfl
  | some text =>
    change (ofText number text).value = (Line.evaluate text).toOption
    rw [ofText, ← Line.value_outcome]
    cases (Line.outcome text).value <;> rfl

/-- What a line contributes is reported as far as the line gets. -/
lemma exists_reported_ofBytes (number : Nat) (line : List UInt8) :
    ∃ levels, Reported number line levels (ofBytes number line).events := by
  rw [ofBytes]
  cases found : text? line with
  | none =>
    refine ⟨_, .undecodable fun text is => ?_⟩
    cases found.symm.trans (text?_eq_some_iff.2 is)
  | some text =>
    change ∃ levels, Reported number line levels (ofText number text).events
    have is := text?_eq_some_iff.1 found
    rw [ofText, Line.outcome]
    cases read : Line.tokens text with
    | error e => exact ⟨_, .unconverted is (Except.bind_eq_error_iff.2 (.inl read))⟩
    | ok source =>
      dsimp only
      cases converted : Line.convert source with
      | error e => exact ⟨_, .unconverted is (Except.bind_eq_error_iff.2 (.inr ⟨source, read, converted⟩))⟩
      | ok order =>
        dsimp only
        cases valued : Line.value order with
        | error e => exact ⟨_, .unvalued is read converted valued⟩
        | ok v => exact ⟨_, .valued is read converted valued⟩

end Contribution

/-!
## A run accounts for every line

Without faults every line is taken exactly once and in order: the output is what the lines with a value
add to it, the events are those of the lines with their numbers, and the two counts are the numbers of
lines with and without a value.
-/

/-- The events of lines, a group for each line; the first line has the given number. -/
def reports (number : Nat) (lines : List (List UInt8)) : List (List Event) :=
  (lines.zipIdx number).map fun (line, number) => (Contribution.ofBytes number line).events

/-- Whether a line has a value. -/
def isAnswered (line : List UInt8) : Bool := (answer? line).isSome

/-- A result is written with a line feed behind it. -/
lemma toList_resultBytes (v : Float) :
    (resultBytes v).toList = (Line.resultText v).toUTF8.data.toList ++ [lineFeed] := by
  rw [resultBytes, String.toUTF8_eq_toByteArray, String.toUTF8_eq_toByteArray,
    String.toByteArray_append, ByteArray.data_append, Array.toList_append]
  rfl

namespace Progress

/-- What has been done after more lines, if nothing fails. -/
def advance (p : Progress) (lines : List (List UInt8)) : Progress where
  output := p.output ++ (lines.flatMap answerBytes).toArray
  events := p.events ++ (reports (p.evaluated + p.skipped + 1) lines).flatten.toArray
  evaluated := p.evaluated + lines.countP isAnswered
  skipped := p.skipped + lines.countP (!isAnswered ·)

/-- No lines leave everything as it is. -/
lemma advance_nil (p : Progress) : p.advance [] = p := by
  simp [advance, reports]

/-- Lines may be taken one at a time. -/
lemma advance_cons (p : Progress) (line : List UInt8) (lines : List (List UInt8)) :
    (p.advance [line]).advance lines = p.advance (line :: lines) := by
  -- A line raises one of the two counts, so the number of the next line is one more.
  have number : (p.advance [line]).evaluated + (p.advance [line]).skipped =
      p.evaluated + p.skipped + 1 := by
    cases answered : isAnswered line with
    | true =>
      simp [advance, answered]
      omega
    | false =>
      simp [advance, answered]
      omega
  rw [advance, number]
  simp [advance, reports, List.countP_cons, Nat.add_assoc, Nat.add_comm, Nat.add_left_comm]

/-- Without faults one step of a run takes its line. -/
lemma addLine_unlimited (p : Progress) (line : List UInt8) :
    addLine .unlimited p line = .ok (p.advance [line]) := by
  have events (events : List Event) : p.events ++ events = p.events ++ events.toArray := by
    apply Array.toList_inj.1
    simp
  rw [addLine, Contribution.value_ofBytes]
  cases answered : answer? line with
  | none => simp [advance, reports, isAnswered, answerBytes, answered, events]
  | some v =>
    have output : (resultBytes v).toList.toArray = resultBytes v := rfl
    rw [toList_resultBytes] at output
    simp [advance, reports, isAnswered, answerBytes, answered, events, Sink.accept, Sink.unlimited, ← output]

/-- Without faults nothing is left out. -/
lemma foldlM_unlimited (p : Progress) (lines : List (List UInt8)) :
    lines.foldlM (addLine .unlimited) p = .ok (p.advance lines) := by
  induction lines generalizing p with
  | nil =>
    rw [advance_nil]
    rfl
  | cons line lines ih =>
    rw [List.foldlM_cons, addLine_unlimited]
    change lines.foldlM (addLine .unlimited) (p.advance [line]) = _
    rw [ih, advance_cons]

end Progress

/-- Without faults a run takes all pieces between line feeds and comes to its end. -/
lemma run_unlimited (bytes : List UInt8) :
    run ⟨bytes, none⟩ .unlimited = .finished (Progress.start.advance (pieces bytes)) := by
  have lines : Source.lines ⟨bytes, none⟩ = pieces bytes := Cut.lines_ofBytes bytes
  rw [run, lines, Progress.foldlM_unlimited]
  rfl

section Unlimited

variable (bytes : List UInt8)

/-- Without faults the output is what the lines add, in order. -/
lemma output_run_unlimited :
    (run ⟨bytes, none⟩ .unlimited).output.toList = (pieces bytes).flatMap answerBytes := by
  rw [run_unlimited]
  simp [Run.finished, Progress.advance, Progress.start]

/-- Without faults the counts are the numbers of lines with and without an answer. -/
lemma result_run_unlimited :
    (run ⟨bytes, none⟩ .unlimited).result =
      .ok ⟨(pieces bytes).countP isAnswered, (pieces bytes).countP (!isAnswered ·)⟩ := by
  rw [run_unlimited]
  simp [Run.finished, Progress.advance, Progress.start]

/-- Without faults the events are the reports of the lines, and behind them the counts. -/
lemma events_run_unlimited :
    (run ⟨bytes, none⟩ .unlimited).events.toList = (reports 1 (pieces bytes)).flatten ++
      [.finished ((pieces bytes).countP isAnswered) ((pieces bytes).countP (!isAnswered ·))] := by
  rw [run_unlimited]
  simp [Run.finished, Progress.advance, Progress.start]

end Unlimited

/-- What is told of a line with a number: it has a value if its bytes have a text with that value, and it
is reported as far as it gets. -/
structure Accounts (number : Nat) (line : List UInt8) (told : Contribution) : Prop where
  value v : told.value = some v ↔ ∃ text, IsText text line ∧ Line.evaluate text = .ok v
  reported : ∃ levels, Reported number line levels told.events ∧ told.events.map Event.level = levels
  numbered : ∀ event ∈ told.events, event.line? = some number
  quoted : ∀ event ∈ told.events, "expression" ∈ event.fields.map Prod.fst ↔
    event.level = .warn ∧ ∃ text, IsText text line

/-- What a line contributes accounts for it. -/
lemma accounts_ofBytes (number : Nat) (line : List UInt8) :
    Accounts number line (.ofBytes number line) := by
  obtain ⟨levels, reported⟩ := Contribution.exists_reported_ofBytes number line
  refine ⟨fun v => ?_, ⟨levels, reported, reported.map_level⟩, reported.line?_eq, reported.quoted_iff⟩
  rw [Contribution.value_ofBytes, answer?_eq_some_iff]

section Contributions

variable (number : Nat) (lines : List (List UInt8))

/-- What lines contribute, one after the other; the first line has the given number. -/
def contributions : List Contribution :=
  (lines.zipIdx number).map fun (line, number) => .ofBytes number line

/-- Every line is accounted for by what it contributes. -/
lemma forall₂_contributions :
    List.Forall₂ (fun (line, number) told => Accounts number line told) (lines.zipIdx number)
      (contributions number lines) := by
  rw [contributions, List.forall₂_map_right_iff, List.forall₂_same]
  exact fun (line, number) _ => accounts_ofBytes number line

/-- What is reported of lines is what they contribute to the report. -/
lemma map_events_contributions : (contributions number lines).map Contribution.events = reports number lines :=
  List.map_map

/-- The values that lines contribute are their answers, in order. -/
lemma filterMap_value_contributions :
    (contributions number lines).filterMap Contribution.value = lines.filterMap answer? := by
  calc
    _ = (lines.zipIdx number).filterMap (answer? ∘ Prod.fst) := by
      rw [contributions, List.filterMap_map]
      exact congrArg (List.filterMap · _) (funext fun (line, n) => Contribution.value_ofBytes n line)
    _ = lines.filterMap answer? := by rw [← List.filterMap_map, List.zipIdx_map_fst]

end Contributions

/-- What lines add to the output are their answers, each on a line of its own. -/
lemma flatMap_answerBytes (lines : List (List UInt8)) :
    lines.flatMap answerBytes =
      (lines.filterMap answer?).flatMap fun v => (Line.resultText v).toUTF8.data.toList ++ [lineFeed] := by
  induction lines with
  | nil => rfl
  | cons line lines ih =>
    rw [List.flatMap_cons, ih]
    cases answered : answer? line with
    | none =>
      rw [List.filterMap_cons_none answered, answerBytes, answered]
      rfl
    | some v => rw [List.filterMap_cons_some answered, List.flatMap_cons, answerBytes, answered]

/-- There are as many answered lines as answers. -/
lemma countP_isAnswered (lines : List (List UInt8)) :
    lines.countP isAnswered = (lines.filterMap answer?).length :=
  List.length_filterMap_eq_countP.symm

/-- Every line adds its value to the output, its events to the report and itself to one count. -/
theorem run_unlimited_accounts (bytes : List UInt8) :
    ∃ lines told evaluated skipped,
      IsCut bytes lines ∧
      List.Forall₂ (fun (line, number) told => Accounts number line told) (lines.zipIdx 1) told ∧
      (run ⟨bytes, none⟩ .unlimited).output.toList = (told.filterMap Contribution.value).flatMap
        (fun v => (Line.resultText v).toUTF8.data.toList ++ [10]) ∧
      (run ⟨bytes, none⟩ .unlimited).result = .ok ⟨evaluated, skipped⟩ ∧
      evaluated = (told.filterMap Contribution.value).length ∧ evaluated + skipped = lines.length ∧
      (run ⟨bytes, none⟩ .unlimited).events.toList =
        (told.map Contribution.events).flatten ++ [.finished evaluated skipped] ∧
      (Event.finished evaluated skipped).level = .info := by
  refine ⟨pieces bytes, contributions 1 (pieces bytes), (pieces bytes).countP isAnswered,
    (pieces bytes).countP (!isAnswered ·), isCut_iff.2 rfl, forall₂_contributions 1 (pieces bytes), ?_,
    result_run_unlimited bytes, ?_, ?_, ?_, rfl⟩
  · rw [filterMap_value_contributions, output_run_unlimited, flatMap_answerBytes]
    rfl
  · rw [filterMap_value_contributions, countP_isAnswered]
  · rw [List.length_eq_countP_add_countP isAnswered]
    simp
  · rw [map_events_contributions, events_run_unlimited]

end LineCalc.Batch
