import LineCalc.Proofs.Batch.Faults

/-!
# Inputs one after the other

No line knows of the lines around it, except for its number. So if one input ends a line, a run over it
and a second input writes, reports and counts what two runs would, and the events of the second input
tell of lines that are further down by as many lines as the first has.
-/

namespace LineCalc.Batch

/-- The number of a line in a field, further down by some lines. -/
def Field.moved (k : Nat) : Field → Field
  | number n => number (n + k)
  | text s => text s

namespace Event

/-- The same event with its line further down by some lines. -/
def moved (k : Nat) : Event → Event
  | converted line source order => converted (line + k) source order
  | skipped line error expression => skipped (line + k) error expression
  | undecodable line => undecodable (line + k)
  | finished good bad => finished good bad

/-- Of an event with a line nothing but the number of the line is changed. -/
lemma observed_moved (k : Nat) {event : Event} (onLine : event.line?.isSome) :
    (event.moved k).line? = event.line?.map (· + k) ∧ (event.moved k).level = event.level ∧
    (event.moved k).message = event.message ∧
    (event.moved k).fields = event.fields.map fun (name, field) => (name, field.moved k) := by
  cases event with
  | finished good bad => cases onLine
  | _ => exact ⟨rfl, rfl, rfl, rfl⟩

end Event

/-- The events of a run that belong to a line. -/
def Run.lineEvents (r : Run) : List Event := r.events.toList.filter (·.line?.isSome)

/-- A line with a greater number has the same events, moved down. -/
lemma events_ofBytes_add (k number : Nat) (line : List UInt8) :
    (Contribution.ofBytes (k + number) line).events =
      (Contribution.ofBytes number line).events.map (Event.moved k) := by
  rw [Nat.add_comm, Contribution.ofBytes, Contribution.ofBytes]
  cases text? line with
  | none => rfl
  | some text =>
    dsimp only [Contribution.ofText]
    cases (Line.outcome text).value <;> cases (Line.outcome text).conversion <;> rfl

section Reports

variable (number : Nat) (lines more : List (List UInt8))

/-- Lines that start further down have the same reports, moved down. -/
lemma reports_add (k : Nat) :
    reports (k + number) lines = (reports number lines).map (List.map (Event.moved k)) := by
  rw [reports, ← List.map_snd_add_zipIdx_eq_zipIdx, reports, List.map_map, List.map_map]
  apply List.map_congr_left
  rintro ⟨line, n⟩ _
  dsimp only [Function.comp, Prod.map]
  rw [Nat.add_comm, events_ofBytes_add]
  rfl

/-- Reports of more lines follow, with the numbers going on. -/
lemma reports_append :
    reports number (lines ++ more) = reports number lines ++ reports (number + lines.length) more := by
  rw [reports, List.zipIdx_append, List.map_append]
  rfl

/-- All events of lines belong to lines. -/
lemma isSome_line?_of_mem_reports :
    ∀ event ∈ (reports number lines).flatten, event.line?.isSome := by
  intro event mem
  obtain ⟨group, inside, mem⟩ := List.mem_flatten.1 mem
  obtain ⟨⟨line, n⟩, _, rfl⟩ := List.mem_map.1 inside
  rw [(accounts_ofBytes n line).numbered event mem]
  rfl

end Reports

/-- The events of a run that belong to lines are the reports of its lines. -/
lemma lineEvents_run_unlimited (bytes : List UInt8) :
    (run ⟨bytes, none⟩ .unlimited).lineEvents = (reports 1 (pieces bytes)).flatten := by
  rw [Run.lineEvents, events_run_unlimited, List.filter_append,
    List.filter_eq_self.2 (isSome_line?_of_mem_reports 1 (pieces bytes))]
  exact List.append_nil _

/-- A run over one input and a second one does what a run over each does, the second with its lines
moved behind those of the first. -/
theorem run_append {bytes : List UInt8} (closed : bytes = [] ∨ bytes.getLast? = some lineFeed)
    (more : List UInt8) :
    let first := run ⟨bytes, none⟩ .unlimited
    let second := run ⟨more, none⟩ .unlimited
    let whole := run ⟨bytes ++ more, none⟩ .unlimited
    whole.output = first.output ++ second.output ∧
    ∃ evaluated skipped evaluated' skipped',
      first.result = .ok ⟨evaluated, skipped⟩ ∧ second.result = .ok ⟨evaluated', skipped'⟩ ∧
      whole.result = .ok ⟨evaluated + evaluated', skipped + skipped'⟩ ∧
      first.events.toList = first.lineEvents ++ [.finished evaluated skipped] ∧
      second.events.toList = second.lineEvents ++ [.finished evaluated' skipped'] ∧
      whole.events.toList = first.lineEvents ++
        second.lineEvents.map (Event.moved (bytes.count lineFeed)) ++
        [.finished (evaluated + evaluated') (skipped + skipped')] := by
  refine ⟨?_, _, _, _, _, result_run_unlimited bytes, result_run_unlimited more, ?_, ?_, ?_, ?_⟩
  · apply Array.toList_inj.1
    rw [Array.toList_append, output_run_unlimited, output_run_unlimited, output_run_unlimited,
      pieces_append closed, List.flatMap_append]
  · rw [result_run_unlimited, pieces_append closed, List.countP_append, List.countP_append]
  · rw [events_run_unlimited, lineEvents_run_unlimited]
  · rw [events_run_unlimited, lineEvents_run_unlimited]
  · rw [events_run_unlimited, lineEvents_run_unlimited, lineEvents_run_unlimited, pieces_append closed,
      reports_append, length_pieces closed, Nat.add_comm 1, reports_add, List.flatten_append,
      List.map_flatten, List.countP_append, List.countP_append]

/-- A sum and a line that is refused are followed by one more sum, which ends no line. -/
theorem run_append_sums :
    let bytes := "1 + 1\n2 +\n".toUTF8.data.toList
    let more := "1 + 2".toUTF8.data.toList
    bytes.getLast? = some lineFeed ∧
    (run ⟨bytes ++ more, none⟩ .unlimited).output = "2.00\n3.00\n".toUTF8.data := by
  have closed : "1 + 1\n2 +\n".toUTF8.data.toList.getLast? = some lineFeed := by decide
  refine ⟨closed, ?_⟩
  rw [(run_append (.inr closed) _).1]
  decide +kernel

end LineCalc.Batch
