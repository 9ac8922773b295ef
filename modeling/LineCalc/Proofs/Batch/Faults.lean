import LineCalc.Proofs.Batch.Run
import Mathlib.Data.List.DropRight

/-!
# Faults cut a run short

A full sink keeps the first part of the results, a source that fails takes its unfinished last line with
it, and a flush may fail when all is done. None of this touches what was written or reported before: the
output of a run with faults is the first part of the output without them, and so are its events. The run
ends with the fault that comes first, that of the full sink before that of the source, and that of the
source before that of the flush.
-/

namespace LineCalc.Batch

/-- The bytes that make lines: all of them, or those up to the last line feed if the source fails. -/
def Source.readable (source : Source) : List UInt8 :=
  if source.fault.isSome then source.bytes.rdropWhile (· != lineFeed) else source.bytes

section Readable

/-- What is dropped from the end reaches the first element only if it takes all the others. -/
lemma rdropWhile_cons {α : Type} (p : α → Bool) (a : α) (l : List α) :
    (a :: l).rdropWhile p = if l.rdropWhile p = [] ∧ p a then [] else a :: l.rdropWhile p := by
  rw [List.rdropWhile, List.reverse_cons, List.dropWhile_append, List.rdropWhile]
  cases l.reverse.dropWhile p with
  | nil => cases dropped : p a <;> simp [dropped]
  | cons b kept => simp

namespace Cut

/-- A cut is made one byte at a time, from the right. -/
lemma ofBytes_cons (byte : UInt8) (bytes : List UInt8) :
    ofBytes (byte :: bytes) = cons byte (ofBytes bytes) := rfl

/-- Without the rest after the last line feed the finished lines are the same. -/
lemma ofBytes_rdropWhile (bytes : List UInt8) :
    ofBytes (bytes.rdropWhile (· != lineFeed)) = ⟨(ofBytes bytes).finished, []⟩ := by
  induction bytes with
  | nil => rfl
  | cons byte bytes ih =>
    rw [rdropWhile_cons, ofBytes_cons]
    split
    case isTrue last =>
      -- There is no line feed at all, so no line is finished.
      have none : (ofBytes bytes).finished = [] := by
        rw [last.1] at ih
        exact (congrArg finished ih).symm
      rw [cons, if_neg (bne_iff_ne.1 last.2), none]
      rfl
    case isFalse more =>
      rw [ofBytes_cons, ih]
      generalize found : (ofBytes bytes).finished = lines at ih ⊢
      by_cases feed : byte = lineFeed
      · rw [cons, cons, if_pos feed, if_pos feed, found]
      · cases lines with
        | nil =>
          have none := join_ofBytes (bytes.rdropWhile (· != lineFeed))
          rw [ih] at none
          exact absurd ⟨none.symm, bne_iff_ne.2 feed⟩ more
        | cons line lines => rw [cons, cons, if_neg feed, if_neg feed, found]

end Cut

variable (source : Source)

/-- The lines of a source are the pieces of what can be read of it. -/
lemma lines_eq_pieces : source.lines = pieces source.readable := by
  rw [← Cut.lines_ofBytes, Source.lines, Source.readable]
  cases source.fault with
  | none => rfl
  | some fault =>
    change _ = (Cut.ofBytes (source.bytes.rdropWhile (· != lineFeed))).lines
    rw [Cut.ofBytes_rdropWhile]
    exact (List.append_nil _).symm

/-- The lines that can be read are the first of all lines. -/
lemma lines_prefix_pieces : source.lines <+: pieces source.bytes := by
  rw [← Cut.lines_ofBytes, Source.lines]
  cases source.fault with
  | none => exact List.prefix_rfl
  | some fault => exact List.prefix_append _ _

end Readable

namespace Sink

/-- The fault of a sink that is offered this many bytes in all, if it has no room for them. -/
def overflow? (sink : Sink) (size : Nat) : Option Fault :=
  match sink.room with
  | none => none
  | some (room, fault) => if size ≤ room then none else some fault

/-- The first of the bytes offered, as many as there is room for. -/
def taken (sink : Sink) (offered : List UInt8) : List UInt8 :=
  match sink.room with
  | none => offered
  | some (room, _) => offered.take (min room offered.length)

variable {sink : Sink} {held : Array UInt8} {offered : List UInt8} {size : Nat} {fault : Fault}

/-- A size fits if it is within every room. -/
lemma overflow?_eq_none_iff :
    sink.overflow? size = none ↔ ∀ room fault, sink.room = some (room, fault) → size ≤ room := by
  rw [overflow?]
  cases sink.room with
  | none => exact ⟨fun _ _ _ limited => (nomatch limited), fun _ => rfl⟩
  | some limit =>
    rw [ite_eq_left_iff]
    constructor
    · intro fits room fault limited
      cases limited
      exact not_not.1 fun beyond => nomatch fits beyond
    · exact fun fits beyond => absurd (fits limit.1 limit.2 rfl) beyond

/-- A size does not fit if it is beyond the room, and the fault is that of the room. -/
lemma overflow?_eq_some_iff :
    sink.overflow? size = some fault ↔ ∃ room < size, sink.room = some (room, fault) := by
  rw [overflow?]
  cases sink.room with
  | none => simp
  | some limit =>
    obtain ⟨room, full⟩ := limit
    simp only [Option.ite_none_left_eq_some, Option.some.injEq, Prod.mk.injEq, not_le]
    constructor
    · exact fun ⟨beyond, same⟩ => ⟨room, beyond, rfl, same⟩
    · rintro ⟨_, beyond, rfl, same⟩
      exact ⟨beyond, same⟩

/-- What does not fit does not fit with more. -/
lemma overflow?_of_le {more : Nat} (full : sink.overflow? size = some fault) (le : size ≤ more) :
    sink.overflow? more = some fault := by
  obtain ⟨room, beyond, limited⟩ := overflow?_eq_some_iff.1 full
  exact overflow?_eq_some_iff.2 ⟨room, beyond.trans_le le, limited⟩

/-- What fits is taken whole. -/
lemma taken_of_fits (fits : sink.overflow? offered.length = none) : sink.taken offered = offered := by
  rw [taken]
  cases limited : sink.room with
  | none => rfl
  | some limit =>
    have le := overflow?_eq_none_iff.1 fits limit.1 limit.2 limited
    exact List.take_of_length_le (Nat.le_min.2 ⟨le, Nat.le_refl _⟩)

/-- A full sink takes nothing of what follows. -/
lemma taken_append (full : sink.overflow? offered.length = some fault) (more : List UInt8) :
    sink.taken (offered ++ more) = sink.taken offered := by
  obtain ⟨room, beyond, limited⟩ := overflow?_eq_some_iff.1 full
  rw [taken, taken, limited, List.length_append]
  dsimp only
  rw [Nat.min_eq_left (by omega), Nat.min_eq_left beyond.le, List.take_append_of_le_length beyond.le]

/-- What a sink holds in the end depends on all that it was offered, not on the pieces. -/
lemma accept_eq (fits : sink.overflow? held.size = none) (offered : Array UInt8) :
    sink.accept held offered =
      ((sink.taken (held ++ offered).toList).toArray, sink.overflow? (held ++ offered).size) := by
  rw [accept, taken, overflow?, Array.size_append]
  cases limited : sink.room with
  | none => rfl
  | some limit =>
    obtain ⟨room, fault⟩ := limit
    have le := overflow?_eq_none_iff.1 fits room fault limited
    dsimp only
    split
    case isTrue enough =>
      rw [List.take_of_length_le]
      rw [Array.length_toList, Array.size_append]
      exact Nat.le_min.2 ⟨enough, Nat.le_refl _⟩
    case isFalse beyond =>
      rw [Array.length_toList, Array.size_append, Nat.min_eq_left (by omega)]
      congr 1
      apply Array.toList_inj.1
      simp [List.take_append, List.take_of_length_le, le]

/-- So a result and its line feed may be offered one after the other. -/
theorem accept_append (fits : sink.overflow? held.size = none) (first second : Array UInt8) :
    sink.accept held (first ++ second) =
      match sink.accept held first with
      | (held', none) => sink.accept held' second
      | (held', some fault) => (held', some fault) := by
  rw [accept_eq fits, accept_eq fits, ← Array.append_assoc]
  cases full : sink.overflow? (held ++ first).size with
  | none =>
    rw [taken_of_fits full, Array.toArray_toList]
    exact (accept_eq full second).symm
  | some fault =>
    have more : (held ++ first).size ≤ (held ++ first ++ second).size := by
      simp only [Array.size_append, Nat.le_add_right]
    rw [Array.toList_append, taken_append full, overflow?_of_le full more]

end Sink

namespace Progress

variable {sink : Sink} {p : Progress}

/-- More lines leave what was written. -/
lemma prefix_output_advance (p : Progress) (lines : List (List UInt8)) :
    p.output.toList <+: (p.advance lines).output.toList := by
  rw [advance, Array.toList_append]
  exact List.prefix_append _ _

/-- More lines leave what was reported. -/
lemma prefix_events_advance (p : Progress) (lines : List (List UInt8)) :
    p.events.toList <+: (p.advance lines).events.toList := by
  rw [advance, Array.toList_append]
  exact List.prefix_append _ _

/-- Lines may be taken in two parts. -/
lemma advance_append (p : Progress) (lines more : List (List UInt8)) :
    (p.advance lines).advance more = p.advance (lines ++ more) := by
  induction lines generalizing p with
  | nil => rw [advance_nil, List.nil_append]
  | cons line lines ih => rw [← advance_cons, ih, advance_cons, List.cons_append]

/-- One more line is taken as without faults, unless the sink is full with its result. -/
lemma addLine_eq (fits : sink.overflow? p.output.size = none) (line : List UInt8) :
    p.addLine sink line =
      match sink.overflow? (p.advance [line]).output.size with
      | none => .ok (p.advance [line])
      | some fault =>
        .error ({ p with
          output := (sink.taken (p.advance [line]).output.toList).toArray
          events := (p.advance [line]).events }, fault) := by
  have unlimited := addLine_unlimited p line
  rw [addLine, Contribution.value_ofBytes] at unlimited ⊢
  cases answered : answer? line with
  | none =>
    rw [answered] at unlimited
    rw [← Except.ok.inj unlimited]
    dsimp only
    rw [fits]
  | some v =>
    rw [answered] at unlimited
    dsimp only
    rw [← Except.ok.inj unlimited, Sink.accept_eq fits]
    dsimp only [Sink.accept, Sink.unlimited]
    cases full : sink.overflow? (p.output ++ resultBytes v).size with
    | none => rw [Sink.taken_of_fits full, Array.toArray_toList]
    | some fault => rfl

/-- Lines are taken as without faults, up to the one with which the sink is full. -/
lemma foldlM_addLine (fits : sink.overflow? p.output.size = none) (lines : List (List UInt8)) :
    match sink.overflow? (p.advance lines).output.size with
    | none => lines.foldlM (addLine sink) p = .ok (p.advance lines)
    | some fault => ∃ q, lines.foldlM (addLine sink) p = .error (q, fault) ∧
      q.output.toList = sink.taken (p.advance lines).output.toList ∧
      q.events.toList <+: (p.advance lines).events.toList := by
  induction lines generalizing p with
  | nil =>
    rw [advance_nil, fits]
    rfl
  | cons line lines ih =>
    rw [List.foldlM_cons, addLine_eq fits, ← advance_cons]
    cases full : sink.overflow? (p.advance [line]).output.size with
    | none => exact ih full
    | some fault =>
      -- The sink stays full, and what follows does not change what it has taken.
      obtain ⟨more, output⟩ := prefix_output_advance (p.advance [line]) lines
      rw [← Array.length_toList] at full
      have later : sink.overflow? ((p.advance [line]).advance lines).output.size = some fault := by
        apply Sink.overflow?_of_le full
        rw [← Array.length_toList, ← output, List.length_append]
        exact Nat.le_add_right _ _
      rw [later]
      refine ⟨_, rfl, ?_, prefix_events_advance (p.advance [line]) lines⟩
      rw [← output, Sink.taken_append full]

end Progress

section Runs

/-- The fault that a run with this many bytes of results meets first. -/
def firstFault? (source : Source) (sink : Sink) (size : Nat) : Option Fault :=
  (sink.overflow? size).or (source.fault.or sink.flushFault)

/-- How often a sink is flushed: once if all lines were read and written, and else never. -/
def flushesOf (source : Source) (sink : Sink) (size : Nat) : Nat :=
  if source.fault = none ∧ sink.overflow? size = none then 1 else 0

variable (source : Source) (sink : Sink)

/-- No fault comes first if source and flush have none and all fits. -/
lemma firstFault?_eq_none_iff {size : Nat} :
    firstFault? source sink size = none ↔ source.fault = none ∧ sink.flushFault = none ∧
      ∀ room fault, sink.room = some (room, fault) → size ≤ room := by
  rw [firstFault?, Option.or_eq_none_iff, Option.or_eq_none_iff, Sink.overflow?_eq_none_iff]
  constructor
  · exact fun ⟨fits, read, flushed⟩ => ⟨read, flushed, fits⟩
  · exact fun ⟨read, flushed, fits⟩ => ⟨fits, read, flushed⟩

/-- What has been done when all lines that can be read are taken. -/
def Source.done : Progress := Progress.start.advance source.lines

/-- A run ends with all lines done, or with its first fault and a first part of that. -/
lemma run_cases :
    (firstFault? source sink source.done.output.size = none ∧ run source sink = .finished source.done) ∨
    ∃ fault q, firstFault? source sink source.done.output.size = some fault ∧
      run source sink = .stopped q (flushesOf source sink source.done.output.size) fault ∧
      q.output.toList = sink.taken source.done.output.toList ∧
      q.events.toList <+: source.done.events.toList := by
  have empty : sink.overflow? Progress.start.output.size = none :=
    Sink.overflow?_eq_none_iff.2 fun room _ _ => Nat.zero_le room
  have lines := Progress.foldlM_addLine empty source.lines
  rw [← Source.done] at lines
  rw [firstFault?, flushesOf, run]
  -- A fault of the sink comes first, then that of the source, then that of the flush.
  cases full : sink.overflow? source.done.output.size with
  | some fault =>
    rw [full] at lines
    obtain ⟨q, stopped, output, events⟩ := lines
    rw [stopped]
    exact .inr ⟨fault, q, rfl, by simp, output, events⟩
  | none =>
    rw [full] at lines
    have output : source.done.output.toList = sink.taken source.done.output.toList :=
      (Sink.taken_of_fits full).symm
    change _ = Except.ok source.done at lines
    rw [lines]
    cases failed : source.fault with
    | some fault => exact .inr ⟨fault, source.done, rfl, by simp, output, List.prefix_rfl⟩
    | none =>
      cases flush : sink.flushFault with
      | some fault => exact .inr ⟨fault, source.done, rfl, by simp, output, List.prefix_rfl⟩
      | none => exact .inl ⟨rfl, rfl⟩

/-- What can be read is written whole where nothing fails. -/
lemma output_run_readable : (run ⟨source.readable, none⟩ .unlimited).output = source.done.output := by
  rw [run_unlimited, ← lines_eq_pieces]
  rfl

/-- A run writes as much of its results as its sink takes. -/
lemma toList_output_run : (run source sink).output.toList = sink.taken source.done.output.toList := by
  rcases run_cases source sink with ⟨free, ends⟩ | ⟨fault, q, _, ends, output, _⟩
  · have fits := Sink.overflow?_eq_none_iff.2 ((firstFault?_eq_none_iff source sink).1 free).2.2
    rw [ends]
    exact (Sink.taken_of_fits fits).symm
  · rw [ends]
    exact output

/-- The events of the lines that can be read are the first of all events. -/
lemma prefix_events_done :
    source.done.events.toList <+: (run ⟨source.bytes, none⟩ .unlimited).events.toList := by
  obtain ⟨more, all⟩ := lines_prefix_pieces source
  rw [run_unlimited, Run.finished, Array.toList_push, ← all, ← Progress.advance_append]
  exact (Progress.prefix_events_advance source.done more).trans (List.prefix_append _ _)

/-- The report of a run is the first part of what it would be if nothing failed. -/
lemma prefix_events_run :
    (run source sink).events.toList <+: (run ⟨source.bytes, none⟩ .unlimited).events.toList := by
  rcases run_cases source sink with ⟨free, ends⟩ | ⟨fault, q, _, ends, _, events⟩
  · have all : pieces source.bytes = source.lines := by
      rw [lines_eq_pieces, Source.readable, ((firstFault?_eq_none_iff source sink).1 free).1]
      rfl
    rw [ends, run_unlimited, all]
    exact List.prefix_rfl
  · rw [ends]
    exact events.trans (prefix_events_done source)

/-- A run fails with its first fault. -/
lemma result_run_eq_error_iff {fault : Fault} :
    (run source sink).result = .error fault ↔
      firstFault? source sink source.done.output.size = some fault := by
  rcases run_cases source sink with ⟨free, ends⟩ | ⟨fault, q, first, ends, _, _⟩
  · rw [ends, free]
    constructor
    · intro result
      cases result
    · intro first
      cases first
  · rw [ends, first]
    constructor
    · exact fun result => congrArg some (Except.error.inj result)
    · exact fun same => congrArg Except.error (Option.some.inj same)

/-- A run comes to its end if it has no fault. -/
lemma exists_result_run_eq_ok_iff :
    (∃ counts, (run source sink).result = .ok counts) ↔
      firstFault? source sink source.done.output.size = none := by
  constructor
  · rintro ⟨counts, result⟩
    cases first : firstFault? source sink source.done.output.size with
    | none => rfl
    | some fault =>
      rw [(result_run_eq_error_iff source sink).2 first] at result
      cases result
  · intro free
    rcases run_cases source sink with ⟨_, ends⟩ | ⟨fault, q, first, _⟩
    · exact ⟨_, congrArg Run.result ends⟩
    · rw [free] at first
      cases first

/-- A sink is flushed once unless a fault of sink or source comes before. -/
lemma flushes_run : (run source sink).flushes = flushesOf source sink source.done.output.size := by
  rcases run_cases source sink with ⟨free, ends⟩ | ⟨fault, q, _, ends, _, _⟩
  · obtain ⟨read, _, room⟩ := (firstFault?_eq_none_iff source sink).1 free
    rw [ends]
    exact (if_pos ⟨read, Sink.overflow?_eq_none_iff.2 room⟩).symm
  · rw [ends]
    rfl

/-- The end of a run is not reported with any line. -/
lemma finished_notMem_done (evaluated skipped : Nat) :
    .finished evaluated skipped ∉ source.done.events.toList := by
  intro mem
  change _ ∈ (#[] ++ (reports 1 source.lines).flatten.toArray).toList at mem
  rw [Array.empty_append] at mem
  obtain ⟨group, inside, mem⟩ := List.mem_flatten.1 mem
  obtain ⟨⟨line, number⟩, _, rfl⟩ := List.mem_map.1 inside
  cases (accounts_ofBytes number line).numbered _ mem

/-- The end of a run is reported if and only if the run is not stopped, and with its counts. -/
lemma finished_mem_run_iff (evaluated skipped : Nat) :
    .finished evaluated skipped ∈ (run source sink).events ↔
      (run source sink).result = .ok ⟨evaluated, skipped⟩ := by
  have unfinished := finished_notMem_done source evaluated skipped
  rcases run_cases source sink with ⟨_, ends⟩ | ⟨fault, q, _, ends, _, events⟩
  · rw [ends, Run.finished, Array.mem_push, ← Array.mem_toList_iff]
    constructor
    · rintro (mem | last)
      · exact absurd mem unfinished
      · cases last
        rfl
    · intro result
      cases result
      exact .inr rfl
  · rw [ends]
    constructor
    · exact fun mem => absurd (events.subset (Array.mem_toList_iff.2 mem)) unfinished
    · intro result
      cases result

/-- A run with faults writes and reports the first part of what it would without them, and it ends with
the first of its faults. -/
theorem run_cut_short (source : Source) (sink : Sink) :
    let whole := (run ⟨source.readable, none⟩ .unlimited).output.toList
    (run source sink).output.toList = sink.taken whole ∧
    (run source sink).events.toList <+: (run ⟨source.bytes, none⟩ .unlimited).events.toList ∧
    ((∃ counts, (run source sink).result = .ok counts) ↔
      source.fault = none ∧ sink.flushFault = none ∧
        ∀ room fault, sink.room = some (room, fault) → whole.length ≤ room) ∧
    (∀ fault, (run source sink).result = .error fault ↔
      firstFault? source sink whole.length = some fault) ∧
    (run source sink).flushes = flushesOf source sink whole.length ∧
    ∀ evaluated skipped, .finished evaluated skipped ∈ (run source sink).events ↔
      (run source sink).result = .ok ⟨evaluated, skipped⟩ := by
  dsimp only
  rw [output_run_readable, Array.length_toList, ← firstFault?_eq_none_iff]
  exact ⟨toList_output_run source sink, prefix_events_run source sink,
    exists_result_run_eq_ok_iff source sink, fun _ => result_run_eq_error_iff source sink,
    flushes_run source sink, finished_mem_run_iff source sink⟩

end Runs

end LineCalc.Batch
