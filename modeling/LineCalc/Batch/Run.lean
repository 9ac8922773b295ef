import LineCalc.Batch.Channel
import LineCalc.Lexeme
import LineCalc.Line

/-!
# Runs and what they report

A run evaluates every line by itself, writes the results and reports what happens.

## Events

What happens in a run is reported as events. Each has a level, a message and fields, and all but the
last one of a run belong to a line.
-/

namespace LineCalc.Batch

/-- How much an event matters, the least first. -/
inductive Level
  | debug | info | warn
deriving DecidableEq, Repr

/-- The place of a level in their order. A log has the levels from some place on. -/
def Level.weight : Level → Nat
  | debug => 0
  | info => 1
  | warn => 2

/-- The name of a level in a log. -/
def Level.name : Level → String
  | debug => "DEBUG"
  | info => "INFO"
  | warn => "WARN"

/-- The value of a field of an event. -/
inductive Field
  | number (n : Nat)
  | text (s : String)
deriving DecidableEq, Repr

/-- A value as it is logged. -/
def Field.toText : Field → String
  | number n => toString n
  | text s => s

/-- What is reported in a run. -/
inductive Event
  | converted (line : Nat) (source order : List Token)
  | skipped (line : Nat) (error : LineError) (expression : String)
  | undecodable (line : Nat)
  | finished (evaluated skipped : Nat)
deriving DecidableEq

namespace Event

/-- A conversion is a detail, the end of a run is news, and a skipped line is a warning. -/
def level : Event → Level
  | converted .. => .debug
  | skipped .. => .warn
  | undecodable .. => .warn
  | finished .. => .info

/-- What is logged of an event in front of its fields. -/
def message : Event → String
  | converted .. => "converted to postfix"
  | skipped _ error _ => error.message ++ " Skipping."
  | undecodable .. => "Line is not valid UTF-8. Skipping."
  | finished .. => "finished"

/-- The named values of the event. -/
def fields : Event → List (String × Field)
  | converted _ source order =>
    [("infix", .text (Token.listText source)), ("postfix", .text (Token.listText order))]
  | skipped line _ expression => [("line", .number line), ("expression", .text expression)]
  | undecodable line => [("line", .number line)]
  | finished good bad => [("evaluated", .number good), ("skipped", .number bad)]

/-- The number of the line that the event belongs to. -/
def line? : Event → Option Nat
  | converted line .. => some line
  | skipped line .. => some line
  | undecodable line => some line
  | finished .. => none

end Event

/-!
## Runs

A run goes through the lines of a source. A line with a value adds the written value to the sink, and
any other line is reported and skipped; neither touches the other lines. At the end the sink is flushed
once and the counts are reported. A fault of source or sink ends the run where it happens, and what was
written and reported before stays.
-/

/-- What one line contributes: its events in order, and its value. -/
structure Contribution where
  events : List Event
  value : Option Float

/-- A text contributes its conversion, if it has one, and then its value or a warning that quotes it. -/
def Contribution.ofText (number : Nat) (line : String) : Contribution :=
  let outcome := Line.outcome line
  let converted := outcome.conversion.toList.map fun (source, order) =>
    Event.converted number source order
  match outcome.value with
  | .ok value => ⟨converted, some value⟩
  | .error error => ⟨converted ++ [.skipped number error (Blank.trim line)], none⟩

/-- Bytes contribute what their text does. Without a text they contribute a warning that quotes nothing. -/
def Contribution.ofBytes (number : Nat) (line : List UInt8) : Contribution :=
  match text? line with
  | some text => .ofText number text
  | none => ⟨[.undecodable number], none⟩

/-- The bytes of a result on a line of its own. -/
def resultBytes (value : Float) : Array UInt8 := (Line.resultText value ++ "\n").toUTF8.data

/-- What has been written, reported and counted so far. -/
structure Progress where
  output : Array UInt8
  events : Array Event
  evaluated : Nat
  skipped : Nat

namespace Progress

/-- Nothing has been done before the first line. -/
def start : Progress := ⟨#[], #[], 0, 0⟩

/-- One more line. A fault comes with all that was done up to it. -/
def addLine (sink : Sink) (p : Progress) (line : List UInt8) :
    Except (Progress × Fault) Progress :=
  let contribution := Contribution.ofBytes (p.evaluated + p.skipped + 1) line
  let p := { p with events := p.events ++ contribution.events }
  match contribution.value with
  | none => .ok { p with skipped := p.skipped + 1 }
  | some value =>
    match sink.accept p.output (resultBytes value) with
    | (output, none) => .ok { p with output, evaluated := p.evaluated + 1 }
    | (output, some fault) => .error ({ p with output }, fault)

end Progress

/-- How many lines had a value and how many had none. -/
structure Counts where
  evaluated : Nat
  skipped : Nat
deriving DecidableEq, Repr

/-- All that can be seen of a run. -/
structure Run where
  output : Array UInt8
  events : Array Event
  flushes : Nat
  result : Except Fault Counts

namespace Run

/-- A run that a fault has ended keeps what was done before, and its end is not reported. -/
def stopped (p : Progress) (flushes : Nat) (fault : Fault) : Run :=
  ⟨p.output, p.events, flushes, .error fault⟩

/-- A run that has taken all lines reports its counts and was flushed once. -/
def finished (p : Progress) : Run :=
  ⟨p.output, p.events.push (.finished p.evaluated p.skipped), 1, .ok ⟨p.evaluated, p.skipped⟩⟩

end Run

/-- The lines of a source. A fault takes the unfinished last line with it. -/
def Source.lines (source : Source) : List (List UInt8) :=
  let cut := Cut.ofBytes source.bytes
  if source.fault.isSome then cut.finished else cut.lines

/-- The lines of a source, one after the other, up to the first fault of sink, source or flush. -/
def run (source : Source) (sink : Sink) : Run :=
  match source.lines.foldlM (Progress.addLine sink) Progress.start with
  | .error (p, fault) => .stopped p 0 fault
  | .ok p =>
    match source.fault with
    | some fault => .stopped p 0 fault
    | none =>
      match sink.flushFault with
      | some fault => .stopped p 1 fault
      | none => .finished p

end LineCalc.Batch
