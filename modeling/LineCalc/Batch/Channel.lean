/-!
# What a run reads and writes

Bytes come from a source, are taken as lines and lead to other bytes for a sink.

## Sources and sinks

A run reads from a source and writes to a sink. Both may fail: a source after its bytes, a sink when it
is full or when it is flushed. A full sink still takes the first part of what does not fit.
-/

namespace LineCalc.Batch

/-- Why reading or writing stopped. -/
inductive Fault
  | nothingAccepted
  | other (message : String)
deriving DecidableEq, Repr

/-- What a report says of a fault. -/
def Fault.message : Fault → String
  | nothingAccepted => "failed to write whole buffer"
  | other message => message

/-- Bytes to read, and the fault that follows them if they do not just end. -/
structure Source where
  bytes : List UInt8
  fault : Option Fault

/-- How many bytes there is room for with the fault of a full sink, and the fault of a flush. -/
structure Sink where
  room : Option (Nat × Fault)
  flushFault : Option Fault

namespace Sink

/-- The sink that takes everything and is flushed without a fault. -/
def unlimited : Sink := ⟨none, none⟩

/-- What the sink holds after more bytes were offered, and the fault if they did not fit. -/
def accept (sink : Sink) (held offered : Array UInt8) : Array UInt8 × Option Fault :=
  match sink.room with
  | none => (held ++ offered, none)
  | some (room, fault) =>
    if held.size + offered.size ≤ room then (held ++ offered, none)
    else (held ++ offered.take (room - held.size), some fault)

end Sink

/-!
## Lines of bytes

Bytes are cut after each line feed. A line is handed on without its line feed and without one carriage
return before it. What follows the last line feed is a line only if it is not empty and the bytes have
ended there.
-/

/-- The byte that ends a line. -/
def lineFeed : UInt8 := 10

/-- The byte that is dropped from the end of a line. -/
def carriageReturn : UInt8 := 13

/-- Bytes cut into the lines that are finished and the rest after the last line feed. -/
structure Cut where
  finished : List (List UInt8)
  rest : List UInt8
deriving DecidableEq, Repr

namespace Cut

/-- The cut of bytes with one more in front: a line feed ends an empty line, and any other byte joins what it
stands in front of. -/
def cons (byte : UInt8) (cut : Cut) : Cut :=
  if byte = lineFeed then { cut with finished := [] :: cut.finished }
  else
    match cut.finished with
    | [] => { cut with rest := byte :: cut.rest }
    | line :: lines => { cut with finished := (byte :: line) :: lines }

/-- Bytes cut from the right, one byte at a time. -/
def ofBytes (bytes : List UInt8) : Cut := bytes.foldr cons ⟨[], []⟩

/-- All lines, once the bytes have ended. -/
def lines (cut : Cut) : List (List UInt8) :=
  cut.finished ++ if cut.rest.isEmpty then [] else [cut.rest]

/-- The finished lines with their line feeds, and the rest, put together are the bytes. -/
theorem join_ofBytes (bytes : List UInt8) :
    (ofBytes bytes).finished.flatMap (· ++ [lineFeed]) ++ (ofBytes bytes).rest = bytes := by
  induction bytes with
  | nil => rfl
  | cons byte bytes ih =>
    have split : ofBytes (byte :: bytes) = cons byte (ofBytes bytes) := rfl
    rw [split]
    generalize ofBytes bytes = cut at ih
    subst ih
    unfold cons
    split
    · simp_all
    · cases cut.finished <;> simp

end Cut

/-- A line without the carriage return at its end. -/
def dropReturn (line : List UInt8) : List UInt8 :=
  if line.getLast? = some carriageReturn then line.dropLast else line

/-- The text of a line, if its bytes are UTF-8. -/
def text? (line : List UInt8) : Option String := String.fromUTF8? ⟨(dropReturn line).toArray⟩

end LineCalc.Batch
