import LineCalc.Batch.Run
import LineCalc.CommandLine.Arguments
import LineCalc.CommandLine.Directory

/-!
# Execution

A command reads and changes the files of a directory, and logs the events of its run.

## The log

Events are written as lines of level, message and fields. How much is written depends on the verbosity:
warnings, then the summary of a run as well, then every conversion. With the last the line that an event
belongs to stands in front of its message.
-/

namespace LineCalc.CommandLine.Log

open Batch (Event Level)

/-- The least level that is written. -/
def threshold (verbosity : Nat) : Level :=
  match verbosity with
  | 0 => .warn
  | 1 => .info
  | _ => .debug

/-- Whether an event weighs enough to be logged. -/
def isWritten (threshold : Level) (e : Event) : Bool := threshold.weight ≤ e.level.weight

/-- Control characters that a terminal would act on are spelled out in messages. -/
def escapeChar (c : Char) : List Char :=
  if c ∈ ['\x07', '\x08', '\x0c', '\x1b', '\x7f'] then
    '\\' :: 'x' :: (Nat.toDigits 16 c.toNat).leftpad 2 '0'
  else if 0x80 ≤ c.toNat ∧ c.toNat ≤ 0x9f then
    '\\' :: 'u' :: '\x7b' :: Nat.toDigits 16 c.toNat ++ ['\x7d']
  else [c]

/-- A message on one line: what would end the line or could not be seen is spelled out. -/
def escape (message : String) : String := String.ofList (message.toList.flatMap escapeChar)

/-- The line that an event belongs to, where it is shown. -/
def context (threshold : Level) (e : Event) : String :=
  match threshold, e.line? with
  | .debug, some number => "line\x7bnumber=" ++ toString number ++ "\x7d: "
  | _, _ => ""

/-- The line of an event in a log. Among details it starts with the line that the event belongs to. -/
def line (threshold : Level) (e : Event) : String :=
  e.level.name ++ " " ++ context threshold e ++ escape e.message ++
    String.join (e.fields.map fun (name, value) => " " ++ name ++ "=" ++ value.toText)

/-- The log of events at a verbosity. -/
def lines (verbosity : Nat) (events : Array Event) : List String :=
  (events.toList.filter (isWritten (threshold verbosity))).map (line (threshold verbosity))

end LineCalc.CommandLine.Log

/-!
## Execution of commands

A command is carried out in a directory. The file of expressions is opened first, then the file for the
results is created or emptied, and only then are the expressions read. So a file that serves as both is
read as an empty one, and a directory in the place of expressions is noticed when the results' file is
there already.
-/

namespace LineCalc.CommandLine

/-- All that can be seen of a command that was carried out. -/
structure Response where
  exitCode : Nat
  output : Array UInt8
  log : List String
  directory : Directory

/-- What is shown when help is asked for. -/
def helpText : String :=
  "A line-oriented infix expression calculator built on the shunting-yard algorithm\n" ++
  "\n" ++
  "Usage: shunt [OPTIONS] <INPUT>\n" ++
  "\n" ++
  "Arguments:\n" ++
  "  <INPUT>  File holding one expression per line\n" ++
  "\n" ++
  "Options:\n" ++
  "  -o, --output <OUTPUT>  Where to write the results [default: out.txt]\n" ++
  "      --stdout           Write results to standard output instead of a file\n" ++
  "  -v, --verbose...       Raise the log level; repeat for more detail\n" ++
  "  -h, --help             Print help\n" ++
  "  -V, --version          Print version\n"

/-- What is shown when the version is asked for. -/
def versionText : String := "shunt 0.1.0\n"

/-- What is shown of a file of expressions that was not found. -/
def unopenedText (input : String) : String := "'" ++ input ++ "' does not exist."

/-- What is shown of a run that did not come to its end. -/
def failureText (input message : String) : String :=
  "Failed to process '" ++ input ++ "': " ++ message

/-- What can be read at a place. A directory fails as soon as it is read. -/
def Directory.source (d : Directory) (place : Place) : Batch.Source :=
  match d.entryAt? place with
  | some (.file content) => ⟨content, none⟩
  | _ => ⟨[], some (.other PathError.isDirectory.message)⟩

/-- How many bytes are collected before they are written to a file. -/
def bufferSize : Nat := 8192

/-- Why nothing can be written where there is no room. -/
def noRoom : Batch.Fault := .other "No space left on device (os error 28)"

/--
Run through a source into what a place holds. A device without room is found out when the collected
bytes are written to it, so not at all by a run without results.
-/
def runInto (source : Batch.Source) (place : Place) : Batch.Run :=
  let run := Batch.run source .unlimited
  if place = .full ∧ ¬run.output.isEmpty then
    Batch.run source ⟨some (bufferSize, noRoom), some noRoom⟩
  else run

namespace Options

/-- The lines that a run leaves in the log, the last one telling why it failed. -/
def logOf (options : Options) (run : Batch.Run) : List String :=
  Log.lines options.verbosity run.events ++
    match run.result with
    | .ok _ => []
    | .error fault => [failureText options.input fault.message]

/-- A run that came to its end was a success. -/
def exitCodeOf (run : Batch.Run) : Nat :=
  match run.result with
  | .ok _ => 0
  | .error _ => 1

/-- The file of expressions is found, the place for the results is made ready, and the lines are run into it. -/
def execute (options : Options) (d : Directory) : Response :=
  match d.find options.input with
  | .error _ => ⟨1, #[], [unopenedText options.input], d⟩
  | .ok input =>
    match options.destination with
    | .standardOutput =>
      let run := Batch.run (d.source input) .unlimited
      ⟨exitCodeOf run, run.output, options.logOf run, d⟩
    | .file path =>
      match d.findForWriting path with
      | .error e => ⟨1, #[], [failureText options.input e.message], d⟩
      | .ok place =>
        let emptied := d.write place []
        let run := runInto (emptied.source input) place
        let shown := if place = .standardOutput then run.output else #[]
        ⟨exitCodeOf run, shown, options.logOf run, emptied.write place run.output.toList⟩

end Options

/-- A command is refused, shown a text for, or carried out. -/
def execute (arguments : List String) (d : Directory) : Response :=
  match Command.ofArguments arguments with
  | .error e => ⟨2, #[], [e.message], d⟩
  | .ok .help => ⟨0, helpText.toUTF8.data, [], d⟩
  | .ok .version => ⟨0, versionText.toUTF8.data, [], d⟩
  | .ok (.evaluate options) => options.execute d

end LineCalc.CommandLine
