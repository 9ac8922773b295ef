import LineCalc.CommandLine.Execution

/-!
# The command

The command carries out its arguments on the files of the system. Opening, creating, reading and writing
happen here; what is read, written and reported is decided by the library.
-/

namespace LineCalc.CommandLine

/-- An error of the system as a report says it. -/
def systemText (e : IO.Error) : String :=
  match e with
  | .noFileOrDirectory _ code details => details ++ " (os error " ++ toString code ++ ")"
  | .permissionDenied _ code details => details ++ " (os error " ++ toString code ++ ")"
  | .inappropriateType _ code details => details ++ " (os error " ++ toString code ++ ")"
  | .invalidArgument _ code details => details ++ " (os error " ++ toString code ++ ")"
  | .resourceExhausted _ code details => details ++ " (os error " ++ toString code ++ ")"
  | .otherError code details => details ++ " (os error " ++ toString code ++ ")"
  | e => toString e

/-- What can be read from an open file. -/
def readSource (file : IO.FS.Handle) : IO Batch.Source := do
  try
    return ⟨(← file.readBinToEnd).toList, none⟩
  catch e =>
    return ⟨[], some (.other (systemText e))⟩

/-- What a run has logged is shown, and it decides the exit code. -/
def report (options : Options) (run : Batch.Run) : IO UInt32 := do
  for line in options.logOf run do
    IO.eprintln line
  return UInt32.ofNat (Options.exitCodeOf run)

/-- Run an open file of expressions into a stream of results. -/
def process (options : Options) (input : IO.FS.Handle) (output : IO.FS.Stream) : IO UInt32 := do
  let run := Batch.run (← readSource input) .unlimited
  output.write ⟨run.output⟩
  output.flush
  report options run

/-- One file of expressions is read and run, and its results are written. -/
def evaluateFile (options : Options) : IO UInt32 := do
  let input? ← try some <$> IO.FS.Handle.mk options.input .read catch _ => pure none
  match input? with
  | none =>
    IO.eprintln (unopenedText options.input)
    return 1
  | some input =>
    try
      match options.destination with
      | .standardOutput => process options input (← IO.getStdout)
      | .file path => process options input (.ofHandle (← IO.FS.Handle.mk path .write))
    catch e =>
      IO.eprintln (failureText options.input (systemText e))
      return 1

/-- Carry out what the arguments ask for, and tell the exit code. -/
def perform (arguments : List String) : IO UInt32 := do
  match Command.ofArguments arguments with
  | .error e =>
    IO.eprintln e.message
    return 2
  | .ok .help =>
    IO.print helpText
    return 0
  | .ok .version =>
    IO.print versionText
    return 0
  | .ok (.evaluate options) => evaluateFile options

end LineCalc.CommandLine

/-- The arguments of the process are read and carried out. -/
def main (arguments : List String) : IO UInt32 :=
  LineCalc.CommandLine.perform arguments
