/-!
# Arguments

A command names one file of expressions and says where its results go and how much is reported. Short
flags may be bundled, and an option's value is attached to it, with or without an equals sign, or follows
as the next argument unless that looks like an option. Arguments are taken from left to right; asking for
help or for the version ends the reading, and what is wrong before that is wrong all the same.
-/

namespace LineCalc.CommandLine

/-- Where results are written. -/
inductive Destination
  | standardOutput
  | file (path : String)
deriving DecidableEq, Repr

/-- What a command asks for when it asks for results. -/
structure Options where
  input : String
  destination : Destination
  verbosity : Nat
deriving DecidableEq, Repr

/-- What the arguments ask for. -/
inductive Command
  | help
  | version
  | evaluate (options : Options)
deriving DecidableEq, Repr

/-- Why arguments are refused. -/
inductive UsageError
  | inputMissing
  | emptyValue (name : String)
  | valueMissing (name : String)
  | unexpectedValue (name : String)
  | unexpectedArgument (argument : String)
  | repeated (name : String)
  | conflict
deriving DecidableEq, Repr

/-- What is shown of refused arguments. -/
def UsageError.message : UsageError → String
  | inputMissing => "error: the argument <INPUT> is missing"
  | emptyValue name => "error: the value of " ++ name ++ " is empty"
  | valueMissing name => "error: the value of " ++ name ++ " is missing"
  | unexpectedValue name => "error: " ++ name ++ " takes no value"
  | unexpectedArgument argument => "error: unexpected argument '" ++ argument ++ "'"
  | repeated name => "error: " ++ name ++ " is given more than once"
  | conflict => "error: --stdout cannot be used with --output"

namespace Arguments

/-- The file for the results where no other place is given. -/
def defaultOutput : String := "out.txt"

/-- What the arguments so far have said. -/
structure Draft where
  input : Option String
  output : Option String
  toStandardOutput : Bool
  verbosity : Nat
  awaitsOutput : Bool
  optionsEnded : Bool
deriving DecidableEq, Repr

/-- No argument has been read. -/
def Draft.start : Draft := ⟨none, none, false, 0, false, false⟩

/-- What ends the reading of arguments early. -/
inductive Interruption
  | help
  | version
  | usage (e : UsageError)
deriving DecidableEq, Repr

/-- The arguments read so far, unless the reading has ended before the last one. -/
abbrev Reading := Except Interruption Draft

namespace Draft

/-- The reading ends with an error. -/
def refuse (e : UsageError) : Reading := .error (.usage e)

/-- The file of expressions, which is given once and not as an empty text. -/
def setInput (d : Draft) (value : String) : Reading :=
  if d.input.isSome then refuse (.unexpectedArgument value)
  else if value = "" then refuse (.emptyValue "<INPUT>")
  else .ok { d with input := some value }

/-- The file for the results, which is given once and not as an empty text. It is no longer waited for. -/
def setOutput (d : Draft) (value : String) : Reading :=
  if d.output.isSome then refuse (.repeated "--output")
  else if value = "" then refuse (.emptyValue "--output")
  else .ok { d with output := some value, awaitsOutput := false }

/-- Results go to standard output, which is asked for once. -/
def setStandardOutput (d : Draft) : Reading :=
  if d.toStandardOutput then refuse (.repeated "--stdout")
  else .ok { d with toStandardOutput := true }

/-- Each flag raises the verbosity by one. -/
def raiseVerbosity (d : Draft) : Draft := { d with verbosity := d.verbosity + 1 }

/-- Short flags bundled behind one dash. -/
def shortFlags (d : Draft) : List Char → Reading
  | [] => .ok d
  | 'v' :: rest => d.raiseVerbosity.shortFlags rest
  | 'h' :: _ => .error .help
  | 'V' :: _ => .error .version
  | ['o'] => .ok { d with awaitsOutput := true }
  | 'o' :: '=' :: value => d.setOutput (String.ofList value)
  | 'o' :: value => d.setOutput (String.ofList value)
  | c :: _ => refuse (.unexpectedArgument ("-" ++ c.toString))

/-- A long option without its dashes, and the value behind its equals sign if it has one. -/
def longOption (d : Draft) (name : List Char) (value? : Option (List Char)) : Reading :=
  match String.ofList name, value? with
  | "output", some value => d.setOutput (String.ofList value)
  | "output", none => .ok { d with awaitsOutput := true }
  | "stdout", none => d.setStandardOutput
  | "verbose", none => .ok d.raiseVerbosity
  | "help", none => .error .help
  | "version", none => .error .version
  | name, some _ =>
    if name ∈ ["stdout", "verbose", "help", "version"] then refuse (.unexpectedValue ("--" ++ name))
    else refuse (.unexpectedArgument ("--" ++ name))
  | name, none => refuse (.unexpectedArgument ("--" ++ name))

/-- What stands before the first equals sign, and what stands behind it. -/
def splitValue (option : List Char) : List Char × Option (List Char) :=
  match option.dropWhile (· != '=') with
  | _ :: value => (option.takeWhile (· != '='), some value)
  | [] => (option, none)

/-- One more argument. A single dash is a value like any other. -/
def argument (d : Draft) (text : String) : Reading :=
  if d.optionsEnded then d.setInput text
  else
    match text.toList with
    | '-' :: c :: rest =>
      if d.awaitsOutput then refuse (.valueMissing "--output")
      else if c = '-' then
        if rest.isEmpty then .ok { d with optionsEnded := true }
        else d.longOption (splitValue rest).1 (splitValue rest).2
      else d.shortFlags (c :: rest)
    | _ => if d.awaitsOutput then d.setOutput text else d.setInput text

/-- All arguments have been read. No value may be missing, there has to be a file of expressions, and results
go to one place only. -/
def finish (d : Draft) : Except UsageError Command :=
  if d.awaitsOutput then .error (.valueMissing "--output")
  else
    match d.input, d.output, d.toStandardOutput with
    | none, _, _ => .error .inputMissing
    | some _, some _, true => .error .conflict
    | some input, none, true => .ok (.evaluate ⟨input, .standardOutput, d.verbosity⟩)
    | some input, output, false =>
      .ok (.evaluate ⟨input, .file (output.getD defaultOutput), d.verbosity⟩)

end Draft

end Arguments

/-- The command that arguments stand for. -/
def Command.ofArguments (arguments : List String) : Except UsageError Command :=
  match arguments.foldlM Arguments.Draft.argument .start with
  | .error .help => .ok .help
  | .error .version => .ok .version
  | .error (.usage e) => .error e
  | .ok draft => draft.finish

end LineCalc.CommandLine
