import LineCalc.CommandLine.Arguments
import Mathlib.Logic.Basic
import Mathlib.Tactic.Lemma

/-!
# What arguments say

A text that looks like no option is a value where it stands. The flags that raise the verbosity do nothing
else: what follows them is read as without them, or refused as without them, and the command differs in
its verbosity alone.
-/

namespace LineCalc.CommandLine

/-- The same options with more to be reported. -/
def Options.louder (n : Nat) (options : Options) : Options :=
  { options with verbosity := options.verbosity + n }

/-- The same command with more to be reported, if it reports anything. -/
def Command.louder (n : Nat) : Command → Command
  | evaluate options => evaluate (options.louder n)
  | help => help
  | version => version

namespace Arguments

/-- A text that is not empty and does not look like an option. -/
structure IsValue (text : String) : Prop where
  nonempty : text ≠ ""
  no_option : ∀ c rest, text.toList ≠ '-' :: c :: rest

namespace Draft

/-- The same arguments with more to be reported. -/
def louder (n : Nat) (d : Draft) : Draft := { d with verbosity := d.verbosity + n }

/-- A value is the place for the results where that is waited for, and else the file of expressions. -/
lemma argument_of_isValue {d : Draft} {text : String} (value : IsValue text)
    (reading : d.optionsEnded = false) :
    d.argument text = if d.awaitsOutput then d.setOutput text else d.setInput text := by
  rw [argument, if_neg (by rw [reading]; decide)]
  split
  case h_1 c rest option => exact absurd option (value.no_option c rest)
  case h_2 => rfl

/-- Where one argument is read the others follow. -/
lemma foldlM_argument_cons {d d' : Draft} {text : String} (one : d.argument text = .ok d')
    (rest : List String) : (text :: rest).foldlM argument d = rest.foldlM argument d' := by
  rw [List.foldlM_cons, one]
  rfl

/-- The first value is the input. -/
lemma argument_start {text : String} (value : IsValue text) :
    start.argument text = .ok { start with input := some text } := by
  rw [argument_of_isValue value rfl]
  exact if_neg value.nonempty

section Louder

variable (n : Nat) (d : Draft)

/-- Louder arguments read the file of expressions in the same way. -/
lemma setInput_louder (value : String) :
    (d.louder n).setInput value = (d.setInput value).map (louder n) := by
  rw [setInput, setInput, apply_ite (Except.map _), apply_ite (Except.map _)]
  rfl

/-- Louder arguments read the file for the results in the same way. -/
lemma setOutput_louder (value : String) :
    (d.louder n).setOutput value = (d.setOutput value).map (louder n) := by
  rw [setOutput, setOutput, apply_ite (Except.map _), apply_ite (Except.map _)]
  rfl

/-- Louder arguments turn to standard output in the same way. -/
lemma setStandardOutput_louder :
    (d.louder n).setStandardOutput = d.setStandardOutput.map (louder n) := by
  rw [setStandardOutput, setStandardOutput, apply_ite (Except.map _)]
  rfl

/-- Louder arguments become louder by as much. -/
lemma raiseVerbosity_louder : (d.louder n).raiseVerbosity = d.raiseVerbosity.louder n := by
  rw [raiseVerbosity, raiseVerbosity, louder, louder, Nat.add_right_comm]

/-- Louder arguments read bundled flags in the same way. -/
lemma shortFlags_louder (flags : List Char) :
    (d.louder n).shortFlags flags = (d.shortFlags flags).map (louder n) := by
  fun_induction d.shortFlags flags with
  | case2 d rest ih => rw [shortFlags, raiseVerbosity_louder, ih]
  | case6 d value =>
    rw [shortFlags]
    exact setOutput_louder n d _
  | case7 d value unended unequal =>
    rw [shortFlags.eq_7 _ _ unended unequal]
    exact setOutput_louder n d _
  | case8 d c rest notV notH notVersion notLast notEqual notO =>
    rw [shortFlags.eq_8 _ c rest notV notH notVersion notLast notEqual notO]
    rfl
  | _ => rfl

/-- Louder arguments read a long option in the same way. -/
lemma longOption_louder (name : List Char) (value? : Option (List Char)) :
    (d.louder n).longOption name value? = (d.longOption name value?).map (louder n) := by
  unfold longOption
  split
  · exact setOutput_louder n d _
  · rfl
  · exact setStandardOutput_louder n d
  · exact congrArg Except.ok (raiseVerbosity_louder n d)
  · rfl
  · rfl
  · rw [apply_ite (Except.map _)]
    rfl
  · rfl

/-- An argument is taken or refused whatever the verbosity is. -/
lemma argument_louder (text : String) :
    (d.louder n).argument text = (d.argument text).map (louder n) := by
  rw [argument, argument, apply_ite (Except.map _), setInput_louder]
  congr 1
  split
  · rw [apply_ite (Except.map _), apply_ite (Except.map _), apply_ite (Except.map _), longOption_louder,
      shortFlags_louder]
    rfl
  · rw [apply_ite (Except.map _), setOutput_louder]
    rfl

/-- Louder arguments read all others in the same way. -/
lemma foldlM_argument_louder (arguments : List String) :
    arguments.foldlM argument (d.louder n) = (arguments.foldlM argument d).map (louder n) := by
  induction arguments generalizing d with
  | nil => rfl
  | cons text rest ih =>
    rw [List.foldlM_cons, List.foldlM_cons, argument_louder]
    cases d.argument text with
    | error e => rfl
    | ok d' => exact ih d'

/-- Louder arguments end as a louder command. -/
lemma finish_louder : (d.louder n).finish = d.finish.map (Command.louder n) := by
  obtain ⟨input, output, shown, verbosity, awaits, ended⟩ := d
  cases awaits with
  | true => rfl
  | false =>
    cases input with
    | none => rfl
    | some input => cases output <;> cases shown <;> rfl

/-- Flags in front raise the verbosity, one each. -/
lemma foldlM_argument_verbose (arguments : List String) :
    (List.replicate n "-v" ++ arguments).foldlM argument start =
      arguments.foldlM argument (start.louder n) := by
  induction n with
  | zero => rfl
  | succ n ih =>
    have flag : start.argument "-v" = .ok (start.louder 1) := rfl
    rw [List.replicate_succ, List.cons_append, foldlM_argument_cons flag, foldlM_argument_louder, ih,
      ← foldlM_argument_louder]
    rfl

end Louder

end Draft

end Arguments

section Sinks

open Arguments.Draft

variable {name path : String}

/-- An input and the path that its results are written to. -/
lemma Command.ofArguments_output (value : Arguments.IsValue name) (value' : Arguments.IsValue path) :
    ofArguments [name, "-o", path] = .ok (.evaluate ⟨name, .file path, 0⟩) := by
  have flag : argument { start with input := some name } "-o" =
      .ok { start with input := some name, awaitsOutput := true } := rfl
  have last : argument { start with input := some name, awaitsOutput := true } path =
      .ok { start with input := some name, output := some path } := by
    rw [argument_of_isValue value' rfl]
    exact if_neg value'.nonempty
  rw [ofArguments, foldlM_argument_cons (argument_start value), foldlM_argument_cons flag,
    foldlM_argument_cons last]
  rfl

/-- An input whose results are printed. -/
lemma Command.ofArguments_standardOutput (value : Arguments.IsValue name) :
    ofArguments [name, "--stdout"] = .ok (.evaluate ⟨name, .standardOutput, 0⟩) := by
  rw [ofArguments, foldlM_argument_cons (argument_start value)]
  rfl

end Sinks

/-- Flags in front of the arguments change nothing but the verbosity. -/
lemma Command.ofArguments_verbose (n : Nat) (arguments : List String) :
    ofArguments (List.replicate n "-v" ++ arguments) = (ofArguments arguments).map (louder n) := by
  rw [ofArguments, ofArguments, Arguments.Draft.foldlM_argument_verbose, Arguments.Draft.foldlM_argument_louder]
  cases arguments.foldlM Arguments.Draft.argument .start with
  | ok d => exact d.finish_louder n
  | error interruption => cases interruption <;> rfl

end LineCalc.CommandLine
