import LineCalc.CommandLine.Execution
import LineCalc.Proofs.CommandLine.Arguments
import Mathlib.Data.List.Basic

/-!
# What the verbosity changes

The verbosity decides which events are logged and whether their lines are shown with them, and nothing
else. With more flags for it a command gives the same results, leaves the same files and ends in the same
way, and its log has all the lines that it had, with others between them.
-/

namespace LineCalc.CommandLine

namespace Log

open Batch (Event Level)

/-- What the line of expressions starts with where it is shown behind the level. -/
def contextStart : List Char := "line\x7bnumber=".toList

/-- A line of the log without the line of expressions behind the level. -/
def withoutContext (text : String) : String :=
  let level := text.toList.takeWhile (· != ' ')
  let rest := (text.toList.dropWhile (· != ' ')).tail
  if contextStart <+: rest then String.ofList (level ++ rest.dropWhile (· != ' ')) else text

section Message

/-- The text starts with a character, and not with the one that a context starts with. -/
def Apart (s : String) : Prop := ∃ c ∈ s.toList.head?, c ≠ 'l'

/-- A text stays apart with more text behind it. -/
lemma Apart.append {s : String} (apart : Apart s) (t : String) : Apart (s ++ t) := by
  obtain ⟨c, first, other⟩ := apart
  refine ⟨c, ?_, other⟩
  rw [String.toList_append]
  exact List.mem_head?_append_of_mem_head? first

/-- A text stays apart when control characters are spelled out. -/
lemma Apart.escape {s : String} (apart : Apart s) : Apart (escape s) := by
  obtain ⟨c, first, other⟩ := apart
  obtain ⟨rest, same⟩ := List.head?_eq_some_iff.1 first
  rw [Apart, Log.escape, String.toList_ofList, same, List.flatMap_cons, escapeChar]
  split
  · exact ⟨'\\', rfl, by decide⟩
  · split
    · exact ⟨'\\', rfl, by decide⟩
    · exact ⟨c, rfl, other⟩

/-- No complaint about a lexeme starts like a context. -/
lemma apart_lexical (e : LexicalError) : Apart e.message := by
  have unexpected : Apart "Unexpected input '.' at column " := ⟨'U', rfl, by decide⟩
  have literal : Apart "Literal '" := ⟨'L', rfl, by decide⟩
  cases e with
  | strayPoint column => exact (unexpected.append _).append _
  | literalTooLarge text column => exact (((literal.append _).append _).append _).append _

/-- No complaint about the place of a token starts like a context. -/
lemma apart_conversion (e : ConversionError) : Apart e.message := by
  have operator : Apart "Invalid operator '" := ⟨'I', rfl, by decide⟩
  have unbalanced : Apart "Unbalanced parenthesis at token " := ⟨'U', rfl, by decide⟩
  have expression : Apart "Invalid expression at token " := ⟨'I', rfl, by decide⟩
  cases e with
  | invalidOperator c position => exact (((operator.append _).append _).append _).append _
  | unbalancedParenthesis position => exact (unbalanced.append _).append _
  | invalidExpression reason position => exact (((expression.append _).append _).append _).append _

/-- No complaint about a value starts like a context. -/
lemma apart_evaluation (e : EvaluationError) : Apart e.message := by
  have unsupported : Apart "Unsupported operator '" := ⟨'U', rfl, by decide⟩
  have malformed : Apart "Malformed expression: " := ⟨'M', rfl, by decide⟩
  have nonFinite : Apart "Result of '" := ⟨'R', rfl, by decide⟩
  have integer : Apart "Integer " := ⟨'I', rfl, by decide⟩
  cases e with
  | divisionByZero => exact ⟨'D', rfl, by decide⟩
  | unsupportedOperator c => exact (unsupported.append _).append _
  | malformed reason => exact (malformed.append _).append _
  | nonFinite c => exact (nonFinite.append _).append _
  | integerTooLarge n => exact (integer.append _).append _

/-- No message of an event starts like a context. -/
lemma apart_message (e : Event) : Apart e.message := by
  have converted : Apart "converted to postfix" := ⟨'c', rfl, by decide⟩
  have undecodable : Apart "Line is not valid UTF-8. Skipping." := ⟨'L', rfl, by decide⟩
  have finished : Apart "finished" := ⟨'f', rfl, by decide⟩
  cases e with
  | converted => exact converted
  | skipped line error expression =>
    cases error with
    | lexical e => exact (apart_lexical e).append _
    | conversion e => exact (apart_conversion e).append _
    | evaluation e => exact (apart_evaluation e).append _
  | undecodable => exact undecodable
  | finished => exact finished

end Message

section Context

/-- What stands in a line of the log behind the context. -/
def body (e : Event) : String :=
  escape e.message ++ String.join (e.fields.map fun (name, value) => " " ++ name ++ "=" ++ value.toText)

/-- A line of the log is the level, the context and the body. -/
lemma toList_line (threshold : Level) (e : Event) :
    (line threshold e).toList =
      e.level.name.toList ++ ' ' :: ((context threshold e).toList ++ (body e).toList) := by
  have space : " ".toList = [' '] := rfl
  rw [line, body]
  simp only [String.toList_append, space, List.append_assoc, List.cons_append, List.nil_append]

/-- A context is empty or names one line of the expressions. -/
lemma context_cases (threshold : Level) (e : Event) :
    context threshold e = "" ∨
      ∃ number : Nat, context threshold e = "line\x7bnumber=" ++ toString number ++ "\x7d: " := by
  unfold context
  cases e.line? with
  | none => cases threshold <;> exact .inl rfl
  | some number =>
    cases threshold with
    | debug => exact .inr ⟨number, rfl⟩
    | info => exact .inl rfl
    | warn => exact .inl rfl

/-- The level is followed by the first space. -/
lemma takeWhile_level (e : Event) (rest : List Char) :
    (e.level.name.toList ++ ' ' :: rest).takeWhile (· != ' ') = e.level.name.toList ∧
      (e.level.name.toList ++ ' ' :: rest).dropWhile (· != ' ') = ' ' :: rest := by
  have solid : ∀ c ∈ e.level.name.toList, c != ' ' := by
    apply List.all_eq_true.1
    cases e.level <;> rfl
  constructor
  · rw [List.takeWhile_append_of_pos solid]
    exact List.append_nil _
  · rw [List.dropWhile_append_of_pos solid]
    rfl

/-- Among warnings a line of the log has no context. -/
lemma toList_line_warn (e : Event) :
    (line .warn e).toList = e.level.name.toList ++ ' ' :: (body e).toList := by
  have quiet : context .warn e = "" := by
    rw [context]
    exact nofun
  rw [toList_line, quiet, String.toList_empty, List.nil_append]

/-- A context ends with its only space. -/
lemma dropWhile_context (number : Nat) (rest : List Char) :
    contextStart <+: ("line\x7bnumber=" ++ toString number ++ "\x7d: ").toList ++ rest ∧
      (("line\x7bnumber=" ++ toString number ++ "\x7d: ").toList ++ rest).dropWhile (· != ' ') =
        ' ' :: rest := by
  have digits : ∀ c ∈ (toString number).toList, c != ' ' := by
    intro c mem
    rw [Nat.toString_eq_repr, Nat.toList_repr] at mem
    have digit := Nat.isDigit_of_mem_toDigits (by decide) (by decide) mem
    rw [bne_iff_ne]
    rintro rfl
    cases digit
  rw [String.toList_append, String.toList_append, List.append_assoc, List.append_assoc]
  refine ⟨List.prefix_append _ _, ?_⟩
  have start : ∀ c ∈ "line\x7bnumber=".toList, c != ' ' := List.all_eq_true.1 rfl
  have ending : "\x7d: ".toList = ['\x7d', ':', ' '] := rfl
  rw [List.dropWhile_append_of_pos start, List.dropWhile_append_of_pos digits, ending]
  rfl

/-- What starts with another character does not start with a context. -/
lemma Apart.not_isPrefix {s : String} (apart : Apart s) : ¬ contextStart <+: s.toList := by
  obtain ⟨c, first, other⟩ := apart
  rintro ⟨rest, same⟩
  rw [← same] at first
  exact other (Option.some.inj first).symm

/-- Only the context of a line is left out. -/
lemma withoutContext_line (threshold : Level) (e : Event) :
    withoutContext (line threshold e) = line .warn e := by
  obtain ⟨level, rest⟩ := takeWhile_level e ((context threshold e).toList ++ (body e).toList)
  rw [withoutContext, toList_line, level, rest, List.tail_cons]
  rcases context_cases threshold e with none | ⟨number, shown⟩
  · have free : ¬ contextStart <+: (body e).toList := ((apart_message e).escape.append _).not_isPrefix
    rw [none, String.toList_empty, List.nil_append, if_neg free]
    apply String.toList_inj.1
    rw [toList_line, none, String.toList_empty, List.nil_append, toList_line_warn]
  · obtain ⟨starts, ends⟩ := dropWhile_context number (body e).toList
    rw [shown, if_pos starts, ends, ← toList_line_warn, String.ofList_toList]

example : withoutContext "DEBUG line\x7bnumber=3\x7d: converted to postfix infix=1 postfix=1" =
    "DEBUG converted to postfix infix=1 postfix=1" := by decide +kernel

end Context

section Lines

variable {verbosity verbosity' : Nat}

/-- Each of the first two flags lowers the threshold by one level. -/
lemma weight_threshold (verbosity : Nat) : (threshold verbosity).weight = 2 - verbosity := by
  match verbosity with
  | 0 => rfl
  | 1 => rfl
  | n + 2 => exact (Nat.sub_eq_zero_of_le (Nat.le_add_left 2 n)).symm

/-- A higher verbosity adds lines to a log and takes none away. -/
lemma sublist_lines (le : verbosity ≤ verbosity') (events : Array Event) :
    ((lines verbosity events).map withoutContext).Sublist ((lines verbosity' events).map withoutContext) := by
  have shown (verbosity : Nat) : (lines verbosity events).map withoutContext =
      (events.toList.filter (isWritten (threshold verbosity))).map (line .warn) := by
    rw [lines, List.map_map]
    exact List.map_congr_left fun e _ => withoutContext_line (threshold verbosity) e
  rw [shown, shown]
  apply List.Sublist.map
  apply List.monotone_filter_right
  intro e written
  rw [isWritten, weight_threshold, decide_eq_true_iff] at written ⊢
  exact Nat.le_trans (Nat.sub_le_sub_left le 2) written

end Lines

end Log

variable {n : Nat} {options : Options} {d : Directory}

/-- With more flags a run leaves every line in the log that it left before. -/
lemma Options.sublist_logOf (run : Batch.Run) :
    ((options.logOf run).map Log.withoutContext).Sublist
      (((options.louder n).logOf run).map Log.withoutContext) := by
  rw [logOf, logOf, List.map_append, List.map_append]
  exact (Log.sublist_lines (Nat.le_add_right _ n) run.events).append (List.Sublist.refl _)

/-- More is reported of the same run. -/
lemma Options.execute_louder (n : Nat) (options : Options) (d : Directory) :
    let quiet := options.execute d
    let loud := (options.louder n).execute d
    loud.exitCode = quiet.exitCode ∧ loud.output = quiet.output ∧ loud.directory = quiet.directory ∧
      (quiet.log.map Log.withoutContext).Sublist (loud.log.map Log.withoutContext) := by
  obtain ⟨name, destination, verbosity⟩ := options
  simp only [Options.execute, louder]
  cases d.find name with
  | error e => exact ⟨rfl, rfl, rfl, List.Sublist.refl _⟩
  | ok input =>
    cases destination with
    | standardOutput => exact ⟨rfl, rfl, rfl, sublist_logOf _⟩
    | file path =>
      dsimp only
      cases d.findForWriting path with
      | error e => exact ⟨rfl, rfl, rfl, List.Sublist.refl _⟩
      | ok place => exact ⟨rfl, rfl, rfl, sublist_logOf _⟩

/-- Flags for the verbosity in front of the arguments change neither how the command ends, nor what it
prints, nor the files. The log has the lines that it has without them, in order and apart from the lines
of expressions that are shown, and perhaps others between them. -/
theorem execute_verbose (n : Nat) (arguments : List String) (d : Directory) :
    let quiet := execute arguments d
    let loud := execute (List.replicate n "-v" ++ arguments) d
    loud.exitCode = quiet.exitCode ∧ loud.output = quiet.output ∧ loud.directory = quiet.directory ∧
      (quiet.log.map Log.withoutContext).Sublist (loud.log.map Log.withoutContext) := by
  rw [execute, execute, Command.ofArguments_verbose]
  cases Command.ofArguments arguments with
  | error e => exact ⟨rfl, rfl, rfl, List.Sublist.refl _⟩
  | ok command =>
    cases command with
    | help => exact ⟨rfl, rfl, rfl, List.Sublist.refl _⟩
    | version => exact ⟨rfl, rfl, rfl, List.Sublist.refl _⟩
    | evaluate options => exact options.execute_louder n d

end LineCalc.CommandLine
