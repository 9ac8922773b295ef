import LineCalc.CommandLine.Execution
import LineCalc.Proofs.Batch.Faults
import LineCalc.Proofs.CommandLine.Arguments
import LineCalc.Proofs.CommandLine.Directory

/-!
# What becomes of the files

The file for the results is created or emptied after the file of expressions was found and before it is
read. If they are two files, the expressions stay as they are, and the results are written whole or the
command fails. A command whose results go to its own file of expressions empties that file and succeeds,
and a command that is given a directory to read fails with its results' file created or emptied.
-/

namespace LineCalc.CommandLine

variable {arguments : List String} {options : Options} {path : String} {d : Directory}
  {input place p : Place} {content : List UInt8}

section Reading

/-- All of a file can be read. -/
lemma source_of_file (file : d.entryAt? input = some (.file content)) :
    d.source input = ⟨content, none⟩ := by
  rw [Directory.source, file]

/-- Nothing of a directory can be read. -/
lemma source_of_directory (directory : d.entryAt? input = some .directory) :
    d.source input = ⟨[], some (.other PathError.isDirectory.message)⟩ := by
  rw [Directory.source, directory]

/-- A file is empty after it was opened for writing, also one that is read. -/
lemma entryAt?_emptied (file : d.entryAt? p = some (.file content)) :
    (d.write p []).entryAt? p = some (.file []) := by
  by_cases inside : p.base = .working
  · apply Directory.entryAt?_write_self inside
    rw [file]
    exact nofun
  · rw [Directory.write_of_outside inside, file, Directory.eq_nil_of_outside file inside]

end Reading

section Running

/-- A run without faults is a success. -/
lemma exitCodeOf_unlimited (content : List UInt8) :
    Options.exitCodeOf (Batch.run ⟨content, none⟩ .unlimited) = 0 := by
  rw [Batch.run_unlimited]
  rfl

/-- A run into a sink that cannot be flushed is a failure. -/
lemma exitCodeOf_of_flushFault {sink : Batch.Sink} {fault : Batch.Fault}
    (armed : sink.flushFault = some fault) (source : Batch.Source) :
    Options.exitCodeOf (Batch.run source sink) = 1 := by
  rcases Batch.run_cases source sink with ⟨free, _⟩ | ⟨fault, q, _, ends, _, _⟩
  · have unarmed := ((Batch.firstFault?_eq_none_iff source sink).1 free).2.1
    rw [armed] at unarmed
    cases unarmed
  · rw [ends]
    rfl

/-- The results are written whole unless the place has no room for them. -/
lemma runInto_cases (content : List UInt8) (place : Place) :
    runInto ⟨content, none⟩ place = Batch.run ⟨content, none⟩ .unlimited ∨
      place = .full ∧ Options.exitCodeOf (runInto ⟨content, none⟩ place) = 1 := by
  rw [runInto]
  split
  case isTrue noRoom => exact .inr ⟨noRoom.1, exitCodeOf_of_flushFault rfl _⟩
  case isFalse => exact .inl rfl

/-- A run over nothing is the same everywhere, even where there is no room. -/
lemma runInto_empty (place : Place) : runInto ⟨[], none⟩ place = .finished .start := by
  rw [runInto]
  exact if_neg fun noRoom => noRoom.2 rfl

/-- What cannot be read has no results. -/
lemma runInto_of_fault (fault : Batch.Fault) (place : Place) :
    runInto ⟨[], some fault⟩ place = .stopped .start 0 fault := by
  rw [runInto]
  exact if_neg fun noRoom => noRoom.2 rfl

end Running

section Executing

/-- Arguments that stand for an evaluation are carried out as one. -/
lemma execute_of_accepted (accepted : Command.ofArguments arguments = .ok (.evaluate options)) :
    execute arguments d = options.execute d := by
  rw [execute, accepted]

/-- Where there is no file of expressions nothing is touched. -/
lemma Options.execute_of_unfound {e : PathError} (unfound : d.find options.input = .error e) :
    options.execute d = ⟨1, #[], [unopenedText options.input], d⟩ := by
  rw [Options.execute, unfound]

/-- Where no results can be written nothing is touched. -/
lemma Options.execute_of_unwritable {e : PathError} (found : d.find options.input = .ok input)
    (toFile : options.destination = .file path) (unwritable : d.findForWriting path = .error e) :
    options.execute d = ⟨1, #[], [failureText options.input e.message], d⟩ := by
  rw [Options.execute, found]
  dsimp only
  rw [toFile]
  dsimp only
  rw [unwritable]

/-- Where both places are found, the one for the results is emptied and then holds what the run writes. -/
lemma Options.execute_of_writable (found : d.find options.input = .ok input)
    (toFile : options.destination = .file path) (writable : d.findForWriting path = .ok place) :
    let emptied := d.write place []
    let run := runInto (emptied.source input) place
    options.execute d = ⟨exitCodeOf run, if place = .standardOutput then run.output else #[],
      options.logOf run, emptied.write place run.output.toList⟩ := by
  rw [Options.execute, found]
  dsimp only
  rw [toFile]
  dsimp only
  rw [writable]

end Executing

/-- Results have come to a place. What is written to any place but a file or standard output does not
show. -/
structure Response.Delivers (response : Response) (place : Place) (results : List UInt8) : Prop where
  held : place.base = .working → response.directory.entryAt? place = some (.file results)
  shown : place = .standardOutput → response.output.toList = results

/-- A file of expressions stays as it is and its results are written whole, or the command fails. If it
is to hold the results itself, it is emptied before it is read, and the command succeeds. -/
theorem execute_keeps_input
    (accepted : Command.ofArguments arguments = .ok (.evaluate options))
    (toFile : options.destination = .file path) (found : d.find options.input = .ok input)
    (readable : d.entryAt? input = some (.file content)) :
    let results := (Batch.run ⟨content, none⟩ .unlimited).output.toList
    let response := execute arguments d
    (d.findForWriting path ≠ .ok input →
      response.directory.entryAt? input = some (.file content) ∧
      (response.exitCode ≠ 0 ∨ response.exitCode = 0 ∧
        ∃ place, d.findForWriting path = .ok place ∧ response.Delivers place results)) ∧
    (d.findForWriting path = .ok input →
      response.exitCode = 0 ∧ response.directory.entryAt? input = some (.file [])) := by
  dsimp only
  rw [execute_of_accepted accepted]
  constructor
  · intro apart
    cases writable : d.findForWriting path with
    | error e =>
      rw [Options.execute_of_unwritable found toFile writable]
      exact ⟨readable, .inl Nat.one_ne_zero⟩
    | ok place =>
      have other : input ≠ place := by
        rintro rfl
        exact apart writable
      -- The place is another one, so emptying it leaves the expressions as they are.
      have kept : (d.write place []).entryAt? input = some (.file content) :=
        (Directory.entryAt?_write_of_ne other []).trans readable
      have free := Directory.entryAt?_ne_directory_of_findForWriting writable
      rw [Options.execute_of_writable found toFile writable]
      dsimp only
      rw [source_of_file kept]
      refine ⟨(Directory.entryAt?_write_of_ne other _).trans kept, ?_⟩
      -- Nothing but a device without room keeps the run from its end.
      rcases runInto_cases content place with whole | ⟨_, failed⟩
      · rw [whole]
        refine .inr ⟨exitCodeOf_unlimited content, place, rfl, ?_, ?_⟩
        · intro inside
          apply Directory.entryAt?_write_self inside
          rw [Directory.entryAt?_write_self inside free]
          exact nofun
        · exact fun terminal => congrArg Array.toList (if_pos terminal)
      · exact .inl (failed ▸ Nat.one_ne_zero)
  · intro same
    have emptied := entryAt?_emptied readable
    rw [Options.execute_of_writable found toFile same]
    dsimp only
    rw [source_of_file emptied, runInto_empty]
    exact ⟨rfl, entryAt?_emptied emptied⟩

/-- A file with a sum in it stays as it is, and its result is in the other file. -/
theorem execute_keeps_input_sum :
    let d : Directory := ⟨[(["in"], .file [49, 43, 49, 10])]⟩
    let response := execute ["in", "-o", "r"] d
    d.entryAt? ⟨.working, ["in"]⟩ = some (.file [49, 43, 49, 10]) ∧
    response.directory.entryAt? ⟨.working, ["in"]⟩ = some (.file [49, 43, 49, 10]) ∧
    response.exitCode = 0 ∧
    response.directory.entryAt? ⟨.working, ["r"]⟩ = some (.file [50, 46, 48, 48, 10]) := by
  intro d response
  have accepted : Command.ofArguments ["in", "-o", "r"] = .ok (.evaluate ⟨"in", .file "r", 0⟩) := rfl
  have found : d.find "in" = .ok ⟨.working, ["in"]⟩ := rfl
  have writable : d.findForWriting "r" = .ok ⟨.working, ["r"]⟩ := rfl
  have results : (Batch.run ⟨[49, 43, 49, 10], none⟩ .unlimited).output.toList =
      [50, 46, 48, 48, 10] := by decide +kernel
  have done : response.exitCode = 0 := by decide +kernel
  have apart : d.findForWriting "r" ≠ .ok ⟨.working, ["in"]⟩ := by
    rw [writable]
    exact nofun
  obtain ⟨kept, failed | ⟨_, place, there, delivered⟩⟩ :=
    (execute_keeps_input accepted rfl found rfl).1 apart
  · exact absurd done failed
  · cases writable.symm.trans there
    exact ⟨rfl, kept, done, results ▸ delivered.held rfl⟩

/-- Not every command keeps its file of expressions or writes their results. -/
theorem not_execute_keeps_or_delivers :
    ¬ ∀ (arguments : List String) (options : Options) (path : String) (d : Directory) (input : Place)
      (content : List UInt8),
      Command.ofArguments arguments = .ok (.evaluate options) → options.destination = .file path →
      d.find options.input = .ok input → d.entryAt? input = some (.file content) →
      let results := (Batch.run ⟨content, none⟩ .unlimited).output.toList
      let response := execute arguments d
      (response.exitCode ≠ 0 ∧ response.directory.entryAt? input = some (.file content)) ∨
      (response.exitCode = 0 ∧
        ∃ place, d.findForWriting path = .ok place ∧ response.Delivers place results) := by
  intro claim
  let d : Directory := ⟨[(["in"], .file [49, 43, 49, 10])]⟩
  have results : (Batch.run ⟨[49, 43, 49, 10], none⟩ .unlimited).output.toList ≠ [] := by
    decide +kernel
  have same : d.findForWriting "in" = .ok ⟨.working, ["in"]⟩ := rfl
  rcases claim ["in", "-o", "in"] ⟨"in", .file "in", 0⟩ "in" d ⟨.working, ["in"]⟩ [49, 43, 49, 10]
      rfl rfl rfl rfl with ⟨failed, _⟩ | ⟨_, place, writable, delivered⟩
  · exact failed rfl
  · cases same.symm.trans writable
    have emptied : (execute ["in", "-o", "in"] d).directory.entryAt? ⟨.working, ["in"]⟩ =
        some (.file []) := rfl
    have held := emptied.symm.trans (delivered.held rfl)
    exact results (Entry.file.inj (Option.some.inj held)).symm

section Unreadable

/-- The place that is created or emptied for results, once the input is found. -/
def Options.opened? (options : Options) (d : Directory) : Option Place :=
  match d.find options.input, options.destination with
  | .ok _, .file path => (d.findForWriting path).toOption
  | _, _ => none

/-- A file is opened for results only where a path leads to it. -/
lemma findForWriting_of_opened? (opened : options.opened? d = some place) :
    ∃ path, d.findForWriting path = .ok place := by
  rw [Options.opened?] at opened
  split at opened
  case h_1 path _ _ => exact ⟨path, Except.toOption_eq_some_iff.1 opened⟩
  case h_2 => cases opened

/-- What is no file is a directory, if it is found at all. -/
lemma entryAt?_of_unreadable (found : d.find options.input = .ok input)
    (unreadable : ∀ place content, d.find options.input = .ok place →
      d.entryAt? place ≠ some (.file content)) : d.entryAt? input = some .directory := by
  cases entry : d.entryAt? input with
  | none => exact absurd entry (Directory.entryAt?_ne_none_of_find found)
  | some entry' =>
    cases entry' with
    | file content => exact absurd entry (unreadable input content found)
    | directory => rfl

/-- A command that cannot read its input fails, and empties no more than the place of its results. -/
lemma Options.execute_of_unreadable
    (unreadable : ∀ place content, d.find options.input = .ok place →
      d.entryAt? place ≠ some (.file content)) :
    (options.execute d).exitCode = 1 ∧ (options.execute d).directory =
      match options.opened? d with
      | none => d
      | some place => (d.write place []).write place [] := by
  rw [Options.opened?]
  cases found : d.find options.input with
  | error e =>
    rw [Options.execute_of_unfound found]
    exact ⟨rfl, rfl⟩
  | ok input =>
    have directory := entryAt?_of_unreadable found unreadable
    cases toFile : options.destination with
    | standardOutput =>
      rw [Options.execute, found]
      dsimp only
      rw [toFile]
      dsimp only
      rw [source_of_directory directory]
      exact ⟨rfl, rfl⟩
    | file path =>
      dsimp only
      cases writable : d.findForWriting path with
      | error e =>
        rw [Options.execute_of_unwritable found toFile writable]
        exact ⟨rfl, rfl⟩
      | ok place =>
        -- A place for results is no directory, so it is not the one that was to be read.
        have other : input ≠ place := by
          rintro rfl
          exact Directory.entryAt?_ne_directory_of_findForWriting writable directory
        rw [Options.execute_of_writable found toFile writable]
        dsimp only
        rw [source_of_directory ((Directory.entryAt?_write_of_ne other []).trans directory),
          runInto_of_fault]
        exact ⟨rfl, rfl⟩

/-- Opening a place for results and closing it again shows unless an empty file stands there. -/
lemma entryAt?_opened_eq_iff (free : d.entryAt? place ≠ some .directory) :
    (∀ p, ((d.write place []).write place []).entryAt? p = d.entryAt? p) ↔
      (place.base = .working → d.entryAt? place = some (.file [])) := by
  constructor
  · intro unchanged inside
    have emptied := Directory.entryAt?_write_self inside free []
    rw [← unchanged place]
    exact entryAt?_emptied emptied
  · intro empty p
    by_cases inside : place.base = .working
    · by_cases here : p = place
      · subst here
        rw [empty inside]
        exact entryAt?_emptied (entryAt?_emptied (empty inside))
      · rw [Directory.entryAt?_write_of_ne here, Directory.entryAt?_write_of_ne here]
    · rw [Directory.write_of_outside inside, Directory.write_of_outside inside]

/-- A command fails if its input is no file. It leaves the files as they are unless the input is a
directory, and then unless it opens a place for its results where no empty file stands. -/
theorem execute_unreadable
    (accepted : Command.ofArguments arguments = .ok (.evaluate options))
    (unreadable : ∀ place content, d.find options.input = .ok place →
      d.entryAt? place ≠ some (.file content)) :
    (execute arguments d).exitCode = 1 ∧
    (∀ e, d.find options.input = .error e → (execute arguments d).directory = d) ∧
    ((∀ p, (execute arguments d).directory.entryAt? p = d.entryAt? p) ↔
      ∀ place, options.opened? d = some place → place.base = .working →
        d.entryAt? place = some (.file [])) := by
  rw [execute_of_accepted accepted]
  obtain ⟨failed, directory⟩ := Options.execute_of_unreadable unreadable
  refine ⟨failed, ?_, ?_⟩
  · intro e unfound
    rw [Options.execute_of_unfound unfound]
  · rw [directory]
    cases opened : options.opened? d with
    | none => exact ⟨fun _ _ => nofun, fun _ _ => rfl⟩
    | some place =>
      obtain ⟨path, writable⟩ := findForWriting_of_opened? opened
      dsimp only
      rw [entryAt?_opened_eq_iff (Directory.entryAt?_ne_directory_of_findForWriting writable)]
      constructor
      · intro empty _ same
        cases same
        exact empty
      · exact fun empty => empty place rfl

/-- A file of expressions that is missing leaves the file for the results as it was. -/
theorem execute_unreadable_missing :
    let d : Directory := ⟨[(["out.txt"], .file [49])]⟩
    (execute ["in"] d).exitCode = 1 ∧ (execute ["in"] d).directory = d := by
  intro d
  have accepted : Command.ofArguments ["in"] = .ok (.evaluate ⟨"in", .file "out.txt", 0⟩) := rfl
  have missing : d.find "in" = .error .notFound := rfl
  have unreadable (place : Place) (content : List UInt8) (found : d.find "in" = .ok place) :
      d.entryAt? place ≠ some (.file content) := by
    rw [missing] at found
    cases found
  obtain ⟨failed, unchanged, _⟩ := execute_unreadable accepted unreadable
  exact ⟨failed, unchanged .notFound missing⟩

/-- Not every command leaves the files as they are if its input is no file. -/
theorem not_execute_unreadable_unchanged :
    ¬ ∀ (arguments : List String) (options : Options) (d : Directory),
      Command.ofArguments arguments = .ok (.evaluate options) →
      (∀ place content, d.find options.input = .ok place → d.entryAt? place ≠ some (.file content)) →
      (execute arguments d).exitCode = 1 ∧
        ∀ p, (execute arguments d).directory.entryAt? p = d.entryAt? p := by
  intro claim
  let d : Directory := ⟨[(["in"], .directory)]⟩
  have unreadable (place : Place) (content : List UInt8) (found : d.find "in" = .ok place) :
      d.entryAt? place ≠ some (.file content) := by
    cases found
    exact nofun
  have unchanged := (claim ["in"] ⟨"in", .file "out.txt", 0⟩ d rfl unreadable).2 ⟨.working, ["out.txt"]⟩
  have created : (execute ["in"] d).directory.entryAt? ⟨.working, ["out.txt"]⟩ = some (.file []) := rfl
  cases created.symm.trans unchanged

end Unreadable

/-!
## The two places for results

Results go to a file or to standard output. The same run is made for both: what one command writes to a
file the other one prints, both log the same lines, and neither touches anything else.
-/

variable {d : Directory} {input place : Place} {content : List UInt8}

/-- With standard output as the place for the results no file is touched. -/
lemma Options.execute_of_standardOutput {options : Options} (found : d.find options.input = .ok input)
    (toOutput : options.destination = .standardOutput) :
    let run := Batch.run (d.source input) .unlimited
    options.execute d = ⟨exitCodeOf run, run.output, options.logOf run, d⟩ := by
  rw [Options.execute, found]
  dsimp only
  rw [toOutput]

/-- A place that is no device has room for all results. -/
lemma runInto_of_notMem_devices (free : place ∉ Place.devices) (source : Batch.Source) :
    runInto source place = Batch.run source .unlimited := by
  rw [runInto]
  apply if_neg
  rintro ⟨rfl, _⟩
  exact free (by decide)

/-- A command that writes its results to a file other than its input, and one that prints them, have the
same results and log the same lines. The file holds the results and nothing else, whatever it held before,
and no other file is touched. -/
theorem execute_sinks_agree {filed shown : List String} {name path : String} {verbosity : Nat}
    (toFile : Command.ofArguments filed = .ok (.evaluate ⟨name, .file path, verbosity⟩))
    (toOutput : Command.ofArguments shown = .ok (.evaluate ⟨name, .standardOutput, verbosity⟩))
    (found : d.find name = .ok input) (readable : d.entryAt? input = some (.file content))
    (writable : d.findForWriting path = .ok place) (free : place ∉ Place.devices)
    (apart : place ≠ input) :
    let results := (Batch.run ⟨content, none⟩ .unlimited).output
    let written := execute filed d
    let printed := execute shown d
    (written.exitCode = 0 ∧ written.output = #[] ∧
      (place.base = .working → written.directory.entryAt? place = some (.file results.toList)) ∧
      ∀ p ≠ place, written.directory.entryAt? p = d.entryAt? p) ∧
    (printed.exitCode = 0 ∧ printed.output = results ∧ printed.directory = d) ∧
    written.log = printed.log := by
  have kept : (d.write place []).entryAt? input = some (.file content) :=
    (Directory.entryAt?_write_of_ne apart.symm []).trans readable
  have hidden : place ≠ .standardOutput := by
    rintro rfl
    exact free (by decide)
  have noDirectory := Directory.entryAt?_ne_directory_of_findForWriting writable
  dsimp only
  rw [execute_of_accepted toFile, execute_of_accepted toOutput,
    Options.execute_of_writable found rfl writable, Options.execute_of_standardOutput found rfl,
    source_of_file kept, source_of_file readable, runInto_of_notMem_devices free]
  have done := exitCodeOf_unlimited content
  refine ⟨⟨done, if_neg hidden, ?_, ?_⟩, ⟨done, rfl, rfl⟩, rfl⟩
  · intro inside
    apply Directory.entryAt?_write_self inside
    rw [Directory.entryAt?_write_self inside noDirectory]
    exact nofun
  · intro p other
    exact (Directory.entryAt?_write_of_ne other _).trans (Directory.entryAt?_write_of_ne other [])

/-- A sum and a lonely negation give the same line of results in a file and on standard output. -/
theorem execute_sinks_agree_sum :
    let d : Directory := ⟨[(["in"], .file [49, 43, 49, 10, 33, 10]), (["r"], .file [48, 48, 48, 48, 48, 48]),
      (["s"], .file [48])]⟩
    let written := execute ["in", "-o", "r"] d
    let printed := execute ["in", "--stdout"] d
    (written.exitCode = 0 ∧ written.output = #[] ∧
      written.directory.entryAt? ⟨.working, ["r"]⟩ = some (.file [50, 46, 48, 48, 10]) ∧
      written.directory.entryAt? ⟨.working, ["s"]⟩ = some (.file [48])) ∧
    (printed.exitCode = 0 ∧ printed.output = #[50, 46, 48, 48, 10] ∧ printed.directory = d) ∧
    written.log = printed.log := by
  intro d written printed
  have results : (Batch.run ⟨[49, 43, 49, 10, 33, 10], none⟩ .unlimited).output = #[50, 46, 48, 48, 10] := by
    decide +kernel
  have name : Arguments.IsValue "in" := ⟨by decide, by simp⟩
  have path : Arguments.IsValue "r" := ⟨by decide, by simp⟩
  have found : d.find "in" = .ok ⟨.working, ["in"]⟩ := rfl
  have writable : d.findForWriting "r" = .ok ⟨.working, ["r"]⟩ := rfl
  obtain ⟨⟨done, silent, held, others⟩, ⟨done', shown, unchanged⟩, log⟩ :=
    execute_sinks_agree (Command.ofArguments_output name path) (Command.ofArguments_standardOutput name)
      found rfl writable (by decide) (by decide)
  rw [results] at held shown
  exact ⟨⟨done, silent, held rfl, others ⟨.working, ["s"]⟩ (by decide)⟩, ⟨done', shown, unchanged⟩, log⟩

end LineCalc.CommandLine
