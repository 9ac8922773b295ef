import LineCalc.CommandLine.Directory
import LineCalc.Proofs.Except

/-!
# Writing changes one place

What is written at a place inside the directory stands there afterwards, and everything else is as it
was. A path to read leads to something, and a path to write never leads to a directory.
-/

namespace LineCalc.CommandLine

namespace Directory

variable {d : Directory} {location other : Location} {entry : Entry} {p q : Place}
  {content : List UInt8} {path : String}

section Put

variable {entries : List (Location × Entry)}

/-- The entries after those at a location were replaced. -/
def replaced (entries : List (Location × Entry)) (location : Location) (entry : Entry) :
    List (Location × Entry) :=
  entries.map fun old => if old.1 == location then (location, entry) else old

/-- What was put in the place of an entry is found there. -/
lemma lookup_replaced_self (present : entries.any (·.1 == location)) :
    (replaced entries location entry).lookup location = some entry := by
  induction entries with
  | nil => cases present
  | cons old entries ih =>
    obtain ⟨at', found⟩ := old
    rw [replaced, List.map_cons, ← replaced, List.lookup_cons]
    by_cases here : at' = location
    · rw [if_pos (beq_iff_eq.2 here), beq_self_eq_true]
    · have different : (location == at') = false := beq_eq_false_iff_ne.2 (Ne.symm here)
      rw [List.any_cons, beq_eq_false_iff_ne.2 here, Bool.false_or] at present
      rw [if_neg (mt beq_iff_eq.1 here), different]
      exact ih present

/-- Any other entry is found as before. -/
lemma lookup_replaced_of_ne (different : other ≠ location) :
    (replaced entries location entry).lookup other = entries.lookup other := by
  induction entries with
  | nil => rfl
  | cons old entries ih =>
    obtain ⟨at', found⟩ := old
    rw [replaced, List.map_cons, ← replaced, List.lookup_cons, List.lookup_cons, ih]
    by_cases here : at' = location
    · subst here
      rw [if_pos (beq_iff_eq.2 rfl), beq_eq_false_iff_ne.2 different]
    · rw [if_neg (mt beq_iff_eq.1 here)]

/-- What is put at a location stands there. -/
lemma entry?_put_self (nonempty : location ≠ []) :
    entry? (d.put location entry) location = some entry := by
  unfold entry?
  rw [if_neg (mt List.isEmpty_iff.1 nonempty), put]
  split
  case isTrue present => exact lookup_replaced_self present
  case isFalse absent =>
    have missing : d.entries.lookup location = none := by
      rw [List.lookup_eq_none_iff]
      intro old mem
      rw [bne_iff_ne]
      intro same
      exact absent (List.any_eq_true.2 ⟨old, mem, beq_iff_eq.2 same.symm⟩)
    rw [List.lookup_append, missing, List.lookup_cons, beq_self_eq_true]
    rfl

/-- What is put at a location leaves what stands anywhere else. -/
lemma entry?_put_of_ne (different : other ≠ location) :
    entry? (d.put location entry) other = d.entry? other := by
  unfold entry?
  split
  case isTrue => rfl
  case isFalse =>
    rw [put]
    split
    case isTrue present => exact lookup_replaced_of_ne different
    case isFalse absent =>
      rw [List.lookup_append, List.lookup_cons, beq_eq_false_iff_ne.2 different]
      exact Option.or_none

end Put

section Write

/-- What is written outside leaves the directory as it is. -/
lemma write_of_outside (outside : p.base ≠ .working) (content : List UInt8) :
    d.write p content = d := by
  rw [write]
  split
  case h_1 inside => exact absurd inside outside
  case h_2 => rfl

/-- What is written where no directory is stands there. -/
lemma entryAt?_write_self (inside : p.base = .working) (free : d.entryAt? p ≠ some .directory)
    (content : List UInt8) : (d.write p content).entryAt? p = some (.file content) := by
  rw [entryAt?, inside] at free ⊢
  rw [write, inside]
  apply entry?_put_self
  intro here
  rw [here] at free
  exact free rfl

/-- What is written changes nothing elsewhere. -/
lemma entryAt?_write_of_ne (different : q ≠ p) (content : List UInt8) :
    (d.write p content).entryAt? q = d.entryAt? q := by
  by_cases inside : p.base = .working
  · rw [write, inside]
    rw [entryAt?, entryAt?]
    cases base : q.base with
    | working =>
      apply entry?_put_of_ne
      intro same
      apply different
      cases p
      cases q
      simp_all
    | above => rfl
    | root => rfl
  · rw [write_of_outside inside]

/-- Outside the directory only devices hold anything, and they hold nothing. -/
lemma eq_nil_of_outside (found : d.entryAt? p = some (.file content)) (outside : p.base ≠ .working) :
    content = [] := by
  rw [entryAt?] at found
  cases base : p.base with
  | working => exact absurd base outside
  | above =>
    rw [base] at found
    dsimp only at found
    split at found <;> cases found
  | root =>
    rw [base] at found
    dsimp only [Place.systemEntry?] at found
    split at found
    · cases found
      rfl
    · split at found
      · cases found
      · split at found <;> cases found
      · cases found

end Write

section Find

/-- A path that can be read leads to something. -/
lemma entryAt?_ne_none_of_find (found : d.find path = .ok p) : d.entryAt? p ≠ none := by
  rw [find] at found
  obtain ⟨_, _, found⟩ := Except.bind_eq_ok_iff.1 found
  obtain ⟨place, _, found⟩ := Except.bind_eq_ok_iff.1 found
  split at found
  case isTrue missing => cases found
  case isFalse present =>
    cases found
    exact mt Option.isNone_iff_eq_none.2 present

/-- A path that can be written leads to no directory. -/
lemma entryAt?_ne_directory_of_findForWriting (found : d.findForWriting path = .ok p) :
    d.entryAt? p ≠ some .directory := by
  rw [findForWriting] at found
  obtain ⟨_, _, found⟩ := Except.bind_eq_ok_iff.1 found
  obtain ⟨parent, _, found⟩ := Except.bind_eq_ok_iff.1 found
  obtain ⟨_, _, found⟩ := Except.bind_eq_ok_iff.1 found
  split at found
  case isTrue slash => cases found
  case isFalse =>
    obtain ⟨place, _, found⟩ := Except.bind_eq_ok_iff.1 found
    split at found
    case isTrue directory => cases found
    case isFalse free =>
      cases found
      exact free

end Find

end Directory

end LineCalc.CommandLine
