import Mathlib.Tactic.Lemma

/-!
# Stages that may fail

A stage after another one has a result if both have one. Otherwise its error is that of the first stage
or, if that has a result, that of the second.
-/

namespace Except

variable {ε ε' α β : Type}

/-- Two stages have a result if the first has one that the second has a result for. -/
lemma bind_eq_ok_iff {x : Except ε α} {f : α → Except ε β} {b : β} :
    x >>= f = .ok b ↔ ∃ a, x = .ok a ∧ f a = .ok b := by
  constructor
  · intro done
    cases x with
    | error e => cases done
    | ok a => exact ⟨a, rfl, done⟩
  · rintro ⟨a, rfl, done⟩
    exact done

/-- Two stages fail if the first does, or if the second does with the result of the first. -/
lemma bind_eq_error_iff {x : Except ε α} {f : α → Except ε β} {e : ε} :
    x >>= f = .error e ↔ x = .error e ∨ ∃ a, x = .ok a ∧ f a = .error e := by
  constructor
  · intro failed
    cases x with
    | error e' =>
      cases failed
      exact .inl rfl
    | ok a => exact .inr ⟨a, rfl, failed⟩
  · rintro (rfl | ⟨a, rfl, failed⟩)
    · rfl
    · exact failed

/-- A result that is changed comes from a result. -/
lemma map_eq_ok_iff {x : Except ε α} {f : α → β} {b : β} :
    x.map f = .ok b ↔ ∃ a, x = .ok a ∧ f a = b := by
  cases x with
  | error e => exact ⟨nofun, fun ⟨_, done, _⟩ => nomatch done⟩
  | ok a =>
    constructor
    · exact fun done => ⟨a, rfl, ok.inj done⟩
    · rintro ⟨a', same, rfl⟩
      exact congrArg (ok <| f ·) (ok.inj same)

/-- Changing results keeps errors. -/
lemma map_eq_error_iff {x : Except ε α} {f : α → β} {e : ε} : x.map f = .error e ↔ x = .error e := by
  cases x with
  | error e' =>
    constructor
    · exact fun failed => congrArg error (error.inj failed)
    · exact fun failed => congrArg error (error.inj failed)
  | ok a => exact ⟨nofun, nofun⟩

/-- Changing errors keeps results. -/
lemma mapError_eq_ok_iff {x : Except ε α} {f : ε → ε'} {a : α} :
    x.mapError f = .ok a ↔ x = .ok a := by
  cases x with
  | error e => exact ⟨nofun, nofun⟩
  | ok b => exact ⟨fun done => congrArg ok (ok.inj done), fun done => congrArg ok (ok.inj done)⟩

/-- An error that is changed comes from an error. -/
lemma mapError_eq_error_iff {x : Except ε α} {f : ε → ε'} {e' : ε'} :
    x.mapError f = .error e' ↔ ∃ e, x = .error e ∧ f e = e' := by
  cases x with
  | error e =>
    constructor
    · exact fun failed => ⟨e, rfl, error.inj failed⟩
    · rintro ⟨e, same, rfl⟩
      exact congrArg (error <| f ·) (error.inj same)
  | ok a => exact ⟨nofun, fun ⟨_, failed, _⟩ => nomatch failed⟩

/-- Errors may be changed in each stage or after both. -/
lemma mapError_bind {x : Except ε α} {f : α → Except ε β} {g : ε → ε'} :
    (x >>= f).mapError g = x.mapError g >>= fun a => (f a).mapError g := by
  cases x <;> rfl

/-- What is left without errors is the result. -/
lemma toOption_eq_some_iff {x : Except ε α} {a : α} : x.toOption = some a ↔ x = .ok a := by
  cases x with
  | error e => exact ⟨nofun, nofun⟩
  | ok b => exact ⟨fun found => congrArg ok (Option.some.inj found), fun done => congrArg some (ok.inj done)⟩

end Except
