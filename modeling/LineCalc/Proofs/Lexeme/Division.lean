import LineCalc.Proofs.Lexeme
import Mathlib.Data.List.Basic

/-!
# The division of a line

A line is a sequence of lexemes, none of which takes the character behind it. There is exactly one such
division of every line, since what a line starts with is the longest lexeme that it can start with. The
lexemes into which a line is split are this division.
-/

namespace LineCalc.Lexeme

/-- What the lexemes consist of. -/
inductive WellFormed : Lexeme → Prop
  | gap {c : Char} : isGap c → WellFormed (gap c)
  | integer {digits : List Char} :
    digits ≠ [] → (∀ c ∈ digits, c.isDigit) → WellFormed (integer digits)
  | real {whole fraction : List Char} :
    whole ++ fraction ≠ [] → (∀ c ∈ whole, c.isDigit) → (∀ c ∈ fraction, c.isDigit) →
    WellFormed (real whole fraction)
  | point : WellFormed point
  | symbol {c : Char} : isNumeric c = false → isGap c = false → WellFormed (symbol c)

/-- Whether a lexeme takes one more character. -/
def takes : Lexeme → Char → Bool
  | integer _, c => isNumeric c
  | real _ _, c => c.isDigit
  | point, c => c.isDigit
  | gap _, _ => false
  | symbol _, _ => false

/-- The divisions of a line into lexemes that take nothing of what follows them. -/
inductive Divided : List Lexeme → List Char → Prop
  | nil : Divided [] []
  | cons {l : Lexeme} {lexemes : List Lexeme} {line : List Char} :
    l.WellFormed → (∀ c ∈ line.head?, l.takes c = false) → Divided lexemes line →
    Divided (l :: lexemes) (l.chars ++ line)

variable {l l' : Lexeme} {lexemes lexemes' : List Lexeme} {line line' : List Char} {c : Char}

section Longest

/-- A lexeme has characters. -/
lemma WellFormed.chars_ne_nil (wf : l.WellFormed) : l.chars ≠ [] := by
  cases wf with
  | integer nonempty => exact nonempty
  | real => exact List.append_ne_nil_of_right_ne_nil _ (List.cons_ne_nil _ _)
  | _ => exact List.cons_ne_nil _ _

/-- A lexeme of more than one character is a number. -/
lemma WellFormed.isNumeric_of_mem (wf : l.WellFormed) (long : 1 < l.chars.length) (mem : c ∈ l.chars) :
    isNumeric c := by
  cases wf with
  | integer nonempty digits => exact isNumeric_of_isDigit (digits c mem)
  | real nonempty left right =>
    rcases List.mem_append.1 mem with mem | mem
    · exact isNumeric_of_isDigit (left c mem)
    rcases List.mem_cons.1 mem with rfl | mem
    · rfl
    · exact isNumeric_of_isDigit (right c mem)
  | _ => exact absurd long (Nat.lt_irrefl 1)

/-- There is no point among digits. -/
lemma count_point_digits {digits : List Char} (all : ∀ c ∈ digits, c.isDigit) :
    digits.count '.' = 0 := by
  rw [List.count_eq_zero]
  exact fun mem => nomatch all '.' mem

/-- No lexeme has a second point. -/
lemma WellFormed.count_point_le (wf : l.WellFormed) : l.chars.count '.' ≤ 1 := by
  cases wf with
  | integer nonempty digits => exact Nat.le_succ_of_le (Nat.le_of_eq (count_point_digits digits))
  | real nonempty left right =>
    have before := count_point_digits left
    have behind := count_point_digits right
    rw [chars, List.count_append, List.count_cons_self]
    omega
  | _ => exact List.count_le_length

/-- If a longer lexeme goes on with a character, the shorter one takes it. -/
lemma WellFormed.takes_of_append_cons {rest : List Char} (wf : l.WellFormed) (wf' : l'.WellFormed)
    (longer : l'.chars = l.chars ++ c :: rest) : l.takes c := by
  have long : 1 < l'.chars.length := by
    rw [longer, List.length_append, List.length_cons]
    have := List.length_pos_iff.2 wf.chars_ne_nil
    omega
  have before (d : Char) (mem : d ∈ l.chars) : isNumeric d :=
    wf'.isNumeric_of_mem long (longer ▸ List.mem_append_left _ mem)
  have here : isNumeric c :=
    wf'.isNumeric_of_mem long (longer ▸ List.mem_append_right _ List.mem_cons_self)
  -- The longer lexeme has one point only, so after that one it goes on with digits.
  have digit (point : '.' ∈ l.chars) : c.isDigit := by
    rw [isNumeric, Bool.or_eq_true, beq_iff_eq] at here
    rcases here with digit | rfl
    · exact digit
    · have one := wf'.count_point_le
      rw [longer, List.count_append, List.count_cons_self] at one
      have := List.count_pos_iff.2 point
      omega
  cases wf with
  | gap gap =>
    have numeric := before _ List.mem_cons_self
    rw [isNumeric_of_isGap gap] at numeric
    cases numeric
  | integer => exact here
  | real => exact digit (List.mem_append_right _ List.mem_cons_self)
  | point => exact digit List.mem_cons_self
  | symbol other =>
    have numeric := before _ List.mem_cons_self
    rw [other] at numeric
    cases numeric

/-- A lexeme that takes nothing of what follows is the longest that starts where it starts. -/
lemma WellFormed.length_le (wf : l.WellFormed) (stop : ∀ c ∈ line.head?, l.takes c = false)
    (wf' : l'.WellFormed) (starts : l'.chars <+: l.chars ++ line) :
    l'.chars.length ≤ l.chars.length := by
  obtain ⟨rest, same⟩ := starts
  rcases List.append_eq_append_iff.1 same with ⟨more, longer, _⟩ | ⟨more, longer, rfl⟩
  · rw [longer, List.length_append]
    exact Nat.le_add_right _ _
  · cases more with
    | nil =>
      rw [List.append_nil] at longer
      exact Nat.le_of_eq (congrArg List.length longer)
    | cons c more =>
      have taken := wf.takes_of_append_cons wf' longer
      rw [stop c rfl] at taken
      cases taken

end Longest

section Unique

/-- The characters of a lexeme are split into that lexeme alone. -/
lemma WellFormed.split_chars (wf : l.WellFormed) : split l.chars = [l] := by
  cases wf with
  | gap gap =>
    rw [chars, split_cons, attach_of_not_isNumeric (isNumeric_of_isGap gap), if_pos gap]
    rfl
  | integer nonempty digits => exact split_digits digits nonempty
  | real nonempty left right => exact split_decimal left right nonempty
  | point => rfl
  | symbol other visible =>
    rw [chars, split_cons, attach_of_not_isNumeric other, visible]
    rfl

/-- A lexeme is told by its characters. -/
lemma WellFormed.eq_of_chars (wf : l.WellFormed) (wf' : l'.WellFormed) (same : l.chars = l'.chars) :
    l = l' := by
  have split : [l] = [l'] := by rw [← wf.split_chars, ← wf'.split_chars, same]
  exact List.singleton_inj.1 split

/-- There is only one lexeme that a line can start with. -/
lemma WellFormed.eq_of_append (wf : l.WellFormed) (wf' : l'.WellFormed)
    (stop : ∀ c ∈ line.head?, l.takes c = false) (stop' : ∀ c ∈ line'.head?, l'.takes c = false)
    (same : l.chars ++ line = l'.chars ++ line') : l = l' ∧ line = line' := by
  rcases List.append_eq_append_iff.1 same with ⟨more, chars, rfl⟩ | ⟨more, chars, rfl⟩
  · cases more with
    | nil => exact ⟨wf.eq_of_chars wf' (by simpa using chars.symm), rfl⟩
    | cons c more =>
      have taken := wf.takes_of_append_cons wf' chars
      rw [stop c rfl] at taken
      cases taken
  · cases more with
    | nil => exact ⟨wf.eq_of_chars wf' (by simpa using chars), rfl⟩
    | cons c more =>
      have taken := wf'.takes_of_append_cons wf chars
      rw [stop' c rfl] at taken
      cases taken

/-- A line has only one division. -/
lemma Divided.unique (divided : Divided lexemes line) (divided' : Divided lexemes' line) :
    lexemes = lexemes' := by
  induction divided generalizing lexemes' with
  | nil =>
    generalize whole : [] = line at divided'
    cases divided' with
    | nil => rfl
    | cons wf => exact absurd (List.append_eq_nil_iff.1 whole.symm).1 wf.chars_ne_nil
  | @cons l lexemes line wf stop divided ih =>
    generalize whole : l.chars ++ line = joined at divided'
    cases divided' with
    | nil => exact absurd (List.append_eq_nil_iff.1 whole).1 wf.chars_ne_nil
    | cons wf' stop' divided' =>
      obtain ⟨rfl, rfl⟩ := wf.eq_of_append wf' stop stop' whole
      rw [ih divided']

end Unique

section Existence

/-- A digit in front of a division joins the number that it starts with, if any. -/
lemma Divided.attachDigit (divided : Divided lexemes line) (digit : c.isDigit) :
    Divided (attachDigit c lexemes) (c :: line) := by
  have alone : (integer [c]).WellFormed :=
    .integer (List.cons_ne_nil _ _) (List.forall_mem_singleton.2 digit)
  cases divided with
  | nil => exact .cons alone nofun .nil
  | cons wf stop divided =>
    cases wf with
    | gap gap =>
      refine .cons alone ?_ (.cons (.gap gap) stop divided)
      intro d first
      cases first
      exact isNumeric_of_isGap gap
    | @integer digits _ all =>
      exact .cons (l := integer (c :: digits))
        (.integer (List.cons_ne_nil _ _) (List.forall_mem_cons.2 ⟨digit, all⟩)) stop divided
    | @real whole fraction _ left right =>
      exact .cons (l := real (c :: whole) fraction)
        (.real (List.cons_ne_nil _ _) (List.forall_mem_cons.2 ⟨digit, left⟩) right) stop divided
    | point =>
      exact .cons (l := real [c] [])
        (.real (List.cons_ne_nil _ _) (List.forall_mem_singleton.2 digit) nofun) stop divided
    | symbol other visible =>
      refine .cons alone ?_ (.cons (.symbol other visible) stop divided)
      intro d first
      cases first
      exact other

/-- A point in front of a division takes the digits that it starts with. -/
lemma Divided.attachPoint (divided : Divided lexemes line) :
    Divided (attachPoint lexemes) ('.' :: line) := by
  cases divided with
  | nil => exact .cons .point nofun .nil
  | cons wf stop divided =>
    cases wf with
    | gap gap =>
      refine .cons .point ?_ (.cons (.gap gap) stop divided)
      intro d first
      cases first
      exact isDigit_of_not_isNumeric (isNumeric_of_isGap gap)
    | @integer digits nonempty all =>
      refine .cons (l := real [] digits) (.real nonempty nofun all) ?_ divided
      exact fun d first => isDigit_of_not_isNumeric (stop d first)
    | @real whole fraction nonempty left right =>
      cases whole with
      | nil =>
        -- Two points stand next to each other, and the first gets no digits.
        refine .cons .point ?_ (.cons (.real nonempty left right) stop divided)
        intro d first
        cases first
        rfl
      | cons d whole =>
        -- The digits go to the point in front of them, and the point behind them starts anew.
        have taken : (real [] (d :: whole)).WellFormed := .real (List.cons_ne_nil _ _) nofun left
        rw [chars, List.append_assoc]
        cases fraction with
        | nil =>
          refine .cons taken ?_ (.cons .point stop divided)
          intro e first
          cases first
          rfl
        | cons e fraction =>
          refine .cons taken ?_ (.cons (.real (List.cons_ne_nil _ _) nofun right) stop divided)
          intro e first
          cases first
          rfl
    | point =>
      refine .cons .point ?_ (.cons .point stop divided)
      intro d first
      cases first
      rfl
    | symbol other visible =>
      refine .cons .point ?_ (.cons (.symbol other visible) stop divided)
      intro d first
      cases first
      exact isDigit_of_not_isNumeric other

/-- A division stays one when a character joins it in front. -/
lemma Divided.attach (divided : Divided lexemes line) (c : Char) :
    Divided (attach c lexemes) (c :: line) := by
  unfold Lexeme.attach
  split
  case isTrue digit => exact divided.attachDigit digit
  case isFalse notDigit =>
    split
    case isTrue point =>
      rw [point]
      exact divided.attachPoint
    case isFalse notPoint =>
      have other : isNumeric c = false := by
        rw [isNumeric, Bool.or_eq_false_iff, beq_eq_false_iff_ne]
        exact ⟨Bool.eq_false_iff.2 notDigit, notPoint⟩
      split
      case isTrue gap => exact .cons (.gap gap) (fun _ _ => rfl) divided
      case isFalse visible =>
        exact .cons (.symbol other (Bool.eq_false_iff.2 visible)) (fun _ _ => rfl) divided

/-- The lexemes of a line are its division. -/
lemma divided_split (line : List Char) : Divided (split line) line := by
  induction line with
  | nil => exact .nil
  | cons c line ih => exact ih.attach c

end Existence

/-- The lexemes into which a line is split are its only division. -/
lemma divided_iff : Divided lexemes line ↔ lexemes = split line := by
  constructor
  · exact fun divided => divided.unique (divided_split line)
  · rintro rfl
    exact divided_split line

example : split "1..2.".toList = [real ['1'] [], real [] ['2'], point] := by decide

end LineCalc.Lexeme
