import LineCalc.Lexeme
import Mathlib.Tactic.Lemma

/-!
# Cutting a line at a lexeme

A character joins nothing but the first lexeme after it, and only if both have to do with numbers. So
a line can be cut wherever the characters on the two sides of the cut are not both digits or points,
and the lexemes of its parts, put together, are the lexemes of the whole. A list of digits is one
lexeme, and so are two with a point between them.
-/

namespace LineCalc.Lexeme

/-- The characters of numbers. -/
def isNumeric (c : Char) : Bool := c.isDigit || c == '.'

/-- A digit is a part of numbers. -/
lemma isNumeric_of_isDigit {c : Char} (digit : c.isDigit) : isNumeric c := by
  rw [isNumeric, digit, Bool.true_or]

/-- What is no part of numbers is no digit. -/
lemma isDigit_of_not_isNumeric {c : Char} (other : isNumeric c = false) : c.isDigit = false :=
  (Bool.or_eq_false_iff.1 other).1

/-- A gap is no part of numbers. -/
lemma isNumeric_of_isGap {c : Char} (gap : isGap c) : isNumeric c = false := by
  simp only [isGap, Bool.or_eq_true, beq_iff_eq] at gap
  rcases gap with (((rfl | rfl) | rfl) | rfl) | rfl <;> decide

/-- Not both characters next to the cut are parts of numbers. -/
def Separable (before after : List Char) : Prop :=
  ∀ x ∈ before.getLast?, isNumeric x → ∀ y ∈ after.head?, ¬ isNumeric y

/-- A cut does not depend on what stands far in front of it. -/
lemma Separable.of_cons {c : Char} {before after : List Char}
    (separable : Separable (c :: before) after) : Separable before after := by
  cases before with
  | nil => exact fun x last => nomatch last
  | cons d before =>
    rw [Separable, List.getLast?_cons_cons] at separable
    exact separable

/-- Behind characters that are no parts of numbers a line can be cut. -/
lemma Separable.of_before {before : List Char} (other : ∀ c ∈ before, isNumeric c = false)
    (after : List Char) : Separable before after := by
  intro x last numeric
  rw [other x (List.mem_of_mem_getLast? last)] at numeric
  cases numeric

/-- In front of a character that is no part of numbers a line can be cut. -/
lemma Separable.before_cons {c : Char} (other : isNumeric c = false) (before after : List Char) :
    Separable before (c :: after) := by
  intro x _ _ y first
  cases first
  rw [other]
  exact Bool.false_ne_true

/-- In front of characters that are no parts of numbers a line can be cut. -/
lemma Separable.of_after {after : List Char} (other : ∀ c ∈ after, isNumeric c = false)
    (before : List Char) : Separable before after := by
  cases after with
  | nil => exact fun _ _ _ _ first => nomatch first
  | cons c after => exact .before_cons (other c List.mem_cons_self) before after

/-- Gaps may be put into a cut. -/
lemma Separable.append_gaps {before gaps after : List Char} (separable : Separable before after)
    (only : ∀ c ∈ gaps, isGap c) : Separable before (gaps ++ after) := by
  cases gaps with
  | nil => exact separable
  | cons c gaps => exact .before_cons (isNumeric_of_isGap (only c List.mem_cons_self)) before (gaps ++ after)

/-- The lexemes of a line are made one character at a time, from the right. -/
lemma split_cons (c : Char) (line : List Char) : split (c :: line) = attach c (split line) := rfl

/-- No character is lost. -/
lemma attach_ne_nil (c : Char) (rest : List Lexeme) : attach c rest ≠ [] := by
  intro empty
  have chars := chars_attach c rest
  rw [empty] at chars
  cases chars

/-- Only the first lexeme has to do with the character in front. -/
lemma attach_append (c : Char) {first : List Lexeme} (nonempty : first ≠ []) (rest : List Lexeme) :
    attach c (first ++ rest) = attach c first ++ rest := by
  cases first with
  | nil => exact absurd rfl nonempty
  | cons lexeme first =>
    rw [List.cons_append]
    unfold attach
    split
    · cases lexeme <;> rfl
    · split
      · unfold attachPoint
        cases lexeme with
        | real whole fraction =>
          cases whole with
          | nil => rfl
          | cons d whole => cases fraction <;> rfl
        | _ => rfl
      · split <;> rfl

/-- A character that is no part of numbers is a lexeme by itself. -/
lemma attach_of_not_isNumeric {c : Char} (other : isNumeric c = false) (rest : List Lexeme) :
    attach c rest = (if isGap c then gap c else symbol c) :: rest := by
  rw [isNumeric, Bool.or_eq_false_iff, beq_eq_false_iff_ne] at other
  rw [attach, if_neg (by rw [other.1]; decide), if_neg other.2]
  split <;> rfl

/-- A character in front of lexemes that do not start with a number is a lexeme by itself. -/
lemma attach_split {c : Char} {line : List Char}
    (separable : isNumeric c → ∀ y ∈ line.head?, ¬ isNumeric y) :
    attach c (split line) = attach c [] ++ split line := by
  cases numeric : isNumeric c with
  | false =>
    rw [attach_of_not_isNumeric numeric, attach_of_not_isNumeric numeric]
    rfl
  | true =>
    cases line with
    | nil => exact (List.append_nil _).symm
    | cons d line =>
      -- The next lexeme is then a gap or a symbol, which takes no character in front.
      have other : isNumeric d = false := Bool.eq_false_iff.2 (separable numeric d rfl)
      rw [split_cons, attach_of_not_isNumeric other]
      unfold attach
      split
      · split <;> rfl
      · split
        · split <;> rfl
        · split <;> rfl

/-- The lexemes of a line are those of its parts, unless a number goes on beyond the cut. -/
lemma split_append {before after : List Char} (separable : Separable before after) :
    split (before ++ after) = split before ++ split after := by
  induction before with
  | nil => rfl
  | cons c before ih =>
    rw [List.cons_append, split_cons, split_cons, ih separable.of_cons]
    cases before with
    | nil => exact attach_split (separable c rfl)
    | cons d before => exact attach_append c (attach_ne_nil d (split before)) (split after)

/-- A character that is no part of a number is cut off on both sides. -/
lemma split_append_cons {c : Char} (other : isNumeric c = false) (before after : List Char) :
    split (before ++ c :: after) = split before ++ (if isGap c then gap c else symbol c) :: split after := by
  rw [split_append (.before_cons other before after), split_cons, attach_of_not_isNumeric other]

section Numbers

variable {whole fraction : List Char}

/-- A list of digits is one lexeme. -/
lemma split_digits (digits : ∀ c ∈ whole, c.isDigit) (nonempty : whole ≠ []) :
    split whole = [integer whole] := by
  induction whole with
  | nil => exact absurd rfl nonempty
  | cons c whole ih =>
    have digit := digits c List.mem_cons_self
    rw [split_cons, attach, if_pos digit]
    cases whole with
    | nil => rfl
    | cons d whole =>
      rw [ih (fun x mem => digits x (List.mem_cons_of_mem c mem)) (List.cons_ne_nil d whole)]
      rfl

/-- A point with digits on at least one side is one lexeme with them. -/
lemma split_decimal (left : ∀ c ∈ whole, c.isDigit) (right : ∀ c ∈ fraction, c.isDigit)
    (nonempty : whole ++ fraction ≠ []) : split (whole ++ '.' :: fraction) = [real whole fraction] := by
  induction whole with
  | nil =>
    rw [List.nil_append, split_cons, split_digits right nonempty]
    rfl
  | cons c whole ih =>
    rw [List.cons_append, split_cons, attach, if_pos (left c List.mem_cons_self)]
    by_cases rest : whole ++ fraction = []
    · obtain ⟨rfl, rfl⟩ := List.append_eq_nil_iff.1 rest
      rfl
    · rw [ih (fun x mem => left x (List.mem_cons_of_mem c mem)) rest]
      rfl

end Numbers

end LineCalc.Lexeme
