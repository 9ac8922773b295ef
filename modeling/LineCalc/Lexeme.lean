/-!
# Lexemes

A line is cut into lexemes of the greatest length: integers, reals with digits on at least one side
of a point, and single characters. The cut is made from the right, where each character joins the
lexemes after it; a point that gets no digit on either side stays alone, and the characters between
lexemes are kept as gaps, so that nothing of the line is lost.
-/

namespace LineCalc

/-- What a line is made of: gaps, numbers, lonely points and any other characters. -/
inductive Lexeme
  | gap (c : Char)
  | integer (digits : List Char)
  | real (whole fraction : List Char)
  | point
  | symbol (c : Char)
deriving DecidableEq, Repr

namespace Lexeme

/-- Space, tab, carriage return, line feed and form feed separate lexemes. -/
def isGap (c : Char) : Bool :=
  c == ' ' || c == '\t' || c == '\r' || c == '\n' || c == '\x0c'

/-- The characters of a lexeme as they stand in the line. -/
def chars : Lexeme → List Char
  | gap c => [c]
  | integer digits => digits
  | real whole fraction => whole ++ '.' :: fraction
  | point => ['.']
  | symbol c => [c]

/-- The number of bytes that the lexeme takes in a line. -/
def size (l : Lexeme) : Nat := (String.ofList l.chars).utf8ByteSize

/-- A digit in front of lexemes starts their first number, or is a number by itself. -/
def attachDigit (c : Char) : List Lexeme → List Lexeme
  | integer digits :: rest => integer (c :: digits) :: rest
  | real whole fraction :: rest => real (c :: whole) fraction :: rest
  | point :: rest => real [c] [] :: rest
  | rest => integer [c] :: rest

/--
A point in front of lexemes takes the digits that follow it. If those were the whole part of a
real, that real's own point is left with the fraction alone.
-/
def attachPoint : List Lexeme → List Lexeme
  | integer digits :: rest => real [] digits :: rest
  | real (c :: whole) [] :: rest => real [] (c :: whole) :: point :: rest
  | real (c :: whole) fraction :: rest => real [] (c :: whole) :: real [] fraction :: rest
  | rest => point :: rest

/-- One more character in front of lexemes. A digit or a point may become a part of the first one. -/
def attach (c : Char) (rest : List Lexeme) : List Lexeme :=
  if c.isDigit then attachDigit c rest
  else if c = '.' then attachPoint rest
  else if isGap c then gap c :: rest
  else symbol c :: rest

/-- The lexemes of a line, from right to left. -/
def split (line : List Char) : List Lexeme := line.foldr attach []

/-- Nothing is lost when a character joins the lexemes after it. -/
theorem chars_attach (c : Char) (rest : List Lexeme) :
    (attach c rest).flatMap chars = c :: rest.flatMap chars := by
  unfold attach
  split
  · unfold attachDigit
    split <;> simp [chars]
  · split
    · rename_i point
      subst point
      unfold attachPoint
      split <;> simp [chars]
    · split <;> simp [chars]

/-- The lexemes of a line, put together, are the line. -/
theorem flatMap_chars_split (line : List Char) : (split line).flatMap chars = line := by
  induction line with
  | nil => rfl
  | cons c line ih =>
    rw [split, List.foldr_cons, chars_attach]
    exact congrArg (c :: ·) ih

end Lexeme

end LineCalc

/-!
## Blanks

The characters with the property White_Space. They are removed from both ends of a line before it is
quoted in a report. The gaps between lexemes are five of them; the others are no gaps, and make a line
fail where they stand inside it.
-/

namespace LineCalc.Blank

/-- The first and last characters of the ranges of blanks. -/
def ranges : List (Nat × Nat) :=
  [(0x9, 0xd), (0x20, 0x20), (0x85, 0x85), (0xa0, 0xa0), (0x1680, 0x1680), (0x2000, 0x200a),
    (0x2028, 0x2029), (0x202f, 0x202f), (0x205f, 0x205f), (0x3000, 0x3000)]

/-- Whether a character lies in one of these ranges. -/
def isBlank (c : Char) : Bool :=
  ranges.any fun (first, last) => decide (first ≤ c.toNat ∧ c.toNat ≤ last)

/-- Characters without the blanks in front. -/
def trimStart (cs : List Char) : List Char := cs.dropWhile isBlank

/-- Characters without the blanks in front and behind, those behind taken as those in front of the reverse. -/
def trimChars (cs : List Char) : List Char := (trimStart (trimStart cs).reverse).reverse

/-- A line without the blanks at either end. -/
def trim (line : String) : String := String.ofList (trimChars line.toList)

/-- Every gap is a blank, so the gaps at the ends of a line are not quoted. -/
theorem isBlank_of_isGap {c : Char} (gap : Lexeme.isGap c) : isBlank c := by
  simp only [Lexeme.isGap, Bool.or_eq_true, beq_iff_eq] at gap
  rcases gap with (((rfl | rfl) | rfl) | rfl) | rfl <;> decide

/-- One more blank at the end makes no difference. -/
theorem trimChars_concat {c : Char} (blank : isBlank c) (cs : List Char) :
    trimChars (cs ++ [c]) = trimChars cs := by
  have dropped (rest : List Char) : (c :: rest).dropWhile isBlank = rest.dropWhile isBlank := by
    rw [List.dropWhile_cons, if_pos blank]
  simp only [trimChars, trimStart]
  rw [List.dropWhile_append]
  split
  case isTrue empty =>
    rw [List.isEmpty_iff.1 empty, dropped]
    rfl
  case isFalse => rw [List.reverse_append, List.reverse_singleton, List.singleton_append, dropped]

end LineCalc.Blank
