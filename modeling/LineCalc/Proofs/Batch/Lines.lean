import LineCalc.Batch.Channel
import Mathlib.Data.List.Basic
import Mathlib.Tactic.Lemma

/-!
# Lines and their texts

The lines of bytes are the pieces between the line feeds, in order. The last piece is no line if it is
empty: then there are no bytes, or they end in a line feed. What follows such bytes adds its own lines
to theirs. A line has a text if its bytes, without one carriage return at the end, encode it.

## Lines are what stands between line feeds
-/

namespace LineCalc.Batch

/-- The pieces between line feeds, without an empty one at the end. -/
def pieces (bytes : List UInt8) : List (List UInt8) :=
  let all := bytes.splitOn lineFeed
  if all.getLast? = some [] then all.dropLast else all

namespace Cut

/-- A cut has the pieces between line feeds, the rest being the last of them. -/
lemma splitOn_eq (bytes : List UInt8) :
    bytes.splitOn lineFeed = (ofBytes bytes).finished ++ [(ofBytes bytes).rest] := by
  induction bytes with
  | nil => rfl
  | cons byte bytes ih =>
    have step : ofBytes (byte :: bytes) = cons byte (ofBytes bytes) := rfl
    rw [List.splitOn_cons_eq_if_modifyHead, ih, step]
    generalize ofBytes bytes = cut
    unfold cons
    by_cases feed : byte = lineFeed
    · rw [if_pos (beq_iff_eq.2 feed), if_pos feed]
      rfl
    · rw [if_neg (mt beq_iff_eq.1 feed), if_neg feed]
      cases cut with
      | mk finished rest => cases finished <;> rfl

/-- The lines of a cut are the pieces between the line feeds. -/
lemma lines_ofBytes (bytes : List UInt8) : (ofBytes bytes).lines = pieces bytes := by
  rw [pieces, splitOn_eq, lines]
  generalize ofBytes bytes = cut
  rw [List.getLast?_concat, List.dropLast_concat]
  cases cut with
  | mk finished rest =>
    cases rest with
    | nil => exact List.append_nil finished
    | cons byte rest => rfl

end Cut

section Closed

variable {bytes more : List UInt8}

/-- The pieces of bytes that end in a line feed are all that stands between line feeds. -/
lemma pieces_concat (bytes : List UInt8) : pieces (bytes ++ [lineFeed]) = bytes.splitOn lineFeed := by
  rw [pieces, List.splitOn_append_cons_self, List.splitOn_nil, List.getLast?_concat, if_pos rfl,
    List.dropLast_concat]

/-- Bytes that end a line have one line for each line feed. -/
lemma length_pieces (closed : bytes = [] ∨ bytes.getLast? = some lineFeed) :
    (pieces bytes).length = bytes.count lineFeed := by
  have between (bytes : List UInt8) :
      (bytes.splitOn lineFeed).length = bytes.count lineFeed + 1 := by
    induction bytes with
    | nil => rfl
    | cons byte bytes ih =>
      rw [List.splitOn_cons_eq_if_modifyHead, List.count_cons]
      split
      case isTrue feed => rw [List.length_cons, ih]
      case isFalse other => rw [List.length_modifyHead, ih]
  rcases closed with rfl | last
  · rfl
  · obtain ⟨before, rfl⟩ := List.getLast?_eq_some_iff.1 last
    rw [pieces_concat, between, List.count_append, List.count_singleton_self]

/-- Where bytes end a line, the lines that follow are those of what follows. -/
lemma pieces_append (closed : bytes = [] ∨ bytes.getLast? = some lineFeed) (more : List UInt8) :
    pieces (bytes ++ more) = pieces bytes ++ pieces more := by
  rcases closed with rfl | last
  · rfl
  · obtain ⟨before, rfl⟩ := List.getLast?_eq_some_iff.1 last
    rw [pieces_concat, List.append_assoc, List.singleton_append, pieces, pieces,
      List.splitOn_append_cons_self]
    have nonempty := List.splitOn_ne_nil lineFeed more
    rw [List.getLast?_append_of_ne_nil _ nonempty]
    split
    case isTrue => rw [List.dropLast_append_of_ne_nil nonempty]
    case isFalse => rfl

/-- Lines that are written with a line feed after each are these lines again. -/
lemma pieces_flatMap {lines : List (List UInt8)} (inside : ∀ line ∈ lines, lineFeed ∉ line) :
    pieces (lines.flatMap (· ++ [lineFeed])) = lines := by
  induction lines with
  | nil => rfl
  | cons line lines ih =>
    obtain ⟨here, there⟩ := List.forall_mem_cons.1 inside
    rw [List.flatMap_cons, pieces_append (.inr List.getLast?_concat), pieces_concat,
      List.splitOn_eq_singleton here, ih there]
    rfl

end Closed

/-- Bytes are cut after each byte 10, which no line keeps. A rest is a line unless it is empty. -/
inductive IsCut : List UInt8 → List (List UInt8) → Prop
  | nil : IsCut [] []
  | rest {rest} : rest ≠ [] → 10 ∉ rest → IsCut rest [rest]
  | line {line bytes lines} :
    10 ∉ line → IsCut bytes lines → IsCut (line ++ 10 :: bytes) (line :: lines)

/-- All bytes are cut in some way. -/
lemma exists_isCut (bytes : List UInt8) : ∃ lines, IsCut bytes lines := by
  induction bytes with
  | nil => exact ⟨[], .nil⟩
  | cons byte bytes ih =>
    obtain ⟨lines, cut⟩ := ih
    by_cases feed : byte = 10
    · subst feed
      exact ⟨[] :: lines, .line List.not_mem_nil cut⟩
    -- Any other byte goes to the front of the first line, or is the first of a new one.
    · have other {line : List UInt8} (inside : 10 ∉ line) : 10 ∉ byte :: line :=
        List.not_mem_cons_of_ne_of_not_mem (Ne.symm feed) inside
      cases cut with
      | nil => exact ⟨[[byte]], .rest (List.cons_ne_nil _ _) (other List.not_mem_nil)⟩
      | rest _ inside => exact ⟨_, .rest (List.cons_ne_nil _ _) (other inside)⟩
      | line inside cut => exact ⟨_, .line (other inside) cut⟩

/-- Bytes are cut in one way only, into the pieces between the line feeds. -/
lemma isCut_iff {bytes : List UInt8} {lines : List (List UInt8)} :
    IsCut bytes lines ↔ lines = pieces bytes := by
  have unique {lines : List (List UInt8)} (cut : IsCut bytes lines) : lines = pieces bytes := by
    induction cut with
    | nil => rfl
    | @rest rest nonempty inside =>
      have whole : rest.splitOn lineFeed = [rest] := List.splitOn_eq_singleton inside
      rw [pieces, whole]
      exact (if_neg fun empty => nonempty (Option.some.inj empty)).symm
    | @line line bytes lines inside _ ih =>
      have first : pieces (line ++ [lineFeed]) = [line] :=
        (pieces_concat line).trans (List.splitOn_eq_singleton inside)
      have parts : line ++ 10 :: bytes = line ++ [lineFeed] ++ bytes := List.append_cons line 10 bytes
      rw [parts, pieces_append (.inr List.getLast?_concat), first, ← ih]
      rfl
  constructor
  · exact unique
  · rintro rfl
    obtain ⟨lines, cut⟩ := exists_isCut bytes
    exact unique cut ▸ cut

/-!
## Bytes and texts

Bytes have a text if they are its encoding, and the text is then the only one. A carriage return is one
byte that no other character ends with, so it can be taken from or added to the end of bytes whether they
have a text or not.
-/

/-- The bytes of a text are those of its characters, one after the other. -/
lemma toList_data_toUTF8 (s : String) :
    s.toUTF8.data.toList = s.toList.flatMap String.utf8EncodeChar := by
  rw [String.toUTF8_eq_toByteArray, ← String.utf8Encode_toList, List.utf8Encode,
    List.toList_data_toByteArray]

/-- Bytes have a text if and only if they are its characters, encoded one after the other. -/
lemma fromUTF8?_eq_some_iff {bytes : List UInt8} {s : String} :
    String.fromUTF8? ⟨bytes.toArray⟩ = some s ↔ s.toList.flatMap String.utf8EncodeChar = bytes := by
  rw [← toList_data_toUTF8, String.toUTF8_eq_toByteArray]
  constructor
  · intro found
    obtain ⟨valid, same⟩ := Option.dite_none_right_eq_some.1 found
    cases same
    rfl
  · rintro rfl
    exact dif_pos s.isValidUTF8

/-- A line has a text if the text is encoded by the bytes of the line, without one byte 13 at the end. -/
def IsText (text : String) (line : List UInt8) : Prop :=
  line = text.toUTF8.data.toList ++ [13] ∨
    line = text.toUTF8.data.toList ∧ line.getLast? ≠ some 13

/-- The text of a line is the only one that its bytes tell. -/
lemma text?_eq_some_iff {line : List UInt8} {text : String} :
    text? line = some text ↔ IsText text line := by
  rw [text?, fromUTF8?_eq_some_iff, ← toList_data_toUTF8, dropReturn, IsText]
  split
  case isTrue last =>
    obtain ⟨before, rfl⟩ := List.getLast?_eq_some_iff.1 last
    rw [List.dropLast_concat]
    constructor
    · rintro rfl
      exact .inl rfl
    · rintro (same | ⟨_, other⟩)
      · exact (List.append_cancel_right same).symm
      · exact absurd last other
  case isFalse other =>
    constructor
    · rintro rfl
      exact .inr ⟨rfl, other⟩
    · rintro (rfl | ⟨same, _⟩)
      · exact absurd List.getLast?_concat other
      · exact same.symm

/-- Only one character ends with the byte of a carriage return. -/
lemma eq_return_of_getLast? {c : Char}
    (last : (String.utf8EncodeChar c).getLast? = some carriageReturn) : c = '\r' := by
  have byte {n : Nat} (same : UInt8.ofNat n = carriageReturn) : n % 256 = 13 := by
    rw [← UInt8.toNat_ofNat', same]
    rfl
  -- The last byte of a longer encoding is at least 128.
  have high (n : Nat) : UInt8.ofNat (n % 64 + 128) ≠ carriageReturn := by
    intro same
    have := byte same
    omega
  rw [String.utf8EncodeChar] at last
  split at last
  case isTrue small =>
    have code := byte (Option.some.inj last)
    apply Char.toNat_inj.1
    change c.val.toNat = 13
    omega
  case isFalse =>
    split at last
    case isTrue => exact absurd (Option.some.inj last) (high _)
    case isFalse =>
      split at last
      case isTrue => exact absurd (Option.some.inj last) (high _)
      case isFalse => exact absurd (Option.some.inj last) (high _)

/-- A carriage return behind bytes is a carriage return behind their text. -/
lemma fromUTF8?_concat_return (bytes : List UInt8) :
    String.fromUTF8? ⟨(bytes ++ [carriageReturn]).toArray⟩ =
      (String.fromUTF8? ⟨bytes.toArray⟩).map (·.push '\r') := by
  have encoded : String.utf8EncodeChar '\r' = [carriageReturn] := by decide
  ext s
  rw [fromUTF8?_eq_some_iff, Option.map_eq_some_iff]
  constructor
  · intro whole
    rcases List.eq_nil_or_concat' s.toList with empty | ⟨before, c, same⟩
    · rw [empty] at whole
      cases List.append_eq_nil_iff.1 whole.symm |>.2
    · rw [same, List.flatMap_append, List.flatMap_singleton] at whole
      have last := congrArg List.getLast? whole
      rw [List.getLast?_append_of_ne_nil _ String.utf8EncodeChar_ne_nil, List.getLast?_concat] at last
      cases eq_return_of_getLast? last
      rw [encoded] at whole
      refine ⟨String.ofList before, fromUTF8?_eq_some_iff.2 ?_, ?_⟩
      · rw [String.toList_ofList]
        exact List.append_cancel_right whole
      · apply String.toList_inj.1
        rw [String.toList_push, String.toList_ofList, same]
  · rintro ⟨t, found, rfl⟩
    rw [String.toList_push, List.flatMap_append, fromUTF8?_eq_some_iff.1 found, List.flatMap_singleton,
      encoded]

end LineCalc.Batch
