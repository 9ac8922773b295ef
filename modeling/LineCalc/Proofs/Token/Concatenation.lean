import LineCalc.Proofs.Token.Reading

/-!
# Tokens of lines that are put together

Lexemes are read one after the other, so the tokens of lexemes that are put together are those of the
first ones followed by those of the rest, and an error in the rest is found further on by the size of the
first ones. The same holds of lines, unless a number goes on beyond the cut. Characters that are no parts
of numbers are tokens by themselves, except the gaps.
-/

namespace LineCalc

/-- The same error, found so many bytes further on. -/
def LexicalError.moved (size : Nat) : LexicalError → LexicalError
  | strayPoint column => strayPoint (size + column)
  | literalTooLarge literal column => literalTooLarge literal (size + column)

namespace Lexeme

/-- The characters that are no gaps. -/
def visible (cs : List Char) : List Char := cs.filter (!isGap ·)

/-- What can be seen of two texts is what can be seen of each. -/
lemma visible_append (cs cs' : List Char) : visible (cs ++ cs') = visible cs ++ visible cs' :=
  List.filter_append cs cs'

/-- All characters but the gaps can be seen. -/
lemma mem_visible_iff {c : Char} {cs : List Char} : c ∈ visible cs ↔ c ∈ cs ∧ isGap c = false := by
  rw [visible, List.mem_filter, Bool.not_eq_true']

end Lexeme

namespace Token

section Columns

/-- A number that does not fit is complained of further on. -/
lemma fitting_add (l : Lexeme) (size column : Nat) (found : Option Token) :
    fitting l (size + column) found = (fitting l column found).mapError (.moved size) := by
  cases found <;> rfl

/-- A lexeme further on is the same token, or fails further on. -/
lemma ofLexeme_add (l : Lexeme) (size column : Nat) :
    ofLexeme (size + column) l = (ofLexeme column l).mapError (.moved size) := by
  have number (found : Option Token) :
      (fitting l (size + column) found).map ([·]) =
        ((fitting l column found).map ([·])).mapError (.moved size) := by
    rw [fitting_add]
    cases fitting l column found <;> rfl
  cases l with
  | integer digits => exact number (integer? digits)
  | real whole fraction => exact number (real? whole fraction)
  | _ => rfl

/-- Where lexemes start makes a difference to the columns of errors only. -/
lemma ofLexemes_add (lexemes : List Lexeme) (size column : Nat) :
    ofLexemes (size + column) lexemes = (ofLexemes column lexemes).mapError (.moved size) := by
  induction lexemes generalizing column with
  | nil => rfl
  | cons l lexemes ih =>
    rw [ofLexemes, ofLexemes, Except.mapError_bind, ofLexeme_add]
    congr 1
    funext first
    rw [Except.mapError_bind, Nat.add_assoc, ih]
    rfl

end Columns

section Append

/-- Lexemes are read on where the lexemes in front of them end. -/
lemma ofLexemes_append (column : Nat) (before after : List Lexeme) :
    ofLexemes column (before ++ after) = do
      let first ← ofLexemes column before
      let later ← ofLexemes (column + (String.ofList (before.flatMap Lexeme.chars)).utf8ByteSize) after
      return first ++ later := by
  induction before generalizing column with
  | nil => exact (bind_pure (ofLexemes column after)).symm
  | cons l before ih =>
    have size : (String.ofList ((l :: before).flatMap Lexeme.chars)).utf8ByteSize =
        l.size + (String.ofList (before.flatMap Lexeme.chars)).utf8ByteSize := by
      rw [List.flatMap_cons, String.ofList_append, String.utf8ByteSize_append, Lexeme.size]
    rw [List.cons_append, ofLexemes, ofLexemes, size, ← Nat.add_assoc]
    simp only [ih, bind_assoc, pure_bind, List.append_assoc]

/-- The tokens of two lines put together, if no number goes on from the first to the second. -/
lemma ofText_append {a b : String} (separable : Lexeme.Separable a.toList b.toList) :
    ofText (a ++ b) = do
      let first ← ofText a
      let later ← (ofText b).mapError (.moved a.utf8ByteSize)
      return first ++ later := by
  have behind : ofLexemes a.utf8ByteSize (Lexeme.split b.toList) =
      (ofText b).mapError (.moved a.utf8ByteSize) :=
    ofLexemes_add (Lexeme.split b.toList) a.utf8ByteSize 0
  rw [ofText, String.toList_append, Lexeme.split_append separable, ofLexemes_append,
    Lexeme.flatMap_chars_split, String.ofList_toList, Nat.zero_add, behind]
  rfl

/-- Characters that are no parts of numbers are read one by one, and gaps are left out. -/
lemma ofText_of_not_isNumeric {a : String} (other : ∀ c ∈ a.toList, Lexeme.isNumeric c = false) :
    ofText a = .ok ((Lexeme.visible a.toList).map symbol) := by
  rw [ofText, Lexeme.visible]
  generalize a.toList = cs at other
  generalize 0 = column
  induction cs generalizing column with
  | nil => rfl
  | cons c cs ih =>
    obtain ⟨here, there⟩ := List.forall_mem_cons.1 other
    rw [Lexeme.split_cons, Lexeme.attach_of_not_isNumeric here]
    cases gap : Lexeme.isGap c with
    | true =>
      have none : ofLexeme column (.gap c) = .ok [] := rfl
      rw [if_pos rfl, ofLexemes_cons none (ih there _), List.filter_cons_of_neg (by simp [gap])]
      rfl
    | false =>
      have one : ofLexeme column (.symbol c) = .ok [symbol c] := rfl
      rw [if_neg Bool.false_ne_true, ofLexemes_cons one (ih there _),
        List.filter_cons_of_pos (by simp [gap])]
      rfl

/-- Such characters around a text add their tokens to those of the text. -/
lemma ofText_between {before after : String}
    (other : ∀ c ∈ before.toList ++ after.toList, Lexeme.isNumeric c = false) (text : String) :
    ofText (before ++ (text ++ after)) =
      ((ofText text).map fun tokens =>
        (Lexeme.visible before.toList).map symbol ++
          (tokens ++ (Lexeme.visible after.toList).map symbol)).mapError
        (.moved before.utf8ByteSize) := by
  obtain ⟨first, last⟩ := List.forall_mem_append.1 other
  have front : Lexeme.Separable before.toList (text ++ after).toList := .of_before first _
  have back : Lexeme.Separable text.toList after.toList := .of_after last _
  rw [ofText_append front, ofText_append back, ofText_of_not_isNumeric first, ofText_of_not_isNumeric last]
  cases ofText text <;> rfl

/-- Gaps in front of a text change only the column of its error. -/
lemma ofText_gaps_append {gaps : String} (only : ∀ c ∈ gaps.toList, Lexeme.isGap c) (text : String) :
    ofText (gaps ++ text) = (ofText text).mapError (.moved gaps.utf8ByteSize) := by
  have other (c : Char) (mem : c ∈ gaps.toList) : Lexeme.isNumeric c = false :=
    Lexeme.isNumeric_of_isGap (only c mem)
  have invisible : Lexeme.visible gaps.toList = [] := by
    rw [Lexeme.visible, List.filter_eq_nil_iff]
    intro c mem
    simp [only c mem]
  rw [ofText_append (.of_before other _), ofText_of_not_isNumeric other, invisible]
  cases ofText text <;> rfl

/-- The tokens of lines put together are those of the first line and then those of the second, unless a
number may go on from one to the other. An error of the first line is found where it was, one of the second
line further on by the size of the first, and gaps between the lines make no difference to the tokens. -/
theorem ofText_append_of_separable {a b : String} (separable : Lexeme.Separable a.toList b.toList) :
    (∀ e, ofText a = .error e → ofText (a ++ b) = .error e) ∧
    (∀ ts us, ofText a = .ok ts → ofText b = .ok us → ofText (a ++ b) = .ok (ts ++ us)) ∧
    (∀ ts e, ofText a = .ok ts → ofText b = .error e →
      ofText (a ++ b) = .error (e.moved a.utf8ByteSize)) ∧
    ∀ gaps : String, (∀ c ∈ gaps.toList, Lexeme.isGap c) →
      ∀ ts, ofText (a ++ (gaps ++ b)) = .ok ts ↔ ofText (a ++ b) = .ok ts := by
  have whole := ofText_append separable
  refine ⟨?_, ?_, ?_, ?_⟩
  · intro e failed
    rw [whole, failed]
    rfl
  · intro ts us first second
    rw [whole, first, second]
    rfl
  · intro ts e first failed
    rw [whole, first, failed]
    rfl
  · intro gaps only ts
    have spaced : Lexeme.Separable a.toList (gaps ++ b).toList := by
      rw [String.toList_append]
      exact separable.append_gaps only
    rw [whole, ofText_append spaced, ofText_gaps_append only]
    cases ofText a with
    | error e => exact Iff.rfl
    | ok first =>
      cases ofText b with
      | error e => exact ⟨nofun, nofun⟩
      | ok later => exact Iff.rfl

/-- Behind a real a lonely point is found at its column, counted in bytes. -/
theorem ofText_append_of_separable_point :
    Lexeme.Separable "é1.".toList " .".toList ∧
    ofText "é1." = .ok [.symbol 'é', .real 1] ∧
    ofText " ." = .error (.strayPoint 1) ∧
    ofText ("é1." ++ " .") = .error (.strayPoint 5) := by
  have separable : Lexeme.Separable "é1.".toList " .".toList := by
    intro x _ _ y first
    cases first
    decide
  have first : ofText "é1." = .ok [.symbol 'é', .real 1] := by decide +kernel
  have second : ofText " ." = .error (.strayPoint 1) := by decide +kernel
  exact ⟨separable, first, second, (ofText_append_of_separable separable).2.2.1 _ _ first second⟩

end Append

end Token

end LineCalc
