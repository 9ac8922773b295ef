import LineCalc.Proofs.Batch.Faults
import LineCalc.Proofs.Batch.Lines

/-!
# Line ends with or without a carriage return

One carriage return at the end of a line is dropped. A further one is a blank and a gap, so it is not
quoted in a report and makes no difference to the tokens or to an error, and it is a character by itself,
so it makes no difference to whether the bytes are UTF-8. So any line feeds may get a carriage return in
front of them, and a run stays the same.
-/

namespace LineCalc

/-- A gap at the end of a line makes no difference to how far the line gets. -/
lemma Line.outcome_push {c : Char} (gap : Lexeme.isGap c) (line : String) :
    outcome (line.push c) = outcome line := by
  rw [outcome, outcome, tokens, tokens, Token.ofText_push gap]

namespace Batch

/-- The bytes with a carriage return in front of each line feed at a chosen position. -/
def withReturns (chosen : Nat → Bool) : List UInt8 → List UInt8
  | [] => []
  | byte :: bytes =>
    let rest := withReturns (fun position => chosen (position + 1)) bytes
    if byte = lineFeed ∧ chosen 0 then carriageReturn :: byte :: rest else byte :: rest

/-- A line, or the same line with one more carriage return at its end. -/
def Returned (line line' : List UInt8) : Prop := line' = line ∨ line' = line ++ [carriageReturn]

namespace Contribution

/-- A carriage return behind a text makes no difference to what the text contributes. -/
lemma ofText_push_return (number : Nat) (text : String) :
    ofText number (text.push '\r') = ofText number text := by
  have trimmed : Blank.trim (text.push '\r') = Blank.trim text := by
    rw [Blank.trim, String.toList_push, Blank.trimChars_concat (by decide), Blank.trim]
  rw [ofText, ofText, Line.outcome_push (by decide), trimmed]

/-- One more carriage return at the end of a line makes no difference. -/
lemma ofBytes_concat_return (number : Nat) (line : List UInt8) :
    ofBytes number (line ++ [carriageReturn]) = ofBytes number line := by
  have dropped : dropReturn (line ++ [carriageReturn]) = line := by
    rw [dropReturn, List.getLast?_concat, if_pos rfl, List.dropLast_concat]
  by_cases last : line.getLast? = some carriageReturn
  · -- The line already ends in one, which is now a part of the text.
    obtain ⟨before, rfl⟩ := List.getLast?_eq_some_iff.1 last
    have kept : dropReturn (before ++ [carriageReturn]) = before := by
      rw [dropReturn, List.getLast?_concat, if_pos rfl, List.dropLast_concat]
    rw [ofBytes, text?, dropped, fromUTF8?_concat_return, ofBytes, text?, kept]
    cases String.fromUTF8? ⟨before.toArray⟩ with
    | none => rfl
    | some text => exact ofText_push_return number text
  · rw [ofBytes, text?, dropped, ofBytes, text?, dropReturn, if_neg last]

/-- A carriage return behind a line makes no difference to what the line contributes. -/
lemma ofBytes_returned {line line' : List UInt8} (returned : Returned line line') (number : Nat) :
    ofBytes number line' = ofBytes number line := by
  rcases returned with rfl | rfl
  · rfl
  · exact ofBytes_concat_return number line

end Contribution

/-- A carriage return behind a line makes no difference to a step of a run. -/
lemma Progress.addLine_returned {line line' : List UInt8} (returned : Returned line line')
    (sink : Sink) (p : Progress) : p.addLine sink line' = p.addLine sink line := by
  rw [addLine, addLine, Contribution.ofBytes_returned returned]

/-- Carriage returns behind any of the lines make no difference to where the lines lead. -/
lemma Progress.foldlM_returned {lines lines' : List (List UInt8)}
    (returned : List.Forall₂ Returned lines lines') (sink : Sink) (p : Progress) :
    lines'.foldlM (addLine sink) p = lines.foldlM (addLine sink) p := by
  induction returned generalizing p with
  | nil => rfl
  | cons line lines ih =>
    rw [List.foldlM_cons, List.foldlM_cons, addLine_returned line]
    exact congrArg (_ >>= ·) (funext ih)

/-- The finished lines have at most one more carriage return at their ends, and the rest is the same. -/
lemma Cut.ofBytes_withReturns (chosen : Nat → Bool) (bytes : List UInt8) :
    List.Forall₂ Returned (ofBytes bytes).finished (ofBytes (withReturns chosen bytes)).finished ∧
    (ofBytes (withReturns chosen bytes)).rest = (ofBytes bytes).rest := by
  induction bytes generalizing chosen with
  | nil => exact ⟨.nil, rfl⟩
  | cons byte bytes ih =>
    obtain ⟨lines, rest⟩ := ih fun position => chosen (position + 1)
    rw [withReturns]
    by_cases feed : byte = lineFeed
    · subst feed
      by_cases here : chosen 0
      · rw [if_pos ⟨rfl, here⟩]
        exact ⟨.cons (.inr rfl) lines, rest⟩
      · rw [if_neg fun both => here both.2]
        exact ⟨.cons (.inl rfl) lines, rest⟩
    · rw [if_neg fun both => feed both.1, ofBytes_cons, ofBytes_cons, cons, cons, if_neg feed, if_neg feed]
      generalize ofBytes bytes = cut at lines rest
      generalize ofBytes (withReturns _ bytes) = cut' at lines rest
      obtain ⟨before, _⟩ := cut
      obtain ⟨before', _⟩ := cut'
      -- Any other byte goes to the front of the first line, or of the rest if there is none.
      cases lines with
      | nil => exact ⟨.nil, congrArg (byte :: ·) rest⟩
      | cons line lines =>
        refine ⟨.cons ?_ lines, rest⟩
        rcases line with rfl | rfl
        · exact .inl rfl
        · exact .inr rfl

/-- The lines of a source with carriage returns before some line feeds are its lines, some of them with a
return behind them. -/
lemma Source.lines_withReturns (chosen : Nat → Bool) (source : Source) :
    List.Forall₂ Returned source.lines { source with bytes := withReturns chosen source.bytes }.lines := by
  obtain ⟨finished, rest⟩ := Cut.ofBytes_withReturns chosen source.bytes
  rw [lines, lines]
  cases source.fault with
  | some fault => exact finished
  | none =>
    change List.Forall₂ Returned (Cut.ofBytes source.bytes).lines
      (Cut.ofBytes (withReturns chosen source.bytes)).lines
    rw [Cut.lines, Cut.lines, rest]
    exact List.rel_append finished (List.forall₂_same.2 fun line _ => .inl rfl)

/-- Carriage returns in front of line feeds make no difference to a run. -/
theorem run_withReturns (chosen : Nat → Bool) (source : Source) (sink : Sink) :
    run { source with bytes := withReturns chosen source.bytes } sink = run source sink := by
  rw [run, run, Progress.foldlM_returned (source.lines_withReturns chosen)]

end Batch

end LineCalc
