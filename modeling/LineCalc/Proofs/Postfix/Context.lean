import LineCalc.Postfix.Conversion
import LineCalc.Proofs.Expression

/-!
# What a conversion has read

The tokens read so far are a writing with a hole: a list of frames, the innermost first, each of which
waits for an operand, and perhaps the operand that has just been read. The frames say what waits on the
stack of a conversion and what has been written, and the conversion that holds exactly this tracks the
reading. Every token that is taken leads to a reading that is tracked again, and a token is refused
only if it cannot go on.
-/

namespace LineCalc.Postfix

/-- A part of a writing that waits for its last operand. -/
inductive Frame
  | negation
  | opening
  | binary (left : Writing) (op : BinaryOperator)

namespace Frame

/-- The symbol that waits. -/
def symbol : Frame → Symbol
  | negation => .negation
  | opening => .opening
  | binary _ op => .binary op

/-- The tokens of the operand that has been read. -/
def before : Frame → List Token
  | binary left _ => left.tokens
  | _ => []

/-- The tokens of a frame: its operand, if it has one, and its symbol. -/
def tokens (f : Frame) : List Token := f.before ++ [.ofSymbol f.symbol]

/-- What is written before the missing operand. -/
def output : Frame → List Token
  | binary left _ => left.expression.postorder
  | _ => []

/-- The writing that the missing operand completes; a group is closed as well. -/
def fill : Frame → Writing → Writing
  | negation, w => .negation w
  | opening, w => .group w
  | binary left op, w => .binary op left w

/-- Whether the frame is an open group. -/
def isOpening (f : Frame) : Bool := f.symbol == .opening

/-- Whether the frame waits with an operator that binds more tightly than the given one. -/
def isTighter (op : BinaryOperator) (f : Frame) : Bool := Pending.isTighter op ⟨f.symbol, 0⟩

end Frame

/-- Frames around a missing operand, the innermost first. -/
abbrev Context := List Frame

namespace Context

/-- The tokens of a context, the outermost frame first. -/
def tokens : Context → List Token
  | [] => []
  | f :: outer => tokens outer ++ f.tokens

/-- What is written before the missing operand. -/
def output : Context → List Token
  | [] => []
  | f :: outer => output outer ++ f.output

/-- The symbols that wait, the innermost first, with their positions among the tokens. -/
def pending : Context → List Pending
  | [] => []
  | f :: outer => ⟨f.symbol, (tokens outer ++ f.before).length⟩ :: pending outer

/-- How many groups are open. -/
def openGroups (ctx : Context) : Nat := ctx.countP Frame.isOpening

/-- The binary operator that waits innermost, if no other symbol does. -/
def operator? : Context → Option BinaryOperator
  | .binary _ op :: _ => some op
  | _ => none

/-- Complete one frame after the other, from the innermost on. -/
def fill (inner : Context) (w : Writing) : Writing := inner.foldl (fun w f => f.fill w) w

/--
All needed parentheses are there: an operand on the left fits in front of its operator, and no operator
waits directly around one that binds less tightly.
-/
inductive Admissible : Context → Prop
  | nil : Admissible []
  | negation {ctx} : Admissible ctx → Admissible (.negation :: ctx)
  | opening {ctx} : Admissible ctx → Admissible (.opening :: ctx)
  | binary {left op ctx} :
    left.Admissible →
    (∀ inner, left.root? = some inner → op.rank < inner.rank) →
    left.reachesNegation = false →
    (∀ outer, operator? ctx = some outer → outer.rank ≤ op.rank) →
    Admissible ctx →
    Admissible (.binary left op :: ctx)

/-- Without frames nothing is completed. -/
@[simp]
lemma fill_nil (w : Writing) : fill [] w = w := rfl

/-- The innermost frame is completed first. -/
@[simp]
lemma fill_cons (f : Frame) (inner : Context) (w : Writing) :
    fill (f :: inner) w = fill inner (f.fill w) := rfl

/-- Every open group counts once. -/
lemma openGroups_cons (f : Frame) (outer : Context) :
    openGroups (f :: outer) = openGroups outer + if f.isOpening then 1 else 0 :=
  List.countP_cons

/-- Completing frames other than groups changes no token. -/
lemma tokens_fill {inner : Context} (closed : ∀ f ∈ inner, f.isOpening = false) (outer : Context)
    (w : Writing) : tokens (inner ++ outer) ++ w.tokens = tokens outer ++ (fill inner w).tokens := by
  induction inner generalizing w with
  | nil => rfl
  | cons f inner ih =>
    obtain ⟨first, closed⟩ := List.forall_mem_cons.1 closed
    rw [fill_cons, ← ih closed, List.cons_append, tokens, List.append_assoc]
    congr 1
    cases f with
    | opening => cases first
    | negation => rfl
    | binary left op => simp [Frame.tokens, Frame.before, Frame.symbol, Frame.fill, Writing.tokens]

/-- Completing frames other than groups writes their symbols behind the operand. -/
lemma output_fill {inner : Context} (closed : ∀ f ∈ inner, f.isOpening = false) (outer : Context)
    (w : Writing) :
    output (inner ++ outer) ++ w.expression.postorder ++
        inner.map (fun f => Token.ofSymbol f.symbol) =
      output outer ++ (fill inner w).expression.postorder := by
  induction inner generalizing w with
  | nil => simp
  | cons f inner ih =>
    obtain ⟨first, closed⟩ := List.forall_mem_cons.1 closed
    rw [fill_cons, ← ih closed, List.cons_append, output]
    cases f with
    | opening => cases first
    | negation =>
      simp [Frame.output, Frame.symbol, Frame.fill, Writing.expression, Expression.postorder]
    | binary left op =>
      simp [Frame.output, Frame.symbol, Frame.fill, Writing.expression, Expression.postorder]

/-- Frames that are taken up to an open group are no open groups. -/
lemma openGroups_dropWhile {test : Frame → Bool} (keeps : test .opening = false) (ctx : Context) :
    openGroups (ctx.dropWhile test) = openGroups ctx := by
  induction ctx with
  | nil => rfl
  | cons f outer ih =>
    rw [List.dropWhile_cons]
    split
    · rename_i passes
      cases f with
      | opening =>
        rw [keeps] at passes
        cases passes
      | _ => exact ih
    · rfl

/-- If groups are open, one of them is the innermost. -/
lemma exists_opening {ctx : Context} (opened : openGroups ctx ≠ 0) :
    ∃ outer : Context, ctx.dropWhile (fun f => !f.isOpening) = .opening :: outer ∧
      openGroups ctx = openGroups outer + 1 := by
  induction ctx with
  | nil => exact absurd rfl opened
  | cons f ctx ih =>
    cases f with
    | opening => exact ⟨ctx, rfl, openGroups_cons _ _⟩
    | _ => exact ih opened

/-- What waits is the symbol of a frame. -/
lemma symbol_of_mem_pending {p : Pending} {ctx : Context} (waits : p ∈ pending ctx) :
    ∃ f ∈ ctx, p.symbol = f.symbol := by
  induction ctx with
  | nil => cases waits
  | cons f outer ih =>
    rcases List.mem_cons.1 waits with rfl | waits
    · exact ⟨f, List.mem_cons_self, rfl⟩
    · obtain ⟨f', mem, same⟩ := ih waits
      exact ⟨f', List.mem_cons_of_mem f mem, same⟩

section Test

variable {test : Pending → Bool} {onFrames : Frame → Bool}
  (agree : ∀ (f : Frame) (position : Nat), test ⟨f.symbol, position⟩ = onFrames f)

include agree

/-- The symbols that are released are those of the innermost frames. -/
lemma takeWhile_pending (ctx : Context) :
    ((pending ctx).takeWhile test).map Pending.token =
      (ctx.takeWhile onFrames).map fun f => Token.ofSymbol f.symbol := by
  induction ctx with
  | nil => rfl
  | cons f outer ih =>
    rw [pending, List.takeWhile_cons, List.takeWhile_cons, agree]
    split
    · rw [List.map_cons, List.map_cons, ih]
      rfl
    · rfl

/-- What still waits are the symbols of the other frames. -/
lemma dropWhile_pending (ctx : Context) :
    (pending ctx).dropWhile test = pending (ctx.dropWhile onFrames) := by
  induction ctx with
  | nil => rfl
  | cons f outer ih =>
    rw [pending, List.dropWhile_cons, List.dropWhile_cons, agree]
    split
    · exact ih
    · rfl

end Test

end Context

end LineCalc.Postfix
