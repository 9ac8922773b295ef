import LineCalc.Proofs.Expression.Splitting
import Mathlib.Order.Bounds.Defs

/-!
# Groups that stay open

A list of tokens is balanced if it closes every group that it opens, and no other. Whatever is written
is balanced. An opening parenthesis stays open if what follows never closes more groups than it opens. So
a balanced list has none that does, and behind an opening parenthesis it leaves that one open.
-/

namespace LineCalc

namespace Token

/-- The tokens close every group that they open, and no other. -/
structure Balanced (ts : List Token) : Prop where
  depth_eq : depthAfter 0 ts = 0
  depth_nonneg : ∀ n, 0 ≤ depthAfter 0 (ts.take n)

/-- At the position stands an opening parenthesis, and what follows never closes more groups than it
opens. -/
def Unclosed (ts : List Token) (i : Nat) : Prop :=
  ts[i]? = some (.ofSymbol .opening) ∧ ∀ n, 0 ≤ depthAfter 0 ((ts.drop (i + 1)).take n)

variable {ts more : List Token} {t : Token} {i : Nat}

/-- A list adds the same number of groups wherever it starts. -/
lemma depthAfter_eq_add (depth : Int) (ts : List Token) :
    depthAfter depth ts = depth + depthAfter 0 ts := by
  induction ts generalizing depth with
  | nil => simp
  | cons t ts ih =>
    rw [depthAfter_cons, depthAfter_cons, ih, ih (0 + t.nesting)]
    omega

namespace Balanced

/-- The empty list is balanced. -/
lemma nil : Balanced [] := ⟨rfl, by simp⟩

/-- Two balanced lists make a balanced one. -/
lemma append (first : Balanced ts) (second : Balanced more) : Balanced (ts ++ more) := by
  constructor
  · rw [depthAfter_append, first.depth_eq, second.depth_eq]
  · intro n
    rw [List.take_append, depthAfter_append, depthAfter_eq_add]
    exact Int.add_nonneg (first.depth_nonneg n) (second.depth_nonneg _)

/-- A token that is no parenthesis may stand anywhere. -/
lemma singleton (plain : t.nesting = 0) : Balanced [t] := by
  constructor
  · simp [plain]
  · intro n
    cases n with
    | zero => exact Int.le_refl 0
    | succ n => simp [plain]

/-- Parentheses around a balanced list keep the balance. -/
lemma group (inner : Balanced ts) :
    Balanced (.ofSymbol .opening :: (ts ++ [.ofSymbol .closing])) := by
  constructor
  · simp [depthAfter_eq_add 1 ts, inner.depth_eq]
  · intro n
    cases n with
    | zero => exact Int.le_refl 0
    | succ n =>
      -- The closing parenthesis takes back no more than the opening one has added.
      have last (m : Nat) : -1 ≤ depthAfter 0 ([ofSymbol .closing].take m) := by
        cases m with
        | zero => decide
        | succ m => simp
      have before := inner.depth_nonneg n
      have behind := last (n - ts.length)
      rw [List.take_succ_cons, depthAfter_cons, List.take_append, depthAfter_append, depthAfter_eq_add,
        depthAfter_eq_add (0 + nesting _), nesting_ofSymbol]
      dsimp only
      omega

end Balanced

/-- Which groups stay open does not depend on what is in front of them. -/
lemma unclosed_append_iff (i : Nat) : Unclosed (more ++ ts) (more.length + i) ↔ Unclosed ts i := by
  rw [Unclosed, Unclosed, List.getElem?_append_right (Nat.le_add_right _ _), Nat.add_assoc,
    ← List.drop_drop, List.drop_left, Nat.add_sub_cancel_left]

/-- No group of a balanced list stays open. -/
lemma Balanced.not_unclosed (balanced : Balanced ts) (i : Nat) : ¬ Unclosed ts i := by
  rintro ⟨here, behind⟩
  obtain ⟨inside, same⟩ := List.getElem?_eq_some_iff.1 here
  have before := balanced.depth_nonneg i
  have behind := behind (ts.drop (i + 1)).length
  have whole := balanced.depth_eq
  rw [List.take_length] at behind
  rw [← List.take_append_drop i ts, List.drop_eq_getElem_cons inside, same, depthAfter_append,
    depthAfter_cons, depthAfter_eq_add, nesting_ofSymbol] at whole
  dsimp only at whole
  omega

section Append

variable (behind : ∀ n, 0 ≤ depthAfter 0 (more.take n))

include behind

/-- What never closes more groups than it opens leaves all those open that are open in front of it. -/
lemma depthAfter_take_append_nonneg_iff :
    (∀ n, 0 ≤ depthAfter 0 ((ts ++ more).take n)) ↔ ∀ n, 0 ≤ depthAfter 0 (ts.take n) := by
  constructor
  · intro never n
    have within := never (min n ts.length)
    rw [List.take_append, Nat.sub_eq_zero_of_le (Nat.min_le_right n ts.length), List.take_zero,
      List.append_nil, ← List.take_take, List.take_length] at within
    exact within
  · intro never n
    rw [List.take_append, depthAfter_append, depthAfter_eq_add]
    exact Int.add_nonneg (never n) (behind _)

/-- If what follows never closes more groups than it opens, then what stays open is what was open and what it
leaves open itself. -/
lemma unclosed_append_iff_or :
    Unclosed (ts ++ more) i ↔ Unclosed ts i ∨ ∃ j, i = ts.length + j ∧ Unclosed more j := by
  rcases Nat.lt_or_ge i ts.length with inside | beyond
  · have here : Unclosed (ts ++ more) i ↔ Unclosed ts i := by
      rw [Unclosed, Unclosed, List.getElem?_append_left inside, List.drop_append_of_le_length inside,
        depthAfter_take_append_nonneg_iff behind]
    rw [here, or_iff_left]
    rintro ⟨j, rfl, _⟩
    exact absurd inside (Nat.not_lt.2 (Nat.le_add_right _ _))
  · obtain ⟨j, rfl⟩ := Nat.exists_eq_add_of_le beyond
    have outside : ¬ Unclosed ts (ts.length + j) := fun unclosed => by
      rw [Unclosed, List.getElem?_eq_none beyond] at unclosed
      cases unclosed.1
    rw [unclosed_append_iff, or_iff_right outside]
    constructor
    · exact fun unclosed => ⟨j, rfl, unclosed⟩
    · rintro ⟨k, same, unclosed⟩
      rwa [Nat.add_left_cancel same]

end Append

/-- Behind an opening parenthesis a balanced list leaves open what was open, and that parenthesis. -/
lemma Balanced.unclosed_append_opening_iff (balanced : Balanced more) :
    Unclosed (ts ++ .ofSymbol .opening :: more) i ↔ Unclosed ts i ∨ i = ts.length := by
  have behind (n : Nat) : 0 ≤ depthAfter 0 ((ofSymbol .opening :: more).take n) := by
    cases n with
    | zero => exact Int.le_refl 0
    | succ n =>
      have nonneg := balanced.depth_nonneg n
      rw [List.take_succ_cons, depthAfter_cons, depthAfter_eq_add, nesting_ofSymbol]
      dsimp only
      omega
  have first (j : Nat) : Unclosed (.ofSymbol .opening :: more) j ↔ j = 0 := by
    constructor
    · intro unclosed
      cases j with
      | zero => rfl
      | succ j =>
        have later : Unclosed ([.ofSymbol .opening] ++ more) (1 + j) := by
          rw [Nat.add_comm]
          exact unclosed
        -- Behind the parenthesis all is balanced, so nothing there stays open.
        exact absurd ((Token.unclosed_append_iff j).1 later) (balanced.not_unclosed j)
    · rintro rfl
      exact ⟨rfl, balanced.depth_nonneg⟩
  simp only [unclosed_append_iff_or behind, first, exists_eq_right, Nat.add_zero]

/-- The last group that stays open starts where a balanced list ends the tokens. -/
lemma Balanced.isGreatest_unclosed (balanced : Balanced more) (ts : List Token) :
    IsGreatest {i | Unclosed (ts ++ .ofSymbol .opening :: more) i} ts.length := by
  constructor
  · exact balanced.unclosed_append_opening_iff.2 (.inr rfl)
  · intro i unclosed
    rcases balanced.unclosed_append_opening_iff.1 unclosed with inside | rfl
    · exact Nat.le_of_lt (List.getElem?_eq_some_iff.1 inside.1).1
    · exact Nat.le_refl _

end Token

/-- What is written is balanced. -/
lemma Writing.balanced_tokens (w : Writing) : Token.Balanced w.tokens := by
  induction w with
  | operand a => exact .singleton (Token.nesting_token a)
  | negation w ih => exact .append (.singleton (Token.nesting_ofSymbol .negation)) ih
  | binary op left right ihl ihr =>
    exact ihl.append (.append (.singleton (Token.nesting_ofSymbol (.binary op))) ihr)
  | group w ih => exact ih.group

end LineCalc
