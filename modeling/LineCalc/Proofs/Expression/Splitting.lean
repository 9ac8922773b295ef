import LineCalc.Proofs.Expression
import Mathlib.Data.List.MinMax
import Mathlib.Data.List.Nodup

/-!
# Reading by splitting

The tree of a list of tokens, told by recursion on the list. If there are binary operators outside all
parentheses and before any negation there, the root is the leftmost of the loosest among them. If there
are none, a negation takes everything behind it, and what is left is an operand or a group. The trees
found in this way are those of the admissible writings, so every list of tokens has one admissible
writing at most as far as its expression goes.
-/

namespace LineCalc

/-- What a token adds to the number of groups around the next one. -/
def Token.nesting (t : Token) : Int :=
  match t.symbol? with
  | some .opening => 1
  | some .closing => -1
  | _ => 0

/-- A list of tokens cut at a binary operator. -/
structure Split where
  before : List Token
  op : BinaryOperator
  after : List Token
deriving DecidableEq

namespace Split

/-- The tokens that were cut. -/
def tokens (s : Split) : List Token := s.before ++ .ofSymbol (.binary s.op) :: s.after

/-- A cut with more tokens in front. -/
def prepend (front : List Token) (s : Split) : Split := { s with before := front ++ s.before }

/-- A cut with more tokens behind. -/
def append (s : Split) (back : List Token) : Split := { s with after := s.after ++ back }

/--
The cuts at the binary operators outside all parentheses and before any negation there, from left to
right, of a list that starts inside so many groups.
-/
def all (depth : Int) : List Token → List Split
  | [] => []
  | t :: rest =>
    let later := (all (depth + t.nesting) rest).map (prepend [t])
    if depth = 0 then
      match t.symbol? with
      | some (.binary op) => ⟨[], op, rest⟩ :: later
      | some .negation => []
      | _ => later
    else later

/-- The cut at the leftmost of the loosest operators. -/
def root? (tokens : List Token) : Option Split := (all 0 tokens).argmin fun s => s.op.rank

end Split

/-- The number of groups around the end of a list that starts inside so many groups. -/
def Token.depthAfter (depth : Int) (ts : List Token) : Int :=
  ts.foldl (fun depth t => depth + t.nesting) depth

/-- Whether a list that starts inside so many groups has a negation outside all parentheses. -/
def Token.barred (depth : Int) : List Token → Bool
  | [] => false
  | t :: rest => (decide (depth = 0) && t.symbol? == some .negation) || barred (depth + t.nesting) rest

/-- The tokens up to the parenthesis that closes so many groups and one more, and those behind it. -/
def Token.closing? (depth : Nat) : List Token → Option (List Token × List Token)
  | [] => none
  | t :: rest =>
    match t.symbol?, depth with
    | some .closing, 0 => some ([], rest)
    | some .closing, depth + 1 => (closing? depth rest).map fun (inner, rest) => (t :: inner, rest)
    | some .opening, depth => (closing? (depth + 1) rest).map fun (inner, rest) => (t :: inner, rest)
    | _, depth => (closing? depth rest).map fun (inner, rest) => (t :: inner, rest)

/-- The tokens inside a pair of parentheses around the whole list. -/
def Token.inner? : List Token → Option (List Token)
  | [] => none
  | t :: rest =>
    match t.symbol?, closing? 0 rest with
    | some .opening, some (inner, []) => some inner
    | _, _ => none

namespace Token

/-- An operand opens and closes nothing. -/
@[simp]
lemma nesting_token (a : Operand) : a.token.nesting = 0 := by
  simp [nesting]

/-- Parentheses open and close a group, and no other symbol does. -/
@[simp]
lemma nesting_ofSymbol (s : Symbol) :
    (ofSymbol s).nesting = match s with
      | .opening => 1
      | .closing => -1
      | _ => 0 := by
  cases s <;> simp [nesting]

/-- Without tokens the depth stays as it is. -/
@[simp]
lemma depthAfter_nil (depth : Int) : depthAfter depth [] = depth := rfl

/-- The first token counts before the rest. -/
@[simp]
lemma depthAfter_cons (depth : Int) (t : Token) (ts : List Token) :
    depthAfter depth (t :: ts) = depthAfter (depth + t.nesting) ts := rfl

/-- Groups are counted through one list and on through the next. -/
@[simp]
lemma depthAfter_append (depth : Int) (a b : List Token) :
    depthAfter depth (a ++ b) = depthAfter (depthAfter depth a) b :=
  List.foldl_append

/-- A list is barred by its first part, or by its second part at the depth that the first leads to. -/
lemma barred_append (depth : Int) (a b : List Token) :
    barred depth (a ++ b) = (barred depth a || barred (depthAfter depth a) b) := by
  induction a generalizing depth with
  | nil => rfl
  | cons t a ih => simp [barred, ih, Bool.or_assoc]

end Token

namespace Split

/-- More tokens in front of a cut are in front of its tokens. -/
@[simp]
lemma tokens_prepend (front : List Token) (s : Split) :
    (s.prepend front).tokens = front ++ s.tokens := by
  simp [tokens, prepend]

/-- Every cut of a list is a cut of its tokens. -/
lemma tokens_of_mem_all {s : Split} {depth : Int} {ts : List Token} (cut : s ∈ all depth ts) :
    s.tokens = ts := by
  induction ts generalizing depth s with
  | nil => cases cut
  | cons t rest ih =>
    have later (cut : s ∈ (all (depth + t.nesting) rest).map (prepend [t])) :
        s.tokens = t :: rest := by
      obtain ⟨s', cut', rfl⟩ := List.mem_map.1 cut
      rw [tokens_prepend, ih cut']
      rfl
    unfold all at cut
    split at cut
    · split at cut
      · rename_i op found
        rcases List.mem_cons.1 cut with rfl | cut
        · rw [tokens, Token.ofSymbol_of_symbol? found]
          rfl
        · exact later cut
      · cases cut
      · exact later cut
    · exact later cut

/-- The cuts of a longer list: those of its first part, and those of the rest unless a negation bars them. -/
lemma all_append (depth : Int) (a b : List Token) :
    all depth (a ++ b) = (all depth a).map (append · b) ++
      if Token.barred depth a then []
      else (all (Token.depthAfter depth a) b).map (prepend a) := by
  induction a generalizing depth with
  | nil =>
    have unchanged : prepend [] = id := by
      funext s
      rfl
    simp [all, Token.barred, Token.depthAfter, unchanged]
  | cons t a ih =>
    have later : (all (depth + t.nesting) (a ++ b)).map (prepend [t]) =
        ((all (depth + t.nesting) a).map (prepend [t])).map (append · b) ++
          if Token.barred (depth + t.nesting) a then []
          else (all (Token.depthAfter depth (t :: a)) b).map (prepend (t :: a)) := by
      rw [ih, List.map_append, List.map_map, List.map_map]
      congr 1
      split
      · rfl
      · rw [List.map_map]
        rfl
    rw [List.cons_append, all, all, later]
    -- Only outside all parentheses does the first token make a cut or bar the later ones.
    by_cases outside : depth = 0
    · rw [if_pos outside, if_pos outside]
      cases found : t.symbol? with
      | none => simp [Token.barred, found]
      | some symbol =>
        cases symbol with
        | binary op => simp [Token.barred, found, append]
        | _ => simp [Token.barred, found, outside]
    · simp [Token.barred, outside]

/-- Both sides of the root are shorter than the list. -/
lemma length_of_root? {s : Split} {ts : List Token} (found : root? ts = some s) :
    s.before.length < ts.length ∧ s.after.length < ts.length := by
  rw [← tokens_of_mem_all (List.argmin_mem found), tokens, List.length_append, List.length_cons]
  omega

/-- No cut is listed twice. -/
lemma nodup_all (depth : Int) (ts : List Token) : (all depth ts).Nodup := by
  induction ts generalizing depth with
  | nil => exact List.nodup_nil
  | cons t rest ih =>
    have longer (s s' : Split) (same : s.prepend [t] = s'.prepend [t]) : s = s' := by
      cases s
      cases s'
      simpa [prepend] using same
    have later : ((all (depth + t.nesting) rest).map (prepend [t])).Nodup :=
      (ih _).map longer
    unfold all
    split
    · split
      · refine List.nodup_cons.2 ⟨fun cut => ?_, later⟩
        obtain ⟨s, _, same⟩ := List.mem_map.1 cut
        cases congrArg before same
      · exact List.nodup_nil
      · exact later
    · exact later

/-- No negation outside parentheses stands before a cut. -/
lemma barred_before {s : Split} {depth : Int} {ts : List Token} (cut : s ∈ all depth ts) :
    Token.barred depth s.before = false := by
  induction ts generalizing depth s with
  | nil => cases cut
  | cons t rest ih =>
    -- A cut further on has the first token in front of it, which may be no negation here.
    have later (clear : depth = 0 → t.symbol? ≠ some .negation)
        (cut : s ∈ (all (depth + t.nesting) rest).map (prepend [t])) :
        Token.barred depth s.before = false := by
      obtain ⟨s', cut', rfl⟩ := List.mem_map.1 cut
      simpa [prepend, Token.barred, ih cut'] using clear
    unfold all at cut
    split at cut
    · split at cut
      · rename_i found
        rcases List.mem_cons.1 cut with rfl | cut
        · rfl
        · exact later (fun _ => by simp [found]) cut
      · cases cut
      · rename_i other
        exact later (fun _ => other) cut
    · rename_i inside
      exact later (fun outside => absurd outside inside) cut

/-- The leftmost least element of a list is less than what is on its left, and not more than the rest. -/
lemma argmin_eq_some_iff_append {α : Type} (f : α → Nat) {l : List α} {a : α} :
    l.argmin f = some a ↔ ∃ left right, l = left ++ a :: right ∧
      (∀ x ∈ left, f a < f x) ∧ ∀ x ∈ right, f a ≤ f x := by
  constructor
  · intro least
    induction l generalizing a with
    | nil => cases least
    | cons x l ih =>
      rw [List.argmin_cons] at least
      -- The first element is compared with the least of the others.
      cases rest : l.argmin f with
      | none =>
        rw [rest] at least
        cases least
        cases List.argmin_eq_none.1 rest
        exact ⟨[], [], rfl, nofun, nofun⟩
      | some c =>
        simp only [rest] at least
        split at least
        · cases least
          obtain ⟨left, right, rfl, tighter, others⟩ := ih rest
          exact ⟨x :: left, right, rfl, List.forall_mem_cons.2 ⟨‹_›, tighter⟩, others⟩
        · cases least
          refine ⟨[], l, rfl, nofun, fun y mem => ?_⟩
          exact (Nat.le_of_not_lt ‹_›).trans (List.le_of_mem_argmin mem rest)
  · rintro ⟨left, right, rfl, tighter, others⟩
    induction left with
    | nil =>
      rw [List.nil_append, List.argmin_cons]
      cases rest : right.argmin f with
      | none => rfl
      | some c => exact if_neg (Nat.not_lt.2 (others c (List.argmin_mem rest)))
    | cons x left ih =>
      obtain ⟨first, tighter⟩ := List.forall_mem_cons.1 tighter
      rw [List.cons_append, List.argmin_cons, ih tighter]
      exact if_pos first

end Split

namespace Writing

/-- A writing closes every group that it opens. -/
@[simp]
lemma depthAfter_tokens (depth : Int) (w : Writing) : Token.depthAfter depth w.tokens = depth := by
  induction w generalizing depth with
  | operand a => simp [tokens]
  | negation w ih => simp [tokens, ih]
  | binary op left right ihl ihr => simp [tokens, ihl, ihr]
  | group w ih =>
    simp only [tokens, Token.depthAfter_cons, Token.depthAfter_append, ih,
      Token.nesting_ofSymbol, Token.depthAfter_nil]
    omega

/-- Inside parentheses nothing is outside all parentheses. -/
lemma split_inside {depth : Int} (inside : 0 < depth) (w : Writing) :
    Split.all depth w.tokens = [] ∧ Token.barred depth w.tokens = false := by
  have apart : depth ≠ 0 := by omega
  induction w generalizing depth with
  | operand a => simp [tokens, Split.all, Token.barred, apart]
  | negation w ih =>
    obtain ⟨cuts, open_⟩ := ih inside apart
    simp [tokens, Split.all, Token.barred, apart, cuts, open_]
  | binary op left right ihl ihr =>
    obtain ⟨cutsl, openl⟩ := ihl inside apart
    obtain ⟨cutsr, openr⟩ := ihr inside apart
    simp [tokens, Split.all_append, Token.barred_append, Split.all, Token.barred, *]
  | group w ih =>
    obtain ⟨cuts, open_⟩ := ih (show 0 < depth + 1 by omega) (by omega)
    have apart' : depth + 1 ≠ 0 := by omega
    simp [tokens, Split.all_append, Token.barred_append, Split.all, Token.barred, apart, apart',
      cuts, open_]

/-- A group has no cut, and it bars nothing. -/
lemma split_group (w : Writing) :
    Split.all 0 (group w).tokens = [] ∧ Token.barred 0 (group w).tokens = false := by
  obtain ⟨cuts, open_⟩ := split_inside Int.zero_lt_one w
  simp [tokens, Split.all_append, Token.barred_append, Split.all, Token.barred, cuts, open_]

/-- In an admissible writing a negation outside all parentheses stands at the right edge. -/
lemma Admissible.barred_tokens {w : Writing} (adm : w.Admissible) :
    Token.barred 0 w.tokens = w.reachesNegation := by
  induction adm with
  | operand => simp [tokens, Token.barred, reachesNegation]
  | negation _ _ => simp [tokens, Token.barred, reachesNegation]
  | @binary op left right fits _ _ ihl ihr =>
    simp [tokens, Token.barred_append, Token.barred, reachesNegation, ihl, ihr, fits.left_closed]
  | @group w _ _ => exact (split_group w).2

/-- The cuts of a binary writing are those of its left side, the one between its sides, and those of its right
side. -/
lemma all_binary (op : BinaryOperator) {left : Writing} (right : Writing)
    (clear : Token.barred 0 left.tokens = false) :
    Split.all 0 (binary op left right).tokens =
      (Split.all 0 left.tokens).map (Split.append · (.ofSymbol (.binary op) :: right.tokens)) ++
        ⟨left.tokens, op, right.tokens⟩ ::
          (Split.all 0 right.tokens).map
            (Split.prepend (left.tokens ++ [.ofSymbol (.binary op)])) := by
  have composed : Split.prepend left.tokens ∘ Split.prepend [.ofSymbol (.binary op)] =
      Split.prepend (left.tokens ++ [.ofSymbol (.binary op)]) := by
    funext s
    simp [Split.prepend]
  rw [tokens, Split.all_append, clear, depthAfter_tokens]
  simp [Split.all, Split.prepend, ← composed]

/-- The root of an admissible writing is among its cuts. -/
lemma Admissible.root_mem {w : Writing} (adm : w.Admissible) {op : BinaryOperator}
    (root : w.root? = some op) : ∃ s ∈ Split.all 0 w.tokens, s.op = op := by
  cases adm with
  | @binary op' left right fits adml admr =>
    cases root
    have clear := adml.barred_tokens.trans fits.left_closed
    refine ⟨⟨left.tokens, op, right.tokens⟩, ?_, rfl⟩
    rw [all_binary op right clear]
    exact List.mem_append_right _ List.mem_cons_self
  | _ => cases root

/-- No cut of an admissible writing is looser than its root. -/
lemma Admissible.root_le {w : Writing} (adm : w.Admissible) {s : Split}
    (cut : s ∈ Split.all 0 w.tokens) : ∃ op, w.root? = some op ∧ op.rank ≤ s.op.rank := by
  induction adm generalizing s with
  | operand => simp [tokens, Split.all] at cut
  | negation _ _ => simp [tokens, Split.all] at cut
  | @group w _ _ =>
    rw [(split_group w).1] at cut
    cases cut
  | @binary op left right fits adml _ ihl ihr =>
    refine ⟨op, rfl, ?_⟩
    rw [all_binary op right (adml.barred_tokens.trans fits.left_closed)] at cut
    -- A cut lies in the left operand, at the root or in the right operand.
    rcases List.mem_append.1 cut with cut | cut
    · obtain ⟨s', cut', rfl⟩ := List.mem_map.1 cut
      obtain ⟨inner, root, le⟩ := ihl cut'
      exact (fits.left_tighter inner root).le.trans le
    · rcases List.mem_cons.1 cut with rfl | cut
      · exact le_rfl
      · obtain ⟨s', cut', rfl⟩ := List.mem_map.1 cut
        obtain ⟨inner, root, le⟩ := ihr cut'
        exact (fits.right_tighter inner root).trans le

/-- The cut at the root is the one that is found. -/
lemma Admissible.root?_binary {op : BinaryOperator} {left right : Writing}
    (fits : Fits op left right) (adml : left.Admissible) (admr : right.Admissible) :
    Split.root? (Writing.binary op left right).tokens =
      some ⟨left.tokens, op, right.tokens⟩ := by
  refine (Split.argmin_eq_some_iff_append _).2
    ⟨_, _, all_binary op right (adml.barred_tokens.trans fits.left_closed), ?_, ?_⟩
  · intro x mem
    obtain ⟨s, cut, rfl⟩ := List.mem_map.1 mem
    obtain ⟨inner, root, le⟩ := adml.root_le cut
    exact (fits.left_tighter inner root).trans_le le
  · intro x mem
    obtain ⟨s, cut, rfl⟩ := List.mem_map.1 mem
    obtain ⟨inner, root, le⟩ := admr.root_le cut
    exact (fits.right_tighter inner root).trans le

/-- Operands fit around an operator that is found as the root between them. -/
lemma Fits.of_root? {op : BinaryOperator} {left right : Writing} (adml : left.Admissible)
    (admr : right.Admissible)
    (root : Split.root? (binary op left right).tokens = some ⟨left.tokens, op, right.tokens⟩) :
    Fits op left right := by
  obtain ⟨lefts, rights, all, tighter, others⟩ := (Split.argmin_eq_some_iff_append _).1 root
  have cut : ⟨left.tokens, op, right.tokens⟩ ∈ Split.all 0 (binary op left right).tokens :=
    List.argmin_mem root
  have clear : Token.barred 0 left.tokens = false := Split.barred_before cut
  have distinct := Split.nodup_all 0 (binary op left right).tokens
  rw [all, List.nodup_middle, List.nodup_cons, List.mem_append, not_or] at distinct
  -- No cut is listed twice, so what surrounds the root is the same in both listings.
  rw [all_binary op right clear] at all
  obtain ⟨rfl, -, rfl⟩ := (List.append_cons_inj_of_notMem distinct.1.1 distinct.1.2).1 all.symm
  refine ⟨?_, adml.barred_tokens.symm.trans clear, ?_⟩
  · intro inner root
    obtain ⟨s, cut, rfl⟩ := adml.root_mem root
    exact tighter (s.append _) (List.mem_map.2 ⟨s, cut, rfl⟩)
  · intro inner root
    obtain ⟨s, cut, rfl⟩ := admr.root_mem root
    exact others (s.prepend _) (List.mem_map.2 ⟨s, cut, rfl⟩)

end Writing

namespace Token

/-- What was found, with the closing parenthesis between, is the list. -/
lemma append_of_closing? {depth : Nat} {ts inner rest : List Token}
    (found : closing? depth ts = some (inner, rest)) :
    inner ++ ofSymbol .closing :: rest = ts := by
  induction ts generalizing depth inner with
  | nil => cases found
  | cons t ts ih =>
    have later (depth : Nat)
        (found : (closing? depth ts).map (fun (inner, rest) => (t :: inner, rest)) =
          some (inner, rest)) : inner ++ ofSymbol .closing :: rest = t :: ts := by
      obtain ⟨⟨inner', rest'⟩, found', same⟩ := Option.map_eq_some_iff.1 found
      cases same
      exact congrArg (t :: ·) (ih found')
    unfold closing? at found
    split at found
    · rename_i closing
      cases found
      rw [ofSymbol_of_symbol? closing]
      rfl
    · exact later _ found
    · exact later _ found
    · exact later _ found

/-- What is inside, with its parentheses, is the list. -/
lemma append_of_inner? {ts inner : List Token} (found : inner? ts = some inner) :
    ofSymbol .opening :: (inner ++ [ofSymbol .closing]) = ts := by
  cases ts with
  | nil => cases found
  | cons t rest =>
    simp only [inner?] at found
    split at found
    · rename_i opening closing
      cases found
      rw [append_of_closing? closing, ofSymbol_of_symbol? opening]
    · cases found

/-- What is inside is shorter. -/
lemma length_of_inner? {ts inner : List Token} (found : inner? ts = some inner) :
    inner.length < ts.length := by
  rw [← append_of_inner? found, List.length_cons, List.length_append]
  omega

/-- A writing closes none of the groups around it, so the search goes on behind it. -/
lemma closing?_append (depth : Nat) (w : Writing) (rest : List Token) :
    closing? depth (w.tokens ++ rest) =
      (closing? depth rest).map fun (inner, rest) => (w.tokens ++ inner, rest) := by
  induction w generalizing depth rest with
  | operand a => cases depth <;> simp [Writing.tokens, closing?]
  | negation w ih =>
    cases depth <;> simp [Writing.tokens, closing?, ih, Function.comp_def]
  | binary op left right ihl ihr =>
    cases depth <;> simp [Writing.tokens, closing?, ihl, ihr, Function.comp_def]
  | group w ih =>
    simp [Writing.tokens, closing?, ih, Function.comp_def]

/-- A group has its writing inside. -/
@[simp]
lemma inner?_group (w : Writing) : inner? (Writing.group w).tokens = some w.tokens := by
  simp [Writing.tokens, inner?, closing?_append, closing?]

end Token

namespace Expression

/-- The tree of a list of tokens, if it has one. -/
def ofTokens? (ts : List Token) : Option Expression :=
  match _cut : Split.root? ts with
  | some split => do
    let left ← ofTokens? split.before
    let right ← ofTokens? split.after
    return .binary split.op left right
  | none =>
    match ts with
    | [] => none
    | t :: rest =>
      if t.symbol? = some .negation then (ofTokens? rest).map .negation
      else
        match _closed : Token.inner? (t :: rest) with
        | some inner => ofTokens? inner
        | none => if rest = [] then t.operand?.map .operand else none
termination_by ts.length
decreasing_by
  · exact (Split.length_of_root? _cut).1
  · exact (Split.length_of_root? _cut).2
  · exact Nat.lt_succ_self rest.length
  · exact Token.length_of_inner? _closed

/-- The tree of a list of tokens has an admissible writing with these tokens. -/
lemma exists_writing {ts : List Token} {e : Expression} (tree : ofTokens? ts = some e) :
    ∃ w : Writing, w.Admissible ∧ w.tokens = ts ∧ w.expression = e := by
  fun_induction ofTokens? ts generalizing e with
  | case1 ts s root ihl ihr =>
    obtain ⟨l, treel, tree⟩ := Option.bind_eq_some_iff.1 tree
    obtain ⟨r, treer, tree⟩ := Option.bind_eq_some_iff.1 tree
    cases tree
    obtain ⟨left, adml, tokensl, rfl⟩ := ihl treel
    obtain ⟨right, admr, tokensr, rfl⟩ := ihr treer
    -- The sides are written already; that they fit follows from the choice of the root.
    have tokens : (Writing.binary s.op left right).tokens = ts := by
      rw [← Split.tokens_of_mem_all (List.argmin_mem root), Writing.tokens, tokensl, tokensr]
      rfl
    refine ⟨.binary s.op left right, .binary ?_ adml admr, tokens, rfl⟩
    apply Writing.Fits.of_root? adml admr
    rw [tokens, root, tokensl, tokensr]
  | case2 => cases tree
  | case3 t rest _ found ih =>
    obtain ⟨e, inner, rfl⟩ := Option.map_eq_some_iff.1 tree
    obtain ⟨w, adm, rfl, rfl⟩ := ih inner
    refine ⟨.negation w, .negation adm, ?_, rfl⟩
    rw [Writing.tokens, Token.ofSymbol_of_symbol? found]
  | case4 t rest _ _ inner found ih =>
    obtain ⟨w, adm, rfl, rfl⟩ := ih tree
    exact ⟨.group w, .group adm, Token.append_of_inner? found, rfl⟩
  | case5 t =>
    obtain ⟨a, found, rfl⟩ := Option.map_eq_some_iff.1 tree
    refine ⟨.operand a, .operand, ?_, rfl⟩
    rw [Writing.tokens, Token.token_of_operand? found]
  | case6 => cases tree

/-- If there is a root, the tree is read on both sides of it. -/
lemma ofTokens?_of_root? {ts : List Token} {s : Split} (root : Split.root? ts = some s) :
    ofTokens? ts = do
      let left ← ofTokens? s.before
      let right ← ofTokens? s.after
      return .binary s.op left right := by
  rw [ofTokens?]
  split
  · rename_i s' root'
    cases root.symm.trans root'
    rfl
  · rename_i root'
    cases root.symm.trans root'

/-- Without a root, a list of tokens is a negation, a group or an operand. -/
lemma ofTokens?_of_rootless {t : Token} {rest : List Token}
    (rootless : Split.root? (t :: rest) = none) :
    ofTokens? (t :: rest) =
      if t.symbol? = some .negation then (ofTokens? rest).map .negation
      else
        match Token.inner? (t :: rest) with
        | some inner => ofTokens? inner
        | none => if rest = [] then t.operand?.map .operand else none := by
  rw [ofTokens?]
  split
  · rename_i root
    cases rootless.symm.trans root
  · dsimp only
    congr 1
    split <;> simp [*]

/-- An admissible writing is read as its expression. -/
lemma ofTokens?_tokens {w : Writing} (adm : w.Admissible) :
    ofTokens? w.tokens = some w.expression := by
  induction adm with
  | @operand a =>
    have rootless : Split.root? [a.token] = none := by
      simp [Split.root?, Split.all]
    have unclosed : Token.inner? [a.token] = none := by
      simp [Token.inner?]
    rw [Writing.tokens, ofTokens?_of_rootless rootless, unclosed]
    simp [Writing.expression]
  | @negation w _ ih =>
    have rootless : Split.root? (.ofSymbol .negation :: w.tokens) = none := by
      simp [Split.root?, Split.all]
    rw [Writing.tokens, ofTokens?_of_rootless rootless, ih]
    simp [Writing.expression]
  | @binary op left right fits adml admr ihl ihr =>
    rw [ofTokens?_of_root? (Writing.Admissible.root?_binary fits adml admr), ihl, ihr]
    rfl
  | @group w _ ih =>
    have rootless : Split.root? (Writing.group w).tokens = none := by
      rw [Split.root?, (Writing.split_group w).1]
      rfl
    rw [Writing.tokens] at rootless ⊢
    rw [ofTokens?_of_rootless rootless, ← Writing.tokens, Token.inner?_group]
    simp [Writing.expression, ih]

-- The leftmost operator is the root even among equals, so these group to the right.
example :
    ofTokens? [.integer 8, .symbol '-', .integer 2, .symbol '-', .integer 1] =
      some (.binary .subtract (.operand (.integer 8))
        (.binary .subtract (.operand (.integer 2)) (.operand (.integer 1)))) := by
  decide +kernel

/-- The lists of tokens with a tree are those of the admissible writings. -/
theorem ofTokens?_eq_some_iff {ts : List Token} {e : Expression} :
    ofTokens? ts = some e ↔ ∃ w : Writing, w.Admissible ∧ w.tokens = ts ∧ w.expression = e := by
  constructor
  · exact exists_writing
  · rintro ⟨w, adm, rfl, rfl⟩
    exact ofTokens?_tokens adm

end Expression

/-- Admissible writings of the same tokens are writings of the same expression. -/
lemma Writing.Admissible.expression_eq {v w : Writing} (admv : v.Admissible) (admw : w.Admissible)
    (same : v.tokens = w.tokens) : v.expression = w.expression := by
  have tree := Expression.ofTokens?_tokens admv
  rw [same, Expression.ofTokens?_tokens admw] at tree
  exact (Option.some_injective _ tree).symm

end LineCalc
