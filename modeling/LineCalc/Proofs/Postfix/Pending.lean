import LineCalc.Proofs.Postfix.Refusal
import Mathlib.Data.List.Chain
import Mathlib.Data.Set.Card

/-!
# What waits on the stack

The symbols that wait while tokens are converted are some of these tokens, in their order. The opening
parentheses among them are those that stay open, and the conversion has counted them. Between two barriers,
which are negations and opening parentheses, an operator never waits above one that binds more tightly: it
would have released it. So whoever releases the tighter operators from the top, and stops at the first that is
none, has released all of them down to the next barrier.
-/

namespace LineCalc.Postfix

variable {s : Conversion} {ts more : List Token} {ctx : Context} {p : Pending} {i : Nat}

section Places

namespace Context

/-- What waits stands among the tokens where it says. -/
lemma getElem?_of_mem_pending (waits : p ∈ pending ctx) : ctx.tokens[p.position]? = some p.token := by
  induction ctx with
  | nil => cases waits
  | cons f outer ih =>
    rw [tokens]
    rcases List.mem_cons.1 waits with rfl | waits
    · rw [Frame.tokens, ← List.append_assoc]
      exact List.getElem?_concat_length
    · have here := ih waits
      obtain ⟨inside, _⟩ := List.getElem?_eq_some_iff.1 here
      rw [List.getElem?_append_left inside]
      exact here

/-- Every symbol that waits has a position among the tokens. -/
lemma position_lt (waits : p ∈ pending ctx) : p.position < ctx.tokens.length := by
  obtain ⟨inside, _⟩ := List.getElem?_eq_some_iff.1 (getElem?_of_mem_pending waits)
  exact inside

/-- What waits on top of others stands behind them among the tokens. -/
lemma pairwise_position (ctx : Context) : ctx.pending.Pairwise fun p q => q.position < p.position := by
  induction ctx with
  | nil => exact .nil
  | cons f outer ih =>
    refine .cons (fun q waits => ?_) ih
    rw [List.length_append]
    exact Nat.lt_add_right _ (position_lt waits)

/-- The opening parentheses that wait are the open groups. -/
lemma countP_pending (ctx : Context) : ctx.pending.countP Pending.isOpening = ctx.openGroups := by
  induction ctx with
  | nil => rfl
  | cons f outer ih =>
    rw [pending, List.countP_cons, openGroups_cons, ih]
    rfl

/-- No closing parenthesis waits. -/
lemma symbol_ne_closing (waits : p ∈ pending ctx) : p.symbol ≠ .closing := by
  obtain ⟨f, _, same⟩ := symbol_of_mem_pending waits
  rw [same]
  cases f <;> exact nofun

/-- The groups that stay open are those that wait. -/
lemma unclosed_iff (balanced : Token.Balanced more) :
    Token.Unclosed (ctx.tokens ++ more) i ↔ ⟨.opening, i⟩ ∈ ctx.pending := by
  induction ctx generalizing more with
  | nil => exact iff_of_false (balanced.not_unclosed i) List.not_mem_nil
  | cons f outer ih =>
    rw [tokens, pending, List.mem_cons]
    cases f with
    | opening =>
      have alone := ih .nil
      rw [List.append_nil] at alone
      have split : tokens outer ++ Frame.opening.tokens ++ more =
          tokens outer ++ .ofSymbol .opening :: more := List.append_assoc _ _ _
      rw [split, balanced.unclosed_append_opening_iff, alone, or_comm]
      simp [Frame.before, Frame.symbol]
    | _ =>
      rw [List.append_assoc, ih ((Frame.balanced_tokens rfl).append balanced), or_iff_right]
      rintro ⟨⟩

end Context

namespace Conversion

/-- A group is closed down to the topmost opening parenthesis. -/
lemma closeGroup_eq {above below : List Pending} {group : Pending}
    (waits : s.pending.items = above ++ group :: below) (free : ∀ p ∈ above, p.isOpening = false)
    (opens : group.isOpening) :
    s.closeGroup =
      { s with
        output := s.output.append (above.map Pending.token), pending := ⟨below⟩,
        openGroups := s.openGroups - 1 } := by
  have passes : ∀ p ∈ above, !p.isOpening := by simpa using free
  have taken : (above ++ group :: below).takeWhile (fun p => !p.isOpening) = above := by
    rw [List.takeWhile_append_of_pos passes, List.takeWhile_cons, opens]
    exact List.append_nil above
  have left : (above ++ group :: below).dropWhile (fun p => !p.isOpening) = group :: below := by
    rw [List.dropWhile_append_of_pos passes, List.dropWhile_cons, opens]
    rfl
  simp only [closeGroup, release, Stack.popWhile, Stack.pop?, waits, taken, left]

namespace Tracks

variable {current : Option Writing}

/-- At the position of what waits stands its token. -/
lemma getElem?_of_mem_pending (tracks : s.Tracks ts ctx current) (waits : p ∈ s.pending.items) :
    ts[p.position]? = some p.token := by
  rw [tracks.shown.pending] at waits
  rw [← tracks.tokens, List.getElem?_append_left (Context.position_lt waits)]
  exact Context.getElem?_of_mem_pending waits

/-- An opening parenthesis stays open as long as it waits. -/
lemma unclosed_iff (tracks : s.Tracks ts ctx current) :
    Token.Unclosed ts i ↔ ⟨.opening, i⟩ ∈ s.pending.items := by
  rw [← tracks.tokens, tracks.shown.pending]
  exact Context.unclosed_iff (balanced_current current)

/-- The conversion has counted the opening parentheses that wait. -/
lemma openGroups_eq_countP (tracks : s.Tracks ts ctx current) :
    s.openGroups = s.pending.items.countP Pending.isOpening := by
  rw [tracks.shown.openGroups, tracks.shown.pending, Context.countP_pending]

/-- No two of the groups that wait stand at the same place, so there are as many as stay open. -/
lemma ncard_unclosed (tracks : s.Tracks ts ctx current) :
    {i | Token.Unclosed ts i}.ncard = s.openGroups := by
  let groups := s.pending.items.filter Pending.isOpening
  have places : {i | Token.Unclosed ts i} = ((groups.map Pending.position).toFinset : Set Nat) := by
    ext i
    rw [Set.mem_ofPred_eq, tracks.unclosed_iff, Finset.mem_coe, List.mem_toFinset, List.mem_map]
    constructor
    · exact fun waits => ⟨_, List.mem_filter.2 ⟨waits, rfl⟩, rfl⟩
    · rintro ⟨⟨symbol, position⟩, mem, rfl⟩
      obtain ⟨waits, opens⟩ := List.mem_filter.1 mem
      cases eq_of_beq opens
      exact waits
  have distinct : (groups.map Pending.position).Nodup := by
    have order := Context.pairwise_position ctx
    rw [← tracks.shown.pending] at order
    exact List.pairwise_map.2 ((order.filter _).imp fun less => less.ne')
  rw [places, Set.ncard_coe_finset, List.toFinset_card_of_nodup distinct, List.length_map,
    ← List.countP_eq_length_filter, tracks.openGroups_eq_countP]

/-- As long as a group is open, closing one finds the parenthesis in front of the balanced tokens. -/
lemma exists_group (tracks : s.Tracks ts ctx current) (opened : s.openGroups ≠ 0) :
    ∃ above group below, s.pending.items = above ++ group :: below ∧
      (∀ p ∈ above, p.isOpening = false) ∧ group.isOpening ∧
      Token.Balanced (ts.drop (group.position + 1)) := by
  rw [tracks.shown.openGroups] at opened
  obtain ⟨outer, waits, _⟩ := Context.exists_opening opened
  obtain ⟨inner, balanced, rfl⟩ := tracks.exists_balanced waits
  have rest : ctx.pending.dropWhile (fun p => !p.isOpening) = Context.pending (.opening :: outer) := by
    rw [← waits]
    exact Context.dropWhile_pending (fun _ _ => rfl) ctx
  refine ⟨ctx.pending.takeWhile fun p => !p.isOpening, ⟨.opening, outer.tokens.length⟩, outer.pending,
    ?_, fun p mem => ?_, rfl, ?_⟩
  · have group : Context.pending (.opening :: outer) = ⟨.opening, outer.tokens.length⟩ :: outer.pending := by
      simp [Context.pending, Frame.symbol, Frame.before]
    rw [tracks.shown.pending, ← group, ← rest, List.takeWhile_append_dropWhile]
  · simpa using List.mem_takeWhile_imp mem
  · have behind : (outer.tokens ++ .ofSymbol .opening :: inner).drop (outer.tokens.length + 1) = inner := by
      rw [← List.drop_drop, List.drop_left, List.drop_one, List.tail_cons]
    rw [behind]
    exact balanced

end Tracks

/-- The symbols that wait are tokens that have been taken, in their order, and neither operands nor closing
parentheses. The opening parentheses among them are as many as the conversion has counted, and as many as stay
open. So where a group is open, closing one finds the parenthesis that matches, and takes from the stack what is
above it and nothing below. A group that is found open at the end is one that stays open. -/
theorem openGroups_agree (run : start.steps 0 ts = .ok s) :
    s.openGroups = s.pending.items.countP Pending.isOpening ∧
    s.openGroups = {i | Token.Unclosed ts i}.ncard ∧
    (∀ p ∈ s.pending.items, p.symbol ≠ .closing ∧ p.token.isOperand = false ∧
      p.position < ts.length ∧ ts[p.position]? = some p.token) ∧
    s.pending.toList.Pairwise (fun p q => p.position < q.position) ∧
    (s.openGroups ≠ 0 → ∃ above group below, s.pending.items = above ++ group :: below ∧
      (∀ p ∈ above, p.isOpening = false) ∧ group.isOpening ∧
      Token.Balanced (ts.drop (group.position + 1)) ∧
      s.closeGroup.pending.items = below ∧
      s.closeGroup.output.toList = s.output.toList ++ above.map Pending.token ∧
      s.closeGroup.openGroups + 1 = s.openGroups) ∧
    ∀ i, s.finish ts.length = .error (.unbalancedParenthesis i) →
      ts[i]? = some (.ofSymbol .opening) ∧ Token.Unclosed ts i := by
  obtain ⟨ctx, current, tracks⟩ := Tracks.start.of_steps run
  rw [List.nil_append] at tracks
  refine ⟨tracks.openGroups_eq_countP, tracks.ncard_unclosed.symm, fun p waits => ?_, ?_, fun opened => ?_,
    fun i failed => ?_⟩
  · have here := tracks.getElem?_of_mem_pending waits
    obtain ⟨inside, _⟩ := List.getElem?_eq_some_iff.1 here
    rw [tracks.shown.pending] at waits
    exact ⟨Context.symbol_ne_closing waits, rfl, inside, here⟩
  · rw [Stack.toList, List.pairwise_reverse, tracks.shown.pending]
    exact Context.pairwise_position ctx
  · obtain ⟨above, group, below, waits, free, opens, balanced⟩ := tracks.exists_group opened
    refine ⟨above, group, below, waits, free, opens, balanced, ?_⟩
    rw [closeGroup_eq waits free opens]
    exact ⟨rfl, Queue.toList_append _ _, Nat.succ_pred_eq_of_ne_zero opened⟩
  · cases tracks.unfinished_of_finish failed with
    | group _ greatest => exact ⟨greatest.1.1, greatest.1⟩

/-- Of two groups that are open, the inner one inside a negation, the inner one is closed first and is the one
that is reported. -/
theorem openGroups_agree_nested :
    let ts : List Token := [.symbol '(', .integer 1, .symbol '*', .symbol '!', .symbol '(', .integer 2]
    let pending : List Pending := [⟨.opening, 4⟩, ⟨.negation, 3⟩, ⟨.binary .multiply, 2⟩, ⟨.opening, 0⟩]
    ∃ s, start.steps 0 ts = .ok s ∧ s.pending.items = pending ∧
      s.openGroups = 2 ∧ s.openGroups = {i | Token.Unclosed ts i}.ncard ∧
      s.pending.toList.Pairwise (fun p q => p.position < q.position) ∧
      (∃ above group below, pending = above ++ group :: below ∧ group.isOpening ∧
        Token.Balanced (ts.drop (group.position + 1)) ∧ s.closeGroup.pending.items = below) ∧
      s.finish ts.length = .error (.unbalancedParenthesis 4) ∧ Token.Unclosed ts 4 := by
  intro ts pending
  obtain ⟨s, run, waits, opened, failed⟩ : ∃ s, start.steps 0 ts = .ok s ∧ s.pending.items = pending ∧
      s.openGroups = 2 ∧ s.finish ts.length = .error (.unbalancedParenthesis 4) := ⟨_, rfl, rfl, rfl, rfl⟩
  obtain ⟨_, unclosed, _, order, closes, ends⟩ := openGroups_agree run
  obtain ⟨above, group, below, split, _, opens, balanced, left, _⟩ := closes (opened ▸ two_ne_zero)
  exact ⟨s, run, waits, opened, unclosed, order,
    ⟨above, group, below, waits.symm.trans split, opens, balanced, left⟩, failed, (ends 4 failed).2⟩

end Conversion

end Places

section Ranks

namespace Pending

/-- The rank of a symbol that waits. -/
def rank (p : Pending) : Nat := p.symbol.rank

/-- Whether the symbol lets no operator pass. -/
def isBarrier (p : Pending) : Bool := p.symbol == .negation || p.symbol == .opening

/-- If both are operators, the upper one binds no less tightly than the lower one. -/
def Rests (upper lower : Pending) : Prop :=
  ∀ op op', upper.symbol = .binary op → lower.symbol = .binary op' → op'.rank ≤ op.rank

/-- An operator is no barrier. -/
lemma isBarrier_eq_false {p : Pending} {op : BinaryOperator} (waits : p.symbol = .binary op) :
    p.isBarrier = false := by
  rw [isBarrier, waits]
  rfl

/-- An operator that waits binds more tightly if its rank is greater. -/
lemma isTighter_eq {p : Pending} {op op' : BinaryOperator} (waits : p.symbol = .binary op') :
    p.isTighter op = decide (op.rank < p.rank) := by
  rw [isTighter, rank, waits]
  rfl

/-- Only operators bind more tightly than an operator. -/
lemma isBarrier_of_isTighter {p : Pending} {op : BinaryOperator} (tighter : p.isTighter op) :
    p.isBarrier = false := by
  rw [isTighter] at tighter
  split at tighter
  · rename_i waits
    exact isBarrier_eq_false waits
  · cases tighter

end Pending

namespace Context

/-- Unless a barrier waits there, it is an operator that waits. -/
lemma exists_binary (waits : p ∈ pending ctx) (passed : p.isBarrier = false) :
    ∃ op, p.symbol = .binary op := by
  obtain ⟨f, _, same⟩ := symbol_of_mem_pending waits
  rw [Pending.isBarrier, same] at passed
  rw [same]
  cases f with
  | binary left op => exact ⟨op, rfl⟩
  | _ => cases passed

/-- In an admissible context every operator rests on one that binds no more tightly. -/
lemma Admissible.isChain_pending (admissible : ctx.Admissible) : ctx.pending.IsChain Pending.Rests := by
  induction admissible with
  | nil => exact .nil
  | negation _ ih => exact List.isChain_cons.2 ⟨fun _ _ _ _ upper => (nomatch upper), ih⟩
  | opening _ ih => exact List.isChain_cons.2 ⟨fun _ _ _ _ upper => (nomatch upper), ih⟩
  | @binary left op ctx _ _ _ bound _ ih =>
    refine List.isChain_cons.2 ⟨fun q next op' outer upper lower => ?_, ih⟩
    cases upper
    apply bound
    cases ctx with
    | nil => cases next
    | cons f ctx =>
      cases next
      cases f <;> cases lower
      rfl

end Context

/-- The ranks of operators that rest on each other do not rise from the top to the bottom. -/
lemma Pending.pairwise_rank {level : List Pending} (chain : level.IsChain Rests)
    (operators : ∀ p ∈ level, ∃ op, p.symbol = .binary op) : (level.map rank).Pairwise (· ≥ ·) := by
  apply List.isChain_iff_pairwise.1
  apply (List.isChain_map rank).2
  refine chain.imp_of_mem_imp fun p q upper lower rests => ?_
  obtain ⟨op, here⟩ := operators p upper
  obtain ⟨op', below⟩ := operators q lower
  rw [ge_iff_le, rank, rank, here, below]
  exact rests op op' here below

/-- Where what passes a test stands in front of what fails it, all that pass are taken. -/
lemma takeWhile_eq_filter {α : Type} {test : α → Bool} {l : List α}
    (falls : l.Pairwise fun a b => test b → test a) : l.takeWhile test = l.filter test := by
  induction falls with
  | nil => rfl
  | @cons a l first _ ih =>
    rw [List.takeWhile_cons, List.filter_cons]
    split
    · rw [ih]
    · rename_i fails
      symm
      apply List.filter_eq_nil_iff.2
      exact fun b mem passes => fails (first b mem passes)

namespace Conversion

namespace Tracks

variable {current : Option Writing} {level : List Pending}

/-- What waits and is no barrier is an operator. -/
lemma exists_binary (tracks : s.Tracks ts ctx current) (waits : p ∈ s.pending.items)
    (passed : p.isBarrier = false) : ∃ op, p.symbol = .binary op := by
  rw [tracks.shown.pending] at waits
  exact Context.exists_binary waits passed

/-- Between barriers, the operators that wait rest on each other. -/
lemma pairwise_rank (tracks : s.Tracks ts ctx current) (within : level <:+: s.pending.items)
    (passed : ∀ p ∈ level, p.isBarrier = false) : (level.map Pending.rank).Pairwise (· ≥ ·) := by
  have waits : ∀ p ∈ level, p ∈ s.pending.items := within.subset
  have chain := tracks.admissible.isChain_pending
  obtain ⟨above, below, whole⟩ := within
  rw [← tracks.shown.pending, ← whole] at chain
  exact Pending.pairwise_rank chain.left_of_append.right_of_append
    fun p mem => tracks.exists_binary (waits p mem) (passed p mem)

/-- From the top down to the first barrier, all tighter operators wait above all others. -/
lemma takeWhile_isTighter (tracks : s.Tracks ts ctx current) (op : BinaryOperator) :
    s.pending.items.takeWhile (Pending.isTighter op) =
      (s.pending.items.takeWhile fun p => !p.isBarrier).filter fun p => op.rank < p.rank := by
  have down : (s.pending.items.takeWhile fun p => !p.isBarrier) <+: s.pending.items :=
    List.takeWhile_prefix _
  have passed : ∀ p ∈ s.pending.items.takeWhile fun p => !p.isBarrier, p.isBarrier = false := by
    intro p mem
    simpa using List.mem_takeWhile_imp mem
  have falls := tracks.pairwise_rank down.isInfix passed
  rw [List.pairwise_map] at falls
  have tighter : ∀ p ∈ s.pending.items.takeWhile fun p => !p.isBarrier,
      p.isTighter op = decide (op.rank < p.rank) := by
    intro p mem
    obtain ⟨op', waits⟩ := tracks.exists_binary (down.subset mem) (passed p mem)
    exact Pending.isTighter_eq waits
  -- The ranks fall down to the barrier, so taking while they are greater takes all that are greater.
  calc s.pending.items.takeWhile (Pending.isTighter op)
    _ = (s.pending.items.takeWhile fun p => !p.isBarrier).takeWhile (Pending.isTighter op) := by
      rw [List.takeWhile_takeWhile]
      congr 1
      funext p
      cases passes : p.isTighter op with
      | false => rfl
      | true =>
        rw [Pending.isBarrier_of_isTighter passes]
        rfl
    _ = (s.pending.items.takeWhile fun p => !p.isBarrier).filter (Pending.isTighter op) := by
      apply takeWhile_eq_filter
      refine falls.imp_of_mem fun {p q} upper lower rests passes => ?_
      rw [tighter q lower, decide_eq_true_iff] at passes
      rw [tighter p upper, decide_eq_true_iff]
      exact passes.trans_le rests
    _ = (s.pending.items.takeWhile fun p => !p.isBarrier).filter fun p => op.rank < p.rank :=
      List.filter_congr tighter

end Tracks

/-- Whatever waits and is no barrier is an operator, and the ranks of operators with no barrier between them do
not fall from the bottom to the top. So releasing what binds more tightly than an operator writes, the top
first, all operators above the topmost barrier with a greater rank, takes them from the stack and changes
nothing else. -/
theorem release_isTighter (run : start.steps 0 ts = .ok s) :
    (∀ p ∈ s.pending.items, p.isBarrier = false → ∃ op, p.symbol = .binary op) ∧
    (∀ level, level <:+: s.pending.toList → (∀ p ∈ level, p.isBarrier = false) →
      (level.map Pending.rank).Pairwise (· ≤ ·)) ∧
    ∀ op : BinaryOperator,
      let released :=
        (s.pending.items.takeWhile fun p => !p.isBarrier).filter fun p => op.rank < p.rank
      let s' := s.release (Pending.isTighter op)
      s'.output.toList = s.output.toList ++ released.map Pending.token ∧
      released ++ s'.pending.items = s.pending.items ∧
      s'.openGroups = s.openGroups ∧ s'.expectsOperand = s.expectsOperand := by
  obtain ⟨ctx, current, tracks⟩ := Tracks.start.of_steps run
  refine ⟨fun p => tracks.exists_binary, fun level within passed => ?_, fun op => ?_⟩
  · have within : level.reverse <:+: s.pending.items := by
      rw [← List.reverse_infix, List.reverse_reverse]
      exact within
    have falls := tracks.pairwise_rank within fun p mem => passed p (List.mem_reverse.1 mem)
    rw [List.map_reverse, List.pairwise_reverse] at falls
    exact falls
  · intro released s'
    have taken : s.pending.items.takeWhile (Pending.isTighter op) = released := tracks.takeWhile_isTighter op
    refine ⟨?_, ?_, rfl, rfl⟩
    · rw [← taken]
      exact Queue.toList_append _ _
    · rw [← taken]
      exact List.takeWhile_append_dropWhile

/-- In front of a difference, a product and a sum are released, but neither a disjunction nor a power behind a
negation. -/
theorem release_isTighter_difference :
    let ts : List Token := [.integer 1, .symbol '^', .symbol '!', .integer 2, .symbol '|', .integer 3,
      .symbol '+', .integer 4, .symbol '*', .integer 5]
    let level : List Pending := [⟨.binary .or, 4⟩, ⟨.binary .add, 6⟩, ⟨.binary .multiply, 8⟩]
    let released : List Pending := [⟨.binary .multiply, 8⟩, ⟨.binary .add, 6⟩]
    ∃ s, start.steps 0 ts = .ok s ∧
      s.pending.toList = [⟨.binary .power, 1⟩, ⟨.negation, 2⟩] ++ level ∧
      (level.map Pending.rank).Pairwise (· ≤ ·) ∧
      (s.release (Pending.isTighter .subtract)).output.toList =
        s.output.toList ++ released.map Pending.token ∧
      released ++ (s.release (Pending.isTighter .subtract)).pending.items = s.pending.items := by
  intro ts level released
  obtain ⟨s, run, waits⟩ : ∃ s, start.steps 0 ts = .ok s ∧
      s.pending.items = level.reverse ++ [⟨.negation, 2⟩, ⟨.binary .power, 1⟩] := ⟨_, rfl, rfl⟩
  have whole : s.pending.toList = [⟨.binary .power, 1⟩, ⟨.negation, 2⟩] ++ level := by
    rw [Stack.toList, waits]
    rfl
  obtain ⟨_, ranks, releases⟩ := release_isTighter run
  have within : level <:+: s.pending.toList := whole ▸ (List.suffix_append _ level).isInfix
  have tighter : (s.pending.items.takeWhile fun p => !p.isBarrier).filter
      (fun p => BinaryOperator.subtract.rank < p.rank) = released := by
    rw [waits]
    rfl
  obtain ⟨written, rest, _⟩ := releases .subtract
  rw [tighter] at written rest
  exact ⟨s, run, whole, ranks level within (by decide), written, rest⟩

end Conversion

end Ranks

end LineCalc.Postfix
