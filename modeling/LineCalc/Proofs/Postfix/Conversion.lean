import LineCalc.Proofs.Except
import LineCalc.Proofs.Expression.Splitting
import LineCalc.Proofs.Postfix.Context
import Mathlib.Data.List.TakeWhile

/-!
# Conversion follows the reading

A conversion tracks the tokens it has taken: the frames and the operand read so far say what it has
written, what waits on its stack and whether it expects an operand. One step keeps this up
(`Tracks.of_step`), so a whole run does (`Tracks.of_steps`), and at the end the frames are completed to
an admissible writing of all tokens whose postorder is the result. In the other direction every writing
is accepted.
-/

namespace LineCalc.Postfix

namespace Context

/-- An operand fits on the right of the operator that waits directly around it. -/
def Bounds (ctx : Context) (w : Writing) : Prop :=
  ∀ outer, operator? ctx = some outer → ∀ inner, w.root? = some inner → outer.rank ≤ inner.rank

/-- An operand without an operator at its root fits anywhere. -/
lemma Bounds.of_rootless {ctx : Context} {w : Writing} (rootless : w.root? = none) :
    ctx.Bounds w := by
  intro outer _ inner root
  rw [rootless] at root
  cases root

/-- Completing frames gives an admissible writing in an admissible context. -/
lemma Admissible.fill {inner outer : Context} {w : Writing}
    (admissible : Admissible (inner ++ outer)) (adm : w.Admissible)
    (bounds : Bounds (inner ++ outer) w) :
    (Context.fill inner w).Admissible ∧ Admissible outer ∧ Bounds outer (Context.fill inner w) := by
  induction inner generalizing w with
  | nil => exact ⟨adm, admissible, bounds⟩
  | cons f inner ih =>
    rw [fill_cons]
    cases admissible with
    | negation rest => exact ih rest (.negation adm) (.of_rootless rfl)
    | opening rest => exact ih rest (.group adm) (.of_rootless rfl)
    | @binary left op _ adml tighter clear bound rest =>
      refine ih rest (.binary ⟨tighter, clear, bounds op rfl⟩ adml adm) ?_
      intro outer' waiting root same
      cases same
      exact bound outer' waiting

/-- Completing tighter operators gives an operand that may stand on the left of the operator. -/
lemma fill_tighter (op : BinaryOperator) {inner : Context} {w : Writing}
    (tighter : ∀ f ∈ inner, f.isTighter op)
    (root : ∀ root, w.root? = some root → op.rank < root.rank)
    (clear : w.reachesNegation = false) :
    (∀ root, (fill inner w).root? = some root → op.rank < root.rank) ∧
      (fill inner w).reachesNegation = false := by
  induction inner generalizing w with
  | nil => exact ⟨root, clear⟩
  | cons f inner ih =>
    obtain ⟨first, others⟩ := List.forall_mem_cons.1 tighter
    rw [fill_cons]
    cases f with
    | negation => cases first
    | opening => cases first
    | binary left op' =>
      refine ih others ?_ clear
      intro root' same
      cases same
      simpa [Frame.isTighter, Pending.isTighter, Frame.symbol] using first

/-- When the tighter operators are released, none of them waits on top. -/
lemma operator?_dropWhile_le {op outer : BinaryOperator} {ctx : Context}
    (waiting : operator? (ctx.dropWhile (Frame.isTighter op)) = some outer) :
    outer.rank ≤ op.rank := by
  have stops := List.head?_dropWhile_not (Frame.isTighter op) ctx
  cases rest : ctx.dropWhile (Frame.isTighter op) with
  | nil =>
    rw [rest] at waiting
    cases waiting
  | cons f outer' =>
    rw [rest] at waiting stops
    cases f with
    | binary left op' =>
      cases waiting
      simpa [Frame.isTighter, Pending.isTighter, Frame.symbol] using stops
    | _ => cases waiting

end Context

namespace Conversion

/-- What waits is the context, and what is written are its outputs followed by the given tokens. -/
structure Shows (s : Conversion) (ctx : Context) (written : List Token) : Prop where
  output : s.output.toList = ctx.output ++ written
  pending : s.pending.items = ctx.pending
  openGroups : s.openGroups = ctx.openGroups

/-- The conversion holds what belongs to the tokens taken so far. -/
structure Tracks (s : Conversion) (ts : List Token) (ctx : Context) (current : Option Writing) :
    Prop where
  shown : s.Shows ctx (current.elim [] fun w => w.expression.postorder)
  expectsOperand : s.expectsOperand = current.isNone
  tokens : ctx.tokens ++ current.elim [] Writing.tokens = ts
  admissible : ctx.Admissible
  current : ∀ w, current = some w → w.Admissible ∧ w.root? = none ∧ w.reachesNegation = false

/-- Nothing has been read at the start. -/
lemma Tracks.start : Conversion.start.Tracks [] [] none :=
  ⟨⟨rfl, rfl, rfl⟩, rfl, rfl, .nil, nofun⟩

/-- A symbol that is held is one more frame. -/
lemma Shows.hold {s : Conversion} {ctx : Context} {f : Frame} {position : Nat}
    (output : s.output.toList = ctx.output ++ f.output) (pending : s.pending.items = ctx.pending)
    (openGroups : s.openGroups = Context.openGroups (f :: ctx))
    (place : position = (ctx.tokens ++ f.before).length) :
    (s.hold f.symbol position).Shows (f :: ctx) [] := by
  refine ⟨?_, ?_, openGroups⟩
  · simp [Conversion.hold, output, Context.output]
  · simp [Conversion.hold, Stack.push, pending, place, Context.pending]

/-- An operand is taken as one. -/
lemma step_operand (s : Conversion) (position : Nat) (a : Operand) :
    s.step position a.token = s.takeOperand position a.token := by
  cases a <;> rfl

/-- The character of a symbol is taken as that symbol. -/
lemma step_ofSymbol (s : Conversion) (position : Nat) (symbol : Symbol) :
    s.step position (.ofSymbol symbol) = s.takeSymbol position symbol := by
  simp [step, Token.ofSymbol]

section Progress

variable {s : Conversion} {ts : List Token} {ctx : Context}

/-- Where an operand is missing all tokens belong to the frames. -/
lemma Tracks.tokens_of_none (tracks : s.Tracks ts ctx none) : ctx.tokens = ts := by
  simpa using tracks.tokens

/-- An operand is the operand that was missing. -/
lemma Tracks.operand (tracks : s.Tracks ts ctx none) (a : Operand) :
    ∃ s', s.step ts.length a.token = .ok s' ∧
      s'.Tracks (ts ++ [a.token]) ctx (some (.operand a)) := by
  refine ⟨{ s with output := s.output.enqueue a.token, expectsOperand := false }, ?_, ?_⟩
  · rw [step_operand, takeOperand, tracks.expectsOperand]
    rfl
  · refine ⟨⟨?_, tracks.shown.pending, tracks.shown.openGroups⟩, rfl, ?_, tracks.admissible, ?_⟩
    · simp [tracks.shown.output, Writing.expression, Expression.postorder]
    · simp [← tracks.tokens, Writing.tokens]
    · intro w same
      cases same
      exact ⟨.operand, rfl, rfl⟩

/-- A negation is one more frame. -/
lemma Tracks.negation (tracks : s.Tracks ts ctx none) :
    ∃ s', s.step ts.length (.ofSymbol .negation) = .ok s' ∧
      s'.Tracks (ts ++ [.ofSymbol .negation]) (.negation :: ctx) none := by
  refine ⟨s.hold .negation ts.length, ?_, ?_⟩
  · rw [step_ofSymbol, takeSymbol, tracks.expectsOperand]
    rfl
  · refine ⟨?_, tracks.expectsOperand, ?_, .negation tracks.admissible, nofun⟩
    · refine .hold (f := .negation) tracks.shown.output tracks.shown.pending ?_ ?_
      · exact tracks.shown.openGroups
      · simp [tracks.tokens_of_none, Frame.before]
    · simp [Context.tokens, tracks.tokens_of_none, Frame.tokens, Frame.before, Frame.symbol]

/-- An opening parenthesis is one more frame. -/
lemma Tracks.opening (tracks : s.Tracks ts ctx none) :
    ∃ s', s.step ts.length (.ofSymbol .opening) = .ok s' ∧
      s'.Tracks (ts ++ [.ofSymbol .opening]) (.opening :: ctx) none := by
  refine ⟨{ s.hold .opening ts.length with openGroups := s.openGroups + 1 }, ?_, ?_⟩
  · rw [step_ofSymbol, takeSymbol, tracks.expectsOperand]
    rfl
  · refine ⟨?_, tracks.expectsOperand, ?_, .opening tracks.admissible, nofun⟩
    · refine .hold (s := { s with openGroups := s.openGroups + 1 }) (f := .opening)
        tracks.shown.output tracks.shown.pending ?_ ?_
      · rw [Context.openGroups_cons, tracks.shown.openGroups]
        rfl
      · simp [tracks.tokens_of_none, Frame.before]
    · simp [Context.tokens, tracks.tokens_of_none, Frame.tokens, Frame.before, Frame.symbol]

/-- Releasing symbols other than parentheses completes the innermost frames to one operand. -/
lemma Tracks.release {w : Writing} (tracks : s.Tracks ts ctx (some w)) (test : Pending → Bool)
    (onFrames : Frame → Bool)
    (agree : ∀ (f : Frame) (position : Nat), test ⟨f.symbol, position⟩ = onFrames f)
    (keeps : onFrames .opening = false) :
    (s.release test).Shows (ctx.dropWhile onFrames)
        (Context.fill (ctx.takeWhile onFrames) w).expression.postorder ∧
      Context.tokens (ctx.dropWhile onFrames) ++ (Context.fill (ctx.takeWhile onFrames) w).tokens =
        ts ∧
      (Context.fill (ctx.takeWhile onFrames) w).Admissible ∧
      Context.Admissible (ctx.dropWhile onFrames) := by
  -- Only frames other than groups are completed, so no token is added.
  have closed : ∀ f ∈ ctx.takeWhile onFrames, f.isOpening = false := by
    intro f mem
    have passes := List.mem_takeWhile_imp mem
    cases f with
    | opening =>
      rw [keeps] at passes
      cases passes
    | _ => rfl
  have split : ctx.takeWhile onFrames ++ ctx.dropWhile onFrames = ctx :=
    List.takeWhile_append_dropWhile
  have read := tracks.tokens
  have admissible := tracks.admissible
  obtain ⟨adm, rootless, -⟩ := tracks.current w rfl
  rw [← split] at admissible
  rw [← split, Option.elim, Context.tokens_fill closed] at read
  obtain ⟨admv, admissible, -⟩ := admissible.fill adm (.of_rootless rootless)
  refine ⟨⟨?_, ?_, ?_⟩, read, admv, admissible⟩
  · rw [← Context.output_fill closed, split]
    simp only [Conversion.release, Stack.popWhile, Queue.toList_append, tracks.shown.output,
      tracks.shown.pending, Context.takeWhile_pending agree, Option.elim]
  · simp only [Conversion.release, Stack.popWhile, tracks.shown.pending,
      Context.dropWhile_pending agree]
  · exact tracks.shown.openGroups.trans (Context.openGroups_dropWhile keeps ctx).symm

/-- A binary operator takes the operands that bind more tightly as its left side. -/
lemma Tracks.binary {w : Writing} (tracks : s.Tracks ts ctx (some w)) (op : BinaryOperator) :
    ∃ s', s.step ts.length (.ofSymbol (.binary op)) = .ok s' ∧
      s'.Tracks (ts ++ [.ofSymbol (.binary op)])
        (.binary (Context.fill (ctx.takeWhile (Frame.isTighter op)) w) op ::
          ctx.dropWhile (Frame.isTighter op)) none := by
  obtain ⟨shown, read, admv, admissible⟩ :=
    tracks.release (Pending.isTighter op) (Frame.isTighter op) (fun _ _ => rfl) rfl
  obtain ⟨-, rootless, clear⟩ := tracks.current w rfl
  obtain ⟨tighter, clear⟩ :=
    Context.fill_tighter op (fun f mem => List.mem_takeWhile_imp mem) (by simp [rootless]) clear
  refine ⟨{ (s.release (Pending.isTighter op)).hold (.binary op) ts.length with
    expectsOperand := true }, ?_, ?_⟩
  · rw [step_ofSymbol, takeSymbol, tracks.expectsOperand]
    rfl
  · refine ⟨?_, rfl, ?_, ?_, nofun⟩
    · exact .hold (s := { s.release (Pending.isTighter op) with expectsOperand := true })
        (f := .binary _ op) shown.output shown.pending shown.openGroups
        (congrArg List.length read.symm)
    · simp [← read, Context.tokens, Frame.tokens, Frame.before, Frame.symbol]
    · exact .binary admv tighter clear (fun outer => Context.operator?_dropWhile_le) admissible

/-- A group that is closed does not wait any more. -/
lemma Shows.closeGroup {outer : Context} {written : List Token}
    (shown : (s.release fun p => !p.isOpening).Shows (.opening :: outer) written) :
    s.closeGroup.Shows outer written ∧ s.closeGroup.expectsOperand = s.expectsOperand := by
  have top : (s.release fun p => !p.isOpening).pending.pop? =
      some (⟨.opening, (outer.tokens ++ []).length⟩, ⟨outer.pending⟩) := by
    rw [Stack.pop?, shown.pending]
    rfl
  have output := shown.output
  have openGroups := shown.openGroups
  rw [Context.openGroups_cons] at openGroups
  simp only [Conversion.closeGroup, top]
  refine ⟨⟨?_, rfl, ?_⟩, rfl⟩
  · simpa [Context.output, Frame.output] using output
  · exact congrArg (· - 1) openGroups

/-- A closing parenthesis makes a group of everything after the opening one. -/
lemma Tracks.closing {w : Writing} (tracks : s.Tracks ts ctx (some w)) (opened : ctx.openGroups ≠ 0) :
    ∃ (s' : Conversion) (outer : Context), ctx.openGroups = outer.openGroups + 1 ∧
      s.step ts.length (.ofSymbol .closing) = .ok s' ∧
      s'.Tracks (ts ++ [.ofSymbol .closing]) outer
        (some (.group (Context.fill (ctx.takeWhile fun f => !f.isOpening) w))) := by
  obtain ⟨shown, read, admv, admissible⟩ :=
    tracks.release (fun p => !p.isOpening) (fun f => !f.isOpening) (fun _ _ => rfl) rfl
  obtain ⟨outer, rest, count⟩ := Context.exists_opening opened
  rw [rest] at shown read admissible
  obtain ⟨shown, expects⟩ := Shows.closeGroup shown
  refine ⟨s.closeGroup, outer, count, ?_, ?_⟩
  · rw [step_ofSymbol, takeSymbol, tracks.expectsOperand, tracks.shown.openGroups, if_neg opened]
    rfl
  · cases admissible with
    | opening admissible =>
      refine ⟨shown, expects.trans tracks.expectsOperand, ?_, admissible, ?_⟩
      · simp [← read, Context.tokens, Frame.tokens, Frame.before, Frame.symbol, Writing.tokens]
      · intro v same
        cases same
        exact ⟨.group admv, rfl, rfl⟩

/-- If no group is open, the tokens are an admissible writing and its postorder is the result. -/
lemma Tracks.finish {w : Writing} (tracks : s.Tracks ts ctx (some w)) (closed : ctx.openGroups = 0) :
    ∃ v : Writing, v.Admissible ∧ v.tokens = ts ∧
      s.finish ts.length = .ok v.expression.postorder := by
  have closed : ∀ f ∈ ctx, !f.isOpening := by
    simpa [Context.openGroups, List.countP_eq_zero] using closed
  have waits : ∀ p ∈ s.pending.items, !p.isOpening := by
    intro p mem
    rw [tracks.shown.pending] at mem
    obtain ⟨f, mem, same⟩ := Context.symbol_of_mem_pending mem
    rw [Pending.isOpening, same]
    exact closed f mem
  have none : s.pending.items.find? Pending.isOpening = none :=
    List.find?_eq_none.2 fun p mem => by simpa using waits p mem
  obtain ⟨shown, read, adm, -⟩ :=
    tracks.release (fun p => !p.isOpening) (fun f => !f.isOpening) (fun _ _ => rfl) rfl
  have written := shown.output
  rw [List.dropWhile_eq_nil_iff.2 closed] at written read
  rw [Conversion.release, Stack.popWhile, List.takeWhile_eq_self_iff.2 waits] at written
  refine ⟨_, adm, read, ?_⟩
  rw [Conversion.finish, tracks.expectsOperand, none]
  exact congrArg Except.ok written

/-- An open group at the end is reported where the innermost one stands. -/
lemma Tracks.finish_of_opened {w : Writing} (tracks : s.Tracks ts ctx (some w))
    (opened : ctx.openGroups ≠ 0) :
    ∃ outer : Context, ctx.dropWhile (fun f => !f.isOpening) = .opening :: outer ∧
      s.finish ts.length = .error (.unbalancedParenthesis outer.tokens.length) := by
  obtain ⟨outer, rest, -⟩ := Context.exists_opening opened
  have waits : (Context.pending ctx).dropWhile (fun p => !p.isOpening) =
      Context.pending (.opening :: outer) := by
    rw [← rest]
    exact Context.dropWhile_pending (fun _ _ => rfl) ctx
  have found : s.pending.items.find? Pending.isOpening =
      some ⟨.opening, (outer.tokens ++ []).length⟩ := by
    rw [tracks.shown.pending, List.find?_eq_head?_dropWhile_not, waits]
    rfl
  refine ⟨outer, rest, ?_⟩
  rw [Conversion.finish, tracks.expectsOperand, found, List.append_nil]
  rfl

end Progress

/-- A step that is taken leads to a reading that is tracked again. -/
lemma Tracks.of_step {s s' : Conversion} {ts : List Token} {ctx : Context}
    {current : Option Writing} (tracks : s.Tracks ts ctx current) {t : Token}
    (taken : s.step ts.length t = .ok s') :
    ∃ ctx' current', s'.Tracks (ts ++ [t]) ctx' current' := by
  have reached {s'' : Conversion} {ctx' : Context} {current' : Option Writing}
      (same : s.step ts.length t = .ok s'') (tracks' : s''.Tracks (ts ++ [t]) ctx' current') :
      ∃ ctx' current', s'.Tracks (ts ++ [t]) ctx' current' := by
    cases same.symm.trans taken
    exact ⟨ctx', current', tracks'⟩
  have expects := tracks.expectsOperand
  -- Operands, negations and opening parentheses are taken where an operand is expected, and binary
  -- operators and closing parentheses where none is.
  cases t.view with
  | operand a =>
    cases current with
    | none =>
      obtain ⟨_, same, tracks'⟩ := tracks.operand a
      exact reached same tracks'
    | some w =>
      rw [step_operand, takeOperand, expects] at taken
      cases taken
  | unknown meaningless =>
    simp [step, meaningless] at taken
  | symbol symbol =>
    cases current with
    | none =>
      cases symbol with
      | negation =>
        obtain ⟨_, same, tracks'⟩ := tracks.negation
        exact reached same tracks'
      | opening =>
        obtain ⟨_, same, tracks'⟩ := tracks.opening
        exact reached same tracks'
      | closing =>
        rw [step_ofSymbol, takeSymbol, expects] at taken
        split at taken <;> cases taken
      | binary op =>
        rw [step_ofSymbol, takeSymbol, expects] at taken
        cases taken
    | some w =>
      cases symbol with
      | negation =>
        rw [step_ofSymbol, takeSymbol, expects] at taken
        cases taken
      | opening =>
        rw [step_ofSymbol, takeSymbol, expects] at taken
        cases taken
      | closing =>
        by_cases opened : ctx.openGroups = 0
        · rw [step_ofSymbol, takeSymbol, tracks.shown.openGroups, if_pos opened] at taken
          cases taken
        · obtain ⟨_, _, _, same, tracks'⟩ := tracks.closing opened
          exact reached same tracks'
      | binary op =>
        obtain ⟨_, same, tracks'⟩ := tracks.binary op
        exact reached same tracks'

section Runs

variable {s s₁ s₂ : Conversion} {ts a b : List Token} {t : Token}

/-- Steps are taken one after the other. -/
lemma steps_cons (one : s.step ts.length t = .ok s₁) :
    s.steps ts.length (t :: b) = s₁.steps (ts ++ [t]).length b := by
  rw [steps, one, List.length_append]
  rfl

/-- Steps may be taken in two parts. -/
lemma steps_append (first : s.steps ts.length a = .ok s₁) :
    s.steps ts.length (a ++ b) = s₁.steps (ts ++ a).length b := by
  induction a generalizing s ts with
  | nil =>
    cases first
    rw [List.nil_append, List.append_nil]
  | cons t a ih =>
    obtain ⟨s', one, -⟩ := Except.bind_eq_ok_iff.1 first
    rw [steps_cons one] at first
    rw [List.cons_append, steps_cons one, ih first, List.append_assoc]
    rfl

end Runs

/-- A run of steps keeps track of the tokens. -/
lemma Tracks.of_steps {s s' : Conversion} {ts more : List Token} {ctx : Context}
    {current : Option Writing} (tracks : s.Tracks ts ctx current)
    (taken : s.steps ts.length more = .ok s') :
    ∃ ctx' current', s'.Tracks (ts ++ more) ctx' current' := by
  induction more generalizing s ts ctx current with
  | nil =>
    cases taken
    rw [List.append_nil]
    exact ⟨ctx, current, tracks⟩
  | cons t more ih =>
    obtain ⟨s₁, one, -⟩ := Except.bind_eq_ok_iff.1 taken
    rw [steps_cons one] at taken
    obtain ⟨ctx₁, current₁, tracks₁⟩ := tracks.of_step one
    rw [List.append_cons]
    exact ih tracks₁ taken

/-- Where an operand is expected, every writing is accepted, and no open group is closed. -/
lemma Tracks.of_writing {s : Conversion} {ts : List Token} {ctx : Context}
    (tracks : s.Tracks ts ctx none) (w : Writing) :
    ∃ s' ctx' w', s.steps ts.length w.tokens = .ok s' ∧
      s'.Tracks (ts ++ w.tokens) ctx' (some w') ∧ ctx'.openGroups = ctx.openGroups := by
  -- The context changes within the writing, so the induction is over all contexts.
  induction w generalizing s ts ctx with
  | operand a =>
    obtain ⟨s', one, tracks'⟩ := tracks.operand a
    exact ⟨s', ctx, .operand a, steps_cons one, tracks', rfl⟩
  | negation w ih =>
    obtain ⟨s₁, one, tracks₁⟩ := tracks.negation
    obtain ⟨s', ctx', w', run, tracks', groups⟩ := ih tracks₁
    rw [← List.append_cons] at tracks'
    exact ⟨s', ctx', w', (steps_cons one).trans run, tracks', groups⟩
  | binary op left right ihl ihr =>
    obtain ⟨s₁, ctx₁, w₁, run₁, tracks₁, groups₁⟩ := ihl tracks
    obtain ⟨s₂, one, tracks₂⟩ := tracks₁.binary op
    obtain ⟨s', ctx', w', run, tracks', groups⟩ := ihr tracks₂
    rw [← List.append_cons, List.append_assoc] at tracks'
    refine ⟨s', ctx', w', ?_, tracks', ?_⟩
    · rw [Writing.tokens, steps_append run₁, steps_cons one, run]
    · rw [groups, Context.openGroups_cons, Context.openGroups_dropWhile rfl, groups₁]
      rfl
  | group w ih =>
    obtain ⟨s₁, one, tracks₁⟩ := tracks.opening
    obtain ⟨s₂, ctx₂, w₂, run, tracks₂, groups⟩ := ih tracks₁
    rw [Context.openGroups_cons] at groups
    have opened : ctx₂.openGroups ≠ 0 := groups ▸ Nat.succ_ne_zero _
    obtain ⟨s', outer, count, last, tracks'⟩ := tracks₂.closing opened
    rw [← List.append_cons, List.append_assoc] at tracks'
    refine ⟨s', outer, _, ?_, tracks', ?_⟩
    · rw [Writing.tokens, steps_cons one, steps_append run, steps_cons last]
      rfl
    · exact Nat.succ_injective (count.symm.trans groups)

end Conversion

/-- The conversions that succeed are those of the admissible writings, and they give the postorder. -/
theorem ofTokens_eq_ok_iff_writing {ts p : List Token} :
    ofTokens ts = .ok p ↔
      ∃ w : Writing, w.Admissible ∧ w.tokens = ts ∧ w.expression.postorder = p := by
  constructor
  · intro done
    obtain ⟨s, run, done⟩ := Except.bind_eq_ok_iff.1 done
    obtain ⟨ctx, current, tracks⟩ := Conversion.Tracks.start.of_steps run
    rw [List.nil_append] at tracks
    -- The end comes behind an operand and outside all groups, or the conversion fails there.
    cases current with
    | none =>
      rw [Conversion.finish, tracks.expectsOperand] at done
      cases done
    | some w =>
      by_cases closed : ctx.openGroups = 0
      · obtain ⟨v, adm, read, finished⟩ := tracks.finish closed
        cases finished.symm.trans done
        exact ⟨v, adm, read, rfl⟩
      · obtain ⟨_, _, unfinished⟩ := tracks.finish_of_opened closed
        cases unfinished.symm.trans done
  · rintro ⟨w, adm, rfl, rfl⟩
    obtain ⟨s, ctx, w', run, tracks, groups⟩ := Conversion.Tracks.start.of_writing w
    rw [List.nil_append] at tracks
    -- The conversion finds an admissible writing of its own, which is one of the same expression.
    obtain ⟨v, adm', read, finished⟩ := tracks.finish groups
    have run : Conversion.start.steps 0 w.tokens = .ok s := run
    rw [ofTokens, run, ← adm'.expression_eq adm read]
    exact finished

/-- A list of tokens is converted exactly if it has a tree, and its conversion is the tree's postorder. -/
theorem ofTokens_eq_ok_iff_tree {ts p : List Token} :
    ofTokens ts = .ok p ↔ ∃ e, Expression.ofTokens? ts = some e ∧ e.postorder = p := by
  rw [ofTokens_eq_ok_iff_writing]
  constructor
  · rintro ⟨w, adm, rfl, rfl⟩
    exact ⟨w.expression, Expression.ofTokens?_tokens adm, rfl⟩
  · rintro ⟨e, tree, rfl⟩
    obtain ⟨w, adm, rfl, rfl⟩ := Expression.exists_writing tree
    exact ⟨w, adm, rfl, rfl⟩

end LineCalc.Postfix
