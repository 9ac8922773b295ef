import LineCalc.Stack
import Mathlib.Data.Set.Card

/-!
# Operations on a stack

A removal takes what was pushed last among what had not been removed. Equal items may be pushed more than once,
so the items of a stack are told apart by the times at which they were pushed. Each operation answers from these
items, and pushes one more, or removes the last, or leaves the stack as it is.
-/

namespace LineCalc.Stack

variable {α : Type} {s next : Stack α} {a : α}

section Operations

/-- What a stack is asked for. -/
inductive Operation (α : Type) where
  | push (a : α)
  | pop
  | popIf (test : α → Bool)
  | peek
  | isEmpty
  | size

/-- What an operation answers. -/
inductive Answer (α : Type) where
  | done
  | item (found : Option α)
  | truth (holds : Bool)
  | count (n : Nat)

/-- The item that was found, and the stack without it. If none was found, the stack stays. -/
def removing (s : Stack α) : Option (α × Stack α) → Answer α × Stack α
  | some (a, rest) => (.item (some a), rest)
  | none => (.item none, s)

/-- The answer, and the stack that is left. -/
def perform (s : Stack α) : Operation α → Answer α × Stack α
  | .push a => (.done, s.push a)
  | .pop => s.removing s.pop?
  | .popIf test => s.removing (s.popIf? test)
  | .peek => (.item s.peek?, s)
  | .isEmpty => (.truth s.isEmpty, s)
  | .size => (.count s.size, s)

/-- An operation and its answer. -/
abbrev Event (α : Type) := Operation α × Answer α

namespace Event

/-- The item that an event pushes. -/
def pushed? : Event α → Option α
  | (.push a, _) => some a
  | _ => none

/-- The item that an event removes. -/
def removed? : Event α → Option α
  | (.pop, .item found) | (.popIf _, .item found) => found
  | _ => none

/-- An event pushes an item, or removes the last one, or leaves the stack as it is. -/
inductive Moves (e : Event α) (s : Stack α) : Stack α → Prop where
  | push {a : α} {next : Stack α} :
    e.pushed? = some a →
    e.removed? = none →
    next.toList = s.toList ++ [a] →
    Moves e s next
  | remove {a : α} {next : Stack α} :
    e.pushed? = none →
    e.removed? = some a →
    s.toList = next.toList ++ [a] →
    Moves e s next
  | stay :
    e.pushed? = none →
    e.removed? = none →
    Moves e s s

/-- Where nothing is pushed or removed the stack stays. -/
lemma Moves.eq_of_none {e : Event α} (moves : e.Moves s next) (unpushed : e.pushed? = none)
    (kept : e.removed? = none) : next = s := by
  cases moves with
  | push pushed _ _ => cases unpushed.symm.trans pushed
  | remove _ removed _ => cases kept.symm.trans removed
  | stay => rfl

end Event

/-- The item on top is the last one. -/
lemma peek?_eq_getLast? (s : Stack α) : s.peek? = s.toList.getLast? :=
  List.getLast?_reverse.symm

/-- A stack is empty if it has no items. -/
lemma isEmpty_iff : s.isEmpty ↔ s.toList = [] := by
  rw [isEmpty, List.isEmpty_iff, toList, List.reverse_eq_nil_iff]

/-- The size is the number of items. -/
lemma length_toList (s : Stack α) : s.toList.length = s.size :=
  List.length_reverse

/-- What is popped is the last item. -/
lemma pop?_map_fst (s : Stack α) : s.pop?.map Prod.fst = s.toList.getLast? := by
  rw [← peek?_eq_getLast?, pop?, peek?]
  cases s.items <;> rfl

/-- What is popped on a condition is the last item, if it meets the condition. -/
lemma popIf?_map_fst (s : Stack α) (test : α → Bool) :
    (s.popIf? test).map Prod.fst = s.toList.getLast?.filter test := by
  rw [← pop?_map_fst, popIf?, Option.filter_map]
  rfl

/-- The answer to a removal is the item that was found. -/
lemma removing_fst (s : Stack α) (found : Option (α × Stack α)) :
    (s.removing found).1 = .item (found.map Prod.fst) := by
  cases found <;> rfl

/-- What an operation does to the stack shows in its answer. -/
lemma moves_perform (s : Stack α) (op : Operation α) :
    Event.Moves (op, (s.perform op).1) s (s.perform op).2 := by
  cases op with
  | push a => exact .push rfl rfl (toList_push s a)
  | pop =>
    rw [perform]
    cases left : s.pop? with
    | none => exact .stay rfl rfl
    | some popped => exact .remove rfl rfl (pop?_eq_some_iff.1 left)
  | popIf test =>
    rw [perform]
    cases left : s.popIf? test with
    | none => exact .stay rfl rfl
    | some popped => exact .remove rfl rfl (pop?_eq_some_iff.1 (Option.filter_eq_some_iff.1 left).1)
  | peek => exact .stay rfl rfl
  | isEmpty => exact .stay rfl rfl
  | size => exact .stay rfl rfl

end Operations

section Times

/-- The item that was pushed at a time. -/
def pushedAt? (events : List (Event α)) (k : Nat) : Option α := events[k]?.bind Event.pushed?

/-- The item that was removed at a time. -/
def removedAt? (events : List (Event α)) (m : Nat) : Option α := events[m]?.bind Event.removed?

/-- The times before the given one at which an item was pushed that has not been removed since. A removal
removes what was pushed last among what had not been removed. -/
def unremoved (events : List (Event α)) (m : Nat) : Set Nat :=
  {k | k < m ∧ (pushedAt? events k).isSome ∧
    ∀ i < m, (removedAt? events i).isSome → ¬IsGreatest (unremoved events i) k}

/-- The items were pushed at these times, and nothing else has been pushed that has not been removed. -/
structure Dates (events : List (Event α)) (m : Nat) (times : List Nat) (items : List α) : Prop where
  increasing : times.Pairwise (· < ·)
  mem_iff : ∀ k, k ∈ times ↔ k ∈ unremoved events m
  pushed : times.map (pushedAt? events) = items.map some

/-- What was pushed last among what has not been removed, if there is such an item. -/
def Latest (events : List (Event α)) (m : Nat) (found : Option α) : Prop :=
  ∀ a, found = some a ↔ ∃ k, IsGreatest (unremoved events m) k ∧ pushedAt? events k = some a

/-- The answer tells what has not been removed before the time of the event. -/
inductive Reports (events : List (Event α)) (m : Nat) : Event α → Prop where
  | push {a : α} :
    Reports events m (.push a, .done)
  | pop {found : Option α} :
    Latest events m found →
    Reports events m (.pop, .item found)
  | popIf {found : Option α} {test : α → Bool} :
    Latest events m found →
    Reports events m (.popIf test, .item (found.filter test))
  | peek {found : Option α} :
    Latest events m found →
    Reports events m (.peek, .item found)
  | isEmpty {holds : Bool} :
    (holds ↔ unremoved events m = ∅) →
    Reports events m (.isEmpty, .truth holds)
  | size :
    Reports events m (.size, .count (unremoved events m).ncard)

variable {events : List (Event α)} {e : Event α} {times : List Nat} {items : List α} {k m : Nat}

/-- A push is unremoved if no removal up to now has found it to be the last. -/
lemma mem_unremoved :
    k ∈ unremoved events m ↔ k < m ∧ (pushedAt? events k).isSome ∧
      ∀ i < m, (removedAt? events i).isSome → ¬IsGreatest (unremoved events i) k := by
  rw [unremoved]
  rfl

/-- At the next time the item that was pushed now is there too, or the one that was removed now is not. -/
lemma mem_unremoved_succ :
    k ∈ unremoved events (m + 1) ↔ k = m ∧ (pushedAt? events m).isSome ∨
      k ∈ unremoved events m ∧ ((removedAt? events m).isSome → ¬IsGreatest (unremoved events m) k) := by
  constructor
  · intro mem
    obtain ⟨before, pushed, kept⟩ := mem_unremoved.1 mem
    rcases Nat.lt_succ_iff_lt_or_eq.1 before with earlier | rfl
    · exact .inr ⟨mem_unremoved.2 ⟨earlier, pushed, fun i lt => kept i (Nat.lt_succ_of_lt lt)⟩,
        kept m (Nat.lt_succ_self m)⟩
    · exact .inl ⟨rfl, pushed⟩
  · rintro (⟨rfl, pushed⟩ | ⟨mem, kept⟩)
    · refine mem_unremoved.2 ⟨Nat.lt_succ_self k, pushed, fun i lt _ greatest => ?_⟩
      -- No removal up to now can have found what is pushed only now.
      have earlier := (mem_unremoved.1 greatest.1).1
      exact absurd (Nat.le_of_lt_succ lt) (Nat.not_le_of_lt earlier)
    · obtain ⟨before, pushed, earlier⟩ := mem_unremoved.1 mem
      refine mem_unremoved.2 ⟨Nat.lt_succ_of_lt before, pushed, fun i lt => ?_⟩
      rcases Nat.lt_succ_iff_lt_or_eq.1 lt with lt | rfl
      · exact earlier i lt
      · exact kept

namespace Dates

/-- Before the first event there are no items. -/
lemma nil : Dates events 0 [] [] where
  increasing := .nil
  mem_iff k := iff_of_false List.not_mem_nil fun mem => Nat.not_lt_zero k (mem_unremoved.1 mem).1
  pushed := rfl

/-- The last item was pushed after the others. -/
lemma lt_last {earlier : List Nat} (dates : Dates events m (earlier ++ [k]) items) {j : Nat}
    (mem : j ∈ earlier) : j < k :=
  (List.pairwise_append.1 dates.increasing).2.2 j mem k (List.mem_singleton_self k)

/-- What has not been removed and was pushed last is the last item. -/
lemma isGreatest_iff (dates : Dates events m times items) :
    IsGreatest (unremoved events m) k ↔ times.getLast? = some k := by
  constructor
  · rintro ⟨mem, upper⟩
    have mem := (dates.mem_iff k).2 mem
    obtain ⟨earlier, last, rfl⟩ := (List.eq_nil_or_concat' times).resolve_left (List.ne_nil_of_mem mem)
    have le := upper ((dates.mem_iff last).1 List.mem_concat_self)
    rw [List.getLast?_concat]
    rcases List.mem_append.1 mem with mem | mem
    · exact absurd le (Nat.not_le_of_lt (dates.lt_last mem))
    · rw [List.mem_singleton.1 mem]
  · intro last
    obtain ⟨earlier, rfl⟩ := List.getLast?_eq_some_iff.1 last
    refine ⟨(dates.mem_iff k).1 List.mem_concat_self, fun j mem => ?_⟩
    rcases List.mem_append.1 ((dates.mem_iff j).2 mem) with mem | mem
    · exact (dates.lt_last mem).le
    · exact (List.mem_singleton.1 mem).le

/-- An item that is pushed has the time at which it was pushed. -/
lemma push (dates : Dates events m times items) (pushed : pushedAt? events m = some a)
    (kept : removedAt? events m = none) : Dates events (m + 1) (times ++ [m]) (items ++ [a]) where
  increasing := by
    refine List.pairwise_append.2 ⟨dates.increasing, List.pairwise_singleton _ _, fun k mem j last => ?_⟩
    rw [List.mem_singleton.1 last]
    exact (mem_unremoved.1 ((dates.mem_iff k).1 mem)).1
  mem_iff k := by
    rw [List.mem_append, List.mem_singleton, or_comm, mem_unremoved_succ, ← dates.mem_iff]
    simp [pushed, kept]
  pushed := by
    rw [List.map_append, List.map_append, dates.pushed, List.map_singleton, pushed]
    rfl

/-- A removal takes the last item and its time away. -/
lemma remove (dates : Dates events m times (items ++ [a])) (pushed : pushedAt? events m = none)
    (removed : removedAt? events m = some a) : ∃ times, Dates events (m + 1) times items := by
  have split := dates.pushed
  rw [List.map_append] at split
  obtain ⟨earlier, last, rfl, same, single⟩ := List.map_eq_append_iff.1 split
  obtain ⟨k, rfl, _⟩ := List.map_eq_singleton_iff.1 single
  refine ⟨earlier, (List.pairwise_append.1 dates.increasing).1, fun j => ?_, same⟩
  rw [mem_unremoved_succ, ← dates.mem_iff, dates.isGreatest_iff, List.getLast?_concat, pushed, removed]
  constructor
  · intro mem
    have less := dates.lt_last mem
    exact .inr ⟨List.mem_append_left _ mem, fun _ same => less.ne' (Option.some.inj same)⟩
  · rintro (⟨_, pushed⟩ | ⟨mem, kept⟩)
    · cases pushed
    · rcases List.mem_append.1 mem with mem | mem
      · exact mem
      · exact absurd (congrArg some (List.mem_singleton.1 mem).symm) (kept rfl)

/-- Where nothing is pushed or removed all items keep their times. -/
lemma keep (dates : Dates events m times items) (pushed : pushedAt? events m = none)
    (kept : removedAt? events m = none) : Dates events (m + 1) times items where
  increasing := dates.increasing
  mem_iff k := by
    rw [mem_unremoved_succ, ← dates.mem_iff]
    simp [pushed, kept]
  pushed := dates.pushed

/-- An event pushes at its time, or removes what was pushed last, or leaves all as it is. -/
lemma step (dates : Dates events m times s.toList) (here : events[m]? = some e) (moves : e.Moves s next) :
    ∃ times, Dates events (m + 1) times next.toList := by
  have pushes : pushedAt? events m = e.pushed? := congrArg (Option.bind · Event.pushed?) here
  have removes : removedAt? events m = e.removed? := congrArg (Option.bind · Event.removed?) here
  cases moves with
  | push pushed kept more =>
    rw [more]
    exact ⟨_, dates.push (pushes.trans pushed) (removes.trans kept)⟩
  | remove pushed removed fewer =>
    rw [fewer] at dates
    exact dates.remove (pushes.trans pushed) (removes.trans removed)
  | stay pushed kept => exact ⟨times, dates.keep (pushes.trans pushed) (removes.trans kept)⟩

/-- Without an event all is as it was. -/
lemma idle (dates : Dates events m times items) (ends : events[m]? = none) : Dates events (m + 1) times items :=
  dates.keep (congrArg (Option.bind · Event.pushed?) ends) (congrArg (Option.bind · Event.removed?) ends)

/-- The last item is the latest that has not been removed. -/
lemma latest (dates : Dates events m times items) : Latest events m items.getLast? := by
  intro a
  have last : items.getLast?.map some = times.getLast?.map (pushedAt? events) := by
    rw [← List.getLast?_map, ← List.getLast?_map, dates.pushed]
  have same : items.getLast? = some a ↔ items.getLast?.map some = some (some a) := by
    cases items.getLast? <;> simp
  rw [same, last, Option.map_eq_some_iff]
  exact exists_congr fun k => and_congr_left fun _ => dates.isGreatest_iff.symm

/-- All that was pushed has been removed if there are no items. -/
lemma unremoved_eq_empty_iff (dates : Dates events m times items) : unremoved events m = ∅ ↔ items = [] := by
  have nothing : times = [] ↔ items = [] := by
    rw [← List.map_eq_nil_iff, dates.pushed, List.map_eq_nil_iff]
  rw [← nothing, Set.eq_empty_iff_forall_notMem, List.eq_nil_iff_forall_not_mem]
  exact forall_congr' fun k => not_congr (dates.mem_iff k).symm

/-- As many pushes are unremoved as there are items. -/
lemma ncard_unremoved (dates : Dates events m times items) : (unremoved events m).ncard = items.length := by
  have all : unremoved events m = (times.toFinset : Set Nat) := by
    ext k
    rw [← dates.mem_iff, Finset.mem_coe, List.mem_toFinset]
  have distinct : times.Nodup := dates.increasing.imp fun less => less.ne
  have same := congrArg List.length dates.pushed
  rw [List.length_map, List.length_map] at same
  rw [all, Set.ncard_coe_finset, List.toFinset_card_of_nodup distinct, same]

/-- The stack answers from what has not been removed. -/
lemma reports (dates : Dates events m times s.toList) (op : Operation α) :
    Reports events m (op, (s.perform op).1) := by
  cases op with
  | push a => exact .push
  | pop =>
    rw [perform, removing_fst, pop?_map_fst]
    exact .pop dates.latest
  | popIf test =>
    rw [perform, removing_fst, popIf?_map_fst]
    exact .popIf dates.latest
  | peek =>
    rw [perform, peek?_eq_getLast?]
    exact .peek dates.latest
  | isEmpty => exact .isEmpty (isEmpty_iff.trans dates.unremoved_eq_empty_iff.symm)
  | size =>
    rw [perform, ← length_toList, ← dates.ncard_unremoved]
    exact .size

end Dates

end Times

end LineCalc.Stack
