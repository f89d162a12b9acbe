import RCoreOS.Lib.FallibleRuns

/-!
# Items that are handed out and taken back

An allocator is seen through the replies to its calls.  Which items are out at
some time is read off these replies alone, and so is the largest number of
items that were out at the same time; an allocator's own fields do not occur.
-/

namespace RCoreOS.Lib.Handouts

open List

/-- What an allocator is asked for. -/
inductive Call (α : Type) where
  | alloc
  | dealloc (item : α)
deriving DecidableEq, Repr

/-- What an allocator answers. -/
inductive Reply (α : Type) where
  | handedOut (item : α)
  | exhausted
  | takenBack (item : α)
deriving DecidableEq, Repr

variable {α : Type} [DecidableEq α]

/-- The items that are out after one more reply. -/
def Reply.apply (items : List α) : Reply α → List α
  | .handedOut item => items ++ [item]
  | .exhausted => items
  | .takenBack item => items.erase item

/-- The items that are out after the replies, when `start` were out before. -/
def out (start : List α) (replies : List (Reply α)) : List α :=
  replies.foldl Reply.apply start

@[simp]
theorem out_nil (start : List α) : out start [] = start := rfl

@[simp]
theorem out_concat (start : List α)
    (replies : List (Reply α)) (last : Reply α) :
    out start (replies ++ [last]) = last.apply (out start replies) := by
  simp [out]

/-- The largest number of items that were out at the same time. -/
def IsPeak (start : List α) (replies : List (Reply α)) (peak : Nat) : Prop :=
  IsGreatest
    { count | ∃ earlier, earlier <+: replies ∧
      (out start earlier).length = count }
    peak

theorem isPeak_nil (start : List α) : IsPeak start [] start.length := by
  constructor
  · exact ⟨[], prefix_rfl, rfl⟩
  · rintro count ⟨earlier, isFirst, rfl⟩
    rw [prefix_nil.mp isFirst]
    exact Nat.le_refl _

theorem IsPeak.concat {start : List α}
    {replies : List (Reply α)} {peak : Nat}
    (isPeak : IsPeak start replies peak) (last : Reply α) :
    IsPeak start (replies ++ [last])
      (max peak (last.apply (out start replies)).length) := by
  obtain ⟨⟨reached, isFirst, reachedEq⟩, bound⟩ := isPeak
  constructor
  · rcases Nat.le_total (last.apply (out start replies)).length peak with
      before | now
    · rw [Nat.max_eq_left before]
      exact ⟨reached, isFirst.trans (prefix_append _ _), reachedEq⟩
    · rw [Nat.max_eq_right now]
      exact ⟨replies ++ [last], prefix_rfl, by rw [out_concat]⟩
  · rintro count ⟨earlier, isFirst, rfl⟩
    rcases prefix_concat_iff.mp isFirst with whole | shorter
    · rw [whole, out_concat]
      exact Nat.le_max_right _ _
    · exact le_max_of_le_left (bound ⟨earlier, shorter, rfl⟩)

end RCoreOS.Lib.Handouts
