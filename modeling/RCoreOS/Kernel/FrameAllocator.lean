import RCoreOS.Kernel.Primitives

/-!
# Physical frame allocation

`FrameAllocator` and `StackFrameAllocator` of `os/src/mm/frame_allocator.rs`.
The trait comes with the set of frames that an allocator may still hand out;
that is all that its users rely on.
-/

namespace RCoreOS.Kernel

open List

/-- `FrameAllocator`, with the frames that it may still hand out. -/
class FrameAllocator (σ : Type) where
  alloc : σ → Option (Nat × σ)
  Free : σ → Nat → Prop
  alloc_free :
    ∀ {allocator after : σ} {ppn : Nat},
      alloc allocator = some (ppn, after) →
        ppn < 2 ^ 44 ∧ Free allocator ppn ∧
          ∀ other, Free after other → Free allocator other ∧ other ≠ ppn

/--
`StackFrameAllocator`: the frames from `current` up to `endPpn` were never
handed out, and those in `recycled` were given back.
-/
structure StackFrameAllocator where
  current : Nat
  endPpn : Nat
  recycled : List Nat
  current_le : current ≤ endPpn
  end_le : endPpn ≤ 2 ^ 44
  recycled_lt : ∀ ppn ∈ recycled, ppn < current
  recycled_nodup : recycled.Nodup

namespace StackFrameAllocator

/-- `StackFrameAllocator::init` -/
def init (l r : Nat) (le : l ≤ r) (small : r ≤ 2 ^ 44) :
    StackFrameAllocator where
  current := l
  endPpn := r
  recycled := []
  current_le := le
  end_le := small
  recycled_lt := nofun
  recycled_nodup := nodup_nil

section

variable (self : StackFrameAllocator)

theorem recycled_dropLast_lt :
    ∀ ppn ∈ self.recycled.dropLast, ppn < self.current :=
  fun ppn member => self.recycled_lt ppn (dropLast_subset _ member)

theorem recycled_dropLast_nodup : self.recycled.dropLast.Nodup :=
  self.recycled_nodup.sublist (dropLast_sublist _)

theorem recycled_lt_succ :
    ∀ ppn ∈ self.recycled, ppn < self.current + 1 :=
  fun ppn member => Nat.lt_succ_of_lt (self.recycled_lt ppn member)

theorem succ_current_le (more : ¬ self.current = self.endPpn) :
    self.current + 1 ≤ self.endPpn :=
  Nat.lt_of_le_of_ne self.current_le more

end

/-- `StackFrameAllocator::alloc` -/
def alloc (self : StackFrameAllocator) :
    Option (Nat × StackFrameAllocator) :=
  match self.recycled.getLast? with
  | some ppn =>
    some (ppn &&& (2 ^ 44 - 1), { self with
      recycled := self.recycled.dropLast
      recycled_lt := self.recycled_dropLast_lt
      recycled_nodup := self.recycled_dropLast_nodup })
  | none =>
    if more : self.current = self.endPpn then none
    else
      some (self.current &&& (2 ^ 44 - 1), { self with
        current := self.current + 1
        current_le := self.succ_current_le more
        recycled_lt := self.recycled_lt_succ })

/-- `StackFrameAllocator::dealloc` -/
def dealloc (self : StackFrameAllocator) (ppn : Nat) :
    Except Stop StackFrameAllocator :=
  if taken : ppn < self.current ∧ ppn ∉ self.recycled then
    .ok { self with
      recycled := self.recycled ++ [ppn]
      recycled_lt := by
        intro other member
        rcases mem_append.mp member with member | member
        · exact self.recycled_lt other member
        · rw [mem_singleton.mp member]
          exact taken.1
      recycled_nodup :=
        self.recycled_nodup.append (nodup_singleton ppn)
          (disjoint_singleton.mpr taken.2) }
  else
    .error .panicked

/-- The frame may be handed out. -/
def Free (self : StackFrameAllocator) (ppn : Nat) : Prop :=
  ppn ∈ self.recycled ∨ (self.current ≤ ppn ∧ ppn < self.endPpn)

variable {self after : StackFrameAllocator} {ppn : Nat}

/-- The frames below the range are not handed out. -/
theorem not_free_init {l r : Nat} {le : l ≤ r} {small : r ≤ 2 ^ 44}
    (below : ppn < l) : ¬ (init l r le small).Free ppn := by
  rintro (member | ⟨above, _⟩)
  · cases member
  · exact absurd above (Nat.not_le.mpr below)

/-- A frame that is handed out was given back last, or is the next one. -/
theorem alloc_cases (allocated : self.alloc = some (ppn, after)) :
    after.endPpn = self.endPpn ∧
      ((self.recycled = after.recycled ++ [ppn] ∧
          after.current = self.current) ∨
        (self.recycled = [] ∧ after.recycled = [] ∧ ppn = self.current ∧
          self.current < self.endPpn ∧
          after.current = self.current + 1)) := by
  have currentLe := self.current_le
  have endLe := self.end_le
  rw [alloc] at allocated
  split at allocated
  · next last lastEq =>
      obtain ⟨ppnEq, rfl⟩ := Prod.mk.inj (Option.some.inj allocated)
      have lastLt := self.recycled_lt last (mem_of_getLast? lastEq)
      rw [Nat.and_two_pow_sub_one_eq_mod, Nat.mod_eq_of_lt (by omega)] at ppnEq
      subst ppnEq
      exact ⟨rfl, .inl
        ⟨(dropLast_append_getLast? last lastEq).symm, rfl⟩⟩
  · next nothing =>
      have empty : self.recycled = [] := getLast?_eq_none_iff.mp nothing
      split at allocated
      · cases allocated
      · next more =>
          obtain ⟨ppnEq, rfl⟩ := Prod.mk.inj (Option.some.inj allocated)
          rw [Nat.and_two_pow_sub_one_eq_mod,
            Nat.mod_eq_of_lt (by omega)] at ppnEq
          exact ⟨rfl, .inr ⟨empty, empty, ppnEq.symm, by omega, rfl⟩⟩

theorem alloc_eq_none :
    self.alloc = none ↔ self.recycled = [] ∧ self.current = self.endPpn := by
  rw [alloc]
  split
  · next last lastEq =>
      refine ⟨nofun, fun both => ?_⟩
      rw [both.1] at lastEq
      cases lastEq
  · next nothing =>
      have empty : self.recycled = [] := getLast?_eq_none_iff.mp nothing
      split
      · next same => exact ⟨fun _ => ⟨empty, same⟩, fun _ => rfl⟩
      · next more => exact ⟨nofun, fun both => absurd both.2 more⟩

theorem alloc_spec (allocated : self.alloc = some (ppn, after)) :
    ppn < 2 ^ 44 ∧ self.Free ppn ∧
      ∀ other, after.Free other → self.Free other ∧ other ≠ ppn := by
  have currentLe := self.current_le
  have endLe := self.end_le
  obtain ⟨endEq, cases⟩ := alloc_cases allocated
  rw [Free]
  rcases cases with
    ⟨recycledEq, currentEq⟩ | ⟨_, afterEq, rfl, more, currentEq⟩
  · have member : ppn ∈ self.recycled := by
      rw [recycledEq]
      exact mem_append_right _ (mem_singleton_self ppn)
    have below := self.recycled_lt ppn member
    have nodup := self.recycled_nodup
    rw [recycledEq, nodup_append] at nodup
    refine ⟨by omega, .inl member, fun other isFree => ?_⟩
    rw [Free, currentEq, endEq] at isFree
    rcases isFree with isRecycled | inside
    · refine ⟨.inl ?_, nodup.2.2 other isRecycled ppn (mem_singleton_self ppn)⟩
      rw [recycledEq]
      exact mem_append_left _ isRecycled
    · exact ⟨.inr inside, by omega⟩
  · refine ⟨by omega, .inr ⟨Nat.le_refl _, more⟩, fun other isFree => ?_⟩
    rw [Free, afterEq, currentEq, endEq] at isFree
    rcases isFree with isRecycled | inside
    · cases isRecycled
    · exact ⟨.inr (by omega), by omega⟩

instance : FrameAllocator StackFrameAllocator where
  alloc := alloc
  Free := Free
  alloc_free := alloc_spec

/-- A frame that is given back is free, and no other becomes free. -/
theorem dealloc_spec (returned : self.dealloc ppn = .ok after) :
    ¬ self.Free ppn ∧ after.recycled = self.recycled ++ [ppn] ∧
      after.current = self.current ∧
      ∀ other, after.Free other ↔ self.Free other ∨ other = ppn := by
  rw [dealloc] at returned
  split at returned
  · next taken =>
      cases returned
      refine ⟨?_, rfl, rfl, fun other => ?_⟩
      · rintro (isRecycled | ⟨above, _⟩)
        · exact taken.2 isRecycled
        · exact absurd taken.1 (Nat.not_lt.mpr above)
      · rw [Free, Free, mem_append, mem_singleton]
        constructor
        · rintro ((isRecycled | same) | range)
          · exact .inl (.inl isRecycled)
          · exact .inr same
          · exact .inl (.inr range)
        · rintro ((isRecycled | range) | same)
          · exact .inl (.inl isRecycled)
          · exact .inr range
          · exact .inl (.inr same)
  · cases returned

end StackFrameAllocator

end RCoreOS.Kernel
