import RCoreOS.Kernel.MemorySet

/-!
# Who owns the physical frames

`frame_alloc` wraps a frame in a `FrameTracker`, and the drop of the tracker
gives the frame back.  A state machine around the allocator keeps the live
trackers; a tracker is owned, so it is dropped at most once.  The owners may
write anything to memory in between.

The live frames and those that were given back are all the frames below
`current`, each of them once.
-/

namespace RCoreOS.Kernel

open Lib.FallibleRuns List StackFrameAllocator

section

variable {σ : Type} [FrameAllocator σ]

/-- `FrameTracker::new`: the page is cleared. -/
def Phys.clearPage (phys : Phys σ) (ppn : Nat) : Phys σ :=
  { phys with memory := Function.update phys.memory ppn fun _ => .empty }

/-- `frame_alloc` -/
def Phys.tryFrameAlloc (phys : Phys σ) : Option (Nat × Phys σ) :=
  (FrameAllocator.alloc phys.allocator).map fun (ppn, allocator) =>
    (ppn, { phys with allocator }.clearPage ppn)

/-- The callers of `frame_alloc` unwrap what it returns. -/
theorem Phys.frameAlloc_eq (phys : Phys σ) :
    phys.frameAlloc =
      match phys.tryFrameAlloc with
      | none => .error .panicked
      | some result => .ok result := by
  rw [frameAlloc, tryFrameAlloc]
  cases FrameAllocator.alloc phys.allocator with
  | none => rfl
  | some result => rfl

end

/-! ## The machine -/

/-- Physical memory and the frames of the live trackers. -/
structure FrameState where
  phys : KernelMemory
  live : List Nat

inductive FrameOp where
  | alloc
  -- the drop of the tracker of a frame
  | drop (ppn : Nat)
  -- anybody writes a page
  | write (ppn : Nat) (page : Fin 512 → PageTableEntry)

inductive FrameEvent where
  | allocated (tracker : Option Nat)
  | dropped
  | wrote
deriving DecidableEq, Repr

namespace FrameState

/-- `init_frame_allocator`; memory can hold anything. -/
def init (memory : Nat → Fin 512 → PageTableEntry) (l r : Nat) (le : l ≤ r)
    (small : r < 2 ^ 44) : FrameState where
  phys := ⟨memory, .init l r le (Nat.le_of_lt small)⟩
  live := []

/-- One step of somebody. -/
def step (state : FrameState) :
    FrameOp → Except Stop (FrameState × FrameEvent)
  | .alloc =>
    match state.phys.tryFrameAlloc with
    | none => return (state, .allocated none)
    | some (ppn, phys) =>
      return (⟨phys, state.live ++ [ppn]⟩, .allocated (some ppn))
  | .drop ppn =>
    if ppn ∈ state.live then do
      let phys ← state.phys.frameDealloc ppn
      return (⟨phys, state.live.erase ppn⟩, .dropped)
    else .error .notRunnable
  | .write ppn page =>
    return ({ state with
        phys := { state.phys with
          memory := Function.update state.phys.memory ppn page } },
      .wrote)

/-! ## The partition of the frames -/

/-- What is known of the frames in a range `[l, r)`. -/
structure ExclusiveFrames (l r : Nat) (state : FrameState) : Prop where
  current_le :
    l ≤ state.phys.allocator.current ∧ state.phys.allocator.current ≤ r
  partition :
    (state.live ++ state.phys.allocator.recycled).Perm
      (List.range' l (state.phys.allocator.current - l))
  nodup : (state.live ++ state.phys.allocator.recycled).Nodup
  allocated :
    ∀ {after : FrameState} {ppn : Nat},
      state.step .alloc = .ok (after, .allocated (some ppn)) →
        (l ≤ ppn ∧ ppn < r) ∧ ppn ∉ state.live ∧
          ∀ index, after.phys.memory ppn index = .empty
  exhausted_iff :
    (∃ after, state.step .alloc = .ok (after, .allocated none)) ↔
      ∀ ppn, l ≤ ppn → ppn < r → ppn ∈ state.live
  drop_returns :
    ∀ ppn ∈ state.live, ∃ after, state.step (.drop ppn) = .ok (after, .dropped)

/-- The invariant; the rest of `ExclusiveFrames` follows. -/
structure Partitioned (l r : Nat) (state : FrameState) : Prop where
  endPpn_eq : state.phys.allocator.endPpn = r
  le_current : l ≤ state.phys.allocator.current
  end_lt : r < 2 ^ 44
  partition :
    (state.live ++ state.phys.allocator.recycled).Perm
      (List.range' l (state.phys.allocator.current - l))

variable {l r : Nat} {state after : FrameState} {event : FrameEvent}

theorem Partitioned.mem_iff (partitioned : Partitioned l r state)
    (ppn : Nat) :
    ppn ∈ state.live ∨ ppn ∈ state.phys.allocator.recycled ↔
      l ≤ ppn ∧ ppn < state.phys.allocator.current := by
  have current := partitioned.le_current
  rw [← mem_append, partitioned.partition.mem_iff, List.mem_range'_1]
  omega

theorem Partitioned.nodup (partitioned : Partitioned l r state) :
    (state.live ++ state.phys.allocator.recycled).Nodup :=
  partitioned.partition.nodup_iff.mpr nodup_range'

variable {ppn : Nat} {next : KernelMemory}

theorem tryFrameAlloc_eq_some {phys : KernelMemory}
    (returned : phys.tryFrameAlloc = some (ppn, next)) :
    phys.allocator.alloc = some (ppn, next.allocator) ∧
      next.memory = Function.update phys.memory ppn fun _ => .empty := by
  obtain ⟨⟨frame, allocator⟩, allocated, equal⟩ :=
    Option.map_eq_some_iff.mp returned
  cases equal
  exact ⟨allocated, rfl⟩

section

variable (partitioned : Partitioned l r state)

include partitioned

theorem Partitioned.alloc
    (returned : state.phys.tryFrameAlloc = some (ppn, next)) :
    Partitioned l r ⟨next, state.live ++ [ppn]⟩ := by
  obtain ⟨allocated, _⟩ := tryFrameAlloc_eq_some returned
  have leCurrent := partitioned.le_current
  have before := partitioned.partition
  obtain ⟨endEq, cases⟩ := alloc_cases allocated
  rcases cases with
    ⟨recycledEq, currentEq⟩ | ⟨recycledEq, nextEq, rfl, _, currentEq⟩
  · refine ⟨endEq.trans partitioned.endPpn_eq, by rw [currentEq]; exact leCurrent,
      partitioned.end_lt, ?_⟩
    rw [currentEq]
    refine List.Perm.trans ?_ before
    rw [recycledEq, append_assoc]
    exact perm_append_comm.append_left state.live
  · refine ⟨endEq.trans partitioned.endPpn_eq, by rw [currentEq]; omega,
      partitioned.end_lt, ?_⟩
    rw [recycledEq, append_nil] at before
    rw [nextEq, append_nil, currentEq, Nat.succ_sub leCurrent,
      List.range'_1_concat, Nat.add_sub_cancel' leCurrent]
    exact before.append_right _

theorem Partitioned.drop_returns (member : ppn ∈ state.live) :
    ∃ next, state.phys.frameDealloc ppn = .ok next := by
  have notRecycled : ppn ∉ state.phys.allocator.recycled :=
    disjoint_of_nodup_append partitioned.nodup member
  have taken :
      ppn < state.phys.allocator.current ∧
        ppn ∉ state.phys.allocator.recycled :=
    ⟨((partitioned.mem_iff ppn).mp (.inl member)).2, notRecycled⟩
  rw [Phys.frameDealloc, StackFrameAllocator.dealloc, dif_pos taken]
  exact ⟨_, rfl⟩

theorem Partitioned.drop (member : ppn ∈ state.live)
    (returned : state.phys.frameDealloc ppn = .ok next) :
    Partitioned l r ⟨next, state.live.erase ppn⟩ := by
  obtain ⟨allocator, deallocated, rest⟩ := bind_eq_ok.mp returned
  cases rest
  rw [StackFrameAllocator.dealloc] at deallocated
  split at deallocated
  · cases deallocated
    refine ⟨partitioned.endPpn_eq, partitioned.le_current,
      partitioned.end_lt, ?_⟩
    refine List.Perm.trans ?_ partitioned.partition
    change (state.live.erase ppn ++
      (state.phys.allocator.recycled ++ [ppn])).Perm _
    rw [← append_assoc]
    refine perm_append_comm.trans ?_
    exact (perm_cons_erase member).symm.append_right _
  · cases deallocated

theorem Partitioned.step {operation : FrameOp}
    (returned : state.step operation = .ok (after, event)) :
    Partitioned l r after := by
  cases operation with
  | alloc =>
    rw [FrameState.step] at returned
    split at returned
    · cases returned
      exact partitioned
    · next allocated =>
        cases returned
        exact partitioned.alloc allocated
  | drop ppn =>
    rw [FrameState.step] at returned
    split at returned
    · next member =>
        obtain ⟨next, dropped, rest⟩ := bind_eq_ok.mp returned
        cases rest
        exact partitioned.drop member dropped
    · cases returned
  | write ppn page =>
    cases returned
    exact ⟨partitioned.endPpn_eq, partitioned.le_current,
      partitioned.end_lt, partitioned.partition⟩

theorem Partitioned.exclusive :
    ExclusiveFrames l r state := by
  have leCurrent := partitioned.le_current
  have currentLe := state.phys.allocator.current_le
  rw [partitioned.endPpn_eq] at currentLe
  refine ⟨⟨leCurrent, currentLe⟩, partitioned.partition, partitioned.nodup, ?_,
    ?_, ?_⟩
  · intro after ppn returned
    rw [FrameState.step] at returned
    split at returned
    · cases returned
    · next frame next allocated =>
        cases returned
        obtain ⟨taken, memoryEq⟩ := tryFrameAlloc_eq_some allocated
        have between := (partitioned.alloc allocated).mem_iff ppn
        have inside := between.mp
          (.inl (mem_append_right _ (mem_singleton_self ppn)))
        have bound := next.allocator.current_le
        rw [(partitioned.alloc allocated).endPpn_eq] at bound
        have nodup := (partitioned.alloc allocated).nodup
        refine ⟨⟨inside.1, Nat.lt_of_lt_of_le inside.2 bound⟩,
          fun member => ?_, fun index => ?_⟩
        · have separate := (nodup_append.mp
            (nodup_append.mp nodup).1).2.2
          exact separate ppn member ppn (mem_singleton_self ppn) rfl
        · rw [memoryEq, Function.update_self]
  · have exhausted :
        (∃ after, state.step .alloc = .ok (after, .allocated none)) ↔
          state.phys.allocator.alloc = none := by
      rw [FrameState.step, Phys.tryFrameAlloc]
      change _ ↔ FrameAllocator.alloc state.phys.allocator = none
      cases FrameAllocator.alloc state.phys.allocator with
      | none => exact ⟨fun _ => rfl, fun _ => ⟨state, rfl⟩⟩
      | some result =>
        refine ⟨?_, nofun⟩
        rintro ⟨after, returned⟩
        cases returned
    rw [exhausted, alloc_eq_none, partitioned.endPpn_eq]
    constructor
    · rintro ⟨empty, isEnd⟩ ppn above below
      have member := (partitioned.mem_iff ppn).mpr
        ⟨above, by rw [isEnd]; exact below⟩
      rw [empty] at member
      exact member.resolve_right not_mem_nil
    · intro all
      constructor
      · refine eq_nil_iff_forall_not_mem.mpr fun ppn recycled => ?_
        have inside := (partitioned.mem_iff ppn).mp (.inr recycled)
        have live := all ppn inside.1 (by omega)
        exact disjoint_of_nodup_append partitioned.nodup live recycled
      · by_contra short
        have live := all state.phys.allocator.current leCurrent (by omega)
        exact absurd ((partitioned.mem_iff _).mp (.inl live)).2
          (Nat.lt_irrefl _)
  · intro ppn member
    obtain ⟨next, dropped⟩ := partitioned.drop_returns member
    refine ⟨⟨next, state.live.erase ppn⟩, ?_⟩
    rw [FrameState.step, if_pos member]
    exact bind_eq_ok.mpr ⟨next, dropped, rfl⟩

end

/-! ## Runs -/

/--
After any allocations, drops and writes, every frame has at most one owner, a
new frame is clear, and there is none left only when all of them are owned.
-/
theorem frame_ownership_is_exclusive {l r : Nat} (le : l ≤ r)
    (small : r < 2 ^ 44) (memory : Nat → Fin 512 → PageTableEntry)
    {ops : List FrameOp} {state : FrameState} {events : List FrameEvent}
    (ran : run step (init memory l r le small) ops = .ok (state, events)) :
    ExclusiveFrames l r state := by
  have begins : Partitioned l r (init memory l r le small) := by
    refine ⟨rfl, Nat.le_refl _, small, ?_⟩
    change List.Perm [] (List.range' l (l - l))
    rw [Nat.sub_self]
    exact List.Perm.refl []
  have ends : Partitioned l r state := by
    refine run_invariant ?_ begins ran
    intro before after operation shown partitioned returned
    exact partitioned.step returned
  exact ends.exclusive

/-- Two frames, taken, given back and taken again. -/
theorem frame_ownership_is_exclusive_two :
    ∃ state,
      run step (init (fun _ _ => ⟨7⟩) 2 4 (by decide) (by decide))
          [.alloc, .alloc, .alloc, .drop 2, .write 2 fun _ => ⟨9⟩, .alloc] =
        .ok (state, [.allocated (some 2), .allocated (some 3),
          .allocated none, .dropped, .wrote, .allocated (some 2)]) ∧
        ExclusiveFrames 2 4 state := by
  obtain ⟨state, ran⟩ :
      ∃ state,
        run step (init (fun _ _ => ⟨7⟩) 2 4 (by decide) (by decide))
            [.alloc, .alloc, .alloc, .drop 2, .write 2 fun _ => ⟨9⟩, .alloc] =
          .ok (state, [.allocated (some 2), .allocated (some 3),
            .allocated none, .dropped, .wrote, .allocated (some 2)]) :=
    ⟨_, rfl⟩
  exact ⟨state, ran,
    frame_ownership_is_exclusive (by decide) (by decide) _ ran⟩

end FrameState

end RCoreOS.Kernel
