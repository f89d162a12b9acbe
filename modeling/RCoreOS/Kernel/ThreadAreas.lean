import RCoreOS.Kernel.AreaShapes
import RCoreOS.Kernel.ForkMemory
import RCoreOS.Kernel.Process

/-!
# User stacks and trap contexts

`TaskUserRes` of `os/src/task/id.rs`: each thread of a process has an area for
its user stack and one for its trap context in the address space of the
process.  Both are found from the thread's identifier, the stacks upwards from
`ustack_base` and the trap contexts downwards from `TRAP_CONTEXT_BASE`.
-/

namespace RCoreOS.Kernel

open Lib.FallibleRuns PageTable MemorySet List

/-! ## Addresses -/

/-- `USER_STACK_SIZE` -/
def userStackSize : Nat := 4096 * 2

/-- `TRAP_CONTEXT_BASE` -/
def trapContextBase : Nat := trampoline - pageSize

/-- `trap_cx_bottom_from_tid` -/
def trapCxBottomFromTid (tid : Nat) : Nat :=
  usizeSub trapContextBase (tid * pageSize)

/-- `ustack_bottom_from_tid` -/
def ustackBottomFromTid (ustackBase tid : Nat) : Nat :=
  (ustackBase + tid * (pageSize + userStackSize)) % 2 ^ 64

/-! ## The resources of a thread -/

/-- A process as far as the areas of its threads go. -/
structure ThreadAreas where
  memorySet : MemorySet
  phys : KernelMemory
  taskResAllocator : RecycleAllocator
  ustackBase : Nat
  -- the threads whose `TaskUserRes` was not dropped
  live : List Nat

namespace ThreadAreas

/-- `TaskUserRes::alloc_user_res` -/
def allocUserRes (state : ThreadAreas) (tid : Nat) :
    Except Stop ThreadAreas := do
  let ustackBottom := ustackBottomFromTid state.ustackBase tid
  let ustackTop := (ustackBottom + userStackSize) % 2 ^ 64
  let (memorySet, phys) ← state.memorySet.insertFramedArea state.phys
    (virtAddr ustackBottom) (virtAddr ustackTop)
    ⟨PTEFlags.r ||| PTEFlags.w ||| PTEFlags.u, MapPermission.named_rwu⟩
  let trapCxBottom := trapCxBottomFromTid tid
  let trapCxTop := (trapCxBottom + pageSize) % 2 ^ 64
  let (memorySet, phys) ← memorySet.insertFramedArea phys
    (virtAddr trapCxBottom) (virtAddr trapCxTop)
    ⟨PTEFlags.r ||| PTEFlags.w, MapPermission.named_rw⟩
  return { state with memorySet, phys }

/-- `TaskUserRes::dealloc_user_res` -/
def deallocUserRes (state : ThreadAreas) (tid : Nat) :
    Except Stop ThreadAreas := do
  let stackVpn ← pageNum
    (virtAddr (ustackBottomFromTid state.ustackBase tid))
  let (memorySet, phys) ←
    state.memorySet.removeAreaWithStartVpn state.phys stackVpn
  let trapVpn ← pageNum (virtAddr (trapCxBottomFromTid tid))
  let (memorySet, phys) ← memorySet.removeAreaWithStartVpn phys trapVpn
  return { state with memorySet, phys }

/-- `TaskUserRes::new` with `alloc_user_res` -/
def newThread (state : ThreadAreas) : Except Stop ThreadAreas :=
  let (tid, taskResAllocator) := state.taskResAllocator.alloc
  { state with taskResAllocator, live := state.live ++ [tid] }.allocUserRes
    tid

/-- The drop of a `TaskUserRes`. -/
def dropThread (state : ThreadAreas) (tid : Nat) :
    Except Stop ThreadAreas := do
  let taskResAllocator ← state.taskResAllocator.dealloc tid
  { state with taskResAllocator, live := state.live.erase tid }.deallocUserRes
    tid

/--
`MemorySet::from_elf`: the stacks start one page above the end of the segment
that was mapped last.
-/
def userStackBase (memorySet : MemorySet) : Nat :=
  let maxEndVpn :=
    (memorySet.areas.getLast?.map fun area => area.vpnRange.r).getD 0
  (usizeOfVirtAddr (maxEndVpn <<< 12) + pageSize) % 2 ^ 64

/-! ## Runs -/

/-- The segments of a program all end at or below `ustack_base - PAGE_SIZE`. -/
def Loaded (kernelPage : Nat) (memorySet : MemorySet) (phys : KernelMemory) :
    Prop :=
  Valid kernelPage memorySet phys ∧
    (∀ area ∈ memorySet.areas,
      area.vpnRange.r * pageSize + pageSize ≤ userStackBase memorySet) ∧
    userStackBase memorySet < 2 ^ 37

/--
The states of processes.  A process starts with its loaded segments, as the
copy of a process with one thread or when it executes another program.
-/
inductive Reached (kernelPage : Nat) : ThreadAreas → Prop where
  | load {memorySet : MemorySet} {phys : KernelMemory}
      (loaded : Loaded kernelPage memorySet phys) :
      Reached kernelPage
        ⟨memorySet, phys, .new, userStackBase memorySet, []⟩
  | fork {state : ThreadAreas} {memorySet : MemorySet} {phys : KernelMemory}
      {strampoline : Nat} (reached : Reached kernelPage state)
      (alone : state.live = [0])
      (kernelEq : pageNum (physAddr strampoline) = .ok kernelPage)
      (returned :
        state.memorySet.fromExistedUser state.phys strampoline =
          .ok (memorySet, phys)) :
      Reached kernelPage
        ⟨memorySet, phys, RecycleAllocator.new.alloc.2, state.ustackBase,
          [RecycleAllocator.new.alloc.1]⟩
  | exec {state after : ThreadAreas} {memorySet : MemorySet}
      {phys : KernelMemory} (reached : Reached kernelPage state)
      (alone : state.live = [0])
      (loaded : Loaded kernelPage memorySet phys)
      (returned :
        { state with
            memorySet, phys
            ustackBase := userStackBase memorySet }.allocUserRes 0 =
          .ok after) :
      Reached kernelPage after
  | newThread {state after : ThreadAreas}
      (reached : Reached kernelPage state)
      (room : state.live.length < 2 ^ 15)
      (returned : state.newThread = .ok after) :
      Reached kernelPage after
  | dropThread {state after : ThreadAreas} {tid : Nat}
      (reached : Reached kernelPage state) (member : tid ∈ state.live)
      (returned : state.dropThread tid = .ok after) :
      Reached kernelPage after
  | others {state : ThreadAreas} {phys : KernelMemory}
      (reached : Reached kernelPage state)
      (kept :
        ∀ ppn ∈ state.memorySet.pageTable.frames,
          phys.memory ppn = state.phys.memory ppn)
      (inUse :
        ∀ ppn, Uses kernelPage state.memorySet ppn →
          ¬ phys.allocator.Free ppn) :
      Reached kernelPage { state with phys }

/-! ## The layout -/

/-- The address is on the user stack of the thread. -/
def OnStack (ustackBase tid va : Nat) : Prop :=
  ustackBase + tid * (pageSize + userStackSize) ≤ va ∧
    va < ustackBase + tid * (pageSize + userStackSize) + userStackSize

/-- The address is in the trap context of the thread. -/
def InTrapContext (tid va : Nat) : Prop :=
  trapContextBase - tid * pageSize ≤ va ∧
    va < trapContextBase - tid * pageSize + pageSize

/-- The address is in one of the two areas of the thread. -/
def InThread (ustackBase tid va : Nat) : Prop :=
  OnStack ustackBase tid va ∨ InTrapContext tid va

/-- What is known of the areas of the threads of a process. -/
structure Layout (state : ThreadAreas) : Prop where
  stack_mapped :
    ∀ tid ∈ state.live, ∀ va, OnStack state.ustackBase tid va →
      MappedWith state.memorySet state.phys va
        (PTEFlags.r ||| PTEFlags.w ||| PTEFlags.u)
  trap_context_mapped :
    ∀ tid ∈ state.live, ∀ va, InTrapContext tid va →
      MappedWith state.memorySet state.phys va (PTEFlags.r ||| PTEFlags.w)
  disjoint :
    ∀ first ∈ state.live, ∀ second ∈ state.live, first ≠ second →
      ∀ firstVa secondVa, InThread state.ustackBase first firstVa →
        InThread state.ustackBase second secondVa →
          pageOf firstVa ≠ pageOf secondVa
  guard_unmapped :
    ∀ tid ∈ state.live, ∀ va,
      va < state.ustackBase + tid * (pageSize + userStackSize) →
        state.ustackBase + tid * (pageSize + userStackSize) ≤
          va + pageSize →
          UnmappedAt state.memorySet state.phys va
  exit_unmaps :
    ∀ tid ∈ state.live, ∀ after, state.dropThread tid = .ok after →
      UnmapsExactly (InThread state.ustackBase tid) state.memorySet
        state.phys after.memorySet after.phys

/-! ## Pages of the two areas -/

/-- The area of a user stack; `first` is the first page of all stacks. -/
def stackShape (first tid : Nat) : Shape :=
  (⟨first + 3 * tid, first + 3 * tid + 2, by omega⟩, .framed,
    ⟨PTEFlags.r ||| PTEFlags.w ||| PTEFlags.u, MapPermission.named_rwu⟩)

/-- The area of a trap context. -/
def trapShape (tid : Nat) : Shape :=
  (⟨2 ^ 27 - 2 - tid, 2 ^ 27 - 1 - tid, by omega⟩, .framed,
    ⟨PTEFlags.r ||| PTEFlags.w, MapPermission.named_rw⟩)

/-- The areas of a thread. -/
def threadShapes (first tid : Nat) : List Shape :=
  [stackShape first tid, trapShape tid]

section

variable {first tid : Nat}

theorem mem_threadShapes {shape : Shape} :
    shape ∈ threadShapes first tid ↔
      shape = stackShape first tid ∨ shape = trapShape tid := by
  simp [threadShapes]

/-- The bottom and the top of a user stack. -/
theorem ustack_pages (firstLt : first < 2 ^ 25) (tidLt : tid < 2 ^ 15) :
    let bottom := ustackBottomFromTid (first * pageSize) tid
    floor (virtAddr bottom) = (stackShape first tid).1.l ∧
      ceil (virtAddr ((bottom + userStackSize) % 2 ^ 64)) =
        (stackShape first tid).1.r ∧
      pageNum (virtAddr bottom) = .ok (stackShape first tid).1.l := by
  have bottomEq :
      ustackBottomFromTid (first * pageSize) tid =
        (first + 3 * tid) * pageSize := by
    rw [ustackBottomFromTid, pageSize, userStackSize]
    omega
  have topEq :
      ((first + 3 * tid) * pageSize + userStackSize) % 2 ^ 64 =
        (first + 3 * tid + 2) * pageSize := by
    rw [pageSize, userStackSize]
    omega
  have startEq :
      floor (virtAddr ((first + 3 * tid) * pageSize)) =
        (stackShape first tid).1.l :=
    floor_low (show first + 3 * tid < 2 ^ 27 by omega)
  dsimp only
  rw [bottomEq, topEq, pageNum_page, startEq]
  exact ⟨rfl, ceil_low (show first + 3 * tid + 2 < 2 ^ 27 by omega), rfl⟩

/-- The bottom and the top of a trap context. -/
theorem trapCx_pages (tidLt : tid < 2 ^ 15) :
    let bottom := trapCxBottomFromTid tid
    floor (virtAddr bottom) = (trapShape tid).1.l ∧
      ceil (virtAddr ((bottom + pageSize) % 2 ^ 64)) = (trapShape tid).1.r ∧
      pageNum (virtAddr bottom) = .ok (trapShape tid).1.l := by
  have bottomEq :
      trapCxBottomFromTid tid = (2 ^ 52 - 2 - tid) * pageSize := by
    rw [trapCxBottomFromTid, usizeSub, trapContextBase, trampoline, pageSize]
    omega
  have topEq :
      ((2 ^ 52 - 2 - tid) * pageSize + pageSize) % 2 ^ 64 =
        (2 ^ 52 - 1 - tid) * pageSize := by
    rw [pageSize]
    omega
  have startEq :
      floor (virtAddr ((2 ^ 52 - 2 - tid) * pageSize)) =
        (trapShape tid).1.l := by
    rw [floor_high (by omega) (by omega)]
    change _ = 2 ^ 27 - 2 - tid
    omega
  dsimp only
  rw [bottomEq, topEq, pageNum_page, startEq, ceil_high (by omega) (by omega)]
  refine ⟨rfl, ?_, rfl⟩
  change _ = 2 ^ 27 - 1 - tid
  omega

variable {va : Nat}

/-- The addresses of a user stack are in the pages of its area. -/
theorem OnStack.contains (firstLt : first < 2 ^ 25) (tidLt : tid < 2 ^ 15)
    (onStack : OnStack (first * pageSize) tid va) :
    (stackShape first tid).1.Contains (pageOf va) := by
  rw [OnStack, pageSize, userStackSize] at onStack
  rw [VPNRange.Contains, stackShape, pageOf, virtAddr_eq_mod, floor, pageSize]
  dsimp only
  omega

theorem InTrapContext.contains (tidLt : tid < 2 ^ 15)
    (inContext : InTrapContext tid va) :
    (trapShape tid).1.Contains (pageOf va) := by
  rw [InTrapContext, trapContextBase, trampoline, pageSize] at inContext
  rw [VPNRange.Contains, trapShape, pageOf, virtAddr_eq_mod, floor, pageSize]
  dsimp only
  omega

section

variable (firstLt : first < 2 ^ 25) (tidLt : tid < 2 ^ 15)

include firstLt tidLt

theorem InThread.contains (inThread : InThread (first * pageSize) tid va) :
    ∃ shape ∈ threadShapes first tid, shape.1.Contains (pageOf va) := by
  rcases inThread with onStack | inContext
  · exact ⟨_, mem_cons_self, onStack.contains firstLt tidLt⟩
  · exact ⟨_, mem_cons_of_mem _ mem_cons_self, inContext.contains tidLt⟩

/-- Each page of the two areas is the page of one of their addresses. -/
theorem exists_inThread {vpn : Nat}
    {shape : Shape} (member : shape ∈ threadShapes first tid)
    (contains : shape.1.Contains vpn) :
    ∃ va, InThread (first * pageSize) tid va ∧ pageOf va = vpn := by
  rcases mem_cons.mp member with rfl | member
  · rw [VPNRange.Contains, stackShape] at contains
    dsimp only at contains
    refine ⟨vpn * pageSize, .inl ?_, floor_low (by omega)⟩
    rw [OnStack, pageSize, userStackSize]
    omega
  · rw [mem_singleton.mp member, VPNRange.Contains, trapShape]
      at contains
    dsimp only at contains
    refine ⟨(2 ^ 52 - 2 ^ 27 + vpn) * pageSize, .inr ?_, ?_⟩
    · rw [InTrapContext, trapContextBase, trampoline, pageSize]
      omega
    · rw [pageOf, floor_high (by omega) (by omega)]
      omega

/-- Areas of different threads have different pages. -/
theorem threadShapes_apart {other vpn : Nat}
    (otherLt : other < 2 ^ 15) (different : tid ≠ other)
    {shape otherShape : Shape} (member : shape ∈ threadShapes first tid)
    (otherMember : otherShape ∈ threadShapes first other)
    (contains : shape.1.Contains vpn) : ¬ otherShape.1.Contains vpn := by
  rw [mem_threadShapes] at member otherMember
  rcases member with rfl | rfl <;> rcases otherMember with rfl | rfl <;>
    · simp only [VPNRange.Contains, stackShape, trapShape] at contains ⊢
      omega

end

end

/-! ## The invariant -/

/--
The areas of a process are its segments, which end below the page `first - 1`,
and the areas of its threads.
-/
structure Placed (kernelPage first : Nat) (segments : List Shape)
    (state : ThreadAreas) (pages : Pages) : Prop where
  base_eq : state.ustackBase = first * pageSize
  first_pos : 0 < first
  first_lt : first < 2 ^ 25
  segments_end : ∀ shape ∈ segments, shape.1.r < first
  segments_framed : ∀ shape ∈ segments, shape.2.1 = .framed
  arranged :
    Arranged (fun _ => True) kernelPage
      (segments ++ state.live.flatMap (threadShapes first)) state.memorySet
      state.phys pages
  serves : state.taskResAllocator.Serves state.live
  current_le : state.taskResAllocator.current ≤ 2 ^ 15

variable {kernelPage first tid : Nat} {segments : List Shape}
  {state after : ThreadAreas} {pages : Pages}

theorem Placed.tid_lt (placed : Placed kernelPage first segments state pages)
    (member : tid ∈ state.live) : tid < 2 ^ 15 :=
  Nat.lt_of_lt_of_le (placed.serves.lt member) placed.current_le

/-- The shapes are those of the segments and of the threads. -/
theorem mem_shapes {live : List Nat} {shape : Shape} :
    shape ∈ segments ++ live.flatMap (threadShapes first) ↔
      shape ∈ segments ∨
        ∃ tid ∈ live, shape ∈ threadShapes first tid := by
  rw [mem_append, mem_flatMap]

/-- `alloc_user_res` adds the two areas of a thread. -/
theorem allocUserRes_spec (state : ThreadAreas) {shapes : List Shape}
    (baseEq : state.ustackBase = first * pageSize)
    (firstLt : first < 2 ^ 25) (tidLt : tid < 2 ^ 15)
    (arranged :
      Arranged (fun _ => True) kernelPage shapes state.memorySet state.phys
        pages)
    (returned : state.allocUserRes tid = .ok after) :
    after = { state with
        memorySet := after.memorySet
        phys := after.phys } ∧
      ∃ added,
        Arranged (fun _ => True) kernelPage
          (shapes ++ threadShapes first tid) after.memorySet after.phys
          added := by
  obtain ⟨⟨stacked, stackedPhys⟩, stackEq, rest⟩ := bind_eq_ok.mp returned
  obtain ⟨⟨trapped, trappedPhys⟩, trapEq, rest⟩ := bind_eq_ok.mp rest
  cases rest
  refine ⟨rfl, ?_⟩
  rw [baseEq] at stackEq
  obtain ⟨stackStart, stackEnd, _⟩ := ustack_pages firstLt tidLt
  obtain ⟨trapStart, trapEnd, _⟩ := trapCx_pages tidLt
  obtain ⟨between, stackArranged, _⟩ :=
    arranged.insert (stackShape first tid).1 (virtAddr_lt _) stackStart
      stackEnd (fun _ _ => trivial) stackEq
  obtain ⟨added, trapArranged, _⟩ :=
    stackArranged.insert (trapShape tid).1 (virtAddr_lt _) trapStart trapEnd
      (fun _ _ => trivial) trapEq
  refine ⟨added, ?_⟩
  rw [append_assoc] at trapArranged
  exact trapArranged

/-- `dealloc_user_res` removes the two areas of a thread. -/
theorem deallocUserRes_spec (state : ThreadAreas) {shapes : List Shape}
    (baseEq : state.ustackBase = first * pageSize)
    (firstLt : first < 2 ^ 25) (tidLt : tid < 2 ^ 15)
    (arranged :
      Arranged (fun _ => True) kernelPage
        (threadShapes first tid ++ shapes) state.memorySet state.phys pages)
    (only :
      ∀ shape ∈ shapes,
        shape.1.l ≠ (stackShape first tid).1.l ∧
          shape.1.l ≠ (trapShape tid).1.l)
    (returned : state.deallocUserRes tid = .ok after) :
    after = { state with
        memorySet := after.memorySet
        phys := after.phys } ∧
      ∃ left,
        Arranged (fun _ => True) kernelPage shapes after.memorySet after.phys
            left ∧
          (∀ shape ∈ threadShapes first tid, ∀ vpn,
            shape.1.Contains vpn → left vpn = none) ∧
          ∀ vpn,
            (∀ shape ∈ threadShapes first tid, ¬ shape.1.Contains vpn) →
              left vpn = pages vpn := by
  obtain ⟨stackVpn, stackVpnEq, rest⟩ := bind_eq_ok.mp returned
  obtain ⟨⟨between, betweenPhys⟩, stackEq, rest⟩ := bind_eq_ok.mp rest
  obtain ⟨trapVpn, trapVpnEq, rest⟩ := bind_eq_ok.mp rest
  obtain ⟨⟨last, lastPhys⟩, trapEq, rest⟩ := bind_eq_ok.mp rest
  cases rest
  refine ⟨rfl, ?_⟩
  rw [baseEq, (ustack_pages firstLt tidLt).2.2] at stackVpnEq
  rw [(trapCx_pages tidLt).2.2] at trapVpnEq
  cases stackVpnEq
  cases trapVpnEq
  have trapStart : (trapShape tid).1.l ≠ (stackShape first tid).1.l := by
    change 2 ^ 27 - 2 - tid ≠ first + 3 * tid
    omega
  obtain ⟨stackLeft, stackArranged, stackGone, stackOld⟩ :=
    arranged.remove
      (fun shape member => by
        rcases mem_cons.mp member with rfl | member
        · exact trapStart
        · exact (only shape member).1)
      rfl stackEq
  obtain ⟨left, trapArranged, trapGone, trapOld⟩ :=
    stackArranged.remove (fun shape member => (only shape member).2) rfl
      trapEq
  refine ⟨left, trapArranged, ?_, ?_⟩
  · intro shape member vpn contains
    by_cases inContext : (trapShape tid).1.Contains vpn
    · exact trapGone vpn inContext
    · rw [trapOld vpn inContext]
      rcases mem_cons.mp member with rfl | member
      · exact stackGone vpn contains
      · rw [mem_singleton.mp member] at contains
        exact absurd contains inContext
  · intro vpn outside
    rw [trapOld vpn (outside _ (mem_cons_of_mem _ mem_cons_self)),
      stackOld vpn (outside _ mem_cons_self)]

/-! ## Steps -/

variable {memorySet : MemorySet} {phys : KernelMemory}

/-- The stacks start one page above the last segment. -/
theorem Loaded.base (loaded : Loaded kernelPage memorySet phys) :
    ∃ first, userStackBase memorySet = first * pageSize ∧ 0 < first ∧
      first < 2 ^ 25 ∧
      ∀ area ∈ memorySet.areas, area.vpnRange.r < first := by
  obtain ⟨_, below, baseLt⟩ := loaded
  obtain ⟨maxEndVpn, maxEq, maxLt⟩ :
      ∃ maxEndVpn,
        (memorySet.areas.getLast?.map fun area => area.vpnRange.r).getD 0 =
          maxEndVpn ∧ maxEndVpn + 1 < 2 ^ 25 := by
    refine ⟨_, rfl, ?_⟩
    cases last : memorySet.areas.getLast? with
    | none => decide
    | some area =>
      have ends := below area (mem_of_getLast? last)
      have small := Nat.lt_of_le_of_lt ends baseLt
      rw [pageSize] at small
      change area.vpnRange.r + 1 < 2 ^ 25
      omega
  have baseEq :
      userStackBase memorySet = (maxEndVpn + 1) * pageSize := by
    have low : maxEndVpn * 2 ^ 12 < 2 ^ 38 := by omega
    rw [userStackBase, maxEq, Nat.shiftLeft_eq, usizeOfVirtAddr_of_lt low,
      pageSize]
    omega
  refine ⟨maxEndVpn + 1, baseEq, Nat.succ_pos _, ?_, ?_⟩
  · omega
  · intro area member
    have ends := below area member
    rw [baseEq, pageSize] at ends
    omega

theorem Loaded.shapes (loaded : Loaded kernelPage memorySet phys) :
    (∀ shape ∈ memorySet.areas.map MapArea.shape, shape.2.1 = .framed) ∧
      ∃ pages,
        Arranged (fun _ => True) kernelPage
          (memorySet.areas.map MapArea.shape) memorySet phys pages := by
  constructor
  · obtain ⟨pages, represents⟩ := loaded.1
    intro shape member
    obtain ⟨area, areaMember, rfl⟩ := mem_map.mp member
    exact (represents.holds area areaMember).framed
  · exact loaded.1.arranged

section

variable (placed : Placed kernelPage first segments state pages)

include placed

/-- A new thread has the areas of its identifier. -/
theorem Placed.newThread (room : state.live.length < 2 ^ 15)
    (returned : state.newThread = .ok after) :
    ∃ added, Placed kernelPage first segments after added := by
  cases allocated : state.taskResAllocator.alloc with
  | mk tid allocator =>
    rw [ThreadAreas.newThread, allocated] at returned
    obtain ⟨serves, _, currentLe⟩ := placed.serves.alloc allocated
    have small : allocator.current ≤ 2 ^ 15 := by
      have before := placed.current_le
      omega
    have tidLt : tid < 2 ^ 15 :=
      Nat.lt_of_lt_of_le
        (serves.lt (mem_append_right _ (mem_singleton_self tid)))
        small
    obtain ⟨afterEq, added, arranged⟩ :=
      allocUserRes_spec
        { state with
          taskResAllocator := allocator
          live := state.live ++ [tid] }
        placed.base_eq placed.first_lt tidLt placed.arranged returned
    rw [append_assoc] at arranged
    rw [afterEq]
    refine ⟨added, placed.base_eq, placed.first_pos, placed.first_lt,
      placed.segments_end, placed.segments_framed, ?_, serves, small⟩
    rw [flatMap_append, flatMap_singleton]
    exact arranged

/-- The areas of a thread, and those of the segments and other threads. -/
theorem Placed.focus (member : tid ∈ state.live) :
    Arranged (fun _ => True) kernelPage
      (threadShapes first tid ++
        (segments ++ (state.live.erase tid).flatMap (threadShapes first)))
      state.memorySet state.phys pages := by
  refine placed.arranged.of_perm ?_
  have live := (perm_cons_erase member).flatMap_right
    (threadShapes first)
  rw [flatMap_cons] at live
  refine (live.append_left segments).trans ?_
  rw [← append_assoc, ← append_assoc]
  exact perm_append_comm.append_right _

/-- No other area starts where an area of the thread starts. -/
theorem Placed.only (member : tid ∈ state.live) :
    ∀ shape ∈
        segments ++ (state.live.erase tid).flatMap (threadShapes first),
      shape.1.l ≠ (stackShape first tid).1.l ∧
        shape.1.l ≠ (trapShape tid).1.l := by
  have tidLt := placed.tid_lt member
  have firstLt := placed.first_lt
  have stackStart : (stackShape first tid).1.l = first + 3 * tid := rfl
  have trapStart : (trapShape tid).1.l = 2 ^ 27 - 2 - tid := rfl
  intro shape inShapes
  rcases mem_shapes.mp inShapes with inSegments | inThreads
  · have ends := placed.segments_end shape inSegments
    have le := shape.1.le
    omega
  · obtain ⟨other, otherMember, otherShape⟩ := inThreads
    have otherLt := placed.tid_lt (mem_of_mem_erase otherMember)
    have different : other ≠ tid := by
      rintro rfl
      exact placed.serves.nodup.not_mem_erase otherMember
    have otherStack : (stackShape first other).1.l = first + 3 * other := rfl
    have otherTrap : (trapShape other).1.l = 2 ^ 27 - 2 - other := rfl
    rcases mem_threadShapes.mp otherShape with rfl | rfl
    · omega
    · omega

/-- The drop of a thread's resources removes its two areas. -/
theorem Placed.dropThread (member : tid ∈ state.live)
    (returned : state.dropThread tid = .ok after) :
    ∃ left, Placed kernelPage first segments after left ∧
      (∀ shape ∈ threadShapes first tid, ∀ vpn,
        shape.1.Contains vpn → left vpn = none) ∧
      ∀ vpn,
        (∀ shape ∈ threadShapes first tid, ¬ shape.1.Contains vpn) →
          left vpn = pages vpn := by
  obtain ⟨allocator, deallocated, rest⟩ := bind_eq_ok.mp returned
  obtain ⟨serves, currentEq⟩ := placed.serves.dealloc member deallocated
  obtain ⟨afterEq, left, arranged, gone, old⟩ :=
    deallocUserRes_spec
      { state with
        taskResAllocator := allocator
        live := state.live.erase tid }
      placed.base_eq placed.first_lt (placed.tid_lt member)
      (placed.focus member) (placed.only member) rest
  rw [afterEq]
  exact ⟨left, ⟨placed.base_eq, placed.first_pos, placed.first_lt,
    placed.segments_end, placed.segments_framed, arranged, serves,
    currentEq ▸ placed.current_le⟩, gone, old⟩

/-- A process with one thread is copied with the areas of that thread. -/
theorem Placed.fork (alone : state.live = [0]) {strampoline : Nat}
    (kernelEq : pageNum (physAddr strampoline) = .ok kernelPage)
    (returned :
      state.memorySet.fromExistedUser state.phys strampoline =
        .ok (memorySet, phys)) :
    ∃ copied,
      Placed kernelPage first segments
        ⟨memorySet, phys, RecycleAllocator.new.alloc.2, state.ustackBase,
          [RecycleAllocator.new.alloc.1]⟩ copied := by
  have framed :
      ∀ shape ∈ segments ++ state.live.flatMap (threadShapes first),
        shape.2.1 = .framed := by
    intro shape inShapes
    rcases mem_shapes.mp inShapes with inSegments | inThreads
    · exact placed.segments_framed shape inSegments
    · obtain ⟨other, _, otherShape⟩ := inThreads
      rcases mem_threadShapes.mp otherShape with rfl | rfl
      · rfl
      · rfl
  obtain ⟨copied, represents, shapesEq⟩ :=
    fromExistedUser_shapes (placed.arranged.valid framed) kernelEq returned
  refine ⟨copied, placed.base_eq, placed.first_pos, placed.first_lt,
    placed.segments_end, placed.segments_framed, ⟨represents.spans, ?_⟩,
    (RecycleAllocator.Serves.new.alloc rfl).1,
    (by decide : RecycleAllocator.new.alloc.2.current ≤ 2 ^ 15)⟩
  rw [shapesEq]
  have perm := placed.arranged.perm
  rw [alone] at perm
  exact perm

end

/-- The invariant holds of every process. -/
theorem Reached.placed (reached : Reached kernelPage state) :
    ∃ first segments pages,
      Placed kernelPage first segments state pages := by
  induction reached with
  | @load memorySet phys loaded =>
    obtain ⟨first, baseEq, firstPos, firstLt, ends⟩ := loaded.base
    obtain ⟨framed, pages, arranged⟩ := loaded.shapes
    refine ⟨first, memorySet.areas.map MapArea.shape, pages, baseEq,
      firstPos, firstLt, ?_, framed, ?_, .new, Nat.zero_le _⟩
    · exact forall_mem_map.mpr ends
    · rw [flatMap_nil, append_nil]
      exact arranged
  | fork _ alone kernelEq returned induction =>
    obtain ⟨first, segments, pages, placed⟩ := induction
    exact ⟨first, segments, placed.fork alone kernelEq returned⟩
  | @exec state after memorySet phys _ alone loaded returned induction =>
    obtain ⟨_, _, _, placed⟩ := induction
    obtain ⟨first, baseEq, firstPos, firstLt, ends⟩ := loaded.base
    obtain ⟨framed, pages, arranged⟩ := loaded.shapes
    obtain ⟨afterEq, added, afterArranged⟩ :=
      allocUserRes_spec
        { state with
          memorySet, phys
          ustackBase := userStackBase memorySet }
        baseEq firstLt (by decide) arranged returned
    rw [afterEq]
    refine ⟨first, memorySet.areas.map MapArea.shape, added, baseEq,
      firstPos, firstLt, forall_mem_map.mpr ends, framed, ?_,
      placed.serves, placed.current_le⟩
    dsimp only
    rw [alone, flatMap_singleton]
    exact afterArranged
  | newThread _ room returned induction =>
    obtain ⟨first, segments, pages, placed⟩ := induction
    exact ⟨first, segments, placed.newThread room returned⟩
  | dropThread _ member returned induction =>
    obtain ⟨first, segments, pages, placed⟩ := induction
    obtain ⟨left, after, _⟩ := placed.dropThread member returned
    exact ⟨first, segments, left, after⟩
  | others _ kept inUse induction =>
    obtain ⟨first, segments, pages, placed⟩ := induction
    exact ⟨first, segments, pages,
      { placed with arranged := placed.arranged.others kept inUse }⟩

/-! ## The layout in every state -/

/-- The page below a user stack is in no area. -/
theorem Placed.guard (placed : Placed kernelPage first segments state pages)
    (member : tid ∈ state.live) {va : Nat}
    (below : va < first * pageSize + tid * (pageSize + userStackSize))
    (above :
      first * pageSize + tid * (pageSize + userStackSize) ≤ va + pageSize) :
    UnmappedAt state.memorySet state.phys va := by
  have tidLt := placed.tid_lt member
  have firstPos := placed.first_pos
  have firstLt := placed.first_lt
  have pageEq : pageOf va = first + 3 * tid - 1 := by
    rw [pageSize, userStackSize] at below above
    rw [pageOf, virtAddr_eq_mod, floor, pageSize]
    omega
  rw [UnmappedAt, pageEq]
  refine placed.arranged.unmapped ?_ ?_
  · rw [trampolineVpn]
    omega
  · intro shape inShapes contains
    rw [VPNRange.Contains] at contains
    rcases mem_shapes.mp inShapes with inSegments | inThreads
    · have ends := placed.segments_end shape inSegments
      omega
    · obtain ⟨other, otherMember, otherShape⟩ := inThreads
      have otherLt := placed.tid_lt otherMember
      rcases mem_threadShapes.mp otherShape with rfl | rfl
      · simp only [stackShape] at contains
        omega
      · simp only [trapShape] at contains
        omega

theorem Placed.layout (placed : Placed kernelPage first segments state pages) :
    Layout state := by
  have firstLt := placed.first_lt
  have inShapes :
      ∀ tid ∈ state.live, ∀ shape ∈ threadShapes first tid,
        shape ∈ segments ++ state.live.flatMap (threadShapes first) :=
    fun tid member shape isShape => mem_shapes.mpr (.inr ⟨tid, member, isShape⟩)
  refine ⟨?_, ?_, ?_, ?_, ?_⟩
  · intro tid member va onStack
    rw [placed.base_eq] at onStack
    exact placed.arranged.mapped
      (inShapes tid member _ mem_cons_self)
      (onStack.contains firstLt (placed.tid_lt member))
  · intro tid member va inContext
    exact placed.arranged.mapped
      (inShapes tid member _ (mem_cons_of_mem _ mem_cons_self))
      (inContext.contains (placed.tid_lt member))
  · intro one oneMember other otherMember different oneVa otherVa inOne
      inOther same
    rw [placed.base_eq] at inOne inOther
    obtain ⟨oneShape, isOne, oneContains⟩ :=
      inOne.contains firstLt (placed.tid_lt oneMember)
    obtain ⟨otherShape, isOther, otherContains⟩ :=
      inOther.contains firstLt (placed.tid_lt otherMember)
    rw [← same] at otherContains
    exact threadShapes_apart firstLt (placed.tid_lt oneMember)
      (placed.tid_lt otherMember) different isOne isOther oneContains
      otherContains
  · intro tid member va below above
    rw [placed.base_eq] at below above
    exact placed.guard member below above
  · intro tid member after returned
    have tidLt := placed.tid_lt member
    obtain ⟨left, afterPlaced, gone, old⟩ := placed.dropThread member returned
    rw [placed.base_eq]
    constructor
    · intro va inThread
      obtain ⟨shape, isShape, contains⟩ := inThread.contains firstLt tidLt
      rw [UnmappedAt, afterPlaced.arranged.mapping_eq (pageOf_lt va),
        gone shape isShape _ contains]
      rfl
    · intro vpn vpnLt outside
      rw [afterPlaced.arranged.mapping_eq vpnLt,
        placed.arranged.mapping_eq vpnLt, old vpn]
      intro shape isShape contains
      obtain ⟨va, inThread, same⟩ :=
        exists_inThread firstLt tidLt isShape contains
      exact outside va inThread same

/-- The areas of the threads of a process never collide. -/
theorem Reached.layout (reached : Reached kernelPage state) :
    Layout state := by
  obtain ⟨first, segments, pages, placed⟩ := reached.placed
  exact placed.layout

end ThreadAreas

end RCoreOS.Kernel
