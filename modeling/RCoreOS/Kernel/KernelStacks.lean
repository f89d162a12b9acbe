import RCoreOS.Kernel.ThreadAreas

/-!
# Kernel stacks

`KernelStack` of `os/src/task/id.rs` and `MemorySet::new_kernel`.  The kernel's
address space maps the kernel and the physical memory to themselves.  The
kernel stacks are framed areas at its upper end, each found from an identifier,
with one page that is not mapped below each of them.
-/

namespace RCoreOS.Kernel

open Lib.FallibleRuns PageTable MemorySet

/-! ## The kernel's address space -/

/-- `MEMORY_END` -/
def memoryEnd : Nat := 0x88000000

/-- `MMIO` -/
def mmio : List (Nat × Nat) := [(0x00100000, 0x002000), (0x10001000, 0x001000)]

/-- The symbols of the linker: the sections of the kernel are in memory. -/
structure KernelSymbols where
  stext : Nat
  etext : Nat
  srodata : Nat
  erodata : Nat
  sdata : Nat
  edata : Nat
  sbssWithStack : Nat
  ebss : Nat
  ekernel : Nat
  strampoline : Nat
  etext_le : etext ≤ memoryEnd
  erodata_le : erodata ≤ memoryEnd
  edata_le : edata ≤ memoryEnd
  ebss_le : ebss ≤ memoryEnd

/-- The parts that `new_kernel` maps to themselves. -/
def KernelSymbols.sections (symbols : KernelSymbols) :
    List (Nat × Nat × MapPermission) :=
  [(symbols.stext, symbols.etext,
      ⟨PTEFlags.r ||| PTEFlags.x, MapPermission.named_rx⟩),
    (symbols.srodata, symbols.erodata, ⟨PTEFlags.r, MapPermission.named_r⟩),
    (symbols.sdata, symbols.edata,
      ⟨PTEFlags.r ||| PTEFlags.w, MapPermission.named_rw⟩),
    (symbols.sbssWithStack, symbols.ebss,
      ⟨PTEFlags.r ||| PTEFlags.w, MapPermission.named_rw⟩),
    (symbols.ekernel, memoryEnd,
      ⟨PTEFlags.r ||| PTEFlags.w, MapPermission.named_rw⟩)] ++
    mmio.map fun pair =>
      (pair.1, pair.1 + pair.2,
        ⟨PTEFlags.r ||| PTEFlags.w, MapPermission.named_rw⟩)

namespace MemorySet

/-- The calls of `push` in `new_kernel`. -/
def pushIdentical (self : MemorySet) (phys : KernelMemory) :
    List (Nat × Nat × MapPermission) → Except Stop (MemorySet × KernelMemory)
  | [] => return (self, phys)
  | (start, stop, permission) :: rest => do
      let area ←
        MapArea.new (virtAddr start) (virtAddr stop) .identical permission
      let (self, phys) ← self.push phys area
      self.pushIdentical phys rest

/-- `MemorySet::new_kernel` -/
def newKernel (phys : KernelMemory) (symbols : KernelSymbols) :
    Except Stop (MemorySet × KernelMemory) := do
  let (memorySet, phys) ← newBare phys
  let (memorySet, phys) ← memorySet.mapTrampoline phys symbols.strampoline
  memorySet.pushIdentical phys symbols.sections

end MemorySet

/-! ## Stacks -/

/-- `KERNEL_STACK_SIZE` -/
def kernelStackSize : Nat := 4096 * 2

/-- `kernel_stack_position` -/
def kernelStackPosition (kstackId : Nat) : Nat × Nat :=
  let top := usizeSub trampoline (kstackId * (kernelStackSize + pageSize))
  let bottom := usizeSub top kernelStackSize
  (bottom, top)

/-- `KERNEL_SPACE` and `KSTACK_ALLOCATOR`, with the stacks that are in use. -/
structure KernelStacks where
  kernelSpace : MemorySet
  phys : KernelMemory
  kstackAllocator : RecycleAllocator
  live : List Nat

namespace KernelStacks

/-- `kstack_alloc` -/
def kstackAlloc (state : KernelStacks) : Except Stop KernelStacks := do
  let (kstackId, kstackAllocator) := state.kstackAllocator.alloc
  let (kstackBottom, kstackTop) := kernelStackPosition kstackId
  let (kernelSpace, phys) ← state.kernelSpace.insertFramedArea state.phys
    (virtAddr kstackBottom) (virtAddr kstackTop)
    ⟨PTEFlags.r ||| PTEFlags.w, MapPermission.named_rw⟩
  return ⟨kernelSpace, phys, kstackAllocator, state.live ++ [kstackId]⟩

/-- The drop of a `KernelStack`. -/
def dropStack (state : KernelStacks) (kstackId : Nat) :
    Except Stop KernelStacks := do
  let (kernelStackBottom, _) := kernelStackPosition kstackId
  let vpn ← pageNum (virtAddr kernelStackBottom)
  let (kernelSpace, phys) ←
    state.kernelSpace.removeAreaWithStartVpn state.phys vpn
  let kstackAllocator ← state.kstackAllocator.dealloc kstackId
  return ⟨kernelSpace, phys, kstackAllocator, state.live.erase kstackId⟩

/-- The states of the kernel's address space. -/
inductive Reached (kernelPage : Nat) : KernelStacks → Prop where
  | start {before phys : KernelMemory} {kernelSpace : MemorySet}
      {symbols : KernelSymbols}
      (kernelEq : pageNum (physAddr symbols.strampoline) = .ok kernelPage)
      (returned : newKernel before symbols = .ok (kernelSpace, phys)) :
      Reached kernelPage ⟨kernelSpace, phys, .new, []⟩
  | kstackAlloc {state after : KernelStacks}
      (reached : Reached kernelPage state)
      (room : state.live.length < 2 ^ 15)
      (returned : state.kstackAlloc = .ok after) :
      Reached kernelPage after
  | dropStack {state after : KernelStacks} {kstackId : Nat}
      (reached : Reached kernelPage state) (member : kstackId ∈ state.live)
      (returned : state.dropStack kstackId = .ok after) :
      Reached kernelPage after
  | others {state : KernelStacks} {phys : KernelMemory}
      (reached : Reached kernelPage state)
      (kept :
        ∀ ppn ∈ state.kernelSpace.pageTable.frames,
          phys.memory ppn = state.phys.memory ppn)
      (inUse :
        ∀ ppn, Uses kernelPage state.kernelSpace ppn →
          ¬ phys.allocator.Free ppn) :
      Reached kernelPage { state with phys }

/-- The address is on the kernel stack. -/
def OnStack (kstackId va : Nat) : Prop :=
  (kernelStackPosition kstackId).1 ≤ va ∧ va < (kernelStackPosition kstackId).2

/-- What is known of the kernel stacks. -/
structure Layout (state : KernelStacks) : Prop where
  below_trampoline :
    ∀ kstackId ∈ state.live,
      (kernelStackPosition kstackId).1 + kernelStackSize =
          (kernelStackPosition kstackId).2 ∧
        (kernelStackPosition kstackId).2 ≤ trampoline
  mapped :
    ∀ kstackId ∈ state.live, ∀ va, OnStack kstackId va →
      state.kernelSpace.MappedWith state.phys va
        (PTEFlags.r ||| PTEFlags.w)
  disjoint :
    ∀ first ∈ state.live, ∀ second ∈ state.live, first ≠ second →
      ∀ firstVa secondVa, OnStack first firstVa → OnStack second secondVa →
        pageOf firstVa ≠ pageOf secondVa
  guard_unmapped :
    ∀ kstackId ∈ state.live, ∀ va,
      va < (kernelStackPosition kstackId).1 →
        (kernelStackPosition kstackId).1 ≤ va + pageSize →
          state.kernelSpace.UnmappedAt state.phys va
  drop_unmaps :
    ∀ kstackId ∈ state.live, ∀ after,
      state.dropStack kstackId = .ok after →
        UnmapsExactly (OnStack kstackId) state.kernelSpace state.phys
          after.kernelSpace after.phys

end KernelStacks

/-! ## The identical areas -/

/-- The pages that own their frames: the upper quarter, but the trampoline. -/
def ownedByKernel (vpn : Nat) : Prop := 2 ^ 26 ≤ vpn ∧ vpn < trampolineVpn

/-- An area of the lower part that is mapped to itself. -/
def Below (shape : Shape) : Prop := shape.2.1 = .identical ∧ shape.1.r ≤ 2 ^ 26

/-- The sections of the kernel and the devices end in the lower part. -/
theorem KernelSymbols.sections_end (symbols : KernelSymbols) :
    ∀ part ∈ symbols.sections, part.2.1 ≤ memoryEnd := by
  have devices : ∀ pair ∈ mmio, pair.1 + pair.2 ≤ memoryEnd := by decide
  intro part member
  rcases List.mem_append.mp member with inMemory | inDevices
  · simp only [List.mem_cons, List.not_mem_nil, or_false] at inMemory
    rcases inMemory with rfl | rfl | rfl | rfl | rfl
    · exact symbols.etext_le
    · exact symbols.erodata_le
    · exact symbols.edata_le
    · exact symbols.ebss_le
    · exact Nat.le_refl _
  · obtain ⟨pair, isDevice, rfl⟩ := List.mem_map.mp inDevices
    exact devices pair isDevice

/-- The last page of an area that ends in memory. -/
theorem ceil_memory {stop : Nat} (inMemory : stop ≤ memoryEnd) :
    ceil (virtAddr stop) ≤ 2 ^ 26 := by
  rw [memoryEnd] at inMemory
  rw [virtAddr_eq_mod, ceil, pageSize]
  omega

namespace MemorySet

variable {kernelPage : Nat} {set after : MemorySet}
  {phys afterPhys : KernelMemory} {pages : Pages} {shapes : List Shape}

section

variable (arranged : Arranged ownedByKernel kernelPage shapes set phys pages)

include arranged

/-- `push` of an area of the lower part that is mapped to itself. -/
theorem Arranged.pushIdentical {area : MapArea} (below : Below area.shape)
    (returned : set.push phys area = .ok (after, afterPhys)) :
    ∃ added,
      Arranged ownedByKernel kernelPage (shapes ++ [area.shape]) after
        afterPhys added := by
  obtain ⟨⟨result, table, between⟩, mapEq, rest⟩ := bind_eq_ok.mp returned
  cases rest
  obtain ⟨identical, ends⟩ := below
  have small :
      ∀ vpn, area.vpnRange.Contains vpn →
        vpn < 2 ^ 27 ∧ ¬ ownedByKernel vpn := by
    intro vpn contains
    have vpnLt : vpn < 2 ^ 26 := Nat.lt_of_lt_of_le contains.2 ends
    constructor
    · omega
    · exact fun isOwned => absurd isOwned.1 (Nat.not_le.mpr vpnLt)
  obtain ⟨rfl, added, maps, new, old⟩ :=
    MapArea.mapPages_identical arranged.spans.maps identical
      (fun vpn member => small vpn (VPNRange.mem_toList.mp member))
      area.vpnRange.nodup_toList mapEq
  refine ⟨added, ?_, ?_⟩
  · refine Spans.perm (arranged.spans.insert ?_ ?_ ?_ ?_ maps)
      (List.perm_append_singleton result set.areas)
    · intro vpn contains
      obtain ⟨absent, present⟩ := new vpn (VPNRange.mem_toList.mpr contains)
      exact ⟨absent, vpn, present⟩
    · intro vpn outside
      rw [← VPNRange.mem_toList] at outside
      exact old vpn outside
    · intro framed
      rw [show result.mapType = .identical from identical] at framed
      cases framed
    · exact fun _ vpn contains => (small vpn contains).2
  · rw [List.map_append, List.map_singleton]
    exact arranged.perm.append_right _

/-- The calls of `push` in `new_kernel`. -/
theorem Arranged.pushIdenticals (below : ∀ shape ∈ shapes, Below shape)
    {parts : List (Nat × Nat × MapPermission)}
    (ends : ∀ part ∈ parts, part.2.1 ≤ memoryEnd)
    (returned : set.pushIdentical phys parts = .ok (after, afterPhys)) :
    ∃ base added, (∀ shape ∈ base, Below shape) ∧
      Arranged ownedByKernel kernelPage base after afterPhys added := by
  induction parts generalizing set phys pages shapes with
  | nil =>
    cases returned
    exact ⟨shapes, pages, below, arranged⟩
  | cons part rest induction =>
    obtain ⟨start, stop, permission⟩ := part
    obtain ⟨area, areaEq, others⟩ := bind_eq_ok.mp returned
    obtain ⟨⟨between, betweenPhys⟩, pushEq, restEq⟩ := bind_eq_ok.mp others
    obtain ⟨range, rangeEq, made⟩ := bind_eq_ok.mp areaEq
    cases made
    obtain ⟨_, _, endEq⟩ := VPNRange.new_eq_ok rangeEq
    have isBelow :
        Below (MapArea.shape ⟨range, ∅, .identical, permission⟩) := by
      refine ⟨rfl, ?_⟩
      change range.r ≤ 2 ^ 26
      rw [endEq]
      exact ceil_memory (ends _ List.mem_cons_self)
    obtain ⟨added, addedArranged⟩ := arranged.pushIdentical isBelow pushEq
    refine induction addedArranged ?_
      (fun other member => ends other (List.mem_cons_of_mem _ member))
      restEq
    intro shape member
    rcases List.mem_append.mp member with old | new
    · exact below shape old
    · rw [List.mem_singleton.mp new]
      exact isBelow

end

/-- `new_kernel` maps the trampoline and areas of the lower part. -/
theorem Arranged.newKernel {before : KernelMemory} {symbols : KernelSymbols}
    (kernelEq : pageNum (physAddr symbols.strampoline) = .ok kernelPage)
    (returned :
      MemorySet.newKernel before symbols = .ok (set, phys)) :
    ∃ base pages, (∀ shape ∈ base, Below shape) ∧
      Arranged ownedByKernel kernelPage base set phys pages := by
  obtain ⟨⟨bare, barePhys⟩, bareEq, rest⟩ := bind_eq_ok.mp returned
  obtain ⟨⟨mapped, mappedPhys⟩, mappedEq, rest⟩ := bind_eq_ok.mp rest
  obtain ⟨empty, pages, spans⟩ :
      mapped.areas = [] ∧ ∃ pages, Spans ownedByKernel _ _ _ _ pages :=
    Spans.new kernelEq
      (fun isOwned => absurd isOwned.2 (Nat.lt_irrefl _)) bareEq mappedEq
  have arranged :
      Arranged ownedByKernel kernelPage [] mapped mappedPhys pages := by
    refine ⟨spans, ?_⟩
    rw [empty]
    exact .refl _
  exact arranged.pushIdenticals nofun symbols.sections_end rest

end MemorySet

/-! ## Pages of a stack -/

namespace KernelStacks

/-- The area of a kernel stack. -/
def stackShape (kstackId : Nat) : Shape :=
  (⟨2 ^ 27 - 3 - 3 * kstackId, 2 ^ 27 - 1 - 3 * kstackId, by omega⟩, .framed,
    ⟨PTEFlags.r ||| PTEFlags.w, MapPermission.named_rw⟩)

section

variable {kstackId : Nat}

section

variable (small : kstackId < 2 ^ 15)

include small

/-- The bottom and the top of a kernel stack. -/
theorem kernelStackPosition_eq :
    kernelStackPosition kstackId =
      ((2 ^ 52 - 3 - 3 * kstackId) * pageSize,
        (2 ^ 52 - 1 - 3 * kstackId) * pageSize) := by
  have topEq :
      usizeSub trampoline (kstackId * (kernelStackSize + pageSize)) =
        (2 ^ 52 - 1 - 3 * kstackId) * pageSize := by
    rw [usizeSub, trampoline, kernelStackSize, pageSize]
    omega
  have bottomEq :
      usizeSub ((2 ^ 52 - 1 - 3 * kstackId) * pageSize) kernelStackSize =
        (2 ^ 52 - 3 - 3 * kstackId) * pageSize := by
    rw [usizeSub, kernelStackSize, pageSize]
    omega
  rw [kernelStackPosition, topEq, bottomEq]

/-- The pages of a kernel stack. -/
theorem kernelStack_pages :
    floor (virtAddr (kernelStackPosition kstackId).1) =
        (stackShape kstackId).1.l ∧
      ceil (virtAddr (kernelStackPosition kstackId).2) =
        (stackShape kstackId).1.r ∧
      pageNum (virtAddr (kernelStackPosition kstackId).1) =
        .ok (stackShape kstackId).1.l := by
  have startEq :
      floor (virtAddr ((2 ^ 52 - 3 - 3 * kstackId) * pageSize)) =
        (stackShape kstackId).1.l := by
    rw [floor_high (by omega) (by omega)]
    change _ = 2 ^ 27 - 3 - 3 * kstackId
    omega
  rw [kernelStackPosition_eq small]
  dsimp only
  rw [pageNum_page, startEq, ceil_high (by omega) (by omega)]
  refine ⟨rfl, ?_, rfl⟩
  change _ = 2 ^ 27 - 1 - 3 * kstackId
  omega

/-- The addresses of a kernel stack are in the pages of its area. -/
theorem OnStack.contains {va : Nat}
    (onStack : OnStack kstackId va) :
    (stackShape kstackId).1.Contains (pageOf va) := by
  rw [OnStack, kernelStackPosition_eq small, pageSize] at onStack
  rw [VPNRange.Contains, stackShape, pageOf, virtAddr_eq_mod, floor, pageSize]
  dsimp only at onStack ⊢
  omega

/-- Each page of the area is the page of an address on the stack. -/
theorem exists_onStack {vpn : Nat}
    (contains : (stackShape kstackId).1.Contains vpn) :
    ∃ va, OnStack kstackId va ∧ pageOf va = vpn := by
  rw [VPNRange.Contains, stackShape] at contains
  dsimp only at contains
  refine ⟨(2 ^ 52 - 2 ^ 27 + vpn) * pageSize, ?_, ?_⟩
  · rw [OnStack, kernelStackPosition_eq small, pageSize]
    dsimp only
    omega
  · rw [pageOf, floor_high (by omega) (by omega)]
    omega

end

end

/-! ## The invariant -/

/--
The areas of the kernel's address space are areas of the lower part that are
mapped to themselves, and the stacks that are in use.
-/
structure Placed (kernelPage : Nat) (base : List Shape)
    (state : KernelStacks) (pages : Pages) : Prop where
  below : ∀ shape ∈ base, Below shape
  arranged :
    Arranged ownedByKernel kernelPage (base ++ state.live.map stackShape)
      state.kernelSpace state.phys pages
  serves : state.kstackAllocator.Serves state.live
  current_le : state.kstackAllocator.current ≤ 2 ^ 15

variable {kernelPage kstackId : Nat} {base : List Shape}
  {state after : KernelStacks} {pages : Pages}

theorem Placed.id_lt (placed : Placed kernelPage base state pages)
    (member : kstackId ∈ state.live) : kstackId < 2 ^ 15 :=
  Nat.lt_of_lt_of_le (placed.serves.lt member) placed.current_le

theorem mem_shapes {live : List Nat} {shape : Shape} :
    shape ∈ base ++ live.map stackShape ↔
      shape ∈ base ∨ ∃ kstackId ∈ live, stackShape kstackId = shape := by
  rw [List.mem_append, List.mem_map]

section

variable (placed : Placed kernelPage base state pages)

include placed

/-- `kstack_alloc` adds the area of a stack. -/
theorem Placed.kstackAlloc (room : state.live.length < 2 ^ 15)
    (returned : state.kstackAlloc = .ok after) :
    ∃ added, Placed kernelPage base after added := by
  cases allocated : state.kstackAllocator.alloc with
  | mk kstackId allocator =>
    rw [KernelStacks.kstackAlloc, allocated] at returned
    obtain ⟨⟨kernelSpace, phys⟩, insertEq, rest⟩ := bind_eq_ok.mp returned
    cases rest
    obtain ⟨serves, _, currentLe⟩ := placed.serves.alloc allocated
    have currentSmall : allocator.current ≤ 2 ^ 15 := by
      have before := placed.current_le
      omega
    have small : kstackId < 2 ^ 15 :=
      Nat.lt_of_lt_of_le
        (serves.lt
          (List.mem_append_right _ (List.mem_singleton_self kstackId)))
        currentSmall
    obtain ⟨startEq, endEq, _⟩ := kernelStack_pages small
    have own :
        ∀ vpn, (stackShape kstackId).1.Contains vpn →
          ownedByKernel vpn := by
      intro vpn contains
      rw [VPNRange.Contains, stackShape] at contains
      rw [ownedByKernel, trampolineVpn]
      dsimp only at contains
      omega
    obtain ⟨added, arranged, _⟩ :=
      placed.arranged.insert (stackShape kstackId).1 (virtAddr_lt _)
        startEq endEq own insertEq
    refine ⟨added, placed.below, ?_, serves, currentSmall⟩
    dsimp only
    rw [List.map_append, List.map_singleton, ← List.append_assoc]
    exact arranged

section

variable (member : kstackId ∈ state.live)

include member

/-- The area of a stack, and the other areas. -/
theorem Placed.focus :
    Arranged ownedByKernel kernelPage
      (stackShape kstackId ::
        (base ++ (state.live.erase kstackId).map stackShape))
      state.kernelSpace state.phys pages := by
  refine placed.arranged.of_perm ?_
  have live := (List.perm_cons_erase member).map stackShape
  rw [List.map_cons] at live
  exact (live.append_left base).trans List.perm_middle

/-- No other area starts where the stack starts. -/
theorem Placed.only :
    ∀ shape ∈ base ++ (state.live.erase kstackId).map stackShape,
      shape.1.l ≠ (stackShape kstackId).1.l := by
  have small := placed.id_lt member
  have startEq : (stackShape kstackId).1.l = 2 ^ 27 - 3 - 3 * kstackId := rfl
  intro shape inShapes
  rcases mem_shapes.mp inShapes with inBase | inStacks
  · have ends := (placed.below shape inBase).2
    have le := shape.1.le
    omega
  · obtain ⟨other, otherMember, rfl⟩ := inStacks
    have otherSmall := placed.id_lt (List.mem_of_mem_erase otherMember)
    have different : other ≠ kstackId := by
      rintro rfl
      exact placed.serves.nodup.not_mem_erase otherMember
    have otherEq : (stackShape other).1.l = 2 ^ 27 - 3 - 3 * other := rfl
    omega

/-- The drop of a kernel stack removes its area. -/
theorem Placed.dropStack (returned : state.dropStack kstackId = .ok after) :
    ∃ left, Placed kernelPage base after left ∧
      (∀ vpn, (stackShape kstackId).1.Contains vpn → left vpn = none) ∧
      ∀ vpn, ¬ (stackShape kstackId).1.Contains vpn →
        left vpn = pages vpn := by
  obtain ⟨vpn, vpnEq, rest⟩ := bind_eq_ok.mp returned
  obtain ⟨⟨kernelSpace, phys⟩, removeEq, rest⟩ := bind_eq_ok.mp rest
  obtain ⟨allocator, deallocated, rest⟩ := bind_eq_ok.mp rest
  cases rest
  obtain rfl : (stackShape kstackId).1.l = vpn :=
    Except.ok.inj
      ((kernelStack_pages (placed.id_lt member)).2.2.symm.trans vpnEq)
  obtain ⟨serves, currentEq⟩ := placed.serves.dealloc member deallocated
  obtain ⟨left, arranged, gone, old⟩ :=
    (placed.focus member).remove (placed.only member) rfl removeEq
  exact ⟨left, ⟨placed.below, arranged, serves,
    currentEq ▸ placed.current_le⟩, gone, old⟩

end

end

/-- The invariant holds in every state. -/
theorem Reached.placed (reached : Reached kernelPage state) :
    ∃ base pages, Placed kernelPage base state pages := by
  induction reached with
  | start kernelEq returned =>
    obtain ⟨base, pages, below, arranged⟩ :=
      Arranged.newKernel kernelEq returned
    refine ⟨base, pages, below, ?_, .new, Nat.zero_le _⟩
    rw [List.map_nil, List.append_nil]
    exact arranged
  | kstackAlloc _ room returned induction =>
    obtain ⟨base, pages, placed⟩ := induction
    exact ⟨base, placed.kstackAlloc room returned⟩
  | dropStack _ member returned induction =>
    obtain ⟨base, pages, placed⟩ := induction
    obtain ⟨left, after, _⟩ := placed.dropStack member returned
    exact ⟨base, left, after⟩
  | others _ kept inUse induction =>
    obtain ⟨base, pages, placed⟩ := induction
    exact ⟨base, pages,
      { placed with arranged := placed.arranged.others kept inUse }⟩

/-! ## The layout in every state -/

/-- The page below a kernel stack is in no area. -/
theorem Placed.guard (placed : Placed kernelPage base state pages)
    (member : kstackId ∈ state.live) {va : Nat}
    (below : va < (kernelStackPosition kstackId).1)
    (above : (kernelStackPosition kstackId).1 ≤ va + pageSize) :
    state.kernelSpace.UnmappedAt state.phys va := by
  have small := placed.id_lt member
  have pageEq : pageOf va = 2 ^ 27 - 4 - 3 * kstackId := by
    rw [kernelStackPosition_eq small, pageSize] at below above
    dsimp only at below above
    rw [pageOf, virtAddr_eq_mod, floor, pageSize]
    omega
  rw [UnmappedAt, pageEq]
  apply placed.arranged.unmapped
  · rw [trampolineVpn]
    omega
  · intro shape inShapes contains
    rw [VPNRange.Contains] at contains
    rcases mem_shapes.mp inShapes with inBase | inStacks
    · have ends := (placed.below shape inBase).2
      omega
    · obtain ⟨other, otherMember, rfl⟩ := inStacks
      have otherSmall := placed.id_lt otherMember
      simp only [stackShape] at contains
      omega

theorem Placed.layout (placed : Placed kernelPage base state pages) :
    Layout state where
  below_trampoline := by
    intro kstackId member
    have small := placed.id_lt member
    rw [kernelStackPosition_eq small, kernelStackSize, trampoline, pageSize]
    constructor
    · dsimp only
      omega
    · dsimp only
      omega
  mapped := by
    intro kstackId member va onStack
    exact placed.arranged.mapped
      (mem_shapes.mpr (.inr ⟨kstackId, member, rfl⟩))
      (onStack.contains (placed.id_lt member))
  disjoint := by
    intro first firstMember second secondMember different firstVa secondVa
      onFirst onSecond same
    have firstPage := onFirst.contains (placed.id_lt firstMember)
    have secondPage := onSecond.contains (placed.id_lt secondMember)
    have firstSmall := placed.id_lt firstMember
    have secondSmall := placed.id_lt secondMember
    rw [same] at firstPage
    simp only [VPNRange.Contains, stackShape] at firstPage secondPage
    omega
  guard_unmapped := by
    intro kstackId member va below above
    exact placed.guard member below above
  drop_unmaps := by
    intro kstackId member after returned
    have small := placed.id_lt member
    obtain ⟨left, afterPlaced, gone, old⟩ := placed.dropStack member returned
    constructor
    · intro va onStack
      rw [UnmappedAt, afterPlaced.arranged.mapping_eq (pageOf_lt va),
        gone _ (onStack.contains small)]
      rfl
    · intro vpn vpnLt outside
      rw [afterPlaced.arranged.mapping_eq vpnLt,
        placed.arranged.mapping_eq vpnLt, old vpn]
      intro contains
      obtain ⟨va, onStack, same⟩ := exists_onStack small contains
      exact outside va onStack same

end KernelStacks

/-! ## Stacks and trap contexts -/

/--
In every state that creations and exits of threads lead to, the areas of the
threads of a process are in their places, and so are the kernel stacks.
-/
theorem stacks_and_trapContexts_apart (kernelPage : Nat) :
    (∀ state, ThreadAreas.Reached kernelPage state →
      ThreadAreas.Layout state) ∧
      ∀ state, KernelStacks.Reached kernelPage state →
        KernelStacks.Layout state := by
  constructor
  · intro state reached
    exact reached.layout
  · intro state reached
    obtain ⟨base, pages, placed⟩ := reached.placed
    exact placed.layout

/-- A kernel of five pages, and one page of physical memory. -/
def smallKernel : KernelSymbols where
  stext := 0x80200000
  etext := 0x80202000
  srodata := 0x80202000
  erodata := 0x80203000
  sdata := 0x80203000
  edata := 0x80204000
  sbssWithStack := 0x80204000
  ebss := 0x80205000
  ekernel := memoryEnd - pageSize
  strampoline := 0x80201000
  etext_le := by decide
  erodata_le := by decide
  edata_le := by decide
  ebss_le := by decide

/-- A kernel with one stack. -/
def oneStack : Except Stop KernelStacks := do
  let (kernelSpace, phys) ← newKernel ⟨fun _ _ => .empty,
    .init 0x87000 0x88000 (by decide) frames_small⟩ smallKernel
  KernelStacks.kstackAlloc ⟨kernelSpace, phys, .new, []⟩

theorem oneStack_reached :
    ∃ kernel, kernel.live = [0] ∧ KernelStacks.Reached 0x80201 kernel := by
  obtain ⟨kernel, made⟩ : ∃ kernel, oneStack = .ok kernel := by
    have returns : oneStack.isOk = true := by decide +kernel
    cases made : oneStack with
    | error stop =>
      rw [made] at returns
      cases returns
    | ok kernel => exact ⟨kernel, rfl⟩
  obtain ⟨⟨kernelSpace, phys⟩, spaceEq, allocated⟩ := bind_eq_ok.mp made
  refine ⟨kernel, ?_,
    .kstackAlloc (.start (by rfl) spaceEq) (Nat.two_pow_pos 15) allocated⟩
  obtain ⟨⟨space, spacePhys⟩, _, rest⟩ := bind_eq_ok.mp allocated
  cases rest
  rfl

/-- A process with one page of its own at `0x10000`. -/
def oneSegment : Except Stop (MemorySet × KernelMemory) := do
  let (bare, phys) ← newBare ⟨fun _ _ => .empty,
    .init 0x80300 0x88000 frames_le frames_small⟩
  let (set, phys) ← bare.mapTrampoline phys 0x80201000
  set.insertFramedArea phys 0x10000 0x11000
    ⟨PTEFlags.r ||| PTEFlags.w ||| PTEFlags.u, MapPermission.named_rwu⟩

theorem oneSegment_valid {set : MemorySet} {phys : KernelMemory}
    (made : oneSegment = .ok (set, phys)) : Valid 0x80201 set phys := by
  have kernel :
      ¬ (StackFrameAllocator.init 0x80300 0x88000 (by decide)
        (by decide)).Free 0x80201 :=
    StackFrameAllocator.not_free_init (by decide)
  obtain ⟨⟨bare, barePhys⟩, bareEq, rest⟩ := bind_eq_ok.mp made
  obtain ⟨⟨first, firstPhys⟩, firstEq, lastEq⟩ := bind_eq_ok.mp rest
  exact (Valid.new (by rfl) kernel bareEq firstEq).insertFramedArea
    (by decide) lastEq

theorem oneThread_reached :
    ∃ threads, threads.live = [0] ∧ threads.ustackBase = 0x12000 ∧
      ThreadAreas.Reached 0x80201 threads := by
  obtain ⟨set, phys, made, endEq, baseEq, threads, started, liveEq, sameBase⟩ :
      ∃ set phys, oneSegment = .ok (set, phys) ∧
        (∀ area ∈ set.areas, area.vpnRange.r = 0x11) ∧
        ThreadAreas.userStackBase set = 0x12000 ∧
        ∃ threads,
          ThreadAreas.allocUserRes
              ⟨set, phys, RecycleAllocator.new.alloc.2, 0x12000, [0]⟩ 0 =
            .ok threads ∧
          threads.live = [0] ∧ threads.ustackBase = 0x12000 :=
    ⟨_, _, rfl, List.forall_mem_singleton.mpr rfl, rfl, _, rfl, rfl, rfl⟩
  have created :
      ThreadAreas.newThread
          ⟨set, phys, .new, ThreadAreas.userStackBase set, []⟩ =
        .ok threads := by
    rw [baseEq]
    exact started
  have loaded : ThreadAreas.Loaded 0x80201 set phys := by
    refine ⟨oneSegment_valid made, ?_, ?_⟩
    · intro area member
      rw [endEq area member, baseEq]
      decide
    · rw [baseEq]
      decide
  exact ⟨threads, liveEq, sameBase,
    .newThread (.load loaded) (Nat.two_pow_pos 15) created⟩

/-- A process with one thread, and a kernel with one stack. -/
theorem stacks_and_trapContexts_apart_once :
    ∃ threads kernel,
      (threads.live = [0] ∧ threads.ustackBase = 0x12000 ∧
        ThreadAreas.Reached 0x80201 threads ∧
        ThreadAreas.Layout threads) ∧
      kernel.live = [0] ∧ KernelStacks.Reached 0x80201 kernel ∧
        KernelStacks.Layout kernel := by
  obtain ⟨threads, threadsLive, baseEq, threadsReached⟩ := oneThread_reached
  obtain ⟨kernel, kernelLive, kernelReached⟩ := oneStack_reached
  obtain ⟨threadsLayout, kernelLayout⟩ := stacks_and_trapContexts_apart 0x80201
  exact ⟨threads, kernel,
    ⟨threadsLive, baseEq, threadsReached,
      threadsLayout threads threadsReached⟩,
    kernelLive, kernelReached, kernelLayout kernel kernelReached⟩

end RCoreOS.Kernel
