import RCoreOS.Kernel.ElfSegments
import RCoreOS.Kernel.ThreadAreas

/-!
# The user stack and the segments of a program

`MemorySet::from_elf` returns the address where the user stacks start.  It is
one page above `max_end_vpn`, and in spite of its name that is the end of the
program header that was loaded last: the loop assigns to it for each header
and does not compare.  So the stacks are above the program exactly when no
header ends above the last one, and the last one does not end at the page of
the trampoline, where the sum wraps around.
-/

namespace RCoreOS.Kernel

open Lib.FallibleRuns List Option

/-! ## The property -/

/-- The program headers that `from_elf` loads, in the order of the file. -/
def ElfFile.loads (elf : ElfFile) : List ProgramHeader :=
  elf.programHeaders.filter fun ph => ph.type = some .load

/-- The end of the last header that is loaded. -/
def ElfFile.lastEnd (elf : ElfFile) : Nat :=
  (elf.loads.map fun ph => ceil ph.endVa).getLast?.getD 0

/--
No header ends above the last one, and the page above the last one is a page
of the address space.
-/
def ElfFile.LastEndsHighest (elf : ElfFile) : Prop :=
  ∀ last, elf.loads.getLast? = some last →
    (∀ ph ∈ elf.loads, ceil ph.endVa ≤ ceil last.endVa) ∧
      ceil last.endVa + 1 < 2 ^ 27

/--
The user stacks start at a page, at least one page above the end of each
segment, and no segment has a page of the two areas that `alloc_user_res` maps
for thread 0.
-/
structure MemorySet.StackAbove (set : MemorySet) (userStackBase : Nat) :
    Prop where
  aligned : userStackBase % pageSize = 0
  above :
    ∀ area ∈ set.areas, area.vpnRange.r + 1 ≤ floor (virtAddr userStackBase)
  stack_free :
    let bottom := ustackBottomFromTid userStackBase 0
    let top := (bottom + userStackSize) % 2 ^ 64
    ∀ vpn, floor (virtAddr bottom) ≤ vpn → vpn < ceil (virtAddr top) →
      ∀ area ∈ set.areas, ¬ area.vpnRange.Contains vpn
  trap_context_free :
    let bottom := trapCxBottomFromTid 0
    let top := (bottom + pageSize) % 2 ^ 64
    ∀ vpn, floor (virtAddr bottom) ≤ vpn → vpn < ceil (virtAddr top) →
      ∀ area ∈ set.areas, ¬ area.vpnRange.Contains vpn

/-! ## The ends of the areas -/

namespace MapArea

variable {area result : MapArea} {table after : PageTable}
  {phys afterPhys : KernelMemory}

theorem mapOne_vpnRange {vpn : Nat}
    (returned :
      area.mapOne table phys vpn = .ok (result, after, afterPhys)) :
    result.vpnRange = area.vpnRange := by
  rw [mapOne] at returned
  cases kind : area.mapType with
  | identical =>
    rw [kind] at returned
    obtain ⟨_, _, rest⟩ := bind_eq_ok.mp returned
    cases rest
    rfl
  | framed =>
    rw [kind] at returned
    obtain ⟨_, _, rest⟩ := bind_eq_ok.mp returned
    obtain ⟨_, _, rest⟩ := bind_eq_ok.mp rest
    obtain ⟨_, _, rest⟩ := bind_eq_ok.mp rest
    cases rest
    rfl

theorem mapPages_vpnRange {vpns : List Nat}
    (returned :
      area.mapPages table phys vpns = .ok (result, after, afterPhys)) :
    result.vpnRange = area.vpnRange := by
  induction vpns generalizing area table phys with
  | nil =>
    cases returned
    rfl
  | cons vpn rest ih =>
    obtain ⟨⟨next, _, _⟩, mapped, looped⟩ := bind_eq_ok.mp returned
    exact (ih looped).trans (mapOne_vpnRange mapped)

end MapArea

namespace MemorySet

variable {set final : MemorySet} {phys after : KernelMemory} {text : Nat}

/-- The pages behind the areas. -/
def ends (set : MemorySet) : List Nat :=
  set.areas.map fun area => area.vpnRange.r

theorem pushData_ends {area : MapArea} {data : List UInt8}
    (returned : set.pushData phys area text data = .ok (final, after)) :
    final.ends = set.ends ++ [area.vpnRange.r] := by
  obtain ⟨⟨result, _, _⟩, mapped, rest⟩ := bind_eq_ok.mp returned
  obtain ⟨_, _, rest⟩ := bind_eq_ok.mp rest
  cases rest
  have rangeEq : result.vpnRange = area.vpnRange :=
    MapArea.mapPages_vpnRange mapped
  simp [ends, rangeEq]

/--
The loop adds an area for each header that it loads, and what it returns is
the end of the last one.
-/
theorem loadHeaders_ends {input : List UInt8}
    {headers : List ProgramHeader} {maxEndVpn lastEndVpn : Nat}
    (returned :
      set.loadHeaders phys text input maxEndVpn headers =
        .ok (final, after, lastEndVpn)) :
    let loaded :=
      (headers.filter fun ph => ph.type = some .load).map
        fun ph => ceil ph.endVa
    final.ends = set.ends ++ loaded ∧
      lastEndVpn = loaded.getLast?.getD maxEndVpn := by
  induction headers generalizing set phys maxEndVpn with
  | nil =>
    cases returned
    simp
  | cons ph rest ih =>
    rcases loadHeaders_cons_eq_ok returned with
      ⟨kind, returned⟩ | ⟨kind, _, range, next, between, _, endEq, _, _,
        pushed, looped⟩
    · have skipped := ih returned
      rw [filter_cons_of_neg (by simp [kind])]
      exact skipped
    · obtain ⟨laterEnds, lastEq⟩ := ih looped
      rw [filter_cons_of_pos (by simp [kind]), map_cons]
      constructor
      · rw [laterEnds, pushData_ends pushed, endEq]
        simp
      · rw [lastEq, getLast?_cons, getD_some, endEq]

/-- The areas of a program, and the address where its stacks start. -/
theorem fromElf_ends {before : KernelMemory} {strampoline : Nat}
    {elf : ElfFile} {userStackBase entryPoint : Nat}
    (returned :
      fromElf before strampoline elf =
        .ok (set, userStackBase, entryPoint, after)) :
    set.ends = elf.loads.map (fun ph => ceil ph.endVa) ∧
      userStackBase =
        (usizeOfVirtAddr (elf.lastEnd * pageSize % 2 ^ 64) + pageSize) %
          2 ^ 64 := by
  obtain ⟨bare, between, mapped, mappedPhys, page, lastEndVpn, bareEq,
    mappedEq, pageEq, loadEq, baseEq⟩ := fromElf_eq_ok returned
  obtain ⟨endsEq, lastEq⟩ := loadHeaders_ends loadEq
  obtain ⟨noAreas, _⟩ :
      mapped.areas = [] ∧
        ∃ pages,
          Spans (fun _ => False) page mapped.areas mapped.pageTable
            mappedPhys pages :=
    Spans.new pageEq False.elim bareEq mappedEq
  have noEnds : mapped.ends = [] := by
    rw [ends, noAreas, map_nil]
  constructor
  · rw [endsEq, noEnds, nil_append, ElfFile.loads]
  · rw [baseEq, lastEq, ElfFile.lastEnd, ElfFile.loads]

end MemorySet

/-! ## The address where the stacks start -/

theorem ElfFile.lastEnd_eq {elf : ElfFile} {last : ProgramHeader}
    (isLast : elf.loads.getLast? = some last) :
    elf.lastEnd = ceil last.endVa := by
  rw [lastEnd, getLast?_map, isLast, map_some, getD_some]

theorem ElfFile.lastEnd_le (elf : ElfFile) : elf.lastEnd ≤ 2 ^ 27 := by
  cases isLast : elf.loads.getLast? with
  | none =>
    rw [lastEnd, getLast?_map, isLast, map_none, getD_none]
    exact Nat.zero_le _
  | some last =>
    rw [lastEnd_eq isLast]
    exact last.ceil_endVa_le

/-- The stacks start at the page behind the last segment, modulo all pages. -/
theorem stackBase_page {last userStackBase : Nat} (lastLe : last ≤ 2 ^ 27)
    (baseEq :
      userStackBase =
        (usizeOfVirtAddr (last * pageSize % 2 ^ 64) + pageSize) % 2 ^ 64) :
    userStackBase % pageSize = 0 ∧ userStackBase < 2 ^ 64 ∧
      floor (virtAddr userStackBase) = (last + 1) % 2 ^ 27 := by
  have noWrap : last * pageSize % 2 ^ 64 = last * pageSize := by
    rw [pageSize]
    omega
  rw [noWrap] at baseEq
  rw [virtAddr_eq_mod, floor]
  rcases Nat.lt_or_ge last (2 ^ 26) with low | high
  · rw [usizeOfVirtAddr_of_lt (by rw [pageSize]; omega), pageSize] at baseEq
    rw [pageSize]
    omega
  · rcases Nat.lt_or_eq_of_le lastLe with inside | atEnd
    · rw [usizeOfVirtAddr_of_ge (by rw [pageSize]; omega)
        (by rw [pageSize]; omega), pageSize] at baseEq
      rw [pageSize]
      omega
    · rw [atEnd] at baseEq ⊢
      have value : userStackBase = 2 ^ 64 - 2 ^ 39 + 4096 := by
        rw [baseEq]
        decide
      rw [value]
      decide

namespace MemorySet

variable {set : MemorySet} {userStackBase : Nat}

/-- Where the areas end below the stacks, they have no page of thread 0. -/
theorem StackAbove.of_above (aligned : userStackBase % pageSize = 0)
    (small : userStackBase < 2 ^ 64)
    (above :
      ∀ area ∈ set.areas,
        area.vpnRange.r + 1 ≤ floor (virtAddr userStackBase)) :
    StackAbove set userStackBase where
  aligned := aligned
  above := above
  stack_free := by
    intro bottom top vpn fromBottom _ area member contains
    have bottomEq : bottom = userStackBase := by
      show (userStackBase + 0 * _) % 2 ^ 64 = _
      rw [Nat.zero_mul, Nat.add_zero, Nat.mod_eq_of_lt small]
    rw [bottomEq] at fromBottom
    have inside : vpn < area.vpnRange.r := contains.2
    have below := above area member
    omega
  trap_context_free := by
    intro bottom top vpn fromBottom _ area member contains
    have bottomEq : floor (virtAddr bottom) = 2 ^ 27 - 2 :=
      (ThreadAreas.trapCx_pages (Nat.two_pow_pos 15)).1
    rw [bottomEq] at fromBottom
    have inside : vpn < area.vpnRange.r := contains.2
    have below := above area member
    have pages : floor (virtAddr userStackBase) < 2 ^ 27 :=
      pageOf_lt userStackBase
    omega

/--
The stacks of a program that `from_elf` loaded are above its segments exactly
when no header ends above the last one, and the last one ends below the page
of the trampoline.
-/
theorem stack_above_program_iff
    (before : KernelMemory) (strampoline : Nat) (elf : ElfFile)
    (set : MemorySet) (userStackBase entryPoint : Nat) (after : KernelMemory)
    (returned :
      fromElf before strampoline elf =
        .ok (set, userStackBase, entryPoint, after)) :
    StackAbove set userStackBase ↔ elf.LastEndsHighest := by
  obtain ⟨endsEq, baseEq⟩ := fromElf_ends returned
  have areaEnds (area : MapArea) (member : area ∈ set.areas) :
      ∃ ph ∈ elf.loads, ceil ph.endVa = area.vpnRange.r := by
    have listed : area.vpnRange.r ∈ set.ends := mem_map.mpr ⟨area, member, rfl⟩
    rw [endsEq] at listed
    exact mem_map.mp listed
  have endsArea (ph : ProgramHeader) (member : ph ∈ elf.loads) :
      ∃ area ∈ set.areas, area.vpnRange.r = ceil ph.endVa := by
    have listed : ceil ph.endVa ∈ set.ends := by
      rw [endsEq]
      exact mem_map.mpr ⟨ph, member, rfl⟩
    exact mem_map.mp listed
  obtain ⟨aligned, small, pageEq⟩ := stackBase_page elf.lastEnd_le baseEq
  constructor
  · intro stackAbove last isLast
    rw [ElfFile.lastEnd_eq isLast] at pageEq
    have bound (ph : ProgramHeader) (member : ph ∈ elf.loads) :
        ceil ph.endVa + 1 ≤ (ceil last.endVa + 1) % 2 ^ 27 := by
      obtain ⟨area, areaMember, endEq⟩ := endsArea ph member
      have above := stackAbove.above area areaMember
      rw [endEq, pageEq] at above
      exact above
    have lastBound := bound last (mem_of_getLast? isLast)
    have remainder := Nat.mod_le (ceil last.endVa + 1) (2 ^ 27)
    have inside := Nat.mod_lt (ceil last.endVa + 1) (Nat.two_pow_pos 27)
    constructor
    · intro ph member
      have phBound := bound ph member
      omega
    · omega
  · intro highest
    apply StackAbove.of_above aligned small
    intro area member
    obtain ⟨ph, phMember, endEq⟩ := areaEnds area member
    cases isLast : elf.loads.getLast? with
    | none =>
      rw [getLast?_eq_none_iff.mp isLast] at phMember
      cases phMember
    | some last =>
      obtain ⟨below, inside⟩ := highest last isLast
      rw [pageEq, ElfFile.lastEnd_eq isLast, Nat.mod_eq_of_lt inside, ← endEq]
      exact Nat.succ_le_succ (below ph phMember)

/-- The stacks of a program of one segment are above it. -/
theorem stack_above_program_iff_one :
    ∃ set userStackBase entryPoint after,
      fromElf clearedMemory 0x80201000 (oneByteElf 0x1000) =
          .ok (set, userStackBase, entryPoint, after) ∧
        StackAbove set userStackBase := by
  obtain ⟨set, base, entryPoint, after, returned⟩ :=
    oneByteElf_returns 0x1000 rfl
  refine ⟨set, base, entryPoint, after, returned, ?_⟩
  apply (stack_above_program_iff clearedMemory 0x80201000
    (oneByteElf 0x1000) set base entryPoint after returned).mpr
  intro last isLast
  have lastEq : oneByteHeader 0x1000 = last := Option.some.inj isLast
  subst lastEq
  constructor
  · intro ph member
    rw [mem_singleton.mp member]
  · decide +kernel

/-! ## Two segments, the higher one first -/

/-- A segment of one page of zeros. -/
def zeroHeader (virtualAddr : BitVec 64) : ProgramHeader :=
  ⟨some .load, true, true, false, 0, virtualAddr, 0, 0x1000⟩

/-- The page at `0x4000` is loaded before the page at `0x1000`. -/
def descendingElf : ElfFile :=
  ⟨[], [0x7f, 0x45, 0x4c, 0x46], 0x1000,
    [zeroHeader 0x4000, zeroHeader 0x1000]⟩

/-- A segment without bytes in the file only maps its pages. -/
theorem pushData_nil {phys after : KernelMemory} {area result : MapArea}
    {table : PageTable} (text : Nat) {entry : PageTableEntry}
    (mapped : area.map set.pageTable phys = .ok (result, table, after))
    (framed : result.mapType = .framed)
    (translated :
      table.translate after.memory result.vpnRange.l = some entry) :
    set.pushData phys area text [] =
      .ok (⟨table, set.areas ++ [result]⟩, after) := by
  apply bind_eq_ok.mpr
  refine ⟨_, mapped, bind_eq_ok.mpr ⟨after, ?_, rfl⟩⟩
  rw [MapArea.copyData, if_pos framed,
    copyLoop_of_le (Nat.zero_le _) translated]
  rfl

theorem descendingElf_returns :
    ∃ set userStackBase entryPoint after,
      fromElf clearedMemory 0x80201000 descendingElf =
        .ok (set, userStackBase, entryPoint, after) := by
  obtain ⟨bare, between, child, phys, bareEq, trampolineEq, first, table,
      mapped, firstEq, framed, entry, found, second, lastTable, lastPhys,
      secondEq, lastFramed, lastEntry, lastFound⟩ :
      ∃ bare between child phys,
        newBare clearedMemory = .ok (bare, between) ∧
          bare.mapTrampoline between 0x80201000 = .ok (child, phys) ∧
          ∃ first table mapped,
            MapArea.map
                ⟨⟨4, 5, by decide⟩, ∅, .framed, (zeroHeader 0).mapPerm⟩
                child.pageTable phys =
              .ok (first, table, mapped) ∧
            first.mapType = .framed ∧
            ∃ entry,
              table.translate mapped.memory first.vpnRange.l = some entry ∧
                ∃ second lastTable lastPhys,
                  MapArea.map
                      ⟨⟨1, 2, by decide⟩, ∅, .framed, (zeroHeader 0).mapPerm⟩
                      table mapped =
                    .ok (second, lastTable, lastPhys) ∧
                  second.mapType = .framed ∧
                  ∃ lastEntry,
                    lastTable.translate lastPhys.memory second.vpnRange.l =
                      some lastEntry :=
    ⟨_, _, _, _, rfl, rfl, _, _, _, rfl, rfl, _, rfl, _, _, _, rfl, rfl, _,
      rfl⟩
  have firstPushed := pushData_nil 0x80201 firstEq framed found
  have secondPushed :
      MemorySet.pushData ⟨table, child.areas ++ [first]⟩ mapped _ 0x80201
          [] =
        .ok (⟨lastTable, child.areas ++ [first] ++ [second]⟩, lastPhys) :=
    pushData_nil 0x80201 secondEq lastFramed lastFound
  exact ⟨_, _, _, _, bind_eq_ok.mpr ⟨_, bareEq,
    bind_eq_ok.mpr ⟨_, trampolineEq, bind_eq_ok.mpr ⟨0x80201, rfl,
      bind_eq_ok.mpr ⟨_,
        bind_eq_ok.mpr ⟨_, rfl, bind_eq_ok.mpr ⟨[], rfl,
          bind_eq_ok.mpr ⟨_, firstPushed,
            bind_eq_ok.mpr ⟨_, rfl, bind_eq_ok.mpr ⟨[], rfl,
              bind_eq_ok.mpr ⟨_, secondPushed, rfl⟩⟩⟩⟩⟩⟩,
        rfl⟩⟩⟩⟩⟩

/--
The stack of thread 0 starts at `0x3000`, and its second page is the page of
the segment that was loaded first.
-/
theorem descending_program_in_stack :
    ∃ set userStackBase entryPoint after,
      fromElf clearedMemory 0x80201000 descendingElf =
          .ok (set, userStackBase, entryPoint, after) ∧
        userStackBase = 0x3000 ∧
        (∃ area ∈ set.areas, area.vpnRange.Contains 4) ∧
        ¬ StackAbove set userStackBase := by
  obtain ⟨set, base, entryPoint, after, returned⟩ := descendingElf_returns
  have baseIs : base = 0x3000 := by
    rw [(fromElf_ends returned).2]
    decide +kernel
  obtain ⟨_, hasAreas⟩ :=
    Image.fromElf (show pageNum (physAddr 0x80201000) = .ok 0x80201 from rfl)
      clearedMemory_kernel returned
  obtain ⟨area, member, startEq, endEq, _⟩ :=
    hasAreas (zeroHeader 0x4000) mem_cons_self rfl
  have contains : area.vpnRange.Contains 4 := by
    rw [VPNRange.Contains, startEq, endEq]
    decide +kernel
  refine ⟨set, base, entryPoint, after, returned, baseIs,
    ⟨area, member, contains⟩, ?_⟩
  intro stackAbove
  rw [baseIs] at stackAbove
  exact stackAbove.stack_free 4 (by decide) (by decide) area member contains

end MemorySet

end RCoreOS.Kernel
