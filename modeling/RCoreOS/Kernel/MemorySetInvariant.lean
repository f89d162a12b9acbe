import RCoreOS.Kernel.AddressSpace

/-!
# Runs of a memory set

Every operation on a `MemorySet` keeps the representation invariant, and the
operations that remove pages give back the frames of those pages.
-/

namespace RCoreOS.Kernel.MemorySet

open Lib.FallibleRuns PageTable Kernel.VPNRange List RCoreOS.Kernel.MapArea RCoreOS.Kernel.StackFrameAllocator

variable {kernelPage : Nat} {set after : MemorySet}
  {phys afterPhys : KernelMemory} {pages : Pages}

/-- The invariant, for some map of pages. -/
def Valid (kernelPage : Nat) (set : MemorySet) (phys : KernelMemory) : Prop :=
  ∃ pages, Represents kernelPage set.areas set.pageTable phys pages

theorem ceil_le {va : Nat} (small : va < 2 ^ 39) : ceil va ≤ 2 ^ 27 := by
  rw [ceil, pageSize]
  omega

variable {strampoline : Nat} {area : MapArea} {owned : Nat → Prop}
  {before behind : List MapArea}

theorem pageNum_physAddr_lt
    (kernelEq : pageNum (physAddr strampoline) = .ok kernelPage) :
    kernelPage < 2 ^ 44 := by
  rw [pageNum] at kernelEq
  split at kernelEq
  · cases kernelEq
    rw [floor, physAddr, pageSize, Nat.and_two_pow_sub_one_eq_mod]
    omega
  · cases kernelEq

/-- An area from which every page was removed has nothing to drop. -/
theorem drop_of_empty (empty : ∀ vpn, area.dataFrames.lookup vpn = none) :
    area.drop phys = .ok phys := by
  rw [MapArea.drop]
  cases entries : area.dataFrames.entries with
  | nil => rfl
  | cons head tail =>
    have present : head.1 ∈ area.dataFrames := by
      rw [AList.mem_keys, AList.keys, entries]
      exact mem_cons_self
    rw [← AList.lookup_isSome, empty] at present
    cases present

variable {startVa endVa startVpn start newEnd : Nat}
  {permission : MapPermission} {flag : Bool} {between : KernelMemory}
  {bare : MemorySet}

/-- The new area is behind the old ones, and its pages were not mapped. -/
theorem Spans.insertFramedArea
    (spans : Spans owned kernelPage set.areas set.pageTable phys pages)
    (endLt : endVa < 2 ^ 39)
    (own : ∀ vpn, floor startVa ≤ vpn → vpn < ceil endVa → owned vpn)
    (returned :
      set.insertFramedArea phys startVa endVa permission =
        .ok (after, afterPhys)) :
    ∃ range result added,
      VPNRange.new (floor startVa) (ceil endVa) = .ok range ∧
        after.areas = set.areas ++ [result] ∧
        result.shape = (range, .framed, permission) ∧
        (∀ vpn, ¬ range.Contains vpn → added vpn = pages vpn) ∧
        Spans owned kernelPage after.areas after.pageTable afterPhys
          added := by
  obtain ⟨area, areaEq, rest⟩ := bind_eq_ok.mp returned
  obtain ⟨range, rangeEq, areaRest⟩ := bind_eq_ok.mp areaEq
  cases areaRest
  obtain ⟨_, startEq, endEq⟩ := new_eq_ok rangeEq
  obtain ⟨⟨result, table, between⟩, mapEq, rest⟩ := bind_eq_ok.mp rest
  cases rest
  have r_le : range.r ≤ 2 ^ 27 := by
    rw [endEq]
    exact ceil_le endLt
  obtain ⟨added, adds, maps⟩ :=
    mapPages_maps spans.maps (.range rfl r_le fun _ => rfl) mapEq
  refine ⟨range, result, added, rangeEq, rfl, adds.shape.shape_eq, ?_, ?_⟩
  · intro vpn outside
    rw [← mem_toList] at outside
    exact (adds.old vpn outside).1
  · refine (spans.insertFramed adds rfl r_le (fun _ => rfl) ?_ maps).perm
      (perm_append_singleton result set.areas)
    intro vpn contains
    rw [VPNRange.Contains] at contains
    dsimp only at contains
    rw [startEq, endEq] at contains
    exact own vpn contains.1 contains.2

theorem Valid.insertFramedArea (valid : Valid kernelPage set phys)
    (endLt : endVa < 2 ^ 39)
    (returned :
      set.insertFramedArea phys startVa endVa permission =
        .ok (after, afterPhys)) :
    Valid kernelPage after afterPhys := by
  obtain ⟨pages, represents⟩ := valid
  obtain ⟨range, result, added, _, areasEq, shapeEq, _, spans⟩ :=
    represents.spans.insertFramedArea endLt (fun _ _ _ => trivial) returned
  refine ⟨added, spans.represents ?_⟩
  rw [areasEq]
  intro area member
  rcases mem_append.mp member with old | new
  · exact (represents.holds area old).framed
  · rw [mem_singleton.mp new]
    exact congrArg (fun shape => shape.2.1) shapeEq

/-- The frames that a call gives back, when it removes pages. -/
def GivesBack (phys afterPhys : KernelMemory) (frames : List Nat) : Prop :=
  afterPhys.allocator.recycled = phys.allocator.recycled ++ frames ∧
    afterPhys.allocator.current = phys.allocator.current

/-- A framed area is removed with its pages, and its frames are given back. -/
theorem Spans.removeArea
    (spans : Spans owned kernelPage set.areas set.pageTable phys pages)
    (found : findArea startVpn set.areas = some (before, area, behind))
    (framed : area.mapType = .framed)
    (returned :
      set.removeAreaWithStartVpn phys startVpn = .ok (after, afterPhys)) :
    ∃ left,
      after.areas = before ++ behind ∧
        (∀ vpn, area.vpnRange.Contains vpn → left vpn = none) ∧
        (∀ vpn, ¬ area.vpnRange.Contains vpn → left vpn = pages vpn) ∧
        Spans owned kernelPage after.areas after.pageTable afterPhys left ∧
        GivesBack phys afterPhys (area.framesOf area.vpnRange.toList) := by
  obtain ⟨split, _⟩ := findArea_eq_some found
  have focused := spans.perm
    (split ▸ perm_middle.symm : (area :: (before ++ behind)).Perm _)
  obtain ⟨areaHolds, own⟩ := focused.framed area mem_cons_self framed
  rw [removeAreaWithStartVpn, found] at returned
  obtain ⟨⟨result, between⟩, unmapEq, rest⟩ := bind_eq_ok.mp returned
  obtain ⟨dropped, dropEq, rest⟩ := bind_eq_ok.mp rest
  cases rest
  obtain ⟨left, removes, maps, recycledEq, currentEq⟩ :=
    unmapPages_maps focused.maps framed
      (fun vpn member => by
        have contains := mem_toList.mp member
        obtain ⟨frame, lookupEq, present⟩ := areaHolds.page vpn contains
        exact ⟨own vpn contains, frame, _, lookupEq, present⟩)
      area.vpnRange.nodup_toList unmapEq
  have empty : ∀ vpn, result.dataFrames.lookup vpn = none := by
    intro vpn
    by_cases member : vpn ∈ area.vpnRange.toList
    · exact (removes.gone vpn member).2
    · rw [(removes.old vpn member).2]
      exact areaHolds.lookup_none vpn fun contains =>
        member (mem_toList.mpr contains)
  rw [drop_of_empty empty] at dropEq
  cases dropEq
  refine ⟨left, rfl, ?_, ?_, focused.removeFramed removes maps, recycledEq,
    currentEq⟩
  · intro vpn contains
    exact (removes.gone vpn (mem_toList.mpr contains)).1
  · intro vpn outside
    rw [← mem_toList] at outside
    exact (removes.old vpn outside).1

section

variable (valid : Valid kernelPage set phys)

include valid

theorem Valid.removeArea
    (found : findArea startVpn set.areas = some (before, area, behind))
    (returned :
      set.removeAreaWithStartVpn phys startVpn = .ok (after, afterPhys)) :
    Valid kernelPage after afterPhys ∧
      GivesBack phys afterPhys (area.framesOf area.vpnRange.toList) := by
  obtain ⟨pages, represents⟩ := valid
  obtain ⟨split, _⟩ := findArea_eq_some found
  have framed : ∀ other ∈ set.areas, other.mapType = .framed :=
    fun other member => (represents.holds other member).framed
  rw [split] at framed
  obtain ⟨left, areasEq, _, _, spans, givesBack⟩ :=
    represents.spans.removeArea found (framed area (by simp)) returned
  refine ⟨⟨left, spans.represents ?_⟩, givesBack⟩
  rw [areasEq]
  intro other member
  apply framed other
  rcases mem_append.mp member with inBefore | inBehind
  · exact mem_append_left _ inBefore
  · exact mem_append_right _ (mem_cons_of_mem _ inBehind)

theorem Valid.shrinkArea
    (found : findArea (floor start) set.areas = some (before, area, behind))
    (returned :
      set.shrinkTo phys start newEnd = .ok (flag, after, afterPhys)) :
    Valid kernelPage after afterPhys ∧
      GivesBack phys afterPhys
        (area.framesOf
          (List.range' (ceil newEnd) (area.vpnRange.r - ceil newEnd))) := by
  obtain ⟨pages, represents⟩ := valid
  obtain ⟨split, _⟩ := findArea_eq_some found
  have focused := represents.perm
    (split ▸ perm_middle.symm : (area :: (before ++ behind)).Perm _)
  have areaHolds := focused.holds area mem_cons_self
  rw [shrinkTo, found] at returned
  obtain ⟨⟨shrunk, between⟩, shrinkEq, rest⟩ := bind_eq_ok.mp returned
  cases rest
  obtain ⟨removed, removedEq, rest⟩ := bind_eq_ok.mp shrinkEq
  obtain ⟨⟨result, unmapped⟩, unmapEq, rest⟩ := bind_eq_ok.mp rest
  obtain ⟨range, rangeEq, rest⟩ := bind_eq_ok.mp rest
  cases rest
  obtain ⟨_, removedStart, removedEnd⟩ := new_eq_ok removedEq
  obtain ⟨startLe, rangeStart, rangeEnd⟩ := new_eq_ok rangeEq
  -- the second assertion rules out pages in front of the area
  rw [unmapPages_range unmapEq] at startLe rangeStart
  have inArea :
      ∀ vpn ∈ removed.toList, area.vpnRange.Contains vpn := by
    intro vpn member
    rw [mem_toList, VPNRange.Contains] at member
    rw [VPNRange.Contains]
    omega
  obtain ⟨left, removes, backs, recycledEq, currentEq⟩ :=
    unmapPages_spec focused.backs areaHolds.framed
      (fun vpn member => by
        obtain ⟨frame, lookupEq, present⟩ :=
          areaHolds.page vpn (inArea vpn member)
        exact ⟨frame, _, lookupEq, present⟩)
      removed.nodup_toList unmapEq
  refine ⟨⟨left, ?_⟩, ?_, currentEq⟩
  · exact (focused.shrink removes rangeStart
      (rangeEnd.trans removedStart.symm) removedEnd backs).perm
      perm_middle
  · rw [recycledEq, VPNRange.toList, removedStart, removedEnd]

theorem Valid.appendArea (endLt : newEnd < 2 ^ 39)
    (found : findArea (floor start) set.areas = some (before, area, behind))
    (returned :
      set.appendTo phys start newEnd = .ok (flag, after, afterPhys)) :
    Valid kernelPage after afterPhys := by
  obtain ⟨pages, represents⟩ := valid
  obtain ⟨split, _⟩ := findArea_eq_some found
  have focused := represents.perm
    (split ▸ perm_middle.symm : (area :: (before ++ behind)).Perm _)
  have areaHolds := focused.holds area mem_cons_self
  rw [appendTo, found] at returned
  obtain ⟨⟨grown, table, between⟩, appendEq, rest⟩ := bind_eq_ok.mp returned
  cases rest
  obtain ⟨extra, extraEq, rest⟩ := bind_eq_ok.mp appendEq
  obtain ⟨⟨result, mapped, mappedPhys⟩, mapEq, rest⟩ := bind_eq_ok.mp rest
  obtain ⟨range, rangeEq, rest⟩ := bind_eq_ok.mp rest
  cases rest
  obtain ⟨_, extraStart, extraEnd⟩ := new_eq_ok extraEq
  obtain ⟨_, rangeStart, rangeEnd⟩ := new_eq_ok rangeEq
  have r_le : extra.r ≤ 2 ^ 27 := by
    rw [extraEnd]
    exact ceil_le endLt
  obtain ⟨added, adds, backs⟩ :=
    mapPages_spec focused.backs
      ⟨areaHolds.framed,
        fun vpn member => Nat.lt_of_lt_of_le (mem_toList.mp member).2 r_le,
        fun vpn member => areaHolds.lookup_none vpn fun contains => by
          have behindArea := (mem_toList.mp member).1
          have inside := contains.2
          omega,
        extra.nodup_toList⟩ mapEq
  rw [adds.shape.range_eq] at rangeStart
  refine ⟨added, ?_⟩
  exact (focused.append adds rangeStart (rangeEnd.trans extraEnd.symm)
    extraStart r_le backs).perm perm_middle

end

/-- A new memory set has the trampoline and no areas. -/
theorem Spans.new {before : KernelMemory}
    (kernelEq : pageNum (physAddr strampoline) = .ok kernelPage)
    (kernel : owned trampolineVpn → ¬ before.allocator.Free kernelPage)
    (bareEq : newBare before = .ok (bare, between))
    (mapped : bare.mapTrampoline between strampoline = .ok (after, afterPhys)) :
    after.areas = [] ∧
      ∃ pages,
        Spans owned kernelPage after.areas after.pageTable afterPhys
          pages := by
  obtain ⟨⟨table, tablePhys⟩, tableEq, rest⟩ := bind_eq_ok.mp bareEq
  cases rest
  obtain ⟨maps, keeps⟩ : Maps owned (fun _ => none) table between ∧ _ :=
    Maps.new tableEq
  obtain ⟨vpn, vpnEq, rest⟩ := bind_eq_ok.mp mapped
  obtain ⟨ppn, ppnEq, rest⟩ := bind_eq_ok.mp rest
  rw [pageNum_trampoline] at vpnEq
  rw [kernelEq] at ppnEq
  cases vpnEq
  cases ppnEq
  obtain ⟨⟨mappedTable, mappedPhys⟩, mapEq, rest⟩ := bind_eq_ok.mp rest
  cases rest
  obtain ⟨_, mappedMaps⟩ :=
    maps.map (by decide) (pageNum_physAddr_lt kernelEq)
      (fun isOwned =>
        ⟨(keeps kernelPage (kernel isOwned)).1,
          (keeps kernelPage (kernel isOwned)).2, nofun⟩)
      mapEq
  refine ⟨rfl, _, mappedMaps, Function.update_self _ _ _, nofun, nofun, nofun,
    List.Pairwise.nil, nofun, ?_⟩
  intro vpn page present
  by_cases same : vpn = trampolineVpn
  · exact .inl same
  · rw [Function.update_of_ne same] at present
    cases present

theorem Valid.new {before : KernelMemory}
    (kernelEq : pageNum (physAddr strampoline) = .ok kernelPage)
    (kernel : ¬ before.allocator.Free kernelPage)
    (bareEq : newBare before = .ok (bare, between))
    (mapped : bare.mapTrampoline between strampoline = .ok (after, afterPhys)) :
    Valid kernelPage after afterPhys := by
  obtain ⟨empty, pages, spans⟩ :=
    Spans.new kernelEq (fun _ => kernel) bareEq mapped
  refine ⟨pages, spans.represents fun area member => ?_⟩
  rw [empty] at member
  cases member

/-- A frame that the memory set uses. -/
def Uses (kernelPage : Nat) (set : MemorySet) (ppn : Nat) : Prop :=
  ppn ∈ set.pageTable.frames ∨ ppn = kernelPage ∨
    ∃ area ∈ set.areas, ∃ vpn, area.dataFrames.lookup vpn = some ppn

section

variable
  (kept :
    ∀ ppn ∈ set.pageTable.frames, afterPhys.memory ppn = phys.memory ppn)
  (inUse : ∀ ppn, Uses kernelPage set ppn → ¬ afterPhys.allocator.Free ppn)

include kept inUse

/-- The rest of the kernel may change what the memory set does not use. -/
theorem Spans.others
    (spans : Spans owned kernelPage set.areas set.pageTable phys pages) :
    Spans owned kernelPage set.areas set.pageTable afterPhys pages := by
  obtain ⟨shaped, same⟩ := spans.maps.shaped.others kept fun ppn member =>
    inUse ppn (.inl member)
  have ownedInUse :
      ∀ {vpn page}, owned vpn → pages vpn = some page →
        ¬ afterPhys.allocator.Free page.1 := by
    intro vpn page isOwned present
    apply inUse
    rcases spans.covered vpn page present with rfl | inArea
    · rw [spans.trampoline_page] at present
      cases present
      exact .inr (.inl rfl)
    · obtain ⟨area, member, contains⟩ := inArea
      cases kind : area.mapType with
      | identical =>
        exact absurd isOwned (spans.identical area member kind vpn contains)
      | framed =>
        obtain ⟨frame, found, holds⟩ :=
          (spans.framed area member kind).1.page vpn contains
        rw [holds] at present
        cases present
        exact .inr (.inr ⟨area, member, vpn, found⟩)
  refine { spans with maps := ?_ }
  refine { spans.maps with shaped, inUse := ownedInUse, mapping_eq := ?_ }
  intro vpn vpnLt
  rw [mapping, same, ← mapping, spans.maps.mapping_eq vpn vpnLt]

theorem Represents.others
    (represents : Represents kernelPage set.areas set.pageTable phys pages) :
    Represents kernelPage set.areas set.pageTable afterPhys pages :=
  (represents.spans.others kept inUse).represents fun area member =>
    (represents.holds area member).framed

end

theorem Valid.others (valid : Valid kernelPage set phys)
    (kept :
      ∀ ppn ∈ set.pageTable.frames, afterPhys.memory ppn = phys.memory ppn)
    (inUse : ∀ ppn, Uses kernelPage set ppn → ¬ afterPhys.allocator.Free ppn) :
    Valid kernelPage set afterPhys := by
  obtain ⟨pages, represents⟩ := valid
  exact ⟨pages, represents.others kept inUse⟩

/-! ## Runs -/

/--
The memory sets that operations can lead to.  The trampoline is a page of the
kernel's image, which the allocator does not hand out.
-/
inductive Reached (kernelPage : Nat) : MemorySet → KernelMemory → Prop where
  | new {before between phys : KernelMemory} {bare set : MemorySet}
      {strampoline : Nat}
      (kernelEq : pageNum (physAddr strampoline) = .ok kernelPage)
      (kernel : ¬ before.allocator.Free kernelPage)
      (bareEq : newBare before = .ok (bare, between))
      (mapped : bare.mapTrampoline between strampoline = .ok (set, phys)) :
      Reached kernelPage set phys
  | insertFramedArea {set after : MemorySet} {phys afterPhys : KernelMemory}
      {startVa endVa : Nat} {permission : MapPermission}
      (reached : Reached kernelPage set phys)
      (startLt : startVa < 2 ^ 39) (endLt : endVa < 2 ^ 39)
      (returned :
        set.insertFramedArea phys startVa endVa permission =
          .ok (after, afterPhys)) :
      Reached kernelPage after afterPhys
  | removeArea {set after : MemorySet} {phys afterPhys : KernelMemory}
      {startVpn : Nat}
      (reached : Reached kernelPage set phys)
      (returned :
        set.removeAreaWithStartVpn phys startVpn = .ok (after, afterPhys)) :
      Reached kernelPage after afterPhys
  | appendTo {set after : MemorySet} {phys afterPhys : KernelMemory}
      {start newEnd : Nat} {flag : Bool}
      (reached : Reached kernelPage set phys)
      (startLt : start < 2 ^ 39) (endLt : newEnd < 2 ^ 39)
      (returned :
        set.appendTo phys start newEnd = .ok (flag, after, afterPhys)) :
      Reached kernelPage after afterPhys
  | shrinkTo {set after : MemorySet} {phys afterPhys : KernelMemory}
      {start newEnd : Nat} {flag : Bool}
      (reached : Reached kernelPage set phys)
      (startLt : start < 2 ^ 39) (endLt : newEnd < 2 ^ 39)
      (returned :
        set.shrinkTo phys start newEnd = .ok (flag, after, afterPhys)) :
      Reached kernelPage after afterPhys
  | others {set : MemorySet} {phys afterPhys : KernelMemory}
      (reached : Reached kernelPage set phys)
      (kept :
        ∀ ppn ∈ set.pageTable.frames, afterPhys.memory ppn = phys.memory ppn)
      (inUse :
        ∀ ppn, Uses kernelPage set ppn → ¬ afterPhys.allocator.Free ppn) :
      Reached kernelPage set afterPhys

theorem Reached.valid (reached : Reached kernelPage set phys) :
    Valid kernelPage set phys := by
  induction reached with
  | new kernelEq kernel bareEq mapped =>
    exact .new kernelEq kernel bareEq mapped
  | insertFramedArea _ _ endLt returned induction =>
    exact induction.insertFramedArea endLt returned
  | @removeArea set _ _ _ startVpn _ returned induction =>
    cases found : findArea startVpn set.areas with
    | none =>
      rw [removeAreaWithStartVpn, found] at returned
      cases returned
      exact induction
    | some result => exact (induction.removeArea found returned).1
  | @appendTo set _ _ _ start _ _ _ _ endLt returned induction =>
    cases found : findArea (floor start) set.areas with
    | none =>
      rw [MemorySet.appendTo, found] at returned
      cases returned
      exact induction
    | some result => exact induction.appendArea endLt found returned
  | @shrinkTo set _ _ _ start _ _ _ _ _ returned induction =>
    cases found : findArea (floor start) set.areas with
    | none =>
      rw [MemorySet.shrinkTo, found] at returned
      cases returned
      exact induction
    | some result => exact (induction.shrinkArea found returned).1
  | others _ kept inUse induction => exact induction.others kept inUse

/-- What is known of every memory set. -/
structure AddressSpace (kernelPage : Nat) (set : MemorySet)
    (phys : KernelMemory) : Prop where
  disjoint : set.areas.Pairwise MapArea.Apart
  no_trampoline :
    ∀ area ∈ set.areas, ¬ area.vpnRange.Contains trampolineVpn
  frames_iff :
    ∀ area ∈ set.areas, area.mapType = .framed →
      ∀ vpn, vpn ∈ area.dataFrames ↔ area.vpnRange.Contains vpn
  translates :
    ∀ area ∈ set.areas, area.mapType = .framed →
      ∀ vpn frame, area.dataFrames.lookup vpn = some frame →
        ∃ entry, set.pageTable.translate phys.memory vpn = some entry ∧
          entry.isValid = true ∧ entry.ppn = frame ∧
          entry.flags = area.mapPerm.bits ||| PTEFlags.v
  frames_distinct :
    ∀ first < 2 ^ 27, ∀ second < 2 ^ 27, ∀ firstEntry secondEntry,
      set.pageTable.translate phys.memory first = some firstEntry →
        firstEntry.isValid = true →
          set.pageTable.translate phys.memory second = some secondEntry →
            secondEntry.isValid = true →
              firstEntry.ppn = secondEntry.ppn → first = second
  valid_covered :
    ∀ vpn < 2 ^ 27, ∀ entry,
      set.pageTable.translate phys.memory vpn = some entry →
        entry.isValid = true →
          vpn = trampolineVpn ∨ ∃ area ∈ set.areas, area.vpnRange.Contains vpn
  remove_gives_back :
    ∀ startVpn after afterPhys,
      set.removeAreaWithStartVpn phys startVpn = .ok (after, afterPhys) →
        match findArea startVpn set.areas with
        | none => afterPhys = phys
        | some (_, area, _) =>
          GivesBack phys afterPhys
            (area.framesOf area.vpnRange.toList)
  shrink_gives_back :
    ∀ start newEnd flag after afterPhys,
      set.shrinkTo phys start newEnd = .ok (flag, after, afterPhys) →
        match findArea (floor start) set.areas with
        | none => afterPhys = phys
        | some (_, area, _) =>
          GivesBack phys afterPhys
            (area.framesOf
              (List.range' (ceil newEnd)
                (area.vpnRange.r - ceil newEnd)))

/--
The representation invariant holds of every memory set that the operations can
lead to.
-/
theorem address_space_invariant (reached : Reached kernelPage set phys) :
    AddressSpace kernelPage set phys := by
  have valid := reached.valid
  obtain ⟨pages, represents⟩ := reached.valid
  have backs := represents.backs
  have page_of_valid :
      ∀ vpn < 2 ^ 27, ∀ entry,
        set.pageTable.translate phys.memory vpn = some entry →
          entry.isValid = true →
            ∃ page, pages vpn = some page ∧ entry.ppn = page.1 := by
    intro vpn vpnLt entry translated isValid
    have mapped := backs.mapping_eq vpn vpnLt
    rw [mapping_eq_some_iff.mpr ⟨translated, isValid⟩, eq_comm,
      Option.map_eq_some_iff] at mapped
    obtain ⟨page, present, rfl⟩ := mapped
    exact ⟨page, present, PageTableEntry.ppn_new (backs.ppn_lt present)⟩
  refine ⟨represents.apart, represents.noTrampoline, ?_, ?_, ?_, ?_, ?_, ?_⟩
  · intro area member _ vpn
    have holds := represents.holds area member
    rw [← AList.lookup_isSome]
    by_cases contains : area.vpnRange.Contains vpn
    · obtain ⟨frame, found, _⟩ := holds.page vpn contains
      rw [found]
      exact ⟨fun _ => contains, fun _ => rfl⟩
    · rw [holds.lookup_none vpn contains]
      exact ⟨nofun, fun impossible => absurd impossible contains⟩
  · intro area member _ vpn frame found
    have holds := represents.holds area member
    have contains : area.vpnRange.Contains vpn := by
      by_contra outside
      rw [holds.lookup_none vpn outside] at found
      cases found
    obtain ⟨other, otherFound, present⟩ := holds.page vpn contains
    rw [found] at otherFound
    cases otherFound
    exact backs.translate present
  · intro first firstLt second secondLt firstEntry secondEntry
      firstTranslated firstValid secondTranslated secondValid same
    obtain ⟨firstPage, firstPresent, firstEq⟩ :=
      page_of_valid first firstLt firstEntry firstTranslated firstValid
    obtain ⟨secondPage, secondPresent, secondEq⟩ :=
      page_of_valid second secondLt secondEntry secondTranslated secondValid
    exact backs.injective firstPresent secondPresent
      (firstEq.symm.trans (same.trans secondEq))
  · intro vpn vpnLt entry translated isValid
    obtain ⟨page, present, _⟩ :=
      page_of_valid vpn vpnLt entry translated isValid
    exact represents.covered vpn page present
  · intro startVpn after afterPhys returned
    split
    · next found =>
        rw [removeAreaWithStartVpn, found] at returned
        cases returned
        rfl
    · next found => exact (valid.removeArea found returned).2
  · intro start newEnd flag after afterPhys returned
    split
    · next found =>
        rw [MemorySet.shrinkTo, found] at returned
        cases returned
        rfl
    · next found => exact (valid.shrinkArea found returned).2

/-- A page of the kernel at `0x80201000` and one area that is shrunk. -/
theorem address_space_invariant_shrunk :
    ∃ set phys, Reached 0x80201 set phys ∧ AddressSpace 0x80201 set phys := by
  have kernel :
      ¬ (StackFrameAllocator.init 0x80300 0x88000 (by decide)
        (by decide)).Free 0x80201 :=
    not_free_init (by decide)
  obtain ⟨set, phys, reached⟩ :
      ∃ set phys, Reached 0x80201 set phys :=
    ⟨_, _, @Reached.shrinkTo _ _ _ _ _ 0x1000 0x2000 true
      (@Reached.insertFramedArea _ _ _ _ _ 0x1000 0x3000
        ⟨PTEFlags.r ||| PTEFlags.u, by decide⟩
        (@Reached.new _ ⟨fun _ _ => .empty,
            .init 0x80300 0x88000 (by decide) (by decide)⟩ _ _ _ _ 0x80201000
          rfl kernel rfl rfl)
        (by decide) (by decide) rfl)
      (by decide) (by decide) rfl⟩
  exact ⟨set, phys, reached, address_space_invariant reached⟩

/-! ## A small address space -/

theorem frames_le : 0x80300 ≤ 0x88000 := by decide

theorem frames_small : 0x88000 ≤ 2 ^ 44 := by decide

/--
A process with one page of its own at `0x10000` and the page of its trap
context.
-/
def oneThreadSpace : Except Stop (MemorySet × KernelMemory) := do
  let (bare, phys) ← newBare ⟨fun _ _ => .empty,
    .init 0x80300 0x88000 frames_le frames_small⟩
  let (set, phys) ← bare.mapTrampoline phys 0x80201000
  let (set, phys) ← set.insertFramedArea phys 0x10000 0x11000
    ⟨PTEFlags.r ||| PTEFlags.w ||| PTEFlags.u, MapPermission.named_rwu⟩
  set.insertFramedArea phys (virtAddr (trampoline - pageSize))
    (virtAddr trampoline) ⟨PTEFlags.r ||| PTEFlags.w, MapPermission.named_rw⟩

theorem oneThreadSpace_reached (made : oneThreadSpace = .ok (set, phys)) :
    Reached 0x80201 set phys := by
  have kernel :
      ¬ (StackFrameAllocator.init 0x80300 0x88000 (by decide)
        (by decide)).Free 0x80201 :=
    not_free_init (by decide)
  obtain ⟨⟨bare, barePhys⟩, bareEq, rest⟩ := bind_eq_ok.mp made
  obtain ⟨⟨first, firstPhys⟩, firstEq, rest⟩ := bind_eq_ok.mp rest
  obtain ⟨⟨second, secondPhys⟩, secondEq, lastEq⟩ := bind_eq_ok.mp rest
  exact .insertFramedArea
    (.insertFramedArea (.new (by rfl) kernel bareEq firstEq) (by decide)
      (by decide) secondEq)
    (by decide) (by decide) lastEq

end RCoreOS.Kernel.MemorySet
