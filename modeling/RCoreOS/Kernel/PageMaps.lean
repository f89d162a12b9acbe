import RCoreOS.Kernel.MemorySet

/-!
# Maps of pages

What a page table is for is a map from pages to frames with permissions.
`Maps` says that the table and the allocator agree with such a map.  Some of
the pages own their frames: all pages of a user's address space do, and in the
kernel's address space those of the kernel stacks.  The frames that are owned
are in use, and they are all different.

The loops of an area that map and unmap pages change the map on these pages.
-/

namespace RCoreOS.Kernel

open Lib.FallibleRuns PageTable List Function

/-- The pages of an address space, each with its frame and its flags. -/
abbrev Pages := Nat → Option (Nat × PTEFlags)

/--
The page table maps these pages.  The pages that own their frames have frames
that are in use and are different.
-/
structure Maps (owned : Nat → Prop) (pages : Pages) (table : PageTable)
    (phys : KernelMemory) : Prop where
  shaped : table.Shaped phys
  mapping_eq :
    ∀ vpn < 2 ^ 27,
      table.mapping phys.memory vpn =
        (pages vpn).map fun page => .new page.1 (page.2 ||| PTEFlags.v)
  vpn_lt : ∀ {vpn page}, pages vpn = some page → vpn < 2 ^ 27
  ppn_lt : ∀ {vpn page}, pages vpn = some page → page.1 < 2 ^ 44
  inUse :
    ∀ {vpn page}, owned vpn → pages vpn = some page →
      ¬ phys.allocator.Free page.1
  notTable :
    ∀ {vpn page}, owned vpn → pages vpn = some page → page.1 ∉ table.frames
  injective :
    ∀ {first second firstPage secondPage},
      owned first → owned second →
        pages first = some firstPage → pages second = some secondPage →
          firstPage.1 = secondPage.1 → first = second

variable {owned : Nat → Prop} {pages : Pages} {table after : PageTable}
  {phys afterPhys : KernelMemory} {vpn : Nat}

/-- A new page table maps nothing, and its root was free. -/
theorem Maps.new {before : KernelMemory}
    (returned : PageTable.new before = .ok (table, phys)) :
    Maps owned (fun _ => none) table phys ∧
      ∀ ppn, ¬ before.allocator.Free ppn →
        ¬ phys.allocator.Free ppn ∧ ppn ∉ table.frames := by
  obtain ⟨shaped, nothing⟩ := Shaped.new returned
  obtain ⟨⟨frame, between⟩, frameEq, rest⟩ := bind_eq_ok.mp returned
  cases rest
  obtain ⟨_, wasFree, stillFree⟩ :=
    StackFrameAllocator.alloc_spec (Phys.frameAlloc_eq_ok frameEq).1
  refine ⟨⟨shaped, fun vpn _ => nothing vpn, nofun, nofun, nofun, nofun,
    nofun⟩, ?_⟩
  intro ppn inUse
  refine ⟨fun isFree => inUse (stillFree ppn isFree).1, fun member => ?_⟩
  rw [mem_singleton.mp member] at inUse
  exact inUse wasFree

variable {frame : Nat}

/-- A new frame is in use, is no table and is the frame of no page. -/
theorem Maps.frameAlloc (maps : Maps owned pages table phys)
    (returned : phys.frameAlloc = .ok (frame, afterPhys)) :
    Maps owned pages table afterPhys ∧ frame < 2 ^ 44 ∧
      ¬ afterPhys.allocator.Free frame ∧ frame ∉ table.frames ∧
      ∀ vpn page, owned vpn → pages vpn = some page →
        page.1 ≠ frame := by
  obtain ⟨allocated, memoryEq⟩ := Phys.frameAlloc_eq_ok returned
  obtain ⟨frameLt, wasFree, stillFree⟩ :=
    StackFrameAllocator.alloc_spec allocated
  have notTable : frame ∉ table.frames :=
    fun member => maps.shaped.inUse frame member wasFree
  have kept :
      ∀ ppn ∈ table.frames, afterPhys.memory ppn = phys.memory ppn := by
    intro ppn member
    have different : ppn ≠ frame := by
      rintro rfl
      exact notTable member
    rw [memoryEq, update_of_ne different]
  obtain ⟨shaped, same⟩ := maps.shaped.others kept fun ppn member isFree =>
    maps.shaped.inUse ppn member (stillFree ppn isFree).1
  refine ⟨⟨shaped, ?_, maps.vpn_lt, maps.ppn_lt, ?_, maps.notTable,
    maps.injective⟩, frameLt, ?_, notTable, ?_⟩
  · intro vpn vpnLt
    rw [mapping, same, ← mapping, maps.mapping_eq vpn vpnLt]
  · intro vpn page isOwned present isFree
    exact maps.inUse isOwned present (stillFree page.1 isFree).1
  · exact fun isFree => (stillFree frame isFree).2 rfl
  · rintro vpn page isOwned present rfl
    exact maps.inUse isOwned present wasFree

variable {flags : PTEFlags}

/-- `map` adds a page; if it owns its frame, the frame is one of its own. -/
theorem Maps.map (maps : Maps owned pages table phys)
    (vpnLt : vpn < 2 ^ 27) (frameLt : frame < 2 ^ 44)
    (own :
      owned vpn →
        ¬ phys.allocator.Free frame ∧ frame ∉ table.frames ∧
          ∀ other page, owned other → pages other = some page → page.1 ≠ frame)
    (returned : table.map phys vpn frame flags = .ok (after, afterPhys)) :
    pages vpn = none ∧
      Maps owned (Function.update pages vpn (some (frame, flags))) after
        afterPhys := by
  have mapped := maps.shaped.map vpnLt returned
  obtain ⟨added, framesEq, addedFree⟩ := mapped.frames_eq
  have unmapped : pages vpn = none := by
    have nothing := mapped.unmapped
    rw [maps.mapping_eq vpn vpnLt, Option.map_eq_none_iff] at nothing
    exact nothing
  have outside :
      ∀ ppn, ¬ phys.allocator.Free ppn → ppn ∉ table.frames →
        ppn ∉ after.frames := by
    intro ppn ppnInUse ppnNotTable member
    rw [framesEq] at member
    rcases mem_append.mp member with member | member
    · exact ppnNotTable member
    · exact ppnInUse (addedFree ppn member)
  -- a page of the new map is the new one or an old one
  have cases :
      ∀ {other page},
        Function.update pages vpn (some (frame, flags)) other = some page →
          (other = vpn ∧ page = (frame, flags)) ∨
            pages other = some page := by
    intro other page present
    by_cases same : other = vpn
    · subst same
      rw [update_self] at present
      cases present
      exact .inl ⟨rfl, rfl⟩
    · rw [update_of_ne same] at present
      exact .inr present
  refine ⟨unmapped, mapped.shaped, ?_, ?_, ?_, ?_, ?_, ?_⟩
  · intro other otherLt
    by_cases same : other = vpn
    · subst same
      rw [update_self]
      exact mapping_eq_some_iff.mpr
        ⟨mapped.translate_self, PageTableEntry.isValid_new frameLt⟩
    · rw [update_of_ne same, ← maps.mapping_eq other otherLt]
      exact (mapped.translate_other other otherLt same).filter_eq
  · intro other page present
    rcases cases present with ⟨rfl, _⟩ | old
    · exact vpnLt
    · exact maps.vpn_lt old
  · intro other page present
    rcases cases present with ⟨_, rfl⟩ | old
    · exact frameLt
    · exact maps.ppn_lt old
  · intro other page isOwned present isFree
    rcases cases present with ⟨rfl, rfl⟩ | old
    · exact (own isOwned).1 (mapped.free _ isFree)
    · exact maps.inUse isOwned old (mapped.free _ isFree)
  · intro other page isOwned present
    rcases cases present with ⟨rfl, rfl⟩ | old
    · exact outside frame (own isOwned).1 (own isOwned).2.1
    · exact outside page.1 (maps.inUse isOwned old)
        (maps.notTable isOwned old)
  · intro first second firstPage secondPage firstOwned secondOwned
      firstPresent secondPresent same
    rcases cases firstPresent with ⟨rfl, rfl⟩ | firstOld
    · rcases cases secondPresent with ⟨rfl, _⟩ | secondOld
      · rfl
      · exact absurd same.symm
          ((own firstOwned).2.2 second secondPage secondOwned secondOld)
    · rcases cases secondPresent with ⟨rfl, rfl⟩ | secondOld
      · exact absurd same
          ((own secondOwned).2.2 first firstPage firstOwned firstOld)
      · exact maps.injective firstOwned secondOwned firstOld secondOld same

/-- Giving back the frame of a page and unmapping the page removes it. -/
theorem Maps.unmap (maps : Maps owned pages table phys)
    {between : KernelMemory} (isOwned : owned vpn)
    (present : pages vpn = some (frame, flags))
    (given : phys.frameDealloc frame = .ok between)
    (returned : table.unmap between vpn = .ok afterPhys) :
    Maps owned (Function.update pages vpn none) table afterPhys ∧
      afterPhys.allocator.recycled = phys.allocator.recycled ++ [frame] ∧
      afterPhys.allocator.current = phys.allocator.current := by
  have vpnLt := maps.vpn_lt present
  obtain ⟨allocator, givenEq, rest⟩ := bind_eq_ok.mp given
  cases rest
  obtain ⟨_, recycledEq, currentEq, freeIff⟩ :=
    StackFrameAllocator.dealloc_spec givenEq
  have stillUsed :
      ∀ ppn, ¬ phys.allocator.Free ppn → ppn ≠ frame →
        ¬ allocator.Free ppn := by
    intro ppn notFree different isFree
    exact ((freeIff ppn).mp isFree).elim notFree different
  obtain ⟨shaped, _⟩ : table.Shaped { phys with allocator } ∧ _ :=
    maps.shaped.others (fun _ _ => rfl) fun ppn member =>
      stillUsed ppn (maps.shaped.inUse ppn member) (by
        rintro rfl
        exact maps.notTable isOwned present member)
  have unmapped := shaped.unmap vpnLt returned
  have allocatorEq := unmapped.allocator_eq
  have old :
      ∀ {other page},
        Function.update pages vpn none other = some page →
          other ≠ vpn ∧ pages other = some page := by
    intro other page found
    by_cases same : other = vpn
    · subst same
      rw [update_self] at found
      cases found
    · rw [update_of_ne same] at found
      exact ⟨same, found⟩
  refine ⟨⟨unmapped.shaped, ?_, ?_, ?_, ?_, ?_, ?_⟩, ?_, ?_⟩
  · intro other otherLt
    by_cases same : other = vpn
    · subst same
      rw [update_self, mapping, unmapped.translate_self]
      rfl
    · rw [update_of_ne same, ← maps.mapping_eq other otherLt,
        mapping, unmapped.translate_other other otherLt same, ← mapping]
  · intro other page found
    exact maps.vpn_lt (old found).2
  · intro other page found
    exact maps.ppn_lt (old found).2
  · intro other page otherOwned found
    obtain ⟨different, wasPresent⟩ := old found
    rw [allocatorEq]
    refine stillUsed page.1 (maps.inUse otherOwned wasPresent)
      fun same => ?_
    exact different
      (maps.injective otherOwned isOwned wasPresent present same)
  · intro other page otherOwned found
    exact maps.notTable otherOwned (old found).2
  · intro first second firstPage secondPage firstOwned secondOwned
      firstFound secondFound
    exact maps.injective firstOwned secondOwned (old firstFound).2
      (old secondFound).2
  · rw [allocatorEq]
    exact recycledEq
  · rw [allocatorEq]
    exact currentEq

/-! ## Loops over the pages of an area -/

namespace MapArea

variable {area result : MapArea} {vpns : List Nat}

/-- The frames of pages of an area. -/
def framesOf (area : MapArea) (vpns : List Nat) : List Nat :=
  vpns.filterMap fun vpn => area.dataFrames.lookup vpn

/-- The range, the kind and the permissions of an area. -/
def shape (area : MapArea) : VPNRange × MapType × MapPermission :=
  (area.vpnRange, area.mapType, area.mapPerm)

/-- The kind, the range and the permissions of an area. -/
structure SameShape (area result : MapArea) : Prop where
  range_eq : result.vpnRange = area.vpnRange
  type_eq : result.mapType = area.mapType
  perm_eq : result.mapPerm = area.mapPerm

theorem SameShape.shape_eq (same : SameShape area result) :
    result.shape = area.shape := by
  rw [shape, same.range_eq, same.type_eq, same.perm_eq]
  rfl

theorem SameShape.refl (area : MapArea) : SameShape area area :=
  ⟨rfl, rfl, rfl⟩

/-- Pages were added to an area and to the map of pages. -/
structure Adds (area : MapArea) (pages : Pages) (vpns : List Nat)
    (result : MapArea) (added : Pages) : Prop where
  shape : SameShape area result
  new :
    ∀ vpn ∈ vpns, pages vpn = none ∧
      ∃ frame, result.dataFrames.lookup vpn = some frame ∧
        added vpn = some (frame, area.mapPerm.bits)
  old :
    ∀ vpn, vpn ∉ vpns → added vpn = pages vpn ∧
      result.dataFrames.lookup vpn = area.dataFrames.lookup vpn

/-- Pages were taken out of an area and of the map of pages. -/
structure Removes (area : MapArea) (pages : Pages) (vpns : List Nat)
    (result : MapArea) (left : Pages) : Prop where
  shape : SameShape area result
  gone :
    ∀ vpn ∈ vpns, left vpn = none ∧ result.dataFrames.lookup vpn = none
  old :
    ∀ vpn, vpn ∉ vpns → left vpn = pages vpn ∧
      result.dataFrames.lookup vpn = area.dataFrames.lookup vpn

/-- The pages can be added to the framed area, one after the other. -/
structure NewPages (area : MapArea) (vpns : List Nat) : Prop where
  framed : area.mapType = .framed
  small : ∀ vpn ∈ vpns, vpn < 2 ^ 27
  absent : ∀ vpn ∈ vpns, area.dataFrames.lookup vpn = none
  nodup : vpns.Nodup

/-- The pages of the range of an area that has no frames. -/
theorem NewPages.range (framed : area.mapType = .framed)
    (r_le : area.vpnRange.r ≤ 2 ^ 27)
    (empty : ∀ vpn, area.dataFrames.lookup vpn = none) :
    area.NewPages area.vpnRange.toList where
  framed := framed
  small _ member := Nat.lt_of_lt_of_le (VPNRange.mem_toList.mp member).2 r_le
  absent _ _ := empty _
  nodup := area.vpnRange.nodup_toList

section

variable {rest : List Nat} (new : area.NewPages (vpn :: rest))

include new

theorem NewPages.not_mem : vpn ∉ rest := (nodup_cons.mp new.nodup).1

theorem NewPages.ne {other : Nat} (member : other ∈ rest) : other ≠ vpn := by
  rintro rfl
  exact new.not_mem member

/-- The other pages can be added after the first one. -/
theorem NewPages.tail (frame : Nat) :
    NewPages { area with dataFrames := area.dataFrames.insert vpn frame }
      rest where
  framed := new.framed
  small other member := new.small other (mem_cons_of_mem _ member)
  absent other member :=
    (AList.lookup_insert_ne (new.ne member)).trans
      (new.absent other (mem_cons_of_mem _ member))
  nodup := (nodup_cons.mp new.nodup).2

/-- `map_one` adds one page. -/
theorem mapOne_maps (maps : Maps owned pages table phys)
    (returned :
      area.mapOne table phys vpn = .ok (result, after, afterPhys)) :
    ∃ frame,
      result = { area with dataFrames := area.dataFrames.insert vpn frame } ∧
        pages vpn = none ∧
        Maps owned (Function.update pages vpn (some (frame, area.mapPerm.bits)))
          after afterPhys := by
  rw [mapOne, new.framed, new.absent vpn mem_cons_self] at returned
  obtain ⟨⟨frame, between⟩, frameEq, rest⟩ := bind_eq_ok.mp returned
  obtain ⟨same, sameEq, rest⟩ := bind_eq_ok.mp rest
  cases sameEq
  obtain ⟨⟨mapped, mappedPhys⟩, mapEq, rest⟩ := bind_eq_ok.mp rest
  cases rest
  obtain ⟨betweenMaps, frameLt, inUse, notTable, different⟩ :=
    maps.frameAlloc frameEq
  obtain ⟨unmapped, mappedMaps⟩ :=
    betweenMaps.map (new.small vpn mem_cons_self) frameLt
      (fun _ => ⟨inUse, notTable, different⟩) mapEq
  refine ⟨frame, ?_, unmapped, mappedMaps⟩
  rw [new.framed]

end

/-- `unmap_one` removes one page and gives its frame back. -/
theorem unmapOne_maps (maps : Maps owned pages table phys)
    {flags : PTEFlags} (framed : area.mapType = .framed)
    (isOwned : owned vpn) (found : area.dataFrames.lookup vpn = some frame)
    (present : pages vpn = some (frame, flags))
    (returned : area.unmapOne table phys vpn = .ok (result, afterPhys)) :
    result = { area with dataFrames := area.dataFrames.erase vpn } ∧
      Maps owned (Function.update pages vpn none) table afterPhys ∧
      afterPhys.allocator.recycled = phys.allocator.recycled ++ [frame] ∧
      afterPhys.allocator.current = phys.allocator.current := by
  rw [unmapOne, framed, found] at returned
  obtain ⟨between, givenEq, rest⟩ := bind_eq_ok.mp returned
  obtain ⟨last, unmapEq, rest⟩ := bind_eq_ok.mp rest
  cases rest
  refine ⟨by rw [framed], ?_⟩
  exact maps.unmap isOwned present givenEq unmapEq

/-- Unmapping pages does not change the range of the area. -/
theorem unmapOne_range
    (returned : area.unmapOne table phys vpn = .ok (result, afterPhys)) :
    result.vpnRange = area.vpnRange := by
  rw [unmapOne] at returned
  split at returned
  · obtain ⟨between, _, rest⟩ := bind_eq_ok.mp returned
    cases rest
    rfl
  · obtain ⟨between, _, rest⟩ := bind_eq_ok.mp returned
    obtain ⟨last, _, rest⟩ := bind_eq_ok.mp rest
    cases rest
    rfl

theorem unmapPages_range
    (returned :
      area.unmapPages table phys vpns = .ok (result, afterPhys)) :
    result.vpnRange = area.vpnRange := by
  induction vpns generalizing area phys with
  | nil =>
    cases returned
    rfl
  | cons vpn rest induction =>
    obtain ⟨⟨between, betweenPhys⟩, oneEq, restEq⟩ := bind_eq_ok.mp returned
    exact (induction restEq).trans (unmapOne_range oneEq)

section

variable (maps : Maps owned pages table phys)

include maps

/-- A loop of `map_one` adds its pages. -/
theorem mapPages_maps (new : area.NewPages vpns)
    (returned :
      area.mapPages table phys vpns = .ok (result, after, afterPhys)) :
    ∃ added, Adds area pages vpns result added ∧
      Maps owned added after afterPhys := by
  induction vpns generalizing area table phys pages with
  | nil =>
    cases returned
    exact ⟨pages, ⟨.refl _, forall_mem_nil _, fun _ _ => ⟨rfl, rfl⟩⟩, maps⟩
  | cons vpn rest induction =>
    obtain ⟨⟨between, betweenTable, betweenPhys⟩, oneEq, restEq⟩ :=
      bind_eq_ok.mp returned
    obtain ⟨frame, rfl, unmapped, betweenMaps⟩ := mapOne_maps new maps oneEq
    obtain ⟨added, adds, afterMaps⟩ :=
      induction betweenMaps (new.tail frame) restEq
    have here := adds.old vpn new.not_mem
    refine ⟨added, ⟨⟨adds.shape.range_eq, adds.shape.type_eq,
      adds.shape.perm_eq⟩, ?_, ?_⟩, afterMaps⟩
    · intro other member
      rcases mem_cons.mp member with rfl | member
      · refine ⟨unmapped, frame, ?_, ?_⟩
        · rw [here.2]
          exact AList.lookup_insert _
        · rw [here.1, update_self]
      · obtain ⟨otherUnmapped, otherFrame, otherFound, otherAdded⟩ :=
          adds.new other member
        rw [update_of_ne (new.ne member)] at otherUnmapped
        exact ⟨otherUnmapped, otherFrame, otherFound, otherAdded⟩
    · intro other outside
      rw [mem_cons, not_or] at outside
      obtain ⟨addedEq, foundEq⟩ := adds.old other outside.2
      rw [update_of_ne outside.1] at addedEq
      exact ⟨addedEq, foundEq.trans (AList.lookup_insert_ne outside.1)⟩

/-- A loop of `unmap_one` removes its pages and gives their frames back. -/
theorem unmapPages_maps (framed : area.mapType = .framed)
    (present :
      ∀ vpn ∈ vpns, owned vpn ∧ ∃ frame flags,
        area.dataFrames.lookup vpn = some frame ∧
          pages vpn = some (frame, flags))
    (nodup : vpns.Nodup)
    (returned :
      area.unmapPages table phys vpns = .ok (result, afterPhys)) :
    ∃ left, Removes area pages vpns result left ∧
      Maps owned left table afterPhys ∧
      afterPhys.allocator.recycled =
        phys.allocator.recycled ++ area.framesOf vpns ∧
      afterPhys.allocator.current = phys.allocator.current := by
  induction vpns generalizing area phys pages with
  | nil =>
    cases returned
    exact ⟨pages, ⟨.refl _, forall_mem_nil _, fun _ _ => ⟨rfl, rfl⟩⟩, maps,
      (append_nil _).symm, rfl⟩
  | cons vpn rest induction =>
    obtain ⟨⟨between, betweenPhys⟩, oneEq, restEq⟩ := bind_eq_ok.mp returned
    rw [nodup_cons] at nodup
    obtain ⟨isOwned, frame, flags, found, here⟩ := present vpn mem_cons_self
    obtain ⟨rfl, betweenMaps, recycledEq, currentEq⟩ :=
      unmapOne_maps maps framed isOwned found here oneEq
    have lookupOther :
        ∀ other, other ≠ vpn →
          (area.dataFrames.erase vpn).lookup other =
            area.dataFrames.lookup other :=
      fun other different => AList.lookup_erase_ne different
    have notHead : ∀ other ∈ rest, other ≠ vpn := by
      rintro other member rfl
      exact nodup.1 member
    obtain ⟨left, removes, afterMaps, laterRecycled, laterCurrent⟩ :=
      induction betweenMaps
        (show MapArea.mapType { area with
            dataFrames := area.dataFrames.erase vpn } = .framed
          from framed)
        (fun other member => by
          have different := notHead other member
          obtain ⟨otherOwned, otherFrame, otherFlags, otherFound,
              otherHere⟩ := present other (mem_cons_of_mem _ member)
          refine ⟨otherOwned, otherFrame, otherFlags, ?_, ?_⟩
          · exact (lookupOther other different).trans otherFound
          · rw [update_of_ne different]
            exact otherHere)
        nodup.2 restEq
    have gone := removes.old vpn nodup.1
    refine ⟨left, ⟨⟨removes.shape.range_eq, removes.shape.type_eq,
      removes.shape.perm_eq⟩, ?_, ?_⟩, afterMaps, ?_,
      laterCurrent.trans currentEq⟩
    · intro other member
      rcases mem_cons.mp member with rfl | member
      · refine ⟨?_, ?_⟩
        · rw [gone.1, update_self]
        · rw [gone.2]
          exact AList.lookup_erase _ _
      · exact removes.gone other member
    · intro other outside
      rw [mem_cons, not_or] at outside
      obtain ⟨leftEq, foundEq⟩ := removes.old other outside.2
      rw [update_of_ne outside.1] at leftEq
      exact ⟨leftEq, foundEq.trans (lookupOther other outside.1)⟩
    · have sameFrames :
          rest.filterMap (fun page =>
              (area.dataFrames.erase vpn).lookup page) =
            rest.filterMap fun page => area.dataFrames.lookup page :=
        filterMap_congr fun other member =>
          lookupOther other (notHead other member)
      rw [laterRecycled, recycledEq, append_assoc]
      simp [framesOf, sameFrames, found]

/-- A loop of `map_one` over pages that are mapped to themselves. -/
theorem mapPages_identical (identical : area.mapType = .identical)
    (small : ∀ vpn ∈ vpns, vpn < 2 ^ 27 ∧ ¬ owned vpn) (nodup : vpns.Nodup)
    (returned :
      area.mapPages table phys vpns = .ok (result, after, afterPhys)) :
    result = area ∧
      ∃ added, Maps owned added after afterPhys ∧
        (∀ vpn ∈ vpns, pages vpn = none ∧
          added vpn = some (vpn, area.mapPerm.bits)) ∧
        ∀ vpn, vpn ∉ vpns → added vpn = pages vpn := by
  induction vpns generalizing table phys pages with
  | nil =>
    cases returned
    exact ⟨rfl, pages, maps, forall_mem_nil _, fun _ _ => rfl⟩
  | cons vpn rest induction =>
    obtain ⟨⟨between, betweenTable, betweenPhys⟩, oneEq, restEq⟩ :=
      bind_eq_ok.mp returned
    rw [mapOne, identical] at oneEq
    obtain ⟨⟨mapped, mappedPhys⟩, mapEq, one⟩ := bind_eq_ok.mp oneEq
    cases one
    obtain ⟨vpnLt, notOwned⟩ := small vpn mem_cons_self
    obtain ⟨unmapped, mappedMaps⟩ :=
      maps.map vpnLt (Nat.lt_trans vpnLt (by decide))
        (fun isOwned => absurd isOwned notOwned) mapEq
    rw [nodup_cons] at nodup
    obtain ⟨resultEq, added, addedMaps, new, old⟩ :=
      induction mappedMaps
        (fun other member => small other (mem_cons_of_mem _ member))
        nodup.2 restEq
    refine ⟨resultEq, added, addedMaps, ?_, ?_⟩
    · intro other member
      rcases mem_cons.mp member with rfl | inRest
      · rw [old other nodup.1, update_self]
        exact ⟨unmapped, rfl⟩
      · have different : other ≠ vpn := by
          rintro rfl
          exact nodup.1 inRest
        obtain ⟨absent, present⟩ := new other inRest
        rw [update_of_ne different] at absent
        exact ⟨absent, present⟩
    · intro other outside
      rw [mem_cons, not_or] at outside
      rw [old other outside.2, update_of_ne outside.1]

end

end MapArea

end RCoreOS.Kernel
