import RCoreOS.Kernel.FrameUse

/-!
# The memory of a forked process

`MemorySet::from_existed_user` of `os/src/mm/memory_set.rs` makes the address
space of a child.  For each area of the parent it maps an area with new frames
and copies the pages one by one.

All frames of the child were free when the call began, and the frames of the
parent were not.  So the two address spaces have no frame in common, and what
is written through one of them is not seen through the other.
-/

namespace RCoreOS.Kernel

open Lib.FallibleRuns PageTable List

/-! ## The call -/

/-- `MapArea::from_another` -/
def MapArea.fromAnother (another : MapArea) : Except Stop MapArea := do
  let vpnRange ← VPNRange.new another.vpnRange.l another.vpnRange.r
  return ⟨vpnRange, ∅, another.mapType, another.mapPerm⟩

/-- The contents of a page; the 512 entries are its 4096 bytes. -/
abbrev Page := Fin 512 → PageTableEntry

/-- `ppn.get_bytes_array().copy_from_slice(..)` -/
def Phys.writePage (phys : KernelMemory) (ppn : Nat) (page : Page) :
    KernelMemory :=
  { phys with memory := Function.update phys.memory ppn page }

/-- The inner loop of `from_existed_user`. -/
def copyPages (source target : PageTable) (phys : KernelMemory) :
    List Nat → Except Stop KernelMemory
  | [] => return phys
  | vpn :: rest =>
    match source.translate phys.memory vpn,
      target.translate phys.memory vpn with
    | some src, some dst =>
      copyPages source target
        (phys.writePage dst.ppn (phys.memory src.ppn)) rest
    | _, _ => .error .panicked

namespace MemorySet

/-- The outer loop of `from_existed_user`. -/
def copyAreas (userSpace self : MemorySet) (phys : KernelMemory) :
    List MapArea → Except Stop (MemorySet × KernelMemory)
  | [] => return (self, phys)
  | area :: rest => do
      let newArea ← area.fromAnother
      let (self, phys) ← self.push phys newArea
      let phys ← copyPages userSpace.pageTable self.pageTable phys
        area.vpnRange.toList
      userSpace.copyAreas self phys rest

/-- `MemorySet::from_existed_user` -/
def fromExistedUser (userSpace : MemorySet) (phys : KernelMemory)
    (strampoline : Nat) : Except Stop (MemorySet × KernelMemory) := do
  let (memorySet, phys) ← newBare phys
  let (memorySet, phys) ← memorySet.mapTrampoline phys strampoline
  userSpace.copyAreas memorySet phys userSpace.areas

end MemorySet

/-- An area of the same shape that has no frames yet. -/
def MapArea.blank (area : MapArea) : MapArea :=
  ⟨area.vpnRange, ∅, area.mapType, area.mapPerm⟩

theorem MapArea.fromAnother_eq (another : MapArea) :
    another.fromAnother = .ok another.blank := by
  rw [fromAnother, VPNRange.new, dif_pos another.vpnRange.le]
  rfl

/-! ## Writing to frames that are no tables -/

section

variable {pages sourcePages targetPages : Pages}
  {table source target : PageTable} {phys after : KernelMemory}
  {vpn ppn : Nat} {vpns : List Nat}

variable {page : Page}

theorem Phys.writePage_self :
    (Phys.writePage phys ppn page).memory ppn = page :=
  Function.update_self _ _ _

theorem Phys.writePage_of_ne {other : Nat}
    (different : other ≠ ppn) :
    (Phys.writePage phys ppn page).memory other = phys.memory other :=
  Function.update_of_ne different _ _

/-- The map of pages depends on the tables and on the frames in use. -/
theorem Backs.others (backs : Backs pages table phys)
    (kept : ∀ ppn ∈ table.frames, after.memory ppn = phys.memory ppn)
    (free : ∀ ppn, after.allocator.Free ppn → phys.allocator.Free ppn) :
    Backs pages table after := by
  obtain ⟨shaped, same⟩ := backs.shaped.others kept fun ppn member isFree =>
    backs.shaped.inUse ppn member (free ppn isFree)
  refine ⟨shaped, ?_, backs.vpn_lt, backs.ppn_lt, ?_, backs.notTable,
    backs.injective⟩
  · intro vpn vpnLt
    rw [mapping, same, ← mapping, backs.mapping_eq vpn vpnLt]
  · intro vpn page present isFree
    exact backs.inUse present (free page.1 isFree)

theorem Backs.writePage (backs : Backs pages table phys)
    (outside : ppn ∉ table.frames) (page : Page) :
    Backs pages table (Phys.writePage phys ppn page) := by
  refine backs.others ?_ fun _ => id
  intro other member
  apply Phys.writePage_of_ne
  rintro rfl
  exact outside member

/--
The loop copies each page, and it changes the frames of those pages only.  The
frames of the target are not used by the source.
-/
theorem copyPages_spec (sourceBacks : Backs sourcePages source phys)
    (targetBacks : Backs targetPages target phys)
    (present :
      ∀ vpn ∈ vpns, ∃ src dst,
        sourcePages vpn = some src ∧ targetPages vpn = some dst ∧
          dst.1 ∉ source.frames ∧
          ∀ other page, sourcePages other = some page → page.1 ≠ dst.1)
    (nodup : vpns.Nodup) :
    ∃ after, copyPages source target phys vpns = .ok after ∧
      after.allocator = phys.allocator ∧
      (∀ ppn,
        (∀ vpn ∈ vpns, ∀ dst, targetPages vpn = some dst → dst.1 ≠ ppn) →
          after.memory ppn = phys.memory ppn) ∧
      ∀ vpn ∈ vpns, ∀ src dst,
        sourcePages vpn = some src → targetPages vpn = some dst →
          after.memory dst.1 = phys.memory src.1 := by
  induction vpns generalizing phys with
  | nil => exact ⟨phys, rfl, rfl, fun _ _ => rfl, nofun⟩
  | cons vpn rest induction =>
    rw [nodup_cons] at nodup
    obtain ⟨src, dst, srcPage, dstPage, noTable, different⟩ :=
      present vpn mem_cons_self
    obtain ⟨srcEntry, srcFound, _, srcPpn, _⟩ := sourceBacks.translate srcPage
    obtain ⟨dstEntry, dstFound, _, dstPpn, _⟩ := targetBacks.translate dstPage
    obtain ⟨after, restEq, allocatorEq, kept, copied⟩ :=
      induction
        (sourceBacks.writePage noTable (phys.memory src.1))
        (targetBacks.writePage (targetBacks.notTable dstPage) _)
        (fun other member => present other (mem_cons_of_mem _ member))
        nodup.2
    refine ⟨after, ?_, allocatorEq, ?_, ?_⟩
    · rw [copyPages, srcFound, dstFound]
      dsimp only
      rw [srcPpn, dstPpn]
      exact restEq
    · intro ppn apart
      rw [kept ppn fun other member => apart other (mem_cons_of_mem _ member)]
      exact Phys.writePage_of_ne
        (apart vpn mem_cons_self dst dstPage).symm
    · intro other member otherSrc otherDst otherSrcPage otherDstPage
      rcases mem_cons.mp member with rfl | member
      · rw [srcPage] at otherSrcPage
        rw [dstPage] at otherDstPage
        cases otherSrcPage
        cases otherDstPage
        have untouched :
            ∀ later ∈ rest, ∀ laterDst,
              targetPages later = some laterDst → laterDst.1 ≠ dst.1 := by
          intro later laterMember laterDst laterPage same
          rw [targetBacks.injective laterPage dstPage same] at laterMember
          exact nodup.1 laterMember
        rw [kept dst.1 untouched]
        exact Phys.writePage_self
      · rw [copied other member otherSrc otherDst otherSrcPage otherDstPage]
        exact Phys.writePage_of_ne
          (different other otherSrc otherSrcPage)

end

/-! ## The loop over the areas -/

namespace MemorySet

variable {kernelPage : Nat} {parent child : MemorySet}
  {before phys : KernelMemory} {parentPages pages : Pages}
  {done rest : List MapArea} {area : MapArea}

/--
The child uses frames that were free at the begin of the call, when the memory
was `before`, and no frame that was in use has changed.
-/
structure Fresh (kernelPage : Nat) (before : KernelMemory) (child : MemorySet)
    (phys : KernelMemory) (pages : Pages) : Prop where
  represents : Represents kernelPage child.areas child.pageTable phys pages
  free : ∀ ppn, phys.allocator.Free ppn → before.allocator.Free ppn
  kept :
    ∀ ppn, ¬ before.allocator.Free ppn → phys.memory ppn = before.memory ppn
  tables : ∀ ppn ∈ child.pageTable.frames, before.allocator.Free ppn
  frames :
    ∀ area ∈ child.areas, ∀ vpn frame,
      area.dataFrames.lookup vpn = some frame → before.allocator.Free frame

section

variable (fresh : Fresh kernelPage before child phys pages)

include fresh

/-- The page table of the parent does not change. -/
theorem Fresh.parentBacks (backs : Backs parentPages parent.pageTable before) :
    Backs parentPages parent.pageTable phys :=
  backs.others
    (fun ppn member => fresh.kept ppn (backs.shaped.inUse ppn member))
    fresh.free

/-- An area is mapped: the first half of a turn. -/
theorem Fresh.push
    (framed : area.mapType = .framed) (r_le : area.vpnRange.r ≤ 2 ^ 27)
    {mapped : MemorySet} {after : KernelMemory}
    (returned : child.push phys area.blank = .ok (mapped, after)) :
    ∃ result added,
      mapped.areas = child.areas ++ [result] ∧
        area.blank.Adds pages area.vpnRange.toList result added ∧
        Takes (3 * area.vpnRange.toList.length) child.pageTable.frames
          mapped.pageTable.frames phys after ∧
        Fresh kernelPage before mapped after added := by
  obtain ⟨⟨result, table, after⟩, mapEq, rest⟩ := bind_eq_ok.mp returned
  cases rest
  obtain ⟨added, adds, takes, wereFree, represents⟩ :=
    fresh.represents.map (show area.blank.mapType = .framed from framed) r_le
      (fun _ => rfl) mapEq
  have newFrames : NewFrames before child phys :=
    ⟨fresh.free, fresh.tables, fresh.frames⟩
  have afterFrames := newFrames.map adds takes wereFree fun _ => rfl
  refine ⟨result, added, rfl, adds, takes, represents, afterFrames.free, ?_,
    afterFrames.tables, afterFrames.frames⟩
  intro ppn inUse
  rw [takes.kept ppn (fun isFree => inUse (fresh.free ppn isFree))
    (fun isTable => inUse (fresh.tables ppn isTable)),
    fresh.kept ppn inUse]

/-- The pages of an area are copied: the second half of a turn. -/
theorem Fresh.copy (parentBacks : Backs parentPages parent.pageTable before)
    (holds : area.Holds parentPages) {copy : MapArea}
    (member : copy ∈ child.areas) (sameRange : copy.vpnRange = area.vpnRange) :
    ∃ after,
      copyPages parent.pageTable child.pageTable phys
          area.vpnRange.toList = .ok after ∧
        after.allocator = phys.allocator ∧
        Fresh kernelPage before child after pages ∧
        (∀ vpn dst, ¬ area.vpnRange.Contains vpn → pages vpn = some dst →
          after.memory dst.1 = phys.memory dst.1) ∧
        ∀ vpn src dst, area.vpnRange.Contains vpn →
          parentPages vpn = some src → pages vpn = some dst →
            after.memory dst.1 = before.memory src.1 := by
  have backs := fresh.represents.backs
  -- the frame of a page of the copy was free, so the parent does not use it
  have wasFree :
      ∀ vpn dst, area.vpnRange.Contains vpn → pages vpn = some dst →
        before.allocator.Free dst.1 := by
    intro vpn dst contains dstPage
    rw [← sameRange] at contains
    obtain ⟨frame, found, page⟩ :=
      (fresh.represents.holds copy member).page vpn contains
    rw [page] at dstPage
    cases dstPage
    exact fresh.frames copy member vpn frame found
  have present :
      ∀ vpn ∈ area.vpnRange.toList, ∃ src dst,
        parentPages vpn = some src ∧ pages vpn = some dst ∧
          dst.1 ∉ parent.pageTable.frames ∧
          ∀ other page, parentPages other = some page → page.1 ≠ dst.1 := by
    intro vpn inside
    have contains := VPNRange.mem_toList.mp inside
    obtain ⟨frame, _, srcPage⟩ := holds.page vpn contains
    obtain ⟨newFrame, _, dstPage⟩ :=
      (fresh.represents.holds copy member).page vpn
        (by rw [sameRange]; exact contains)
    have free := wasFree vpn _ contains dstPage
    refine ⟨_, _, srcPage, dstPage, ?_, ?_⟩
    · exact fun isTable => parentBacks.shaped.inUse newFrame isTable free
    · rintro other page otherPage rfl
      exact parentBacks.inUse otherPage free
  obtain ⟨after, copyEq, allocatorEq, untouched, contents⟩ :=
    copyPages_spec (fresh.parentBacks parentBacks) backs present
      area.vpnRange.nodup_toList
  refine ⟨after, copyEq, allocatorEq,
    ⟨?_, ?_, ?_, fresh.tables, fresh.frames⟩, ?_, ?_⟩
  · refine ⟨backs.others ?_ (by rw [allocatorEq]; exact fun _ => id),
      fresh.represents.trampoline_page, fresh.represents.holds,
      fresh.represents.apart, fresh.represents.noTrampoline,
      fresh.represents.covered⟩
    intro ppn isTable
    apply untouched
    rintro vpn _ dst dstPage rfl
    exact backs.notTable dstPage isTable
  · rw [allocatorEq]
    exact fresh.free
  · intro ppn inUse
    rw [untouched ppn, fresh.kept ppn inUse]
    rintro vpn inside dst dstPage rfl
    exact inUse (wasFree vpn dst (VPNRange.mem_toList.mp inside) dstPage)
  · intro vpn dst outside dstPage
    apply untouched
    intro other inside otherDst otherPage same
    rw [backs.injective otherPage dstPage same] at inside
    exact outside (VPNRange.mem_toList.mp inside)
  · intro vpn src dst contains srcPage dstPage
    rw [contents vpn (VPNRange.mem_toList.mpr contains) src dst srcPage
      dstPage, fresh.kept src.1 (parentBacks.inUse srcPage)]

end

/-- The child between two turns of the loop; `done` are the areas so far. -/
structure Copied (kernelPage : Nat) (before : KernelMemory)
    (parentPages : Pages) (done : List MapArea) (child : MemorySet)
    (phys : KernelMemory) (pages : Pages) : Prop extends
    Fresh kernelPage before child phys pages where
  shapes : child.areas.map MapArea.shape = done.map MapArea.shape
  contents :
    ∀ area ∈ done, ∀ vpn, area.vpnRange.Contains vpn →
      ∀ src dst, parentPages vpn = some src → pages vpn = some dst →
        phys.memory dst.1 = before.memory src.1

section

variable (copied : Copied kernelPage before parentPages done child phys pages)

include copied

variable {vpn : Nat}

/-- A page of the child is the trampoline or in an area that was copied. -/
theorem Copied.unmapped (apart : ∀ other ∈ done, MapArea.Apart other area)
    (noTrampoline : ¬ area.vpnRange.Contains trampolineVpn)
    (contains : area.vpnRange.Contains vpn) : pages vpn = none := by
  cases present : pages vpn with
  | none => rfl
  | some page =>
    rcases copied.represents.covered vpn page present with rfl | inArea
    · exact absurd contains noTrampoline
    · obtain ⟨copy, member, inCopy⟩ := inArea
      have member := mem_map_of_mem (f := MapArea.shape) member
      rw [copied.shapes, mem_map] at member
      obtain ⟨other, otherMember, sameShape⟩ := member
      rw [← (Prod.mk.inj sameShape).1] at inCopy
      exact absurd ⟨inCopy, contains⟩ (apart other otherMember vpn)

/-- A page of an area that was copied is a page of the child. -/
theorem Copied.mapped (member : area ∈ done)
    (contains : area.vpnRange.Contains vpn) :
    ∃ page, pages vpn = some page := by
  have member := mem_map_of_mem (f := MapArea.shape) member
  rw [← copied.shapes, mem_map] at member
  obtain ⟨copy, copyMember, sameShape⟩ := member
  rw [← (Prod.mk.inj sameShape).1] at contains
  obtain ⟨frame, _, present⟩ :=
    (copied.represents.holds copy copyMember).page vpn contains
  exact ⟨_, present⟩

/-- The next area can be mapped if there are frames for it. -/
theorem Copied.push_returns (framed : area.mapType = .framed)
    (r_le : area.vpnRange.r ≤ 2 ^ 27)
    (apart : ∀ other ∈ done, MapArea.Apart other area)
    (noTrampoline : ¬ area.vpnRange.Contains trampolineVpn)
    (enough :
      3 * area.vpnRange.toList.length ≤ phys.allocator.available) :
    ∃ result, child.push phys area.blank = .ok result := by
  obtain ⟨result, mapEq⟩ :
      ∃ result,
        area.blank.mapPages child.pageTable phys area.vpnRange.toList =
          .ok result :=
    MapArea.mapPages_returns copied.represents.backs
      (MapArea.NewPages.range framed r_le fun _ => rfl)
      (fun vpn member =>
        copied.unmapped apart noTrampoline (VPNRange.mem_toList.mp member))
      enough
  exact ⟨_, bind_eq_ok.mpr ⟨_, mapEq, rfl⟩⟩

/-- One turn of the loop: an area is mapped, and its pages are copied. -/
theorem Copied.next (parentBacks : Backs parentPages parent.pageTable before)
    (holds : area.Holds parentPages) {mapped : MemorySet}
    {mappedPhys : KernelMemory}
    (returned : child.push phys area.blank = .ok (mapped, mappedPhys)) :
    ∃ after pages,
      copyPages parent.pageTable mapped.pageTable mappedPhys
          area.vpnRange.toList = .ok after ∧
        Copied kernelPage before parentPages (done ++ [area]) mapped after
          pages ∧
        phys.allocator.available ≤
          after.allocator.available + 3 * area.vpnRange.toList.length := by
  obtain ⟨result, added, areasEq, adds, takes, mappedFresh⟩ :=
    copied.push holds.framed holds.r_le returned
  obtain ⟨after, copyEq, allocatorEq, fresh, untouched, contents⟩ :=
    mappedFresh.copy parentBacks holds
      (by rw [areasEq]; exact mem_append_right _ mem_cons_self)
      adds.shape.range_eq
  refine ⟨after, added, copyEq, ⟨fresh, ?_, ?_⟩, ?_⟩
  · rw [areasEq, map_append, map_append, copied.shapes]
    congr 1
    rw [map_singleton, map_singleton, MapArea.shape,
      adds.shape.range_eq, adds.shape.type_eq, adds.shape.perm_eq]
    rfl
  · intro other otherMember vpn contains src dst srcPage dstPage
    rcases mem_append.mp otherMember with old | new
    · obtain ⟨page, here⟩ := copied.mapped old contains
      obtain ⟨stays, outside⟩ := Adds.keeps adds here
      have backs := copied.represents.backs
      obtain rfl : page = dst := Option.some.inj (stays.symm.trans dstPage)
      rw [VPNRange.mem_toList] at outside
      rw [untouched vpn page outside dstPage,
        takes.kept page.1 (backs.inUse here) (backs.notTable here),
        copied.contents other old vpn contains src page srcPage here]
    · rw [mem_singleton.mp new] at contains
      exact contents vpn src dst contains srcPage dstPage
  · rw [allocatorEq]
    exact takes.spent

/-- The whole loop, if it returns. -/
theorem Copied.areas (parentBacks : Backs parentPages parent.pageTable before)
    (holds : ∀ area ∈ rest, area.Holds parentPages) {after : MemorySet}
    {afterPhys : KernelMemory}
    (returned : parent.copyAreas child phys rest = .ok (after, afterPhys)) :
    ∃ pages,
      Copied kernelPage before parentPages (done ++ rest) after afterPhys
        pages := by
  induction rest generalizing done child phys pages with
  | nil =>
    cases returned
    rw [append_nil]
    exact ⟨pages, copied⟩
  | cons area rest induction =>
    obtain ⟨blank, blankEq, laterEq⟩ := bind_eq_ok.mp returned
    rw [MapArea.fromAnother_eq] at blankEq
    cases blankEq
    obtain ⟨⟨mapped, mappedPhys⟩, pushEq, laterEq⟩ := bind_eq_ok.mp laterEq
    obtain ⟨copiedPhys, copyEq, laterEq⟩ := bind_eq_ok.mp laterEq
    obtain ⟨between, nextPages, nextEq, next, _⟩ :=
      copied.next parentBacks (holds area mem_cons_self) pushEq
    obtain rfl : copiedPhys = between :=
      Except.ok.inj (copyEq.symm.trans nextEq)
    have later :=
      induction next
        (fun other member => holds other (mem_cons_of_mem _ member))
        laterEq
    rw [append_assoc] at later
    exact later

end

/-- The number of frames for the pages of areas and their tables. -/
def areaFrames (areas : List MapArea) : Nat :=
  (areas.map fun area => 3 * area.vpnRange.toList.length).sum

/-- The whole loop returns if there are enough frames. -/
theorem Copied.areas_return
    (copied : Copied kernelPage before parentPages done child phys pages)
    (parentBacks : Backs parentPages parent.pageTable before)
    (holds : ∀ area ∈ rest, area.Holds parentPages)
    (apart : (done ++ rest).Pairwise MapArea.Apart)
    (noTrampoline :
      ∀ area ∈ rest, ¬ area.vpnRange.Contains trampolineVpn)
    (enough : areaFrames rest ≤ phys.allocator.available) :
    ∃ result, parent.copyAreas child phys rest = .ok result := by
  induction rest generalizing done child phys pages with
  | nil => exact ⟨_, rfl⟩
  | cons area rest induction =>
    have areaHolds := holds area mem_cons_self
    rw [areaFrames, map_cons, sum_cons, ← areaFrames] at enough
    obtain ⟨⟨mapped, mappedPhys⟩, pushEq⟩ :=
      copied.push_returns areaHolds.framed areaHolds.r_le
        (fun other member =>
          (pairwise_append.mp apart).2.2 other member area
            mem_cons_self)
        (noTrampoline area mem_cons_self) (by omega)
    obtain ⟨between, nextPages, copyEq, next, spent⟩ :=
      copied.next parentBacks areaHolds pushEq
    obtain ⟨result, laterEq⟩ :=
      induction next
        (fun other member => holds other (mem_cons_of_mem _ member))
        (by rw [append_assoc]; exact apart)
        (fun other member => noTrampoline other (mem_cons_of_mem _ member))
        (by omega)
    exact ⟨result, bind_eq_ok.mpr ⟨_, area.fromAnother_eq,
      bind_eq_ok.mpr ⟨_, pushEq, bind_eq_ok.mpr ⟨_, copyEq, laterEq⟩⟩⟩⟩

variable {strampoline : Nat}

/-- The child before the loop has the trampoline and no area. -/
theorem Copied.start (parentPages : Pages) {between : KernelMemory}
    {bare : MemorySet}
    (kernelEq : pageNum (physAddr strampoline) = .ok kernelPage)
    (kernel : ¬ before.allocator.Free kernelPage)
    (bareEq : newBare before = .ok (bare, between))
    (mapped : bare.mapTrampoline between strampoline = .ok (child, phys)) :
    (∃ pages, Copied kernelPage before parentPages [] child phys pages) ∧
      before.allocator.available ≤ phys.allocator.available + 3 := by
  obtain ⟨pages, represents⟩ := Valid.new kernelEq kernel bareEq mapped
  obtain ⟨⟨root, rootPhys⟩, rootEq, rest⟩ := bind_eq_ok.mp bareEq
  cases rest
  have backs := (Maps.new rootEq).1.backs
  obtain ⟨⟨frame, framePhys⟩, frameEq, rest⟩ := bind_eq_ok.mp rootEq
  cases rest
  obtain ⟨vpn, _, rest⟩ := bind_eq_ok.mp mapped
  obtain ⟨ppn, _, rest⟩ := bind_eq_ok.mp rest
  obtain ⟨⟨table, tablePhys⟩, mapEq, rest⟩ := bind_eq_ok.mp rest
  cases rest
  obtain ⟨taken, wasFree⟩ := frameAlloc_takes [] frameEq
  have rootTakes : Takes 1 [] [frame] before between := by
    refine ⟨taken.spent, taken.free, taken.kept, ?_⟩
    intro ppn member
    rw [mem_singleton.mp member]
    exact .inr wasFree
  have takes := rootTakes.trans (map_takes backs.shaped mapEq)
  refine ⟨⟨pages, ⟨represents, takes.free, ?_, ?_, nofun⟩, rfl, nofun⟩,
    takes.spent⟩
  · exact fun ppn inUse => takes.kept ppn inUse not_mem_nil
  · intro ppn isTable
    rcases takes.fresh ppn isTable with impossible | isFree
    · cases impossible
    · exact isFree

theorem start_returns (before : KernelMemory)
    (kernelEq : pageNum (physAddr strampoline) = .ok kernelPage)
    (enough : 3 ≤ before.allocator.available) :
    ∃ bare between child phys,
      newBare before = .ok (bare, between) ∧
        bare.mapTrampoline between strampoline = .ok (child, phys) := by
  obtain ⟨⟨frame, between⟩, frameEq⟩ :=
    frameAlloc_returns (Nat.lt_of_lt_of_le (by decide) enough)
  have spent := (frameAlloc_takes [] frameEq).1.spent
  have rootEq : PageTable.new before = .ok (⟨frame, [frame]⟩, between) :=
    bind_eq_ok.mpr ⟨_, frameEq, rfl⟩
  obtain ⟨shaped, nothing⟩ := Shaped.new rootEq
  obtain ⟨⟨table, phys⟩, mapEq⟩ :
      ∃ result,
        PageTable.map ⟨frame, [frame]⟩ between trampolineVpn kernelPage
          (PTEFlags.r ||| PTEFlags.x) = .ok result :=
    map_returns shaped (nothing _) (by omega)
  exact ⟨⟨⟨frame, [frame]⟩, []⟩, between, _, _,
    bind_eq_ok.mpr ⟨_, rootEq, rfl⟩,
    bind_eq_ok.mpr ⟨_, pageNum_trampoline,
      bind_eq_ok.mpr ⟨_, kernelEq, bind_eq_ok.mpr ⟨_, mapEq, rfl⟩⟩⟩⟩

/-! ## Writes through an address space -/

/-- A frame of the memory set: one of its tables or of its areas. -/
def Owns (set : MemorySet) (ppn : Nat) : Prop :=
  ppn ∈ set.pageTable.frames ∨
    ∃ area ∈ set.areas, ∃ vpn, area.dataFrames.lookup vpn = some ppn

/-- The contents of a page as it is seen through the address space. -/
def seen (set : MemorySet) (phys : KernelMemory) (vpn : Nat) : Option Page :=
  (set.pageTable.mapping phys.memory vpn).map fun entry =>
    phys.memory entry.ppn

/--
A write through the address space.  However much of the page is written, the
page has new contents afterwards.
-/
def write (set : MemorySet) (phys : KernelMemory) (written : Nat × Page) :
    KernelMemory :=
  match set.pageTable.mapping phys.memory written.1 with
  | none => phys
  | some entry => phys.writePage entry.ppn written.2

section

variable {writer reader : MemorySet} {writerPages readerPages : Pages}

variable {vpn : Nat}

theorem seen_eq (backs : Backs pages child.pageTable phys)
    (vpnLt : vpn < 2 ^ 27) :
    child.seen phys vpn =
      (pages vpn).map fun page => phys.memory page.1 := by
  rw [seen, backs.mapping_eq vpn vpnLt, Option.map_map]
  cases present : pages vpn with
  | none => rfl
  | some page =>
    rw [Option.map_some, Option.map_some, Function.comp_apply,
      PageTableEntry.ppn_new (backs.ppn_lt present)]

/-- A write to a page of an area goes to a frame of that area. -/
theorem write_eq
    (represents :
      Represents kernelPage writer.areas writer.pageTable phys writerPages)
    {written : Nat × Page} (member : area ∈ writer.areas)
    (contains : area.vpnRange.Contains written.1) :
    ∃ frame, area.dataFrames.lookup written.1 = some frame ∧
      frame ∉ writer.pageTable.frames ∧ frame ≠ kernelPage ∧
      writer.write phys written = phys.writePage frame written.2 := by
  have backs := represents.backs
  obtain ⟨frame, found, present⟩ :=
    (represents.holds area member).page written.1 contains
  refine ⟨frame, found, backs.notTable present, ?_, ?_⟩
  · rintro rfl
    have same := backs.injective present represents.trampoline_page rfl
    rw [same] at contains
    exact represents.noTrampoline area member contains
  · rw [write, backs.mapping_eq _ (backs.vpn_lt present), present,
      Option.map_some]
    dsimp only
    rw [PageTableEntry.ppn_new (backs.ppn_lt present)]

theorem Represents.writePage {areas : List MapArea} {table : PageTable}
    (represents : Represents kernelPage areas table phys pages) {ppn : Nat}
    (outside : ppn ∉ table.frames) (page : Page) :
    Represents kernelPage areas table (phys.writePage ppn page) pages :=
  { represents with backs := represents.backs.writePage outside page }

/-- A frame of a page is owned, or is that of the trampoline. -/
theorem Represents.owns
    (represents :
      Represents kernelPage reader.areas reader.pageTable phys readerPages)
    {page : Nat × PTEFlags} (present : readerPages vpn = some page) :
    page.1 = kernelPage ∨ reader.Owns page.1 := by
  rcases represents.covered vpn page present with rfl | inArea
  · rw [represents.trampoline_page] at present
    cases present
    exact .inl rfl
  · obtain ⟨area, member, contains⟩ := inArea
    obtain ⟨frame, found, holds⟩ :=
      (represents.holds area member).page vpn contains
    rw [holds] at present
    cases present
    exact .inr (.inr ⟨area, member, vpn, found⟩)

/--
Address spaces without a frame in common: what is written through one of them
is not seen through the other.
-/
theorem writes_unseen
    (writerRepresents :
      Represents kernelPage writer.areas writer.pageTable phys writerPages)
    (readerRepresents :
      Represents kernelPage reader.areas reader.pageTable phys readerPages)
    (separate : ∀ ppn, writer.Owns ppn → ¬ reader.Owns ppn)
    {writes : List (Nat × Page)}
    (inside :
      ∀ written ∈ writes, ∃ area ∈ writer.areas,
        area.vpnRange.Contains written.1) :
    ∀ vpn < 2 ^ 27,
      reader.seen (writes.foldl writer.write phys) vpn =
        reader.seen phys vpn := by
  induction writes generalizing phys with
  | nil => exact fun _ _ => rfl
  | cons written rest induction =>
    intro vpn vpnLt
    obtain ⟨area, member, contains⟩ := inside written mem_cons_self
    obtain ⟨frame, found, notTable, notKernel, writeEq⟩ :=
      write_eq writerRepresents member contains
    have notRead : ¬ reader.Owns frame :=
      separate frame (.inr ⟨area, member, written.1, found⟩)
    rw [foldl_cons, writeEq]
    have readerAfter :=
      readerRepresents.writePage (fun isTable => notRead (.inl isTable))
        written.2
    rw [induction (writerRepresents.writePage notTable written.2)
      readerAfter
      (fun later laterMember =>
        inside later (mem_cons_of_mem _ laterMember)) vpn vpnLt,
      seen_eq readerAfter.backs vpnLt,
      seen_eq readerRepresents.backs vpnLt]
    refine Option.map_congr fun page present => ?_
    apply Phys.writePage_of_ne
    rintro rfl
    rcases readerRepresents.owns present with isKernel | owned
    · exact notKernel isKernel
    · exact notRead owned

end

/-! ## The address space of the child -/

/-- What `from_existed_user` returns, and what it leaves alone. -/
structure Forked (kernelPage : Nat) (parent : MemorySet)
    (before : KernelMemory) (child : MemorySet) (after : KernelMemory) :
    Prop where
  shapes : child.areas.map MapArea.shape = parent.areas.map MapArea.shape
  child_valid : Valid kernelPage child after
  contents :
    ∀ area ∈ parent.areas, ∀ vpn, area.vpnRange.Contains vpn →
      ∃ page, child.seen after vpn = some page ∧
        parent.seen before vpn = some page
  separate : ∀ ppn, child.Owns ppn → ¬ parent.Owns ppn
  parent_valid : Valid kernelPage parent after
  memory_kept :
    ∀ ppn, parent.Owns ppn ∨ ppn = kernelPage →
      after.memory ppn = before.memory ppn
  translations_kept :
    ∀ vpn, parent.pageTable.translate after.memory vpn =
      parent.pageTable.translate before.memory vpn
  child_unseen :
    ∀ writes : List (Nat × Page),
      (∀ written ∈ writes, ∃ area ∈ child.areas,
        area.vpnRange.Contains written.1) →
        ∀ vpn < 2 ^ 27,
          parent.seen (writes.foldl child.write after) vpn =
            parent.seen after vpn
  parent_unseen :
    ∀ writes : List (Nat × Page),
      (∀ written ∈ writes, ∃ area ∈ parent.areas,
        area.vpnRange.Contains written.1) →
        ∀ vpn < 2 ^ 27,
          child.seen (writes.foldl parent.write after) vpn =
            child.seen after vpn

theorem Copied.forked
    (copied :
      Copied kernelPage before parentPages parent.areas child phys pages)
    (parentRepresents :
      Represents kernelPage parent.areas parent.pageTable before
        parentPages) :
    Forked kernelPage parent before child phys := by
  have parentBacks := parentRepresents.backs
  have parentAfter :
      Represents kernelPage parent.areas parent.pageTable phys parentPages :=
    { parentRepresents with backs := copied.parentBacks parentBacks }
  have parentInUse :
      ∀ ppn, parent.Owns ppn ∨ ppn = kernelPage →
        ¬ before.allocator.Free ppn := by
    rintro ppn ((isTable | ⟨area, member, vpn, found⟩) | rfl)
    · exact parentBacks.shaped.inUse ppn isTable
    · have holds := parentRepresents.holds area member
      have contains : area.vpnRange.Contains vpn := by
        by_contra outside
        rw [holds.lookup_none vpn outside] at found
        cases found
      obtain ⟨frame, frameFound, present⟩ := holds.page vpn contains
      rw [found] at frameFound
      cases frameFound
      exact parentBacks.inUse present
    · exact parentBacks.inUse parentRepresents.trampoline_page
  have childFree : ∀ ppn, child.Owns ppn → before.allocator.Free ppn := by
    rintro ppn (isTable | ⟨area, member, vpn, found⟩)
    · exact copied.tables ppn isTable
    · exact copied.frames area member vpn ppn found
  have separate : ∀ ppn, child.Owns ppn → ¬ parent.Owns ppn :=
    fun ppn childOwns parentOwns =>
      parentInUse ppn (.inl parentOwns) (childFree ppn childOwns)
  refine ⟨copied.shapes, ⟨pages, copied.represents⟩, ?_, separate,
    ⟨parentPages, parentAfter⟩, ?_, ?_, ?_, ?_⟩
  · intro area member vpn contains
    obtain ⟨dst, dstPage⟩ := copied.mapped member contains
    obtain ⟨frame, _, srcPage⟩ :=
      (parentRepresents.holds area member).page vpn contains
    have vpnLt := parentBacks.vpn_lt srcPage
    refine ⟨before.memory frame, ?_, ?_⟩
    · rw [seen_eq copied.represents.backs vpnLt, dstPage, Option.map_some,
        copied.contents area member vpn contains _ dst srcPage dstPage]
    · rw [seen_eq parentBacks vpnLt, srcPage]
      rfl
  · exact fun ppn used => copied.kept ppn (parentInUse ppn used)
  · exact (parentBacks.shaped.others
      (fun ppn isTable =>
        copied.kept ppn (parentInUse ppn (.inl (.inl isTable))))
      (fun ppn isTable isFree =>
        parentInUse ppn (.inl (.inl isTable)) (copied.free ppn isFree))).2
  · intro writes inside
    exact writes_unseen copied.represents parentAfter separate inside
  · intro writes inside
    exact writes_unseen parentAfter copied.represents
      (fun ppn parentOwns childOwns => separate ppn childOwns parentOwns)
      inside

variable {strampoline : Nat}

/-- The loops of `from_existed_user` over all areas of the parent. -/
theorem fromExistedUser_copied
    (represents :
      Represents kernelPage parent.areas parent.pageTable before parentPages)
    (kernelEq : pageNum (physAddr strampoline) = .ok kernelPage)
    (returned :
      parent.fromExistedUser before strampoline = .ok (child, phys)) :
    ∃ pages,
      Copied kernelPage before parentPages parent.areas child phys pages := by
  have kernel := represents.backs.inUse represents.trampoline_page
  obtain ⟨⟨bare, between⟩, bareEq, rest⟩ := bind_eq_ok.mp returned
  obtain ⟨⟨start, startPhys⟩, mapped, loopEq⟩ := bind_eq_ok.mp rest
  obtain ⟨⟨pages, copied⟩, _⟩ :=
    Copied.start parentPages kernelEq kernel bareEq mapped
  exact copied.areas represents.backs represents.holds loopEq

theorem fromExistedUser_shapes (valid : Valid kernelPage parent before)
    (kernelEq : pageNum (physAddr strampoline) = .ok kernelPage)
    (returned :
      parent.fromExistedUser before strampoline = .ok (child, phys)) :
    ∃ pages,
      Represents kernelPage child.areas child.pageTable phys pages ∧
        child.areas.map MapArea.shape =
          parent.areas.map MapArea.shape := by
  obtain ⟨parentPages, represents⟩ := valid
  obtain ⟨pages, copied⟩ := fromExistedUser_copied represents kernelEq returned
  exact ⟨pages, copied.represents, copied.shapes⟩

/--
`from_existed_user` returns if the allocator has enough frames, and then the
child is a copy of the parent with which it has no frame in common.
-/
theorem fork_copies_and_isolates_memory {strampoline : Nat}
    (valid : Valid kernelPage parent before)
    (kernelEq : pageNum (physAddr strampoline) = .ok kernelPage) :
    (3 + areaFrames parent.areas ≤ before.allocator.available →
      ∃ child after,
        parent.fromExistedUser before strampoline = .ok (child, after)) ∧
      ∀ child after,
        parent.fromExistedUser before strampoline = .ok (child, after) →
          Forked kernelPage parent before child after := by
  obtain ⟨parentPages, represents⟩ := valid
  have kernel := represents.backs.inUse represents.trampoline_page
  constructor
  · intro enough
    obtain ⟨bare, between, child, phys, bareEq, mapped⟩ :=
      start_returns before kernelEq (by omega)
    obtain ⟨⟨pages, copied⟩, spent⟩ :=
      Copied.start parentPages kernelEq kernel bareEq mapped
    obtain ⟨⟨after, afterPhys⟩, loopEq⟩ :=
      copied.areas_return represents.backs represents.holds
        represents.apart represents.noTrampoline (by omega)
    exact ⟨after, afterPhys, bind_eq_ok.mpr ⟨_, bareEq,
      bind_eq_ok.mpr ⟨_, mapped, loopEq⟩⟩⟩
  · intro child after returned
    obtain ⟨childPages, done⟩ :=
      fromExistedUser_copied represents kernelEq returned
    exact done.forked represents

/-- A process with one page of its own and a trap context is copied. -/
theorem fork_copies_and_isolates_one_thread :
    ∃ parent before child after, Valid 0x80201 parent before ∧
      parent.fromExistedUser before 0x80201000 = .ok (child, after) ∧
      Forked 0x80201 parent before child after := by
  obtain ⟨parent, before, made, enough⟩ :
      ∃ set phys, oneThreadSpace = .ok (set, phys) ∧
        3 + areaFrames set.areas ≤ phys.allocator.available :=
    ⟨_, _, rfl, by decide⟩
  have valid := (oneThreadSpace_reached made).valid
  obtain ⟨returns, forked⟩ :=
    fork_copies_and_isolates_memory valid
      (show pageNum (physAddr 0x80201000) = .ok 0x80201 from rfl)
  obtain ⟨child, after, returned⟩ := returns enough
  exact ⟨parent, before, child, after, valid, returned,
    forked child after returned⟩

end MemorySet

end RCoreOS.Kernel
