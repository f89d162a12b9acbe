import RCoreOS.Kernel.PageMaps

/-!
# The representation invariant of address spaces

In the address space of a user every page has a frame of its own.  `Backs` says
that the page table and the allocator agree with a map of pages, and
`Represents` that the areas of a `MemorySet` do.  Each operation changes the
map on the pages of one area.
-/

namespace RCoreOS.Kernel

open Lib.FallibleRuns PageTable List VPNRange

/-- The page table maps these pages; their frames are in use and are different. -/
structure Backs (pages : Pages) (table : PageTable) (phys : KernelMemory) :
    Prop where
  shaped : table.Shaped phys
  mapping_eq :
    ∀ vpn < 2 ^ 27,
      table.mapping phys.memory vpn =
        (pages vpn).map fun page => .new page.1 (page.2 ||| PTEFlags.v)
  vpn_lt : ∀ {vpn page}, pages vpn = some page → vpn < 2 ^ 27
  ppn_lt : ∀ {vpn page}, pages vpn = some page → page.1 < 2 ^ 44
  inUse :
    ∀ {vpn page}, pages vpn = some page → ¬ phys.allocator.Free page.1
  notTable :
    ∀ {vpn page}, pages vpn = some page → page.1 ∉ table.frames
  injective :
    ∀ {first second firstPage secondPage},
      pages first = some firstPage → pages second = some secondPage →
        firstPage.1 = secondPage.1 → first = second

variable {pages : Pages} {table after : PageTable}
  {phys afterPhys : KernelMemory} {vpn : Nat}

/-- All pages own their frames. -/
theorem Backs.maps (backs : Backs pages table phys) :
    Maps (fun _ => True) pages table phys where
  shaped := backs.shaped
  mapping_eq := backs.mapping_eq
  vpn_lt := backs.vpn_lt
  ppn_lt := backs.ppn_lt
  inUse _ := backs.inUse
  notTable _ := backs.notTable
  injective _ _ := backs.injective

theorem Maps.backs (maps : Maps (fun _ => True) pages table phys) :
    Backs pages table phys where
  shaped := maps.shaped
  mapping_eq := maps.mapping_eq
  vpn_lt := maps.vpn_lt
  ppn_lt := maps.ppn_lt
  inUse := maps.inUse trivial
  notTable := maps.notTable trivial
  injective := maps.injective trivial trivial

/-- A new frame is in use, is no table and is the frame of no page. -/
theorem Backs.frameAlloc (backs : Backs pages table phys) {frame : Nat}
    (returned : phys.frameAlloc = .ok (frame, afterPhys)) :
    Backs pages table afterPhys ∧ frame < 2 ^ 44 ∧
      ¬ afterPhys.allocator.Free frame ∧ frame ∉ table.frames ∧
      ∀ vpn page, pages vpn = some page → page.1 ≠ frame := by
  obtain ⟨maps, frameLt, inUse, notTable, different⟩ :=
    backs.maps.frameAlloc returned
  exact ⟨maps.backs, frameLt, inUse, notTable,
    fun vpn page => different vpn page trivial⟩

/-- The leaf entry of a page of the map. -/
theorem Backs.translate (backs : Backs pages table phys)
    {page : Nat × PTEFlags} (present : pages vpn = some page) :
    ∃ entry, table.translate phys.memory vpn = some entry ∧
      entry.isValid = true ∧ entry.ppn = page.1 ∧
      entry.flags = page.2 ||| PTEFlags.v := by
  have mapped := backs.mapping_eq vpn (backs.vpn_lt present)
  rw [present] at mapped
  obtain ⟨translated, isValid⟩ := mapping_eq_some_iff.mp mapped
  have frameLt := backs.ppn_lt present
  exact ⟨_, translated, isValid, PageTableEntry.ppn_new frameLt,
    PageTableEntry.flags_new frameLt⟩

/-! ## Areas of users -/

namespace MapArea

variable {area result : MapArea} {vpns : List Nat}

section

variable (backs : Backs pages table phys)

include backs

/-- `map_one` adds one page. -/
theorem mapOne_spec (new : area.NewPages (vpn :: vpns))
    (returned :
      area.mapOne table phys vpn = .ok (result, after, afterPhys)) :
    ∃ frame,
      result = { area with dataFrames := area.dataFrames.insert vpn frame } ∧
        pages vpn = none ∧
        Backs (Function.update pages vpn (some (frame, area.mapPerm.bits)))
          after afterPhys := by
  obtain ⟨frame, equal, unmapped, maps⟩ := mapOne_maps new backs.maps returned
  exact ⟨frame, equal, unmapped, maps.backs⟩

/-- A loop of `map_one` adds its pages. -/
theorem mapPages_spec (new : area.NewPages vpns)
    (returned :
      area.mapPages table phys vpns = .ok (result, after, afterPhys)) :
    ∃ added, Adds area pages vpns result added ∧
      Backs added after afterPhys := by
  obtain ⟨added, adds, maps⟩ := mapPages_maps backs.maps new returned
  exact ⟨added, adds, maps.backs⟩

/-- A loop of `unmap_one` removes its pages and gives their frames back. -/
theorem unmapPages_spec (framed : area.mapType = .framed)
    (present :
      ∀ vpn ∈ vpns, ∃ frame flags,
        area.dataFrames.lookup vpn = some frame ∧
          pages vpn = some (frame, flags)) (nodup : vpns.Nodup)
    (returned :
      area.unmapPages table phys vpns = .ok (result, afterPhys)) :
    ∃ left, Removes area pages vpns result left ∧
      Backs left table afterPhys ∧
      afterPhys.allocator.recycled =
        phys.allocator.recycled ++ area.framesOf vpns ∧
      afterPhys.allocator.current = phys.allocator.current := by
  obtain ⟨left, removes, maps, recycled⟩ :=
    unmapPages_maps backs.maps framed
      (fun vpn member => ⟨trivial, present vpn member⟩) nodup returned
  exact ⟨left, removes, maps.backs, recycled⟩

end

/-- The area has a page of the map at each page of its range. -/
structure Holds (area : MapArea) (pages : Pages) : Prop where
  framed : area.mapType = .framed
  r_le : area.vpnRange.r ≤ 2 ^ 27
  page :
    ∀ vpn, area.vpnRange.Contains vpn →
      ∃ frame, area.dataFrames.lookup vpn = some frame ∧
        pages vpn = some (frame, area.mapPerm.bits)
  lookup_none :
    ∀ vpn, ¬ area.vpnRange.Contains vpn → area.dataFrames.lookup vpn = none

variable {changed : Pages}

theorem Holds.congr (holds : area.Holds pages)
    (same :
      ∀ vpn, area.vpnRange.Contains vpn → changed vpn = pages vpn) :
    area.Holds changed where
  framed := holds.framed
  r_le := holds.r_le
  page vpn contains := by
    obtain ⟨frame, found, present⟩ := holds.page vpn contains
    exact ⟨frame, found, (same vpn contains).trans present⟩
  lookup_none := holds.lookup_none

/-- The areas have no page in common. -/
def Apart (first second : MapArea) : Prop :=
  ∀ vpn, ¬ (first.vpnRange.Contains vpn ∧ second.vpnRange.Contains vpn)

theorem Apart.symm {first second : MapArea} (apart : Apart first second) :
    Apart second first :=
  fun vpn both => apart vpn ⟨both.2, both.1⟩

end MapArea

namespace MemorySet

/-- The page of the trampoline. -/
def trampolineVpn : Nat := 2 ^ 27 - 1

theorem pageNum_trampoline :
    pageNum (virtAddr trampoline) = .ok trampolineVpn := by decide

variable {owned : Nat → Prop} {kernelPage : Nat}
  {areas others : List MapArea} {area result : MapArea}

/--
The areas and the trampoline make up the map of pages.  `kernelPage` is the
frame of the trampoline.  The framed areas have the frames of their pages, and
these pages own them.
-/
structure Spans (owned : Nat → Prop) (kernelPage : Nat)
    (areas : List MapArea) (table : PageTable) (phys : KernelMemory)
    (pages : Pages) : Prop where
  maps : Maps owned pages table phys
  trampoline_page :
    pages trampolineVpn = some (kernelPage, PTEFlags.r ||| PTEFlags.x)
  present :
    ∀ area ∈ areas, ∀ vpn, area.vpnRange.Contains vpn →
      ∃ ppn, pages vpn = some (ppn, area.mapPerm.bits)
  framed :
    ∀ area ∈ areas, area.mapType = .framed →
      area.Holds pages ∧ ∀ vpn, area.vpnRange.Contains vpn → owned vpn
  identical :
    ∀ area ∈ areas, area.mapType = .identical →
      ∀ vpn, area.vpnRange.Contains vpn → ¬ owned vpn
  apart : areas.Pairwise MapArea.Apart
  noTrampoline :
    ∀ area ∈ areas, ¬ area.vpnRange.Contains trampolineVpn
  covered :
    ∀ vpn page, pages vpn = some page →
      vpn = trampolineVpn ∨ ∃ area ∈ areas, area.vpnRange.Contains vpn

/-- The order of the areas does not matter. -/
theorem Spans.perm (spans : Spans owned kernelPage areas table phys pages)
    (perm : others.Perm areas) :
    Spans owned kernelPage others table phys pages where
  maps := spans.maps
  trampoline_page := spans.trampoline_page
  present area member := spans.present area (perm.mem_iff.mp member)
  framed area member := spans.framed area (perm.mem_iff.mp member)
  identical area member := spans.identical area (perm.mem_iff.mp member)
  apart := (perm.pairwise_iff fun apart => apart.symm).mpr spans.apart
  noTrampoline area member := spans.noTrampoline area (perm.mem_iff.mp member)
  covered vpn page present := by
    rcases spans.covered vpn page present with isTrampoline | inArea
    · exact .inl isTrampoline
    · obtain ⟨area, member, contains⟩ := inArea
      exact .inr ⟨area, perm.mem_iff.mpr member, contains⟩

variable {added left : Pages} {vpns : List Nat}

/-- A new area whose pages were not mapped before. -/
theorem Spans.insert (spans : Spans owned kernelPage others table phys pages)
    (new :
      ∀ vpn, result.vpnRange.Contains vpn → pages vpn = none ∧
        ∃ ppn, added vpn = some (ppn, result.mapPerm.bits))
    (old : ∀ vpn, ¬ result.vpnRange.Contains vpn → added vpn = pages vpn)
    (framed :
      result.mapType = .framed →
        result.Holds added ∧ ∀ vpn, result.vpnRange.Contains vpn → owned vpn)
    (identical :
      result.mapType = .identical →
        ∀ vpn, result.vpnRange.Contains vpn → ¬ owned vpn)
    (maps : Maps owned added after afterPhys) :
    Spans owned kernelPage (result :: others) after afterPhys added := by
  have outside :
      ∀ {vpn page}, pages vpn = some page →
        ¬ result.vpnRange.Contains vpn := by
    intro vpn page present contains
    rw [(new vpn contains).1] at present
    cases present
  have keeps :
      ∀ {vpn page}, pages vpn = some page → added vpn = some page :=
    fun present => (old _ (outside present)).trans present
  refine ⟨maps, keeps spans.trampoline_page, ?_, ?_, ?_, ?_, ?_, ?_⟩
  · intro other member vpn contains
    rcases mem_cons.mp member with rfl | member
    · exact (new vpn contains).2
    · obtain ⟨ppn, present⟩ := spans.present other member vpn contains
      exact ⟨ppn, keeps present⟩
  · intro other member isFramed
    rcases mem_cons.mp member with rfl | member
    · exact framed isFramed
    · obtain ⟨holds, own⟩ := spans.framed other member isFramed
      refine ⟨holds.congr fun vpn contains => ?_, own⟩
      obtain ⟨ppn, present⟩ := spans.present other member vpn contains
      exact (keeps present).trans present.symm
  · intro other member
    rcases mem_cons.mp member with rfl | member
    · exact identical
    · exact spans.identical other member
  · refine pairwise_cons.mpr ⟨?_, spans.apart⟩
    rintro other member vpn ⟨inResult, inOther⟩
    obtain ⟨ppn, present⟩ := spans.present other member vpn inOther
    exact outside present inResult
  · intro other member
    rcases mem_cons.mp member with rfl | member
    · exact outside spans.trampoline_page
    · exact spans.noTrampoline other member
  · intro vpn page present
    by_cases inResult : result.vpnRange.Contains vpn
    · exact .inr ⟨result, mem_cons_self, inResult⟩
    · rw [old vpn inResult] at present
      rcases spans.covered vpn page present with isTrampoline | inArea
      · exact .inl isTrampoline
      · obtain ⟨other, member, contains⟩ := inArea
        exact .inr ⟨other, mem_cons_of_mem _ member, contains⟩

/-- An area whose pages are all removed. -/
theorem Spans.remove
    (spans : Spans owned kernelPage (area :: others) table phys pages)
    (gone : ∀ vpn, area.vpnRange.Contains vpn → left vpn = none)
    (old : ∀ vpn, ¬ area.vpnRange.Contains vpn → left vpn = pages vpn)
    (maps : Maps owned left table afterPhys) :
    Spans owned kernelPage others table afterPhys left := by
  have apart := pairwise_cons.mp spans.apart
  have keeps :
      ∀ other ∈ others, ∀ vpn, other.vpnRange.Contains vpn →
        left vpn = pages vpn := by
    intro other member vpn contains
    exact old vpn fun inArea => apart.1 other member vpn ⟨inArea, contains⟩
  refine ⟨maps, ?_, ?_, ?_, ?_, apart.2, ?_, ?_⟩
  · rw [old _ (spans.noTrampoline area mem_cons_self)]
    exact spans.trampoline_page
  · intro other member vpn contains
    rw [keeps other member vpn contains]
    exact spans.present other (mem_cons_of_mem _ member) vpn contains
  · intro other member isFramed
    obtain ⟨holds, own⟩ :=
      spans.framed other (mem_cons_of_mem _ member) isFramed
    exact ⟨holds.congr (keeps other member), own⟩
  · exact fun other member => spans.identical other (mem_cons_of_mem _ member)
  · exact fun other member =>
      spans.noTrampoline other (mem_cons_of_mem _ member)
  · intro vpn page present
    have outside : ¬ area.vpnRange.Contains vpn := by
      intro contains
      rw [gone vpn contains] at present
      cases present
    rw [old vpn outside] at present
    rcases spans.covered vpn page present with isTrampoline | inArea
    · exact .inl isTrampoline
    · obtain ⟨other, member, contains⟩ := inArea
      rcases mem_cons.mp member with rfl | member
      · exact absurd contains outside
      · exact .inr ⟨other, member, contains⟩

/--
The areas and the trampoline make up the map of pages.  `kernelPage` is the
frame of the trampoline.
-/
structure Represents (kernelPage : Nat) (areas : List MapArea)
    (table : PageTable) (phys : KernelMemory) (pages : Pages) : Prop where
  backs : Backs pages table phys
  trampoline_page :
    pages trampolineVpn = some (kernelPage, PTEFlags.r ||| PTEFlags.x)
  holds : ∀ area ∈ areas, area.Holds pages
  apart : areas.Pairwise MapArea.Apart
  noTrampoline :
    ∀ area ∈ areas, ¬ area.vpnRange.Contains trampolineVpn
  covered :
    ∀ vpn page, pages vpn = some page →
      vpn = trampolineVpn ∨ ∃ area ∈ areas, area.vpnRange.Contains vpn

/-- All areas of a user are framed, and all pages own their frames. -/
theorem Represents.spans
    (represents : Represents kernelPage areas table phys pages) :
    Spans (fun _ => True) kernelPage areas table phys pages where
  maps := represents.backs.maps
  trampoline_page := represents.trampoline_page
  present area member vpn contains := by
    obtain ⟨frame, _, present⟩ :=
      (represents.holds area member).page vpn contains
    exact ⟨frame, present⟩
  framed area member _ := ⟨represents.holds area member, fun _ _ => trivial⟩
  identical area member isIdentical := by
    rw [(represents.holds area member).framed] at isIdentical
    cases isIdentical
  apart := represents.apart
  noTrampoline := represents.noTrampoline
  covered := represents.covered

theorem Spans.represents
    (spans : Spans (fun _ => True) kernelPage areas table phys pages)
    (framed : ∀ area ∈ areas, area.mapType = .framed) :
    Represents kernelPage areas table phys pages where
  backs := spans.maps.backs
  trampoline_page := spans.trampoline_page
  holds area member := (spans.framed area member (framed area member)).1
  apart := spans.apart
  noTrampoline := spans.noTrampoline
  covered := spans.covered

/-- The order of the areas does not matter. -/
theorem Represents.perm
    (represents : Represents kernelPage areas table phys pages)
    (perm : others.Perm areas) :
    Represents kernelPage others table phys pages :=
  (represents.spans.perm perm).represents fun area member =>
    (represents.holds area (perm.mem_iff.mp member)).framed

theorem findArea_eq_some {startVpn : Nat} {before behind : List MapArea}
    (found : findArea startVpn areas = some (before, area, behind)) :
    areas = before ++ area :: behind ∧ area.vpnRange.l = startVpn := by
  induction areas generalizing before with
  | nil => cases found
  | cons head tail induction =>
    rw [findArea] at found
    split at found
    · next here =>
        cases found
        exact ⟨rfl, here⟩
    · rw [Option.map_eq_some_iff] at found
      obtain ⟨⟨earlier, inside, later⟩, tailFound, equal⟩ := found
      cases equal
      obtain ⟨split, here⟩ := induction tailFound
      exact ⟨by rw [split]; rfl, here⟩

/-! ## Growing and shrinking -/

/-- A page that was there stays, and was not one of the new pages. -/
theorem Adds.keeps {page : Nat × PTEFlags}
    (adds : area.Adds pages vpns result added)
    (present : pages vpn = some page) :
    added vpn = some page ∧ vpn ∉ vpns := by
  have outside : vpn ∉ vpns := by
    intro member
    rw [(adds.new vpn member).1] at present
    cases present
  exact ⟨(adds.old vpn outside).1.trans present, outside⟩

theorem Adds.holds {other : MapArea}
    (adds : area.Adds pages vpns result added) (holds : other.Holds pages) :
    other.Holds added ∧ ∀ vpn ∈ vpns, ¬ other.vpnRange.Contains vpn := by
  have kept :
      ∀ vpn, other.vpnRange.Contains vpn →
        added vpn = pages vpn ∧ vpn ∉ vpns := by
    intro vpn contains
    obtain ⟨frame, _, present⟩ := holds.page vpn contains
    obtain ⟨still, outside⟩ := Adds.keeps adds present
    exact ⟨still.trans present.symm, outside⟩
  refine ⟨holds.congr fun vpn contains => (kept vpn contains).1, ?_⟩
  intro vpn member contains
  exact (kept vpn contains).2 member

/-- The pages that were added to a new area are the pages of its range. -/
theorem Adds.holds_new
    (adds : area.Adds pages area.vpnRange.toList result added)
    (framed : area.mapType = .framed) (r_le : area.vpnRange.r ≤ 2 ^ 27)
    (empty : ∀ vpn, area.dataFrames.lookup vpn = none) :
    result.Holds added := by
  have rangeEq := adds.shape.range_eq
  have inside :
      ∀ vpn, result.vpnRange.Contains vpn ↔ vpn ∈ area.vpnRange.toList := by
    intro vpn
    rw [rangeEq, mem_toList]
  refine ⟨adds.shape.type_eq.trans framed, by rw [rangeEq]; exact r_le, ?_, ?_⟩
  · intro vpn contains
    rw [adds.shape.perm_eq]
    exact (adds.new vpn ((inside vpn).mp contains)).2
  · intro vpn outside
    rw [inside] at outside
    exact (adds.old vpn outside).2.trans (empty vpn)

/-- A new area with frames for all of its pages. -/
theorem Spans.insertFramed
    (spans : Spans owned kernelPage others table phys pages)
    (adds : area.Adds pages area.vpnRange.toList result added)
    (framed : area.mapType = .framed) (r_le : area.vpnRange.r ≤ 2 ^ 27)
    (empty : ∀ vpn, area.dataFrames.lookup vpn = none)
    (own : ∀ vpn, area.vpnRange.Contains vpn → owned vpn)
    (maps : Maps owned added after afterPhys) :
    Spans owned kernelPage (result :: others) after afterPhys added := by
  have rangeEq := adds.shape.range_eq
  refine spans.insert ?_ ?_ ?_ ?_ maps
  · intro vpn contains
    rw [rangeEq] at contains
    obtain ⟨unmapped, frame, _, present⟩ :=
      adds.new vpn (mem_toList.mpr contains)
    rw [adds.shape.perm_eq]
    exact ⟨unmapped, frame, present⟩
  · intro vpn outside
    rw [rangeEq, ← mem_toList] at outside
    exact (adds.old vpn outside).1
  · intro _
    rw [rangeEq]
    exact ⟨Adds.holds_new adds framed r_le empty, own⟩
  · intro isIdentical
    rw [adds.shape.type_eq, framed] at isIdentical
    cases isIdentical

theorem Represents.insert
    (represents : Represents kernelPage others table phys pages)
    (adds : area.Adds pages area.vpnRange.toList result added)
    (framed : area.mapType = .framed) (r_le : area.vpnRange.r ≤ 2 ^ 27)
    (empty : ∀ vpn, area.dataFrames.lookup vpn = none)
    (backs : Backs added after afterPhys) :
    Represents kernelPage (result :: others) after afterPhys added := by
  refine (represents.spans.insertFramed adds framed r_le empty
    (fun _ _ => trivial) backs.maps).represents ?_
  intro other member
  rcases mem_cons.mp member with rfl | member
  · exact adds.shape.type_eq.trans framed
  · exact (represents.holds other member).framed

variable {range : VPNRange}

section

variable (represents :
    Represents kernelPage (area :: others) table phys pages)

include represents

/-- An area that grew by the pages behind it. -/
theorem Represents.append {extra : VPNRange}
    (adds : area.Adds pages extra.toList result added)
    (startEq : range.l = area.vpnRange.l) (endEq : range.r = extra.r)
    (joint : extra.l = area.vpnRange.r) (r_le : extra.r ≤ 2 ^ 27)
    (backs : Backs added after afterPhys) :
    Represents kernelPage ({ result with vpnRange := range } :: others)
      after afterPhys added := by
  have areaHolds := represents.holds area mem_cons_self
  have areaLe := area.vpnRange.le
  have extraLe := extra.le
  have inside :
      ∀ vpn, range.Contains vpn ↔
        vpn ∈ extra.toList ∨ area.vpnRange.Contains vpn := by
    intro vpn
    rw [mem_toList, VPNRange.Contains, VPNRange.Contains,
      VPNRange.Contains, startEq, endEq, joint]
    omega
  have grownHolds : { result with vpnRange := range : MapArea }.Holds added := by
    refine ⟨adds.shape.type_eq.trans areaHolds.framed,
      by dsimp only; rw [endEq]; exact r_le, ?_, ?_⟩
    · intro vpn contains
      dsimp only
      rw [adds.shape.perm_eq]
      by_cases new : vpn ∈ extra.toList
      · exact (adds.new vpn new).2
      · have old := ((inside vpn).mp contains).resolve_left new
        obtain ⟨frame, found, present⟩ := areaHolds.page vpn old
        obtain ⟨sameAdded, sameFound⟩ := adds.old vpn new
        exact ⟨frame, sameFound.trans found, sameAdded.trans present⟩
    · intro vpn outside
      dsimp only at outside ⊢
      rw [inside, not_or] at outside
      exact (adds.old vpn outside.1).2.trans
        (areaHolds.lookup_none vpn outside.2)
  obtain ⟨trampolineStays, trampolineOutside⟩ :=
    Adds.keeps adds represents.trampoline_page
  have apart := pairwise_cons.mp represents.apart
  refine ⟨backs, trampolineStays, ?_, ?_, ?_, ?_⟩
  · intro other member
    rcases mem_cons.mp member with rfl | member
    · exact grownHolds
    · exact (Adds.holds adds
        (represents.holds other (mem_cons_of_mem _ member))).1
  · refine pairwise_cons.mpr ⟨?_, apart.2⟩
    rintro other member vpn ⟨inGrown, inOther⟩
    rcases (inside vpn).mp inGrown with new | old
    · exact (Adds.holds adds
        (represents.holds other (mem_cons_of_mem _ member))).2 vpn new
        inOther
    · exact apart.1 other member vpn ⟨old, inOther⟩
  · intro other member
    rcases mem_cons.mp member with rfl | member
    · dsimp only
      rw [inside, not_or]
      exact ⟨trampolineOutside, represents.noTrampoline area mem_cons_self⟩
    · exact represents.noTrampoline other (mem_cons_of_mem _ member)
  · intro vpn page present
    by_cases new : vpn ∈ extra.toList
    · exact .inr ⟨_, mem_cons_self, (inside vpn).mpr (.inl new)⟩
    · rw [(adds.old vpn new).1] at present
      rcases represents.covered vpn page present with isTrampoline | inArea
      · exact .inl isTrampoline
      · obtain ⟨other, member, contains⟩ := inArea
        rcases mem_cons.mp member with rfl | member
        · exact .inr
            ⟨_, mem_cons_self, (inside vpn).mpr (.inr contains)⟩
        · exact .inr ⟨other, mem_cons_of_mem _ member, contains⟩

/-- Pages of one area are removed from the map and from that area. -/
theorem Represents.keeps_others (removes : area.Removes pages vpns result left)
    (inArea : ∀ vpn ∈ vpns, area.vpnRange.Contains vpn) :
    left trampolineVpn = some (kernelPage, PTEFlags.r ||| PTEFlags.x) ∧
      ∀ other ∈ others, other.Holds left := by
  have apart := pairwise_cons.mp represents.apart
  constructor
  · have outside : trampolineVpn ∉ vpns := fun member =>
      represents.noTrampoline area mem_cons_self (inArea _ member)
    rw [(removes.old _ outside).1]
    exact represents.trampoline_page
  · intro other member
    refine (represents.holds other (mem_cons_of_mem _ member)).congr
      fun vpn contains => (removes.old vpn fun removed => ?_).1
    exact apart.1 other member vpn ⟨inArea vpn removed, contains⟩

end

/-- The pages of a framed area are removed. -/
theorem Spans.removeFramed
    (spans : Spans owned kernelPage (area :: others) table phys pages)
    (removes : area.Removes pages area.vpnRange.toList result left)
    (maps : Maps owned left table afterPhys) :
    Spans owned kernelPage others table afterPhys left := by
  refine spans.remove ?_ ?_ maps
  · intro vpn contains
    exact (removes.gone vpn (mem_toList.mpr contains)).1
  · intro vpn outside
    rw [← mem_toList] at outside
    exact (removes.old vpn outside).1

/-- An area whose last pages are removed. -/
theorem Represents.shrink {removed : VPNRange}
    (represents :
      Represents kernelPage (area :: others) table phys pages)
    (removes : area.Removes pages removed.toList result left)
    (startEq : range.l = area.vpnRange.l) (endEq : range.r = removed.l)
    (lastEq : removed.r = area.vpnRange.r)
    (backs : Backs left table afterPhys) :
    Represents kernelPage ({ result with vpnRange := range } :: others)
      table afterPhys left := by
  have areaHolds := represents.holds area mem_cons_self
  have rangeLe := range.le
  have removedLe := removed.le
  have inside :
      ∀ vpn, range.Contains vpn ↔
        area.vpnRange.Contains vpn ∧ vpn ∉ removed.toList := by
    intro vpn
    rw [mem_toList, VPNRange.Contains, VPNRange.Contains,
      VPNRange.Contains, startEq, endEq, lastEq]
    omega
  have inArea :
      ∀ vpn ∈ removed.toList, area.vpnRange.Contains vpn := by
    intro vpn member
    rw [mem_toList, VPNRange.Contains] at member
    rw [VPNRange.Contains]
    omega
  obtain ⟨trampolineStays, othersHold⟩ :=
    represents.keeps_others removes inArea
  have shrunkHolds :
      { result with vpnRange := range : MapArea }.Holds left := by
    have r_le := areaHolds.r_le
    refine ⟨removes.shape.type_eq.trans areaHolds.framed,
      by dsimp only; omega, ?_, ?_⟩
    · intro vpn contains
      dsimp only
      rw [removes.shape.perm_eq]
      obtain ⟨old, kept⟩ := (inside vpn).mp contains
      obtain ⟨frame, found, present⟩ := areaHolds.page vpn old
      obtain ⟨sameLeft, sameFound⟩ := removes.old vpn kept
      exact ⟨frame, sameFound.trans found, sameLeft.trans present⟩
    · intro vpn outside
      dsimp only at outside ⊢
      by_cases gone : vpn ∈ removed.toList
      · exact (removes.gone vpn gone).2
      · rw [(removes.old vpn gone).2]
        refine areaHolds.lookup_none vpn fun old => outside ?_
        exact (inside vpn).mpr ⟨old, gone⟩
  have apart := pairwise_cons.mp represents.apart
  refine ⟨backs, trampolineStays, ?_, ?_, ?_, ?_⟩
  · intro other member
    rcases mem_cons.mp member with rfl | member
    · exact shrunkHolds
    · exact othersHold other member
  · refine pairwise_cons.mpr ⟨?_, apart.2⟩
    rintro other member vpn ⟨inShrunk, inOther⟩
    exact apart.1 other member vpn ⟨((inside vpn).mp inShrunk).1, inOther⟩
  · intro other member
    rcases mem_cons.mp member with rfl | member
    · intro contains
      exact represents.noTrampoline area mem_cons_self
        ((inside _).mp contains).1
    · exact represents.noTrampoline other (mem_cons_of_mem _ member)
  · intro vpn page present
    have kept : vpn ∉ removed.toList := by
      intro member
      rw [(removes.gone vpn member).1] at present
      cases present
    rw [(removes.old vpn kept).1] at present
    rcases represents.covered vpn page present with isTrampoline | inSome
    · exact .inl isTrampoline
    · obtain ⟨other, member, contains⟩ := inSome
      rcases mem_cons.mp member with rfl | member
      · exact .inr
          ⟨_, mem_cons_self, (inside vpn).mpr ⟨contains, kept⟩⟩
      · exact .inr ⟨other, mem_cons_of_mem _ member, contains⟩

end MemorySet

end RCoreOS.Kernel
