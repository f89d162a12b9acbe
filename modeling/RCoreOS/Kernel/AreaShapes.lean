import RCoreOS.Kernel.MemorySetInvariant

/-!
# Address spaces by the shapes of their areas

`Arranged` says which ranges with which permissions the areas of an address
space have, in any order.  `insert_framed_area` adds one of them, and
`remove_area_with_start_vpn` removes the one that starts at a page, if there
is no other that starts there.
-/

namespace RCoreOS.Kernel

open Lib.FallibleRuns PageTable List

/-! ## Addresses -/

/-- Subtraction of `usize`; it wraps. -/
def usizeSub (left right : Nat) : Nat :=
  (left + (2 ^ 64 - right % 2 ^ 64)) % 2 ^ 64

/-- The page of a virtual address. -/
def pageOf (va : Nat) : Nat := floor (virtAddr va)

theorem virtAddr_lt (va : Nat) : virtAddr va < 2 ^ 39 := by
  rw [virtAddr_eq_mod]
  exact Nat.mod_lt _ (by decide)

theorem pageOf_lt (va : Nat) : pageOf va < 2 ^ 27 := by
  rw [pageOf, virtAddr_eq_mod, floor, pageSize]
  omega

variable {page : Nat}

/-- The page of an address of the lower half. -/
theorem floor_low (small : page < 2 ^ 27) :
    floor (virtAddr (page * pageSize)) = page := by
  rw [virtAddr_eq_mod, floor, pageSize]
  omega

theorem ceil_low (small : page < 2 ^ 27) :
    ceil (virtAddr (page * pageSize)) = page := by
  rw [virtAddr_eq_mod, ceil, pageSize]
  omega

/-- The page of an address of the upper half. -/
theorem floor_high (above : 2 ^ 52 - 2 ^ 27 ≤ page) (small : page < 2 ^ 52) :
    floor (virtAddr (page * pageSize)) = page - (2 ^ 52 - 2 ^ 27) := by
  rw [virtAddr_eq_mod, floor, pageSize]
  omega

theorem ceil_high (above : 2 ^ 52 - 2 ^ 27 ≤ page) (small : page < 2 ^ 52) :
    ceil (virtAddr (page * pageSize)) = page - (2 ^ 52 - 2 ^ 27) := by
  rw [virtAddr_eq_mod, ceil, pageSize]
  omega

/-- The conversion of an address that is the start of a page. -/
theorem pageNum_page (page : Nat) :
    pageNum (virtAddr (page * pageSize)) =
      .ok (floor (virtAddr (page * pageSize))) := by
  refine if_pos ?_
  rw [virtAddr_eq_mod, pageSize]
  change _ &&& (2 ^ 12 - 1) = 0
  rw [Nat.and_two_pow_sub_one_eq_mod]
  omega

/-! ## Shapes -/

/-- The range, the kind and the permissions of an area. -/
abbrev Shape := VPNRange × MapType × MapPermission

namespace MemorySet

variable {owned : Nat → Prop} {kernelPage : Nat} {shapes : List Shape}
  {shape : Shape} {set after : MemorySet} {phys afterPhys : KernelMemory}
  {pages : Pages} {vpn : Nat}

/-- The page of an address is mapped with these flags. -/
def MappedWith (memorySet : MemorySet) (phys : KernelMemory) (va : Nat)
    (flags : PTEFlags) : Prop :=
  ∃ entry,
    memorySet.pageTable.translate phys.memory (pageOf va) = some entry ∧
      entry.isValid = true ∧ entry.flags = flags ||| PTEFlags.v

/-- The page of an address is not mapped. -/
def UnmappedAt (memorySet : MemorySet) (phys : KernelMemory) (va : Nat) :
    Prop :=
  memorySet.pageTable.mapping phys.memory (pageOf va) = none

/--
The step unmaps the pages of these addresses, and it changes no other page.
-/
def UnmapsExactly (inside : Nat → Prop) (before : MemorySet)
    (beforePhys : KernelMemory) (after : MemorySet)
    (afterPhys : KernelMemory) : Prop :=
  (∀ va, inside va → UnmappedAt after afterPhys va) ∧
    ∀ vpn < 2 ^ 27, (∀ va, inside va → pageOf va ≠ vpn) →
      after.pageTable.mapping afterPhys.memory vpn =
        before.pageTable.mapping beforePhys.memory vpn

/-- The areas have these shapes and make up the map of pages. -/
structure Arranged (owned : Nat → Prop) (kernelPage : Nat)
    (shapes : List Shape) (set : MemorySet) (phys : KernelMemory)
    (pages : Pages) : Prop where
  spans : Spans owned kernelPage set.areas set.pageTable phys pages
  perm : (set.areas.map MapArea.shape).Perm shapes

section

variable (arranged : Arranged owned kernelPage shapes set phys pages)

include arranged

theorem Arranged.of_perm {others : List Shape} (perm : shapes.Perm others) :
    Arranged owned kernelPage others set phys pages :=
  ⟨arranged.spans, arranged.perm.trans perm⟩

/-- There is an area of each shape. -/
theorem Arranged.area (member : shape ∈ shapes) :
    ∃ area ∈ set.areas, area.shape = shape :=
  mem_map.mp (arranged.perm.mem_iff.mpr member)

theorem Arranged.mapping_eq (vpnLt : vpn < 2 ^ 27) :
    set.pageTable.mapping phys.memory vpn =
      (pages vpn).map fun page => .new page.1 (page.2 ||| PTEFlags.v) :=
  arranged.spans.maps.mapping_eq vpn vpnLt

/-- The pages of each area are mapped with the permissions of the area. -/
theorem Arranged.mapped (member : shape ∈ shapes)
    (contains : shape.1.Contains vpn) :
    ∃ entry, set.pageTable.translate phys.memory vpn = some entry ∧
      entry.isValid = true ∧ entry.flags = shape.2.2.bits ||| PTEFlags.v := by
  obtain ⟨area, areaMember, rfl⟩ := arranged.area member
  obtain ⟨ppn, present⟩ := arranged.spans.present area areaMember vpn contains
  have mapped := arranged.mapping_eq (arranged.spans.maps.vpn_lt present)
  rw [present] at mapped
  obtain ⟨translated, isValid⟩ := mapping_eq_some_iff.mp mapped
  exact ⟨_, translated, isValid,
    PageTableEntry.flags_new (arranged.spans.maps.ppn_lt present)⟩

/-- A page that is neither in an area nor the trampoline is not mapped. -/
theorem Arranged.unmapped (vpnLt : vpn < trampolineVpn)
    (outside : ∀ shape ∈ shapes, ¬ shape.1.Contains vpn) :
    set.pageTable.mapping phys.memory vpn = none := by
  have small : vpn < 2 ^ 27 := Nat.lt_of_lt_of_le vpnLt (by decide)
  rw [arranged.mapping_eq small]
  cases present : pages vpn with
  | none => rfl
  | some page =>
    rcases arranged.spans.covered vpn page present with same | inArea
    · exact absurd same (Nat.ne_of_lt vpnLt)
    · obtain ⟨area, member, contains⟩ := inArea
      exact absurd contains
        (outside area.shape
          (arranged.perm.subset (mem_map_of_mem member)))

/-- `insert_framed_area` adds a shape and maps the pages of its range only. -/
theorem Arranged.insert (range : VPNRange) {startVa endVa : Nat}
    {permission : MapPermission} (endLt : endVa < 2 ^ 39)
    (startEq : floor startVa = range.l) (endEq : ceil endVa = range.r)
    (own : ∀ vpn, range.Contains vpn → owned vpn)
    (returned :
      set.insertFramedArea phys startVa endVa permission =
        .ok (after, afterPhys)) :
    ∃ added,
      Arranged owned kernelPage (shapes ++ [(range, .framed, permission)])
          after afterPhys added ∧
        ∀ vpn, ¬ range.Contains vpn → added vpn = pages vpn := by
  obtain ⟨made, result, added, madeEq, areasEq, shapeEq, old, spans⟩ :=
    arranged.spans.insertFramedArea endLt
      (by rw [startEq, endEq]; exact fun vpn lo hi => own vpn ⟨lo, hi⟩)
      returned
  obtain rfl : made = range := by
    obtain ⟨_, leftEq, rightEq⟩ := VPNRange.new_eq_ok madeEq
    cases made
    cases range
    simp only [VPNRange.mk.injEq]
    exact ⟨leftEq.trans startEq, rightEq.trans endEq⟩
  refine ⟨added, ⟨spans, ?_⟩, old⟩
  rw [areasEq, map_append, map_singleton, shapeEq]
  exact arranged.perm.append_right _

end

theorem findArea_eq_none {startVpn : Nat} {areas : List MapArea}
    (nothing : findArea startVpn areas = none) :
    ∀ area ∈ areas, area.vpnRange.l ≠ startVpn := by
  induction areas with
  | nil => exact nofun
  | cons head tail induction =>
    rw [findArea] at nothing
    split at nothing
    · cases nothing
    · next different =>
        rw [Option.map_eq_none_iff] at nothing
        intro area member
        rcases mem_cons.mp member with rfl | member
        · exact different
        · exact induction nothing area member

section

variable
  (arranged : Arranged owned kernelPage (shape :: shapes) set phys pages)
  (only : ∀ other ∈ shapes, other.1.l ≠ shape.1.l)

include arranged only

/-- The only area that starts at a page is the one that is found. -/
theorem Arranged.findArea :
    ∃ before area behind,
      MemorySet.findArea shape.1.l set.areas = some (before, area, behind) ∧
        area.shape = shape ∧
        ((before ++ behind).map MapArea.shape).Perm shapes := by
  cases found : MemorySet.findArea shape.1.l set.areas with
  | none =>
    obtain ⟨area, member, rfl⟩ := arranged.area mem_cons_self
    exact absurd rfl (findArea_eq_none found area member)
  | some result =>
    obtain ⟨before, area, behind⟩ := result
    obtain ⟨split, startEq⟩ := findArea_eq_some found
    have perm := arranged.perm
    rw [split, map_append, map_cons] at perm
    have focused := perm_middle.symm.trans perm
    have isShape : area.shape = shape := by
      have member := focused.subset mem_cons_self
      rcases mem_cons.mp member with same | inShapes
      · exact same
      · exact absurd startEq (only area.shape inShapes)
    refine ⟨before, area, behind, rfl, isShape, ?_⟩
    rw [isShape] at focused
    rw [map_append]
    exact focused.cons_inv

/-- `remove_area_with_start_vpn` removes the only area that starts there. -/
theorem Arranged.remove (framed : shape.2.1 = .framed)
    (returned :
      set.removeAreaWithStartVpn phys shape.1.l = .ok (after, afterPhys)) :
    ∃ left,
      Arranged owned kernelPage shapes after afterPhys left ∧
        (∀ vpn, shape.1.Contains vpn → left vpn = none) ∧
        ∀ vpn, ¬ shape.1.Contains vpn → left vpn = pages vpn := by
  obtain ⟨before, area, behind, found, rfl, perm⟩ := arranged.findArea only
  obtain ⟨left, areasEq, gone, old, spans, _⟩ :=
    arranged.spans.removeArea found framed returned
  exact ⟨left, ⟨spans, by rw [areasEq]; exact perm⟩, gone, old⟩

end

/-- The rest of the kernel may change what the memory set does not use. -/
theorem Arranged.others
    (arranged : Arranged owned kernelPage shapes set phys pages)
    (kept :
      ∀ ppn ∈ set.pageTable.frames, afterPhys.memory ppn = phys.memory ppn)
    (inUse :
      ∀ ppn, Uses kernelPage set ppn → ¬ afterPhys.allocator.Free ppn) :
    Arranged owned kernelPage shapes set afterPhys pages :=
  ⟨arranged.spans.others kept inUse, arranged.perm⟩

/-- A user's address space, by the shapes that its areas have. -/
theorem Valid.arranged (valid : Valid kernelPage set phys) :
    ∃ pages,
      Arranged (fun _ => True) kernelPage (set.areas.map MapArea.shape) set
        phys pages := by
  obtain ⟨pages, represents⟩ := valid
  exact ⟨pages, represents.spans, List.Perm.refl _⟩

theorem Arranged.valid
    (arranged :
      Arranged (fun _ => True) kernelPage shapes set phys pages)
    (framed : ∀ shape ∈ shapes, shape.2.1 = .framed) :
    Valid kernelPage set phys := by
  refine ⟨pages, arranged.spans.represents fun area member => ?_⟩
  exact framed area.shape
    (arranged.perm.subset (mem_map_of_mem member))

end MemorySet

end RCoreOS.Kernel
