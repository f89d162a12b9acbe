import Mathlib.Data.List.AList
import RCoreOS.Kernel.PageTableMap

/-!
# Address spaces

`MemorySet` and `MapArea` of `os/src/mm/memory_set.rs`, with the frame
allocator of the kernel.  A `FrameTracker` is the number of its frame; where
the source drops one, the frame is given back.
-/

namespace RCoreOS.Kernel

open Lib.FallibleRuns

/-! ## Addresses and ranges -/

/-- `PAGE_SIZE` -/
def pageSize : Nat := 4096

/-- `TRAMPOLINE` -/
def trampoline : Nat := 2 ^ 64 - 1 - pageSize + 1

/-- `VirtAddr::from` -/
def virtAddr (v : Nat) : Nat := v &&& (2 ^ 39 - 1)

/-- `usize::from` of a `VirtAddr`: the bit 38 is extended. -/
def usizeOfVirtAddr (va : Nat) : Nat :=
  if 2 ^ 38 ≤ va then va ||| (2 ^ 64 - 2 ^ 39) else va

/-- `VirtAddr::floor` -/
def floor (va : Nat) : Nat := va / pageSize

/-- `VirtAddr::ceil`; the subtraction wraps at zero. -/
def ceil (va : Nat) : Nat :=
  ((va + (2 ^ 64 - 1)) % 2 ^ 64 + pageSize) % 2 ^ 64 / pageSize

/-- `PhysAddr::from` -/
def physAddr (v : Nat) : Nat := v &&& (2 ^ 56 - 1)

/-- `VirtPageNum::from` and `PhysPageNum::from` of an address. -/
def pageNum (address : Nat) : Except Stop Nat :=
  if address &&& (pageSize - 1) = 0 then .ok (floor address)
  else .error .panicked

theorem virtAddr_eq_mod (v : Nat) : virtAddr v = v % 2 ^ 39 :=
  Nat.and_two_pow_sub_one_eq_mod v 39

variable {va : Nat}

theorem usizeOfVirtAddr_of_lt (low : va < 2 ^ 38) :
    usizeOfVirtAddr va = va :=
  if_neg (Nat.not_le.mpr low)

theorem usizeOfVirtAddr_of_ge (high : 2 ^ 38 ≤ va)
    (small : va < 2 ^ 39) :
    usizeOfVirtAddr va = 2 ^ 64 - 2 ^ 39 + va := by
  have shifted : 2 ^ 64 - 2 ^ 39 = (2 ^ 25 - 1) <<< 39 := by decide
  rw [usizeOfVirtAddr, if_pos high, Nat.or_comm, shifted,
    Nat.shiftLeft_add_eq_or_of_lt small]

/-- `VPNRange` -/
structure VPNRange where
  l : Nat
  r : Nat
  le : l ≤ r

namespace VPNRange

/-- `VPNRange::new` -/
def new (start stop : Nat) : Except Stop VPNRange :=
  if le : start ≤ stop then .ok ⟨start, stop, le⟩ else .error .panicked

/-- The pages that the iterator of the range gives. -/
def toList (self : VPNRange) : List Nat := List.range' self.l (self.r - self.l)

def Contains (self : VPNRange) (vpn : Nat) : Prop :=
  self.l ≤ vpn ∧ vpn < self.r

instance (self : VPNRange) (vpn : Nat) : Decidable (self.Contains vpn) :=
  inferInstanceAs (Decidable (_ ∧ _))

theorem new_eq_ok {start stop : Nat} {range : VPNRange}
    (returned : new start stop = .ok range) :
    start ≤ stop ∧ range.l = start ∧ range.r = stop := by
  rw [new] at returned
  split at returned
  · next le =>
      cases returned
      exact ⟨le, rfl, rfl⟩
  · cases returned

@[simp]
theorem mem_toList {self : VPNRange} {vpn : Nat} :
    vpn ∈ self.toList ↔ self.Contains vpn := by
  have le := self.le
  rw [toList, List.mem_range'_1, Contains]
  omega

theorem nodup_toList (self : VPNRange) : self.toList.Nodup := List.nodup_range'

end VPNRange

/-! ## Areas -/

/-- `MapType` -/
inductive MapType where
  | identical
  | framed
deriving DecidableEq, Repr

/-- `MapPermission`: only the bits `R`, `W`, `X` and `U` have a name. -/
structure MapPermission where
  bits : BitVec 8
  named : bits &&& 0xE1 = 0

namespace MapPermission

theorem named_r : PTEFlags.r &&& 0xE1 = 0 := by decide

theorem named_rx : (PTEFlags.r ||| PTEFlags.x) &&& 0xE1 = 0 := by decide

theorem named_rw : (PTEFlags.r ||| PTEFlags.w) &&& 0xE1 = 0 := by decide

theorem named_rwu :
    (PTEFlags.r ||| PTEFlags.w ||| PTEFlags.u) &&& 0xE1 = 0 := by
  decide

end MapPermission

/-- `MapArea`; `dataFrames` gives the frame of a page. -/
structure MapArea where
  vpnRange : VPNRange
  dataFrames : AList fun _ : Nat => Nat
  mapType : MapType
  mapPerm : MapPermission

/-- Physical memory with the allocator of the kernel. -/
abbrev KernelMemory := Phys StackFrameAllocator

/-- `frame_dealloc` -/
def Phys.frameDealloc (phys : KernelMemory) (ppn : Nat) :
    Except Stop KernelMemory := do
  let allocator ← phys.allocator.dealloc ppn
  return { phys with allocator }

/-- Drop the tracker that a map of frames had at a page, if any. -/
def Phys.dropFrame (phys : KernelMemory) :
    Option Nat → Except Stop KernelMemory
  | none => return phys
  | some ppn => phys.frameDealloc ppn

namespace MapArea

/-- `MapArea::new` -/
def new (startVa endVa : Nat) (mapType : MapType)
    (mapPerm : MapPermission) : Except Stop MapArea := do
  let vpnRange ← VPNRange.new (floor startVa) (ceil endVa)
  return ⟨vpnRange, ∅, mapType, mapPerm⟩

/-- `MapArea::map_one` -/
def mapOne (self : MapArea) (pageTable : PageTable) (phys : KernelMemory)
    (vpn : Nat) : Except Stop (MapArea × PageTable × KernelMemory) :=
  match self.mapType with
  | .identical => do
      let (pageTable, phys) ← pageTable.map phys vpn vpn self.mapPerm.bits
      return (self, pageTable, phys)
  | .framed => do
      let (ppn, phys) ← phys.frameAlloc
      let phys ← phys.dropFrame (self.dataFrames.lookup vpn)
      let dataFrames := self.dataFrames.insert vpn ppn
      let (pageTable, phys) ← pageTable.map phys vpn ppn self.mapPerm.bits
      return ({ self with dataFrames }, pageTable, phys)

/-- `MapArea::unmap_one` -/
def unmapOne (self : MapArea) (pageTable : PageTable) (phys : KernelMemory)
    (vpn : Nat) : Except Stop (MapArea × KernelMemory) :=
  match self.mapType with
  | .identical => do
      let phys ← pageTable.unmap phys vpn
      return (self, phys)
  | .framed => do
      let phys ← phys.dropFrame (self.dataFrames.lookup vpn)
      let dataFrames := self.dataFrames.erase vpn
      let phys ← pageTable.unmap phys vpn
      return ({ self with dataFrames }, phys)

/-- A loop of `map_one` over pages. -/
def mapPages (self : MapArea) (pageTable : PageTable) (phys : KernelMemory) :
    List Nat → Except Stop (MapArea × PageTable × KernelMemory)
  | [] => return (self, pageTable, phys)
  | vpn :: rest => do
      let (self, pageTable, phys) ← self.mapOne pageTable phys vpn
      self.mapPages pageTable phys rest

/-- A loop of `unmap_one` over pages. -/
def unmapPages (self : MapArea) (pageTable : PageTable)
    (phys : KernelMemory) : List Nat → Except Stop (MapArea × KernelMemory)
  | [] => return (self, phys)
  | vpn :: rest => do
      let (self, phys) ← self.unmapOne pageTable phys vpn
      self.unmapPages pageTable phys rest

/-- `MapArea::map` -/
def map (self : MapArea) (pageTable : PageTable) (phys : KernelMemory) :
    Except Stop (MapArea × PageTable × KernelMemory) :=
  self.mapPages pageTable phys self.vpnRange.toList

/-- `MapArea::unmap` -/
def unmap (self : MapArea) (pageTable : PageTable) (phys : KernelMemory) :
    Except Stop (MapArea × KernelMemory) :=
  self.unmapPages pageTable phys self.vpnRange.toList

/-- `MapArea::shrink_to` -/
def shrinkTo (self : MapArea) (pageTable : PageTable) (phys : KernelMemory)
    (newEnd : Nat) : Except Stop (MapArea × KernelMemory) := do
  let removed ← VPNRange.new newEnd self.vpnRange.r
  let (self, phys) ← self.unmapPages pageTable phys removed.toList
  let vpnRange ← VPNRange.new self.vpnRange.l newEnd
  return ({ self with vpnRange }, phys)

/-- `MapArea::append_to` -/
def appendTo (self : MapArea) (pageTable : PageTable) (phys : KernelMemory)
    (newEnd : Nat) : Except Stop (MapArea × PageTable × KernelMemory) := do
  let added ← VPNRange.new self.vpnRange.r newEnd
  let (self, pageTable, phys) ← self.mapPages pageTable phys added.toList
  let vpnRange ← VPNRange.new self.vpnRange.l newEnd
  return ({ self with vpnRange }, pageTable, phys)

/-- Drop an area: its trackers give their frames back. -/
def drop (self : MapArea) (phys : KernelMemory) : Except Stop KernelMemory :=
  self.dataFrames.entries.foldlM
    (fun phys entry => phys.frameDealloc entry.2) phys

end MapArea

/-! ## Memory sets -/

/-- `MemorySet` -/
structure MemorySet where
  pageTable : PageTable
  areas : List MapArea

namespace MemorySet

/--
`find` by the first page: the areas before, the area and the areas behind.
-/
def findArea (startVpn : Nat) :
    List MapArea → Option (List MapArea × MapArea × List MapArea)
  | [] => none
  | area :: rest =>
    if area.vpnRange.l = startVpn then some ([], area, rest)
    else
      (findArea startVpn rest).map fun (before, found, behind) =>
        (area :: before, found, behind)

/-- `MemorySet::new_bare` -/
def newBare (phys : KernelMemory) : Except Stop (MemorySet × KernelMemory) := do
  let (pageTable, phys) ← PageTable.new phys
  return (⟨pageTable, []⟩, phys)

/-- `MemorySet::map_trampoline`; `strampoline` is a symbol of the linker. -/
def mapTrampoline (self : MemorySet) (phys : KernelMemory)
    (strampoline : Nat) : Except Stop (MemorySet × KernelMemory) := do
  let vpn ← pageNum (virtAddr trampoline)
  let ppn ← pageNum (physAddr strampoline)
  let (pageTable, phys) ←
    self.pageTable.map phys vpn ppn (PTEFlags.r ||| PTEFlags.x)
  return ({ self with pageTable }, phys)

/-- `MemorySet::push` without data -/
def push (self : MemorySet) (phys : KernelMemory) (mapArea : MapArea) :
    Except Stop (MemorySet × KernelMemory) := do
  let (mapArea, pageTable, phys) ← mapArea.map self.pageTable phys
  return (⟨pageTable, self.areas ++ [mapArea]⟩, phys)

/-- `MemorySet::insert_framed_area` -/
def insertFramedArea (self : MemorySet) (phys : KernelMemory)
    (startVa endVa : Nat) (permission : MapPermission) :
    Except Stop (MemorySet × KernelMemory) := do
  let area ← MapArea.new startVa endVa .framed permission
  self.push phys area

/-- `MemorySet::remove_area_with_start_vpn` -/
def removeAreaWithStartVpn (self : MemorySet) (phys : KernelMemory)
    (startVpn : Nat) : Except Stop (MemorySet × KernelMemory) :=
  match findArea startVpn self.areas with
  | none => return (self, phys)
  | some (before, area, behind) => do
      let (area, phys) ← area.unmap self.pageTable phys
      let phys ← area.drop phys
      return ({ self with areas := before ++ behind }, phys)

/-- `MemorySet::shrink_to` -/
def shrinkTo (self : MemorySet) (phys : KernelMemory) (start newEnd : Nat) :
    Except Stop (Bool × MemorySet × KernelMemory) :=
  match findArea (floor start) self.areas with
  | none => return (false, self, phys)
  | some (before, area, behind) => do
      let (area, phys) ← area.shrinkTo self.pageTable phys (ceil newEnd)
      return (true, { self with areas := before ++ area :: behind }, phys)

/-- `MemorySet::append_to` -/
def appendTo (self : MemorySet) (phys : KernelMemory) (start newEnd : Nat) :
    Except Stop (Bool × MemorySet × KernelMemory) :=
  match findArea (floor start) self.areas with
  | none => return (false, self, phys)
  | some (before, area, behind) => do
      let (area, pageTable, phys) ←
        area.appendTo self.pageTable phys (ceil newEnd)
      return (true, ⟨pageTable, before ++ area :: behind⟩, phys)

end MemorySet

end RCoreOS.Kernel
