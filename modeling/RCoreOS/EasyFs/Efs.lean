import RCoreOS.EasyFs.Bitmap
import RCoreOS.EasyFs.Layout

/-!
# The disk block manager

`EasyFileSystem` knows where the regions of the disk lie: the superblock, the
inode bitmap, the inode area, the data bitmap and the data area.  `create`
computes them from the size of the device and writes an empty file system,
`open` recovers them from the superblock.

A `Geometry` is a pair of arguments of `create` whose arithmetic does not
wrap.  Its regions are disjoint, and the data bitmap has at least as many bits
as the data area has blocks, but it may have more.
-/

namespace RCoreOS.EasyFs

open Lib.Bytes Bitmap BlockProg

/-- `EasyFileSystem`, without the block device that all calls share. -/
structure EasyFileSystem where
  inodeBitmap : Bitmap
  dataBitmap : Bitmap
  inodeAreaStartBlock : Nat
  dataAreaStartBlock : Nat
deriving DecidableEq, Repr

namespace EasyFileSystem

/-- `EasyFileSystem::get_disk_inode_pos`, with four inodes to a block. -/
def getDiskInodePos (self : EasyFileSystem) (inodeId : Nat) : Nat × Nat :=
  ((self.inodeAreaStartBlock + inodeId / 4) % 2 ^ 32, inodeId % 4 * 128)

/-- `EasyFileSystem::alloc_inode` -/
def allocInode (self : EasyFileSystem) : BlockProg Nat := do
  match ← self.inodeBitmap.alloc with
  | some inodeId => return inodeId % 2 ^ 32
  | none => .fail .unwrapFailed

/-- `EasyFileSystem::alloc_data` -/
def allocData (self : EasyFileSystem) : BlockProg (BitVec 32) := do
  match ← self.dataBitmap.alloc with
  | some bit => return BitVec.ofNat 32 (bit % 2 ^ 32 + self.dataAreaStartBlock)
  | none => .fail .unwrapFailed

/-- `EasyFileSystem::dealloc_data` -/
def deallocData (self : EasyFileSystem) (blockId : BitVec 32) :
    BlockProg Unit := do
  BlockProg.modifyAt blockId.toNat 0 fun _ : DataBlock => return ((), zeros)
  self.dataBitmap.dealloc
    ((blockId.toNat + 2 ^ 32 - self.dataAreaStartBlock) % 2 ^ 32)

/-- The loop of `create` that clears all blocks. -/
def clearBlocks : List Nat → BlockProg Unit
  | [] => return ()
  | blockId :: rest => do
      BlockProg.modifyAt blockId 0 fun _ : DataBlock => return ((), zeros)
      clearBlocks rest

/-- `EasyFileSystem::create` -/
def create (totalBlocks inodeBitmapBlocks : Nat) :
    BlockProg EasyFileSystem := do
  -- calculate block size of areas & create bitmaps
  let inodeBitmap := Bitmap.new 1 inodeBitmapBlocks
  let inodeNum := inodeBitmap.maximum
  let inodeAreaBlocks := (inodeNum * 128 + 512 - 1) / 512 % 2 ^ 32
  let inodeTotalBlocks := (inodeBitmapBlocks + inodeAreaBlocks) % 2 ^ 32
  let dataTotalBlocks :=
    (totalBlocks + 2 * 2 ^ 32 - 1 - inodeTotalBlocks) % 2 ^ 32
  let dataBitmapBlocks := (dataTotalBlocks + 4096) % 2 ^ 32 / 4097
  let dataAreaBlocks := dataTotalBlocks - dataBitmapBlocks
  let dataBitmap :=
    Bitmap.new ((1 + inodeBitmapBlocks + inodeAreaBlocks) % 2 ^ 32)
      dataBitmapBlocks
  let efs : EasyFileSystem :=
    { inodeBitmap := inodeBitmap
      dataBitmap := dataBitmap
      inodeAreaStartBlock := (1 + inodeBitmapBlocks) % 2 ^ 32
      dataAreaStartBlock :=
        (1 + inodeTotalBlocks + dataBitmapBlocks) % 2 ^ 32 }
  -- clear all blocks
  clearBlocks (List.range totalBlocks)
  -- initialize SuperBlock
  BlockProg.modifyAt 0 0 fun _ : SuperBlock =>
    return ((), SuperBlock.initialized (.ofNat 32 totalBlocks)
      (.ofNat 32 inodeBitmapBlocks) (.ofNat 32 inodeAreaBlocks)
      (.ofNat 32 dataBitmapBlocks) (.ofNat 32 dataAreaBlocks))
  -- create a inode for root node "/"
  let rootId ← efs.allocInode
  BlockProg.assert (rootId == 0)
  let (rootInodeBlockId, rootInodeOffset) := efs.getDiskInodePos 0
  BlockProg.modifyAt rootInodeBlockId rootInodeOffset fun _ : DiskInode =>
    return ((), DiskInode.initialized .directory)
  BlockProg.blockCacheSyncAll
  return efs

/-- `EasyFileSystem::open` -/
def open_ : BlockProg EasyFileSystem :=
  BlockProg.readAt 0 0 fun superBlock : SuperBlock =>
    if superBlock.isValid then
      let inodeTotalBlocks :=
        (superBlock.inodeBitmapBlocks + superBlock.inodeAreaBlocks).toNat
      let efs : EasyFileSystem :=
        { inodeBitmap := Bitmap.new 1 superBlock.inodeBitmapBlocks.toNat
          dataBitmap :=
            Bitmap.new ((1 + inodeTotalBlocks) % 2 ^ 32)
              superBlock.dataBitmapBlocks.toNat
          inodeAreaStartBlock :=
            (1 + superBlock.inodeBitmapBlocks.toNat) % 2 ^ 32
          dataAreaStartBlock :=
            (1 + inodeTotalBlocks + superBlock.dataBitmapBlocks.toNat) %
              2 ^ 32 }
      return efs
    else
      .fail .errorLoadingEfs

end EasyFileSystem

/-! ## Geometries -/

/-- Arguments of `create` for which its arithmetic does not wrap. -/
structure Geometry where
  totalBlocks : Nat
  inodeBitmapBlocks : Nat
  positive : 1 ≤ inodeBitmapBlocks
  fits :
    1 + inodeBitmapBlocks + (inodeBitmapBlocks * 4096 * 128 + 511) / 512 ≤
      totalBlocks
  bounded : totalBlocks ≤ 2 ^ 31

namespace Geometry

/-- `inode_area_blocks` -/
def inodeAreaBlocks (g : Geometry) : Nat :=
  (g.inodeBitmapBlocks * 4096 * 128 + 511) / 512

/-- `data_total_blocks` -/
def dataTotalBlocks (g : Geometry) : Nat :=
  g.totalBlocks - 1 - (g.inodeBitmapBlocks + g.inodeAreaBlocks)

/-- `data_bitmap_blocks` -/
def dataBitmapBlocks (g : Geometry) : Nat := (g.dataTotalBlocks + 4096) / 4097

/-- `data_area_blocks` -/
def dataAreaBlocks (g : Geometry) : Nat :=
  g.dataTotalBlocks - g.dataBitmapBlocks

/-- The file system that `create` computes. -/
def efs (g : Geometry) : EasyFileSystem where
  inodeBitmap := ⟨1, g.inodeBitmapBlocks⟩
  dataBitmap :=
    ⟨1 + g.inodeBitmapBlocks + g.inodeAreaBlocks, g.dataBitmapBlocks⟩
  inodeAreaStartBlock := 1 + g.inodeBitmapBlocks
  dataAreaStartBlock :=
    1 + (g.inodeBitmapBlocks + g.inodeAreaBlocks) + g.dataBitmapBlocks

/-- The superblock that `create` writes. -/
def superBlock (g : Geometry) : SuperBlock :=
  SuperBlock.initialized (.ofNat 32 g.totalBlocks)
    (.ofNat 32 g.inodeBitmapBlocks) (.ofNat 32 g.inodeAreaBlocks)
    (.ofNat 32 g.dataBitmapBlocks) (.ofNat 32 g.dataAreaBlocks)

/-- The first block of the data area. -/
abbrev dataStart (g : Geometry) : Nat := g.efs.dataAreaStartBlock

/-- How the regions follow each other on the disk. -/
theorem regions (g : Geometry) :
    g.inodeAreaBlocks = 1024 * g.inodeBitmapBlocks ∧
      g.efs.dataBitmap.startBlockId =
        1 + g.inodeBitmapBlocks + g.inodeAreaBlocks ∧
      g.dataStart = g.efs.dataBitmap.startBlockId + g.dataBitmapBlocks ∧
      g.totalBlocks = g.dataStart + g.dataAreaBlocks ∧
      g.dataAreaBlocks ≤ 4096 * g.dataBitmapBlocks ∧
      4096 * g.dataBitmapBlocks ≤ g.dataAreaBlocks + 4096 := by
  have fits := g.fits
  have area : g.inodeAreaBlocks = 1024 * g.inodeBitmapBlocks := by
    rw [inodeAreaBlocks]
    omega
  have total :
      g.totalBlocks =
        1 + (g.inodeBitmapBlocks + g.inodeAreaBlocks) + g.dataTotalBlocks := by
    rw [dataTotalBlocks]
    omega
  have bitmap : g.dataBitmapBlocks = (g.dataTotalBlocks + 4096) / 4097 := rfl
  have dataArea :
      g.dataAreaBlocks = g.dataTotalBlocks - g.dataBitmapBlocks := rfl
  refine ⟨area, rfl, ?_, ?_, ?_, ?_⟩
  · show 1 + (g.inodeBitmapBlocks + g.inodeAreaBlocks) + g.dataBitmapBlocks =
      1 + g.inodeBitmapBlocks + g.inodeAreaBlocks + g.dataBitmapBlocks
    omega
  · show g.totalBlocks =
      1 + (g.inodeBitmapBlocks + g.inodeAreaBlocks) + g.dataBitmapBlocks +
        g.dataAreaBlocks
    omega
  · omega
  · omega

/-- The data bitmap has a bit for every block of the data area, or more. -/
theorem dataBitmap_maximum (g : Geometry) :
    g.efs.dataBitmap.maximum = g.dataBitmapBlocks * 4096 :=
  rfl

theorem inodeBitmap_maximum (g : Geometry) :
    g.efs.inodeBitmap.maximum = g.inodeBitmapBlocks * 4096 :=
  rfl

/-! ## Allocation -/

variable {g : Geometry} {held : List Nat} {disk : Disk}

section

variable (lockable :
    ∀ blockId, g.efs.dataBitmap.Covers blockId →
      BlockProg.CanLock held blockId)

include lockable

/-- `alloc_data` hands out the block of the lowest zero bit. -/
theorem onDisk_allocData
    (notFull : g.efs.dataBitmap.used disk < g.efs.dataBitmap.maximum) :
    ∃ n after blockId,
      g.efs.allocData.onDisk held disk = .ok (blockId, after) ∧
        g.efs.dataBitmap.Allocated disk n after ∧
        blockId.toNat = g.dataStart + n := by
  rcases onDisk_alloc lockable disk with
    ⟨full, _⟩ | ⟨n, after, ran, allocated⟩
  · obtain ⟨n, inside, clear⟩ := exists_clear notFull
    rw [full n inside] at clear
    cases clear
  · have inside := allocated.inside
    have bounded := g.bounded
    obtain ⟨_, _, _, total, _, most⟩ := g.regions
    rw [dataBitmap_maximum] at inside
    refine ⟨n, after, BitVec.ofNat 32 (n % 2 ^ 32 + g.dataStart), ?_,
      allocated, ?_⟩
    · rw [EasyFileSystem.allocData, onDisk_bind_ok ran]
      rfl
    · rw [BitVec.toNat_ofNat, Nat.mod_eq_of_lt (by omega),
        Nat.mod_eq_of_lt (by omega), Nat.add_comm]

/-- `alloc_data` panics when all bits of the bitmap are set. -/
theorem onDisk_allocData_full
    (full : g.efs.dataBitmap.maximum ≤ g.efs.dataBitmap.used disk) :
    g.efs.allocData.onDisk held disk = .error .unwrapFailed := by
  rcases onDisk_alloc lockable disk with
    ⟨_, ran⟩ | ⟨n, after, _, allocated⟩
  · rw [EasyFileSystem.allocData, onDisk_bind_ok ran]
    rfl
  · have more := allocated.used_eq
    have bound := g.efs.dataBitmap.used_le after
    omega

end

section

variable (lockable :
    ∀ blockId, g.efs.inodeBitmap.Covers blockId →
      BlockProg.CanLock held blockId)

include lockable

/--
`alloc_inode` hands out the lowest free inode, as a `u32`: the bitmap can have
more than `2 ^ 32` bits.
-/
theorem onDisk_allocInode
    {count : Nat} (room : count < g.efs.inodeBitmap.maximum)
    (bits :
      ∀ n, n < g.efs.inodeBitmap.maximum →
        g.efs.inodeBitmap.bit disk n = decide (n < count)) :
    ∃ after,
      g.efs.allocInode.onDisk held disk = .ok (count % 2 ^ 32, after) ∧
        g.efs.inodeBitmap.Allocated disk count after := by
  rcases onDisk_alloc lockable disk with
    ⟨full, _⟩ | ⟨n, after, ran, allocated⟩
  · have isSet := full count room
    rw [bits count room] at isSet
    simp at isSet
  · have inside := allocated.inside
    have clear := allocated.clear
    rw [bits n inside] at clear
    have atLeast : ¬ n < count := by simpa using clear
    have exact_ : n = count := by
      by_contra different
      have isSet := allocated.lowest count (by omega)
      rw [bits count room] at isSet
      simp at isSet
    subst exact_
    refine ⟨after, ?_, allocated⟩
    rw [EasyFileSystem.allocInode, onDisk_bind_ok ran]
    rfl

/-- `alloc_inode` panics when all inodes are in use. -/
theorem onDisk_allocInode_full
    (full :
      ∀ n, n < g.efs.inodeBitmap.maximum →
        g.efs.inodeBitmap.bit disk n = true) :
    g.efs.allocInode.onDisk held disk = .error .unwrapFailed := by
  rcases onDisk_alloc lockable disk with
    ⟨_, ran⟩ | ⟨n, after, _, allocated⟩
  · rw [EasyFileSystem.allocInode, onDisk_bind_ok ran]
    rfl
  · have clear := allocated.clear
    rw [full n allocated.inside] at clear
    cases clear

end

/-- `dealloc_data` clears a block and its bit. -/
theorem onDisk_deallocData
    (lockable :
      ∀ blockId, g.efs.dataBitmap.Covers blockId →
        BlockProg.CanLock held blockId)
    {blockId : BitVec 32} {n : Nat} (blockEq : blockId.toNat = g.dataStart + n)
    (can : BlockProg.CanLock held blockId.toNat)
    (inside : n < g.efs.dataBitmap.maximum)
    (isSet : g.efs.dataBitmap.bit disk n = true) :
    ∃ after,
      (g.efs.deallocData blockId).onDisk held disk = .ok ((), after) ∧
        g.efs.dataBitmap.Deallocated
          (Function.update disk blockId.toNat zeros) n after := by
  obtain ⟨_, _, start, _, _, _⟩ := g.regions
  have outside (covered : Nat) (covers : g.efs.dataBitmap.Covers covered) :
      Function.update disk blockId.toNat zeros covered = disk covered := by
    apply Function.update_of_ne
    have below : covered < g.efs.dataBitmap.startBlockId + g.dataBitmapBlocks :=
      covers.2
    omega
  have cleared :
      (BlockProg.modifyAt blockId.toNat 0 fun _ : DataBlock =>
          return ((), zeros)).onDisk held disk =
        .ok ((), Function.update disk blockId.toNat zeros) :=
    onDisk_modifyAt can (Nat.le_refl 512) rfl
  have stillSet :
      g.efs.dataBitmap.bit (Function.update disk blockId.toNat zeros) n =
        true := by
    rw [bit_congr outside inside, isSet]
  obtain ⟨after, ran, deallocated⟩ := onDisk_dealloc lockable inside stillSet
  have position :
      (blockId.toNat + 2 ^ 32 - g.dataStart) % 2 ^ 32 = n := by
    have small := blockId.isLt
    omega
  refine ⟨after, ?_, deallocated⟩
  rw [EasyFileSystem.deallocData, onDisk_bind_ok cleared]
  show (g.efs.dataBitmap.dealloc
    ((blockId.toNat + 2 ^ 32 - g.dataStart) % 2 ^ 32)).onDisk held _ = _
  rw [position, ran]

end Geometry

end RCoreOS.EasyFs
