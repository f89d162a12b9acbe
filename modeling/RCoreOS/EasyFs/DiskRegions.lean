import RCoreOS.EasyFs.Session

/-!
# The regions of the disk

`EasyFileSystem::create` and `open` for all arguments whose regions fit on the
device.  The number of blocks of the inode area is cut down to 32 bits.  Up to
`2 ^ 22` blocks for the inode bitmap nothing is lost; from there on the area is
too small for the inodes of the bitmap, unless what is left of the number is
enough for all inode ids that there are.
-/

namespace RCoreOS.EasyFs

open Lib.Bytes BlockProg CacheState List Function

namespace EasyFileSystem

/-! ## What `create` computes -/

/-- `inode_area_blocks` -/
def inodeAreaBlocks (inodeBitmapBlocks : Nat) : Nat :=
  ((Bitmap.new 1 inodeBitmapBlocks).maximum * 128 + 512 - 1) / 512 % 2 ^ 32

/-- `inode_total_blocks` -/
def inodeTotalBlocks (inodeBitmapBlocks : Nat) : Nat :=
  (inodeBitmapBlocks + inodeAreaBlocks inodeBitmapBlocks) % 2 ^ 32

/-- `data_total_blocks` -/
def dataTotalBlocks (totalBlocks inodeBitmapBlocks : Nat) : Nat :=
  (totalBlocks + 2 * 2 ^ 32 - 1 - inodeTotalBlocks inodeBitmapBlocks) % 2 ^ 32

/-- `data_bitmap_blocks` -/
def dataBitmapBlocks (totalBlocks inodeBitmapBlocks : Nat) : Nat :=
  (dataTotalBlocks totalBlocks inodeBitmapBlocks + 4096) % 2 ^ 32 / 4097

/-- `data_area_blocks` -/
def dataAreaBlocks (totalBlocks inodeBitmapBlocks : Nat) : Nat :=
  dataTotalBlocks totalBlocks inodeBitmapBlocks -
    dataBitmapBlocks totalBlocks inodeBitmapBlocks

/-- The file system that `create` returns. -/
def created (totalBlocks inodeBitmapBlocks : Nat) : EasyFileSystem where
  inodeBitmap := Bitmap.new 1 inodeBitmapBlocks
  dataBitmap :=
    Bitmap.new
      ((1 + inodeBitmapBlocks + inodeAreaBlocks inodeBitmapBlocks) % 2 ^ 32)
      (dataBitmapBlocks totalBlocks inodeBitmapBlocks)
  inodeAreaStartBlock := (1 + inodeBitmapBlocks) % 2 ^ 32
  dataAreaStartBlock :=
    (1 + inodeTotalBlocks inodeBitmapBlocks +
      dataBitmapBlocks totalBlocks inodeBitmapBlocks) % 2 ^ 32

/-- The superblock that `create` writes. -/
def createdSuperBlock (totalBlocks inodeBitmapBlocks : Nat) : SuperBlock :=
  SuperBlock.initialized (.ofNat 32 totalBlocks)
    (.ofNat 32 inodeBitmapBlocks)
    (.ofNat 32 (inodeAreaBlocks inodeBitmapBlocks))
    (.ofNat 32 (dataBitmapBlocks totalBlocks inodeBitmapBlocks))
    (.ofNat 32 (dataAreaBlocks totalBlocks inodeBitmapBlocks))

theorem create_eq (totalBlocks inodeBitmapBlocks : Nat) :
    create totalBlocks inodeBitmapBlocks = (do
      clearBlocks (List.range totalBlocks)
      BlockProg.modifyAt 0 0 fun _ : SuperBlock =>
        return ((), createdSuperBlock totalBlocks inodeBitmapBlocks)
      let rootId ← (created totalBlocks inodeBitmapBlocks).allocInode
      BlockProg.assert (rootId == 0)
      BlockProg.modifyAt
        ((created totalBlocks inodeBitmapBlocks).getDiskInodePos 0).1
        ((created totalBlocks inodeBitmapBlocks).getDiskInodePos 0).2
        fun _ : DiskInode => return ((), DiskInode.initialized .directory)
      BlockProg.blockCacheSyncAll
      return created totalBlocks inodeBitmapBlocks) :=
  rfl

/-- `EasyFileSystem::get_data_block_id` -/
def getDataBlockId (self : EasyFileSystem) (dataBlockId : Nat) : Nat :=
  (self.dataAreaStartBlock + dataBlockId) % 2 ^ 32

/-- The subtraction of `dealloc_data`. -/
def dataBitOf (self : EasyFileSystem) (blockId : Nat) : Nat :=
  (blockId + 2 ^ 32 - self.dataAreaStartBlock) % 2 ^ 32

/-! ## What the regions are for -/

/--
The regions are consecutive and make up the device.  The data bitmap has a bit
for each data block, each inode has a slot of its own in the inode area, and
data blocks are numbered as their bits are.
-/
structure Divides (efs : EasyFileSystem)
    (totalBlocks inodeAreaBlocks dataAreaBlocks : Nat) : Prop where
  regions :
    [(0, 1), (efs.inodeBitmap.startBlockId, efs.inodeBitmap.blocks),
        (efs.inodeAreaStartBlock, inodeAreaBlocks),
        (efs.dataBitmap.startBlockId, efs.dataBitmap.blocks),
        (efs.dataAreaStartBlock, dataAreaBlocks)].flatMap
        (fun region => List.range' region.1 region.2) =
      List.range totalBlocks
  dataBits : dataAreaBlocks ≤ efs.dataBitmap.maximum
  slot_inside :
    ∀ id, id < efs.inodeBitmap.maximum → id < 2 ^ 32 →
      efs.inodeAreaStartBlock ≤ (efs.getDiskInodePos id).1 ∧
        (efs.getDiskInodePos id).1 <
          efs.inodeAreaStartBlock + inodeAreaBlocks ∧
        (efs.getDiskInodePos id).2 + 128 ≤ 512
  slots_disjoint :
    ∀ first second, first < efs.inodeBitmap.maximum → first < 2 ^ 32 →
      second < efs.inodeBitmap.maximum → second < 2 ^ 32 →
        first ≠ second →
          (efs.getDiskInodePos first).1 = (efs.getDiskInodePos second).1 →
            (efs.getDiskInodePos first).2 + 128 ≤
                (efs.getDiskInodePos second).2 ∨
              (efs.getDiskInodePos second).2 + 128 ≤
                (efs.getDiskInodePos first).2
  bit_of_block :
    ∀ n, n < dataAreaBlocks → efs.dataBitOf (efs.getDataBlockId n) = n
  block_of_bit :
    ∀ block, efs.dataAreaStartBlock ≤ block →
      block < efs.dataAreaStartBlock + dataAreaBlocks →
        efs.getDataBlockId (efs.dataBitOf block) = block

/-- The regions that `create` computes, and that `open` finds again. -/
structure RegionsSound (totalBlocks inodeBitmapBlocks : Nat) : Prop where
  divides :
    (created totalBlocks inodeBitmapBlocks).Divides totalBlocks
      (inodeAreaBlocks inodeBitmapBlocks)
      (dataAreaBlocks totalBlocks inodeBitmapBlocks)
  reopened :
    ∀ device, ∃ after last,
      (create totalBlocks inodeBitmapBlocks).run (CacheState.start device) =
          .ok (created totalBlocks inodeBitmapBlocks, after) ∧
        open_.run (CacheState.start after.device) =
          .ok (created totalBlocks inodeBitmapBlocks, last)

/-- The arguments for which the regions in front of the data fit. -/
structure Fits (totalBlocks inodeBitmapBlocks : Nat) : Prop where
  positive : 1 ≤ inodeBitmapBlocks
  bounded : totalBlocks ≤ 2 ^ 31
  fits :
    1 + inodeBitmapBlocks + inodeAreaBlocks inodeBitmapBlocks ≤ totalBlocks

namespace Fits

variable {totalBlocks inodeBitmapBlocks : Nat}

theorem inodeAreaBlocks_eq (inodeBitmapBlocks : Nat) :
    inodeAreaBlocks inodeBitmapBlocks = inodeBitmapBlocks * 1024 % 2 ^ 32 := by
  have whole :
      (inodeBitmapBlocks * 4096 * 128 + 512 - 1) / 512 =
        inodeBitmapBlocks * 1024 := by
    omega
  rw [← whole]
  rfl

section

variable (fits : Fits totalBlocks inodeBitmapBlocks)

include fits

/-- Without the inode area, nothing wraps. -/
theorem sizes :
    inodeTotalBlocks inodeBitmapBlocks =
        inodeBitmapBlocks + inodeAreaBlocks inodeBitmapBlocks ∧
      dataTotalBlocks totalBlocks inodeBitmapBlocks =
        totalBlocks - 1 -
          (inodeBitmapBlocks + inodeAreaBlocks inodeBitmapBlocks) ∧
      dataBitmapBlocks totalBlocks inodeBitmapBlocks =
        (dataTotalBlocks totalBlocks inodeBitmapBlocks + 4096) / 4097 := by
  have bounded := fits.bounded
  have inside := fits.fits
  have totalEq :
      inodeTotalBlocks inodeBitmapBlocks =
        inodeBitmapBlocks + inodeAreaBlocks inodeBitmapBlocks :=
    Nat.mod_eq_of_lt (by omega)
  have dataEq :
      dataTotalBlocks totalBlocks inodeBitmapBlocks =
        totalBlocks - 1 -
          (inodeBitmapBlocks + inodeAreaBlocks inodeBitmapBlocks) := by
    rw [dataTotalBlocks, totalEq]
    omega
  refine ⟨totalEq, dataEq, ?_⟩
  rw [dataBitmapBlocks, Nat.mod_eq_of_lt]
  omega

/-- The file system that is returned, without wrapping. -/
theorem created_eq :
    created totalBlocks inodeBitmapBlocks =
      { inodeBitmap := ⟨1, inodeBitmapBlocks⟩
        dataBitmap :=
          ⟨1 + inodeBitmapBlocks + inodeAreaBlocks inodeBitmapBlocks,
            dataBitmapBlocks totalBlocks inodeBitmapBlocks⟩
        inodeAreaStartBlock := 1 + inodeBitmapBlocks
        dataAreaStartBlock :=
          1 + inodeBitmapBlocks + inodeAreaBlocks inodeBitmapBlocks +
            dataBitmapBlocks totalBlocks inodeBitmapBlocks } := by
  have bounded := fits.bounded
  have inside := fits.fits
  obtain ⟨totalEq, dataEq, bitmapEq⟩ := fits.sizes
  have bitmapStart :
      (1 + inodeBitmapBlocks + inodeAreaBlocks inodeBitmapBlocks) % 2 ^ 32 =
        1 + inodeBitmapBlocks + inodeAreaBlocks inodeBitmapBlocks :=
    Nat.mod_eq_of_lt (by omega)
  have areaStart :
      (1 + inodeBitmapBlocks) % 2 ^ 32 = 1 + inodeBitmapBlocks :=
    Nat.mod_eq_of_lt (by omega)
  have dataStart :
      (1 + inodeTotalBlocks inodeBitmapBlocks +
          dataBitmapBlocks totalBlocks inodeBitmapBlocks) % 2 ^ 32 =
        1 + inodeBitmapBlocks + inodeAreaBlocks inodeBitmapBlocks +
          dataBitmapBlocks totalBlocks inodeBitmapBlocks := by
    rw [totalEq, Nat.mod_eq_of_lt (by omega)]
    omega
  rw [created, bitmapStart, areaStart, dataStart, Bitmap.new, Bitmap.new]

/-- The end of each region is the start of the next. -/
theorem consecutive :
    totalBlocks =
        1 + inodeBitmapBlocks + inodeAreaBlocks inodeBitmapBlocks +
          dataBitmapBlocks totalBlocks inodeBitmapBlocks +
          dataAreaBlocks totalBlocks inodeBitmapBlocks ∧
      dataAreaBlocks totalBlocks inodeBitmapBlocks ≤
        dataBitmapBlocks totalBlocks inodeBitmapBlocks * 4096 := by
  have inside := fits.fits
  obtain ⟨_, dataEq, bitmapEq⟩ := fits.sizes
  rw [dataAreaBlocks]
  omega

end

theorem range_append_range' (first count : Nat) :
    List.range first ++ List.range' first count =
      List.range (first + count) := by
  have joined := @List.range'_append_1 0 first count
  rw [Nat.zero_add] at joined
  rw [range_eq_range', range_eq_range', joined]

section

variable (fits : Fits totalBlocks inodeBitmapBlocks)

include fits

theorem regions :
    [(0, 1), (1, inodeBitmapBlocks),
        (1 + inodeBitmapBlocks, inodeAreaBlocks inodeBitmapBlocks),
        (1 + inodeBitmapBlocks + inodeAreaBlocks inodeBitmapBlocks,
          dataBitmapBlocks totalBlocks inodeBitmapBlocks),
        (1 + inodeBitmapBlocks + inodeAreaBlocks inodeBitmapBlocks +
            dataBitmapBlocks totalBlocks inodeBitmapBlocks,
          dataAreaBlocks totalBlocks inodeBitmapBlocks)].flatMap
        (fun region => List.range' region.1 region.2) =
      List.range totalBlocks := by
  have first : List.range' 0 1 = List.range 1 := rfl
  simp only [flatMap_cons, flatMap_nil, append_nil]
  rw [← append_assoc, ← append_assoc, ← append_assoc, first,
    range_append_range', range_append_range', range_append_range',
    range_append_range', ← fits.consecutive.1]

/-- The inode area has a slot for each inode id, or for each number there is. -/
theorem divides_iff :
    (created totalBlocks inodeBitmapBlocks).Divides totalBlocks
        (inodeAreaBlocks inodeBitmapBlocks)
        (dataAreaBlocks totalBlocks inodeBitmapBlocks) ↔
      inodeBitmapBlocks * 1024 < 2 ^ 32 ∨
        2 ^ 30 ≤ inodeBitmapBlocks * 1024 % 2 ^ 32 := by
  have positive := fits.positive
  have bounded := fits.bounded
  have inside := fits.fits
  obtain ⟨whole, enough⟩ := fits.consecutive
  have areaEq := inodeAreaBlocks_eq inodeBitmapBlocks
  rw [fits.created_eq]
  constructor
  · intro divides
    by_contra neither
    rw [not_or, Nat.not_lt, Nat.not_le, ← areaEq] at neither
    -- the inode behind the last block of the area
    have slot := divides.slot_inside
      (4 * inodeAreaBlocks inodeBitmapBlocks)
    simp only [Bitmap.maximum, getDiskInodePos] at slot
    omega
  · intro wide
    have room :
        ∀ id, id < inodeBitmapBlocks * 4096 → id < 2 ^ 32 →
          id / 4 < inodeAreaBlocks inodeBitmapBlocks := by
      intro id below small
      rcases wide with exact | large
      · rw [areaEq, Nat.mod_eq_of_lt exact]
        omega
      · rw [areaEq]
        omega
    constructor
    · exact fits.regions
    · exact enough
    · intro id below small
      have slot := room id below small
      have noWrap : 1 + inodeBitmapBlocks + id / 4 < 2 ^ 32 := by omega
      simp only [getDiskInodePos]
      rw [Nat.mod_eq_of_lt noWrap]
      omega
    · intro first second firstBelow firstSmall secondBelow secondSmall
        different sameBlock
      simp only [Bitmap.maximum, getDiskInodePos] at *
      omega
    · intro n below
      simp only [dataBitOf, getDataBlockId]
      omega
    · intro block above below
      simp only [dataBitOf, getDataBlockId] at *
      omega

variable {disk : Disk}

/-- The first inode of an empty bitmap is the root. -/
theorem onDisk_allocInode
    (zero :
      ∀ block, 0 < block → block < totalBlocks → disk block = zeros) :
    ∃ after,
      (created totalBlocks inodeBitmapBlocks).allocInode.onDisk [] disk =
          .ok (0, after) ∧
        after 0 = disk 0 := by
  have positive := fits.positive
  have inside := fits.fits
  have bits :
      ∀ n, n < (Bitmap.new 1 inodeBitmapBlocks).maximum →
        (Bitmap.new 1 inodeBitmapBlocks).bit disk n = false := by
    intro n below
    apply Geometry.bit_of_zero _ below
    intro block covered
    have above : 1 ≤ block := covered.1
    have before : block < 1 + inodeBitmapBlocks := covered.2
    exact zero block above (by omega)
  have some : 0 < (Bitmap.new 1 inodeBitmapBlocks).maximum :=
    Nat.mul_pos positive (by decide)
  rcases (Bitmap.new 1 inodeBitmapBlocks).onDisk_alloc
      (fun blockId _ => canLock_nil blockId) disk with
    ⟨full, _⟩ | ⟨n, after, returned, allocated⟩
  · have isSet := full 0 some
    rw [bits 0 some] at isSet
    cases isSet
  · have first : n = 0 := by
      by_contra later
      have isSet := allocated.lowest 0 (Nat.pos_of_ne_zero later)
      rw [bits 0 some] at isSet
      cases isSet
    subst first
    refine ⟨after, ?_, allocated.frame 0 fun covered => ?_⟩
    · rw [allocInode]
      exact (onDisk_bind_ok returned _).trans rfl
    · have above : 1 ≤ 0 := covered.1
      exact absurd above (by decide)

/-- `create` returns, and leaves the superblock in the first block. -/
theorem onDisk_create (disk : Disk) :
    ∃ after,
      (create totalBlocks inodeBitmapBlocks).onDisk [] disk =
          .ok (created totalBlocks inodeBitmapBlocks, after) ∧
        BlockView.load (after 0) 0 =
          createdSuperBlock totalBlocks inodeBitmapBlocks := by
  have bounded := fits.bounded
  have inside := fits.fits
  obtain ⟨zeroed, cleared, contents⟩ :=
    Geometry.onDisk_clearBlocks (List.range totalBlocks) disk
  have stored :
      (BlockProg.modifyAt 0 0 fun _ : SuperBlock =>
          return ((), createdSuperBlock totalBlocks inodeBitmapBlocks)).onDisk
          [] zeroed =
        .ok ((), Function.update zeroed 0
          (BlockView.store (zeroed 0) 0
            (createdSuperBlock totalBlocks inodeBitmapBlocks))) :=
    onDisk_modifyAt (canLock_nil 0) (by decide) rfl
  have zero :
      ∀ block, 0 < block → block < totalBlocks →
        Function.update zeroed 0
            (BlockView.store (zeroed 0) 0
              (createdSuperBlock totalBlocks inodeBitmapBlocks)) block =
          zeros := by
    intro block behind onDevice
    rw [update_of_ne (Nat.ne_of_gt behind), contents,
      if_pos (mem_range.mpr onDevice)]
  obtain ⟨allocated, alloc, sameFirst⟩ := fits.onDisk_allocInode zero
  have rootPos :
      (created totalBlocks inodeBitmapBlocks).getDiskInodePos 0 =
        (1 + inodeBitmapBlocks, 0) := by
    rw [fits.created_eq, getDiskInodePos]
    dsimp only
    rw [Nat.zero_div, Nat.add_zero, Nat.mod_eq_of_lt (by omega)]
  have root :=
    @onDisk_modifyAt DiskInode Unit _ [] (1 + inodeBitmapBlocks) 0
      allocated allocated (canLock_nil _) (by decide)
      (fun _ => return ((), DiskInode.initialized .directory)) ()
      (DiskInode.initialized .directory) rfl
  refine
    ⟨Function.update allocated (1 + inodeBitmapBlocks)
        (BlockView.store (allocated (1 + inodeBitmapBlocks)) 0
          (DiskInode.initialized .directory)),
      ?_, ?_⟩
  · rw [create_eq, onDisk_bind_ok cleared, onDisk_bind_ok stored,
      onDisk_bind_ok alloc, rootPos]
    exact (onDisk_bind_ok root _).trans rfl
  · rw [update_of_ne (by omega), sameFirst, update_self, SuperBlock.load_store]

/-- `open` computes the same from the superblock. -/
theorem onDisk_open
    (superBlock :
      BlockView.load (disk 0) 0 =
        createdSuperBlock totalBlocks inodeBitmapBlocks) :
    open_.onDisk [] disk =
      .ok (created totalBlocks inodeBitmapBlocks, disk) := by
  have bounded := fits.bounded
  have inside := fits.fits
  obtain ⟨whole, _⟩ := fits.consecutive
  have bitmapSmall : inodeBitmapBlocks % 2 ^ 32 = inodeBitmapBlocks :=
    Nat.mod_eq_of_lt (by omega)
  have areaSmall :
      inodeAreaBlocks inodeBitmapBlocks % 2 ^ 32 =
        inodeAreaBlocks inodeBitmapBlocks :=
    Nat.mod_eq_of_lt (by omega)
  have dataSmall :
      dataBitmapBlocks totalBlocks inodeBitmapBlocks % 2 ^ 32 =
        dataBitmapBlocks totalBlocks inodeBitmapBlocks :=
    Nat.mod_eq_of_lt (by omega)
  have bitmapStart :
      (1 + inodeTotalBlocks inodeBitmapBlocks) % 2 ^ 32 =
        (1 + inodeBitmapBlocks + inodeAreaBlocks inodeBitmapBlocks) %
          2 ^ 32 := by
    rw [fits.sizes.1, Nat.add_assoc]
  rw [open_, BlockProg.onDisk_readAt (canLock_nil 0) (by decide), superBlock]
  simp only [createdSuperBlock, SuperBlock.initialized, SuperBlock.isValid,
    beq_self_eq_true, if_true, BitVec.toNat_add, BitVec.toNat_ofNat,
    bitmapSmall, areaSmall, dataSmall]
  rw [← inodeTotalBlocks, bitmapStart]
  rfl

theorem reopened (device : BlockDevice) :
    ∃ after last,
      (create totalBlocks inodeBitmapBlocks).run (CacheState.start device) =
          .ok (created totalBlocks inodeBitmapBlocks, after) ∧
        open_.run (CacheState.start after.device) =
          .ok (created totalBlocks inodeBitmapBlocks, last) := by
  have coherent := start_coherent device
  obtain ⟨disk, returned, superBlock⟩ :=
    fits.onDisk_create (CacheState.start device).view
  obtain ⟨after, ran, rfl⟩ := run_of_onDisk coherent returned
  have settled := run_create_settled coherent ran
  have shown : (CacheState.start after.device).view = after.view := by
    rw [view_start]
    funext blockId
    exact settled blockId
  rw [← shown] at superBlock
  obtain ⟨last, reopens, _⟩ :=
    run_of_onDisk (start_coherent after.device)
      (fits.onDisk_open superBlock)
  exact ⟨after, last, ran, reopens⟩

end

end Fits

/--
The regions are sound exactly when the number of blocks of the inode area is
not cut down, or is cut down to one that is enough for all inode ids.
-/
theorem regionsSound_iff {totalBlocks inodeBitmapBlocks : Nat}
    (positive : 1 ≤ inodeBitmapBlocks) (bounded : totalBlocks ≤ 2 ^ 31)
    (fits :
      1 + inodeBitmapBlocks + inodeAreaBlocks inodeBitmapBlocks ≤
        totalBlocks) :
    RegionsSound totalBlocks inodeBitmapBlocks ↔
      inodeBitmapBlocks * 1024 < 2 ^ 32 ∨
        2 ^ 30 ≤ inodeBitmapBlocks * 1024 % 2 ^ 32 := by
  have all : Fits totalBlocks inodeBitmapBlocks := ⟨positive, bounded, fits⟩
  constructor
  · intro sound
    exact all.divides_iff.mp sound.divides
  · intro wide
    exact ⟨all.divides_iff.mpr wide, all.reopened⟩

/-- A disk image of 4096 blocks with one block for the inode bitmap. -/
theorem regionsSound_iff_image : RegionsSound 4096 1 :=
  (regionsSound_iff (by decide) (by decide) (by decide)).mpr
    (.inl (by decide))

/--
With `2 ^ 22` blocks for the inode bitmap the inode area is empty, and the
root directory lies in the data bitmap.
-/
theorem inode_area_cut_down :
    1 ≤ 2 ^ 22 ∧ 2 ^ 31 ≤ 2 ^ 31 ∧
      1 + 2 ^ 22 + inodeAreaBlocks (2 ^ 22) ≤ 2 ^ 31 ∧
      ¬ RegionsSound (2 ^ 31) (2 ^ 22) := by
  refine ⟨by decide, by decide, by decide, ?_⟩
  intro sound
  have slot := sound.divides.slot_inside 0 (by decide) (by decide)
  exact absurd slot.2.1 (by decide)

end EasyFileSystem

end RCoreOS.EasyFs
