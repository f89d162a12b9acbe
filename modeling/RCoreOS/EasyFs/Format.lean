import RCoreOS.EasyFs.Creation

/-!
# Creating and opening a file system

`EasyFileSystem::create` clears all blocks, writes the superblock and
initializes the root directory.  On a geometry its arithmetic does not wrap,
and it leaves a file system whose only node is an empty directory.

`EasyFileSystem::open` recomputes the layout from the superblock.  On a disk
that holds a file system it finds the layout that `create` computed.
-/

namespace RCoreOS.EasyFs

open Lib.Bytes EasyFileSystem BlockProg Function

namespace Geometry

variable {g : Geometry} {disk after : Disk} {nodes : List Node}

/-! ## The layout that `create` computes -/

/-- The part of `create` after its arithmetic. -/
def format (g : Geometry) : BlockProg EasyFileSystem := do
  clearBlocks (List.range g.totalBlocks)
  BlockProg.modifyAt 0 0 fun _ : SuperBlock => return ((), g.superBlock)
  let rootId ← g.efs.allocInode
  BlockProg.assert (rootId == 0)
  g.efs.rootInode.modifyDiskInode fun _ =>
    return ((), DiskInode.initialized .directory)
  BlockProg.blockCacheSyncAll
  return g.efs

/-- The arithmetic of `create` does not wrap on a geometry. -/
theorem create_eq_format (g : Geometry) :
    EasyFileSystem.create g.totalBlocks g.inodeBitmapBlocks = g.format := by
  obtain ⟨area, start, dataStart, total, _, _⟩ := g.regions
  have bounded := g.bounded
  have areaEq :
      (g.inodeBitmapBlocks * 4096 * 128 + 512 - 1) / 512 % 2 ^ 32 =
        g.inodeAreaBlocks := by
    rw [Nat.mod_eq_of_lt (by omega)]
    rfl
  have inodeTotal :
      (g.inodeBitmapBlocks + g.inodeAreaBlocks) % 2 ^ 32 =
        g.inodeBitmapBlocks + g.inodeAreaBlocks :=
    Nat.mod_eq_of_lt (by omega)
  have dataTotal :
      (g.totalBlocks + 2 * 2 ^ 32 - 1 -
          (g.inodeBitmapBlocks + g.inodeAreaBlocks)) % 2 ^ 32 =
        g.dataTotalBlocks := by
    rw [dataTotalBlocks]
    omega
  have bitmapBlocks :
      (g.dataTotalBlocks + 4096) % 2 ^ 32 / 4097 = g.dataBitmapBlocks := by
    rw [dataBitmapBlocks, Nat.mod_eq_of_lt]
    rw [dataTotalBlocks]
    omega
  have bitmapStart :
      (1 + g.inodeBitmapBlocks + g.inodeAreaBlocks) % 2 ^ 32 =
        1 + g.inodeBitmapBlocks + g.inodeAreaBlocks :=
    Nat.mod_eq_of_lt (by omega)
  have areaStart :
      (1 + g.inodeBitmapBlocks) % 2 ^ 32 = 1 + g.inodeBitmapBlocks :=
    Nat.mod_eq_of_lt (by omega)
  have dataStartEq :
      (1 + (g.inodeBitmapBlocks + g.inodeAreaBlocks) +
          g.dataBitmapBlocks) % 2 ^ 32 =
        1 + (g.inodeBitmapBlocks + g.inodeAreaBlocks) + g.dataBitmapBlocks :=
    Nat.mod_eq_of_lt (by omega)
  unfold EasyFileSystem.create
  simp only [Bitmap.new, Bitmap.maximum, areaEq, inodeTotal, dataTotal,
    bitmapBlocks, bitmapStart, areaStart, dataStartEq]
  rfl

/-! ## What `create` leaves -/

theorem onDisk_clearBlocks (blocks : List Nat) (disk : Disk) :
    ∃ after,
      (clearBlocks blocks).onDisk [] disk = .ok ((), after) ∧
        ∀ block, after block = if block ∈ blocks then zeros else disk block := by
  induction blocks generalizing disk with
  | nil => exact ⟨disk, rfl, by simp⟩
  | cons first rest ih =>
    have cleared :
        (BlockProg.modifyAt first 0 fun _ : DataBlock =>
            return ((), zeros)).onDisk [] disk =
          .ok ((), Function.update disk first zeros) :=
      onDisk_modifyAt (canLock_nil first) (Nat.le_refl 512) rfl
    obtain ⟨after, ran, contents⟩ := ih (Function.update disk first zeros)
    refine ⟨after, ?_, ?_⟩
    · rw [clearBlocks, onDisk_bind_ok cleared, ran]
    · intro block
      rw [contents block, update_apply]
      by_cases here : block = first
      · simp [here]
      · simp [here]

/-- The bits of a bitmap of zero blocks are zero. -/
theorem bit_of_zero {bitmap : Bitmap}
    (zero : ∀ block, bitmap.Covers block → disk block = zeros)
    {n : Nat} (inside : n < bitmap.maximum) :
    bitmap.bit disk n = false := by
  rw [Bitmap.maximum] at inside
  rw [Bitmap.bit, zero _ ⟨by omega, by omega⟩, Bitmap.blockBit]
  split
  · next within =>
      rw [bitmapBlock, getElem_loadWords, wordAt_zeros]
      simp
  · rfl

/-- A disk with a superblock and zeros behind it holds no nodes. -/
theorem represents_nil (superBlock : BlockView.load (disk 0) 0 = g.superBlock)
    (zero : ∀ block, 0 < block → block < g.totalBlocks → disk block = zeros) :
    g.Represents disk [] := by
  obtain ⟨_, start, dataStart, _, _, _⟩ := g.regions
  refine ⟨?_, Nat.zero_le _⟩
  refine
    { superBlock := superBlock
      represented := ?_
      distinct := ?_
      apart := ?_
      inArea := ?_
      owned := ?_
      freeZero := ?_ }
  · intro id node present
    cases present
  · intro id node present
    cases present
  · intro left right leftNode rightNode _ leftAt
    cases leftAt
  · intro node member
    cases member
  · intro node member
    cases member
  · intro block inArea onDevice _
    have behind := inArea.behind
    exact zero block (by omega) onDevice

/-- A file system just after `create`. -/
structure Fresh (g : Geometry) (disk : Disk) : Prop where
  represents : g.Represents disk [Node.empty .directory]
  inodeBits : g.InodeBits disk 1
  free : ∀ block, g.InArea block → g.dataBit disk block = false
  inodes : ∀ id, 0 < id → id < g.efs.inodeBitmap.maximum →
    g.inodeAt disk id = DiskInode.initialized .file

/-- Storing the root directory on a cleared disk. -/
theorem fresh_of_cleared {cleared allocated : Disk}
    (zero :
      ∀ block, 0 < block → block < g.totalBlocks → cleared block = zeros)
    (allocatedBit : g.efs.inodeBitmap.Allocated cleared 0 allocated)
    (new : g.NewInode cleared [] 0 allocated) :
    g.Fresh (g.storeInode allocated 0 (DiskInode.initialized .directory)) := by
  obtain ⟨_, start, dataStart, total, _, _⟩ := g.regions
  have positive := g.positive
  have inside : 0 < g.efs.inodeBitmap.maximum := by
    rw [inodeBitmap_maximum]
    omega
  refine ⟨new.represents.initialized inside (Nat.le_refl 0) .directory,
    ?_, ?_, ?_⟩
  · apply new.inodeBits.congr
    intro block covers
    exact storeInode_other _ (Nat.ne_of_lt (covers_lt covers 0).1)
  · intro block inArea
    have lower := inArea.1
    have upper := inArea.2
    refine bit_of_zero (fun covered covers => ?_) (by omega)
    have behind : g.efs.dataBitmap.startBlockId ≤ covered := covers.1
    have before :
        covered < g.efs.dataBitmap.startBlockId + g.dataBitmapBlocks :=
      covers.2
    rw [dataBitmap_storeInode inside _ covers, new.dataBitmap _ covers]
    exact zero covered (by omega) (by omega)
  · intro id notRoot within
    have below := inodeBlock_lt within
    have kept : allocated (g.inodeBlock id) = zeros := by
      have behind : 1 + g.inodeBitmapBlocks ≤ g.inodeBlock id :=
        Nat.le_add_right _ _
      rw [allocatedBit.frame, zero _ (by omega) (by omega)]
      rintro ⟨_, upper⟩
      have last : g.inodeBlock id < 1 + g.inodeBitmapBlocks := upper
      omega
    rw [inodeAt_storeInode, update_of_ne (Nat.ne_of_gt notRoot),
      inodeAt, kept, DiskInode.load_zeros]
    rfl

/-- `EasyFileSystem::create` makes a fresh file system of every device. -/
theorem onDisk_createEfs (g : Geometry) (disk : Disk) :
    ∃ after,
      (EasyFileSystem.create g.totalBlocks g.inodeBitmapBlocks).onDisk []
          disk = .ok (g.efs, after) ∧
        g.Fresh after := by
  obtain ⟨zeroed, ranClear, contents⟩ :=
    onDisk_clearBlocks (List.range g.totalBlocks) disk
  obtain ⟨_, start, dataStart, total, _, _⟩ := g.regions
  have positive := g.positive
  have zeroBlock (block : Nat) (onDevice : block < g.totalBlocks) :
      zeroed block = zeros := by
    rw [contents, if_pos (List.mem_range.mpr onDevice)]
  have stored :
      (BlockProg.modifyAt 0 0 fun _ : SuperBlock =>
          return ((), g.superBlock)).onDisk [] zeroed =
        .ok ((), Function.update zeroed 0
          (BlockView.store (zeroed 0) 0 g.superBlock)) :=
    onDisk_modifyAt (canLock_nil 0) (by decide) rfl
  generalize clearedEq :
    Function.update zeroed 0 (BlockView.store (zeroed 0) 0 g.superBlock) =
      cleared at stored
  have superBlock : BlockView.load (cleared 0) 0 = g.superBlock := by
    rw [← clearedEq, update_self, SuperBlock.load_store]
  have zero (block : Nat) (behind : 0 < block)
      (onDevice : block < g.totalBlocks) : cleared block = zeros := by
    rw [← clearedEq, update_of_ne (Nat.ne_of_gt behind),
      zeroBlock block onDevice]
  have noInodes : g.InodeBits cleared 0 := by
    intro n inside
    rw [bit_of_zero (fun covered covers => ?_) inside]
    · rfl
    · have first : 1 ≤ covered := covers.1
      have last := (covers_lt covers 0).2
      exact zero covered first (by omega)
  have inside : 0 < g.efs.inodeBitmap.maximum := by
    rw [inodeBitmap_maximum]
    omega
  obtain ⟨allocated, alloc, allocatedBit⟩ :=
    onDisk_allocInode (fun _ _ => canLock_nil _) inside noInodes
  obtain ⟨_, new⟩ :=
    (represents_nil superBlock zero).allocInode_returned noInodes alloc
  refine ⟨g.storeInode allocated 0 (DiskInode.initialized .directory), ?_,
    fresh_of_cleared zero allocatedBit new⟩
  rw [create_eq_format, format, onDisk_bind_ok ranClear,
    onDisk_bind_ok stored, onDisk_bind_ok alloc]
  show (g.efs.rootInode.modifyDiskInode _ >>= _).onDisk [] allocated = _
  rw [rootInode, onDisk_bind_ok (onDisk_initialized inside .directory)]
  rfl

/-! ## `open` -/

/-- `EasyFileSystem::open` finds the layout that `create` computed. -/
theorem onDisk_open (superBlock : BlockView.load (disk 0) 0 = g.superBlock) :
    open_.onDisk [] disk = .ok (g.efs, disk) := by
  obtain ⟨area, start, dataStart, total, _, _⟩ := g.regions
  have bounded := g.bounded
  have bitmapSmall : g.inodeBitmapBlocks % 2 ^ 32 = g.inodeBitmapBlocks :=
    Nat.mod_eq_of_lt (by omega)
  have areaSmall : g.inodeAreaBlocks % 2 ^ 32 = g.inodeAreaBlocks :=
    Nat.mod_eq_of_lt (by omega)
  have dataBitmapSmall : g.dataBitmapBlocks % 2 ^ 32 = g.dataBitmapBlocks :=
    Nat.mod_eq_of_lt (by omega)
  have inodeTotal :
      (g.inodeBitmapBlocks + g.inodeAreaBlocks) % 2 ^ 32 =
        g.inodeBitmapBlocks + g.inodeAreaBlocks :=
    Nat.mod_eq_of_lt (by omega)
  have bitmapStart :
      (1 + (g.inodeBitmapBlocks + g.inodeAreaBlocks)) % 2 ^ 32 =
        1 + g.inodeBitmapBlocks + g.inodeAreaBlocks := by
    rw [Nat.mod_eq_of_lt (by omega), Nat.add_assoc]
  have areaStart :
      (1 + g.inodeBitmapBlocks) % 2 ^ 32 = 1 + g.inodeBitmapBlocks :=
    Nat.mod_eq_of_lt (by omega)
  have dataStartEq :
      (1 + (g.inodeBitmapBlocks + g.inodeAreaBlocks) +
          g.dataBitmapBlocks) % 2 ^ 32 =
        1 + (g.inodeBitmapBlocks + g.inodeAreaBlocks) + g.dataBitmapBlocks :=
    Nat.mod_eq_of_lt (by omega)
  rw [open_, BlockProg.onDisk_readAt (canLock_nil 0) (by decide), superBlock]
  simp only [Geometry.superBlock, SuperBlock.initialized,
    SuperBlock.isValid, beq_self_eq_true, if_true, Bitmap.new,
    BitVec.toNat_add, BitVec.toNat_ofNat, bitmapSmall, areaSmall,
    dataBitmapSmall, inodeTotal, bitmapStart, areaStart, dataStartEq]
  rfl

end Geometry

end RCoreOS.EasyFs
