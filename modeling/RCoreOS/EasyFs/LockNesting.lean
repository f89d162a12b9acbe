import RCoreOS.EasyFs.LockDepth
import RCoreOS.EasyFs.Session

/-!
# How deep the operations nest

The operations of an inode nest at most three blocks deep: the block of the
inode, `indirect2` and one of its index blocks.  This can be read off their
text, function by function.
-/

namespace RCoreOS.EasyFs

open BlockProg

namespace BlockProg

theorem nests_index {α : Type} {count : Nat} (words : Vector α count)
    (index depth : Nat) : (BlockProg.index words index).Nests depth := by
  rw [BlockProg.index]
  split
  · exact nests_pure _ _
  · exact (rfl : Fault.ofCache .indexOutOfRange = false)

end BlockProg

namespace Bitmap

open BlockProg

theorem nests_allocLoop (self : Bitmap) (blocks : List Nat) :
    (self.allocLoop blocks).Nests 1 := by
  induction blocks with
  | nil => exact nests_pure _ _
  | cons blockId rest ih =>
    rw [allocLoop]
    refine Nests.bind (nests_modifyAt fun _ => nests_pure _ _) fun pos => ?_
    split
    · exact nests_pure _ _
    · exact ih

theorem nests_alloc (self : Bitmap) : self.alloc.Nests 1 :=
  self.nests_allocLoop _

theorem nests_dealloc (self : Bitmap) (bit : Nat) :
    (self.dealloc bit).Nests 1 := by
  rw [dealloc, decomposition]
  refine nests_modifyAt fun words => ?_
  split
  · split
    · exact nests_pure _ _
    · exact (rfl : Fault.ofCache .assertFailed = false)
  · exact (rfl : Fault.ofCache .indexOutOfRange = false)

end Bitmap

namespace EasyFileSystem

open BlockProg

theorem nests_allocInode (self : EasyFileSystem) :
    self.allocInode.Nests 1 := by
  rw [allocInode]
  refine self.inodeBitmap.nests_alloc.bind fun found => ?_
  cases found with
  | none => exact (rfl : Fault.ofCache .unwrapFailed = false)
  | some _ => exact nests_pure _ _

theorem nests_allocData (self : EasyFileSystem) : self.allocData.Nests 1 := by
  rw [allocData]
  refine self.dataBitmap.nests_alloc.bind fun found => ?_
  cases found with
  | none => exact (rfl : Fault.ofCache .unwrapFailed = false)
  | some _ => exact nests_pure _ _

theorem nests_deallocData (self : EasyFileSystem) (blockId : BitVec 32) :
    (self.deallocData blockId).Nests 1 := by
  rw [deallocData]
  exact Nests.bind (nests_modifyAt fun _ => nests_pure _ _) fun _ =>
    self.dataBitmap.nests_dealloc _

end EasyFileSystem

namespace DiskInode

open BlockProg

variable (self : DiskInode)

theorem nests_getBlockId (innerId : Nat) :
    (self.getBlockId innerId).Nests 1 := by
  rw [getBlockId]
  split
  · exact nests_index _ _ _
  · split
    · exact nests_readAt fun _ => nests_index _ _ _
    · apply Nests.bind
      · exact nests_readAt fun _ => nests_index _ _ _
      · intro indirect1
        apply nests_readAt
        intro words
        generalize (innerId - 156) % 128 = position
        exact nests_index words position 0

/-- Taking a block from an empty list is a panic of its own. -/
theorem plain_next (newBlocks : List (BitVec 32)) : Plain (next newBlocks) := by
  cases newBlocks with
  | nil => exact plain_error rfl
  | cons _ _ => exact plain_ok _

theorem plain_nextIf (needed : Bool) (slot : BitVec 32)
    (newBlocks : List (BitVec 32)) : Plain (nextIf needed slot newBlocks) := by
  rw [nextIf]
  split
  · exact plain_next newBlocks
  · exact plain_ok _

theorem plain_fill {count : Nat} (words : Vector (BitVec 32) count)
    (current total : Nat) (newBlocks : List (BitVec 32)) :
    Plain (fill words current total newBlocks) := by
  fun_induction fill words current total newBlocks with
  | case1 words current newBlocks more ih =>
    exact (plain_next newBlocks).bind fun taken => ih taken.1 taken.2
  | case2 => exact plain_ok _

theorem plain_allocSub (a0 : Nat) (b0 : Fin 128) (indirect2 : IndirectBlock)
    (newBlocks : List (BitVec 32)) :
    Plain (allocSub a0 b0 indirect2 newBlocks) := by
  rw [allocSub]
  split
  · refine (plain_next newBlocks).bind fun taken => ?_
    obtain ⟨block, rest⟩ := taken
    dsimp only
    split
    · exact plain_ok _
    · exact plain_error rfl
  · exact plain_ok _

theorem nests_fillIndirect2 (a1 b1 a0 : Nat) (b0 : Fin 128)
    (indirect2 : IndirectBlock) (newBlocks : List (BitVec 32)) :
    (fillIndirect2 a1 b1 a0 b0 indirect2 newBlocks).Nests 1 := by
  fun_induction fillIndirect2 a1 b1 a0 b0 indirect2 newBlocks with
  | case1 a0 b0 indirect2 newBlocks more next wrap =>
    refine Nests.bind (nests_ofExcept (plain_allocSub _ _ _ _) _)
      fun taken => ?_
    refine Nests.bind (nests_index _ _ _) fun sub => ?_
    refine Nests.bind (nests_modifyAt fun words => ?_) fun rest => ?_
    · exact Nests.bind (nests_ofExcept (plain_next _) _) fun _ =>
        nests_pure _ _
    · split
      · next inside => exact next _ _ inside
      · next outside => exact wrap _ _ outside
  | case2 => exact nests_pure _ _

theorem nests_increaseIndirect2 (currentBlocks totalBlocks : Nat)
    (newBlocks : List (BitVec 32)) :
    (self.increaseIndirect2 currentBlocks totalBlocks newBlocks).Nests 2 :=
  Nests.bind (nests_modifyAt fun _ => nests_fillIndirect2 _ _ _ _ _ _)
    fun _ => nests_pure _ _

theorem nests_increaseIndirect1 (currentBlocks totalBlocks : Nat)
    (newBlocks : List (BitVec 32)) :
    (self.increaseIndirect1 currentBlocks totalBlocks newBlocks).Nests 2 := by
  rw [increaseIndirect1]
  refine Nests.bind (nests_modifyAt fun words => ?_) fun taken => ?_
  · exact Nests.bind (nests_ofExcept (plain_fill _ _ _ _) _) fun _ =>
      nests_pure _ _
  · obtain ⟨currentBlocks, newBlocks⟩ := taken
    dsimp only
    split
    · exact Nests.bind (nests_ofExcept (plain_nextIf _ _ _) _) fun _ =>
        nests_increaseIndirect2 _ _ _ _
    · exact nests_pure _ _

theorem nests_increaseSize (newSize : Nat) (newBlocks : List (BitVec 32)) :
    (self.increaseSize newSize newBlocks).Nests 2 := by
  rw [increaseSize]
  refine Nests.bind (nests_ofExcept (plain_fill _ _ _ _) _) fun taken => ?_
  obtain ⟨direct, currentBlocks, newBlocks⟩ := taken
  dsimp only
  split
  · exact Nests.bind (nests_ofExcept (plain_nextIf _ _ _) _) fun _ =>
      nests_increaseIndirect1 _ _ _ _
  · exact nests_pure _ _

theorem nests_pushFull (entries v : List (BitVec 32)) :
    (pushFull entries v).Nests 1 := by
  induction entries generalizing v with
  | nil => exact nests_pure _ _
  | cons entry rest ih =>
    exact Nests.bind (nests_modifyAt fun _ => nests_pure _ _) fun v => ih v

theorem nests_clearIndirect2 (dataBlocks : Nat) (v : List (BitVec 32)) :
    (self.clearIndirect2 dataBlocks v).Nests 2 := by
  rw [clearIndirect2]
  refine Nests.bind (nests_assert _ _) fun _ => ?_
  refine Nests.bind (nests_modifyAt fun words => ?_) fun _ => nests_pure _ _
  refine Nests.bind (nests_pushFull _ _) fun v => ?_
  split
  · refine Nests.bind (nests_index _ _ _) fun sub => ?_
    exact Nests.bind (nests_modifyAt fun _ => nests_pure _ _) fun _ =>
      nests_pure _ _
  · exact nests_pure _ _

theorem nests_clearIndirect1 (dataBlocks : Nat) (v : List (BitVec 32)) :
    (self.clearIndirect1 dataBlocks v).Nests 2 := by
  rw [clearIndirect1]
  refine Nests.bind (nests_modifyAt fun _ => nests_pure _ _) fun v => ?_
  dsimp only
  split
  · generalize dataBlocks - 128 = more
    exact nests_clearIndirect2 _ more _
  · exact nests_pure _ _

theorem nests_clearSize : self.clearSize.Nests 2 := by
  rw [clearSize]
  dsimp only
  split
  · exact nests_clearIndirect1 _ _ _
  · exact nests_pure _ _

theorem nests_readLoop (stop start startBlock readSize : Nat)
    (buf : List UInt8) :
    (self.readLoop stop start startBlock readSize buf).Nests 1 := by
  induction left : stop - start using Nat.strongRecOn
    generalizing start startBlock readSize buf with
  | ind measure ih =>
    rw [readLoop]
    dsimp only
    split
    · refine Nests.bind (nests_getBlockId _ _) fun blockId => ?_
      refine Nests.bind (nests_readAt fun _ => nests_pure _ _) fun src => ?_
      split
      · exact nests_pure _ _
      · exact ih (stop - min ((start / 512 + 1) * 512) stop) (by omega)
          _ _ _ _ rfl
    · exact (rfl : Fault.ofCache .indexOutOfRange = false)

theorem nests_readAt (offset : Nat) (buf : List UInt8) :
    (self.readAt offset buf).Nests 1 := by
  rw [readAt]
  split
  · exact nests_pure _ _
  · exact nests_readLoop _ _ _ _ _ _

theorem nests_writeLoop (stop start startBlock writeSize : Nat)
    (buf : List UInt8) :
    (self.writeLoop stop start startBlock writeSize buf).Nests 1 := by
  induction left : stop - start using Nat.strongRecOn
    generalizing start startBlock writeSize with
  | ind measure ih =>
    rw [writeLoop]
    dsimp only
    split
    · refine Nests.bind (nests_getBlockId _ _) fun blockId => ?_
      refine Nests.bind (nests_modifyAt fun _ => nests_pure _ _) fun _ => ?_
      split
      · exact nests_pure _ _
      · exact ih (stop - min ((start / 512 + 1) * 512) stop) (by omega)
          _ _ _ rfl
    · exact (rfl : Fault.ofCache .indexOutOfRange = false)

theorem nests_writeAt (offset : Nat) (buf : List UInt8) :
    (self.writeAt offset buf).Nests 1 :=
  Nests.bind (nests_assert _ _) fun _ => nests_writeLoop _ _ _ _ _ _

end DiskInode

theorem DirEntry.plain_nameOf (self : DirEntry) :
    BlockProg.Plain self.nameOf := by
  rw [nameOf]
  split
  · exact plain_error rfl
  · split
    · exact plain_error rfl
    · exact plain_ok _

theorem DirEntry.plain_new (name : String) (inodeId : BitVec 32) :
    BlockProg.Plain (DirEntry.new name inodeId) := by
  rw [DirEntry.new]
  split
  · exact plain_ok _
  · exact plain_error rfl

theorem DiskInode.plain_blocksNumNeeded (self : DiskInode) (newSize : Nat) :
    BlockProg.Plain (self.blocksNumNeeded newSize) := by
  rw [blocksNumNeeded]
  split
  · exact plain_ok _
  · exact plain_error rfl

namespace Inode

open BlockProg

theorem nests_readDirEntry (diskInode : DiskInode) (i : Nat)
    (dirent : DirEntry) : (readDirEntry diskInode i dirent).Nests 1 := by
  rw [readDirEntry]
  refine Nests.bind (diskInode.nests_readAt _ _) fun read => ?_
  exact Nests.bind (nests_assert _ _) fun _ => nests_pure _ _

theorem nests_findLoop (name : String) (diskInode : DiskInode)
    (indices : List Nat) (dirent : DirEntry) :
    (findLoop name diskInode indices dirent).Nests 1 := by
  induction indices generalizing dirent with
  | nil => exact nests_pure _ _
  | cons i rest ih =>
    rw [findLoop]
    refine Nests.bind (nests_readDirEntry _ _ _) fun dirent => ?_
    refine Nests.bind (nests_ofExcept dirent.plain_nameOf _)
      fun entryName => ?_
    split
    · exact nests_pure _ _
    · exact ih dirent

theorem nests_findInodeId (name : String) (diskInode : DiskInode) :
    (findInodeId name diskInode).Nests 1 :=
  Nests.bind (nests_assert _ _) fun _ => nests_findLoop _ _ _ _

theorem nests_lsLoop (diskInode : DiskInode) (indices : List Nat) :
    (lsLoop diskInode indices).Nests 1 := by
  induction indices with
  | nil => exact nests_pure _ _
  | cons i rest ih =>
    rw [lsLoop]
    refine Nests.bind (nests_readDirEntry _ _ _) fun dirent => ?_
    refine Nests.bind (nests_ofExcept dirent.plain_nameOf _) fun name => ?_
    exact ih.bind fun _ => nests_pure _ _

theorem nests_allocBlocks (efs : EasyFileSystem) (count : Nat) :
    (allocBlocks efs count).Nests 1 := by
  induction count with
  | zero => exact nests_pure _ _
  | succ count ih =>
    exact efs.nests_allocData.bind fun _ => ih.bind fun _ => nests_pure _ _

theorem nests_increaseSize (efs : EasyFileSystem) (newSize : Nat)
    (diskInode : DiskInode) :
    (increaseSize efs newSize diskInode).Nests 2 := by
  rw [increaseSize]
  split
  · exact nests_pure _ _
  · refine Nests.bind
      (nests_ofExcept (diskInode.plain_blocksNumNeeded _) _) fun count => ?_
    refine Nests.bind ((nests_allocBlocks efs count).mono (by decide))
      fun v => ?_
    exact diskInode.nests_increaseSize _ _

theorem nests_appendDirEntry (efs : EasyFileSystem) (name : String)
    (newInodeId : Nat) (rootInode : DiskInode) :
    (appendDirEntry efs name newInodeId rootInode).Nests 2 := by
  rw [appendDirEntry]
  refine Nests.bind (nests_increaseSize _ _ _) fun rootInode => ?_
  refine Nests.bind (nests_ofExcept (DirEntry.plain_new _ _) _)
    fun dirent => ?_
  exact Nests.bind ((rootInode.nests_writeAt _ _).mono (by decide)) fun _ =>
    nests_pure _ _

theorem nests_deallocBlocks (efs : EasyFileSystem)
    (blocks : List (BitVec 32)) : (deallocBlocks efs blocks).Nests 1 := by
  induction blocks with
  | nil => exact nests_pure _ _
  | cons block rest ih => exact (efs.nests_deallocData block).bind fun _ => ih

theorem nests_clearDiskInode (efs : EasyFileSystem) (diskInode : DiskInode) :
    (clearDiskInode efs diskInode).Nests 2 := by
  rw [clearDiskInode]
  refine Nests.bind diskInode.nests_clearSize fun cleared => ?_
  refine Nests.bind (nests_assert _ _) fun _ => ?_
  exact Nests.bind ((nests_deallocBlocks efs _).mono (by decide)) fun _ =>
    nests_pure _ _

theorem nests_growAndWrite (efs : EasyFileSystem) (offset : Nat)
    (buf : List UInt8) (diskInode : DiskInode) :
    (growAndWrite efs offset buf diskInode).Nests 2 := by
  rw [growAndWrite]
  refine Nests.bind (nests_increaseSize _ _ _) fun diskInode => ?_
  exact Nests.bind ((diskInode.nests_writeAt _ _).mono (by decide)) fun _ =>
    nests_pure _ _

theorem nests_createFile (efs : EasyFileSystem) (self : Inode)
    (name : String) : (createFile efs self name).Nests 3 := by
  rw [createFile]
  refine Nests.bind (efs.nests_allocInode.mono (by decide))
    fun newInodeId => ?_
  refine Nests.bind (nests_modifyAt fun _ => nests_pure _ _) fun _ => ?_
  refine Nests.bind (nests_modifyAt fun _ => nests_appendDirEntry _ _ _ _)
    fun _ => ?_
  exact Nests.bind (nests_syncAll _) fun _ => nests_pure _ _

theorem nests_create (efs : EasyFileSystem) (self : Inode) (name : String) :
    (create efs self name).Nests 3 := by
  rw [create]
  refine Nests.bind (nests_modifyAt fun rootInode => ?_) fun found => ?_
  · refine Nests.bind (nests_assert _ _) fun _ => ?_
    exact Nests.bind ((nests_findInodeId _ _).mono (by decide)) fun _ =>
      nests_pure _ _
  · split
    · exact nests_pure _ _
    · exact (nests_createFile efs self name).bind fun _ => nests_pure _ _

theorem nests_find (efs : EasyFileSystem) (self : Inode) (name : String) :
    (find efs self name).Nests 2 := by
  rw [find, readDiskInode]
  apply nests_readAt
  intro diskInode
  exact (nests_findInodeId name diskInode).bind fun _ => nests_pure _ _

theorem nests_ls (self : Inode) : self.ls.Nests 2 := by
  rw [ls, readDiskInode]
  apply nests_readAt
  intro diskInode
  exact nests_lsLoop diskInode _

theorem nests_readAt (self : Inode) (offset : Nat) (buf : List UInt8) :
    (self.readAt offset buf).Nests 2 := by
  rw [readAt, readDiskInode]
  apply BlockProg.nests_readAt
  intro diskInode
  exact diskInode.nests_readAt offset buf

theorem nests_writeAt (efs : EasyFileSystem) (self : Inode) (offset : Nat)
    (buf : List UInt8) : (writeAt efs self offset buf).Nests 3 := by
  rw [writeAt, modifyDiskInode]
  apply Nests.bind
  · apply nests_modifyAt
    exact nests_growAndWrite efs offset buf
  · intro size
    exact (nests_syncAll 3).bind fun _ => nests_pure _ _

theorem nests_clear (efs : EasyFileSystem) (self : Inode) :
    (clear efs self).Nests 3 := by
  rw [clear, modifyDiskInode]
  apply Nests.bind
  · apply nests_modifyAt
    exact nests_clearDiskInode efs
  · exact fun _ => nests_syncAll 3

end Inode

open BlockProg in
/-- The operations of `Inode` nest three blocks deep at most. -/
theorem Call.nests_perform (efs : EasyFileSystem) (self : Inode)
    (call : Call) : (call.perform efs self).Nests 3 := by
  cases call with
  | create name =>
    exact (Inode.nests_create efs self name).bind fun _ => nests_pure _ _
  | find name =>
    exact ((Inode.nests_find efs self name).mono (by decide)).bind fun _ =>
      nests_pure _ _
  | ls => exact (self.nests_ls.mono (by decide)).bind fun _ => nests_pure _ _
  | readAt offset buf =>
    exact ((self.nests_readAt offset buf).mono (by decide)).bind fun _ =>
      nests_pure _ _
  | writeAt offset buf =>
    exact (Inode.nests_writeAt efs self offset buf).bind fun _ =>
      nests_pure _ _
  | clear => exact (Inode.nests_clear efs self).bind fun _ => nests_pure _ _

end RCoreOS.EasyFs
