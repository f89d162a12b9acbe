import RCoreOS.EasyFs.Efs

/-!
# The inode layer

An `Inode` is the position of a disk inode.  Its operations lock the file
system for their whole duration and reach the disk inode through
`read_disk_inode` and `modify_disk_inode`, whose closures run while the block
of the inode is locked.
-/

namespace RCoreOS.EasyFs

/-- `Inode`, without the file system and the device that all inodes share. -/
structure Inode where
  blockId : Nat
  blockOffset : Nat
deriving DecidableEq, Repr

/-- The inode at the position of an inode id. -/
def EasyFileSystem.inode (self : EasyFileSystem) (inodeId : Nat) : Inode :=
  let (blockId, blockOffset) := self.getDiskInodePos inodeId
  ⟨blockId, blockOffset⟩

/-- `EasyFileSystem::root_inode` -/
def EasyFileSystem.rootInode (self : EasyFileSystem) : Inode := self.inode 0

namespace Inode

variable {β : Type}

/-- `Inode::read_disk_inode` -/
def readDiskInode (self : Inode) (f : DiskInode → BlockProg β) :
    BlockProg β :=
  BlockProg.readAt self.blockId self.blockOffset f

/-- `Inode::modify_disk_inode` -/
def modifyDiskInode (self : Inode) (f : DiskInode → BlockProg (β × DiskInode)) :
    BlockProg β :=
  BlockProg.modifyAt self.blockId self.blockOffset f

/-- Read directory entry `i` over `dirent`; it must be complete. -/
def readDirEntry (diskInode : DiskInode) (i : Nat) (dirent : DirEntry) :
    BlockProg DirEntry := do
  let (count, bytes) ← diskInode.readAt (32 * i) dirent.asBytes
  BlockProg.assert (count == 32)
  return DirEntry.ofBytes bytes

/-- The loop of `find_inode_id`, which reuses one entry. -/
def findLoop (name : String) (diskInode : DiskInode) :
    List Nat → DirEntry → BlockProg (Option (BitVec 32))
  | [], _ => return none
  | i :: rest, dirent => do
      let dirent ← readDirEntry diskInode i dirent
      let entryName ← BlockProg.ofExcept dirent.nameOf
      if entryName = name then
        return some dirent.inodeId
      else
        findLoop name diskInode rest dirent

/-- `Inode::find_inode_id` -/
def findInodeId (name : String) (diskInode : DiskInode) :
    BlockProg (Option (BitVec 32)) := do
  BlockProg.assert diskInode.isDir
  let fileCount := diskInode.size.toNat / 32
  findLoop name diskInode (List.range fileCount) DirEntry.empty

/-- `Inode::find` -/
def find (efs : EasyFileSystem) (self : Inode) (name : String) :
    BlockProg (Option Inode) :=
  self.readDiskInode fun diskInode => do
    let found ← findInodeId name diskInode
    return found.map fun inodeId => efs.inode inodeId.toNat

/-- The loop of `increase_size` that allocates `count` data blocks. -/
def allocBlocks (efs : EasyFileSystem) : Nat → BlockProg (List (BitVec 32))
  | 0 => return []
  | count + 1 => do
      let block ← efs.allocData
      let rest ← allocBlocks efs count
      return block :: rest

/-- `Inode::increase_size` -/
def increaseSize
    (efs : EasyFileSystem) (newSize : Nat) (diskInode : DiskInode) :
    BlockProg DiskInode :=
  if newSize < diskInode.size.toNat then
    return diskInode
  else do
    let blocksNeeded ← BlockProg.ofExcept (diskInode.blocksNumNeeded newSize)
    let v ← allocBlocks efs blocksNeeded
    diskInode.increaseSize newSize v

/-- The closure of `create` that appends a directory entry. -/
def appendDirEntry (efs : EasyFileSystem) (name : String) (newInodeId : Nat)
    (rootInode : DiskInode) : BlockProg (Unit × DiskInode) := do
  -- append file in the dirent
  let fileCount := rootInode.size.toNat / 32
  let newSize := (fileCount + 1) * 32
  -- increase size
  let rootInode ← increaseSize efs (newSize % 2 ^ 32) rootInode
  -- write dirent
  let dirent ←
    BlockProg.ofExcept (DirEntry.new name (BitVec.ofNat 32 newInodeId))
  let _ ← rootInode.writeAt (fileCount * 32) dirent.asBytes
  return ((), rootInode)

/-- The part of `create` after the name was not found. -/
def createFile (efs : EasyFileSystem) (self : Inode) (name : String) :
    BlockProg Inode := do
  let newInodeId ← efs.allocInode
  let newInode := efs.inode newInodeId
  newInode.modifyDiskInode fun _ => return ((), DiskInode.initialized .file)
  self.modifyDiskInode (appendDirEntry efs name newInodeId)
  BlockProg.blockCacheSyncAll
  return newInode

/-- `Inode::create`.  When the name exists, it returns without a sync. -/
def create (efs : EasyFileSystem) (self : Inode) (name : String) :
    BlockProg (Option Inode) := do
  let found ←
    self.modifyDiskInode fun rootInode => do
      BlockProg.assert rootInode.isDir
      let found ← findInodeId name rootInode
      return (found, rootInode)
  if found.isSome then
    return none
  else do
    let newInode ← createFile efs self name
    return some newInode

/-- The loop of `ls`, with a new entry for each round. -/
def lsLoop (diskInode : DiskInode) : List Nat → BlockProg (List String)
  | [] => return []
  | i :: rest => do
      let dirent ← readDirEntry diskInode i DirEntry.empty
      let name ← BlockProg.ofExcept dirent.nameOf
      let names ← lsLoop diskInode rest
      return name :: names

/-- `Inode::ls` -/
def ls (self : Inode) : BlockProg (List String) :=
  self.readDiskInode fun diskInode =>
    lsLoop diskInode (List.range (diskInode.size.toNat / 32))

/-- `Inode::read_at`: the bytes read and the buffer afterwards. -/
def readAt (self : Inode) (offset : Nat) (buf : List UInt8) :
    BlockProg (Nat × List UInt8) :=
  self.readDiskInode fun diskInode => diskInode.readAt offset buf

/-- The closure of `write_at`; the new size is cut to a `u32`. -/
def growAndWrite (efs : EasyFileSystem) (offset : Nat) (buf : List UInt8)
    (diskInode : DiskInode) : BlockProg (Nat × DiskInode) := do
  let diskInode ←
    increaseSize efs ((offset + buf.length) % 2 ^ 32) diskInode
  let size ← diskInode.writeAt offset buf
  return (size, diskInode)

/-- `Inode::write_at` -/
def writeAt (efs : EasyFileSystem) (self : Inode) (offset : Nat)
    (buf : List UInt8) : BlockProg Nat := do
  let size ← self.modifyDiskInode (growAndWrite efs offset buf)
  BlockProg.blockCacheSyncAll
  return size

/-- The loop of `clear` over the blocks to give back. -/
def deallocBlocks (efs : EasyFileSystem) :
    List (BitVec 32) → BlockProg Unit
  | [] => return ()
  | block :: rest => do
      efs.deallocData block
      deallocBlocks efs rest

/-- The closure of `clear`. -/
def clearDiskInode (efs : EasyFileSystem) (diskInode : DiskInode) :
    BlockProg (Unit × DiskInode) := do
  let size := diskInode.size
  let (dataBlocksDealloc, diskInode) ← diskInode.clearSize
  BlockProg.assert
    (dataBlocksDealloc.length == DiskInode.totalBlocks size.toNat)
  deallocBlocks efs dataBlocksDealloc
  return ((), diskInode)

/-- `Inode::clear` -/
def clear (efs : EasyFileSystem) (self : Inode) : BlockProg Unit := do
  self.modifyDiskInode (clearDiskInode efs)
  BlockProg.blockCacheSyncAll

end Inode

end RCoreOS.EasyFs
