import RCoreOS.EasyFs.NodeOps

/-!
# The file system that a disk holds

`Represents` is `Holding` for the inodes as they are on the disk; it is what
holds between two operations.  The operations of an `Inode` lock the block of
their inode, run a closure on the inode and store it back, so each of them is
one of the closures of the previous module followed by `storeInode`.

For each operation that can panic there are two results: a condition under
which it returns, and what is known once it has returned.
-/

namespace RCoreOS.EasyFs

open Lib.Bytes Function Lib.Segments Slot BlockProg

namespace Geometry

variable {g : Geometry} {disk between after : Disk} {nodes : List Node}
  {id : Nat} {node : Node} {β : Type}

/-! ## Inodes on the disk -/

/-- The block of the inode area that holds an inode. -/
def inodeBlock (g : Geometry) (id : Nat) : Nat :=
  1 + g.inodeBitmapBlocks + id / 4

/-- The inode with a given id, as it is on the disk. -/
def inodeAt (g : Geometry) (disk : Disk) (id : Nat) : DiskInode :=
  BlockView.load (disk (g.inodeBlock id)) (id % 4 * 128)

/-- The disk after an inode was stored back over its old bytes. -/
def storeInode (g : Geometry) (disk : Disk) (id : Nat) (inode : DiskInode) :
    Disk :=
  Function.update disk (g.inodeBlock id)
    (BlockView.store (disk (g.inodeBlock id)) (id % 4 * 128) inode)

section

variable (inside : id < g.efs.inodeBitmap.maximum)

include inside

/-- The inode area ends where the data bitmap starts. -/
theorem inodeBlock_lt :
    g.inodeBlock id < g.efs.dataBitmap.startBlockId := by
  obtain ⟨area, start, _, _, _, _⟩ := g.regions
  rw [inodeBitmap_maximum] at inside
  rw [inodeBlock, start]
  omega

/-- Positions in the inode area do not wrap. -/
theorem efs_inode :
    g.efs.inode id = ⟨g.inodeBlock id, id % 4 * 128⟩ := by
  have below := inodeBlock_lt inside
  obtain ⟨_, _, dataStart, total, _, _⟩ := g.regions
  have bounded := g.bounded
  have small : g.inodeBlock id < 2 ^ 32 := by omega
  show Inode.mk (g.inodeBlock id % 2 ^ 32) (id % 4 * 128) = _
  rw [Nat.mod_eq_of_lt small]

/-- Inodes with different ids have different positions. -/
theorem efs_inode_inj {other : Nat}
    (otherInside : other < g.efs.inodeBitmap.maximum)
    (equal : g.efs.inode id = g.efs.inode other) : id = other := by
  rw [efs_inode inside, efs_inode otherInside, Inode.mk.injEq, inodeBlock,
    inodeBlock] at equal
  omega

end

theorem inodeAt_storeInode (g : Geometry) (disk : Disk) (id : Nat)
    (inode : DiskInode) :
    g.inodeAt (g.storeInode disk id inode) =
      Function.update (g.inodeAt disk) id inode := by
  funext other
  have fits : id % 4 * 128 + 128 ≤ 512 := by omega
  by_cases same : other = id
  · rw [same, update_self, inodeAt, storeInode,
      update_self, DiskInode.load_store _ _ fits]
  · rw [update_of_ne same, inodeAt, storeInode, inodeAt]
    by_cases sameBlock : g.inodeBlock other = g.inodeBlock id
    · have disjoint :
          other % 4 * 128 + 128 ≤ id % 4 * 128 ∨
            id % 4 * 128 + 128 ≤ other % 4 * 128 := by
        rw [inodeBlock, inodeBlock] at sameBlock
        omega
      rw [sameBlock, update_self, DiskInode.load_store_other _ _ disjoint]
    · rw [update_of_ne sameBlock]

variable {block offset : Nat} {inode : DiskInode} {buf : List UInt8}

/-- Storing an inode touches the inode area only. -/
theorem storeInode_other (inode : DiskInode)
    (different : block ≠ g.inodeBlock id) :
    g.storeInode disk id inode block = disk block :=
  update_of_ne different _ _

theorem inodeAt_congr
    (agree : after (g.inodeBlock id) = disk (g.inodeBlock id)) :
    g.inodeAt after id = g.inodeAt disk id := by
  rw [inodeAt, inodeAt, agree]

/-- `read_disk_inode` runs its closure on the inode, with its block locked. -/
theorem onDisk_readDiskInode (inside : id < g.efs.inodeBitmap.maximum)
    (body : DiskInode → BlockProg β) :
    ((g.efs.inode id).readDiskInode body).onDisk [] disk =
      (body (g.inodeAt disk id)).onDisk [g.inodeBlock id] disk := by
  rw [efs_inode inside, Inode.readDiskInode]
  apply BlockProg.onDisk_readAt (canLock_nil _)
  show id % 4 * 128 + 128 ≤ 512
  omega

/-- `modify_disk_inode` returns when its closure does, and stores the inode. -/
theorem onDisk_modifyDiskInode (inside : id < g.efs.inodeBitmap.maximum)
    {body : DiskInode → BlockProg (β × DiskInode)} {result : β} :
    ((g.efs.inode id).modifyDiskInode body).onDisk [] disk =
        .ok (result, after) ↔
      ∃ inode between,
        (body (g.inodeAt disk id)).onDisk [g.inodeBlock id] disk =
            .ok ((result, inode), between) ∧
          after =
            Function.update between (g.inodeBlock id)
              (BlockView.store (disk (g.inodeBlock id)) (id % 4 * 128)
                inode) := by
  have fits : id % 4 * 128 + BlockView.size DiskInode ≤ 512 := by
    show id % 4 * 128 + 128 ≤ 512
    omega
  rw [efs_inode inside, Inode.modifyDiskInode]
  constructor
  · intro returned
    obtain ⟨_, _, inode, between, ran, afterEq⟩ :=
      onDisk_modifyAt_eq_ok returned
    exact ⟨inode, between, ran, afterEq⟩
  · rintro ⟨inode, between, ran, afterEq⟩
    rw [onDisk_modifyAt (canLock_nil _) fits ran, afterEq]

/-! ## Nodes on the disk -/

/-- The disk holds the given nodes, as the inodes from id zero on. -/
structure Represents
    (g : Geometry) (disk : Disk) (nodes : List Node) : Prop where
  holding : g.Holding (g.inodeAt disk) disk nodes
  slots : nodes.length ≤ g.efs.inodeBitmap.maximum

/-- The inodes below `count` are in use. -/
def InodeBits (g : Geometry) (disk : Disk) (count : Nat) : Prop :=
  ∀ n, n < g.efs.inodeBitmap.maximum →
    g.efs.inodeBitmap.bit disk n = decide (n < count)

theorem InodeBits.congr {count : Nat}
    (bits : g.InodeBits disk count)
    (agree :
      ∀ block, g.efs.inodeBitmap.Covers block → after block = disk block) :
    g.InodeBits after count := by
  intro n inside
  rw [Bitmap.bit_congr agree inside, bits n inside]

/-- The inode bitmap lies before the inode area. -/
theorem covers_lt (covers : g.efs.inodeBitmap.Covers block) (id : Nat) :
    block < g.inodeBlock id ∧ block < g.efs.dataBitmap.startBlockId := by
  have upper : block < 1 + g.inodeBitmapBlocks := covers.2
  obtain ⟨_, start, _, _, _, _⟩ := g.regions
  rw [inodeBlock, start]
  omega

theorem Represents.inside (represents : g.Represents disk nodes)
    (present : nodes[id]? = some node) :
    id < g.efs.inodeBitmap.maximum :=
  Nat.lt_of_lt_of_le (List.getElem?_eq_some_iff.mp present).1
    represents.slots

/-- Storing an inode back ends an operation on its node. -/
theorem Holding.store
    (holding :
      g.Holding (Function.update (g.inodeAt disk) id inode) between nodes)
    (inside : id < g.efs.inodeBitmap.maximum)
    (slots : nodes.length ≤ g.efs.inodeBitmap.maximum)
    (frame :
      ∀ block, block < g.efs.dataBitmap.startBlockId →
        between block = disk block) :
    g.Represents (g.storeInode between id inode) nodes := by
  have below := inodeBlock_lt inside
  have kept :
      g.Holding (Function.update (g.inodeAt disk) id inode)
        (g.storeInode between id inode) nodes := by
    apply holding.congr
    · apply storeInode_other
      rw [inodeBlock]
      omega
    · intro block behind
      apply storeInode_other
      omega
  refine ⟨kept.inodes_congr fun other within => ?_, slots⟩
  rw [inodeAt_storeInode]
  have same : g.inodeAt between other = g.inodeAt disk other := by
    apply inodeAt_congr
    apply frame
    exact inodeBlock_lt (Nat.lt_of_lt_of_le within slots)
  by_cases here : other = id
  · rw [here, update_self, update_self]
  · rw [update_of_ne here, update_of_ne here, same]

/-- What an operation on the node `id` leaves unchanged besides the nodes. -/
theorem frame_storeInode
    (frame :
      ∀ block, block < g.efs.dataBitmap.startBlockId →
        between block = disk block) (covers : g.efs.inodeBitmap.Covers block) :
    g.storeInode between id inode block = disk block := by
  have position := covers_lt covers id
  rw [storeInode_other inode (Nat.ne_of_lt position.1), frame block position.2]

/-- The data bitmap is not in the inode area. -/
theorem dataBitmap_storeInode (inside : id < g.efs.inodeBitmap.maximum)
    (inode : DiskInode) (covers : g.efs.dataBitmap.Covers block) :
    g.storeInode disk id inode block = disk block := by
  have below := inodeBlock_lt inside
  have lower := covers.1
  apply storeInode_other
  omega

/-! ## Writing -/

/-- A modification whose closure keeps the inode area stores its inode. -/
theorem modifyDiskInode_returns (inside : id < g.efs.inodeBitmap.maximum)
    {body : DiskInode → BlockProg (β × DiskInode)} {result : β}
    (ran :
      (body (g.inodeAt disk id)).onDisk [g.inodeBlock id] disk =
        .ok ((result, inode), between))
    (frame :
      ∀ block, block < g.efs.dataBitmap.startBlockId →
        between block = disk block) :
    ((g.efs.inode id).modifyDiskInode body).onDisk [] disk =
      .ok (result, g.storeInode between id inode) := by
  rw [onDisk_modifyDiskInode inside]
  refine ⟨inode, between, ran, ?_⟩
  rw [storeInode, frame _ (inodeBlock_lt inside)]

/-- What is known of the disk after a write to node `id`. -/
structure Wrote (g : Geometry) (disk : Disk) (nodes : List Node) (id : Nat)
    (node : Node) (offset : Nat) (buf : List UInt8) (v : List Nat)
    (after : Disk) : Prop where
  represents : g.Represents after (nodes.set id (node.write offset buf v))
  taken : g.Taken disk v after
  inodeBitmap :
    ∀ block, g.efs.inodeBitmap.Covers block → after block = disk block

theorem WroteNode.store {v : List Nat}
    (wrote :
      g.WroteNode (g.inodeAt disk) disk nodes id node offset buf v inode
        between) (represents : g.Represents disk nodes)
    (inside : id < g.efs.inodeBitmap.maximum) :
    g.Wrote disk nodes id node offset buf v
      (g.storeInode between id inode) where
  represents :=
    wrote.holding.store inside
      (by rw [List.length_set]; exact represents.slots) wrote.frame
  taken :=
    wrote.taken.congr fun _ covers => dataBitmap_storeInode inside inode covers
  inodeBitmap := fun _ covers => frame_storeInode wrote.frame covers

section

variable (represents : g.Represents disk nodes)
  (present : nodes[id]? = some node)

include represents present

/-- `Inode::write_at` returns when there is something to write and room. -/
theorem Represents.writeAt_returns
    (enough : g.Enough disk node ((offset + buf.length) % 2 ^ 32))
    (more : offset < node.writeStop offset buf) :
    ∃ written after,
      (Inode.writeAt g.efs (g.efs.inode id) offset buf).onDisk [] disk =
        .ok (written, after) := by
  have inside := represents.inside present
  obtain ⟨inode, between, v, ran, wrote⟩ :=
    represents.holding.onDisk_growAndWrite present (inodeBlock_lt inside)
      enough more
  have stored := modifyDiskInode_returns inside ran wrote.frame
  refine ⟨node.writeStop offset buf - offset,
    g.storeInode between id inode, ?_⟩
  rw [Inode.writeAt, onDisk_bind_ok stored]
  rfl

/-- An `Inode::write_at` that returned wrote its node. -/
theorem Represents.writeAt_returned {written : Nat}
    (returned :
      (Inode.writeAt g.efs (g.efs.inode id) offset buf).onDisk [] disk =
        .ok (written, after)) :
    g.Enough disk node ((offset + buf.length) % 2 ^ 32) ∧
      offset ≤ node.writeStop offset buf ∧
      written = node.writeStop offset buf - offset ∧
      ∃ v, g.Wrote disk nodes id node offset buf v after := by
  have inside := represents.inside present
  obtain ⟨size, stored, modified, synced⟩ := onDisk_bind_eq_ok.mp returned
  cases synced
  obtain ⟨inode, between, ran, afterEq⟩ :=
    (onDisk_modifyDiskInode inside).mp modified
  obtain ⟨enough, ordered, writtenEq, v, wrote⟩ :=
    represents.holding.growAndWrite_returned present (inodeBlock_lt inside)
      ran
  refine ⟨enough, ordered, writtenEq, v, ?_⟩
  have storedEq : after = g.storeInode between id inode := by
    rw [afterEq, storeInode, wrote.frame _ (inodeBlock_lt inside)]
  rw [storedEq]
  exact wrote.store represents inside

/-! ## Clearing -/

/-- `Inode::clear` returns, and empties its node. -/
theorem Represents.onDisk_clear :
    ∃ after,
      (Inode.clear g.efs (g.efs.inode id)).onDisk [] disk = .ok ((), after) ∧
        g.Represents after (nodes.set id (Node.empty node.kind)) ∧
        (∀ block, g.InArea block →
          g.dataBit after block =
            (g.dataBit disk block && decide (block ∉ node.blocks))) ∧
        ∀ block, g.efs.inodeBitmap.Covers block →
          after block = disk block := by
  have inside := represents.inside present
  obtain ⟨inode, between, ran, holding, given, frame⟩ :=
    represents.holding.onDisk_clearDiskInode present (inodeBlock_lt inside)
  have stored := modifyDiskInode_returns inside ran frame
  refine ⟨g.storeInode between id inode, ?_, ?_, ?_, ?_⟩
  · rw [Inode.clear, onDisk_bind_ok stored]
    rfl
  · exact holding.store inside
      (by rw [List.length_set]; exact represents.slots) frame
  · intro block inArea
    rw [dataBit_congr
      (fun _ covers => dataBitmap_storeInode inside inode covers) inArea,
      given.bits block inArea]
  · exact fun _ covers => frame_storeInode frame covers

/-! ## Reading -/

/-- `Inode::read_at` on a node whose blocks are on the device. -/
theorem Represents.onDisk_readAt
    (onDevice : ∀ block ∈ node.blocks, block < g.totalBlocks)
    (addressable :
      offset + buf.length < 2 ^ 64 ∨ node.content.length ≤ offset) :
    (Inode.readAt (g.efs.inode id) offset buf).onDisk [] disk =
      .ok ((min (offset + buf.length) node.content.length - offset,
        overwrite buf 0
          (portion node.content offset
            (min (offset + buf.length) node.content.length))), disk) := by
  have inside := represents.inside present
  rw [Inode.readAt, onDisk_readDiskInode inside]
  exact represents.holding.onDisk_readAt present (inodeBlock_lt inside)
    onDevice addressable

end

end Geometry

end RCoreOS.EasyFs
