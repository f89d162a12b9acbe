import RCoreOS.EasyFs.ClearSize
import RCoreOS.EasyFs.FileData
import RCoreOS.EasyFs.Vfs

/-!
# Which file owns which block

`Holding` relates a disk to a list of nodes, one for each inode id: the node's
content lies in the data blocks of its inode, the blocks of all nodes lie in
the data area, are different from each other and have their bit set, and a
block whose bit is clear holds zeros.

The inodes are a parameter, since an operation on a file holds its inode in
memory while it works on the disk.  `Represents` is the case where they are
the inodes on the disk; it is what holds between operations.  Each step of an
operation is a change to one node, and `Holding.replaceNode` says what has to be
checked for it.
-/

namespace RCoreOS.EasyFs

open Lib.Bytes List Lib.Segments Slot DiskInode

/-! ## One node -/

/-- A file or directory: its bytes and the blocks that it owns. -/
structure Node where
  kind : DiskInodeType
  content : List UInt8
  blocks : List Nat

/-- A file or directory without bytes. -/
def Node.empty (kind : DiskInodeType) : Node := ⟨kind, [], []⟩

/-- The node after growing to `size` bytes with the new blocks `v`. -/
def Node.grow (node : Node) (size : Nat) (v : List Nat) : Node :=
  { node with
    content := node.content.rightpad size 0
    blocks := node.blocks ++ v }

/-- The end of a write: the new size is a `u32`, the end a `usize`. -/
def Node.writeStop (node : Node) (offset : Nat) (buf : List UInt8) : Nat :=
  min ((offset + buf.length) % 2 ^ 64)
    (max ((offset + buf.length) % 2 ^ 32) node.content.length)

/-- The node after a write that took the new blocks `v`. -/
def Node.write (node : Node) (offset : Nat) (buf : List UInt8)
    (v : List Nat) : Node :=
  { node with
    content :=
      overwrite (node.content.rightpad ((offset + buf.length) % 2 ^ 32) 0)
        offset (buf.take (node.writeStop offset buf - offset))
    blocks := node.blocks ++ v }

variable {size : Nat}

/-- Growing to a size that the file already has is no change. -/
theorem Node.grow_nil {node : Node} (enough : size ≤ node.content.length) :
    node.grow size [] = node := by
  cases node with
  | mk kind content blocks =>
    have none : size - content.length = 0 := Nat.sub_eq_zero_of_le enough
    simp only [Node.grow, List.rightpad, none, replicate_zero, append_nil]

/-- The number of data blocks of a file of `size` bytes. -/
def dataCount (size : Nat) : Nat := (size + 511) / 512

theorem dataBlocksOf_eq (small : size ≤ 512 * 16540) :
    dataBlocksOf size = dataCount size := by
  rw [dataBlocksOf, Nat.mod_eq_of_lt (by omega), dataCount]

theorem totalBlocks_eq (small : size ≤ 512 * 16540) :
    DiskInode.totalBlocks size = blockCount (dataCount size) := by
  simp only [DiskInode.totalBlocks, blockCount, dataBlocksOf_eq small]

variable {newSize : Nat}

theorem blockCount_dataCount_mono (grows : size ≤ newSize) :
    blockCount (dataCount size) ≤ blockCount (dataCount newSize) := by
  apply blockCount_mono
  rw [dataCount, dataCount]
  omega

theorem blockCount_dataCount_lt (small : size ≤ 512 * 16540) :
    blockCount (dataCount size) < 2 ^ 31 := by
  rw [blockCount, dataCount]
  split <;> split <;> omega

/-- The blocks that a larger file needs. -/
theorem blocksNumNeeded_returns {inode : DiskInode}
    (grows : inode.size.toNat ≤ newSize) (limit : newSize ≤ 512 * 16540) :
    inode.blocksNumNeeded newSize =
      .ok (blockCount (dataCount newSize) -
        blockCount (dataCount inode.size.toNat)) := by
  have more := blockCount_dataCount_mono grows
  have most := blockCount_dataCount_lt limit
  rw [blocksNumNeeded, if_pos grows, totalBlocks_eq limit,
    totalBlocks_eq (Nat.le_trans grows limit)]
  congr 1
  omega

/-- `inode`, with its blocks on `disk`, is `node`. -/
structure Node.Represents
    (node : Node) (inode : DiskInode) (limit : Nat) (disk : Disk) : Prop where
  size : inode.size.toNat = node.content.length
  kind : inode.type_ = node.kind
  small : node.content.length ≤ 512 * 16540
  blocks : inode.blocks disk = node.blocks
  holds :
    Holds disk (inode.treeOf disk) inode.dataBlocks limit node.content

namespace Node.Represents

variable {node : Node} {inode : DiskInode} {limit : Nat} {disk after : Disk}

section

variable (rep : node.Represents inode limit disk)

include rep

theorem dataBlocks_eq :
    inode.dataBlocks = dataCount node.content.length := by
  rw [dataBlocks, rep.size, dataBlocksOf_eq rep.small]

theorem largest :
    inode.dataBlocks ≤ 16540 := by
  have small := rep.small
  rw [rep.dataBlocks_eq, dataCount]
  omega

theorem content_le :
    node.content.length ≤ 512 * inode.dataBlocks := by
  rw [rep.dataBlocks_eq, dataCount]
  omega

theorem length_blocks :
    node.blocks.length = blockCount (dataCount node.content.length) := by
  rw [← rep.blocks, DiskInode.blocks, length_map, length_slots,
    rep.dataBlocks_eq]

/-- The block of each slot in use is owned. -/
theorem slot_mem {slot : Slot} (used : slot ∈ slots inode.dataBlocks) :
    inode.treeOf disk slot ∈ node.blocks := by
  rw [← rep.blocks]
  exact mem_map_of_mem used

/-- A node depends on the disk through its own blocks only. -/
theorem congr (agree : ∀ block ∈ node.blocks, after block = disk block) :
    node.Represents inode limit after := by
  have kept (slot : Slot) (used : slot ∈ slots inode.dataBlocks) :
      after (inode.treeOf disk slot) = disk (inode.treeOf disk slot) :=
    agree _ (rep.slot_mem used)
  have trees :
      ∀ slot ∈ slots inode.dataBlocks,
        inode.treeOf after slot = inode.treeOf disk slot :=
    treeOf_congr (fun _ _ => rfl) (fun _ => rfl)
      (fun more => kept .indirect1 (indirect1_mem_slots.mpr more))
      (fun _ => rfl)
      (fun more => kept .indirect2 (indirect2_mem_slots.mpr more))
      (fun sub more => kept (.sub sub) (sub_mem_slots.mpr more))
  refine ⟨rep.size, rep.kind, rep.small, ?_, ?_⟩
  · rw [← rep.blocks]
    exact map_congr_left trees
  · exact rep.holds.congr
      (fun index inside => trees _ (data_mem_slots.mpr inside))
      (fun index inside => kept _ (data_mem_slots.mpr inside))

/-- The index tree of a node with different blocks is injective. -/
theorem slot_inj (distinct : node.blocks.Nodup) {left right : Slot}
    (leftUsed : left ∈ slots inode.dataBlocks)
    (rightUsed : right ∈ slots inode.dataBlocks)
    (equal : inode.treeOf disk left = inode.treeOf disk right) :
    left = right := by
  rw [← rep.blocks] at distinct
  exact inj_on_of_nodup_map distinct leftUsed rightUsed equal

/-- A node whose inode has grown by zero blocks. -/
theorem grown {newSize : Nat} {v : List Nat} {grownInode : DiskInode}
    (facts : inode.Grown disk newSize (node.blocks ++ v) grownInode after)
    (distinct : (node.blocks ++ v).Nodup)
    (zero : ∀ block ∈ v, block < limit → disk block = zeros)
    (grows : node.content.length ≤ newSize)
    (largestSize : newSize ≤ 512 * 16540) :
    (node.grow newSize v).Represents grownInode limit after := by
  have size : grownInode.size.toNat = newSize := by
    rw [facts.size, BitVec.toNat_ofNat, Nat.mod_eq_of_lt (by omega)]
  have count : grownInode.dataBlocks = dataCount newSize := by
    rw [dataBlocks, size, dataBlocksOf_eq largestSize]
  have more : inode.dataBlocks ≤ grownInode.dataBlocks := by
    rw [count, rep.dataBlocks_eq, dataCount, dataCount]
    omega
  have blocks := facts.blocks
  have inj {left right : Slot} (leftUsed : left ∈ slots grownInode.dataBlocks)
      (rightUsed : right ∈ slots grownInode.dataBlocks)
      (equal : grownInode.treeOf after left = grownInode.treeOf after right) :
      left = right := by
    rw [← blocks] at distinct
    exact inj_on_of_nodup_map distinct leftUsed rightUsed equal
  have trees :
      ∀ slot ∈ slots inode.dataBlocks,
        grownInode.treeOf after slot = inode.treeOf disk slot := by
    rw [← rep.blocks] at blocks
    exact map_eq_of_initial (slots_initial more) blocks
  have dataKept (index : Nat) (inside : index < grownInode.dataBlocks) :
      after (grownInode.treeOf after (.data index)) =
        disk (grownInode.treeOf after (.data index)) := by
    apply facts.frame
    intro slot used isIndex equal
    have slotEq := inj used (data_mem_slots.mpr inside) equal
    rw [slotEq] at isIndex
    cases isIndex
  have oldHolds :
      Holds after (grownInode.treeOf after) inode.dataBlocks limit
        node.content := by
    apply rep.holds.congr
    · exact fun index inside => trees _ (data_mem_slots.mpr inside)
    · intro index inside
      have kept := dataKept index (by omega)
      rw [trees _ (data_mem_slots.mpr inside)] at kept
      exact kept
  refine
    { size := ?_
      kind := facts.type_.trans rep.kind
      small := ?_
      blocks := blocks
      holds := ?_ }
  · rw [size]
    simp only [Node.grow, List.rightpad, length_append, length_replicate]
    omega
  · simp only [Node.grow, List.rightpad, length_append, length_replicate]
    omega
  · refine (oldHolds.extend rep.content_le ?_).pad newSize
    intro index behind inside onDevice
    rw [dataKept index inside]
    apply zero _ ?_ onDevice
    have used : Slot.data index ∈ slots grownInode.dataBlocks :=
      data_mem_slots.mpr inside
    have member :
        grownInode.treeOf after (.data index) ∈ node.blocks ++ v := by
      rw [← blocks]
      exact mem_map_of_mem used
    rcases mem_append.mp member with old | new
    · -- an old block belongs to an old slot, and slots are injective
      rw [← rep.blocks] at old
      obtain ⟨slot, oldUsed, equal⟩ := mem_map.mp old
      rw [← trees slot oldUsed] at equal
      have slotEq := inj ((slots_initial more).subset oldUsed) used equal
      rw [slotEq] at oldUsed
      have contradiction := data_mem_slots.mp oldUsed
      omega
    · exact new

/-- A node whose bytes were overwritten in place. -/
theorem written (distinct : node.blocks.Nodup) {content : List UInt8}
    (sameLength : content.length = node.content.length)
    (facts :
      DiskInode.Written disk (inode.treeOf disk) inode.dataBlocks limit
        content after) :
    Represents { node with content := content } inode limit after := by
  have kept (slot : Slot) (used : slot ∈ slots inode.dataBlocks)
      (isIndex : slot.isIndex) :
      after (inode.treeOf disk slot) = disk (inode.treeOf disk slot) := by
    apply facts.frame
    intro index inside equal
    have slotEq := rep.slot_inj distinct (data_mem_slots.mpr inside) used equal
    rw [← slotEq] at isIndex
    cases isIndex
  have trees :
      ∀ slot ∈ slots inode.dataBlocks,
        inode.treeOf after slot = inode.treeOf disk slot :=
    treeOf_congr (fun _ _ => rfl) (fun _ => rfl)
      (fun more => kept .indirect1 (indirect1_mem_slots.mpr more) rfl)
      (fun _ => rfl)
      (fun more => kept .indirect2 (indirect2_mem_slots.mpr more) rfl)
      (fun sub more => kept (.sub sub) (sub_mem_slots.mpr more) rfl)
  refine ⟨?_, rep.kind, ?_, ?_, ?_⟩
  · rw [rep.size, sameLength]
  · rw [sameLength]
    exact rep.small
  · show inode.blocks after = node.blocks
    rw [← rep.blocks]
    exact map_congr_left trees
  · exact facts.holds.congr
      (fun index inside => trees _ (data_mem_slots.mpr inside))
      (fun _ _ => rfl)

end

end Node.Represents

/-! ## All nodes -/

namespace Geometry

variable {g : Geometry}

/-- The bit of a block of the data area. -/
abbrev dataBit (g : Geometry) (disk : Disk) (block : Nat) : Bool :=
  g.efs.dataBitmap.bit disk (block - g.dataStart)

/-- A block that `alloc_data` can hand out. -/
def InArea (g : Geometry) (block : Nat) : Prop :=
  g.dataStart ≤ block ∧ block < g.dataStart + g.efs.dataBitmap.maximum

/-- The nodes that the given inodes are, on the given disk. -/
structure Holding (g : Geometry) (inodes : Nat → DiskInode) (disk : Disk)
    (nodes : List Node) : Prop where
  superBlock : BlockView.load (disk 0) 0 = g.superBlock
  represented :
    ∀ (id : Nat) (node : Node), nodes[id]? = some node →
      node.Represents (inodes id) g.totalBlocks disk
  distinct : ∀ (id : Nat) (node : Node), nodes[id]? = some node → node.blocks.Nodup
  apart :
    ∀ (left right : Nat) (leftNode rightNode : Node), left ≠ right →
      nodes[left]? = some leftNode → nodes[right]? = some rightNode →
      ∀ block ∈ leftNode.blocks, block ∉ rightNode.blocks
  inArea : ∀ node ∈ nodes, ∀ block ∈ node.blocks, g.InArea block
  owned : ∀ node ∈ nodes, ∀ block ∈ node.blocks, g.dataBit disk block = true
  freeZero :
    ∀ block, g.InArea block → block < g.totalBlocks →
      g.dataBit disk block = false → disk block = zeros

namespace Holding

variable {inodes others : Nat → DiskInode} {disk after : Disk}
  {nodes : List Node}

/-- Only the inodes of existing nodes matter. -/
theorem inodes_congr (holding : g.Holding inodes disk nodes)
    (agree : ∀ id, id < nodes.length → others id = inodes id) :
    g.Holding others disk nodes := by
  refine { holding with represented := ?_ }
  intro id node present
  rw [agree id (List.getElem?_eq_some_iff.mp present).1]
  exact holding.represented id node present

/-- The inode bitmap and the inode area do not matter. -/
theorem congr (holding : g.Holding inodes disk nodes)
    (superSame : after 0 = disk 0)
    (agree :
      ∀ block, g.efs.dataBitmap.startBlockId ≤ block →
        after block = disk block) :
    g.Holding inodes after nodes := by
  obtain ⟨_, _, start, _, _, _⟩ := g.regions
  have bits (block : Nat) (inArea : g.InArea block) :
      g.dataBit after block = g.dataBit disk block := by
    refine Bitmap.bit_congr (fun covered covers => agree _ covers.1) ?_
    have upper := inArea.2
    have lower := inArea.1
    omega
  refine
    { superBlock := by rw [superSame, holding.superBlock]
      represented := ?_
      distinct := holding.distinct
      apart := holding.apart
      inArea := holding.inArea
      owned := ?_
      freeZero := ?_ }
  · intro id node present
    apply (holding.represented id node present).congr
    intro block member
    have inArea := holding.inArea node (mem_of_getElem? present) block member
    exact agree block (Nat.le_trans (by omega) inArea.1)
  · intro node member block owned
    rw [bits block (holding.inArea node member block owned)]
    exact holding.owned node member block owned
  · intro block inArea onDevice clear
    rw [bits block inArea] at clear
    rw [agree block (Nat.le_trans (by omega) inArea.1)]
    exact holding.freeZero block inArea onDevice clear

variable {node' : Node}

theorem getElem?_set_present
    {id : Nat} {node : Node} (present : nodes[id]? = some node) :
    (nodes.set id node')[id]? = some node' :=
  getElem?_set_self (List.getElem?_eq_some_iff.mp present).1

/-- Replacing one node, or adding one. -/
theorem replaceNode (holding : g.Holding inodes disk nodes)
    {nodes' : List Node} {id : Nat} {inode' : DiskInode}
    (here : nodes'[id]? = some node')
    (there : ∀ other, other ≠ id → nodes'[other]? = nodes[other]?)
    (superSame : after 0 = disk 0)
    (rep : node'.Represents inode' g.totalBlocks after)
    (distinct : node'.blocks.Nodup)
    (fresh :
      ∀ block ∈ node'.blocks,
        ∀ (other : Nat) (otherNode : Node), other ≠ id →
          nodes[other]? = some otherNode →
          block ∉ otherNode.blocks)
    (inArea : ∀ block ∈ node'.blocks, g.InArea block)
    (owned : ∀ block ∈ node'.blocks, g.dataBit after block = true)
    (frame :
      ∀ (other : Nat) (otherNode : Node), other ≠ id →
        nodes[other]? = some otherNode →
        ∀ block ∈ otherNode.blocks,
          after block = disk block ∧ g.dataBit after block = true)
    (freeZero :
      ∀ block, g.InArea block → block < g.totalBlocks →
        g.dataBit after block = false → after block = zeros) :
    g.Holding (Function.update inodes id inode') after nodes' := by
  have member (some : Node) (belongs : some ∈ nodes') :
      some = node' ∨
        ∃ other, other ≠ id ∧ nodes[other]? = .some some := by
    obtain ⟨other, at_⟩ := getElem?_of_mem belongs
    by_cases same : other = id
    · rw [same, here] at at_
      exact .inl (Option.some.inj at_).symm
    · rw [there other same] at at_
      exact .inr ⟨other, same, at_⟩
  refine
    { superBlock := by rw [superSame, holding.superBlock]
      represented := ?_
      distinct := ?_
      apart := ?_
      inArea := ?_
      owned := ?_
      freeZero := freeZero }
  · intro other otherNode at_
    by_cases same : other = id
    · rw [same, here] at at_
      cases at_
      rw [same, Function.update_self]
      exact rep
    · rw [there other same] at at_
      rw [Function.update_of_ne same]
      exact (holding.represented other otherNode at_).congr
        fun block owns => (frame other otherNode same at_ block owns).1
  · intro other otherNode at_
    by_cases same : other = id
    · rw [same, here] at at_
      cases at_
      exact distinct
    · rw [there other same] at at_
      exact holding.distinct other otherNode at_
  · intro left right leftNode rightNode different leftAt rightAt block owns
    by_cases leftSame : left = id
    · have rightOther : right ≠ id := by
        rintro rfl
        exact different leftSame
      rw [leftSame, here] at leftAt
      rw [there right rightOther] at rightAt
      cases leftAt
      exact fresh block owns right rightNode rightOther rightAt
    · rw [there left leftSame] at leftAt
      by_cases rightSame : right = id
      · rw [rightSame, here] at rightAt
        cases rightAt
        intro alsoOwns
        exact fresh block alsoOwns left leftNode leftSame leftAt owns
      · rw [there right rightSame] at rightAt
        exact holding.apart left right leftNode rightNode different leftAt
          rightAt block owns
  · intro some belongs block owns
    rcases member some belongs with rfl | ⟨other, _, at_⟩
    · exact inArea block owns
    · exact holding.inArea some (mem_of_getElem? at_) block owns
  · intro some belongs block owns
    rcases member some belongs with rfl | ⟨other, different, at_⟩
    · exact owned block owns
    · exact (frame other some different at_ block owns).2

end Holding

end Geometry

end RCoreOS.EasyFs
