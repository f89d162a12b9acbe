import RCoreOS.EasyFs.Format

/-!
# Consistent file systems

A file system is consistent when its nodes are all inodes that are in use, a
bit of the data bitmap is set only for a block that some node owns, and all
owned blocks are on the device.  The number of used blocks is then the sum of
the numbers of blocks of the nodes.

The operations keep a file system consistent as long as no more blocks are
used than the data area has: allocation is lowest first, so a block behind the
device is handed out only when the data area is full.
-/

namespace RCoreOS.EasyFs

open List

namespace Geometry

variable {g : Geometry} {disk after : Disk} {nodes : List Node}
  {id : Nat} {node : Node} {v : List Nat}

/-- The nodes are the inodes in use, and own exactly the used blocks. -/
structure Consistent (g : Geometry) (disk : Disk) (nodes : List Node) : Prop
    extends g.Represents disk nodes where
  inodeBits : g.InodeBits disk nodes.length
  owner :
    ∀ block, g.InArea block → g.dataBit disk block = true →
      ∃ node ∈ nodes, block ∈ node.blocks
  onDevice : ∀ node ∈ nodes, ∀ block ∈ node.blocks, block < g.totalBlocks

/-! ## Counting blocks -/

/-- All owned blocks are different. -/
theorem Holding.nodup_blocks {inodes : Nat → DiskInode}
    (holding : g.Holding inodes disk nodes) :
    (nodes.flatMap Node.blocks).Nodup := by
  rw [nodup_flatMap]
  constructor
  · intro node member
    obtain ⟨id, present⟩ := getElem?_of_mem member
    exact holding.distinct id node present
  · rw [pairwise_iff_getElem]
    intro left right leftInside rightInside less
    exact holding.apart left right _ _ (Nat.ne_of_lt less)
      (getElem?_eq_getElem leftInside)
      (getElem?_eq_getElem rightInside)

/-- As many blocks are used as the nodes own. -/
theorem Consistent.used_eq (consistent : g.Consistent disk nodes) :
    g.efs.dataBitmap.used disk =
      (nodes.map fun node => node.blocks.length).sum := by
  have holding := consistent.holding
  have inArea (block : Nat) (owned : block ∈ nodes.flatMap Node.blocks) :
      g.InArea block := by
    obtain ⟨node, member, owns⟩ := mem_flatMap.mp owned
    exact holding.inArea node member block owns
  have setBits :
      ((List.range g.efs.dataBitmap.maximum).filter
          (g.efs.dataBitmap.bit disk)).Perm
        ((nodes.flatMap Node.blocks).map fun block =>
          block - g.dataStart) := by
    rw [perm_ext_iff_of_nodup (nodup_range.filter _)]
    · intro n
      rw [mem_filter, mem_range, mem_map]
      constructor
      · rintro ⟨inside, isSet⟩
        have bitEq : g.dataBit disk (g.dataStart + n) = true := by
          rw [dataBit, Nat.add_sub_cancel_left, isSet]
        obtain ⟨node, member, owns⟩ :=
          consistent.owner _ (inArea_add inside) bitEq
        exact ⟨g.dataStart + n,
          mem_flatMap.mpr ⟨node, member, owns⟩,
          Nat.add_sub_cancel_left _ _⟩
      · rintro ⟨block, owned, rfl⟩
        obtain ⟨lower, upper⟩ := inArea block owned
        obtain ⟨node, member, owns⟩ := mem_flatMap.mp owned
        exact ⟨by omega, holding.owned node member block owns⟩
    · refine holding.nodup_blocks.map_on ?_
      intro left leftOwned right rightOwned equal
      have leftLower := (inArea left leftOwned).1
      have rightLower := (inArea right rightOwned).1
      omega
  rw [Bitmap.used, countP_eq_length_filter, setBits.length_eq,
    length_map, length_flatMap]

/-- Blocks that were taken while the data area was not full are in it. -/
theorem Taken.onDevice (taken : g.Taken disk v after)
    (within : g.efs.dataBitmap.used after ≤ g.dataAreaBlocks) :
    ∀ block ∈ v, block < g.totalBlocks := by
  intro block member
  obtain ⟨lower, upper⟩ := taken.inArea block member
  obtain ⟨_, _, _, total, _, _⟩ := g.regions
  have filled : block - g.dataStart + 1 ≤ g.efs.dataBitmap.used after := by
    apply Bitmap.le_used
    · omega
    · intro other below
      by_cases last : other = block - g.dataStart
      · have isSet := taken.bits block (taken.inArea block member)
        rw [decide_eq_true member, Bool.or_true] at isSet
        rw [last]
        exact isSet
      · have isSet :=
          taken.lowest block member (g.dataStart + other)
            (inArea_add (by omega)) (by omega)
        rwa [dataBit, Nat.add_sub_cancel_left] at isSet
  omega

/-! ## Operations -/

variable {new : Node}

theorem mem_set_or {some : Node} (member : some ∈ nodes.set id new) :
    some = new ∨ ∃ other, other ≠ id ∧ nodes[other]? = .some some := by
  obtain ⟨other, at_⟩ := getElem?_of_mem member
  by_cases same : other = id
  · rw [same, getElem?_set] at at_
    split at at_
    · split at at_
      · exact .inl (Option.some.inj at_).symm
      · cases at_
    · exact absurd rfl (by assumption)
  · rw [getElem?_set_ne (Ne.symm same)] at at_
    exact .inr ⟨other, same, at_⟩

/-- Nothing is allocated in a fresh file system. -/
theorem Fresh.consistent (fresh : g.Fresh disk) :
    g.Consistent disk [Node.empty .directory] where
  toRepresents := fresh.represents
  inodeBits := fresh.inodeBits
  owner := by
    intro block inArea isSet
    rw [fresh.free block inArea] at isSet
    cases isSet
  onDevice := by
    intro node member block owns
    rw [mem_singleton] at member
    rw [member] at owns
    cases owns

section

variable (consistent : g.Consistent disk nodes)
  (present : nodes[id]? = some node)

include consistent present

section

variable (blocks : new.blocks = node.blocks ++ v)
  (taken : g.Taken disk v after)

include blocks taken

/-- Taking blocks for one node. -/
theorem Consistent.owner_taken {block : Nat} (inArea : g.InArea block)
    (isSet : g.dataBit after block = true) :
    ∃ owner ∈ nodes.set id new, block ∈ owner.blocks := by
  have inside := (List.getElem?_eq_some_iff.mp present).1
  have newMember : new ∈ nodes.set id new := mem_set inside new
  rw [taken.bits block inArea, Bool.or_eq_true, decide_eq_true_eq] at isSet
  rcases isSet with old | isNew
  · obtain ⟨owner, member, owns⟩ := consistent.owner block inArea old
    obtain ⟨other, at_⟩ := getElem?_of_mem member
    by_cases same : other = id
    · rw [same, present] at at_
      cases at_
      exact ⟨new, newMember, by rw [blocks]; exact mem_append_left v owns⟩
    · refine ⟨owner, mem_of_getElem? (i := other) ?_, owns⟩
      rw [getElem?_set_ne (Ne.symm same), at_]
  · exact ⟨new, newMember, by rw [blocks]; exact mem_append_right _ isNew⟩

theorem Consistent.onDevice_taken
    (within : g.efs.dataBitmap.used after ≤ g.dataAreaBlocks) :
    ∀ owner ∈ nodes.set id new,
      ∀ block ∈ owner.blocks, block < g.totalBlocks := by
  intro owner member block owns
  rcases mem_set_or member with rfl | ⟨other, _, at_⟩
  · rw [blocks] at owns
    rcases mem_append.mp owns with old | isNew
    · exact consistent.onDevice node (mem_of_getElem? present) block old
    · exact taken.onDevice within block isNew
  · exact consistent.onDevice owner (mem_of_getElem? at_) block owns

end

/-- A write keeps the file system consistent. -/
theorem Consistent.wrote {offset : Nat} {buf : List UInt8}
    (wrote : g.Wrote disk nodes id node offset buf v after)
    (within : g.efs.dataBitmap.used after ≤ g.dataAreaBlocks) :
    g.Consistent after (nodes.set id (node.write offset buf v)) where
  toRepresents := wrote.represents
  inodeBits := by
    rw [length_set]
    exact consistent.inodeBits.congr wrote.inodeBitmap
  owner := fun _ inArea isSet =>
    consistent.owner_taken present rfl wrote.taken inArea isSet
  onDevice := consistent.onDevice_taken present rfl wrote.taken within

/-- Clearing a node keeps the file system consistent. -/
theorem Consistent.onDisk_clear :
    ∃ after,
      (Inode.clear g.efs (g.efs.inode id)).onDisk [] disk = .ok ((), after) ∧
        g.Consistent after (nodes.set id (Node.empty node.kind)) := by
  obtain ⟨after, ran, represents, bits, frame⟩ :=
    consistent.toRepresents.onDisk_clear present
  refine ⟨after, ran, represents, ?_, ?_, ?_⟩
  · rw [length_set]
    exact consistent.inodeBits.congr frame
  · intro block inArea isSet
    rw [bits block inArea, Bool.and_eq_true, decide_eq_true_eq] at isSet
    obtain ⟨owner, member, owns⟩ := consistent.owner block inArea isSet.1
    obtain ⟨other, at_⟩ := getElem?_of_mem member
    have different : other ≠ id := by
      rintro rfl
      rw [present] at at_
      cases at_
      exact isSet.2 owns
    refine ⟨owner, mem_of_getElem? (i := other) ?_, owns⟩
    rw [getElem?_set_ne (Ne.symm different), at_]
  · intro owner member block owns
    rcases mem_set_or member with rfl | ⟨other, _, at_⟩
    · cases owns
    · exact consistent.onDevice owner (mem_of_getElem? at_) block owns

/-- A new empty file owns nothing. -/
theorem Consistent.created (small : nodes.length < 2 ^ 32) {entry : DirEntry}
    (created : g.Created disk nodes nodes.length id node entry v after)
    (within : g.efs.dataBitmap.used after ≤ g.dataAreaBlocks) :
    g.Consistent after
      (nodes.set id
          (node.write (node.content.length / 32 * 32) entry.asBytes v) ++
        [Node.empty .file]) := by
  have inside := (List.getElem?_eq_some_iff.mp present).1
  have represents := created.represents
  generalize newEq :
    node.write (node.content.length / 32 * 32) entry.asBytes v = new
      at represents ⊢
  have blocks : new.blocks = node.blocks ++ v := by
    rw [← newEq]
    rfl
  rw [Nat.mod_eq_of_lt small, place_length,
    set_append_left _ _ inside] at represents
  refine ⟨represents, ?_, ?_, ?_⟩
  · rw [length_append, length_set]
    exact created.inodeBits
  · intro block inArea isSet
    obtain ⟨owner, member, owns⟩ :=
      consistent.owner_taken present blocks created.taken inArea isSet
    exact ⟨owner, mem_append_left _ member, owns⟩
  · intro owner member block owns
    rcases mem_append.mp member with old | last
    · exact consistent.onDevice_taken present blocks created.taken within
        owner old block owns
    · rw [mem_singleton] at last
      rw [last] at owns
      cases owns

end

end Geometry

end RCoreOS.EasyFs
