import RCoreOS.EasyFs.BlockLookups

/-!
# Writes at the largest file

A file has at most 28 + 128 + 128 * 128 data blocks.  A write up to there
returns, if there are blocks for it; a write behind it takes its blocks from
the bitmap and then panics in the second level of the index tree.
-/

namespace RCoreOS.EasyFs

open Lib.Bytes BlockProg List Lib.Segments Slot DiskInode

/-- A write of no bytes only takes the cache of the block it looks up. -/
theorem DiskInode.onDisk_writeLoop_nothing
    {self : DiskInode} {held : List Nat} {disk : Disk} {stop writeSize : Nat}
    {buf : List UInt8} {blockId : BitVec 32}
    (looked :
      (self.getBlockId (stop / 512 % 2 ^ 32)).onDisk held disk =
        .ok (blockId, disk))
    (can : BlockProg.CanLock held blockId.toNat)
    (room : writeSize ≤ buf.length) :
    (self.writeLoop stop stop (stop / 512) writeSize buf).onDisk held disk =
      .ok (writeSize, disk) := by
  have here : min ((stop / 512 + 1) * 512) stop = stop := by omega
  have empty : portion buf writeSize writeSize = [] := by
    rw [portion, Nat.sub_self, take_zero]
  have stored :
      (BlockProg.modifyAt blockId.toNat 0 fun dataBlock : DataBlock =>
          return ((), dataBlock)).onDisk held disk =
        .ok ((), disk) := by
    have fits : 0 + BlockView.size DataBlock ≤ 512 := by decide
    rw [onDisk_modifyAt can fits rfl]
    have unchanged :
        BlockView.store (disk blockId.toNat) 0
            (BlockView.load (disk blockId.toNat) 0 : DataBlock) =
          disk blockId.toNat :=
      rfl
    rw [unchanged, Function.update_eq_self]
  rw [writeLoop]
  simp only [here, Nat.sub_self, Nat.add_zero, room, if_true, dite_true,
    empty, splice_nil]
  rw [onDisk_bind_ok looked, onDisk_bind_ok stored]
  rfl

namespace Geometry

variable {g : Geometry} {disk after : Disk} {nodes : List Node} {id : Nat}
  {node : Node} {offset : Nat} {buf : List UInt8}

/-! ## Free blocks -/

/-- The number of zero bits of the data area. -/
def freeBlocks (g : Geometry) (disk : Disk) : Nat :=
  (List.range g.dataAreaBlocks).countP fun n => !g.efs.dataBitmap.bit disk n

/-- Every block of the data area is used or free. -/
theorem Consistent.used_add_free (consistent : g.Consistent disk nodes) :
    g.efs.dataBitmap.used disk + g.freeBlocks disk = g.dataAreaBlocks := by
  obtain ⟨_, _, _, total, most, _⟩ := g.regions
  obtain ⟨more, maximumEq⟩ :
      ∃ more, g.efs.dataBitmap.maximum = g.dataAreaBlocks + more := by
    rw [dataBitmap_maximum]
    exact ⟨4096 * g.dataBitmapBlocks - g.dataAreaBlocks, by omega⟩
  have behind :
      ((List.range more).map (g.dataAreaBlocks + ·)).countP
        (g.efs.dataBitmap.bit disk) = 0 := by
    rw [countP_eq_zero]
    intro n member isSet
    obtain ⟨extra, isExtra, rfl⟩ := mem_map.mp member
    have inside : g.dataAreaBlocks + extra < g.efs.dataBitmap.maximum := by
      rw [maximumEq]
      exact Nat.add_lt_add_left (mem_range.mp isExtra) _
    obtain ⟨owner, isNode, owns⟩ :=
      consistent.owner _ (inArea_add inside)
        (by rw [dataBit, Nat.add_sub_cancel_left]; exact isSet)
    have onDevice := consistent.onDevice owner isNode _ owns
    omega
  have inArea :
      g.efs.dataBitmap.used disk =
        (List.range g.dataAreaBlocks).countP (g.efs.dataBitmap.bit disk) := by
    rw [Bitmap.used, maximumEq, range_add, countP_append, behind, Nat.add_zero]
  have all :=
    length_eq_countP_add_countP (l := List.range g.dataAreaBlocks)
      (g.efs.dataBitmap.bit disk)
  have zeroBits :
      (fun n => decide ¬ g.efs.dataBitmap.bit disk n = true) =
        fun n => !g.efs.dataBitmap.bit disk n := by
    funext n
    cases g.efs.dataBitmap.bit disk n <;> rfl
  rw [length_range, zeroBits] at all
  rw [inArea, freeBlocks]
  exact all.symm

/-! ## An empty write -/

/-- An empty write inside the blocks of the file returns. -/
theorem Represents.writeAt_nothing_returns
    (represents : g.Represents disk nodes) (present : nodes[id]? = some node)
    (enough : g.Enough disk node offset)
    (inBlocks :
      offset < 512 * dataCount (max node.content.length offset)) :
    ∃ written after,
      (Inode.writeAt g.efs (g.efs.inode id) offset []).onDisk [] disk =
        .ok (written, after) := by
  have inside := represents.inside present
  have below := inodeBlock_lt inside
  have small : offset < 2 ^ 32 := by
    have limit := enough.1
    omega
  have nodeInside := (List.getElem?_eq_some_iff.mp present).1
  obtain ⟨grown, between, v, grew, holding, _, frame⟩ :=
    represents.holding.onDisk_increaseSize present below enough.1 enough.2
  have presentNow :
      (nodes.set id (node.grow offset v))[id]? = some (node.grow offset v) :=
    getElem?_set_self nodeInside
  have rep := holding.represented id _ presentNow
  have inArea := holding.inArea _ (mem_of_getElem? presentNow)
  rw [Function.update_self] at rep
  have grownLength :
      (node.grow offset v).content.length =
        max node.content.length offset := by
    simp only [Node.grow, List.rightpad, length_append, length_replicate]
    omega
  have found : offset / 512 < grown.dataBlocks := by
    rw [rep.dataBlocks_eq, grownLength]
    omega
  have lockable (slot : Slot) (used : slot ∈ Slot.slots grown.dataBlocks) :
      BlockProg.CanLock [g.inodeBlock id] (grown.treeOf between slot) :=
    canLock below (inArea _ (rep.slot_mem used)).behind
  obtain ⟨blockId, looked, blockEq⟩ :=
    onDisk_getBlockId_tree (fun _ _ => rfl) lockable found
      rep.largest
  have wrote :
      (grown.writeAt offset []).onDisk [g.inodeBlock id] between =
        .ok (0, between) := by
    have stopEq : min ((offset + 0) % 2 ^ 64) grown.size.toNat = offset := by
      rw [rep.size, grownLength]
      omega
    rw [DiskInode.writeAt]
    simp only [length_nil, stopEq]
    rw [decide_eq_true (Nat.le_refl offset)]
    show (grown.writeLoop offset offset (offset / 512) 0 []).onDisk _ _ = _
    apply onDisk_writeLoop_nothing
    · exact looked
    · rw [blockEq]
      exact lockable _ (data_mem_slots.mpr found)
    · exact Nat.le_refl 0
  have ranClosure :
      (Inode.growAndWrite g.efs offset [] (g.inodeAt disk id)).onDisk
          [g.inodeBlock id] disk =
        .ok ((0, grown), between) := by
    rw [Inode.growAndWrite, length_nil, Nat.add_zero, Nat.mod_eq_of_lt small,
      onDisk_bind_ok grew, onDisk_bind_ok wrote]
    rfl
  refine ⟨0, g.storeInode between id grown, ?_⟩
  rw [Inode.writeAt,
    onDisk_bind_ok
      (modifyDiskInode_returns inside ranClosure frame)]
  rfl

/-! ## Writes up to the largest file -/

section

variable (consistent : g.Consistent disk nodes)
  (present : nodes[id]? = some node)

include consistent present

/-- The free blocks are enough for the size. -/
theorem Consistent.enough_of_free
    {newSize : Nat} (limit : newSize ≤ 512 * 16540)
    (free :
      ∀ needed,
        (g.inodeAt disk id).blocksNumNeeded newSize = .ok needed →
          needed ≤ g.freeBlocks disk) :
    g.efs.dataBitmap.used disk +
        (blockCount (dataCount newSize) -
          blockCount (dataCount node.content.length)) ≤
      g.dataAreaBlocks := by
  have rep := consistent.holding.represented id node present
  have all := consistent.used_add_free
  rcases Nat.lt_or_ge newSize node.content.length with shorter | grows
  · have mono := blockCount_dataCount_mono (Nat.le_of_lt shorter)
    omega
  · rw [← rep.size] at grows ⊢
    cases needed : (g.inodeAt disk id).blocksNumNeeded newSize with
    | error fault =>
      rw [blocksNumNeeded, if_pos grows] at needed
      cases needed
    | ok count =>
      have total := blocksNumNeeded_eq grows limit needed
      have isFree := free count needed
      omega

/-- A write up to the largest file, with the blocks it needs. -/
theorem Consistent.writeAt_within (limit : offset + buf.length ≤ 512 * 16540)
    (room :
      g.efs.dataBitmap.used disk +
          (blockCount (dataCount (offset + buf.length)) -
            blockCount (dataCount node.content.length)) ≤
        g.dataAreaBlocks)
    (notAtEnd :
      ¬ (buf = [] ∧ node.content.length ≤ offset ∧ 512 ∣ offset)) :
    ∃ after written,
      (Inode.writeAt g.efs (g.efs.inode id) offset buf).onDisk [] disk =
          .ok (buf.length, after) ∧
        g.Consistent after (nodes.set id written) ∧
        written.shape =
          (node.kind,
            overwrite (node.content.rightpad (offset + buf.length) 0) offset
              buf) := by
  have represents := consistent.toRepresents
  have inside := (List.getElem?_eq_some_iff.mp present).1
  have rep := consistent.holding.represented id node present
  obtain ⟨_, _, _, total, most, _⟩ := g.regions
  have enough : g.Enough disk node ((offset + buf.length) % 2 ^ 32) := by
    rw [Nat.mod_eq_of_lt (by omega)]
    refine ⟨limit, ?_⟩
    rw [dataBitmap_maximum]
    omega
  have returns :
      ∃ written after,
        (Inode.writeAt g.efs (g.efs.inode id) offset buf).onDisk [] disk =
          .ok (written, after) := by
    cases buf with
    | nil =>
      rw [length_nil, Nat.add_zero] at enough limit
      rw [Nat.mod_eq_of_lt (by omega)] at enough
      apply represents.writeAt_nothing_returns present enough
      have inBlocks : ¬ (node.content.length ≤ offset ∧ 512 ∣ offset) :=
        fun atEnd => notAtEnd ⟨rfl, atEnd⟩
      rw [dataCount]
      omega
    | cons first rest =>
      apply represents.writeAt_returns present enough
      obtain ⟨stop, _⟩ :=
        @Node.shape_write node offset (first :: rest) [] limit
      rw [stop, length_cons]
      omega
  obtain ⟨written, after, returned⟩ := returns
  obtain ⟨_, _, writtenEq, v, wrote⟩ :=
    represents.writeAt_returned present returned
  obtain ⟨stop, shape⟩ := @Node.shape_write node offset buf v limit
  obtain ⟨_, contentEq⟩ := Prod.mk.inj shape
  have presentNow :
      (nodes.set id (node.write offset buf v))[id]? =
        some (node.write offset buf v) :=
    getElem?_set_self inside
  have within : g.efs.dataBitmap.used after ≤ g.dataAreaBlocks := by
    have repNow := wrote.represents.holding.represented id _ presentNow
    have lengthNow := repNow.length_blocks
    have length := rep.length_blocks
    have blocksEq : (node.write offset buf v).blocks = node.blocks ++ v := rfl
    have sizeNow :
        (node.write offset buf v).content.length =
          max node.content.length (offset + buf.length) := by
      have padded := length_rightpad node.content (offset + buf.length) 0
      rw [contentEq, length_overwrite (by omega), padded, Nat.max_comm]
    rw [blocksEq, length_append, sizeNow] at lengthNow
    rw [wrote.taken.used]
    rcases Nat.le_total node.content.length (offset + buf.length) with
      grows | shorter
    · rw [Nat.max_eq_right grows] at lengthNow
      omega
    · rw [Nat.max_eq_left shorter] at lengthNow
      omega
  have writtenAll : written = buf.length := by
    rw [writtenEq, stop, Nat.add_sub_cancel_left]
  rw [writtenAll] at returned
  exact ⟨after, _, returned, consistent.wrote present wrote within, shape⟩

end

section Reached

variable (g) (device : BlockDevice) (ops : List Op)
  (outcome : EasyFileSystem × List (Option Event) × List Inode)
  (state : CacheState)
  (reached :
    (newSession g.totalBlocks g.inodeBitmapBlocks ops).run
        (CacheState.start device) =
      .ok (outcome, state))
  (within : g.WithinLimits device ops)
  (toFiles :
    ∀ event offset buf, some event ∈ outcome.2.1 →
      event.call = .writeAt offset buf → event.inode ≠ g.efs.rootInode)

include reached within toFiles

end Reached

/-- A file of one byte has room for a block of bytes. -/
theorem oneByte_needs_nothing {newSize needed : Nat}
    (shows_ : small.Shows disk nodes (small.reference oneByte).1)
    (grows : 1 ≤ newSize) (inBlock : newSize ≤ 512)
    (isNeeded : (small.inodeAt disk 1).blocksNumNeeded newSize = .ok needed) :
    needed ≤ small.freeBlocks disk := by
  obtain ⟨node, present, _, content⟩ :=
    @Shows.file _ _ _ _ 1 shows_ (by decide) (by decide +kernel)
  have size : (small.inodeAt disk 1).size.toNat = 1 := by
    have rep := shows_.consistent.holding.represented 1 node present
    rw [rep.size, content]
    decide +kernel
  have total :=
    blocksNumNeeded_eq (by rw [size]; exact grows) (by omega)
      isNeeded
  have oneBlock : dataCount newSize = dataCount 1 := by
    rw [dataCount, dataCount]
    omega
  rw [size, oneBlock] at total
  omega

/-- A device with 18969 blocks in the data area. -/
def large : Geometry := ⟨20000, 1, Nat.one_pos, by decide, by decide⟩

end Geometry

end RCoreOS.EasyFs
