import RCoreOS.EasyFs.IndexTree

/-!
# The bytes of a file

`Holds` says that the data blocks of an index tree hold a list of bytes, with
zero bytes after its end.  The two copy loops are specified with it:
`read_at` copies a segment of the list into its buffer, and `write_at`
overwrites a segment of the list.

Blocks whose id is `limit` or more lie outside the device; nothing is said
about their contents.
-/

namespace RCoreOS.EasyFs

open Lib.Bytes BlockProg Lib.Segments Slot

/-- The first `count` data blocks of `tree` hold `content`, padded with zeros. -/
def Holds (disk : Disk) (tree : Slot → Nat) (count limit : Nat)
    (content : List UInt8) : Prop :=
  ∀ index, index < count → tree (.data index) < limit →
    ∀ byte, byte < 512 →
      byteAt (disk (tree (.data index))) byte =
        content.getD (512 * index + byte) 0

namespace Holds

variable {disk after : Disk} {tree other : Slot → Nat} {count limit : Nat}
  {content : List UInt8}

section

variable (holds : Holds disk tree count limit content)

include holds

/-- Contents are kept when the data blocks and their bytes are. -/
theorem congr
    (sameTree : ∀ index, index < count → other (.data index) = tree (.data index))
    (agree :
      ∀ index, index < count →
        after (tree (.data index)) = disk (tree (.data index))) :
    Holds after other count limit content := by
  intro index inside below byte inBlock
  rw [sameTree index inside] at below ⊢
  rw [agree index inside]
  exact holds index inside below byte inBlock

/-- Padding with zeros is no change. -/
theorem pad (size : Nat) :
    Holds disk tree count limit (content.rightpad size 0) := by
  intro index inside below byte inBlock
  rw [getD_rightpad]
  exact holds index inside below byte inBlock

/-- Zero blocks behind the end hold the same content. -/
theorem extend {total : Nat} (ended : content.length ≤ 512 * count)
    (zero :
      ∀ index, count ≤ index → index < total → tree (.data index) < limit →
        disk (tree (.data index)) = zeros) :
    Holds disk tree total limit content := by
  intro index inside below byte inBlock
  by_cases old : index < count
  · exact holds index old below byte inBlock
  · rw [zero index (Nat.not_lt.mp old) inside below, byteAt_zeros,
      List.getD_eq_default]
    omega

variable {start : Nat}

/-- A slice of a data block is a segment of the content. -/
theorem slice_eq {stop : Nat} (inside : start / 512 < count)
    (below : tree (.data (start / 512)) < limit)
    (inBlock : stop ≤ (start / 512 + 1) * 512)
    (inContent : stop ≤ content.length) :
    slice (disk (tree (.data (start / 512)))) (start % 512) (stop - start) =
      portion content start stop := by
  apply list_ext_getD 0
  · rw [length_slice, length_portion inContent]
  · intro index inSlice
    rw [length_slice] at inSlice
    have position :
        512 * (start / 512) + (start % 512 + index) = start + index := by
      omega
    rw [getD_slice _ _ _ inSlice, getD_portion _ _ inSlice,
      holds _ inside below _ (by omega), position]

/-- Writing into one data block overwrites a segment of the content. -/
theorem write (distinct : ((slots count).map tree).Nodup)
    {source : List UInt8} (inside : start / 512 < count)
    (inBlock : start % 512 + source.length ≤ 512)
    (inContent : start ≤ content.length) :
    Holds
      (Function.update disk (tree (.data (start / 512)))
        (splice (disk (tree (.data (start / 512)))) (start % 512) source))
      tree count limit (overwrite content start source) := by
  intro index used below byte inside512
  rw [getD_overwrite 0 inContent]
  by_cases same : index = start / 512
  · subst same
    rw [Function.update_self, byteAt_splice _ _ _ inside512,
      holds _ used below _ inside512]
    by_cases written : start % 512 ≤ byte ∧ byte < start % 512 + source.length
    · have shift :
          512 * (start / 512) + byte - start = byte - start % 512 := by omega
      rw [if_pos written, if_pos (by omega), shift]
    · rw [if_neg written, if_neg (by omega)]
  · have different : tree (.data index) ≠ tree (.data (start / 512)) := by
      intro equal
      have slotEq :=
        List.inj_on_of_nodup_map distinct (data_mem_slots.mpr used)
          (data_mem_slots.mpr inside) equal
      exact same (Slot.data.inj slotEq)
    rw [Function.update_of_ne different, if_neg (by omega)]
    exact holds index used below byte inside512

end

end Holds

namespace DiskInode

variable {self : DiskInode} {disk : Disk} {held : List Nat}
  {tree : Slot → Nat} {count limit : Nat} {content buf : List UInt8}

/-- Looking data blocks up, given the tree of the inode. -/
theorem onDisk_getBlockId_tree {index : Nat}
    (trees : ∀ slot ∈ slots count, self.treeOf disk slot = tree slot)
    (lockable : ∀ slot ∈ slots count, BlockProg.CanLock held (tree slot))
    (inside : index < count) (largest : count ≤ 16540) :
    ∃ blockId,
      (self.getBlockId (index % 2 ^ 32)).onDisk held disk =
          .ok (blockId, disk) ∧
        blockId.toNat = tree (.data index) := by
  have small : index % 2 ^ 32 = index := Nat.mod_eq_of_lt (by omega)
  rw [small, ← trees _ (data_mem_slots.mpr inside)]
  apply onDisk_getBlockId inside largest
  intro slot used _
  rw [trees slot used]
  exact lockable slot used

/-! ## Reading -/

variable {start stop writeSize : Nat} {after : Disk}

section

variable (trees : ∀ slot ∈ slots count, self.treeOf disk slot = tree slot)
  (lockable : ∀ slot ∈ slots count, BlockProg.CanLock held (tree slot))
  (largest : count ≤ 16540) (holds : Holds disk tree count limit content)
  (onDevice : ∀ index, index < count → tree (.data index) < limit)

include trees lockable largest holds onDevice

/-- The loop of `read_at` copies a segment of the content. -/
theorem onDisk_readLoop {readSize : Nat} (more : start < stop)
    (inBlocks : stop ≤ 512 * count) (inContent : stop ≤ content.length)
    (room : readSize + (stop - start) ≤ buf.length) :
    (self.readLoop stop start (start / 512) readSize buf).onDisk held disk =
      .ok ((readSize + (stop - start),
        overwrite buf readSize (portion content start stop)), disk) := by
  induction left : stop - start using Nat.strongRecOn
    generalizing start readSize buf with
  | ind measure ih =>
    have inside : start / 512 < count := by omega
    obtain ⟨blockId, looked, blockEq⟩ :=
      onDisk_getBlockId_tree trees lockable inside largest
    have can := lockable _ (data_mem_slots.mpr inside)
    rw [← blockEq] at can
    generalize stopEq : min ((start / 512 + 1) * 512) stop = middle
    have copied :
        (BlockProg.readAt blockId.toNat 0 fun dataBlock : DataBlock =>
            return slice dataBlock (start % 512) (middle - start)).onDisk
            held disk =
          .ok (portion content start middle, disk) := by
      rw [BlockProg.onDisk_readAt can (Nat.le_refl 512)]
      show Except.ok (slice (disk blockId.toNat) _ _, disk) = _
      rw [blockEq, holds.slice_eq inside (onDevice _ inside) (by omega)
        (by omega)]
    have portionLength : (portion content start middle).length = middle - start :=
      length_portion (by omega)
    rw [readLoop]
    simp only [stopEq]
    rw [if_pos (by omega), onDisk_bind_ok looked, onDisk_bind_ok copied]
    by_cases last : middle = stop
    · rw [dif_pos last, last, left]
      rfl
    · have nextBlock : start / 512 + 1 = middle / 512 := by omega
      have sameLength :
          (overwrite buf readSize (portion content start middle)).length =
            buf.length :=
        length_overwrite (by omega)
      rw [dif_neg last, nextBlock,
        ih (stop - middle) (by omega) (by omega) (by omega) rfl]
      rw [← portionLength, overwrite_overwrite _ (by omega),
        portion_append _ (by omega) (by omega), portionLength]
      have total :
          readSize + (middle - start) + (stop - middle) =
            readSize + measure := by
        omega
      rw [total]

/-- `read_at` fills a prefix of its buffer with a segment of the content. -/
theorem onDisk_readAt (size : self.size.toNat = content.length)
    (blocks : content.length ≤ 512 * count) (offset : Nat)
    (addressable : offset + buf.length < 2 ^ 64) :
    (self.readAt offset buf).onDisk held disk =
      .ok ((min (offset + buf.length) content.length - offset,
        overwrite buf 0
          (portion content offset (min (offset + buf.length) content.length))),
        disk) := by
  rw [readAt]
  simp only [Nat.mod_eq_of_lt addressable, size]
  generalize stopEq : min (offset + buf.length) content.length = stop
  by_cases nothing : offset ≥ stop
  · have empty : portion content offset stop = [] := by
      rw [portion, Nat.sub_eq_zero_of_le nothing, List.take_zero]
    rw [if_pos nothing, Nat.sub_eq_zero_of_le nothing, empty]
    simp [overwrite]
  · rw [if_neg nothing,
      onDisk_readLoop trees lockable largest holds onDevice (by omega)
        (by omega) (by omega) (by omega)]
    rw [Nat.zero_add]

end

/-! ## Writing -/

/-- Writing a data block leaves the index tree as it is. -/
theorem treeOf_update_data
    (trees : ∀ slot ∈ slots count, self.treeOf disk slot = tree slot)
    (distinct : ((slots count).map tree).Nodup)
    {index : Nat} (inside : index < count) (contents : Block) :
    ∀ slot ∈ slots count,
      self.treeOf (Function.update disk (tree (.data index)) contents) slot =
        tree slot := by
  have apart (slot : Slot) (used : slot ∈ slots count) (isIndex : slot.isIndex) :
      Function.update disk (tree (.data index)) contents
          (self.treeOf disk slot) =
        disk (self.treeOf disk slot) := by
    apply Function.update_of_ne
    rw [trees slot used]
    intro equal
    have slotEq :=
      List.inj_on_of_nodup_map distinct used (data_mem_slots.mpr inside) equal
    rw [slotEq] at isIndex
    cases isIndex
  intro slot used
  rw [← trees slot used]
  exact treeOf_congr (fun _ _ => rfl) (fun _ => rfl)
    (fun more => apart .indirect1 (indirect1_mem_slots.mpr more) rfl)
    (fun _ => rfl)
    (fun more => apart .indirect2 (indirect2_mem_slots.mpr more) rfl)
    (fun sub more => apart (.sub sub) (sub_mem_slots.mpr more) rfl) slot used

/-- What a write leaves: the new content, in the same blocks. -/
structure Written (disk : Disk) (tree : Slot → Nat) (count limit : Nat)
    (content : List UInt8) (after : Disk) : Prop where
  holds : Holds after tree count limit content
  frame :
    ∀ block, (∀ index, index < count → tree (.data index) ≠ block) →
      after block = disk block

section

variable (trees : ∀ slot ∈ slots count, self.treeOf disk slot = tree slot)
  (lockable : ∀ slot ∈ slots count, BlockProg.CanLock held (tree slot))

include trees lockable

/-- The loop of `write_at` overwrites a segment of the content. -/
theorem onDisk_writeLoop (distinct : ((slots count).map tree).Nodup)
    (largest : count ≤ 16540) (holds : Holds disk tree count limit content)
    (more : start < stop) (inBlocks : stop ≤ 512 * count)
    (inContent : stop ≤ content.length)
    (room : writeSize + (stop - start) ≤ buf.length) :
    ∃ after,
      (self.writeLoop stop start (start / 512) writeSize buf).onDisk held
          disk =
        .ok (writeSize + (stop - start), after) ∧
        Written disk tree count limit
          (overwrite content start
            (portion buf writeSize (writeSize + (stop - start))))
          after := by
  induction left : stop - start using Nat.strongRecOn
    generalizing disk start writeSize content with
  | ind measure ih =>
    have inside : start / 512 < count := by omega
    obtain ⟨blockId, looked, blockEq⟩ :=
      onDisk_getBlockId_tree trees lockable inside largest
    have can := lockable _ (data_mem_slots.mpr inside)
    rw [← blockEq] at can
    generalize stopEq : min ((start / 512 + 1) * 512) stop = middle
    generalize sourceEq :
      portion buf writeSize (writeSize + (middle - start)) = source
    have sourceLength : source.length = middle - start := by
      rw [← sourceEq, length_portion (by omega)]
      omega
    generalize disk1Eq :
      Function.update disk (tree (.data (start / 512)))
        (splice (disk (tree (.data (start / 512)))) (start % 512) source) =
        disk1
    have copied :
        (BlockProg.modifyAt blockId.toNat 0 fun dataBlock : DataBlock =>
            let src := portion buf writeSize (writeSize + (middle - start))
            return ((), splice dataBlock (start % 512) src)).onDisk held
            disk =
          .ok ((), disk1) := by
      rw [onDisk_modifyAt can (Nat.le_refl 512) rfl, ← disk1Eq,
        ← blockEq, ← sourceEq]
      rfl
    have trees1 : ∀ slot ∈ slots count, self.treeOf disk1 slot = tree slot := by
      rw [← disk1Eq]
      exact treeOf_update_data trees distinct inside _
    have holds1 :
        Holds disk1 tree count limit (overwrite content start source) := by
      rw [← disk1Eq]
      exact holds.write distinct inside (by omega) (by omega)
    have frame1 :
        ∀ block, (∀ index, index < count → tree (.data index) ≠ block) →
          disk1 block = disk block := by
      intro block outside
      rw [← disk1Eq, Function.update_of_ne (Ne.symm (outside _ inside))]
    have sameLength :
        (overwrite content start source).length = content.length :=
      length_overwrite (by omega)
    rw [writeLoop]
    simp only [stopEq]
    rw [if_pos (by omega), onDisk_bind_ok looked, onDisk_bind_ok copied]
    by_cases last : middle = stop
    · refine ⟨disk1, ?_, ?_⟩
      · rw [dif_pos last, last, left]
        rfl
      · rw [← left, ← last, sourceEq]
        exact ⟨holds1, frame1⟩
    · have nextBlock : start / 512 + 1 = middle / 512 := by omega
      obtain ⟨after, ran, written⟩ :=
        ih (stop - middle) (by omega) trees1 holds1 (by omega) (by omega)
          (by omega : writeSize + (middle - start) + (stop - middle) ≤ _)
          rfl
      have total :
          writeSize + (middle - start) + (stop - middle) =
            writeSize + measure := by
        omega
      have next : middle = start + source.length := by omega
      have combined :
          overwrite (overwrite content start source) middle
              (portion buf (writeSize + (middle - start))
                (writeSize + measure)) =
            overwrite content start
              (portion buf writeSize (writeSize + measure)) := by
        calc
          _ = overwrite (overwrite content start source)
                (start + source.length) _ := by rw [← next]
          _ = overwrite content start (source ++ _) :=
              overwrite_overwrite _ (by omega)
          _ = _ := by
              rw [← sourceEq, portion_append _ (by omega) (by omega)]
      rw [total, combined] at written
      refine ⟨after, ?_, written.holds, ?_⟩
      · rw [dif_neg last, nextBlock, ran, total]
      · intro block outside
        rw [written.frame block outside, frame1 block outside]

/-- `write_at` of at least one byte inside the file. -/
theorem onDisk_writeAt (distinct : ((slots count).map tree).Nodup)
    (largest : count ≤ 16540) (holds : Holds disk tree count limit content)
    (size : self.size.toNat = content.length)
    (blocks : content.length ≤ 512 * count) {offset : Nat}
    (stopEq : min ((offset + buf.length) % 2 ^ 64) content.length = stop)
    (more : offset < stop) :
    ∃ after,
      (self.writeAt offset buf).onDisk held disk = .ok (stop - offset, after) ∧
        Written disk tree count limit
          (overwrite content offset (buf.take (stop - offset))) after := by
  have within : stop - offset ≤ buf.length := by
    have wrapped := Nat.mod_le (offset + buf.length) (2 ^ 64)
    omega
  obtain ⟨after, ran, written⟩ :=
    onDisk_writeLoop trees lockable distinct largest holds more (by omega)
      (by omega) (by omega : 0 + (stop - offset) ≤ buf.length)
  have asserted : decide (offset ≤ stop) = true := decide_eq_true (by omega)
  have taken : portion buf 0 (0 + (stop - offset)) = buf.take (stop - offset) := by
    rw [portion, List.drop_zero, Nat.zero_add, Nat.sub_zero]
  rw [taken] at written
  refine ⟨after, ?_, written⟩
  rw [writeAt]
  simp only [size, stopEq, asserted]
  show (self.writeLoop stop offset (offset / 512) 0 buf).onDisk held disk = _
  rw [ran, Nat.zero_add]

end

/-! ## Calls that returned -/

theorem readOnly_index {α : Type} {size : Nat} (words : Vector α size)
    (index : Nat) : (BlockProg.index words index).ReadOnly := by
  rw [BlockProg.index]
  split <;> trivial

theorem readOnly_getBlockId (self : DiskInode) (innerId : Nat) :
    (self.getBlockId innerId).ReadOnly := by
  rw [getBlockId]
  split
  · exact readOnly_index _ _
  · split
    · exact BlockProg.readOnly_readAt fun _ => readOnly_index _ _
    · apply BlockProg.ReadOnly.bind
      · exact BlockProg.readOnly_readAt fun _ => readOnly_index _ _
      · intro indirect1
        apply BlockProg.readOnly_readAt
        intro words
        generalize (innerId - 156) % 128 = position
        exact readOnly_index words position

theorem readOnly_readLoop
    (self : DiskInode) (stop start startBlock readSize : Nat)
    (buf : List UInt8) :
    (self.readLoop stop start startBlock readSize buf).ReadOnly := by
  induction left : stop - start using Nat.strongRecOn
    generalizing start startBlock readSize buf with
  | ind measure ih =>
    rw [readLoop]
    dsimp only
    split
    · apply BlockProg.ReadOnly.bind (readOnly_getBlockId _ _)
      intro blockId
      apply BlockProg.ReadOnly.bind
      · exact BlockProg.readOnly_readAt fun _ => trivial
      · intro src
        split
        · trivial
        · exact ih (stop - min ((start / 512 + 1) * 512) stop) (by omega)
            _ _ _ _ rfl
    · trivial

/-- `read_at` modifies nothing. -/
theorem readOnly_readAt (self : DiskInode) (offset : Nat) (buf : List UInt8) :
    (self.readAt offset buf).ReadOnly := by
  rw [readAt]
  split
  · trivial
  · exact readOnly_readLoop _ _ _ _ _ _

/-- A block that was found has an index below 28 + 128 + 128 * 128. -/
theorem getBlockId_limit {innerId : Nat} {blockId : BitVec 32}
    (returned :
      (self.getBlockId innerId).onDisk held disk = .ok (blockId, after)) :
    innerId < 16540 := by
  rw [getBlockId] at returned
  split at returned
  · omega
  · split at returned
    · omega
    · obtain ⟨_, _, first, _⟩ := onDisk_bind_eq_ok.mp returned
      have indexed := (onDisk_readAt_eq_ok first).2.2
      have inside := (onDisk_index_eq_ok indexed).1
      omega

variable {written : Nat}

/-- A write that returned ended inside the largest file. -/
theorem writeLoop_limit
    (returned :
      (self.writeLoop stop start (start / 512) writeSize buf).onDisk held
          disk =
        .ok (written, after)) (ordered : start ≤ stop) (small : stop < 2 ^ 32) :
    stop ≤ 512 * 16540 := by
  induction left : stop - start using Nat.strongRecOn
    generalizing start writeSize disk with
  | ind measure ih =>
    rw [writeLoop] at returned
    generalize stopEq : min ((start / 512 + 1) * 512) stop = middle
      at returned
    dsimp only at returned
    split at returned
    · obtain ⟨_, _, looked, returned⟩ := onDisk_bind_eq_ok.mp returned
      have inside := getBlockId_limit looked
      rw [Nat.mod_eq_of_lt (by omega)] at inside
      obtain ⟨_, _, _, returned⟩ := onDisk_bind_eq_ok.mp returned
      split at returned
      · omega
      · next notLast =>
          have nextBlock : start / 512 + 1 = middle / 512 := by omega
          rw [nextBlock] at returned
          exact ih (stop - middle) (by omega) returned (by omega) rfl
    · cases returned

/-- A write of no bytes that returned changed nothing. -/
theorem writeLoop_nothing
    (returned :
      (self.writeLoop stop stop (stop / 512) writeSize buf).onDisk held disk =
        .ok (written, after)) :
    written = writeSize ∧ after = disk := by
  have here : min ((stop / 512 + 1) * 512) stop = stop := by omega
  rw [writeLoop] at returned
  simp only [here, Nat.sub_self, Nat.add_zero] at returned
  split at returned
  · obtain ⟨blockId, disk1, looked, returned⟩ := onDisk_bind_eq_ok.mp returned
    rw [(readOnly_getBlockId self _).onDisk_eq looked] at returned
    obtain ⟨_, disk2, stored, returned⟩ := onDisk_bind_eq_ok.mp returned
    obtain ⟨_, _, value, between, ran, afterEq⟩ := onDisk_modifyAt_eq_ok stored
    have empty : portion buf writeSize writeSize = [] := by
      rw [portion, Nat.sub_self, List.take_zero]
    rw [empty, splice_nil] at ran
    cases ran
    have unchanged : disk2 = disk := by
      rw [afterEq]
      exact Function.update_eq_self _ _
    rw [dif_pos trivial] at returned
    cases returned
    exact ⟨rfl, unchanged⟩
  · cases returned

end DiskInode

end RCoreOS.EasyFs
