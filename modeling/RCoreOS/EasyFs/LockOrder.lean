import RCoreOS.EasyFs.BlockLookups
import RCoreOS.EasyFs.LockNesting

/-!
# The file system does not lock itself out of its cache

That an operation never locks a block twice rests on the block ownership
invariant.  The block of the inode is in the inode area, bitmap blocks are in
the bitmap, and the index and data blocks of the file are different blocks of
the data area.  New blocks come from clear bits, so they are none of those
that the file has.

A directory that is full is the one case in which `create` meets the end of
the index tree; the loop stops there before it locks anything.
-/

namespace RCoreOS.EasyFs

open Function

open List DiskInode BlockProg.NoRelock

open Lib Lib.Bytes Slot Inode

/-! ## A full index tree -/

namespace DiskInode

open BlockProg

variable {self : DiskInode} {held : List Nat} {disk : Disk}

/-- The second level has no entry 128. -/
theorem allocSub_full (indirect2 : IndirectBlock)
    (newBlocks : List (BitVec 32))
    {outcome : IndirectBlock × List (BitVec 32)} :
    allocSub 128 0 indirect2 newBlocks ≠ .ok outcome := by
  rw [allocSub, if_pos rfl]
  intro returned
  obtain ⟨⟨block, rest⟩, _, returned⟩ := FallibleRuns.bind_eq_ok.mp returned
  dsimp only at returned
  rw [dif_neg (Nat.lt_irrefl 128)] at returned
  cases returned

theorem noRelock_increaseIndirect2_full (free : self.indirect2.toNat ∉ held)
    (newBlocks : List (BitVec 32)) :
    (self.increaseIndirect2 16384 16385 newBlocks).NoRelock held disk := by
  refine NoRelock.bind (noRelock_modifyAt free ?_) fun _ _ _ => noRelock_pure _
  generalize (BlockView.load (disk self.indirect2.toNat) 0 : IndirectBlock) =
    words
  show (fillIndirect2 128 1 128 0 words newBlocks).NoRelock _ disk
  rw [fillIndirect2, dif_pos (by decide)]
  refine NoRelock.bind (noRelock_ofExcept (plain_allocSub _ _ _ _))
    fun taken between takenEq => ?_
  exact absurd (onDisk_ofExcept_eq_ok takenEq).1 (allocSub_full _ _)

theorem noRelock_increaseIndirect1_full (first : self.indirect1.toNat ∉ held)
    (second : self.indirect2.toNat ∉ held) (newBlocks : List (BitVec 32)) :
    (self.increaseIndirect1 16512 16513 newBlocks).NoRelock held disk := by
  rw [increaseIndirect1]
  refine NoRelock.bind (noRelock_modifyAt first ?_)
    fun taken between takenEq => ?_
  · exact NoRelock.bind (noRelock_ofExcept (plain_fill _ _ _ _))
      fun _ _ _ => noRelock_pure _
  · obtain ⟨_, _, words, inner, bodyEq, _⟩ := onDisk_modifyAt_eq_ok takenEq
    obtain ⟨⟨filled, current, rest⟩, later, filledEq, returned⟩ :=
      onDisk_bind_eq_ok.mp bodyEq
    obtain ⟨filledOk, _⟩ := onDisk_ofExcept_eq_ok filledEq
    have currentEq : current = 16512 := fill_reached filledOk
    cases returned
    rw [currentEq]
    show (ofExcept (.ok (self.indirect2, rest)) >>= _).NoRelock held _
    refine NoRelock.bind (noRelock_pure (self.indirect2, rest))
      fun taken between takenEq => ?_
    cases takenEq
    refine noRelock_increaseIndirect2_full ?_ rest
    exact second

/-- The loops stop before they lock a block that the file does not have. -/
theorem noRelock_increaseSize_full {newSize : Nat}
    (full : self.dataBlocks = 16540) (small : newSize < 2 ^ 32)
    (more : dataBlocksOf newSize = 16541) (first : self.indirect1.toNat ∉ held)
    (second : self.indirect2.toNat ∉ held) (newBlocks : List (BitVec 32)) :
    (self.increaseSize newSize newBlocks).NoRelock held disk := by
  have total :
      dataBlocks { self with size := BitVec.ofNat 32 newSize } = 16541 :=
    (dataBlocks_of_size small rfl).trans more
  rw [increaseSize]
  dsimp only
  rw [full, total]
  refine NoRelock.bind (noRelock_ofExcept (plain_fill _ _ _ _))
    fun taken between takenEq => ?_
  obtain ⟨direct, current, rest⟩ := taken
  obtain ⟨filled, rfl⟩ := onDisk_ofExcept_eq_ok takenEq
  have currentEq : current = 16540 := fill_reached filled
  rw [currentEq]
  show (ofExcept (.ok (self.indirect1, rest)) >>= _).NoRelock held _
  refine NoRelock.bind (noRelock_pure (self.indirect1, rest))
    fun taken between takenEq => ?_
  cases takenEq
  refine noRelock_increaseIndirect1_full ?_ ?_ rest
  · exact first
  · exact second

end DiskInode

/-! ## Blocks that may be locked -/

namespace Geometry

open BlockProg

variable {g : Geometry} {inode grown : DiskInode} {disk after : Disk}
  {locked : Nat}

/--
What an operation on one inode needs of the block ownership invariant: the
blocks of the inode are different blocks of the data area, and their bits are
set, so that `alloc_data` does not hand them out.
-/
structure OwnBlocks (g : Geometry) (inode : DiskInode) (disk : Disk) :
    Prop where
  small : inode.size.toNat ≤ 512 * 16540
  distinct : (inode.blocks disk).Nodup
  inArea : ∀ block ∈ inode.blocks disk, g.InArea block
  used : ∀ block ∈ inode.blocks disk, g.dataBit disk block = true

namespace OwnBlocks

section

variable (own : g.OwnBlocks inode disk)

include own

theorem dataBlocks_eq :
    inode.dataBlocks = dataCount inode.size.toNat :=
  dataBlocksOf_eq own.small

theorem largest : inode.dataBlocks ≤ 16540 := by
  have small := own.small
  rw [own.dataBlocks_eq, dataCount]
  omega

theorem lockable (below : locked < g.efs.dataBitmap.startBlockId)
    {slot : Slot} (used : slot ∈ Slot.slots inode.dataBlocks) :
    CanLock [locked] (inode.treeOf disk slot) :=
  canLock below (own.inArea _ (mem_map_of_mem used)).behind

/-- Which blocks an inode has is read off the data area. -/
theorem blocks_congr
    (agree : ∀ block, g.InArea block → after block = disk block) :
    inode.blocks after = inode.blocks disk := by
  have kept (slot : Slot) (used : slot ∈ Slot.slots inode.dataBlocks) :
      after (inode.treeOf disk slot) = disk (inode.treeOf disk slot) :=
    agree _ (own.inArea _ (mem_map_of_mem used))
  apply map_congr_left
  apply treeOf_congr
  · exact fun _ _ => rfl
  · exact fun _ => rfl
  · exact fun more => kept .indirect1 (indirect1_mem_slots.mpr more)
  · exact fun _ => rfl
  · exact fun most => kept .indirect2 (indirect2_mem_slots.mpr most)
  · exact fun index inside => kept (.sub index) (sub_mem_slots.mpr inside)

/-- The superblock, the inode bitmap and the inode area do not matter. -/
theorem congr
    (agree :
      ∀ block, g.efs.dataBitmap.startBlockId ≤ block →
        after block = disk block) :
    g.OwnBlocks inode after := by
  have blocksEq := own.blocks_congr fun block inside =>
    agree block inside.behind
  refine ⟨own.small, ?_, ?_, ?_⟩
  · rw [blocksEq]
    exact own.distinct
  · rw [blocksEq]
    exact own.inArea
  · rw [blocksEq]
    intro block owns
    rw [dataBit_congr (fun covered covers => agree covered covers.1)
      (own.inArea block owns)]
    exact own.used block owns

end

/-- A new inode has no blocks. -/
theorem initialized (type_ : DiskInodeType) (disk : Disk) :
    g.OwnBlocks (.initialized type_) disk := by
  have none : (DiskInode.initialized type_).blocks disk = [] := by
    have size : (DiskInode.initialized type_).size = 0 := rfl
    rw [DiskInode.blocks, DiskInode.dataBlocks, size]
    rfl
  refine ⟨Nat.zero_le _, ?_, ?_, ?_⟩
  · rw [none]
    exact nodup_nil
  · rw [none]
    intro _ member
    cases member
  · rw [none]
    intro _ member
    cases member

section

variable (own : g.OwnBlocks inode disk)
  (below : locked < g.efs.dataBitmap.startBlockId)

include own below

/-- Reading locks one block of the file after the other. -/
theorem noRelock_readLoop {stop start startBlock : Nat}
    (startEq : start / 512 = startBlock) (more : start < stop)
    (inFile : stop ≤ inode.size.toNat) (readSize : Nat) (buf : List UInt8) :
    (inode.readLoop stop start startBlock readSize buf).NoRelock [locked]
      disk := by
  induction left : stop - start using Nat.strongRecOn
    generalizing start startBlock readSize buf with
  | ind measure ih =>
    have inBlocks : startBlock < inode.dataBlocks := by
      rw [own.dataBlocks_eq, dataCount]
      omega
    obtain ⟨blockId, ran, blockEq⟩ :=
      onDisk_getBlockId_tree (fun _ _ => rfl)
        (fun _ used => own.lockable below used) inBlocks own.largest
    have free := (own.lockable below (data_mem_slots.mpr inBlocks)).1
    rw [← blockEq] at free
    rw [DiskInode.readLoop]
    dsimp only
    split
    · refine NoRelock.bind (.of_ok ran) fun found between foundEq => ?_
      rw [ran] at foundEq
      cases foundEq
      refine NoRelock.bind
        (BlockProg.noRelock_readAt free (noRelock_pure _))
        fun src later laterEq => ?_
      obtain ⟨_, _, bodyEq⟩ := onDisk_readAt_eq_ok laterEq
      cases bodyEq
      split
      · exact noRelock_pure _
      · exact ih (stop - min ((start / 512 + 1) * 512) stop) (by omega)
          (by omega) (by omega) _ _ rfl
    · intro stops
      cases stops

theorem noRelock_readAt (offset : Nat) (buf : List UInt8) :
    (inode.readAt offset buf).NoRelock [locked] disk := by
  rw [DiskInode.readAt]
  split
  · exact noRelock_pure _
  · next more =>
      exact own.noRelock_readLoop below rfl (Nat.not_le.mp more)
        (Nat.min_le_right _ _) _ _

/-- A write of at least one byte returns, whatever the blocks hold. -/
theorem writeAt_returns {offset : Nat} {buf : List UInt8}
    (nonempty : buf ≠ []) (inFile : offset + buf.length ≤ inode.size.toNat) :
    ∃ outcome, (inode.writeAt offset buf).onDisk [locked] disk = .ok outcome := by
  have small := own.small
  have positive := length_pos_iff.mpr nonempty
  have size : inode.size.toNat =
      (List.replicate inode.size.toNat (0 : UInt8)).length :=
    length_replicate.symm
  have stopEq :
      min ((offset + buf.length) % 2 ^ 64)
          (List.replicate inode.size.toNat (0 : UInt8)).length =
        offset + buf.length := by
    rw [length_replicate]
    omega
  -- which bytes the blocks hold does not matter
  have nothing :
      Holds disk (inode.treeOf disk) inode.dataBlocks 0
        (List.replicate inode.size.toNat 0) :=
    fun _ _ impossible => absurd impossible (Nat.not_lt_zero _)
  obtain ⟨after, ran, _⟩ :=
    onDisk_writeAt (fun _ _ => rfl)
      (fun _ used => own.lockable below used) own.distinct own.largest
      nothing size
      (by
        rw [length_replicate, own.dataBlocks_eq, dataCount]
        omega)
      stopEq (by omega)
  exact ⟨_, ran⟩

end

variable {newSize : Nat}

/-- Growing with blocks that `alloc_data` handed out. -/
theorem increase (own : g.OwnBlocks inode disk)
    (below : locked < g.efs.dataBitmap.startBlockId) {v : List (BitVec 32)}
    {allocated : Disk}
    (many : g.AllocatedMany disk (v.map BitVec.toNat) allocated)
    (grows : inode.size.toNat ≤ newSize) (limit : newSize ≤ 512 * 16540)
    (enough :
      blockCount (dataCount inode.size.toNat) + v.length =
        blockCount (dataCount newSize)) :
    ∃ grown after,
      (inode.increaseSize newSize v).onDisk [locked] allocated =
          .ok (grown, after) ∧
        g.OwnBlocks grown after ∧ grown.size.toNat = newSize := by
  have blocksEq :=
    own.blocks_congr fun block inside => many.frame block inside.not_covers
  have inArea :
      ∀ block ∈ inode.blocks allocated ++ v.map BitVec.toNat,
        g.InArea block := by
    intro block belongs
    rw [blocksEq] at belongs
    rcases mem_append.mp belongs with old | new
    · exact own.inArea block old
    · exact many.inArea block new
  have isSet :
      ∀ block ∈ inode.blocks allocated ++ v.map BitVec.toNat,
        g.dataBit allocated block = true := by
    intro block belongs
    rw [many.bits block (inArea block belongs)]
    rw [blocksEq] at belongs
    rcases mem_append.mp belongs with old | new
    · rw [own.used block old]
      rfl
    · rw [decide_eq_true new, Bool.or_true]
  have distinct : (inode.blocks allocated ++ v.map BitVec.toNat).Nodup := by
    rw [blocksEq]
    refine nodup_append.mpr ⟨own.distinct, many.distinct, ?_⟩
    rintro block owns other new rfl
    have wasSet := own.used block owns
    rw [many.clear block new] at wasSet
    cases wasSet
  obtain ⟨grown, after, ran, facts⟩ :=
    DiskInode.onDisk_increaseSize (by omega : newSize < 2 ^ 32)
      (by
        rw [own.dataBlocks_eq, dataBlocksOf_eq limit, dataCount, dataCount]
        omega)
      (by
        rw [dataBlocksOf_eq limit, dataCount]
        omega)
      (by
        rw [length_append, length_map, DiskInode.blocks, length_map,
          length_slots, own.dataBlocks_eq, dataBlocksOf_eq limit, enough])
      distinct
      (fun block belongs => (canLock below (inArea block belongs).behind).1)
      (by rw [length_singleton]; decide)
  have sizeEq : grown.size.toNat = newSize := by
    rw [facts.size, BitVec.toNat_ofNat]
    exact Nat.mod_eq_of_lt (by omega)
  -- index blocks are blocks of the file, so the bitmap is kept
  have kept (block : Nat) (outside : ¬ g.InArea block) :
      after block = allocated block := by
    apply facts.frame
    rintro slot used _ rfl
    apply outside
    apply inArea
    rw [← facts.blocks]
    exact mem_map_of_mem used
  refine ⟨grown, after, ran, ⟨?_, ?_, ?_, ?_⟩, sizeEq⟩
  · rw [sizeEq]
    exact limit
  · rw [facts.blocks]
    exact distinct
  · rw [facts.blocks]
    exact inArea
  · rw [facts.blocks]
    intro block belongs
    rw [dataBit_congr
      (fun covered covers => kept covered fun wrong => wrong.not_covers covers)
      (inArea block belongs)]
    exact isSet block belongs

/-- Allocating locks blocks of the data bitmap. -/
theorem noRelock_allocBlocks
    (below : locked < g.efs.dataBitmap.startBlockId) (count : Nat)
    (disk : Disk) :
    (allocBlocks g.efs count).NoRelock [locked] disk := by
  have lockable (covered : Nat) (covers : g.efs.dataBitmap.Covers covered) :
      CanLock [locked] covered :=
    canLock below covers.1
  induction count generalizing disk with
  | zero => exact noRelock_pure _
  | succ count ih =>
    rw [allocBlocks]
    refine NoRelock.bind ?_ fun _ between _ => ?_
    · by_cases notFull :
          g.efs.dataBitmap.used disk < g.efs.dataBitmap.maximum
      · obtain ⟨_, _, _, ran, _⟩ := onDisk_allocData lockable notFull
        exact .of_ok ran
      · rw [NoRelock, onDisk_allocData_full lockable (Nat.not_lt.mp notFull)]
        intro stops
        cases stops
    · exact (ih between).bind fun _ _ _ => noRelock_pure _

section

variable (own : g.OwnBlocks inode disk)
  (below : locked < g.efs.dataBitmap.startBlockId)

include own below

/-- `Inode::increase_size` within the largest size. -/
theorem increaseSize (limit : newSize ≤ 512 * 16540) :
    (Inode.increaseSize g.efs newSize inode).NoRelock [locked] disk ∧
      ∀ grown after,
        (Inode.increaseSize g.efs newSize inode).onDisk [locked] disk =
            .ok (grown, after) →
          g.OwnBlocks grown after ∧ newSize ≤ grown.size.toNat := by
  rw [Inode.increaseSize]
  by_cases smaller : newSize < inode.size.toNat
  · rw [if_pos smaller]
    refine ⟨noRelock_pure _, ?_⟩
    intro grown after returned
    cases returned
    exact ⟨own, Nat.le_of_lt smaller⟩
  · have grows := Nat.not_lt.mp smaller
    have fewer := blockCount_dataCount_mono grows
    have needed := blocksNumNeeded_returns grows limit
    rw [if_neg smaller, needed]
    by_cases enough :
        g.efs.dataBitmap.used disk +
            (blockCount (dataCount newSize) -
              blockCount (dataCount inode.size.toNat)) ≤
          g.efs.dataBitmap.maximum
    · obtain ⟨v, allocated, ran, length, many⟩ :=
        onDisk_allocBlocks below _ disk enough
      obtain ⟨grown, after, grownRan, grownOwn, sizeEq⟩ :=
        own.increase below many grows limit (by omega)
      have whole :
          (ofExcept (.ok (blockCount (dataCount newSize) -
              blockCount (dataCount inode.size.toNat))) >>=
            fun blocksNeeded =>
              allocBlocks g.efs blocksNeeded >>= fun v =>
                inode.increaseSize newSize v).onDisk [locked] disk =
            .ok (grown, after) := by
        show (allocBlocks g.efs _ >>= _).onDisk [locked] disk = _
        rw [onDisk_bind_ok ran]
        exact grownRan
      refine ⟨.of_ok whole, ?_⟩
      intro other otherAfter returned
      rw [whole] at returned
      cases returned
      exact ⟨grownOwn, Nat.le_of_eq sizeEq.symm⟩
    · have notEnough {v : List (BitVec 32)} {allocated : Disk}
          (ran :
            (allocBlocks g.efs
                (blockCount (dataCount newSize) -
                  blockCount (dataCount inode.size.toNat))).onDisk
                [locked] disk = .ok (v, allocated)) : False :=
        enough (allocBlocks_enough below ran)
      constructor
      · refine NoRelock.bind (noRelock_pure _) fun count between countEq => ?_
        cases countEq
        exact (noRelock_allocBlocks below _ disk).bind fun v allocated ran =>
          (notEnough ran).elim
      · intro grown after returned
        obtain ⟨count, between, countEq, returned⟩ :=
          onDisk_bind_eq_ok.mp returned
        cases countEq
        obtain ⟨v, allocated, ran, _⟩ := onDisk_bind_eq_ok.mp returned
        exact (notEnough ran).elim

/-- One more entry for a directory of the largest size. -/
theorem noRelock_increaseSize_full (full : inode.size.toNat = 512 * 16540)
    (more : newSize = 512 * 16540 + 32) :
    (Inode.increaseSize g.efs newSize inode).NoRelock [locked] disk ∧
      ∀ outcome,
        (Inode.increaseSize g.efs newSize inode).onDisk [locked] disk ≠
          .ok outcome := by
  have dataBlocks : inode.dataBlocks = 16540 := by
    rw [own.dataBlocks_eq, full]
    rfl
  have index1 : Slot.indirect1 ∈ Slot.slots inode.dataBlocks :=
    indirect1_mem_slots.mpr (by omega)
  have index2 : Slot.indirect2 ∈ Slot.slots inode.dataBlocks :=
    indirect2_mem_slots.mpr (by omega)
  have moreBlocks : DiskInode.dataBlocksOf newSize = 16541 := by
    rw [more]
    rfl
  rw [Inode.increaseSize, if_neg (by omega)]
  constructor
  · refine NoRelock.bind (noRelock_ofExcept (inode.plain_blocksNumNeeded _))
      fun count between _ => ?_
    refine (noRelock_allocBlocks below _ _).bind fun v allocated _ => ?_
    exact DiskInode.noRelock_increaseSize_full dataBlocks (by omega)
      moreBlocks (own.lockable below index1).1 (own.lockable below index2).1 v
  · intro outcome returned
    obtain ⟨count, between, _, returned⟩ := onDisk_bind_eq_ok.mp returned
    obtain ⟨v, allocated, _, returned⟩ := onDisk_bind_eq_ok.mp returned
    have limit := increaseSize_limit (by omega) own.largest returned
    omega

/-- Appending an entry to a directory. -/
theorem noRelock_appendDirEntry (name : String) (newInodeId : Nat) :
    (appendDirEntry g.efs name newInodeId inode).NoRelock [locked]
      disk := by
  have small := own.small
  have noWrap :
      (inode.size.toNat / 32 + 1) * 32 % 2 ^ 32 =
        (inode.size.toNat / 32 + 1) * 32 := by
    omega
  rw [appendDirEntry, noWrap]
  by_cases limit : (inode.size.toNat / 32 + 1) * 32 ≤ 512 * 16540
  · obtain ⟨noRelock, returned⟩ := own.increaseSize below limit
    refine noRelock.bind fun grown after ran => ?_
    obtain ⟨grownOwn, large⟩ := returned grown after ran
    refine NoRelock.bind (noRelock_ofExcept (DirEntry.plain_new _ _))
      fun dirent between direntEq => ?_
    obtain ⟨_, rfl⟩ := onDisk_ofExcept_eq_ok direntEq
    have length := dirent.length_asBytes
    have nonempty : dirent.asBytes ≠ [] := by
      intro empty
      rw [empty] at length
      cases length
    obtain ⟨outcome, written⟩ :=
      grownOwn.writeAt_returns below nonempty
        (show inode.size.toNat / 32 * 32 + dirent.asBytes.length ≤
            grown.size.toNat by
          omega)
    exact (of_ok written).bind fun _ _ _ => noRelock_pure _
  · obtain ⟨noRelock, stops⟩ :=
      own.noRelock_increaseSize_full below (by omega)
        (show (inode.size.toNat / 32 + 1) * 32 = 512 * 16540 + 32 by omega)
    exact noRelock.bind fun grown after ran => absurd ran (stops _)

/-- Writing at least one byte within the largest size. -/
theorem noRelock_growAndWrite {offset : Nat} {buf : List UInt8}
    (nonempty : buf ≠ []) (limit : offset + buf.length ≤ 512 * 16540) :
    (growAndWrite g.efs offset buf inode).NoRelock [locked] disk := by
  have noWrap :
      (offset + buf.length) % 2 ^ 32 = offset + buf.length :=
    Nat.mod_eq_of_lt (by omega)
  rw [growAndWrite, noWrap]
  obtain ⟨noRelock, returned⟩ := own.increaseSize below limit
  refine noRelock.bind fun grown after ran => ?_
  obtain ⟨grownOwn, large⟩ := returned grown after ran
  obtain ⟨outcome, written⟩ := grownOwn.writeAt_returns below nonempty large
  exact (of_ok written).bind fun _ _ _ => noRelock_pure _

/-- Clearing gives all blocks back. -/
theorem noRelock_clearDiskInode :
    (clearDiskInode g.efs inode).NoRelock [locked] disk := by
  obtain ⟨v, cleared, ran, blocksEq, _⟩ :=
    DiskInode.onDisk_clearSize own.largest own.distinct
      (fun block owns => (canLock below (own.inArea block owns).behind).1)
      (by rw [length_singleton]; decide : [locked].length < 15)
  obtain ⟨after, given, _⟩ :=
    onDisk_deallocBlocks below v disk
      (by rw [← DiskInode.ids, blocksEq]; exact own.distinct)
      (by rw [← DiskInode.ids, blocksEq]; exact own.inArea)
      (by rw [← DiskInode.ids, blocksEq]; exact own.used)
  rw [clearDiskInode]
  refine NoRelock.bind (.of_ok ran) fun outcome between outcomeEq => ?_
  rw [ran] at outcomeEq
  cases outcomeEq
  refine NoRelock.bind (noRelock_assert _) fun _ later assertEq => ?_
  obtain ⟨_, rfl⟩ := onDisk_assert_eq_ok assertEq
  exact (of_ok given).bind fun _ _ _ => noRelock_pure _

/-- Searching a directory only reads it. -/
theorem noRelock_readDirEntry (i : Nat) (dirent : DirEntry) :
    (readDirEntry inode i dirent).NoRelock [locked] disk :=
  (own.noRelock_readAt below _ _).bind fun _ _ _ =>
    (noRelock_assert _).bind fun _ _ _ => noRelock_pure _

theorem noRelock_findLoop (name : String) (indices : List Nat)
    (dirent : DirEntry) :
    (Inode.findLoop name inode indices dirent).NoRelock [locked] disk := by
  induction indices generalizing dirent with
  | nil => exact noRelock_pure _
  | cons i rest ih =>
    rw [Inode.findLoop]
    refine (own.noRelock_readDirEntry below i dirent).bind
      fun dirent between readEq => ?_
    have same := (readOnly_readDirEntry _ _ _).onDisk_eq readEq
    refine NoRelock.bind (noRelock_ofExcept dirent.plain_nameOf)
      fun entryName later nameEq => ?_
    obtain ⟨_, rfl⟩ := onDisk_ofExcept_eq_ok nameEq
    rw [same]
    split
    · exact noRelock_pure _
    · exact ih dirent

theorem noRelock_findInodeId (name : String) :
    (Inode.findInodeId name inode).NoRelock [locked] disk := by
  refine NoRelock.bind (noRelock_assert _) fun _ between assertEq => ?_
  obtain ⟨_, rfl⟩ := onDisk_assert_eq_ok assertEq
  exact own.noRelock_findLoop below name _ _

theorem noRelock_lsLoop (indices : List Nat) :
    (Inode.lsLoop inode indices).NoRelock [locked] disk := by
  induction indices with
  | nil => exact noRelock_pure _
  | cons i rest ih =>
    rw [Inode.lsLoop]
    refine (own.noRelock_readDirEntry below i _).bind
      fun dirent between readEq => ?_
    have same := (readOnly_readDirEntry _ _ _).onDisk_eq readEq
    refine NoRelock.bind (noRelock_ofExcept dirent.plain_nameOf)
      fun entryName later nameEq => ?_
    obtain ⟨_, rfl⟩ := onDisk_ofExcept_eq_ok nameEq
    rw [same]
    exact ih.bind fun _ _ _ => noRelock_pure _

end

end OwnBlocks

/-! ## The operations -/

section

variable {id : Nat} {β : Type}

section

variable (inside : id < g.efs.inodeBitmap.maximum)

include inside

theorem noRelock_readDiskInode {body : DiskInode → BlockProg β}
    (inner : (body (g.inodeAt disk id)).NoRelock [g.inodeBlock id] disk) :
    ((g.efs.inode id).readDiskInode body).NoRelock [] disk := by
  rw [efs_inode inside]
  exact noRelock_readAt not_mem_nil inner

theorem noRelock_modifyDiskInode {body : DiskInode → BlockProg (β × DiskInode)}
    (inner : (body (g.inodeAt disk id)).NoRelock [g.inodeBlock id] disk) :
    ((g.efs.inode id).modifyDiskInode body).NoRelock [] disk := by
  rw [efs_inode inside]
  exact noRelock_modifyAt not_mem_nil inner

/-- The search of `create` leaves the disk as it is. -/
theorem searched_returned {name : String} {found : Option (BitVec 32)}
    (returned :
      ((g.efs.inode id).modifyDiskInode fun rootInode => do
          BlockProg.assert rootInode.isDir
          let found ← Inode.findInodeId name rootInode
          return (found, rootInode)).onDisk [] disk =
        .ok (found, after)) :
    after = disk := by
  obtain ⟨stored, between, bodyEq, afterEq⟩ :=
    (onDisk_modifyDiskInode inside).mp returned
  obtain ⟨_, first, assertEq, bodyEq⟩ := onDisk_bind_eq_ok.mp bodyEq
  obtain ⟨_, rfl⟩ := onDisk_assert_eq_ok assertEq
  obtain ⟨result, second, findEq, bodyEq⟩ := onDisk_bind_eq_ok.mp bodyEq
  have same := (readOnly_findInodeId _ _).onDisk_eq findEq
  cases bodyEq
  rw [afterEq, same, inodeAt, store_load, update_eq_self]

end

section

variable (own : g.OwnBlocks (g.inodeAt disk id) disk)

include own

/-- The inode of the directory after `create` made a new inode. -/
theorem OwnBlocks.created
    {newId : Nat} (newInside : newId < g.efs.inodeBitmap.maximum)
    (agree :
      ∀ block, ¬ g.efs.inodeBitmap.Covers block → after block = disk block) :
    g.OwnBlocks
      (g.inodeAt (g.storeInode after newId (.initialized .file)) id)
      (g.storeInode after newId (.initialized .file)) := by
  have behind (block : Nat)
      (bound : g.efs.dataBitmap.startBlockId ≤ block) :
      g.storeInode after newId (.initialized .file) block = disk block := by
    have low := inodeBlock_lt newInside
    rw [storeInode_other _ (by omega)]
    apply agree
    intro covers
    have lower := (covers_lt covers 0).2
    omega
  rw [inodeAt_storeInode]
  by_cases same : id = newId
  · rw [same, update_self]
    exact .initialized _ _
  · have sameInode : g.inodeAt after id = g.inodeAt disk id := by
      apply inodeAt_congr
      apply agree
      intro covers
      exact Nat.lt_irrefl _ (covers_lt covers id).1
    rw [update_of_ne same, sameInode]
    exact own.congr behind

theorem OwnBlocks.noRelock_createFile
    (inside : id < g.efs.inodeBitmap.maximum) (name : String) :
    (Inode.createFile g.efs (g.efs.inode id) name).NoRelock [] disk := by
  have below := inodeBlock_lt inside
  rw [Inode.createFile]
  rcases Bitmap.onDisk_alloc
      (fun blockId (_ : g.efs.inodeBitmap.Covers blockId) =>
        BlockProg.canLock_nil blockId) disk with
    ⟨_, full⟩ | ⟨n, between, ran, allocated⟩
  · have stops :
        g.efs.allocInode.onDisk [] disk = .error .unwrapFailed := by
      rw [EasyFileSystem.allocInode, onDisk_bind_ok full]
      rfl
    refine NoRelock.bind ?_ fun _ _ returned => ?_
    · rw [NoRelock, stops]
      intro panics
      cases panics
    · rw [stops] at returned
      cases returned
  · have taken :
        g.efs.allocInode.onDisk [] disk = .ok (n % 2 ^ 32, between) := by
      rw [EasyFileSystem.allocInode, onDisk_bind_ok ran]
      rfl
    have newInside : n % 2 ^ 32 < g.efs.inodeBitmap.maximum :=
      Nat.lt_of_le_of_lt (Nat.mod_le _ _) allocated.inside
    refine NoRelock.bind (.of_ok taken) fun newId after takenEq => ?_
    rw [taken] at takenEq
    cases takenEq
    refine NoRelock.bind
      (noRelock_modifyDiskInode newInside (noRelock_pure _))
      fun _ later storedEq => ?_
    obtain ⟨stored, last, bodyEq, laterEq⟩ :=
      (onDisk_modifyDiskInode newInside).mp storedEq
    cases bodyEq
    have ownLater := own.created newInside allocated.frame
    rw [storeInode, ← laterEq] at ownLater
    refine NoRelock.bind
      (noRelock_modifyDiskInode inside
        (ownLater.noRelock_appendDirEntry below name _))
      fun _ _ _ => ?_
    exact noRelock_syncAll.bind fun _ _ _ => noRelock_pure _

/-- The operations of an inode never lock a block twice. -/
theorem OwnBlocks.noRelock_perform
    (inside : id < g.efs.inodeBitmap.maximum) (call : Call)
    (writes :
      ∀ offset buf, call = .writeAt offset buf →
        buf ≠ [] ∧ offset + buf.length ≤ 512 * 16540) :
    (call.perform g.efs (g.efs.inode id)).NoRelock [] disk := by
  have below := inodeBlock_lt inside
  cases call with
  | create name =>
    refine NoRelock.bind ?_ fun _ _ _ => noRelock_pure _
    refine NoRelock.bind (noRelock_modifyDiskInode inside ?_)
      fun found after returned => ?_
    · refine NoRelock.bind (noRelock_assert _) fun _ between assertEq => ?_
      obtain ⟨_, rfl⟩ := onDisk_assert_eq_ok assertEq
      exact (own.noRelock_findInodeId below name).bind fun _ _ _ =>
        noRelock_pure _
    · rw [searched_returned inside returned]
      split
      · exact noRelock_pure _
      · exact (own.noRelock_createFile inside name).bind fun _ _ _ =>
          noRelock_pure _
  | find name =>
    refine NoRelock.bind (noRelock_readDiskInode inside ?_)
      fun _ _ _ => noRelock_pure _
    exact (own.noRelock_findInodeId below name).bind fun _ _ _ =>
      noRelock_pure _
  | ls =>
    refine NoRelock.bind (noRelock_readDiskInode inside ?_)
      fun _ _ _ => noRelock_pure _
    exact own.noRelock_lsLoop below _
  | readAt offset buf =>
    refine NoRelock.bind (noRelock_readDiskInode inside ?_)
      fun _ _ _ => noRelock_pure _
    exact own.noRelock_readAt below offset buf
  | writeAt offset buf =>
    obtain ⟨nonempty, limit⟩ := writes offset buf rfl
    refine NoRelock.bind ?_ fun _ _ _ => noRelock_pure _
    refine NoRelock.bind (noRelock_modifyDiskInode inside ?_)
      fun _ _ _ => ?_
    · exact own.noRelock_growAndWrite below nonempty limit
    · exact noRelock_syncAll.bind fun _ _ _ => noRelock_pure _
  | clear =>
    refine NoRelock.bind ?_ fun _ _ _ => noRelock_pure _
    refine NoRelock.bind (noRelock_modifyDiskInode inside ?_)
      fun _ _ _ => noRelock_syncAll
    exact own.noRelock_clearDiskInode below

end

end

/-! ## States with the block ownership invariant -/

/-- Every used block has one owner, and no file is larger than its index. -/
structure OwnershipInvariant (g : Geometry) (disk : Disk) : Prop where
  owned : g.BlocksOwned disk
  sizes :
    ∀ id ∈ g.allocatedInodes disk,
      (g.inodeAt disk id).size.toNat ≤ (28 + 128 + 128 * 128) * 512

/-- A consistent file system has the invariant. -/
theorem Consistent.ownershipInvariant {nodes : List Node}
    (consistent : g.Consistent disk nodes) : g.OwnershipInvariant disk := by
  refine ⟨consistent.blocksOwned, ?_⟩
  intro id member
  rw [consistent.inodeBits.allocatedInodes_eq consistent.slots,
    mem_range] at member
  have rep :=
    consistent.holding.represented id nodes[id]
      (getElem?_eq_getElem member)
  rw [rep.size]
  exact rep.small

theorem OwnershipInvariant.ownBlocks (invariant : g.OwnershipInvariant disk)
    {id : Nat} (allocated : id ∈ g.allocatedInodes disk) :
    g.OwnBlocks (g.inodeAt disk id) disk := by
  have owned := invariant.owned
  have small : (g.inodeAt disk id).size.toNat ≤ 512 * 16540 :=
    invariant.sizes id allocated
  have limit : (g.inodeAt disk id).dataBlocks ≤ 16540 := by
    rw [DiskInode.dataBlocks, dataBlocksOf_eq small, dataCount]
    omega
  have perm :
      ((g.inodeAt disk id).ownedBlocks disk).Perm
        ((g.inodeAt disk id).blocks disk) :=
    ownedBlocks_perm limit
  have member (block : Nat) (owns : block ∈ (g.inodeAt disk id).blocks disk) :
      block ∈ g.allOwnedBlocks disk :=
    mem_flatMap.mpr ⟨id, allocated, perm.mem_iff.mpr owns⟩
  obtain ⟨_, _, _, total, enough, _⟩ := g.regions
  have inArea (block : Nat)
      (owns : block ∈ (g.inodeAt disk id).blocks disk) : g.InArea block := by
    obtain ⟨lower, upper⟩ := owned.onDevice block (member block owns)
    refine ⟨lower, ?_⟩
    rw [dataBitmap_maximum]
    omega
  refine ⟨small, ?_, inArea, ?_⟩
  · exact perm.nodup_iff.mp
      ((nodup_flatMap.mp owned.distinct).1 id allocated)
  · intro block owns
    obtain ⟨lower, upper⟩ := inArea block owns
    rw [dataBit, owned.used _ (by omega)]
    have split : g.dataStart + (block - g.dataStart) = block := by omega
    rw [split]
    exact member block owns

/--
In every state with the block ownership invariant, no call of an inode
operation pins more than three cached blocks, runs out of cached blocks or
locks a block that it has locked.
-/
theorem calls_stay_in_cache
    (g : Geometry) (state : CacheState) (coherent : state.Coherent [] [])
    (invariant : g.OwnershipInvariant state.view)
    (id : Nat) (allocated : id ∈ g.allocatedInodes state.view) (call : Call)
    (writes :
      ∀ offset buf, call = .writeAt offset buf →
        buf ≠ [] ∧ offset + buf.length ≤ (28 + 128 + 128 * 128) * 512) :
    (call.perform g.efs (g.efs.inode id)).StaysIn state 3 := by
  have inside : id < g.efs.inodeBitmap.maximum :=
    mem_range.mp (mem_filter.mp allocated).1
  exact (call.nests_perform g.efs (g.efs.inode id)).staysIn (by decide)
    coherent ((invariant.ownBlocks allocated).noRelock_perform inside call
      writes)

/-- A second block is added to a file. -/
theorem calls_stay_in_cache_small :
    ∃ outcome state,
      (newSession 1037 1 oneByte).run
            (CacheState.start ⟨fun _ => zeros⟩) =
          .ok (outcome, state) ∧
        (Call.perform small.efs (small.efs.inode 1)
          (.writeAt 600 [7])).StaysIn state 3 := by
  obtain ⟨state, nodes, returned, _, _, shows_, allocated⟩ := oneByte_returns
  obtain ⟨coherent, _⟩ := onDisk_of_run (CacheState.start_coherent _) returned
  refine ⟨_, state, returned,
    calls_stay_in_cache small state coherent
      shows_.consistent.ownershipInvariant 1 allocated (.writeAt 600 [7]) ?_⟩
  intro offset buf isWrite
  cases isWrite
  decide

end Geometry

end RCoreOS.EasyFs
