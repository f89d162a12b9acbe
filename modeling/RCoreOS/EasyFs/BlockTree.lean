import RCoreOS.EasyFs.BlockOwnership

/-!
# Building and clearing the block tree of an inode

`DiskInode::increase_size` puts the given blocks behind those that the inode
has, as data blocks and as index blocks, and `DiskInode::clear_size` lists
them all again.  The statements here are about the inode alone, whatever the
rest of the disk is used for.
-/

namespace RCoreOS.EasyFs

open List hiding Vector

open Lib.Bytes BlockProg DiskInode Slot

namespace DiskInode

variable {self grown : DiskInode} {disk after : Disk} {held : List Nat}
  {newSize : Nat} {newBlocks : List (BitVec 32)}

/-! ## Counting -/

variable {count : Nat}

/-- The number of blocks below the largest size does not wrap. -/
theorem blocksNumNeeded_eq
    (grows : self.size.toNat ≤ newSize) (limit : newSize ≤ 512 * 16540)
    (needed : self.blocksNumNeeded newSize = .ok count) :
    blockCount (dataCount self.size.toNat) + count =
      blockCount (dataCount newSize) := by
  rw [blocksNumNeeded_returns grows limit] at needed
  cases needed
  exact Nat.add_sub_cancel' (blockCount_dataCount_mono grows)

/-! ## What `increase_size` leaves -/

/--
The inode has grown: its blocks and the new ones are the blocks that it owns
now, each used once, the blocks that were found before are found again, and
only its index blocks were written.
-/
structure TreeBuilt (inode : DiskInode) (disk : Disk) (newSize : Nat)
    (newBlocks : List (BitVec 32)) (grown : DiskInode) (after : Disk) :
    Prop where
  size : grown.size.toNat = newSize
  used :
    (grown.ownedBlocks after).Perm
      (inode.ownedBlocks disk ++ newBlocks.map BitVec.toNat)
  distinct : (grown.ownedBlocks after).Nodup
  count : (grown.ownedBlocks after).length = totalBlocks newSize
  old :
    ∀ index, index < inode.dataBlocks →
      ∃ block,
        (inode.getBlockId index).onDisk [] disk = .ok (block, disk) ∧
          (grown.getBlockId index).onDisk [] after = .ok (block, after)
  new :
    ∀ index, inode.dataBlocks ≤ index → index < grown.dataBlocks →
      ∃ block ∈ newBlocks,
        (grown.getBlockId index).onDisk [] after = .ok (block, after)
  apart :
    ∀ first second block, first < grown.dataBlocks →
      second < grown.dataBlocks →
        (grown.getBlockId first).onDisk [] after = .ok (block, after) →
          (grown.getBlockId second).onDisk [] after = .ok (block, after) →
            first = second
  frame :
    ∀ block, block ∉ grown.indexBlocks after → after block = disk block

/-- `get_block_id` of a block of the file, by its tree. -/
theorem getBlockId_tree (limit : self.dataBlocks ≤ 16540) {index : Nat}
    (inside : index < self.dataBlocks) :
    ∃ block,
      (self.getBlockId index).onDisk [] disk = .ok (block, disk) ∧
        block.toNat = self.treeOf disk (.data index) :=
  onDisk_getBlockId inside limit
    fun slot _ _ => canLock_nil (self.treeOf disk slot)

/-- The index slots are the slots of index blocks. -/
theorem mem_indexSlots {slot : Slot} (used : slot ∈ slots count)
    (isIndex : slot.isIndex = true) : slot ∈ indexSlots count := by
  have member := (slotsByKind_perm count).mem_iff.mpr used
  rcases mem_append.mp member with inData | inIndex
  · obtain ⟨index, _, rfl⟩ := mem_map.mp inData
    cases isIndex
  · exact inIndex

/-- The blocks of an inode that has grown, once they are all in place. -/
theorem Grown.treeBuilt
    (facts :
      self.Grown disk newSize (self.blocks disk ++ ids newBlocks) grown after)
    (grows : self.size.toNat ≤ newSize) (limit : newSize ≤ 512 * 16540)
    (distinct : (self.blocks disk ++ ids newBlocks).Nodup)
    (total :
      (self.blocks disk ++ ids newBlocks).length =
        blockCount (dataCount newSize)) :
    self.TreeBuilt disk newSize newBlocks grown after := by
  have small : newSize < 2 ^ 32 := by omega
  have oldBlocks : self.dataBlocks = dataCount self.size.toNat :=
    dataBlocksOf_eq (Nat.le_trans grows limit)
  have newDataBlocks : grown.dataBlocks = dataCount newSize :=
    (dataBlocks_of_size small facts.size).trans (dataBlocksOf_eq limit)
  have newLimit : grown.dataBlocks ≤ 16540 := by
    rw [newDataBlocks, dataCount]
    omega
  have more : self.dataBlocks ≤ grown.dataBlocks := by
    rw [oldBlocks, newDataBlocks, dataCount, dataCount]
    omega
  have trees :
      (slots grown.dataBlocks).map (grown.treeOf after) =
        (slots self.dataBlocks).map (self.treeOf disk) ++ ids newBlocks :=
    facts.blocks
  have sameTree := map_eq_of_initial (slots_initial more) trees
  have nodup : ((slots grown.dataBlocks).map (grown.treeOf after)).Nodup :=
    trees ▸ distinct
  have perm : (grown.ownedBlocks after).Perm (grown.blocks after) :=
    ownedBlocks_perm newLimit
  have oldPerm : (self.ownedBlocks disk).Perm (self.blocks disk) :=
    ownedBlocks_perm (Nat.le_trans more newLimit)
  constructor
  · rw [facts.size, BitVec.toNat_ofNat, Nat.mod_eq_of_lt small]
  · rw [facts.blocks] at perm
    exact perm.trans (oldPerm.symm.append_right _)
  · exact perm.nodup_iff.mpr nodup
  · rw [perm.length_eq, facts.blocks, total, totalBlocks_eq limit]
  · intro index inside
    obtain ⟨block, found, blockEq⟩ :=
      getBlockId_tree (Nat.le_trans more newLimit) inside
    obtain ⟨newBlock, newFound, newEq⟩ :=
      getBlockId_tree newLimit (Nat.lt_of_lt_of_le inside more)
    have same : newBlock = block := by
      apply BitVec.eq_of_toNat_eq
      rw [newEq, blockEq]
      exact sameTree _ (data_mem_slots.mpr inside)
    rw [same] at newFound
    exact ⟨block, found, newFound⟩
  · intro index behind inside
    obtain ⟨block, found, blockEq⟩ := getBlockId_tree newLimit inside
    refine ⟨block, ?_, found⟩
    have member :
        grown.treeOf after (.data index) ∈
          (slots self.dataBlocks).map (self.treeOf disk) ++ ids newBlocks :=
      trees ▸ mem_map_of_mem (data_mem_slots.mpr inside)
    rcases mem_append.mp member with inOld | inNew
    · -- an old slot with this block would be the slot itself
      obtain ⟨slot, used, slotEq⟩ := mem_map.mp inOld
      rw [← sameTree slot used] at slotEq
      have same : slot = .data index :=
        inj_on_of_nodup_map nodup ((slots_initial more).subset used)
          (data_mem_slots.mpr inside) slotEq
      rw [same] at used
      exact absurd (data_mem_slots.mp used) (Nat.not_lt.mpr behind)
    · obtain ⟨given, isGiven, givenEq⟩ := mem_map.mp inNew
      rw [← blockEq] at givenEq
      rw [← BitVec.eq_of_toNat_eq givenEq]
      exact isGiven
  · intro first second block firstInside secondInside firstFound secondFound
    obtain ⟨firstBlock, firstAgain, firstEq⟩ :=
      getBlockId_tree newLimit firstInside
    obtain ⟨secondBlock, secondAgain, secondEq⟩ :=
      getBlockId_tree newLimit secondInside
    rw [firstFound] at firstAgain
    rw [secondFound] at secondAgain
    cases firstAgain
    cases secondAgain
    have same : Slot.data first = .data second :=
      inj_on_of_nodup_map nodup (data_mem_slots.mpr firstInside)
        (data_mem_slots.mpr secondInside) (firstEq.symm.trans secondEq)
    cases same
    rfl
  · intro block notIndex
    apply facts.frame
    rintro slot used isIndex rfl
    apply notIndex
    rw [indexBlocks_eq]
    exact mem_map_of_mem (mem_indexSlots used isIndex)

/-- `increase_size` with the blocks that it needs. -/
theorem onDisk_increaseSize_builds
    (grows : self.size.toNat ≤ newSize) (limit : newSize ≤ 512 * 16540)
    (needed : self.blocksNumNeeded newSize = .ok newBlocks.length)
    (distinct : (self.ownedBlocks disk ++ ids newBlocks).Nodup)
    (unlocked :
      ∀ block ∈ self.ownedBlocks disk ++ ids newBlocks, block ∉ held)
    (room : held.length < 15) :
    ∃ grown after,
      (self.increaseSize newSize newBlocks).onDisk held disk =
          .ok (grown, after) ∧
        self.Grown disk newSize (self.blocks disk ++ ids newBlocks) grown
          after ∧
        self.TreeBuilt disk newSize newBlocks grown after := by
  have oldBlocks : self.dataBlocks = dataCount self.size.toNat :=
    dataBlocksOf_eq (Nat.le_trans grows limit)
  have oldLimit : self.dataBlocks ≤ 16540 := by
    rw [oldBlocks, dataCount]
    omega
  have perm :
      (self.ownedBlocks disk ++ ids newBlocks).Perm
        (self.blocks disk ++ ids newBlocks) :=
    (ownedBlocks_perm oldLimit).append_right _
  have total :
      (self.blocks disk ++ ids newBlocks).length =
        blockCount (dataCount newSize) := by
    rw [← blocksNumNeeded_eq grows limit needed, length_append,
      length_map, blocks, length_map, length_slots, oldBlocks]
  have newDistinct := perm.nodup_iff.mp distinct
  have small : newSize < 2 ^ 32 := by omega
  obtain ⟨grown, after, returned, facts⟩ :=
    onDisk_increaseSize small
      (by rw [dataBlocksOf_eq limit, oldBlocks, dataCount, dataCount]; omega)
      (by rw [dataBlocksOf_eq limit, dataCount]; omega)
      (by rw [dataBlocksOf_eq limit]; exact total) newDistinct
      (fun block member => unlocked block (perm.mem_iff.mpr member)) room
  exact ⟨grown, after, returned, facts,
    facts.treeBuilt grows limit newDistinct total⟩

end DiskInode

/-! ## On the block cache -/

/-- A run on the disk that the cache shows, while the callers hold blocks. -/
theorem BlockProg.run_of_onDisk_held {α : Type} {program : BlockProg α}
    {state : CacheState} {held : List Entry}
    (coherent : state.Coherent held held) (distinct : held.Nodup)
    {value : α} {disk : Disk}
    (returned :
      program.onDisk (held.map Prod.fst) state.view = .ok (value, disk)) :
    ∃ after, program.run state = .ok (value, after) ∧ after.view = disk := by
  have agrees := run_agrees program coherent distinct
  rw [returned] at agrees
  generalize program.run state = onCache at agrees
  cases agrees with
  | @returned _ after _ _ => exact ⟨after, rfl, rfl⟩

/--
`increase_size` on the block cache, while the callers hold blocks that are not
those of the inode, with exactly as many new blocks as the new size needs.
-/
theorem increase_size_builds_block_tree
    (self : DiskInode) (state : CacheState) (held : List Entry)
    (coherent : state.Coherent held held) (heldNodup : held.Nodup)
    (newSize : Nat) (newBlocks : List (BitVec 32))
    (grows : self.size.toNat ≤ newSize)
    (limit : newSize ≤ (28 + 128 + 128 * 128) * 512)
    (needed : self.blocksNumNeeded newSize = .ok newBlocks.length)
    (distinct :
      (self.ownedBlocks state.view ++ newBlocks.map BitVec.toNat).Nodup)
    (unlocked :
      ∀ block ∈ self.ownedBlocks state.view ++ newBlocks.map BitVec.toNat,
        block ∉ held.map Prod.fst)
    (room : held.length < 15) :
    ∃ grown after,
      (self.increaseSize newSize newBlocks).run state = .ok (grown, after) ∧
        self.TreeBuilt state.view newSize newBlocks grown after.view := by
  obtain ⟨grown, disk, returned, _, built⟩ :=
    onDisk_increaseSize_builds grows (by omega) needed distinct
      unlocked (by rw [length_map]; exact room)
  obtain ⟨after, ran, rfl⟩ := run_of_onDisk_held coherent heldNodup returned
  exact ⟨grown, after, ran, built⟩

/-- A new file gets two blocks. -/
theorem increase_size_builds_block_tree_first :
    ∃ grown after,
      ((DiskInode.initialized .file).increaseSize 600 [7, 8]).run
            (CacheState.start ⟨fun _ => zeros⟩) =
          .ok (grown, after) ∧
        (DiskInode.initialized .file).TreeBuilt
          (CacheState.start ⟨fun _ => zeros⟩).view 600 [7, 8] grown
          after.view :=
  increase_size_builds_block_tree _ _ [] (CacheState.start_coherent _)
    nodup_nil 600 [7, 8] (by decide) (by decide) rfl (by decide)
    nofun (by decide)

/-! ## Inodes that were grown from an initialized one -/

namespace DiskInode

variable {self grown : DiskInode} {disk after : Disk} {held : List Nat}
  {newSize : Nat} {newBlocks : List (BitVec 32)}

/-- The fields behind the blocks in use are zero, as in a new inode. -/
structure Trimmed (inode : DiskInode) : Prop where
  direct : ∀ index, inode.dataBlocks ≤ index → entry inode.direct index = 0
  indirect1 : inode.dataBlocks ≤ 28 → inode.indirect1 = 0
  indirect2 : inode.dataBlocks ≤ 156 → inode.indirect2 = 0

theorem trimmed_initialized (type_ : DiskInodeType) :
    (initialized type_).Trimmed where
  direct index _ := by
    rw [entry]
    split
    · next inside =>
        show ((Vector.replicate 28 (0 : BitVec 32))[index]).toNat = 0
        rw [Vector.getElem_replicate]
        rfl
    · rfl
  indirect1 _ := rfl
  indirect2 _ := rfl

variable {count current total : Nat} {v : List (BitVec 32)}
  {cleared : DiskInode}

/-- The loops over an array write no entry behind the total. -/
theorem fill_beyond {reached : Nat}
    {words words' : Vector (BitVec 32) count} {rest : List (BitVec 32)}
    (filled : fill words current total newBlocks = .ok (words', reached, rest))
    {index : Nat} (beyond : total ≤ index) :
    entry words' index = entry words index := by
  induction left : min total count - current
    generalizing words current newBlocks with
  | zero =>
    rw [fill, dif_neg (by omega)] at filled
    cases filled
    rfl
  | succ left ih =>
    rw [fill, dif_pos (by omega)] at filled
    cases newBlocks with
    | nil => cases filled
    | cons block newBlocks =>
      have inside : current < count := by omega
      have later :
          entry words' index = entry (words.set current block) index :=
        ih filled (by omega)
      rw [later, entry_set words inside, if_neg (by omega)]

/-- The phases from `indirect1` on change two fields at most. -/
theorem increaseIndirect1_fields
    (returned :
      (self.increaseIndirect1 current total newBlocks).onDisk held disk =
        .ok (grown, after)) :
    grown.size = self.size ∧ grown.direct = self.direct ∧
      (total ≤ 128 → grown.indirect2 = self.indirect2) := by
  rw [increaseIndirect1] at returned
  obtain ⟨⟨reached, rest⟩, between, _, returned⟩ :=
    onDisk_bind_eq_ok.mp returned
  dsimp only at returned
  split at returned
  · next most =>
      obtain ⟨⟨indirect2, rest⟩, between, _, returned⟩ :=
        onDisk_bind_eq_ok.mp returned
      rw [increaseIndirect2] at returned
      obtain ⟨_, between, _, returned⟩ := onDisk_bind_eq_ok.mp returned
      cases returned
      exact ⟨rfl, rfl, fun within => absurd within (by omega)⟩
  · cases returned
    exact ⟨rfl, rfl, fun _ => rfl⟩

/-- `increase_size` leaves the fields behind the new blocks as they are. -/
theorem increaseSize_beyond
    (returned :
      (self.increaseSize newSize newBlocks).onDisk held disk =
        .ok (grown, after)) :
    grown.size = BitVec.ofNat 32 newSize ∧
      (∀ index, grown.dataBlocks ≤ index →
        entry grown.direct index = entry self.direct index) ∧
      (grown.dataBlocks ≤ 28 → grown.indirect1 = self.indirect1) ∧
      (grown.dataBlocks ≤ 156 → grown.indirect2 = self.indirect2) := by
  rw [increaseSize] at returned
  dsimp only at returned
  generalize totalEq :
    dataBlocks { self with size := BitVec.ofNat 32 newSize } = total
    at returned
  obtain ⟨⟨direct, current, rest⟩, between, filled, returned⟩ :=
    onDisk_bind_eq_ok.mp returned
  replace filled := (onDisk_ofExcept_eq_ok filled).1
  dsimp only at returned
  split at returned
  · next more =>
      obtain ⟨⟨indirect1, rest⟩, between, _, returned⟩ :=
        onDisk_bind_eq_ok.mp returned
      obtain ⟨size, directEq, indirect2⟩ := increaseIndirect1_fields returned
      have dataBlocksEq : grown.dataBlocks = total := by
        rw [← totalEq, dataBlocks, dataBlocks, size]
      rw [dataBlocksEq]
      refine ⟨size, ?_, fun within => absurd within (by omega), ?_⟩
      · intro index beyond
        rw [directEq]
        exact fill_beyond filled beyond
      · exact fun within => indirect2 (by omega)
  · cases returned
    have dataBlocksEq :
        dataBlocks
            { self with size := BitVec.ofNat 32 newSize, direct := direct } =
          total :=
      totalEq
    rw [dataBlocksEq]
    exact ⟨rfl, fun index beyond => fill_beyond filled beyond,
      fun _ => rfl, fun _ => rfl⟩

theorem Trimmed.increase (trimmed : self.Trimmed)
    (returned :
      (self.increaseSize newSize newBlocks).onDisk held disk =
        .ok (grown, after))
    (more : self.dataBlocks ≤ grown.dataBlocks) : grown.Trimmed := by
  obtain ⟨_, direct, indirect1, indirect2⟩ := increaseSize_beyond returned
  constructor
  · intro index beyond
    rw [direct index beyond, trimmed.direct index (Nat.le_trans more beyond)]
  · intro within
    rw [indirect1 within, trimmed.indirect1 (Nat.le_trans more within)]
  · intro within
    rw [indirect2 within, trimmed.indirect2 (Nat.le_trans more within)]

/-- The fields that `clear_size` leaves. -/
theorem clearIndirect1_fields {listed : List (BitVec 32)}
    (returned :
      (self.clearIndirect1 count v).onDisk held disk =
        .ok ((listed, cleared), after)) :
    cleared =
      { self with
        indirect1 := 0
        indirect2 := if count > 128 then 0 else self.indirect2 } := by
  rw [clearIndirect1] at returned
  obtain ⟨v, between, _, returned⟩ := onDisk_bind_eq_ok.mp returned
  dsimp only at returned
  split at returned
  · next most =>
      rw [if_pos most]
      rw [clearIndirect2] at returned
      obtain ⟨_, _, _, returned⟩ := onDisk_bind_eq_ok.mp returned
      obtain ⟨_, _, _, returned⟩ := onDisk_bind_eq_ok.mp returned
      cases returned
      rfl
  · next few =>
      rw [if_neg few]
      cases returned
      rfl

/-- `clear_size` makes a trimmed inode a new one. -/
theorem Trimmed.clear (trimmed : self.Trimmed)
    (returned :
      self.clearSize.onDisk held disk = .ok ((v, cleared), after)) :
    cleared = initialized self.type_ := by
  have zeroed :
      (Vector.ofFn fun index : Fin 28 =>
          if index < min self.dataBlocks 28 then (0 : BitVec 32)
          else self.direct[index.val]) =
        Vector.replicate 28 0 := by
    apply Vector.ext
    intro index inside
    rw [Vector.getElem_ofFn, Vector.getElem_replicate]
    dsimp only
    split
    · rfl
    · apply BitVec.eq_of_toNat_eq
      rw [← entry_eq self.direct inside]
      exact trimmed.direct index (by omega)
  rw [clearSize] at returned
  dsimp only at returned
  rw [zeroed] at returned
  split at returned
  · next more =>
      rw [clearIndirect1_fields returned, initialized]
      congr 1
      split
      · rfl
      · exact trimmed.indirect2 (by omega)
  · next few =>
      cases returned
      rw [initialized, trimmed.indirect1 (by omega),
        trimmed.indirect2 (by omega)]

end DiskInode

namespace Geometry

variable {g : Geometry} {inode grown : DiskInode} {disk after : Disk}
  {id : Nat}

/--
The inodes that `increase_size` makes of an initialized one.  Between two
calls the disk may change, except for the index blocks of the inode and for
the bits of its blocks.
-/
inductive Built (g : Geometry) : DiskInode → Disk → Prop where
  | initialized (type_ : DiskInodeType) (disk : Disk) :
      Built g (DiskInode.initialized type_) disk
  | increase
      {inode grown : DiskInode} {disk after : Disk} {held : List Nat}
      {newSize : Nat} {newBlocks : List (BitVec 32)}
      (built : Built g inode disk)
      (grows : inode.size.toNat ≤ newSize)
      (limit : newSize ≤ (28 + 128 + 128 * 128) * 512)
      (needed : inode.blocksNumNeeded newSize = .ok newBlocks.length)
      (distinct : (newBlocks.map BitVec.toNat).Nodup)
      (fresh :
        ∀ block ∈ newBlocks.map BitVec.toNat,
          g.InArea block ∧ g.dataBit disk block = true ∧
            block ∉ inode.ownedBlocks disk)
      (unlocked : ∀ block ∈ held, ¬ g.InArea block)
      (room : held.length < 15)
      (returned :
        (inode.increaseSize newSize newBlocks).onDisk held disk =
          .ok (grown, after)) :
      Built g grown after
  | others
      {inode : DiskInode} {disk after : Disk}
      (built : Built g inode disk)
      (kept : ∀ block ∈ inode.indexBlocks disk, after block = disk block)
      (allocated :
        ∀ block ∈ inode.ownedBlocks disk, g.dataBit after block = true) :
      Built g inode after

/-- What is known of an inode that was built. -/
structure Rooted (g : Geometry) (inode : DiskInode) (disk : Disk) :
    Prop where
  limit : inode.size.toNat ≤ 512 * 16540
  trimmed : inode.Trimmed
  distinct : (inode.ownedBlocks disk).Nodup
  inArea : ∀ block ∈ inode.ownedBlocks disk, g.InArea block
  allocated : ∀ block ∈ inode.ownedBlocks disk, g.dataBit disk block = true

theorem Rooted.largest (rooted : g.Rooted inode disk) :
    inode.dataBlocks ≤ 16540 := by
  have limit := rooted.limit
  rw [DiskInode.dataBlocks, dataBlocksOf_eq limit, dataCount]
  omega

theorem Rooted.perm (rooted : g.Rooted inode disk) :
    (inode.ownedBlocks disk).Perm (inode.blocks disk) :=
  ownedBlocks_perm rooted.largest

theorem ownedBlocks_initialized (type_ : DiskInodeType) (disk : Disk) :
    (DiskInode.initialized type_).ownedBlocks disk = [] := by
  have empty : (DiskInode.initialized type_).dataBlocks = 0 :=
    dataBlocksOf_eq (Nat.zero_le _)
  rw [ownedBlocks_eq (by rw [empty]; decide), empty]
  rfl

theorem rooted_initialized (type_ : DiskInodeType) (disk : Disk) :
    g.Rooted (DiskInode.initialized type_) disk := by
  have owned := ownedBlocks_initialized type_ disk
  constructor
  · exact Nat.zero_le _
  · exact trimmed_initialized type_
  · rw [owned]
    exact nodup_nil
  · rw [owned]
    intro _ member
    cases member
  · rw [owned]
    intro _ member
    cases member

variable {held : List Nat}

theorem Rooted.increase {newSize : Nat}
    {newBlocks : List (BitVec 32)} (rooted : g.Rooted inode disk)
    (grows : inode.size.toNat ≤ newSize) (limit : newSize ≤ 512 * 16540)
    (needed : inode.blocksNumNeeded newSize = .ok newBlocks.length)
    (distinct : (newBlocks.map BitVec.toNat).Nodup)
    (fresh :
      ∀ block ∈ newBlocks.map BitVec.toNat,
        g.InArea block ∧ g.dataBit disk block = true ∧
          block ∉ inode.ownedBlocks disk)
    (unlocked : ∀ block ∈ held, ¬ g.InArea block) (room : held.length < 15)
    (returned :
      (inode.increaseSize newSize newBlocks).onDisk held disk =
        .ok (grown, after)) :
    g.Rooted grown after := by
  have together :
      ∀ block ∈ inode.ownedBlocks disk ++ newBlocks.map BitVec.toNat,
        g.InArea block ∧ g.dataBit disk block = true := by
    intro block member
    rcases mem_append.mp member with old | new
    · exact ⟨rooted.inArea block old, rooted.allocated block old⟩
    · exact ⟨(fresh block new).1, (fresh block new).2.1⟩
  obtain ⟨_, _, again, facts, built⟩ :=
    onDisk_increaseSize_builds grows limit needed
      (nodup_append.mpr
        ⟨rooted.distinct, distinct, fun left old right new equal =>
          (fresh right new).2.2 (equal ▸ old)⟩)
      (fun block member locked =>
        unlocked block locked (together block member).1)
      room
  rw [returned] at again
  cases again
  have owned (block : Nat) (owns : block ∈ grown.ownedBlocks after) :=
    together block (built.used.mem_iff.mp owns)
  have newLimit : grown.size.toNat ≤ 512 * 16540 := built.size ▸ limit
  have newLargest : grown.dataBlocks ≤ 16540 := by
    rw [DiskInode.dataBlocks, dataBlocksOf_eq newLimit, dataCount]
    omega
  have bitmap (block : Nat) (covers : g.efs.dataBitmap.Covers block) :
      after block = disk block := by
    apply built.frame
    intro isIndex
    apply (owned block _).1.not_covers covers
    rw [ownedBlocks]
    exact mem_append_right _ isIndex
  have more : inode.dataBlocks ≤ grown.dataBlocks := by
    rw [DiskInode.dataBlocks, DiskInode.dataBlocks, built.size,
      dataBlocksOf_eq limit, dataBlocksOf_eq rooted.limit, dataCount,
      dataCount]
    omega
  constructor
  · exact newLimit
  · exact rooted.trimmed.increase returned more
  · exact built.distinct
  · exact fun block owns => (owned block owns).1
  · intro block owns
    rw [dataBit_congr bitmap (owned block owns).1]
    exact (owned block owns).2

/-- An inode is read off its index blocks. -/
theorem ownedBlocks_congr (largest : inode.dataBlocks ≤ 16540)
    (kept : ∀ block ∈ inode.indexBlocks disk, after block = disk block) :
    inode.ownedBlocks after = inode.ownedBlocks disk := by
  have keptSlot (slot : Slot) (used : slot ∈ slots inode.dataBlocks)
      (isIndex : slot.isIndex = true) :
      after (inode.treeOf disk slot) = disk (inode.treeOf disk slot) := by
    apply kept
    rw [indexBlocks_eq]
    exact mem_map_of_mem (mem_indexSlots used isIndex)
  rw [ownedBlocks_eq largest, ownedBlocks_eq largest]
  apply map_congr_left
  intro slot listed
  refine treeOf_congr (fun _ _ => rfl) (fun _ => rfl)
    (fun more => keptSlot .indirect1 (indirect1_mem_slots.mpr more) rfl)
    (fun _ => rfl)
    (fun more => keptSlot .indirect2 (indirect2_mem_slots.mpr more) rfl)
    (fun sub more => keptSlot (.sub sub) (sub_mem_slots.mpr more) rfl) slot ?_
  exact (slotsByKind_perm _).mem_iff.mp listed

theorem Rooted.others (rooted : g.Rooted inode disk)
    (kept : ∀ block ∈ inode.indexBlocks disk, after block = disk block)
    (allocated :
      ∀ block ∈ inode.ownedBlocks disk, g.dataBit after block = true) :
    g.Rooted inode after := by
  have same := ownedBlocks_congr rooted.largest kept
  constructor
  · exact rooted.limit
  · exact rooted.trimmed
  · rw [same]
    exact rooted.distinct
  · rw [same]
    exact rooted.inArea
  · rw [same]
    exact allocated

theorem Built.rooted (built : g.Built inode disk) : g.Rooted inode disk := by
  induction built with
  | initialized type_ disk => exact rooted_initialized type_ disk
  | increase _ grows limit needed distinct fresh unlocked room returned ih =>
    exact ih.increase grows (by omega) needed distinct fresh unlocked room
      returned
  | others _ kept allocated ih => exact ih.others kept allocated

/-! ## Clearing -/

/-- `clear_size` lists the blocks of the inode and leaves a new one. -/
theorem Rooted.onDisk_clearSize (rooted : g.Rooted inode disk)
    (unlocked : ∀ block ∈ held, ¬ g.InArea block) (room : held.length < 15) :
    ∃ v,
      inode.clearSize.onDisk held disk =
          .ok ((v, DiskInode.initialized inode.type_), disk) ∧
        (v.map BitVec.toNat).Perm (inode.ownedBlocks disk) ∧
        v.length = DiskInode.totalBlocks inode.size.toNat := by
  have perm := rooted.perm
  obtain ⟨v, cleared, ran, blocksEq, _, _⟩ :=
    DiskInode.onDisk_clearSize rooted.largest
      (perm.nodup_iff.mp rooted.distinct)
      (fun block owns locked =>
        unlocked block locked (rooted.inArea block (perm.mem_iff.mpr owns)))
      room
  rw [rooted.trimmed.clear ran] at ran
  refine ⟨v, ran, ?_, ?_⟩
  · rw [← DiskInode.ids, blocksEq]
    exact perm.symm
  · have length := congrArg List.length blocksEq
    rw [length_map, DiskInode.blocks, length_map, length_slots,
      DiskInode.dataBlocks, dataBlocksOf_eq rooted.limit] at length
    rw [length, totalBlocks_eq rooted.limit]

/-- What `Inode::clear` of an inode with the given blocks leaves. -/
structure Emptied
    (g : Geometry) (id : Nat) (inode : DiskInode) (disk after : Disk) :
    Prop where
  stored : g.inodeAt after id = DiskInode.initialized inode.type_
  others :
    ∀ other, other ≠ id → other < g.efs.inodeBitmap.maximum →
      g.inodeAt after other = g.inodeAt disk other
  bits :
    ∀ n, n < g.efs.dataBitmap.maximum →
      g.efs.dataBitmap.bit after n =
        (g.efs.dataBitmap.bit disk n &&
          decide (g.dataStart + n ∉ inode.ownedBlocks disk))
  zero : ∀ block ∈ inode.ownedBlocks disk, after block = zeros
  frame :
    ∀ block, block ∉ inode.ownedBlocks disk →
      ¬ g.efs.dataBitmap.Covers block → block ≠ g.inodeBlock id →
        after block = disk block

/-- `Inode::clear` of an inode on the disk. -/
theorem Rooted.onDisk_clear (rooted : g.Rooted inode disk)
    (inside : id < g.efs.inodeBitmap.maximum)
    (stored : g.inodeAt disk id = inode) :
    ∃ after,
      (Inode.clear g.efs (g.efs.inode id)).onDisk [] disk = .ok ((), after) ∧
        g.Emptied id inode disk after := by
  have below := inodeBlock_lt inside
  have unlocked : ∀ block ∈ [g.inodeBlock id], ¬ g.InArea block := by
    intro block locked inArea
    rw [mem_singleton.mp locked] at inArea
    exact absurd inArea.behind (Nat.not_le.mpr below)
  obtain ⟨v, ran, perm, length⟩ :=
    rooted.onDisk_clearSize unlocked (Nat.lt_of_sub_eq_succ rfl)
  obtain ⟨between, ranBack, given⟩ :=
    onDisk_deallocBlocks below v disk (perm.nodup_iff.mpr rooted.distinct)
      (fun block member => rooted.inArea block (perm.mem_iff.mp member))
      (fun block member => rooted.allocated block (perm.mem_iff.mp member))
  have ranClosure :
      (Inode.clearDiskInode g.efs (g.inodeAt disk id)).onDisk
          [g.inodeBlock id] disk =
        .ok (((), DiskInode.initialized inode.type_), between) := by
    rw [stored, Inode.clearDiskInode, onDisk_bind_ok ran]
    dsimp only
    rw [beq_iff_eq.mpr length]
    show (Inode.deallocBlocks g.efs v >>= _).onDisk [g.inodeBlock id] disk = _
    rw [onDisk_bind_ok ranBack]
    rfl
  have frame (block : Nat) (before : block < g.efs.dataBitmap.startBlockId) :
      between block = disk block := by
    apply given.frame
    · intro member
      have behind := (rooted.inArea block (perm.mem_iff.mp member)).behind
      omega
    · rintro ⟨behind, _⟩
      omega
  refine
    ⟨g.storeInode between id (DiskInode.initialized inode.type_), ?_, ?_⟩
  · rw [Inode.clear,
      onDisk_bind_ok
        (modifyDiskInode_returns inside ranClosure frame)]
    rfl
  · constructor
    · rw [inodeAt_storeInode, Function.update_self]
    · intro other different otherInside
      rw [inodeAt_storeInode, Function.update_of_ne different]
      exact inodeAt_congr (frame _ (inodeBlock_lt otherInside))
    · intro n within
      have bitEq := given.bits _ (inArea_add within)
      rw [dataBit, dataBit, Nat.add_sub_cancel_left] at bitEq
      rw [Bitmap.bit_congr
        (fun _ covers => dataBitmap_storeInode inside _ covers) within, bitEq]
      congr 2
      exact propext (not_congr perm.mem_iff)
    · intro block owns
      have behind := (rooted.inArea block owns).behind
      rw [storeInode_other _ (by omega)]
      exact given.zero block (perm.mem_iff.mpr owns)
    · intro block notOwned notCovered different
      rw [storeInode_other _ different]
      exact given.frame block
        (fun member => notOwned (perm.mem_iff.mp member)) notCovered

end Geometry

/--
`clear_size` and `Inode::clear` of every inode that was grown from an
initialized one with freshly allocated blocks.
-/
theorem clear_frees_owned_blocks
    (g : Geometry) (inode : DiskInode) (state : CacheState)
    (coherent : state.Coherent [] []) (built : g.Built inode state.view) :
    (∃ v cleared after,
      inode.clearSize.run state = .ok ((v, cleared), after) ∧
        after.view = state.view ∧
        (v.map BitVec.toNat).Nodup ∧
        v.length = DiskInode.totalBlocks inode.size.toNat ∧
        (∀ block,
          block ∈ v.map BitVec.toNat ↔ block ∈ inode.ownedBlocks state.view) ∧
        cleared.size = 0 ∧ cleared.direct = Vector.replicate 28 0 ∧
        cleared.indirect1 = 0 ∧ cleared.indirect2 = 0) ∧
      ∀ id, id < g.efs.inodeBitmap.maximum →
        g.inodeAt state.view id = inode →
          ∃ after,
            (Inode.clear g.efs (g.efs.inode id)).run state = .ok ((), after) ∧
              g.Emptied id inode state.view after.view := by
  have rooted := built.rooted
  constructor
  · have unlocked : ∀ block ∈ ([] : List Nat), ¬ g.InArea block := nofun
    obtain ⟨v, onDisk, perm, length⟩ :=
      rooted.onDisk_clearSize unlocked (Nat.lt_of_sub_eq_succ rfl)
    obtain ⟨after, ran, shown⟩ := run_of_onDisk coherent onDisk
    exact ⟨v, _, after, ran, shown, perm.nodup_iff.mpr rooted.distinct,
      length, fun block => perm.mem_iff, rfl, rfl, rfl, rfl⟩
  · intro id inside stored
    obtain ⟨disk, onDisk, emptied⟩ := rooted.onDisk_clear inside stored
    obtain ⟨after, ran, rfl⟩ := run_of_onDisk coherent onDisk
    exact ⟨after, ran, emptied⟩

/-- A new file system of ten blocks, and a file with one of them. -/
theorem clear_frees_owned_blocks_single :
    ∃ (inode : DiskInode) (disk : Disk),
      (inode.ownedBlocks disk).length = 1 ∧
        ∃ v cleared after,
          inode.clearSize.run (CacheState.start ⟨disk⟩) =
              .ok ((v, cleared), after) ∧
            v.length = 1 ∧ cleared.size = 0 := by
  obtain ⟨fresh, _, isFresh⟩ := Geometry.small.onDisk_createEfs fun _ => zeros
  have enough :
      Geometry.small.efs.dataBitmap.used fresh + 1 ≤
        Geometry.small.efs.dataBitmap.maximum := by
    rw [isFresh.used_eq]
    decide
  have below : 0 < Geometry.small.efs.dataBitmap.startBlockId := by decide
  obtain ⟨v, allocated, _, length, many⟩ :=
    Geometry.onDisk_allocBlocks below 1 fresh enough
  have needed :
      (DiskInode.initialized .file).blocksNumNeeded 1 = .ok v.length := by
    rw [length]
    rfl
  have owned := Geometry.ownedBlocks_initialized .file allocated
  obtain ⟨grown, disk, returned, _, tree⟩ :=
    onDisk_increaseSize_builds
      (Nat.zero_le 1) (by decide : 1 ≤ 512 * 16540) needed
      (by rw [owned]; exact many.distinct) (fun _ _ => not_mem_nil)
      (Nat.lt_of_sub_eq_succ rfl)
  have built : Geometry.small.Built grown disk :=
    .increase (.initialized .file allocated) (Nat.zero_le 1) (by decide)
      needed many.distinct
      (fun block member => by
        refine ⟨many.inArea block member, ?_, ?_⟩
        · rw [many.bits block (many.inArea block member),
            decide_eq_true member, Bool.or_true]
        · rw [owned]
          exact not_mem_nil)
      (fun _ locked => absurd locked not_mem_nil)
      (Nat.lt_of_sub_eq_succ rfl) returned
  obtain ⟨⟨listed, cleared, after, ran, _, _, total, _, size, _⟩, _⟩ :=
    clear_frees_owned_blocks Geometry.small grown (CacheState.start ⟨disk⟩)
      (CacheState.start_coherent _)
      (by rw [CacheState.view_start]; exact built)
  have one : DiskInode.totalBlocks 1 = 1 := rfl
  rw [tree.size] at total
  exact ⟨grown, disk, tree.count.trans one, listed, cleared, after, ran,
    total.trans one, size⟩

end RCoreOS.EasyFs
