import RCoreOS.EasyFs.IncreaseSize

/-!
# Clearing a file

`clear_size` walks the index tree of an inode and returns the blocks of all its
slots, in the order in which `increase_size` took them.  Its closures open
index blocks for writing but leave them as they are, so the disk does not
change; only the inode in memory does.
-/

namespace RCoreOS.EasyFs

open List hiding Vector

open Lib.Bytes BlockProg Slot

namespace Slot

/-- The last index block of the second level, with `used` entries in use. -/
theorem second_add (subs : Nat) {used : Nat} (within : used ≤ 128) :
    second (128 * subs + used) =
      second (128 * subs) ++
        (if 0 < used then
          .sub subs ::
            (List.range used).map fun index => .data (156 + 128 * subs + index)
        else []) := by
  induction used with
  | zero => simp
  | succ used ih =>
    have quotient : (128 * subs + used) / 128 = subs := by omega
    rw [if_pos (Nat.succ_pos used), ← Nat.add_assoc, second_succ,
      ih (by omega), secondGroup, quotient, range_succ]
    by_cases none : used = 0
    · subst none
      simp [Nat.add_assoc]
    · rw [if_pos (by omega), if_neg (by omega)]
      simp [Nat.add_assoc]

end Slot

namespace DiskInode

variable {self : DiskInode} {disk : Disk} {held : List Nat}

variable {count : Nat}

/-- The first entries of an array of block ids. -/
theorem ids_take (words : Vector (BitVec 32) count) {taken : Nat}
    (within : taken ≤ count) :
    ids (words.toList.take taken) = (List.range taken).map (entry words) := by
  apply ext_getElem
  · simp [within]
  · intro index _ inside
    rw [length_map, length_range] at inside
    simp [entry_eq words (by omega : index < count)]

theorem take_toList (words : IndirectBlock) :
    words.toList.take 128 = words.toList :=
  take_of_length_le (by simp)

/-- Opening an index block for writing and leaving it as it is. -/
theorem onDisk_scan
    {β : Type} {block : Nat} (can : BlockProg.CanLock held block)
    (disk : Disk) (result : IndirectBlock → β) :
    (BlockProg.modifyAt block 0 fun words : IndirectBlock =>
        return (result words, words)).onDisk held disk =
      .ok (result (indexBlock (disk block)), disk) := by
  have unchanged :
      Function.update disk block
          (storeWords (disk block) 0 (indexBlock (disk block))) = disk := by
    rw [storeWords_indexBlock, Function.update_eq_self]
  rw [onDisk_modifyAt can (Nat.le_refl 512) rfl]
  exact congrArg (fun after => Except.ok (_, after)) unchanged

/-- The loop over full index blocks pushes each with all its entries. -/
theorem onDisk_pushFull (disk : Disk) (entries v : List (BitVec 32))
    (lockable : ∀ block ∈ entries, BlockProg.CanLock held block.toNat) :
    (pushFull entries v).onDisk held disk =
      .ok (v ++ entries.flatMap fun block =>
          block :: (indexBlock (disk block.toNat)).toList, disk) := by
  induction entries generalizing v with
  | nil => simp [pushFull]
  | cons block rest ih =>
    have can := lockable block mem_cons_self
    rw [pushFull, onDisk_bind_ok (onDisk_scan can disk _),
      ih _ fun other member => lockable other (mem_cons_of_mem _ member)]
    simp

variable {subs : Nat}

/-- One index block of the second level and its first `used` entries. -/
theorem ids_sub (words : IndirectBlock) (disk : Disk)
    {used : Nat} (inside : subs < 128) (within : used ≤ 128) :
    ids (words[subs] ::
        (indexBlock (disk words[subs].toNat)).toList.take used) =
      (.sub subs ::
        (List.range used).map fun index =>
          Slot.data (156 + 128 * subs + index)).map
        (secondTree words disk) := by
  have datas :
      (List.range used).map (entry (indexBlock (disk words[subs].toNat))) =
        ((List.range used).map fun index =>
          Slot.data (156 + 128 * subs + index)).map
            (secondTree words disk) := by
    rw [map_map]
    apply map_congr_left
    intro index member
    have below := mem_range.mp member
    have quotient : (156 + 128 * subs + index - 156) / 128 = subs := by omega
    have remainder : (156 + 128 * subs + index - 156) % 128 = index := by
      omega
    simp only [Function.comp, secondTree, quotient, remainder,
      entry_eq words inside]
  have subEq : secondTree words disk (.sub subs) = words[subs].toNat :=
    entry_eq words inside
  rw [map_cons, ← datas, ← ids_take _ within, subEq]
  rfl

/-- The full index blocks below `words`, slot by slot. -/
theorem ids_full (words : IndirectBlock) (disk : Disk)
    (within : subs ≤ 128) :
    ids ((words.toList.take subs).flatMap fun block =>
        block :: (indexBlock (disk block.toNat)).toList) =
      (second (128 * subs)).map (secondTree words disk) := by
  induction subs with
  | zero => simp
  | succ subs ih =>
    have inside : subs < 128 := by omega
    have last : words.toList.take (subs + 1) =
        words.toList.take subs ++ [words[subs]] := by
      rw [take_add_one]
      simp [inside]
    have sub := ids_sub words disk inside (Nat.le_refl 128)
    rw [take_toList] at sub
    rw [last, flatMap_append, flatMap_singleton, ids_append,
      ih (by omega), sub, Nat.mul_succ, second_add subs (Nat.le_refl 128),
      if_pos (by omega), map_append]

/-- The phase of `clear_size` below `indirect2`. -/
theorem onDisk_clearIndirect2 (v : List (BitVec 32)) (limit : count ≤ 16384)
    (can : BlockProg.CanLock held self.indirect2.toNat)
    (lockable :
      ∀ index, 128 * index < count →
        BlockProg.CanLock (self.indirect2.toNat :: held)
          (self.treeOf disk (.sub index))) :
    ∃ v',
      (self.clearIndirect2 count v).onDisk held disk =
          .ok ((v', { self with indirect2 := 0 }), disk) ∧
        ids v' = ids v ++ (second count).map (self.treeOf disk) := by
  generalize wordsEq : indexBlock (disk self.indirect2.toNat) = words
  have subEq (index : Nat) (inside : index < 128) :
      self.treeOf disk (.sub index) = words[index].toNat := by
    simp only [treeOf, secondTree, wordsEq, entry_eq words inside]
  have canFull :
      ∀ block ∈ words.toList.take (count / 128),
        BlockProg.CanLock (self.indirect2.toNat :: held) block.toNat := by
    intro block member
    obtain ⟨index, inside, rfl⟩ := mem_iff_getElem.mp member
    rw [length_take] at inside
    have below : index < 128 := by omega
    have locked := lockable index (by omega)
    rw [subEq index below] at locked
    simpa using locked
  have full := onDisk_pushFull disk (words.toList.take (count / 128)) v canFull
  have subsBound : count / 128 ≤ 128 := by omega
  have remainder : count % 128 ≤ 128 := by omega
  have split := second_add (count / 128) remainder
  rw [Nat.div_add_mod] at split
  have unchanged :
      Function.update disk self.indirect2.toNat
          (storeWords (disk self.indirect2.toNat) 0 words) = disk := by
    rw [← wordsEq, storeWords_indexBlock, Function.update_eq_self]
  have within : decide (count ≤ 16384) = true := decide_eq_true limit
  -- What the closure over `indirect2` returns decides the rest.
  suffices scanned :
      ∃ v',
        (do
          let v ← pushFull (words.toList.take (count / 128)) v
          if count % 128 > 0 then do
            let entry ← BlockProg.index words (count / 128)
            let v ←
              BlockProg.modifyAt entry.toNat 0
                fun indirect1 : IndirectBlock =>
                  return (v ++ [entry] ++
                    indirect1.toList.take (count % 128), indirect1)
            return (v, words)
          else
            return (v, words) : BlockProg _).onDisk
              (self.indirect2.toNat :: held) disk = .ok ((v', words), disk) ∧
          ids v' = ids v ++ (second count).map (secondTree words disk) by
    obtain ⟨v', ran, blocks⟩ := scanned
    refine ⟨v', ?_, ?_⟩
    · rw [clearIndirect2, within]
      show (BlockProg.modifyAt self.indirect2.toNat 0 _ >>= _).onDisk held
        disk = _
      rw [← wordsEq] at ran
      rw [onDisk_bind_ok (onDisk_modifyAt can (Nat.le_refl 512) ran)]
      rw [wordsEq]
      exact congrArg (fun after => Except.ok (_, after)) unchanged
    · rw [blocks, map_treeOf_second, wordsEq]
  rw [onDisk_bind_ok full, split, map_append,
    ← ids_full words disk subsBound, ← append_assoc, ← ids_append]
  by_cases partly : count % 128 > 0
  · have inside : count / 128 < 128 := by omega
    have canLast := lockable (count / 128) (by omega)
    rw [subEq _ inside] at canLast
    rw [if_pos partly, if_pos partly,
      onDisk_bind_ok (onDisk_index words inside _ _),
      onDisk_bind_ok (onDisk_scan canLast disk _),
      ← ids_sub words disk inside remainder, ← ids_append]
    refine ⟨_, rfl, ?_⟩
    rw [append_assoc _ [_], singleton_append]
  · rw [if_neg partly, if_neg partly, map_nil, append_nil]
    exact ⟨_, rfl, rfl⟩

/-- The phases of `clear_size` from the first index block on. -/
theorem onDisk_clearIndirect1 (v : List (BitVec 32)) (limit : count ≤ 16512)
    (lockable :
      ∀ slot ∈ slots (28 + count), slot.isIndex →
        BlockProg.CanLock held (self.treeOf disk slot)) (positive : 0 < count)
    (subs :
      ∀ index, 128 * index < count - 128 →
        BlockProg.CanLock (self.indirect2.toNat :: held)
          (self.treeOf disk (.sub index))) :
    ∃ v' cleared,
      (self.clearIndirect1 count v).onDisk held disk =
          .ok ((v', cleared), disk) ∧
        ids v' = ids v ++ (beyond count).map (self.treeOf disk) ∧
        cleared.size = self.size ∧ cleared.type_ = self.type_ := by
  have can : BlockProg.CanLock held self.indirect1.toNat :=
    lockable .indirect1 (indirect1_mem_slots.mpr (by omega)) rfl
  have firstEq :
      ids ((indexBlock (disk self.indirect1.toNat)).toList.take
          (min count 128)) =
        (first (min count 128)).map (self.treeOf disk) := by
    rw [ids_take _ (Nat.min_le_right _ _),
      map_treeOf_first self disk (Nat.min_le_right _ _)]
  rw [clearIndirect1, onDisk_bind_ok (onDisk_scan can disk _)]
  by_cases more : count > 128
  · have canSecond : BlockProg.CanLock held self.indirect2.toNat :=
      lockable .indirect2 (indirect2_mem_slots.mpr (by omega)) rfl
    dsimp only
    rw [if_pos more]
    obtain ⟨v', ran, blocks⟩ :=
      @onDisk_clearIndirect2 { self with indirect1 := 0 } disk held _
        (v ++ (indexBlock (disk self.indirect1.toNat)).toList.take
          (min count 128) ++ [self.indirect2])
        (by omega : count - 128 ≤ 16384) canSecond subs
    refine ⟨v', _, ran, ?_, rfl, rfl⟩
    rw [blocks, ids_append, ids_append, firstEq, beyond_double more,
      Nat.min_eq_right (by omega), map_append, map_cons,
      map_treeOf_second, map_treeOf_second]
    simp [treeOf]
  · dsimp only
    rw [if_neg more]
    refine ⟨_, _, rfl, ?_, rfl, rfl⟩
    rw [ids_append, firstEq, Nat.min_eq_left (by omega),
      beyond_single (by omega)]

/-- The direct blocks are no part of what lies beyond them. -/
theorem map_treeOf_beyond {left right : DiskInode} (disk : Disk) (count : Nat)
    (indirect1 : left.indirect1 = right.indirect1)
    (indirect2 : left.indirect2 = right.indirect2) :
    (beyond count).map (left.treeOf disk) =
      (beyond count).map (right.treeOf disk) := by
  by_cases more : 128 < count
  · rw [beyond_double more, map_append, map_append,
      map_treeOf_first left disk (Nat.le_refl 128),
      map_treeOf_first right disk (Nat.le_refl 128), map_cons,
      map_cons, map_treeOf_second, map_treeOf_second]
    simp only [treeOf, indirect1, indirect2]
  · rw [beyond_single (by omega), map_treeOf_first left disk (by omega),
      map_treeOf_first right disk (by omega), indirect1]

/--
`clear_size` returns the blocks of the inode in allocation order, leaves the
disk as it is and an inode of size zero in memory.
-/
theorem onDisk_clearSize (limit : self.dataBlocks ≤ 16540)
    (distinct : (self.blocks disk).Nodup)
    (free : ∀ block ∈ self.blocks disk, block ∉ held)
    (room : held.length < 15) :
    ∃ v cleared,
      self.clearSize.onDisk held disk = .ok ((v, cleared), disk) ∧
        ids v = self.blocks disk ∧
        cleared.size = 0 ∧ cleared.type_ = self.type_ := by
  have directEq :
      ids (self.direct.toList.take (min self.dataBlocks 28)) =
        (slots (min self.dataBlocks 28)).map (self.treeOf disk) := by
    rw [ids_take _ (Nat.min_le_right _ _), slots_direct (Nat.min_le_right _ _),
      map_map]
    apply map_congr_left
    intro index member
    have inside := mem_range.mp member
    simp only [Function.comp, treeOf]
    rw [if_pos (by omega)]
  have lockable (slot : Slot) (used : slot ∈ slots self.dataBlocks) :
      self.treeOf disk slot ∉ held :=
    free _ (mem_map_of_mem used)
  have fewer : held.length < blockCacheSize := by
    rw [blockCacheSize]
    omega
  rw [clearSize]
  by_cases more : self.dataBlocks > 28
  · have total : 28 + (self.dataBlocks - 28) = self.dataBlocks := by omega
    have slotsEq := slots_beyond (by omega : 0 < self.dataBlocks - 28)
    rw [total] at slotsEq
    dsimp only
    rw [if_pos more]
    generalize zeroed :
      (Vector.ofFn fun index : Fin 28 =>
        if index < min self.dataBlocks 28 then (0 : BitVec 32)
        else self.direct[index.val]) = direct
    have tree (slot : Slot) (isIndex : slot.isIndex) :
        treeOf { self with size := 0, direct := direct } disk slot =
          self.treeOf disk slot := by
      cases slot with
      | data index => cases isIndex
      | _ => rfl
    obtain ⟨v, cleared, ran, blocks, size, type_⟩ :=
      @onDisk_clearIndirect1 { self with size := 0, direct := direct } disk
        held _
        (self.direct.toList.take (min self.dataBlocks 28) ++ [self.indirect1])
        (by omega : self.dataBlocks - 28 ≤ 16512)
        (fun slot used isIndex => by
          rw [total] at used
          rw [tree slot isIndex]
          exact ⟨lockable slot used, fewer⟩)
        (by omega)
        (fun index below => by
          have used : Slot.sub index ∈ slots self.dataBlocks :=
            sub_mem_slots.mpr (by omega)
          have usedSecond : Slot.indirect2 ∈ slots self.dataBlocks :=
            indirect2_mem_slots.mpr (by omega)
          rw [tree (.sub index) rfl]
          refine ⟨?_, ?_⟩
          · rw [mem_cons, not_or]
            refine ⟨?_, lockable _ used⟩
            intro equal
            cases inj_on_of_nodup_map distinct used usedSecond equal
          · rw [length_cons, blockCacheSize]
            omega)
    have beyondEq :
        (beyond (self.dataBlocks - 28)).map
            (treeOf { self with size := 0, direct := direct } disk) =
          (beyond (self.dataBlocks - 28)).map (self.treeOf disk) :=
      map_treeOf_beyond disk _ rfl rfl
    refine ⟨v, cleared, ran, ?_, size, type_⟩
    rw [blocks, beyondEq, ids_append, directEq, Nat.min_eq_right (by omega),
      DiskInode.blocks, slotsEq, map_append, map_cons, append_assoc]
    rfl
  · dsimp only
    rw [if_neg more]
    refine ⟨_, _, rfl, ?_, rfl, rfl⟩
    rw [directEq, Nat.min_eq_left (by omega)]
    rfl

end DiskInode

end RCoreOS.EasyFs
