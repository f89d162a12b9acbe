import RCoreOS.EasyFs.Layout

/-!
# The index tree of a disk inode

A file of `n` data blocks owns one block for each of its *slots*: the data
blocks themselves, the index block `indirect1`, the index block `indirect2`
and the second-level index blocks below it.  `slots n` lists them in the order
in which `increase_size` takes blocks from its argument, which is also the
order in which `clear_size` returns them.

`treeOf` reads the block of every slot off a disk.  `get_block_id` looks a data
slot up in it.
-/

namespace RCoreOS.EasyFs

open Lib.Bytes BlockProg
open List hiding Vector

/-! ## Slots -/

/-- What a block of a file is used for. -/
inductive Slot where
  | data (index : Nat)
  | indirect1
  | indirect2
  | sub (index : Nat)
deriving DecidableEq, Repr

namespace Slot

/-- Is the block of this slot an index block? -/
def isIndex : Slot → Bool
  | .data _ => false
  | _ => true

/-- The slots of the second level that data block `156 + index` adds. -/
def secondGroup (index : Nat) : List Slot :=
  (if index % 128 = 0 then [.sub (index / 128)] else []) ++
    [.data (156 + index)]

/-- The slots of the second level with `count` data blocks. -/
def second (count : Nat) : List Slot := (List.range count).flatMap secondGroup

/-- The slots of the first index block with `count` data blocks. -/
def first (count : Nat) : List Slot :=
  (List.range count).map fun index => .data (28 + index)

/-- The slots of a file with `count` data blocks, in allocation order. -/
def slots (count : Nat) : List Slot :=
  (List.range (min count 28)).map .data ++
    (if 28 < count then .indirect1 :: first (min (count - 28) 128) else []) ++
    (if 156 < count then .indirect2 :: second (count - 156) else [])

/-- The number of blocks of a file with `count` data blocks. -/
def blockCount (count : Nat) : Nat :=
  count + (if count > 28 then 1 else 0) +
    (if count > 156 then 1 + (count - 156 + 127) / 128 else 0)

variable {count total index : Nat}

theorem blockCount_mono (grows : count ≤ total) :
    blockCount count ≤ blockCount total := by
  rw [blockCount, blockCount]
  split <;> split <;> split <;> split <;> omega

@[simp]
theorem second_zero : second 0 = [] := rfl

theorem second_succ (count : Nat) :
    second (count + 1) = second count ++ secondGroup count := by
  simp [second, range_succ]

theorem length_second (count : Nat) :
    (second count).length = count + (count + 127) / 128 := by
  induction count with
  | zero => rfl
  | succ count ih =>
    rw [second_succ, length_append, ih, secondGroup]
    split <;> simp only [length_append, length_singleton, length_nil] <;> omega

theorem length_slots (count : Nat) :
    (slots count).length = blockCount count := by
  simp only [slots, blockCount, first, length_append, length_map, length_range]
  split
  · split
    · simp only [length_cons, length_map, length_range, length_second]
      omega
    · simp only [length_cons, length_map, length_range, length_nil]
      omega
  · rw [if_neg (by omega), if_neg (by omega)]
    simp only [length_nil]
    omega

/-! ### Membership -/

theorem data_mem_second :
    .data index ∈ second count ↔ 156 ≤ index ∧ index - 156 < count := by
  simp only [second, secondGroup, mem_flatMap, mem_range]
  constructor
  · rintro ⟨position, inside, member⟩
    have equal : index = 156 + position := by
      split at member <;> simpa using member
    omega
  · rintro ⟨atLeast, inside⟩
    refine ⟨index - 156, inside, ?_⟩
    rw [Nat.add_sub_cancel' atLeast]
    simp

theorem sub_mem_second :
    .sub index ∈ second count ↔ 128 * index < count := by
  simp only [second, secondGroup, mem_flatMap, mem_range]
  constructor
  · rintro ⟨position, inside, member⟩
    split at member
    · next whole =>
        have equal : index = position / 128 := by simpa using member
        omega
    · simp at member
  · intro inside
    refine ⟨128 * index, inside, ?_⟩
    rw [if_pos (by omega), Nat.mul_div_cancel_left index (by decide)]
    simp

theorem indirect1_not_mem_second :
    .indirect1 ∉ second count := by
  simp [second, secondGroup]

theorem indirect2_not_mem_second :
    .indirect2 ∉ second count := by
  simp [second, secondGroup]

theorem data_mem_slots :
    .data index ∈ slots count ↔ index < count := by
  simp only [slots, first, mem_append, mem_map, mem_range]
  constructor
  · rintro ((⟨position, inside, equal⟩ | member) | member)
    · cases equal
      omega
    · split at member
      · simp only [mem_cons, reduceCtorEq, mem_map, mem_range,
          false_or] at member
        obtain ⟨position, inside, equal⟩ := member
        cases equal
        omega
      · cases member
    · split at member
      · simp only [mem_cons, reduceCtorEq, false_or, data_mem_second]
          at member
        omega
      · cases member
  · intro inside
    by_cases direct : index < 28
    · exact .inl (.inl ⟨index, by omega, rfl⟩)
    · by_cases single : index < 156
      · refine .inl (.inr ?_)
        rw [if_pos (by omega)]
        simp only [mem_cons, reduceCtorEq, mem_map, mem_range, false_or]
        exact ⟨index - 28, by omega, by rw [Nat.add_sub_cancel' (by omega)]⟩
      · refine .inr ?_
        rw [if_pos (by omega)]
        simp only [mem_cons, reduceCtorEq, false_or, data_mem_second]
        omega

theorem indirect1_mem_slots :
    .indirect1 ∈ slots count ↔ 28 < count := by
  by_cases more : 28 < count <;> by_cases most : 156 < count <;>
    simp [slots, first, second, secondGroup, more, most]

theorem indirect2_mem_slots :
    .indirect2 ∈ slots count ↔ 156 < count := by
  by_cases more : 28 < count <;> by_cases most : 156 < count <;>
    simp [slots, first, more, most]

theorem sub_mem_slots :
    .sub index ∈ slots count ↔ 156 + 128 * index < count := by
  by_cases more : 28 < count <;> by_cases most : 156 < count <;>
    simp [slots, first, more, most, sub_mem_second] <;> omega

/-! ### Growth -/

theorem second_initial (grows : count ≤ total) :
    second count <+: second total := by
  obtain ⟨more, rfl⟩ := Nat.exists_eq_add_of_le grows
  rw [second, second, range_add, flatMap_append]
  exact prefix_append _ _

theorem slots_direct (within : count ≤ 28) :
    slots count = (List.range count).map .data := by
  rw [slots, if_neg (by omega), if_neg (by omega), Nat.min_eq_left within,
    append_nil, append_nil]

theorem slots_single (more : 28 < count) (within : count ≤ 156) :
    slots count = slots 28 ++ .indirect1 :: first (count - 28) := by
  rw [slots_direct (Nat.le_refl 28), slots, if_pos more, if_neg (by omega),
    Nat.min_eq_right (by omega), Nat.min_eq_left (by omega), append_nil]

/-- The slots after `indirect1`, with `count` data blocks beyond the direct ones. -/
def beyond (count : Nat) : List Slot :=
  first (min count 128) ++
    (if 128 < count then .indirect2 :: second (count - 128) else [])

theorem slots_beyond (positive : 0 < count) :
    slots (28 + count) = slots 28 ++ .indirect1 :: beyond count := by
  have most : 156 < 28 + count ↔ 128 < count := by omega
  have remaining : 28 + count - 156 = count - 128 := by omega
  rw [slots_direct (Nat.le_refl 28), slots, if_pos (by omega),
    Nat.min_eq_right (by omega), Nat.add_sub_cancel_left, beyond, remaining,
    append_assoc]
  simp only [most, cons_append]

theorem beyond_single (within : count ≤ 128) :
    beyond count = first count := by
  rw [beyond, if_neg (by omega), Nat.min_eq_left within, append_nil]

theorem beyond_double (most : 128 < count) :
    beyond count = first 128 ++ .indirect2 :: second (count - 128) := by
  rw [beyond, if_pos most, Nat.min_eq_right (by omega)]

theorem length_beyond (count : Nat) :
    (beyond count).length =
      min count 128 +
        (if 128 < count then 1 + (count - 128) + (count - 128 + 127) / 128
          else 0) := by
  rw [beyond, length_append, first, length_map, length_range]
  split
  · rw [length_cons, length_second]
    omega
  · rfl

theorem slots_double (most : 156 < count) :
    slots count = slots 156 ++ .indirect2 :: second (count - 156) := by
  rw [slots_single (by decide) (Nat.le_refl 156),
    slots_direct (Nat.le_refl 28), slots, if_pos (by omega), if_pos most,
    Nat.min_eq_right (by omega), Nat.min_eq_right (by omega)]

section

variable (grows : count ≤ total)

include grows

theorem first_initial :
    first count <+: first total := by
  obtain ⟨more, rfl⟩ := Nat.exists_eq_add_of_le grows
  rw [first, first, range_add, map_append]
  exact prefix_append _ _

theorem slots_prefix_direct (within : total ≤ 28) :
    slots count <+: slots total := by
  obtain ⟨more, rfl⟩ := Nat.exists_eq_add_of_le grows
  rw [slots_direct (by omega), slots_direct within, range_add, map_append]
  exact prefix_append _ _

theorem slots_prefix_single (within : total ≤ 156) :
    slots count <+: slots total := by
  by_cases few : total ≤ 28
  · exact slots_prefix_direct grows few
  · rw [slots_single (by omega : 28 < total) within]
    by_cases direct : count ≤ 28
    · exact (slots_prefix_direct direct (Nat.le_refl 28)).trans
        (prefix_append _ _)
    · rw [slots_single (by omega : 28 < count) (by omega),
        prefix_append_right_inj, prefix_cons_inj]
      exact first_initial (by omega)

/-- A growing file keeps its slots and gets new ones behind them. -/
theorem slots_initial :
    slots count <+: slots total := by
  by_cases few : total ≤ 156
  · exact slots_prefix_single grows few
  · rw [slots_double (by omega : 156 < total)]
    by_cases single : count ≤ 156
    · exact (slots_prefix_single single (Nat.le_refl 156)).trans
        (prefix_append _ _)
    · rw [slots_double (by omega : 156 < count),
        prefix_append_right_inj, prefix_cons_inj]
      exact second_initial (by omega)

end

end Slot

open Slot

/-- Two maps that agree on a list agree on each element of a shorter one. -/
theorem map_eq_of_initial
    {α β : Type} {short long : List α} {left right : α → β} {rest : List β}
    (isPrefix : short <+: long)
    (equal : long.map left = short.map right ++ rest) :
    ∀ element ∈ short, left element = right element := by
  obtain ⟨more, rfl⟩ := isPrefix
  rw [map_append] at equal
  exact map_inj_left.mp
    (append_inj_left equal (by rw [length_map, length_map]))

variable {count : Nat}

theorem range_split {total : Nat} (grows : count ≤ total) :
    List.range total =
      List.range count ++ List.range' count (total - count) := by
  obtain ⟨more, rfl⟩ := Nat.exists_eq_add_of_le grows
  rw [Nat.add_sub_cancel_left, range_add, List.range'_eq_map_range]

/-! ## Reading the tree off a disk -/

/-- Entry `index` of an array of block ids, zero past its end. -/
def entry {count : Nat} (words : Vector (BitVec 32) count) (index : Nat) : Nat :=
  if inside : index < count then words[index].toNat else 0

theorem entry_eq (words : Vector (BitVec 32) count) {index : Nat}
    (inside : index < count) :
    entry words index = words[index].toNat := by
  rw [entry, dif_pos inside]

theorem entry_set (words : Vector (BitVec 32) count) {position : Nat}
    (inside : position < count) (word : BitVec 32) (index : Nat) :
    entry (words.set position word) index =
      if index = position then word.toNat else entry words index := by
  unfold entry
  by_cases inWords : index < count
  · rw [dif_pos inWords, dif_pos inWords, Vector.getElem_set]
    by_cases equal : position = index
    · rw [if_pos equal, if_pos equal.symm]
    · rw [if_neg equal, if_neg (Ne.symm equal)]
  · rw [dif_neg inWords, dif_neg inWords, if_neg (by omega)]

theorem entry_ext {left right : Vector (BitVec 32) count}
    (agree : ∀ index, entry left index = entry right index) :
    left = right := by
  apply Vector.ext
  intro index inside
  have equal := agree index
  rw [entry_eq left inside, entry_eq right inside] at equal
  exact BitVec.eq_of_toNat_eq equal

/-- The blocks of the second level below the index block `words`. -/
def secondTree (words : IndirectBlock) (disk : Disk) : Slot → Nat
  | .sub index => entry words index
  | .data index =>
    entry (indexBlock (disk (entry words ((index - 156) / 128))))
      ((index - 156) % 128)
  | _ => 0

namespace DiskInode

/-- The block of each slot of the inode. -/
def treeOf (self : DiskInode) (disk : Disk) : Slot → Nat
  | .indirect1 => self.indirect1.toNat
  | .indirect2 => self.indirect2.toNat
  | .sub index =>
    secondTree (indexBlock (disk self.indirect2.toNat)) disk (.sub index)
  | .data index =>
    if index < 28 then entry self.direct index
    else if index < 156 then
      entry (indexBlock (disk self.indirect1.toNat)) (index - 28)
    else
      secondTree (indexBlock (disk self.indirect2.toNat)) disk (.data index)

/-- All blocks of the inode, in allocation order. -/
def blocks (self : DiskInode) (disk : Disk) : List Nat :=
  (slots self.dataBlocks).map (self.treeOf disk)

end DiskInode

variable {disk after : Disk}

/-- Second-level trees agree when the entries that they use agree. -/
theorem secondTree_congr {left right : IndirectBlock}
    (subs : ∀ index, 128 * index < count → entry right index = entry left index)
    (datas :
      ∀ index, index < count →
        entry (indexBlock (after (entry left (index / 128)))) (index % 128) =
          entry (indexBlock (disk (entry left (index / 128)))) (index % 128)) :
    (second count).map (secondTree right after) =
      (second count).map (secondTree left disk) := by
  apply map_congr_left
  intro slot member
  cases slot with
  | indirect1 => rfl
  | indirect2 => rfl
  | sub index => exact subs index (sub_mem_second.mp member)
  | data index =>
    have inside := (data_mem_second.mp member).2
    simp only [secondTree]
    rw [subs _ (by omega), datas _ inside]

/-- Inodes with the same tables have the same tree. -/
theorem DiskInode.treeOf_congr {left right : DiskInode}
    (direct : ∀ index, index < count → entry right.direct index = entry left.direct index)
    (indirect1 : 28 < count → right.indirect1 = left.indirect1)
    (words1 :
      28 < count → after left.indirect1.toNat = disk left.indirect1.toNat)
    (indirect2 : 156 < count → right.indirect2 = left.indirect2)
    (words2 :
      156 < count → after left.indirect2.toNat = disk left.indirect2.toNat)
    (subs :
      ∀ index, 156 + 128 * index < count →
        after (left.treeOf disk (.sub index)) =
          disk (left.treeOf disk (.sub index))) :
    ∀ slot ∈ slots count, right.treeOf after slot = left.treeOf disk slot := by
  intro slot member
  cases slot with
  | indirect1 => simp only [treeOf, indirect1 (indirect1_mem_slots.mp member)]
  | indirect2 => simp only [treeOf, indirect2 (indirect2_mem_slots.mp member)]
  | sub index =>
    have inside := sub_mem_slots.mp member
    simp only [treeOf]
    rw [indirect2 (by omega), words2 (by omega)]
    rfl
  | data index =>
    have inside := data_mem_slots.mp member
    simp only [treeOf]
    split
    · exact direct index inside
    · split
      · rw [indirect1 (by omega), words1 (by omega)]
      · have sub := subs ((index - 156) / 128) (by omega)
        simp only [treeOf, secondTree] at sub
        rw [indirect2 (by omega), words2 (by omega)]
        simp only [secondTree]
        rw [sub]

/-! ## Looking a block up -/

namespace BlockProg

variable {index : Nat}

variable {α : Type} {held : List Nat} {disk : Disk}

theorem onDisk_index (words : Vector α count)
    (inside : index < count) (held : List Nat) (disk : Disk) :
    (BlockProg.index words index).onDisk held disk =
      .ok (words[index], disk) := by
  rw [BlockProg.index, dif_pos inside]
  rfl

/-- Indexing that returned was inside. -/
theorem onDisk_index_eq_ok {words : Vector α count}
    {after : Disk} {value : α}
    (returned :
      (BlockProg.index words index).onDisk held disk = .ok (value, after)) :
    index < count ∧ after = disk := by
  unfold BlockProg.index at returned
  split at returned
  · next inside =>
      cases returned
      exact ⟨inside, rfl⟩
  · cases returned

/-- Reading one entry of an index block. -/
theorem onDisk_readAt_index {block : Nat}
    (can : CanLock held block) (inside : index < 128) :
    (readAt block 0 fun words : IndirectBlock =>
        BlockProg.index words index).onDisk held disk =
      .ok ((indexBlock (disk block))[index], disk) := by
  rw [onDisk_readAt can (Nat.le_refl 512)]
  exact onDisk_index _ inside _ _

end BlockProg

namespace DiskInode

variable {self : DiskInode} {disk : Disk} {held : List Nat}

/-- `get_block_id` finds the block of a data slot and writes nothing. -/
theorem onDisk_getBlockId
    {index : Nat} (inside : index < count) (limit : count ≤ 16540)
    (lockable :
      ∀ slot ∈ slots count, slot.isIndex →
        BlockProg.CanLock held (self.treeOf disk slot)) :
    ∃ blockId,
      (self.getBlockId index).onDisk held disk = .ok (blockId, disk) ∧
        blockId.toNat = self.treeOf disk (.data index) := by
  simp only [getBlockId, treeOf]
  by_cases direct : index < 28
  · rw [if_pos direct, if_pos direct, onDisk_index _ direct]
    exact ⟨_, rfl, (entry_eq _ direct).symm⟩
  · rw [if_neg direct, if_neg direct]
    by_cases single : index < 156
    · have can : BlockProg.CanLock held self.indirect1.toNat :=
        lockable .indirect1 (indirect1_mem_slots.mpr (by omega)) rfl
      have inWords : index - 28 < 128 := by omega
      rw [if_pos single, if_pos single, onDisk_readAt_index can inWords]
      exact ⟨_, rfl, (entry_eq _ inWords).symm⟩
    · have can : BlockProg.CanLock held self.indirect2.toNat :=
        lockable .indirect2 (indirect2_mem_slots.mpr (by omega)) rfl
      have canSub :=
        lockable (.sub ((index - 156) / 128))
          (sub_mem_slots.mpr (by omega)) rfl
      have inWords : (index - 156) / 128 < 128 := by omega
      have inSub : (index - 156) % 128 < 128 := Nat.mod_lt _ (by decide)
      simp only [treeOf, secondTree] at canSub
      rw [if_neg single, if_neg single,
        onDisk_bind_ok (onDisk_readAt_index can inWords)]
      simp only [secondTree]
      rw [entry_eq _ inWords] at canSub ⊢
      rw [onDisk_readAt_index canSub inSub]
      exact ⟨_, rfl, (entry_eq _ inSub).symm⟩

end DiskInode

end RCoreOS.EasyFs
