import RCoreOS.EasyFs.IndexTree

/-!
# Growing a file

`increase_size` runs in phases: the direct blocks, the first index block, the
second level.  Each phase gives the next new blocks to the next slots, so the
blocks of the slots arranged so far, followed by the blocks that are left,
are always the same list.  At the end that list is the blocks of the grown
file: the old blocks in their old slots, then the new ones in order.
-/

namespace RCoreOS.EasyFs

open Lib.Bytes BlockProg Function
open List hiding Vector
open Slot

namespace DiskInode

variable {self : DiskInode} {disk : Disk} {held : List Nat}

/-! ## The filling loops -/

/-- The blocks that `new_blocks` still holds. -/
abbrev ids (newBlocks : List (BitVec 32)) : List Nat :=
  newBlocks.map BitVec.toNat

theorem ids_append (left right : List (BitVec 32)) :
    ids (left ++ right) = ids left ++ ids right :=
  map_append

/-- The filling loops give the next new blocks to the next entries. -/
theorem fill_spec
    {count : Nat} (words : Vector (BitVec 32) count) (current total : Nat)
    (newBlocks : List (BitVec 32))
    (enough : min total count - current ≤ newBlocks.length) :
    ∃ words' rest,
      fill words current total newBlocks =
          .ok (words', max current (min total count), rest) ∧
        ids newBlocks =
          (List.range' current (min total count - current)).map (entry words') ++
            ids rest ∧
        ∀ index, index < current ∨ min total count ≤ index →
          entry words' index = entry words index := by
  induction left : min total count - current
    generalizing words current newBlocks with
  | zero =>
    have finished : ¬ current < min total count := by omega
    refine ⟨words, newBlocks, ?_, rfl, fun _ _ => rfl⟩
    rw [fill, dif_neg finished, Nat.max_eq_left (by omega)]
  | succ left ih =>
    have more : current < min total count := by omega
    cases newBlocks with
    | nil =>
      rw [length_nil] at enough
      omega
    | cons block rest =>
      rw [length_cons] at enough
      have inside : current < count := by omega
      obtain ⟨words', rest', filled, taken, same⟩ :=
        ih (words.set current block) (current + 1) rest (by omega) (by omega)
      have here : entry words' current = block.toNat := by
        rw [same current (.inl (by omega)), entry_set words inside, if_pos rfl]
      refine ⟨words', rest', ?_, ?_, ?_⟩
      · rw [fill, dif_pos more]
        show fill (words.set current block) (current + 1) total rest = _
        rw [filled, Nat.max_eq_right (by omega), Nat.max_eq_right (by omega)]
      · rw [List.range'_succ, map_cons, here, cons_append, ← taken]
        rfl
      · intro index outside
        rw [same index (by omega), entry_set words inside, if_neg (by omega)]

/-! ## The second level -/

variable {words : IndirectBlock} {newBlocks : List (BitVec 32)}
  {count : Nat} {all : List Nat}

/--
After `count` data blocks of the second level, `newBlocks` holds what is left
of `all`.
-/
def Reached (words : IndirectBlock) (disk : Disk) (count : Nat)
    (newBlocks : List (BitVec 32)) (all : List Nat) : Prop :=
  (second count).map (secondTree words disk) ++ ids newBlocks = all

variable {block : BitVec 32} {total newSize : Nat}

/-- The blocks in use are different from those that are still to come. -/
theorem Reached.ne_new (reached : Reached words disk count newBlocks all)
    (distinct : all.Nodup) {slot : Slot} (member : slot ∈ second count)
    (new : block ∈ newBlocks) :
    secondTree words disk slot ≠ block.toNat := by
  rw [← reached] at distinct
  exact (nodup_append.mp distinct).2.2 _ (mem_map_of_mem member) _
    (mem_map_of_mem new)

/-- Different slots in use have different blocks. -/
theorem Reached.slot_inj
    (reached : Reached words disk count newBlocks all) (distinct : all.Nodup)
    {left right : Slot} (leftMem : left ∈ second count)
    (rightMem : right ∈ second count)
    (equal : secondTree words disk left = secondTree words disk right) :
    left = right := by
  rw [← reached] at distinct
  exact inj_on_of_nodup_map (nodup_append.mp distinct).1 leftMem
    rightMem equal

theorem position_lt (position : Fin 128) : position.val < 128 :=
  position.isLt

/-- Store `block` as entry `index` of the index block `sub`. -/
def setEntry (disk : Disk) (sub : Nat) (index : Fin 128) (block : BitVec 32) :
    Disk :=
  Function.update disk sub
    (storeWords (disk sub) 0
      ((indexBlock (disk sub)).set index block (position_lt index)))

theorem entry_setEntry_self
    (disk : Disk) (sub : Nat) (position : Fin 128) (block : BitVec 32)
    (index : Nat) :
    entry (indexBlock (setEntry disk sub position block sub)) index =
      if index = position then block.toNat
      else entry (indexBlock (disk sub)) index := by
  rw [setEntry, update_self, indexBlock_storeWords, entry_set _ position.isLt]

variable {sub : Nat} {position : Fin 128}

theorem setEntry_other {other : Nat}
    (different : other ≠ sub) :
    setEntry disk sub position block other = disk other :=
  update_of_ne different _ _

/-- A new index block, with its first entry. -/
theorem Reached.newSub {sub : BitVec 32}
    (reached : Reached words disk count (sub :: block :: newBlocks) all)
    (distinct : all.Nodup) (whole : count % 128 = 0)
    (inside : count / 128 < 128) :
    Reached (words.set (count / 128) sub)
      (setEntry disk sub.toNat 0 block) (count + 1) newBlocks all := by
  have old :
      (second count).map
          (secondTree (words.set (count / 128) sub)
            (setEntry disk sub.toNat 0 block)) =
        (second count).map (secondTree words disk) := by
    apply secondTree_congr
    · intro index used
      rw [entry_set words inside, if_neg (by omega)]
    · intro index used
      have different :=
        reached.ne_new distinct
          (sub_mem_second.mpr (by omega : 128 * (index / 128) < count))
          mem_cons_self
      simp only [secondTree] at different
      rw [setEntry_other different]
  have subEq :
      secondTree (words.set (count / 128) sub)
          (setEntry disk sub.toNat 0 block) (.sub (count / 128)) =
        sub.toNat := by
    simp only [secondTree]
    rw [entry_set words inside, if_pos rfl]
  have dataEq :
      secondTree (words.set (count / 128) sub)
          (setEntry disk sub.toNat 0 block) (.data (156 + count)) =
        block.toNat := by
    simp only [secondTree, Nat.add_sub_cancel_left]
    rw [entry_set words inside, if_pos rfl, entry_setEntry_self, whole]
    exact if_pos rfl
  unfold Reached at reached ⊢
  rw [second_succ, secondGroup, if_pos whole, map_append, old, ← reached]
  simp [subEq, dataEq]

/-- One more entry of the current index block. -/
theorem Reached.nextEntry
    (reached : Reached words disk count (block :: newBlocks) all)
    (distinct : all.Nodup) (partly : count % 128 ≠ 0) :
    Reached words
      (setEntry disk (entry words (count / 128)) (Fin.ofNat 128 count) block)
      (count + 1) newBlocks all := by
  have old :
      (second count).map
          (secondTree words
            (setEntry disk (entry words (count / 128))
              (Fin.ofNat 128 count) block)) =
        (second count).map (secondTree words disk) := by
    apply secondTree_congr
    · exact fun _ _ => rfl
    · intro index used
      by_cases same : index / 128 = count / 128
      · have earlier : index % 128 ≠ (Fin.ofNat 128 count).val := by
          rw [Fin.val_ofNat]
          omega
        rw [same, entry_setEntry_self, if_neg earlier]
      · have different :
            entry words (index / 128) ≠ entry words (count / 128) := by
          intro equal
          have slotEq :=
            reached.slot_inj distinct
              (sub_mem_second.mpr (by omega : 128 * (index / 128) < count))
              (sub_mem_second.mpr (by omega : 128 * (count / 128) < count))
              equal
          exact same (Slot.sub.inj slotEq)
        rw [setEntry_other different]
  have dataEq :
      secondTree words
          (setEntry disk (entry words (count / 128)) (Fin.ofNat 128 count)
            block) (.data (156 + count)) =
        block.toNat := by
    simp only [secondTree, Nat.add_sub_cancel_left]
    rw [entry_setEntry_self, Fin.val_ofNat, if_pos rfl]
  unfold Reached at reached ⊢
  rw [second_succ, secondGroup, if_neg partly, map_append, old,
    ← reached, nil_append, map_singleton, dataEq, append_assoc]
  rfl

/-- Storing through an index block, as the closure of the loop does. -/
theorem onDisk_fillEntry
    {rest : List (BitVec 32)} (can : BlockProg.CanLock held sub) :
    (BlockProg.modifyAt sub 0 fun indirect1 : IndirectBlock => do
        let (block, newBlocks) ← BlockProg.ofExcept (next (block :: rest))
        return (newBlocks,
          indirect1.set position block (position_lt position))).onDisk held disk =
      .ok (rest, setEntry disk sub position block) := by
  apply onDisk_modifyAt can (Nat.le_refl 512)
  rfl

/-- The position after `count` is the position of `count + 1`. -/
theorem fillIndirect2_next (a1 b1 count : Nat) (words : IndirectBlock)
    (newBlocks : List (BitVec 32)) :
    (if inside : (Fin.ofNat 128 count).val + 1 < 128 then
        fillIndirect2 a1 b1 (count / 128)
          ⟨(Fin.ofNat 128 count).val + 1, inside⟩ words newBlocks
      else
        fillIndirect2 a1 b1 (count / 128 + 1) 0 words newBlocks) =
      fillIndirect2 a1 b1 ((count + 1) / 128) (Fin.ofNat 128 (count + 1))
        words newBlocks := by
  have value := Fin.val_ofNat 128 count
  have nextValue := Fin.val_ofNat 128 (count + 1)
  split
  · next inside =>
      congr 1
      · omega
      · apply Fin.ext
        show (Fin.ofNat 128 count).val + 1 = (Fin.ofNat 128 (count + 1)).val
        omega
  · next outside =>
      congr 1
      · omega
      · apply Fin.ext
        show 0 = (Fin.ofNat 128 (count + 1)).val
        omega

/-- One iteration of the loop over the second level. -/
theorem onDisk_fillIndirect2_step
    (reached : Reached words disk count newBlocks all) (distinct : all.Nodup)
    (lockable : ∀ block ∈ all, BlockProg.CanLock held block)
    (more : count < total) (limit : total ≤ 16384)
    (enough : all.length = (second total).length) :
    ∃ words' after newBlocks',
      (fillIndirect2 (total / 128) (total % 128) (count / 128)
          (Fin.ofNat 128 count) words newBlocks).onDisk held disk =
        (fillIndirect2 (total / 128) (total % 128) ((count + 1) / 128)
          (Fin.ofNat 128 (count + 1)) words' newBlocks').onDisk held after ∧
        Reached words' after (count + 1) newBlocks' all ∧
        ∀ block, block ≠ entry words' (count / 128) →
          after block = disk block := by
  have lengths : (second count).length + newBlocks.length = all.length := by
    rw [← reached, length_append, length_map, length_map]
  rw [enough, length_second, length_second] at lengths
  have value := Fin.val_ofNat 128 count
  have running :
      count / 128 < total / 128 ∨
        (count / 128 = total / 128 ∧ (Fin.ofNat 128 count).val < total % 128) := by
    rw [value]
    omega
  have inside : count / 128 < 128 := by omega
  rw [fillIndirect2, dif_pos running]
  by_cases whole : count % 128 = 0
  · have zero : Fin.ofNat 128 count = 0 := by
      apply Fin.ext
      rw [value, whole]
      rfl
    match newBlocks, reached, lengths with
    | [], _, lengths =>
      rw [length_nil] at lengths
      omega
    | [_], _, lengths =>
      rw [length_singleton] at lengths
      omega
    | subId :: block :: rest, reached, _ =>
      have can : BlockProg.CanLock held subId.toNat := by
        apply lockable
        rw [← reached]
        simp
      refine ⟨words.set (count / 128) subId,
        setEntry disk subId.toNat 0 block, rest, ?_,
        reached.newSub distinct whole inside, ?_⟩
      · have taken :
            allocSub (count / 128) (Fin.ofNat 128 count) words
                (subId :: block :: rest) =
              .ok (words.set (count / 128) subId, block :: rest) := by
          rw [allocSub, if_pos zero]
          show (if inside : count / 128 < 128 then _ else _) = _
          rw [dif_pos inside]
        have read :
            (BlockProg.index (words.set (count / 128) subId)
                (count / 128)).onDisk held disk = .ok (subId, disk) := by
          rw [onDisk_index _ inside, Vector.getElem_set_self]
        rw [taken]
        show (BlockProg.index _ _ >>= _).onDisk held disk = _
        rw [onDisk_bind_ok read, onDisk_bind_ok (onDisk_fillEntry can),
          fillIndirect2_next, zero]
      · intro other different
        rw [entry_set words inside, if_pos rfl] at different
        exact setEntry_other different
  · have nonzero : Fin.ofNat 128 count ≠ 0 := by
      intro equal
      rw [equal] at value
      exact whole value.symm
    match newBlocks, reached, lengths with
    | [], _, lengths =>
      rw [length_nil] at lengths
      omega
    | block :: rest, reached, _ =>
      have can : BlockProg.CanLock held (entry words (count / 128)) := by
        apply lockable
        rw [← reached]
        refine mem_append_left _ (mem_map.mpr
          ⟨.sub (count / 128), sub_mem_second.mpr (by omega), rfl⟩)
      refine ⟨words, _, rest, ?_, reached.nextEntry distinct whole,
        fun other different => setEntry_other different⟩
      have taken :
          allocSub (count / 128) (Fin.ofNat 128 count) words
              (block :: rest) =
            .ok (words, block :: rest) := by
        rw [allocSub, if_neg nonzero]
      have read := onDisk_index words inside held disk
      rw [taken]
      show (BlockProg.index _ _ >>= _).onDisk held disk = _
      rw [entry_eq words inside] at can ⊢
      rw [onDisk_bind_ok read, onDisk_bind_ok (onDisk_fillEntry can),
        fillIndirect2_next]

/-- The loop over the second level uses up the new blocks, in order. -/
theorem onDisk_fillIndirect2
    (reached : Reached words disk count newBlocks all) (distinct : all.Nodup)
    (lockable : ∀ block ∈ all, BlockProg.CanLock held block)
    (grows : count ≤ total) (limit : total ≤ 16384)
    (enough : all.length = (second total).length) :
    ∃ words' after,
      (fillIndirect2 (total / 128) (total % 128) (count / 128)
          (Fin.ofNat 128 count) words newBlocks).onDisk held disk =
        .ok (((), words'), after) ∧
        (second total).map (secondTree words' after) = all ∧
        ∀ block, (∀ index, 128 * index < total → block ≠ entry words' index) →
          after block = disk block := by
  induction left : total - count
    generalizing words disk count newBlocks with
  | zero =>
    have finished : count = total := by omega
    subst finished
    have value := Fin.val_ofNat 128 count
    have stopped :
        ¬ (count / 128 < count / 128 ∨
          (count / 128 = count / 128 ∧
            (Fin.ofNat 128 count).val < count % 128)) := by
      rw [value]
      omega
    have usedUp : newBlocks = [] := by
      have lengths := congrArg List.length reached
      rw [length_append, length_map, length_map, enough]
        at lengths
      exact eq_nil_of_length_eq_zero (by omega)
    refine ⟨words, disk, ?_, ?_, fun _ _ => rfl⟩
    · rw [fillIndirect2, dif_neg stopped]
      rfl
    · rw [← reached, usedUp]
      exact (append_nil _).symm
  | succ left ih =>
    obtain ⟨words1, disk1, newBlocks1, stepped, reached1, frame1⟩ :=
      onDisk_fillIndirect2_step reached distinct lockable (by omega) limit
        enough
    obtain ⟨words', after, finished, trees, frame⟩ :=
      ih reached1 (by omega) (by omega)
    refine ⟨words', after, stepped.trans finished, trees, ?_⟩
    intro block outside
    have kept : entry words' (count / 128) = entry words1 (count / 128) :=
      map_eq_of_initial (second_initial (by omega : count + 1 ≤ total))
        (trees.trans reached1.symm) (.sub (count / 128))
        (sub_mem_second.mpr (by omega))
    rw [frame block outside, frame1 block]
    rw [← kept]
    exact outside (count / 128) (by omega)

/-! ## The phases of `increase_size` -/

/-- On the slots of the second level the tree is that of `indirect2`. -/
theorem map_treeOf_second (self : DiskInode) (disk : Disk) (count : Nat) :
    (second count).map (self.treeOf disk) =
      (second count).map
        (secondTree (indexBlock (disk self.indirect2.toNat)) disk) := by
  apply map_congr_left
  intro slot member
  cases slot with
  | indirect1 => exact absurd member indirect1_not_mem_second
  | indirect2 => exact absurd member indirect2_not_mem_second
  | sub index => rfl
  | data index =>
    have inside := data_mem_second.mp member
    simp only [treeOf]
    rw [if_neg (by omega), if_neg (by omega)]

/-- Filling the second level, once `indirect2` is there. -/
theorem onDisk_increaseIndirect2
    (arranged :
      (slots 156).map (self.treeOf disk) ++
          self.indirect2.toNat ::
            ((second count).map
                (secondTree (indexBlock (disk self.indirect2.toNat)) disk) ++
              ids newBlocks) =
        all) (distinct : all.Nodup) (free : ∀ block ∈ all, block ∉ held)
    (room : held.length < 15) (grows : count ≤ total) (positive : 0 < total)
    (limit : total ≤ 16384)
    (enough : all.length = (slots (156 + total)).length) :
    ∃ after,
      (self.increaseIndirect2 count total newBlocks).onDisk held disk =
          .ok (self, after) ∧
        (slots (156 + total)).map (self.treeOf after) = all ∧
        ∀ block, block ≠ self.indirect2.toNat →
          (∀ index, 128 * index < total →
            block ≠ self.treeOf after (.sub index)) →
          after block = disk block := by
  generalize restEq :
    (second count).map
        (secondTree (indexBlock (disk self.indirect2.toNat)) disk) ++
      ids newBlocks = rest at arranged
  have slotsEq := slots_double (by omega : 156 < 156 + total)
  rw [Nat.add_sub_cancel_left] at slotsEq
  have restLength : rest.length = (second total).length := by
    have lengths := congrArg List.length arranged
    rw [enough, slotsEq] at lengths
    simp only [length_append, length_map, length_cons]
      at lengths
    omega
  rw [← arranged] at distinct free
  obtain ⟨_, tailDistinct, apart⟩ := nodup_append.mp distinct
  obtain ⟨headFresh, restDistinct⟩ := nodup_cons.mp tailDistinct
  have canHead : BlockProg.CanLock held self.indirect2.toNat :=
    ⟨free _ (by simp), by rw [blockCacheSize]; omega⟩
  have canRest :
      ∀ block ∈ rest,
        BlockProg.CanLock (self.indirect2.toNat :: held) block := by
    intro block member
    constructor
    · rw [mem_cons, not_or]
      constructor
      · rintro rfl
        exact headFresh member
      · exact free block (by simp [member])
    · rw [length_cons, blockCacheSize]
      omega
  obtain ⟨words', filled, ran, trees, frame⟩ :=
    onDisk_fillIndirect2 restEq restDistinct canRest grows limit restLength
  have stored :
      (BlockProg.modifyAt self.indirect2.toNat 0
        fun indirect2 : IndirectBlock =>
          fillIndirect2 (total / 128) (total % 128) (count / 128)
            (Fin.ofNat 128 count) indirect2 newBlocks).onDisk held disk =
        .ok ((), Function.update filled self.indirect2.toNat
          (BlockView.store (disk self.indirect2.toNat) 0 words')) :=
    onDisk_modifyAt canHead (Nat.le_refl 512) ran
  generalize afterEq :
    Function.update filled self.indirect2.toNat
      (BlockView.store (disk self.indirect2.toNat) 0 words') = after at stored
  have afterWords : indexBlock (after self.indirect2.toNat) = words' := by
    rw [← afterEq, update_self]
    exact indexBlock_storeWords _ _
  have afterOther :
      ∀ block, block ≠ self.indirect2.toNat → after block = filled block := by
    intro block different
    rw [← afterEq, update_of_ne different]
  have subMem : ∀ index, 128 * index < total → entry words' index ∈ rest := by
    intro index used
    rw [← trees]
    exact mem_map.mpr ⟨.sub index, sub_mem_second.mpr used, rfl⟩
  have secondEq :
      (second total).map (self.treeOf after) = rest := by
    rw [map_treeOf_second, afterWords, ← trees]
    apply secondTree_congr (fun _ _ => rfl)
    intro index used
    rw [afterOther]
    intro equal
    exact headFresh (equal ▸ subMem _ (by omega))
  have firstEq :
      (slots 156).map (self.treeOf after) =
        (slots 156).map (self.treeOf disk) := by
    apply map_congr_left
    apply treeOf_congr (fun _ _ => rfl) (fun _ => rfl) ?_ (fun _ => rfl)
      (fun most => by omega) (fun index most => by omega)
    intro _
    have used :
        self.indirect1.toNat ∈ (slots 156).map (self.treeOf disk) :=
      mem_map.mpr
        ⟨.indirect1, indirect1_mem_slots.mpr (by omega), rfl⟩
    rw [afterOther _ (apart _ used _ mem_cons_self)]
    apply frame
    intro index below
    exact apart _ used _ (mem_cons_of_mem _ (subMem index below))
  refine ⟨after, ?_, ?_, ?_⟩
  · rw [increaseIndirect2]
    exact onDisk_bind_ok stored _
  · rw [slotsEq, map_append, map_cons, firstEq, secondEq]
    exact arranged
  · intro block notHead notSub
    rw [afterOther block notHead]
    apply frame
    intro index used
    have different := notSub index used
    simp only [treeOf, secondTree] at different
    rw [afterWords] at different
    exact different

/-- Taking the next block, when it is needed and there is one. -/
theorem nextIf_cons (slot block : BitVec 32) (rest : List (BitVec 32)) :
    nextIf true slot (block :: rest) = .ok (block, rest) :=
  rfl

theorem nextIf_false (slot : BitVec 32) (newBlocks : List (BitVec 32)) :
    nextIf false slot newBlocks = .ok (slot, newBlocks) :=
  rfl

/-- The blocks below `indirect1`, read off its words. -/
theorem map_treeOf_first (self : DiskInode) (disk : Disk)
    (within : count ≤ 128) :
    (first count).map (self.treeOf disk) =
      (List.range count).map
        (entry (indexBlock (disk self.indirect1.toNat))) := by
  rw [first, map_map]
  apply map_congr_left
  intro index member
  have inside := mem_range.mp member
  simp only [Function.comp, treeOf]
  rw [if_neg (by omega), if_pos (by omega), Nat.add_sub_cancel_left]

/-- What has been arranged once `count` blocks beyond the direct ones are. -/
def Arranged (self : DiskInode) (disk : Disk) (count : Nat)
    (newBlocks : List (BitVec 32)) (all : List Nat) : Prop :=
  (slots 28).map (self.treeOf disk) ++
      self.indirect1.toNat ::
        ((beyond count).map (self.treeOf disk) ++ ids newBlocks) =
    all

section

variable (arranged : self.Arranged disk count newBlocks all)

include arranged

/-- Filling the first index block. -/
theorem Arranged.fillIndirect1
    (free : ∀ block ∈ all, block ∉ held) (room : held.length < 15)
    (enough : min total 128 - count ≤ newBlocks.length) :
    ∃ rest after,
      (BlockProg.modifyAt self.indirect1.toNat 0
          fun indirect1 : IndirectBlock => do
            let (indirect1, currentBlocks, newBlocks) ←
              BlockProg.ofExcept (fill indirect1 count total newBlocks)
            return ((currentBlocks, newBlocks), indirect1)).onDisk held disk =
          .ok ((max count (min total 128), rest), after) ∧
        self.Arranged after (max count (min total 128)) rest all ∧
        ∀ block, block ≠ self.indirect1.toNat → after block = disk block := by
  have can : BlockProg.CanLock held self.indirect1.toNat := by
    refine ⟨free _ ?_, by rw [blockCacheSize]; omega⟩
    rw [← arranged]
    simp
  obtain ⟨words', rest, filled, taken, same⟩ :=
    fill_spec (indexBlock (disk self.indirect1.toNat)) count total newBlocks
      enough
  refine ⟨rest, Function.update disk self.indirect1.toNat
    (storeWords (disk self.indirect1.toNat) 0 words'), ?_, ?_, ?_⟩
  · apply onDisk_modifyAt can (Nat.le_refl 512)
    show (BlockProg.ofExcept
      (fill (indexBlock (disk self.indirect1.toNat)) count total newBlocks) >>=
        _).onDisk _ disk = _
    rw [filled]
    rfl
  · by_cases nothing : min total 128 ≤ count
    · have unchanged : words' = indexBlock (disk self.indirect1.toNat) :=
        entry_ext fun index => same index (by omega)
      have empty : min total 128 - count = 0 := by omega
      rw [empty, List.range'_zero, map_nil, nil_append] at taken
      rw [unchanged, storeWords_indexBlock, update_eq_self,
        Nat.max_eq_left nothing, Arranged, ← taken]
      exact arranged
    · have directEq :
          (slots 28).map (self.treeOf (Function.update disk
              self.indirect1.toNat
              (storeWords (disk self.indirect1.toNat) 0 words'))) =
            (slots 28).map (self.treeOf disk) := by
        apply map_congr_left
        exact treeOf_congr (fun _ _ => rfl) (fun _ => rfl)
          (fun more => by omega) (fun _ => rfl) (fun more => by omega)
          (fun index more => by omega)
      have split := range_split (by omega : count ≤ min total 128)
      have oldEq :
          (List.range count).map (entry words') =
            (List.range count).map
              (entry (indexBlock (disk self.indirect1.toNat))) := by
        apply map_congr_left
        intro index member
        exact same index (.inl (mem_range.mp member))
      rw [Arranged, beyond_single (by omega),
        map_treeOf_first self disk (by omega), taken] at arranged
      rw [Arranged, directEq, Nat.max_eq_right (by omega),
        beyond_single (by omega), map_treeOf_first self _ (by omega),
        update_self, indexBlock_storeWords, split, map_append,
        oldEq, append_assoc]
      exact arranged
  · intro block different
    exact update_of_ne different _ _

/-- Taking the block for `indirect2` when the first index block is full. -/
theorem Arranged.takeIndirect2
    (full : 128 ≤ count) (more : count = 128 → newBlocks ≠ []) :
    ∃ indirect2 rest,
      nextIf (count == 128) self.indirect2 newBlocks = .ok (indirect2, rest) ∧
        (slots 156).map
            (treeOf { self with indirect2 := indirect2 } disk) ++
          indirect2.toNat ::
            ((second (count - 128)).map
                (secondTree (indexBlock (disk indirect2.toNat)) disk) ++
              ids rest) =
          all := by
  have slotsEq : slots 156 = slots 28 ++ .indirect1 :: first 128 := by
    rw [slots_single (by decide) (Nat.le_refl 156)]
  have treeEq (indirect2 : BitVec 32) :
      (slots 156).map (treeOf { self with indirect2 := indirect2 } disk) =
        (slots 156).map (self.treeOf disk) := by
    apply map_congr_left
    exact treeOf_congr (fun _ _ => rfl) (fun _ => rfl) (fun _ => rfl)
      (fun most => by omega) (fun most => by omega)
      (fun index most => by omega)
  rw [Arranged] at arranged
  by_cases reached : count = 128
  · subst reached
    obtain ⟨block, rest, rfl⟩ := exists_cons_of_ne_nil (more rfl)
    refine ⟨block, rest, nextIf_cons _ _ _, ?_⟩
    rw [beyond_single (Nat.le_refl 128)] at arranged
    rw [treeEq, slotsEq, map_append, map_cons, append_assoc, cons_append]
    exact arranged
  · have notNew : (count == 128) = false := beq_eq_false_iff_ne.mpr reached
    refine ⟨self.indirect2, newBlocks, ?_, ?_⟩
    · rw [notNew, nextIf_false]
    · rw [beyond_double (by omega), map_append, map_cons,
        map_treeOf_second] at arranged
      rw [treeEq, slotsEq, map_append, map_cons, append_assoc, cons_append]
      rw [append_assoc, cons_append] at arranged
      exact arranged

/-- The phases from the first index block on. -/
theorem onDisk_increaseIndirect1 (distinct : all.Nodup)
    (free : ∀ block ∈ all, block ∉ held) (room : held.length < 15)
    (grows : count ≤ total) (positive : 0 < total) (limit : total ≤ 16512)
    (enough : all.length = (slots (28 + total)).length) :
    ∃ grown after,
      (self.increaseIndirect1 count total newBlocks).onDisk held disk =
          .ok (grown, after) ∧
        grown.size = self.size ∧
        grown.type_ = self.type_ ∧
        (slots (28 + total)).map (grown.treeOf after) = all ∧
        ∀ block,
          (∀ slot ∈ slots (28 + total), slot.isIndex →
            grown.treeOf after slot ≠ block) →
          after block = disk block := by
  have slotsEq := slots_beyond positive
  have left (count : Nat) (newBlocks : List (BitVec 32)) {disk : Disk}
      (arranged : self.Arranged disk count newBlocks all) :
      (beyond count).length + newBlocks.length = (beyond total).length := by
    rw [← arranged, slotsEq] at enough
    simp only [length_append, length_map, length_cons] at enough
    omega
  have new := left count newBlocks arranged
  rw [length_beyond, length_beyond] at new
  obtain ⟨rest, disk1, ran1, arranged1, frame1⟩ :=
    arranged.fillIndirect1 free room
      (by split at new <;> split at new <;> omega :
        min total 128 - count ≤ newBlocks.length)
  have restLeft := left _ rest arranged1
  rw [length_beyond, length_beyond] at restLeft
  rw [increaseIndirect1, onDisk_bind_ok ran1]
  by_cases most : total > 128
  · have full : max count (min total 128) = max count 128 := by omega
    rw [full] at arranged1 restLeft ⊢
    rw [if_pos (by omega : 128 < total)] at restLeft
    obtain ⟨indirect2, rest2, taken, arranged2⟩ :=
      arranged1.takeIndirect2 (Nat.le_max_right _ _) (by
        rintro reached rfl
        rw [reached, if_neg (by omega), length_nil] at restLeft
        omega)
    have slotsTotal : 156 + (total - 128) = 28 + total := by omega
    obtain ⟨after, ran2, trees, frame2⟩ :=
      onDisk_increaseIndirect2 arranged2 distinct free room
        (by omega : max count 128 - 128 ≤ total - 128) (by omega) (by omega)
        (by rw [slotsTotal]; exact enough)
    rw [slotsTotal] at trees
    refine ⟨{ self with indirect2 := indirect2 }, after, ?_, rfl, rfl, trees,
      ?_⟩
    · dsimp only
      rw [if_pos most, taken]
      exact ran2
    · intro block notIndex
      have notFirst :=
        notIndex .indirect1 (indirect1_mem_slots.mpr (by omega)) rfl
      have notSecond :=
        notIndex .indirect2 (indirect2_mem_slots.mpr (by omega)) rfl
      rw [frame2 block (Ne.symm notSecond), frame1 block (Ne.symm notFirst)]
      intro index used
      exact Ne.symm
        (notIndex (.sub index) (sub_mem_slots.mpr (by omega)) rfl)
  · have last : max count (min total 128) = total := by omega
    rw [last] at arranged1 restLeft
    have usedUp : rest = [] := eq_nil_of_length_eq_zero (by omega)
    refine ⟨self, disk1, ?_, rfl, rfl, ?_, ?_⟩
    · dsimp only
      rw [if_neg most]
      rfl
    · rw [slotsEq, map_append, map_cons, ← arranged1, usedUp]
      simp only [treeOf, map_nil, append_nil]
    · intro block notIndex
      exact frame1 block
        (Ne.symm (notIndex .indirect1 (indirect1_mem_slots.mpr (by omega)) rfl))

end

/-- Taking the block for `indirect1` when the direct blocks are full. -/
theorem takeIndirect1
    (trees : (slots count).map (self.treeOf disk) ++ ids newBlocks = all)
    (full : 28 ≤ count) (more : count = 28 → newBlocks ≠ []) :
    ∃ indirect1 rest,
      nextIf (count == 28) self.indirect1 newBlocks = .ok (indirect1, rest) ∧
        Arranged { self with indirect1 := indirect1 } disk (count - 28) rest
          all := by
  by_cases reached : count = 28
  · subst reached
    obtain ⟨block, rest, rfl⟩ := exists_cons_of_ne_nil (more rfl)
    refine ⟨block, rest, nextIf_cons _ _ _, ?_⟩
    have treeEq :
        (slots 28).map (treeOf { self with indirect1 := block } disk) =
          (slots 28).map (self.treeOf disk) := by
      apply map_congr_left
      exact treeOf_congr (fun _ _ => rfl) (fun more => by omega)
        (fun more => by omega) (fun _ => rfl) (fun more => by omega)
        (fun index more => by omega)
    rw [Arranged, treeEq, Nat.sub_self, beyond_single (by decide)]
    exact trees
  · have notNew : (count == 28) = false := beq_eq_false_iff_ne.mpr reached
    refine ⟨self.indirect1, newBlocks, ?_, ?_⟩
    · rw [notNew, nextIf_false]
    · have slotsEq := slots_beyond (by omega : 0 < count - 28)
      rw [Nat.add_sub_cancel' full] at slotsEq
      rw [slotsEq, map_append, map_cons, append_assoc, cons_append] at trees
      exact trees

/-- Filling the direct blocks. -/
theorem fillDirect (size : BitVec 32)
    (trees : (slots count).map (self.treeOf disk) ++ ids newBlocks = all)
    (enough : min total 28 - count ≤ newBlocks.length) :
    ∃ direct rest,
      fill self.direct count total newBlocks =
          .ok (direct, max count (min total 28), rest) ∧
        (slots (max count (min total 28))).map
            (treeOf { self with size := size, direct := direct } disk) ++
          ids rest =
          all := by
  obtain ⟨direct, rest, filled, taken, same⟩ :=
    fill_spec self.direct count total newBlocks enough
  refine ⟨direct, rest, filled, ?_⟩
  by_cases nothing : min total 28 ≤ count
  · have unchanged : direct = self.direct :=
      entry_ext fun index => same index (by omega)
    have empty : min total 28 - count = 0 := by omega
    rw [empty, List.range'_zero, map_nil, nil_append] at taken
    rw [Nat.max_eq_left nothing, unchanged, ← taken]
    exact trees
  · have direct_map (tables : DiskInode) {count : Nat} (within : count ≤ 28) :
        (slots count).map (tables.treeOf disk) =
          (List.range count).map (entry tables.direct) := by
      rw [slots_direct within, map_map]
      apply map_congr_left
      intro index member
      have inside := mem_range.mp member
      simp only [Function.comp, treeOf]
      rw [if_pos (by omega)]
    have oldEq :
        (List.range count).map (entry direct) =
          (List.range count).map (entry self.direct) := by
      apply map_congr_left
      intro index member
      exact same index (.inl (mem_range.mp member))
    rw [direct_map self (by omega), taken] at trees
    rw [Nat.max_eq_right (by omega), direct_map _ (by omega),
      range_split (by omega : count ≤ min total 28), map_append, oldEq,
      append_assoc]
    exact trees

/-- What `increase_size` leaves: the inode `grown` on the disk `after`. -/
structure Grown
    (inode : DiskInode) (disk : Disk) (newSize : Nat) (all : List Nat)
    (grown : DiskInode) (after : Disk) : Prop where
  size : grown.size = BitVec.ofNat 32 newSize
  type_ : grown.type_ = inode.type_
  blocks : grown.blocks after = all
  frame :
    ∀ block,
      (∀ slot ∈ slots grown.dataBlocks, slot.isIndex →
        grown.treeOf after slot ≠ block) →
      after block = disk block

theorem dataBlocks_of_size (small : newSize < 2 ^ 32)
    (size : self.size = BitVec.ofNat 32 newSize) :
    self.dataBlocks = dataBlocksOf newSize := by
  rw [dataBlocks, size, BitVec.toNat_ofNat, Nat.mod_eq_of_lt small]

/--
`increase_size` with as many new blocks as the file needs: the old blocks
stay, the new blocks follow them, and only index blocks are written.
-/
theorem onDisk_increaseSize (small : newSize < 2 ^ 32)
    (grows : self.dataBlocks ≤ dataBlocksOf newSize)
    (limit : dataBlocksOf newSize ≤ 16540)
    (enough :
      (self.blocks disk ++ ids newBlocks).length =
        blockCount (dataBlocksOf newSize))
    (distinct : (self.blocks disk ++ ids newBlocks).Nodup)
    (free : ∀ block ∈ self.blocks disk ++ ids newBlocks, block ∉ held)
    (room : held.length < 15) :
    ∃ grown after,
      (self.increaseSize newSize newBlocks).onDisk held disk =
          .ok (grown, after) ∧
        self.Grown disk newSize (self.blocks disk ++ ids newBlocks) grown
          after := by
  generalize allEq : self.blocks disk ++ ids newBlocks = all at *
  generalize totalEq : dataBlocksOf newSize = total at *
  have newBlocksEq :
      dataBlocks { self with size := BitVec.ofNat 32 newSize } = total := by
    rw [dataBlocks_of_size small rfl, totalEq]
  have left (count : Nat) (newBlocks : List (BitVec 32)) (tree : Slot → Nat)
      (trees : (slots count).map tree ++ ids newBlocks = all) :
      blockCount count + newBlocks.length = blockCount total := by
    rw [← trees, length_append, length_map, length_map, length_slots] at enough
    exact enough
  have new := left _ newBlocks _ allEq
  rw [blockCount, blockCount] at new
  obtain ⟨direct, rest, filled, trees⟩ :=
    fillDirect (BitVec.ofNat 32 newSize) allEq
      (by split at new <;> split at new <;> omega :
        min total 28 - self.dataBlocks ≤ newBlocks.length)
  have restLeft := left _ rest _ trees
  rw [blockCount, blockCount] at restLeft
  rw [increaseSize]
  simp only [newBlocksEq, filled]
  show ∃ grown after, (if total > 28 then _ else _ : BlockProg _).onDisk held disk = _ ∧ _
  by_cases more : total > 28
  · have full : max self.dataBlocks (min total 28) = max self.dataBlocks 28 := by
      omega
    rw [full] at trees restLeft ⊢
    obtain ⟨indirect1, rest1, taken, arranged⟩ :=
      takeIndirect1 trees (Nat.le_max_right _ _) (by
        rintro reached rfl
        rw [reached, length_nil] at restLeft
        split at restLeft <;> split at restLeft <;> omega)
    have slotsTotal : 28 + (total - 28) = total := by omega
    obtain ⟨grown, after, ran, size, type_, blocks, frame⟩ :=
      onDisk_increaseIndirect1 arranged distinct free room
        (by omega : max self.dataBlocks 28 - 28 ≤ total - 28) (by omega)
        (by omega) (by rw [slotsTotal, length_slots]; exact enough)
    rw [slotsTotal] at blocks frame
    have counted : grown.dataBlocks = total := by
      rw [dataBlocks_of_size small size, totalEq]
    refine ⟨grown, after, ?_, size, type_, ?_, ?_⟩
    · rw [if_pos more]
      show (BlockProg.ofExcept (nextIf _ self.indirect1 rest) >>= _).onDisk
        held disk = _
      rw [taken]
      exact ran
    · rw [DiskInode.blocks, counted, blocks]
    · rw [counted]
      exact frame
  · have last : max self.dataBlocks (min total 28) = total := by omega
    rw [last] at trees
    have usedUp : rest = [] := by
      have lengths := left _ rest _ trees
      exact eq_nil_of_length_eq_zero (by omega)
    refine ⟨{ self with size := BitVec.ofNat 32 newSize, direct := direct },
      disk, ?_, rfl, rfl, ?_, fun _ _ => rfl⟩
    · rw [if_neg more]
      rfl
    · rw [DiskInode.blocks, dataBlocks_of_size small rfl, totalEq, ← trees,
        usedUp]
      exact (append_nil _).symm

/-! ## The largest file -/

theorem fill_reached {current reached : Nat}
    {words words' : Vector (BitVec 32) count} {rest : List (BitVec 32)}
    (filled : fill words current total newBlocks = .ok (words', reached, rest)) :
    reached = max current (min total count) := by
  induction left : min total count - current
    generalizing words current newBlocks with
  | zero =>
    rw [fill, dif_neg (by omega)] at filled
    cases filled
    omega
  | succ left ih =>
    rw [fill, dif_pos (by omega)] at filled
    cases newBlocks with
    | nil => cases filled
    | cons block newBlocks =>
      have later : reached = max (current + 1) (min total count) :=
        ih filled (by omega)
      omega

variable {after : Disk}

/-- The second level has 128 entries: the loop stops there at the latest. -/
theorem fillIndirect2_limit {a1 b1 a0 : Nat} {b0 : Fin 128}
    {words' : IndirectBlock}
    (returned :
      (fillIndirect2 a1 b1 a0 b0 words newBlocks).onDisk held disk =
        .ok (((), words'), after)) (proper : b1 < 128)
    (within : 128 * a0 + b0 ≤ 16384) :
    128 * a1 + b1 ≤ 16384 := by
  induction left : (a1 + 1 - a0) * 128 - b0.val using Nat.strongRecOn
    generalizing a0 b0 words newBlocks disk with
  | ind measure ih =>
    have small := b0.isLt
    rw [fillIndirect2] at returned
    split at returned
    · next running =>
        obtain ⟨_, _, _, returned⟩ := onDisk_bind_eq_ok.mp returned
        obtain ⟨_, _, indexed, returned⟩ := onDisk_bind_eq_ok.mp returned
        obtain ⟨_, _, _, returned⟩ := onDisk_bind_eq_ok.mp returned
        have inside := (onDisk_index_eq_ok indexed).1
        split at returned
        · next inBlock =>
            refine ih _ ?_ returned ?_ rfl
            · show (a1 + 1 - a0) * 128 - (b0.val + 1) < measure
              omega
            · show 128 * a0 + (b0.val + 1) ≤ 16384
              omega
        · refine ih _ ?_ returned ?_ rfl
          · show (a1 + 1 - (a0 + 1)) * 128 - 0 < measure
            omega
          · show 128 * (a0 + 1) + 0 ≤ 16384
            omega
    · omega

/-- A file that `increase_size` has grown has at most 16540 data blocks. -/
theorem increaseSize_limit {grown : DiskInode}
    (small : newSize < 2 ^ 32) (within : self.dataBlocks ≤ 16540)
    (returned :
      (self.increaseSize newSize newBlocks).onDisk held disk =
        .ok (grown, after)) :
    dataBlocksOf newSize ≤ 16540 := by
  have totalEq :
      dataBlocks { self with size := BitVec.ofNat 32 newSize } =
        dataBlocksOf newSize :=
    dataBlocks_of_size small rfl
  rw [increaseSize] at returned
  simp only [totalEq] at returned
  obtain ⟨⟨direct, current, rest⟩, disk1, filled, returned⟩ :=
    onDisk_bind_eq_ok.mp returned
  have currentEq := fill_reached (onDisk_ofExcept_eq_ok filled).1
  dsimp only at returned
  split at returned
  · obtain ⟨⟨indirect1, rest1⟩, disk2, _, returned⟩ :=
      onDisk_bind_eq_ok.mp returned
    dsimp only at returned
    rw [increaseIndirect1] at returned
    obtain ⟨⟨current1, rest2⟩, disk3, stored, returned⟩ :=
      onDisk_bind_eq_ok.mp returned
    obtain ⟨_, _, words, between, filled1, _⟩ := onDisk_modifyAt_eq_ok stored
    obtain ⟨⟨_, reached1, _⟩, _, filled1, stopped⟩ :=
      onDisk_bind_eq_ok.mp filled1
    have current1Eq := fill_reached (onDisk_ofExcept_eq_ok filled1).1
    cases stopped
    dsimp only at returned
    split at returned
    · obtain ⟨⟨indirect2, rest3⟩, disk4, _, returned⟩ :=
        onDisk_bind_eq_ok.mp returned
      dsimp only at returned
      rw [increaseIndirect2] at returned
      obtain ⟨_, _, stored2, _⟩ := onDisk_bind_eq_ok.mp returned
      obtain ⟨_, _, _, _, looped, _⟩ := onDisk_modifyAt_eq_ok stored2
      have bound :=
        fillIndirect2_limit looped (Nat.mod_lt _ (by decide))
          (by rw [Fin.val_ofNat]; omega)
      omega
    · omega
  · omega

/-- A file without data blocks that "grows" to none again only gets its size. -/
theorem onDisk_increaseSize_empty (small : newSize < 2 ^ 32)
    (empty : self.dataBlocks = 0) (none : dataBlocksOf newSize = 0)
    (newBlocks : List (BitVec 32)) :
    (self.increaseSize newSize newBlocks).onDisk held disk =
      .ok ({ self with size := BitVec.ofNat 32 newSize }, disk) := by
  have totalEq :
      dataBlocks { self with size := BitVec.ofNat 32 newSize } = 0 :=
    (dataBlocks_of_size small rfl).trans none
  have unfilled :
      fill self.direct 0 0 newBlocks = .ok (self.direct, 0, newBlocks) := by
    rw [fill, dif_neg (by omega)]
  rw [increaseSize]
  simp only [totalEq, empty, unfilled]
  rfl

end DiskInode

end RCoreOS.EasyFs
