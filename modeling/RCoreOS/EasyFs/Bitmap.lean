import RCoreOS.EasyFs.BlockView
import RCoreOS.Lib.WordBits

/-!
# Bitmaps on disk

A bitmap is a run of blocks of `BLOCK_BITS = 4096` bits each.  `alloc` walks the blocks and
takes the lowest zero bit of the first block that has one; `dealloc` clears a
bit that must be set.

`Bitmap.bit` reads one bit from a disk.  The two specifications say which bit
each operation changes, that every other bit of the bitmap stays as it is,
and that no block outside the bitmap is touched.
-/

namespace RCoreOS.EasyFs

open Lib.Bytes BlockProg Function
open List hiding Vector
open Lib.WordBits

/-- `Bitmap` -/
structure Bitmap where
  startBlockId : Nat
  blocks : Nat
deriving DecidableEq, Repr

/-- `decomposition`: (block_pos, bits64_pos, inner_pos) -/
def decomposition (bit : Nat) : Nat × Nat × Nat :=
  (bit / 4096, bit % 4096 / 64, bit % 4096 % 64)

namespace Bitmap

/-- `Bitmap::new` -/
def new (startBlockId blocks : Nat) : Bitmap := ⟨startBlockId, blocks⟩

/-- `Bitmap::maximum` -/
def maximum (self : Bitmap) : Nat := self.blocks * 4096

/-- `iter().enumerate().find(|(_, bits64)| **bits64 != u64::MAX)` -/
def findFree (bitmapBlock : BitmapBlock) : Option (Fin 64) :=
  Fin.find? fun position => bitmapBlock[position.val] != BitVec.allOnes 64

/-- The closure of `alloc` on one bitmap block. -/
def allocIn (blockId : Nat) (bitmapBlock : BitmapBlock) :
    Option Nat × BitmapBlock :=
  match findFree bitmapBlock with
  | some bits64Pos =>
    let innerPos := trailingOnes bitmapBlock[bits64Pos.val]
    (some (blockId * 4096 + bits64Pos * 64 + innerPos),
      bitmapBlock.set bits64Pos
        (bitmapBlock[bits64Pos.val] ||| oneAt innerPos))
  | none => (none, bitmapBlock)

/-- The loop of `alloc` over the bitmap blocks. -/
def allocLoop (self : Bitmap) : List Nat → BlockProg (Option Nat)
  | [] => return none
  | blockId :: rest => do
      let pos ← BlockProg.modifyAt (blockId + self.startBlockId) 0
        fun bitmapBlock => return allocIn blockId bitmapBlock
      if pos.isSome then return pos else self.allocLoop rest

/-- `Bitmap::alloc` -/
def alloc (self : Bitmap) : BlockProg (Option Nat) :=
  self.allocLoop (List.range self.blocks)

/-- `Bitmap::dealloc` -/
def dealloc (self : Bitmap) (bit : Nat) : BlockProg Unit :=
  let (blockPos, bits64Pos, innerPos) := decomposition bit
  BlockProg.modifyAt (blockPos + self.startBlockId) 0
    fun bitmapBlock : BitmapBlock =>
      if inside : bits64Pos < 64 then
        if 0#64 < bitmapBlock[bits64Pos] &&& oneAt innerPos then
          return ((), bitmapBlock.set bits64Pos
            (bitmapBlock[bits64Pos] - oneAt innerPos))
        else
          .fail .assertFailed
      else
        .fail .indexOutOfRange

/-! ## The bits of one block -/

/-- Bit `index` of a bitmap block. -/
def blockBit (words : BitmapBlock) (index : Nat) : Bool :=
  if inside : index / 64 < 64 then
    words[index / 64].getLsbD (index % 64)
  else
    false

variable {position : Nat}

theorem blockBit_set (words : BitmapBlock) (inside : position < 64)
    (word : BitVec 64) (index : Nat) :
    blockBit (words.set position word) index =
      if index / 64 = position then word.getLsbD (index % 64)
      else blockBit words index := by
  unfold blockBit
  by_cases inBlock : index / 64 < 64
  · rw [dif_pos inBlock, dif_pos inBlock, Vector.getElem_set]
    by_cases equal : position = index / 64
    · rw [if_pos equal, if_pos equal.symm]
    · rw [if_neg equal, if_neg (Ne.symm equal)]
  · have different : index / 64 ≠ position := by omega
    rw [dif_neg inBlock, dif_neg inBlock, if_neg different]

theorem blockBit_mul_add (words : BitmapBlock) {bit : Nat}
    (inBlock : position < 64) (inWord : bit < 64) :
    blockBit words (position * 64 + bit) = words[position].getLsbD bit := by
  have quotient : (position * 64 + bit) / 64 = position := by omega
  have remainder : (position * 64 + bit) % 64 = bit := by omega
  rw [blockBit, dif_pos (by omega)]
  simp only [quotient, remainder]

variable {words : BitmapBlock}

theorem findFree_eq_none :
    findFree words = none ↔
      ∀ index, index < 4096 → blockBit words index = true := by
  rw [findFree, Fin.find?_eq_none_iff]
  constructor
  · intro allFull index inside
    have wordFull := allFull ⟨index / 64, by omega⟩
    rw [bne_eq_false_iff_eq] at wordFull
    rw [blockBit, dif_pos (by omega), wordFull, BitVec.getLsbD_allOnes]
    exact decide_eq_true (Nat.mod_lt _ (by decide))
  · intro allSet position
    rw [bne_eq_false_iff_eq]
    apply BitVec.eq_of_getLsbD_eq
    intro bit inWord
    rw [← blockBit_mul_add words position.isLt inWord,
      allSet _ (by omega), BitVec.getLsbD_allOnes, decide_eq_true inWord]

/-- The word that `findFree` picks has a zero; all words before it are full. -/
theorem findFree_eq_some {position : Fin 64}
    (found : findFree words = some position) :
    words[position.val] ≠ BitVec.allOnes 64 ∧
      ∀ index, index / 64 < position.val → blockBit words index = true := by
  rw [findFree] at found
  obtain ⟨notFull, below⟩ := Fin.find?_eq_some_iff.mp found
  refine ⟨bne_iff_ne.mp notFull, ?_⟩
  intro index earlier
  have wordFull := below ⟨index / 64, by omega⟩ (Fin.lt_def.mpr earlier)
  rw [bne_eq_false_iff_eq] at wordFull
  rw [blockBit, dif_pos (by omega), wordFull, BitVec.getLsbD_allOnes]
  exact decide_eq_true (Nat.mod_lt _ (by decide))

/-- A full block: `alloc` goes on to the next one. -/
theorem allocIn_none (blockId : Nat)
    (full : ∀ index, index < 4096 → blockBit words index = true) :
    allocIn blockId words = (none, words) := by
  have notFound : findFree words = none := findFree_eq_none.mpr full
  unfold allocIn
  rw [notFound]

/-- A block with a zero bit: the lowest one is taken. -/
theorem allocIn_some (blockId : Nat)
    (free : ∃ index, index < 4096 ∧ blockBit words index = false) :
    ∃ index after,
      allocIn blockId words = (some (blockId * 4096 + index), after) ∧
        index < 4096 ∧
        blockBit words index = false ∧
        (∀ lower, lower < index → blockBit words lower = true) ∧
        ∀ other,
          blockBit after other =
            (blockBit words other || decide (other = index)) := by
  cases found : findFree words with
  | none =>
    obtain ⟨index, inside, clear⟩ := free
    rw [findFree_eq_none.mp found index inside] at clear
    cases clear
  | some position =>
    obtain ⟨notFull, below⟩ := findFree_eq_some found
    have inner := trailingOnes_lt notFull
    have bounded := position.isLt
    have unfolded :
        allocIn blockId words =
          (some (blockId * 4096 + position * 64 +
              trailingOnes words[position.val]),
            words.set position (words[position.val] |||
              oneAt (trailingOnes words[position.val]))) := by
      unfold allocIn
      rw [found]
    rw [unfolded, Nat.add_assoc]
    generalize innerEq : trailingOnes words[position.val] = innerPos at *
    refine ⟨position * 64 + innerPos,
      words.set position (words[position.val] ||| oneAt innerPos),
      rfl, by omega, ?_, ?_, ?_⟩
    · rw [blockBit_mul_add words bounded inner, ← innerEq]
      exact getLsbD_trailingOnes notFull
    · intro lower lowerLt
      by_cases sameWord : lower / 64 = position.val
      · have split : lower = position.val * 64 + lower % 64 := by omega
        have inWord : lower % 64 < 64 := Nat.mod_lt _ (by decide)
        rw [split, blockBit_mul_add words bounded inWord]
        exact getLsbD_below_trailingOnes notFull (by omega)
      · exact below lower (by omega)
    · intro other
      rw [blockBit_set _ bounded]
      by_cases sameWord : other / 64 = position.val
      · have split : other = position.val * 64 + other % 64 := by omega
        have inWord : other % 64 < 64 := Nat.mod_lt _ (by decide)
        have sameBit :
            decide (other % 64 = innerPos) =
              decide (other = position * 64 + innerPos) := by
          rw [decide_eq_decide]
          omega
        rw [if_pos sameWord, getLsbD_or_oneAt _ inner,
          ← blockBit_mul_add words bounded inWord, ← split, sameBit]
      · have different : other ≠ position * 64 + innerPos := by omega
        rw [if_neg sameWord, decide_eq_false different, Bool.or_false]

/-- Subtracting the one bit of a set position clears it. -/
theorem blockBit_clear {index : Nat} (inside : index < 4096)
    (isSet : blockBit words index = true) (other : Nat) :
    blockBit
        (words.set (index / 64) (words[index / 64] - oneAt (index % 64)))
        other =
      (blockBit words other && decide (other ≠ index)) := by
  have wordInside : index / 64 < 64 := by omega
  have bitInside : index % 64 < 64 := Nat.mod_lt _ (by decide)
  rw [blockBit, dif_pos wordInside] at isSet
  rw [blockBit_set _ wordInside]
  by_cases sameWord : other / 64 = index / 64
  · have sameBit :
        (!decide (other % 64 = index % 64)) = decide (other ≠ index) := by
      rw [← decide_not, decide_eq_decide]
      omega
    have split : other = index / 64 * 64 + other % 64 := by omega
    have inWord : other % 64 < 64 := Nat.mod_lt _ (by decide)
    have word := blockBit_mul_add words wordInside inWord
    rw [← split] at word
    rw [if_pos sameWord, getLsbD_sub_oneAt bitInside isSet, ← word, sameBit]
  · have different : other ≠ index := by
      rintro rfl
      exact sameWord rfl
    rw [if_neg sameWord, decide_eq_true different, Bool.and_true]

/-! ## The bits on a disk -/

/-- Bit `n` of the bitmap, as it lies on `disk`. -/
def bit (self : Bitmap) (disk : Disk) (n : Nat) : Bool :=
  blockBit (bitmapBlock (disk (n / 4096 + self.startBlockId))) (n % 4096)

/-- The block ids that the bitmap occupies. -/
def Covers (self : Bitmap) (blockId : Nat) : Prop :=
  self.startBlockId ≤ blockId ∧ blockId < self.startBlockId + self.blocks

variable {self : Bitmap} {disk after : Disk} {held : List Nat}

theorem bit_block (self : Bitmap) (disk : Disk) (block : Nat)
    {index : Nat} (inside : index < 4096) :
    self.bit disk (block * 4096 + index) =
      blockBit (bitmapBlock (disk (block + self.startBlockId))) index := by
  have quotient : (block * 4096 + index) / 4096 = block := by omega
  have remainder : (block * 4096 + index) % 4096 = index := by omega
  rw [bit, quotient, remainder]

variable {n : Nat}

/-- Disks that agree on the bitmap blocks have the same bits. -/
theorem bit_congr
    (agree : ∀ blockId, self.Covers blockId → after blockId = disk blockId)
    (inside : n < self.maximum) :
    self.bit after n = self.bit disk n := by
  rw [maximum] at inside
  rw [bit, bit, agree (n / 4096 + self.startBlockId) ⟨by omega, by omega⟩]

/-- Storing other words in one bitmap block, bit by bit. -/
theorem bit_update (block : Nat) (words : BitmapBlock) (n : Nat) :
    self.bit
        (Function.update disk (block + self.startBlockId)
          (storeWords (disk (block + self.startBlockId)) 0 words)) n =
      if n / 4096 = block then blockBit words (n % 4096)
      else self.bit disk n := by
  by_cases same : n / 4096 = block
  · rw [if_pos same, bit, same, update_self, bitmapBlock_storeWords]
  · have different : n / 4096 + self.startBlockId ≠ block + self.startBlockId := by
      omega
    rw [if_neg same, bit, bit, update_of_ne different]

/-- What `alloc` does when it returns `Some(n)`. -/
structure Allocated
    (bitmap : Bitmap) (before : Disk) (n : Nat) (after : Disk) : Prop where
  inside : n < bitmap.maximum
  clear : bitmap.bit before n = false
  lowest : ∀ lower, lower < n → bitmap.bit before lower = true
  bits :
    ∀ other,
      bitmap.bit after other = (bitmap.bit before other || decide (other = n))
  frame : ∀ blockId, ¬ bitmap.Covers blockId → after blockId = before blockId

section

variable
  (lockable : ∀ blockId, self.Covers blockId → BlockProg.CanLock held blockId)

include lockable

/--
The loop from block `first` on, when all earlier blocks are full: either the
rest of the bitmap is full too, or the lowest zero bit is taken.
-/
theorem onDisk_allocLoop
    (count first : Nat) (within : first + count = self.blocks)
    (full : ∀ n, n < first * 4096 → self.bit disk n = true) :
    ((∀ n, n < self.maximum → self.bit disk n = true) ∧
        (self.allocLoop (List.range' first count)).onDisk held disk =
          .ok (none, disk)) ∨
      ∃ n after,
        (self.allocLoop (List.range' first count)).onDisk held disk =
            .ok (some n, after) ∧
          self.Allocated disk n after := by
  induction count generalizing first with
  | zero =>
    refine .inl ⟨?_, rfl⟩
    intro n inside
    rw [maximum, ← within, Nat.add_zero] at inside
    exact full n inside
  | succ count ih =>
    have covered : self.Covers (first + self.startBlockId) :=
      ⟨by omega, by omega⟩
    generalize wordsEq :
      bitmapBlock (disk (first + self.startBlockId)) = words
    have loaded :
        BlockView.load (disk (first + self.startBlockId)) 0 = words := wordsEq
    have bitsOfBlock : ∀ {index}, index < 4096 →
        self.bit disk (first * 4096 + index) = blockBit words index := by
      intro index inside
      rw [bit_block self disk first inside, wordsEq]
    have body (outcome : Option Nat × BitmapBlock)
        (result : allocIn first words = outcome) :
        (BlockProg.modifyAt (first + self.startBlockId) 0
          fun bitmapBlock => return allocIn first bitmapBlock).onDisk
            held disk =
          .ok (outcome.1,
            Function.update disk (first + self.startBlockId)
              (storeWords (disk (first + self.startBlockId)) 0
                outcome.2)) := by
      apply onDisk_modifyAt (lockable _ covered) (Nat.le_refl 512)
      rw [loaded, result]
      rfl
    rw [List.range'_succ, allocLoop]
    by_cases blockFull : ∀ index, index < 4096 → blockBit words index = true
    · have step := body _ (allocIn_none first blockFull)
      rw [← wordsEq, storeWords_bitmapBlock, update_eq_self] at step
      rw [onDisk_bind_ok step]
      apply ih (first + 1) (by omega)
      intro n inside
      by_cases earlier : n < first * 4096
      · exact full n earlier
      · have split : n = first * 4096 + (n - first * 4096) := by omega
        rw [split, bitsOfBlock (by omega)]
        exact blockFull _ (by omega)
    · have free : ∃ index, index < 4096 ∧ blockBit words index = false := by
        simpa using blockFull
      obtain ⟨index, words', allocated, inBlock, clear, below, others⟩ :=
        allocIn_some first free
      rw [onDisk_bind_ok (body _ allocated)]
      refine .inr ⟨first * 4096 + index, _, rfl, ?_⟩
      constructor
      · rw [maximum]
        omega
      · rw [bitsOfBlock inBlock, clear]
      · intro lower lowerLt
        by_cases earlier : lower < first * 4096
        · exact full lower earlier
        · have split : lower = first * 4096 + (lower - first * 4096) := by
            omega
          rw [split, bitsOfBlock (by omega)]
          exact below _ (by omega)
      · intro other
        rw [bit_update]
        by_cases same : other / 4096 = first
        · have split : other = first * 4096 + other % 4096 := by omega
          have sameBit :
              decide (other % 4096 = index) =
                decide (other = first * 4096 + index) := by
            rw [decide_eq_decide]
            omega
          have before := bitsOfBlock (Nat.mod_lt other (by decide : 4096 > 0))
          rw [← split] at before
          rw [if_pos same, others, before, sameBit]
        · have different : other ≠ first * 4096 + index := by omega
          rw [if_neg same, decide_eq_false different, Bool.or_false]
      · intro blockId outside
        apply update_of_ne
        rintro rfl
        exact outside covered

/-- `alloc` takes the lowest zero bit, or finds none and changes nothing. -/
theorem onDisk_alloc (disk : Disk) :
    ((∀ n, n < self.maximum → self.bit disk n = true) ∧
        self.alloc.onDisk held disk = .ok (none, disk)) ∨
      ∃ n after,
        self.alloc.onDisk held disk = .ok (some n, after) ∧
          self.Allocated disk n after := by
  rw [alloc, range_eq_range']
  exact onDisk_allocLoop lockable self.blocks 0 (Nat.zero_add _)
    (fun n inside => by omega)

end

/-- What `dealloc` does to the bits. -/
structure Deallocated
    (bitmap : Bitmap) (before : Disk) (n : Nat) (after : Disk) : Prop where
  bits :
    ∀ other,
      bitmap.bit after other = (bitmap.bit before other && decide (other ≠ n))
  frame : ∀ blockId, ¬ bitmap.Covers blockId → after blockId = before blockId

/-- `dealloc` of a set bit clears that bit and no other. -/
theorem onDisk_dealloc
    (lockable : ∀ blockId, self.Covers blockId → BlockProg.CanLock held blockId)
    (inside : n < self.maximum) (isSet : self.bit disk n = true) :
    ∃ after,
      (self.dealloc n).onDisk held disk = .ok ((), after) ∧
        self.Deallocated disk n after := by
  rw [maximum] at inside
  have covered : self.Covers (n / 4096 + self.startBlockId) :=
    ⟨by omega, by omega⟩
  have inBlock : n % 4096 < 4096 := Nat.mod_lt _ (by decide)
  have wordInside : n % 4096 / 64 < 64 := by omega
  rw [bit] at isSet
  generalize wordsEq :
    bitmapBlock (disk (n / 4096 + self.startBlockId)) = words at isSet
  have loaded :
      BlockView.load (disk (n / 4096 + self.startBlockId)) 0 = words := wordsEq
  have wordBit : words[n % 4096 / 64].getLsbD (n % 4096 % 64) = true := by
    rw [blockBit, dif_pos wordInside] at isSet
    exact isSet
  have step :
      (self.dealloc n).onDisk held disk =
        .ok ((), Function.update disk (n / 4096 + self.startBlockId)
          (storeWords (disk (n / 4096 + self.startBlockId)) 0
            (words.set (n % 4096 / 64)
              (words[n % 4096 / 64] - oneAt (n % 4096 % 64))))) := by
    rw [dealloc, decomposition]
    apply onDisk_modifyAt (lockable _ covered) (Nat.le_refl 512)
    rw [loaded, dif_pos wordInside,
      if_pos ((and_oneAt_pos _ (Nat.mod_lt _ (by decide))).mpr wordBit)]
    rfl
  refine ⟨_, step, ?_, ?_⟩
  · intro other
    rw [bit_update]
    by_cases sameBlock : other / 4096 = n / 4096
    · have sameBit :
          decide (other % 4096 ≠ n % 4096) = decide (other ≠ n) := by
        rw [decide_eq_decide]
        omega
      rw [if_pos sameBlock, blockBit_clear inBlock isSet, sameBit, bit,
        sameBlock, wordsEq]
    · have different : other ≠ n := by
        rintro rfl
        exact sameBlock rfl
      rw [if_neg sameBlock, decide_eq_true different, Bool.and_true]
  · intro blockId outside
    apply update_of_ne
    rintro rfl
    exact outside covered

/-! ## How many bits are set -/

/-- The number of set bits. -/
def used (self : Bitmap) (disk : Disk) : Nat :=
  (List.range self.maximum).countP (self.bit disk)

theorem used_le (self : Bitmap) (disk : Disk) :
    self.used disk ≤ self.maximum := by
  have bound := @List.countP_le_length _ (self.bit disk) (List.range self.maximum)
  rwa [length_range] at bound

theorem used_congr
    (agree : ∀ blockId, self.Covers blockId → after blockId = disk blockId) :
    self.used after = self.used disk := by
  rw [used, used]
  apply countP_congr
  intro n member
  rw [bit_congr agree (mem_range.mp member)]

/-- All bits of a full bitmap are set. -/
theorem bit_of_full (full : self.maximum ≤ self.used disk)
    (inside : n < self.maximum) : self.bit disk n = true := by
  have all :
      (List.range self.maximum).countP (self.bit disk) =
        (List.range self.maximum).length := by
    rw [length_range]
    exact Nat.le_antisymm (self.used_le disk) full
  exact countP_eq_length.mp all n (mem_range.mpr inside)

/-- A bitmap that is not full has a zero bit. -/
theorem exists_clear (notFull : self.used disk < self.maximum) :
    ∃ n, n < self.maximum ∧ self.bit disk n = false := by
  by_contra none
  have full : self.used disk = (List.range self.maximum).length := by
    rw [used, countP_eq_length]
    intro n member
    by_contra clear
    exact none ⟨n, mem_range.mp member, Bool.not_eq_true _ ▸ clear⟩
  rw [length_range] at full
  omega

/-- Setting one bit of a range adds one to its count. -/
theorem countP_set {before after : Nat → Bool} (clear : before n = false)
    (bits : ∀ other, after other = (before other || decide (other = n)))
    (bound : Nat) :
    (List.range bound).countP after =
      (List.range bound).countP before + (if n < bound then 1 else 0) := by
  induction bound with
  | zero => rfl
  | succ bound ih =>
    rw [range_succ, countP_append, countP_append, ih,
      countP_singleton, countP_singleton, bits bound]
    by_cases here : bound = n
    · subst here
      rw [clear]
      simp
    · have same : (n < bound + 1) = (n < bound) := by
        apply propext
        omega
      simp only [here, decide_false, Bool.or_false, same]
      omega

theorem Allocated.used_eq (allocated : self.Allocated disk n after) :
    self.used after = self.used disk + 1 := by
  rw [used, used, countP_set allocated.clear allocated.bits,
    if_pos allocated.inside]

/-- When all bits below `n` are set, at least `n` bits are. -/
theorem le_used (inside : n ≤ self.maximum)
    (lower : ∀ other, other < n → self.bit disk other = true) :
    n ≤ self.used disk := by
  obtain ⟨more, total⟩ := Nat.exists_eq_add_of_le inside
  have first : (List.range n).countP (self.bit disk) = (List.range n).length :=
    countP_eq_length.mpr fun other member => lower other (mem_range.mp member)
  rw [used, total, range_add, countP_append, first, length_range]
  omega

end Bitmap

end RCoreOS.EasyFs
