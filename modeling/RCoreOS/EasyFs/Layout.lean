import RCoreOS.EasyFs.BlockView
import RCoreOS.Lib.Segments

/-!
# The disk layout layer

`SuperBlock`, `DiskInode` and `DirEntry` with their byte layouts, and the
operations of `DiskInode`: the logical-to-physical block mapping, growing and
clearing a file, and the copy loops.

A disk inode maps `INODE_DIRECT_COUNT = 28` blocks directly, the next
`INODE_INDIRECT1_COUNT = 128` through one index block and the last
`INODE_INDIRECT2_COUNT = 128 * 128` through two levels, so `DIRECT_BOUND = 28`
and `INDIRECT1_BOUND = 156`.  Words on disk are bit vectors; `usize` and `u32`
arithmetic is on natural numbers, reduced where it can wrap.
-/

namespace RCoreOS.EasyFs

open Lib.Bytes Lib.Segments

/-! ## Indexing -/

/-- `words[index]` -/
def BlockProg.index {α : Type} {count : Nat}
    (words : Vector α count) (index : Nat) : BlockProg α :=
  if inside : index < count then .done words[index]
  else BlockProg.fail .indexOutOfRange

/-! ## The superblock -/

/-- `EFS_MAGIC` -/
def efsMagic : BitVec 32 := 0x3b800001

/-- `SuperBlock` -/
structure SuperBlock where
  magic : BitVec 32
  totalBlocks : BitVec 32
  inodeBitmapBlocks : BitVec 32
  inodeAreaBlocks : BitVec 32
  dataBitmapBlocks : BitVec 32
  dataAreaBlocks : BitVec 32
deriving DecidableEq, Repr

namespace SuperBlock

/-- The value that `SuperBlock::initialize` assigns. -/
def initialized
    (totalBlocks inodeBitmapBlocks inodeAreaBlocks dataBitmapBlocks
      dataAreaBlocks : BitVec 32) : SuperBlock where
  magic := efsMagic
  totalBlocks := totalBlocks
  inodeBitmapBlocks := inodeBitmapBlocks
  inodeAreaBlocks := inodeAreaBlocks
  dataBitmapBlocks := dataBitmapBlocks
  dataAreaBlocks := dataAreaBlocks

/-- `SuperBlock::is_valid` -/
def isValid (self : SuperBlock) : Bool := self.magic == efsMagic

/-- The six words of the superblock in memory order. -/
def words (self : SuperBlock) : Vector (BitVec 32) 6 :=
  #v[self.magic, self.totalBlocks, self.inodeBitmapBlocks,
    self.inodeAreaBlocks, self.dataBitmapBlocks, self.dataAreaBlocks]

/-- The superblock with the given words. -/
def ofWords (words : Vector (BitVec 32) 6) : SuperBlock where
  magic := words[0]
  totalBlocks := words[1]
  inodeBitmapBlocks := words[2]
  inodeAreaBlocks := words[3]
  dataBitmapBlocks := words[4]
  dataAreaBlocks := words[5]

instance : BlockView SuperBlock where
  size := 24
  load contents offset := ofWords (loadWords 32 6 contents offset)
  store contents offset value := storeWords contents offset value.words

/-- A superblock that was stored is loaded back. -/
theorem load_store (contents : Block) (value : SuperBlock) :
    BlockView.load (BlockView.store contents 0 value) 0 = value := by
  show ofWords (loadWords 32 6 (storeWords contents 0 value.words) 0) = value
  rw [loadWords_storeWords (by decide) _ _ _ (by decide)]
  rfl

end SuperBlock

/-! ## Disk inodes -/

/-- `DiskInodeType` -/
inductive DiskInodeType where
  | file
  | directory
deriving DecidableEq, Repr

namespace DiskInodeType

/-- The discriminant of a type. -/
def tag : DiskInodeType → UInt8
  | .file => 0
  | .directory => 1

/--
The type with a given discriminant.  Any other byte is not a value of the
enumeration; it compares unequal to `Directory`.
-/
def ofTag (byte : UInt8) : DiskInodeType :=
  if byte = 1 then .directory else .file

@[simp]
theorem ofTag_tag (type_ : DiskInodeType) : ofTag type_.tag = type_ := by
  cases type_ <;> rfl

end DiskInodeType

/-- `DiskInode` -/
structure DiskInode where
  size : BitVec 32
  direct : Vector (BitVec 32) 28
  indirect1 : BitVec 32
  indirect2 : BitVec 32
  type_ : DiskInodeType
deriving DecidableEq

namespace DiskInode

/-- The 31 words of a disk inode in memory order. -/
def words (self : DiskInode) : Vector (BitVec 32) 31 :=
  Vector.ofFn fun index : Fin 31 =>
    if index.val = 0 then self.size
    else if inDirect : index.val ≤ 28 then self.direct[index.val - 1]
    else if index.val = 29 then self.indirect1
    else self.indirect2

/-- The disk inode with the given words and type. -/
def ofWords (words : Vector (BitVec 32) 31) (type_ : DiskInodeType) :
    DiskInode where
  size := words[0]
  direct := Vector.ofFn fun index : Fin 28 => words[index.val + 1]
  indirect1 := words[29]
  indirect2 := words[30]
  type_ := type_

/--
A `repr(C)` value of 128 bytes: the words, the type byte and three bytes of
padding.  The type byte is written only when the type changes.
-/
instance : BlockView DiskInode where
  size := 128
  load contents offset :=
    ofWords (loadWords 32 31 contents offset)
      (DiskInodeType.ofTag (byteAt contents (offset + 124)))
  store contents offset value :=
    let contents := storeWords contents offset value.words
    if DiskInodeType.ofTag (byteAt contents (offset + 124)) = value.type_ then
      contents
    else
      splice contents (offset + 124) [value.type_.tag]

@[simp]
theorem ofWords_words (self : DiskInode) :
    ofWords self.words self.type_ = self := by
  cases self with
  | mk size direct indirect1 indirect2 type_ =>
    have directEq :
        (Vector.ofFn fun index : Fin 28 =>
          (words ⟨size, direct, indirect1, indirect2, type_⟩)[index.val + 1]) =
          direct := by
      apply Vector.ext
      intro index inside
      simp only [words, Vector.getElem_ofFn]
      rw [if_neg (by omega), dif_pos (by omega)]
      simp only [Nat.add_sub_cancel]
    simp only [ofWords, directEq]
    simp [words]

theorem words_ofWords (words : Vector (BitVec 32) 31) (type_ : DiskInodeType) :
    (ofWords words type_).words = words := by
  apply Vector.ext
  intro index inside
  simp only [DiskInode.words, ofWords, Vector.getElem_ofFn]
  split
  · next first => simp only [first]
  · next notFirst =>
      split
      · have shifted : index - 1 + 1 = index := by omega
        simp only [shifted]
      · split
        · next isLast => simp only [isLast]
        · have last : index = 30 := by omega
          simp only [last]

variable {offset : Nat}

/-- Storing an inode touches no byte outside its slot. -/
theorem byteAt_store_outside (contents : Block) (value : DiskInode)
    {index : Nat} (outside : index < offset ∨ offset + 128 ≤ index) :
    byteAt (BlockView.store contents offset value) index =
      byteAt contents index := by
  have words :
      byteAt (storeWords contents offset value.words) index =
        byteAt contents index :=
    byteAt_storeWords_outside (by omega) (by decide)
  simp only [BlockView.store]
  split
  · exact words
  · by_cases inside : index < 512
    · rw [byteAt_splice _ _ _ inside, if_neg, words]
      rw [List.length_singleton]
      omega
    · rw [byteAt_outside _ (Nat.not_lt.mp inside),
        byteAt_outside _ (Nat.not_lt.mp inside)]

theorem load_congr {left right : Block}
    (agree :
      ∀ index, offset ≤ index → index < offset + 128 →
        byteAt left index = byteAt right index) :
    (BlockView.load left offset : DiskInode) = BlockView.load right offset := by
  simp only [BlockView.load]
  rw [loadWords_congr (by decide) fun index from_ below =>
      agree index from_ (by omega),
    agree (offset + 124) (by omega) (by omega)]

/-- An inode that was stored is loaded back. -/
theorem load_store (contents : Block) (value : DiskInode)
    (fits : offset + 128 ≤ 512) :
    BlockView.load (BlockView.store contents offset value) offset = value := by
  have wordsBack :
      loadWords 32 31 (storeWords contents offset value.words) offset =
        value.words :=
    loadWords_storeWords (by decide) _ _ _ (by omega)
  simp only [BlockView.load, BlockView.store]
  split
  · next sameType => rw [wordsBack, sameType, ofWords_words]
  · have kept :
        loadWords 32 31
            (splice (storeWords contents offset value.words) (offset + 124)
              [value.type_.tag]) offset =
          value.words := by
      refine Eq.trans ?_ wordsBack
      apply loadWords_congr (by decide)
      intro index from_ below
      rw [byteAt_splice _ _ _ (by omega), if_neg (by omega)]
    rw [kept, byteAt_splice _ _ _ (by omega), if_pos (by simp)]
    simp

/-- Storing the inode that is already there changes nothing. -/
theorem store_load (contents : Block) (offset : Nat) :
    BlockView.store contents offset
        (BlockView.load contents offset : DiskInode) =
      contents := by
  have words :
      storeWords contents offset (loadWords 32 31 contents offset) = contents :=
    storeWords_loadWords (by decide) (by decide) contents offset
  simp only [BlockView.load, BlockView.store, words_ofWords, words]
  exact if_pos rfl

/-- Storing an inode in another slot of the block changes nothing here. -/
theorem load_store_other (contents : Block) (value : DiskInode) {other : Nat}
    (disjoint : offset + 128 ≤ other ∨ other + 128 ≤ offset) :
    (BlockView.load (BlockView.store contents other value) offset :
        DiskInode) =
      BlockView.load contents offset :=
  load_congr fun index from_ below =>
    byteAt_store_outside contents value (by omega)

/-- A slot of zero bytes is an empty file. -/
theorem load_zeros (offset : Nat) :
    (BlockView.load (zeros : Block) offset : DiskInode) =
      ⟨0, Vector.replicate 28 0, 0, 0, .file⟩ := by
  simp only [BlockView.load, ofWords, getElem_loadWords _ _, wordAt_zeros,
    byteAt_zeros, mk.injEq, true_and]
  refine ⟨?_, rfl⟩
  apply Vector.ext
  intro index inside
  rw [Vector.getElem_ofFn, Vector.getElem_replicate]

/-- The value that `DiskInode::initialize` leaves. -/
def initialized (type_ : DiskInodeType) : DiskInode where
  size := 0
  direct := Vector.replicate 28 0
  indirect1 := 0
  indirect2 := 0
  type_ := type_

/-- `DiskInode::is_dir` -/
def isDir (self : DiskInode) : Bool := self.type_ == .directory

/-- `DiskInode::_data_blocks` -/
def dataBlocksOf (size : Nat) : Nat := (size + 511) % 2 ^ 32 / 512

/-- `DiskInode::data_blocks` -/
def dataBlocks (self : DiskInode) : Nat := dataBlocksOf self.size.toNat

/-- `DiskInode::total_blocks` -/
def totalBlocks (size : Nat) : Nat :=
  let dataBlocks := dataBlocksOf size
  let indirect1 := if dataBlocks > 28 then 1 else 0
  let indirect2 :=
    if dataBlocks > 156 then 1 + (dataBlocks - 156 + 127) / 128 else 0
  dataBlocks + indirect1 + indirect2

/-- `DiskInode::blocks_num_needed` -/
def blocksNumNeeded (self : DiskInode) (newSize : Nat) : Except Fault Nat :=
  if newSize ≥ self.size.toNat then
    .ok ((totalBlocks newSize + 2 ^ 32 - totalBlocks self.size.toNat) % 2 ^ 32)
  else
    .error .assertFailed

/-- `DiskInode::get_block_id` -/
def getBlockId (self : DiskInode) (innerId : Nat) : BlockProg (BitVec 32) :=
  if innerId < 28 then
    BlockProg.index self.direct innerId
  else if innerId < 156 then
    BlockProg.readAt self.indirect1.toNat 0 fun indirectBlock : IndirectBlock =>
      BlockProg.index indirectBlock (innerId - 28)
  else do
    let last := innerId - 156
    let indirect1 ←
      BlockProg.readAt self.indirect2.toNat 0 fun indirect2 : IndirectBlock =>
        BlockProg.index indirect2 (last / 128)
    BlockProg.readAt indirect1.toNat 0 fun indirect1 : IndirectBlock =>
      BlockProg.index indirect1 (last % 128)

/-! ### Growing -/

/-- `new_blocks.next().unwrap()` -/
def next : List (BitVec 32) → Except Fault (BitVec 32 × List (BitVec 32))
  | [] => .error .unwrapFailed
  | block :: rest => .ok (block, rest)

/--
The two loops that fill an array of block ids, the direct blocks and the
first index block: `while current < total.min(count)`.
-/
def fill {count : Nat}
    (words : Vector (BitVec 32) count) (current total : Nat)
    (newBlocks : List (BitVec 32)) :
    Except Fault (Vector (BitVec 32) count × Nat × List (BitVec 32)) :=
  if more : current < min total count then do
    let (block, newBlocks) ← next newBlocks
    fill (words.set current block (by omega)) (current + 1) total newBlocks
  else
    .ok (words, current, newBlocks)
termination_by total - current

/-- Take a new index block when the current count has just reached it. -/
def nextIf (needed : Bool) (slot : BitVec 32) (newBlocks : List (BitVec 32)) :
    Except Fault (BitVec 32 × List (BitVec 32)) :=
  if needed then next newBlocks else .ok (slot, newBlocks)

/-- `if b0 == 0`: a new index block for entry `a0` of the second level. -/
def allocSub (a0 : Nat) (b0 : Fin 128) (indirect2 : IndirectBlock)
    (newBlocks : List (BitVec 32)) :
    Except Fault (IndirectBlock × List (BitVec 32)) :=
  if b0 = 0 then do
    let (block, newBlocks) ← next newBlocks
    if inside : a0 < 128 then
      .ok (indirect2.set a0 block, newBlocks)
    else
      .error .indexOutOfRange
  else
    .ok (indirect2, newBlocks)

/-- The loop that fills the second level from `(a0, b0)` to `(a1, b1)`. -/
def fillIndirect2 (a1 b1 a0 : Nat) (b0 : Fin 128) (indirect2 : IndirectBlock)
    (newBlocks : List (BitVec 32)) : BlockProg (Unit × IndirectBlock) :=
  if more : a0 < a1 ∨ (a0 = a1 ∧ b0 < b1) then do
    let (indirect2, newBlocks) ←
      BlockProg.ofExcept (allocSub a0 b0 indirect2 newBlocks)
    -- fill current
    let sub ← BlockProg.index indirect2 a0
    let newBlocks ←
      BlockProg.modifyAt sub.toNat 0 fun indirect1 : IndirectBlock => do
        let (block, newBlocks) ← BlockProg.ofExcept (next newBlocks)
        return (newBlocks, indirect1.set b0 block)
    -- move to next
    if inside : b0.val + 1 < 128 then
      fillIndirect2 a1 b1 a0 ⟨b0 + 1, inside⟩ indirect2 newBlocks
    else
      fillIndirect2 a1 b1 (a0 + 1) 0 indirect2 newBlocks
  else
    return ((), indirect2)
termination_by (a1 + 1 - a0) * 128 - b0
decreasing_by
  · show (a1 + 1 - a0) * 128 - (b0.val + 1) < (a1 + 1 - a0) * 128 - b0.val
    omega
  · show (a1 + 1 - (a0 + 1)) * 128 - 0 < (a1 + 1 - a0) * 128 - b0.val
    omega

/-- The last phase of `increase_size`: blocks reached through `indirect2`. -/
def increaseIndirect2 (self : DiskInode) (currentBlocks totalBlocks : Nat)
    (newBlocks : List (BitVec 32)) : BlockProg DiskInode := do
  let a0 := currentBlocks / 128
  let b0 : Fin 128 := Fin.ofNat 128 currentBlocks
  let a1 := totalBlocks / 128
  let b1 := totalBlocks % 128
  BlockProg.modifyAt self.indirect2.toNat 0 fun indirect2 : IndirectBlock =>
    fillIndirect2 a1 b1 a0 b0 indirect2 newBlocks
  return self

/-- The phases of `increase_size` from "fill indirect1" on. -/
def increaseIndirect1 (self : DiskInode) (currentBlocks totalBlocks : Nat)
    (newBlocks : List (BitVec 32)) : BlockProg DiskInode := do
  -- fill indirect1
  let (currentBlocks, newBlocks) ←
    BlockProg.modifyAt self.indirect1.toNat 0 fun indirect1 : IndirectBlock => do
      let (indirect1, currentBlocks, newBlocks) ←
        BlockProg.ofExcept (fill indirect1 currentBlocks totalBlocks newBlocks)
      return ((currentBlocks, newBlocks), indirect1)
  -- alloc indirect2
  if totalBlocks > 128 then do
    let (indirect2, newBlocks) ←
      BlockProg.ofExcept (nextIf (currentBlocks == 128) self.indirect2 newBlocks)
    increaseIndirect2 { self with indirect2 := indirect2 }
      (currentBlocks - 128) (totalBlocks - 128) newBlocks
  else
    return self

/-- `DiskInode::increase_size` -/
def increaseSize
    (self : DiskInode) (newSize : Nat) (newBlocks : List (BitVec 32)) :
    BlockProg DiskInode := do
  let currentBlocks := self.dataBlocks
  let self := { self with size := BitVec.ofNat 32 newSize }
  let totalBlocks := self.dataBlocks
  -- fill direct
  let (direct, currentBlocks, newBlocks) ←
    BlockProg.ofExcept (fill self.direct currentBlocks totalBlocks newBlocks)
  let self := { self with direct := direct }
  -- alloc indirect1
  if totalBlocks > 28 then do
    let (indirect1, newBlocks) ←
      BlockProg.ofExcept (nextIf (currentBlocks == 28) self.indirect1 newBlocks)
    increaseIndirect1 { self with indirect1 := indirect1 }
      (currentBlocks - 28) (totalBlocks - 28) newBlocks
  else
    return self

/-! ### Clearing -/

/-- The loop of `clear_size` over the full index blocks of the second level. -/
def pushFull : List (BitVec 32) → List (BitVec 32) →
    BlockProg (List (BitVec 32))
  | [], v => return v
  | entry :: rest, v => do
      let v ←
        BlockProg.modifyAt entry.toNat 0 fun indirect1 : IndirectBlock =>
          return (v ++ [entry] ++ indirect1.toList, indirect1)
      pushFull rest v

/-- The last phase of `clear_size`: blocks reached through `indirect2`. -/
def clearIndirect2
    (self : DiskInode) (dataBlocks : Nat) (v : List (BitVec 32)) :
    BlockProg (List (BitVec 32) × DiskInode) := do
  BlockProg.assert (dataBlocks ≤ 16384)
  let a1 := dataBlocks / 128
  let b1 := dataBlocks % 128
  let v ←
    BlockProg.modifyAt self.indirect2.toNat 0 fun indirect2 : IndirectBlock => do
      -- full indirect1 blocks
      let v ← pushFull (indirect2.toList.take a1) v
      -- last indirect1 block
      if b1 > 0 then do
        let entry ← BlockProg.index indirect2 a1
        let v ←
          BlockProg.modifyAt entry.toNat 0 fun indirect1 : IndirectBlock =>
            return (v ++ [entry] ++ indirect1.toList.take b1, indirect1)
        return (v, indirect2)
      else
        return (v, indirect2)
  return (v, { self with indirect2 := 0 })

/-- The phases of `clear_size` from the blocks of `indirect1` on. -/
def clearIndirect1
    (self : DiskInode) (dataBlocks : Nat) (v : List (BitVec 32)) :
    BlockProg (List (BitVec 32) × DiskInode) := do
  let v ←
    BlockProg.modifyAt self.indirect1.toNat 0 fun indirect1 : IndirectBlock =>
      return (v ++ indirect1.toList.take (min dataBlocks 128), indirect1)
  let self := { self with indirect1 := 0 }
  -- indirect2 block
  if dataBlocks > 128 then
    clearIndirect2 self (dataBlocks - 128) (v ++ [self.indirect2])
  else
    return (v, self)

/-- `DiskInode::clear_size` -/
def clearSize (self : DiskInode) :
    BlockProg (List (BitVec 32) × DiskInode) :=
  let dataBlocks := self.dataBlocks
  -- The loop over the direct blocks pushes an entry and sets it to zero.
  let v := self.direct.toList.take (min dataBlocks 28)
  let self :=
    { self with
      size := 0
      direct :=
        Vector.ofFn fun index : Fin 28 =>
          if index < min dataBlocks 28 then 0 else self.direct[index.val] }
  -- indirect1 block
  if dataBlocks > 28 then
    clearIndirect1 self (dataBlocks - 28) (v ++ [self.indirect1])
  else
    return (v, self)

/-! ### Copying -/

/-- The loop of `DiskInode::read_at`. -/
def readLoop (self : DiskInode) (stop start startBlock readSize : Nat)
    (buf : List UInt8) : BlockProg (Nat × List UInt8) := do
  -- calculate end of current block
  let endCurrentBlock := min ((start / 512 + 1) * 512) stop
  let blockReadSize := endCurrentBlock - start
  if readSize + blockReadSize ≤ buf.length then do
    let blockId ← self.getBlockId (startBlock % 2 ^ 32)
    let src ←
      BlockProg.readAt blockId.toNat 0 fun dataBlock : DataBlock =>
        return slice dataBlock (start % 512) blockReadSize
    let buf := overwrite buf readSize src
    let readSize := readSize + blockReadSize
    -- move to next block
    if last : endCurrentBlock = stop then
      return (readSize, buf)
    else
      readLoop self stop endCurrentBlock (startBlock + 1) readSize buf
  else
    BlockProg.fail .indexOutOfRange
termination_by stop - start
decreasing_by
  omega

/-- `DiskInode::read_at`: the bytes read and the buffer afterwards. -/
def readAt (self : DiskInode) (offset : Nat) (buf : List UInt8) :
    BlockProg (Nat × List UInt8) :=
  let stop := min ((offset + buf.length) % 2 ^ 64) self.size.toNat
  if offset ≥ stop then
    return (0, buf)
  else
    self.readLoop stop offset (offset / 512) 0 buf

/-- The loop of `DiskInode::write_at`. -/
def writeLoop (self : DiskInode) (stop start startBlock writeSize : Nat)
    (buf : List UInt8) : BlockProg Nat := do
  -- calculate end of current block
  let endCurrentBlock := min ((start / 512 + 1) * 512) stop
  let blockWriteSize := endCurrentBlock - start
  if writeSize + blockWriteSize ≤ buf.length then do
    let blockId ← self.getBlockId (startBlock % 2 ^ 32)
    BlockProg.modifyAt blockId.toNat 0 fun dataBlock : DataBlock =>
      let src := portion buf writeSize (writeSize + blockWriteSize)
      return ((), splice dataBlock (start % 512) src)
    let writeSize := writeSize + blockWriteSize
    -- move to next block
    if last : endCurrentBlock = stop then
      return writeSize
    else
      writeLoop self stop endCurrentBlock (startBlock + 1) writeSize buf
  else
    BlockProg.fail .indexOutOfRange
termination_by stop - start
decreasing_by
  omega

/-- `DiskInode::write_at` -/
def writeAt (self : DiskInode) (offset : Nat) (buf : List UInt8) :
    BlockProg Nat := do
  let stop := min ((offset + buf.length) % 2 ^ 64) self.size.toNat
  BlockProg.assert (offset ≤ stop)
  self.writeLoop stop offset (offset / 512) 0 buf

end DiskInode

/-! ## Directory entries -/

/-- `DirEntry`, with `NAME_LENGTH_LIMIT = 27`. -/
structure DirEntry where
  name : Vector UInt8 28
  inodeId : BitVec 32
deriving DecidableEq

namespace DirEntry

/-- `DirEntry::empty` -/
def empty : DirEntry := ⟨zeros, 0⟩

/-- The bytes of a name: `name.as_bytes()`. -/
def nameBytes (name : String) : List UInt8 := name.toByteArray.data.toList

/-- `DirEntry::new` -/
def new (name : String) (inodeId : BitVec 32) : Except Fault DirEntry :=
  if (nameBytes name).length ≤ 28 then
    .ok ⟨splice zeros 0 (nameBytes name), inodeId⟩
  else
    .error .indexOutOfRange

/-- `DirEntry::as_bytes`, of `DIRENT_SZ = 32` bytes. -/
def asBytes (self : DirEntry) : List UInt8 :=
  self.name.toList ++ (List.range 4).map (leByte self.inodeId)

/-- The entry after its bytes were written through `as_bytes_mut`. -/
def ofBytes (bytes : List UInt8) : DirEntry where
  name := Lib.Bytes.ofBytes fun index => bytes.getD index 0
  inodeId := leWord 32 fun index => bytes.getD (28 + index) 0

/-- `DirEntry::name` -/
def nameOf (self : DirEntry) : Except Fault String :=
  match self.name.toList.findIdx? (· == 0) with
  | none => .error .indexOutOfRange
  | some len =>
    match String.fromUTF8? (self.name.toList.take len).toByteArray with
    | none => .error .unwrapFailed
    | some name => .ok name

end DirEntry

end RCoreOS.EasyFs
