import RCoreOS.EasyFs.BlockProgram

/-!
# Typed views of a block

`BlockCache::read` and `BlockCache::modify` hand a closure a reference of a
type `T` into the cached bytes at some offset.  `BlockView` says how a `T` is
laid out in a block; `readAt` and `modifyAt` are the two calls, with the
bounds assertion of `get_ref` and `get_mut`.

Data blocks are bytes, index blocks are 128 little-endian `u32` words and
bitmap blocks are 64 little-endian `u64` words.
-/

namespace RCoreOS.EasyFs

open Lib.Bytes

/-- How a value of type `T` lies in a block, from a byte offset on. -/
class BlockView (T : Type) where
  size : Nat
  load : Block → Nat → T
  store : Block → Nat → T → Block

namespace BlockProg

variable {T α β : Type} [BlockView T]

/-- `get_block_cache(id).lock().read(offset, |x: &T| ..)` -/
def readAt (blockId offset : Nat) (body : T → BlockProg β) : BlockProg β :=
  .read blockId
    (fun contents =>
      if offset + BlockView.size T ≤ 512 then
        body (BlockView.load contents offset)
      else
        .fail .assertFailed)
    .done

/-- `get_block_cache(id).lock().modify(offset, |x: &mut T| ..)` -/
def modifyAt (blockId offset : Nat) (body : T → BlockProg (β × T)) :
    BlockProg β :=
  .modify blockId
    (fun contents =>
      if offset + BlockView.size T ≤ 512 then do
        let (result, value) ← body (BlockView.load contents offset)
        return (result, BlockView.store contents offset value)
      else
        .fail .assertFailed)
    .done

/-- `block_cache_sync_all()` -/
def blockCacheSyncAll : BlockProg Unit := .syncAll (.done ())

/-! ## Their meaning on a disk -/

/-- Holding `held`, a program may lock `blockId`. -/
def CanLock (held : List Nat) (blockId : Nat) : Prop :=
  blockId ∉ held ∧ held.length < blockCacheSize

/-- A program that holds nothing may lock any block. -/
theorem canLock_nil (blockId : Nat) : CanLock [] blockId :=
  ⟨List.not_mem_nil, by decide⟩

variable {held : List Nat} {blockId offset : Nat} {disk after : Disk}

theorem mayLock_ok (can : CanLock held blockId) :
    mayLock held blockId = .ok () := by
  rw [mayLock, if_neg can.1, if_neg (Nat.not_le.mpr can.2)]

theorem mayLock_eq_ok (allowed : mayLock held blockId = .ok ()) :
    CanLock held blockId := by
  unfold mayLock at allowed
  split at allowed
  · cases allowed
  · next fresh =>
      split at allowed
      · cases allowed
      · next room => exact ⟨fresh, Nat.not_le.mp room⟩

section

variable (can : CanLock held blockId) (fits : offset + BlockView.size T ≤ 512)

include can fits

theorem onDisk_readAt {body : T → BlockProg β} :
    (readAt blockId offset body).onDisk held disk =
      (body (BlockView.load (disk blockId) offset)).onDisk
        (blockId :: held) disk := by
  simp only [readAt, onDisk, mayLock_ok can, if_pos fits]
  cases (body (BlockView.load (disk blockId) offset)).onDisk
      (blockId :: held) disk <;> rfl

theorem onDisk_modifyAt {body : T → BlockProg (β × T)} {result : β}
    {value : T}
    (returned :
      (body (BlockView.load (disk blockId) offset)).onDisk
        (blockId :: held) disk = .ok ((result, value), after)) :
    (modifyAt blockId offset body).onDisk held disk =
      .ok (result,
        Function.update after blockId
          (BlockView.store (disk blockId) offset value)) := by
  simp only [modifyAt, onDisk, mayLock_ok can, if_pos fits,
    onDisk_bind_ok returned]
  rfl

/-- A modification whose body stops stops for the same reason. -/
theorem onDisk_modifyAt_error {body : T → BlockProg (β × T)} {fault : Fault}
    (stopped :
      (body (BlockView.load (disk blockId) offset)).onDisk
        (blockId :: held) disk = .error fault) :
    (modifyAt blockId offset body).onDisk held disk = .error fault := by
  simp only [modifyAt, onDisk, mayLock_ok can, if_pos fits,
    onDisk_bind_error stopped]
  rfl

end

/-- A read that returned had the lock, the room and a body that returned. -/
theorem onDisk_readAt_eq_ok {body : T → BlockProg β} {result : β}
    (returned :
      (readAt blockId offset body).onDisk held disk = .ok (result, after)) :
    CanLock held blockId ∧
      offset + BlockView.size T ≤ 512 ∧
      (body (BlockView.load (disk blockId) offset)).onDisk
        (blockId :: held) disk = .ok (result, after) := by
  cases allowed : mayLock held blockId with
  | error fault =>
    simp only [readAt, onDisk, allowed] at returned
    cases returned
  | ok _ =>
    have can := mayLock_eq_ok allowed
    by_cases fits : offset + BlockView.size T ≤ 512
    · rw [onDisk_readAt can fits] at returned
      exact ⟨can, fits, returned⟩
    · simp only [readAt, onDisk, allowed, if_neg fits] at returned
      cases returned

/-- A modification that returned stored what its body left. -/
theorem onDisk_modifyAt_eq_ok {body : T → BlockProg (β × T)} {result : β}
    (returned :
      (modifyAt blockId offset body).onDisk held disk = .ok (result, after)) :
    CanLock held blockId ∧
      offset + BlockView.size T ≤ 512 ∧
      ∃ value between,
        (body (BlockView.load (disk blockId) offset)).onDisk
            (blockId :: held) disk = .ok ((result, value), between) ∧
          after =
            Function.update between blockId
              (BlockView.store (disk blockId) offset value) := by
  cases allowed : mayLock held blockId with
  | error fault =>
    simp only [modifyAt, onDisk, allowed] at returned
    cases returned
  | ok _ =>
    have can := mayLock_eq_ok allowed
    by_cases fits : offset + BlockView.size T ≤ 512
    · refine ⟨can, fits, ?_⟩
      cases inner : (body (BlockView.load (disk blockId) offset)).onDisk
          (blockId :: held) disk with
      | error fault =>
        simp only [modifyAt, onDisk, allowed, if_pos fits,
          onDisk_bind_error inner] at returned
        cases returned
      | ok outcome =>
        obtain ⟨⟨innerResult, value⟩, between⟩ := outcome
        rw [onDisk_modifyAt can fits inner] at returned
        cases returned
        exact ⟨value, between, rfl, rfl⟩
    · simp only [modifyAt, onDisk, allowed, if_neg fits] at returned
      cases returned

theorem readOnly_readAt {body : T → BlockProg β}
    (readOnly : ∀ value, (body value).ReadOnly) :
    (readAt blockId offset body).ReadOnly := by
  refine ⟨?_, fun _ => trivial⟩
  intro contents
  split
  · exact readOnly _
  · trivial

end BlockProg

/-! ## The block types of easy-fs -/

/-- `DataBlock = [u8; BLOCK_SZ]` -/
abbrev DataBlock := Block

/-- `IndirectBlock = [u32; BLOCK_SZ / 4]` -/
abbrev IndirectBlock := Vector (BitVec 32) 128

/-- `BitmapBlock = [u64; 64]` -/
abbrev BitmapBlock := Vector (BitVec 64) 64

instance : BlockView DataBlock where
  size := 512
  load contents _ := contents
  store _ _ value := value

instance : BlockView IndirectBlock where
  size := 512
  load contents offset := loadWords 32 128 contents offset
  store contents offset value := storeWords contents offset value

instance : BlockView BitmapBlock where
  size := 512
  load contents offset := loadWords 64 64 contents offset
  store contents offset value := storeWords contents offset value

/-- The words of an index block. -/
def indexBlock (contents : Block) : IndirectBlock := loadWords 32 128 contents 0

/-- The words of a bitmap block. -/
def bitmapBlock (contents : Block) : BitmapBlock := loadWords 64 64 contents 0

@[simp]
theorem indexBlock_storeWords (contents : Block) (words : IndirectBlock) :
    indexBlock (storeWords contents 0 words) = words :=
  loadWords_storeWords (by decide) contents 0 words (by decide)

@[simp]
theorem storeWords_indexBlock (contents : Block) :
    storeWords contents 0 (indexBlock contents) = contents :=
  storeWords_loadWords (by decide) (by decide) contents 0

@[simp]
theorem bitmapBlock_storeWords (contents : Block) (words : BitmapBlock) :
    bitmapBlock (storeWords contents 0 words) = words :=
  loadWords_storeWords (by decide) contents 0 words (by decide)

@[simp]
theorem storeWords_bitmapBlock (contents : Block) :
    storeWords contents 0 (bitmapBlock contents) = contents :=
  storeWords_loadWords (by decide) (by decide) contents 0

end RCoreOS.EasyFs
