import RCoreOS.Lib.Bytes

/-!
# The block cache of easy-fs

A `BlockCache` is reached through `Arc<Mutex<BlockCache>>`.  The model keeps
the shared cells on a heap addressed by `Arc` pointers, with their strong
counts and lock bits, so that eviction, write-back on drop and pinned entries
are those of the source: the manager's queue holds one strong reference to
each cell, every handle outside the queue holds one more, and a cell whose
count falls to zero is dropped, which writes it back if it was modified.

`CacheState.view` is what a reader of a block sees.  `Coherent` is the
invariant of the manager for a given list of outside handles and locked
cells; each primitive keeps it and says what happens to the view.
-/

namespace RCoreOS.EasyFs

open Lib.Bytes List

/-- `BLOCK_CACHE_SIZE` -/
def blockCacheSize : Nat := 16

/-- The contents of one disk block, of `BLOCK_SZ = 512` bytes. -/
abbrev Block := Buffer 512

/-- Why a call into easy-fs does not return. -/
inductive Fault where
  /-- `panic!("Run out of BlockCache!")` -/
  | runOutOfBlockCache
  /-- `assert!(super_block.is_valid(), "Error loading EFS!")` -/
  | errorLoadingEfs
  /-- A failed `assert!` or `assert_eq!`. -/
  | assertFailed
  /-- `unwrap` of `None` or of an `Err`. -/
  | unwrapFailed
  /-- An array or slice index out of range. -/
  | indexOutOfRange
  /-- Taking a spin lock that is already held: the call spins for ever. -/
  | lockedTwice
deriving DecidableEq, Repr

/-! ## Block devices -/

/-- A block device: `read_block` returns what `write_block` last stored. -/
structure BlockDevice where
  blocks : Nat → Block

/-- `BlockDevice::read_block` -/
def BlockDevice.readBlock (device : BlockDevice) (blockId : Nat) : Block :=
  device.blocks blockId

/-- `BlockDevice::write_block` -/
def BlockDevice.writeBlock
    (device : BlockDevice) (blockId : Nat) (buf : Block) : BlockDevice :=
  ⟨Function.update device.blocks blockId buf⟩

theorem BlockDevice.readBlock_writeBlock
    (device : BlockDevice) (written read : Nat) (buf : Block) :
    (device.writeBlock written buf).readBlock read =
      if read = written then buf else device.readBlock read := by
  simp [BlockDevice.readBlock, BlockDevice.writeBlock, Function.update_apply]

/-! ## One cached block -/

/-- `BlockCache`; the device is a field of the whole state. -/
structure BlockCache where
  cache : Block
  blockId : Nat
  modified : Bool

/-- `BlockCache::new` -/
def BlockCache.new (blockId : Nat) (device : BlockDevice) : BlockCache where
  cache := device.readBlock blockId
  blockId := blockId
  modified := false

/-- `BlockCache::sync`: the cache and the device afterwards. -/
def BlockCache.sync (self : BlockCache) (device : BlockDevice) :
    BlockCache × BlockDevice :=
  if self.modified then
    ({ self with modified := false },
      device.writeBlock self.blockId self.cache)
  else
    (self, device)

/-- The cell behind an `Arc<Mutex<BlockCache>>`. -/
structure SharedCache where
  strongCount : Nat
  locked : Bool
  inner : BlockCache

/-! ## The manager and its state -/

/-- An `Arc` pointer. -/
abbrev ArcId := Nat

/-- An entry `(block_id, block_cache)` of the manager's queue, or a handle
that a caller got from `get_block_cache`. -/
abbrev Entry := Nat × ArcId

/-- The device, the shared cells and the queue of `BlockCacheManager`. -/
structure CacheState where
  device : BlockDevice
  heap : ArcId → SharedCache
  next : ArcId
  queue : List Entry

namespace CacheState

/-- The state before any block was cached. -/
def start (device : BlockDevice) : CacheState where
  device := device
  heap := fun _ => ⟨0, false, ⟨zeros, 0, false⟩⟩
  next := 0
  queue := []

def setCell (state : CacheState) (arc : ArcId) (cell : SharedCache) :
    CacheState :=
  { state with heap := Function.update state.heap arc cell }

/-- `Arc::clone` -/
def arcClone (state : CacheState) (arc : ArcId) : CacheState :=
  let cell := state.heap arc
  state.setCell arc { cell with strongCount := cell.strongCount + 1 }

/-- Dropping an `Arc`: the last one drops the cache, which syncs it. -/
def arcDrop (state : CacheState) (arc : ArcId) : CacheState :=
  let cell := state.heap arc
  let count := cell.strongCount - 1
  if count = 0 then
    let (inner, device) := cell.inner.sync state.device
    { state.setCell arc { cell with strongCount := 0, inner := inner } with
      device := device }
  else
    state.setCell arc { cell with strongCount := count }

/-- `Mutex::lock` of a cell; a second lock never returns. -/
def lock (state : CacheState) (arc : ArcId) : Except Fault CacheState :=
  let cell := state.heap arc
  if cell.locked then .error .lockedTwice
  else .ok (state.setCell arc { cell with locked := true })

/-- Dropping the guard. -/
def unlock (state : CacheState) (arc : ArcId) : CacheState :=
  state.setCell arc { state.heap arc with locked := false }

/-- Set `modified`, as `get_mut` does before it hands out the reference. -/
def markModified (state : CacheState) (arc : ArcId) : CacheState :=
  let cell := state.heap arc
  state.setCell arc
    { cell with inner := { cell.inner with modified := true } }

/-- The bytes that a closure leaves behind its `&mut` reference. -/
def setContents (state : CacheState) (arc : ArcId) (contents : Block) :
    CacheState :=
  let cell := state.heap arc
  state.setCell arc
    { cell with inner := { cell.inner with cache := contents } }

/-- `queue.drain(idx..=idx)`: take an entry out and drop the queue's `Arc`. -/
def evict (state : CacheState) (entry : Entry) : CacheState :=
  arcDrop { state with queue := state.queue.erase entry } entry.2

/-- Make room in a full queue: drop the first entry that nobody else holds. -/
def makeRoom (state : CacheState) : Except Fault CacheState :=
  if state.queue.length = blockCacheSize then
    match state.queue.find? fun entry =>
        (state.heap entry.2).strongCount == 1 with
    | some entry => .ok (state.evict entry)
    | none => .error .runOutOfBlockCache
  else
    .ok state

/-- Load a block and push it; the queue and the caller hold one `Arc` each. -/
def load (state : CacheState) (blockId : Nat) : ArcId × CacheState :=
  (state.next,
    { state.setCell state.next
        ⟨2, false, BlockCache.new blockId state.device⟩ with
      next := state.next + 1
      queue := state.queue ++ [(blockId, state.next)] })

/-- `BlockCacheManager::get_block_cache` -/
def getBlockCache (state : CacheState) (blockId : Nat) :
    Except Fault (ArcId × CacheState) :=
  match state.queue.find? fun entry => entry.1 == blockId with
  | some entry => .ok (entry.2, state.arcClone entry.2)
  | none => do
      let state ← state.makeRoom
      return state.load blockId

/-- `cache.lock().sync()` for one entry of the queue. -/
def syncEntry (state : CacheState) (entry : Entry) : Except Fault CacheState := do
  let state ← state.lock entry.2
  let cell := state.heap entry.2
  let (inner, device) := cell.inner.sync state.device
  return ({ state.setCell entry.2 { cell with inner := inner } with
    device := device }).unlock entry.2

/-- `block_cache_sync_all` -/
def blockCacheSyncAll (state : CacheState) : Except Fault CacheState :=
  state.queue.foldlM syncEntry state

/-- What a reader of `blockId` sees: the cached bytes, or the device's. -/
def view (state : CacheState) (blockId : Nat) : Block :=
  match state.queue.find? fun entry => entry.1 == blockId with
  | some entry => (state.heap entry.2).inner.cache
  | none => state.device.readBlock blockId

/-! ## The invariant of the manager -/

/--
The manager's invariant, relative to the handles that callers hold and to the
cells that are locked.

A handle is a queue entry that its holder keeps; since it adds one to the
strong count, an entry with a handle is never evicted.
-/
structure Coherent
    (state : CacheState) (handles locks : List Entry) : Prop where
  idsNodup : (state.queue.map Prod.fst).Nodup
  arcsNodup : (state.queue.map Prod.snd).Nodup
  bounded : state.queue.length ≤ blockCacheSize
  allocated : ∀ entry ∈ state.queue, entry.2 < state.next
  blockIds :
    ∀ entry ∈ state.queue, (state.heap entry.2).inner.blockId = entry.1
  counts :
    ∀ entry ∈ state.queue,
      (state.heap entry.2).strongCount = 1 + handles.count entry
  lockFlags :
    ∀ entry ∈ state.queue, (state.heap entry.2).locked = true ↔ entry ∈ locks
  clean :
    ∀ entry ∈ state.queue,
      (state.heap entry.2).inner.modified = false →
        (state.heap entry.2).inner.cache = state.device.readBlock entry.1
  pinned : ∀ entry ∈ handles, entry ∈ state.queue

/-- Every cached block agrees with the device. -/
def Settled (state : CacheState) : Prop :=
  ∀ blockId, state.device.readBlock blockId = state.view blockId

theorem start_coherent (device : BlockDevice) :
    (start device).Coherent [] [] := by
  constructor <;> simp [start]

@[simp]
theorem view_start (device : BlockDevice) :
    (start device).view = device.readBlock := by
  funext blockId
  simp [view, start]

section

variable {state : CacheState} {handles locks : List Entry}

variable {entry : Entry} {blockId : Nat} {cell : SharedCache}

variable {queue : List Entry}

/-- In a queue without repeated block ids, an entry is the one found. -/
theorem find_entry
    (idsNodup : (queue.map Prod.fst).Nodup) (member : entry ∈ queue) :
    queue.find? (fun other => other.1 == entry.1) = some entry := by
  induction queue with
  | nil => cases member
  | cons head tail induction =>
    simp only [map_cons, nodup_cons] at idsNodup
    rcases mem_cons.mp member with rfl | inTail
    · simp
    · have differs : head.1 ≠ entry.1 := by
        intro equal
        apply idsNodup.1
        rw [equal]
        exact mem_map_of_mem inTail
      rw [find?_cons_of_neg (by simpa using differs)]
      exact induction idsNodup.2 inTail

/-- In a queue without repeated pointers, the pointer determines the entry. -/
theorem entry_eq_of_arc
    (arcsNodup : (queue.map Prod.snd).Nodup) {left right : Entry}
    (leftMember : left ∈ queue) (rightMember : right ∈ queue)
    (equal : left.2 = right.2) :
    left = right :=
  inj_on_of_nodup_map arcsNodup leftMember rightMember equal

theorem Coherent.view_entry (coherent : state.Coherent handles locks)
    (member : entry ∈ state.queue) :
    state.view entry.1 = (state.heap entry.2).inner.cache := by
  rw [view, find_entry coherent.idsNodup member]

theorem view_uncached (absent : ∀ entry ∈ state.queue, entry.1 ≠ blockId) :
    state.view blockId = state.device.readBlock blockId := by
  have missing : state.queue.find? (fun entry => entry.1 == blockId) = none := by
    rw [find?_eq_none]
    intro entry member
    simpa using absent entry member
  rw [view, missing]

section

variable (coherent : state.Coherent handles locks)

include coherent

theorem Coherent.perm {otherHandles otherLocks : List Entry}
    (handlesPerm : handles.Perm otherHandles)
    (locksPerm : locks.Perm otherLocks) :
    state.Coherent otherHandles otherLocks where
  idsNodup := coherent.idsNodup
  arcsNodup := coherent.arcsNodup
  bounded := coherent.bounded
  allocated := coherent.allocated
  blockIds := coherent.blockIds
  counts := by
    intro entry member
    rw [coherent.counts entry member, handlesPerm.count_eq]
  lockFlags := by
    intro entry member
    rw [coherent.lockFlags entry member, locksPerm.mem_iff]
  clean := coherent.clean
  pinned := by
    intro entry member
    exact coherent.pinned entry (handlesPerm.mem_iff.mpr member)

/-! ## Changing the cell of one entry -/

section

variable (member : entry ∈ state.queue)

include member

theorem heap_setCell_other {other : Entry}
    (otherMember : other ∈ state.queue) (distinct : other ≠ entry)
    (cell : SharedCache) :
    (state.setCell entry.2 cell).heap other.2 = state.heap other.2 := by
  have arcsDiffer : other.2 ≠ entry.2 := by
    intro equal
    exact distinct
      (entry_eq_of_arc coherent.arcsNodup otherMember member equal)
  simp [setCell, arcsDiffer]

/--
The general frame rule: a new cell for one entry keeps the invariant when the
cell itself fits the new handles and locks and the others do not notice.
-/
theorem Coherent.setCell {newHandles newLocks : List Entry}
    (blockId : cell.inner.blockId = entry.1)
    (count : cell.strongCount = 1 + newHandles.count entry)
    (lockFlag : cell.locked = true ↔ entry ∈ newLocks)
    (clean :
      cell.inner.modified = false →
        cell.inner.cache = state.device.readBlock entry.1)
    (otherCounts :
      ∀ other, other ≠ entry → newHandles.count other = handles.count other)
    (otherLocks :
      ∀ other, other ≠ entry → (other ∈ newLocks ↔ other ∈ locks))
    (pinned : ∀ handle ∈ newHandles, handle ∈ state.queue) :
    (state.setCell entry.2 cell).Coherent newHandles newLocks := by
  have same : (state.setCell entry.2 cell).heap entry.2 = cell := by
    simp [CacheState.setCell]
  have others :
      ∀ other ∈ state.queue, other ≠ entry →
        (state.setCell entry.2 cell).heap other.2 = state.heap other.2 :=
    fun other otherMember distinct =>
      heap_setCell_other coherent member otherMember distinct cell
  refine
    { idsNodup := coherent.idsNodup
      arcsNodup := coherent.arcsNodup
      bounded := coherent.bounded
      allocated := coherent.allocated
      blockIds := ?_
      counts := ?_
      lockFlags := ?_
      clean := ?_
      pinned := pinned }
  · intro other otherMember
    by_cases equal : other = entry
    · rw [equal, same, blockId]
    · rw [others other otherMember equal, coherent.blockIds other otherMember]
  · intro other otherMember
    by_cases equal : other = entry
    · rw [equal, same, count]
    · rw [others other otherMember equal, coherent.counts other otherMember,
        otherCounts other equal]
  · intro other otherMember
    by_cases equal : other = entry
    · rw [equal, same, lockFlag]
    · rw [others other otherMember equal, coherent.lockFlags other otherMember,
        otherLocks other equal]
  · intro other otherMember
    by_cases equal : other = entry
    · rw [equal, same]
      exact clean
    · rw [others other otherMember equal]
      exact coherent.clean other otherMember

/-- Only the view of the entry's own block can change. -/
theorem Coherent.view_setCell (cell : SharedCache) :
    (state.setCell entry.2 cell).view =
      Function.update state.view entry.1 cell.inner.cache := by
  funext blockId
  by_cases equal : blockId = entry.1
  · subst equal
    have found := find_entry coherent.idsNodup member
    simp [view, CacheState.setCell, found]
  · rw [Function.update_of_ne equal, view, view]
    simp only [CacheState.setCell]
    cases lookup : state.queue.find? (fun other => other.1 == blockId) with
    | none => rfl
    | some other =>
      have otherMember := mem_of_find?_eq_some lookup
      have otherId : other.1 = blockId := by
        simpa using find?_some lookup
      have distinct : other ≠ entry := by
        rintro rfl
        exact equal otherId.symm
      have unchanged :=
        heap_setCell_other coherent member otherMember distinct cell
      simp only [CacheState.setCell] at unchanged
      simp only [unchanged]

/-- A new cell with the same contents leaves the whole view alone. -/
theorem Coherent.view_setCell_same
    (same : cell.inner.cache = (state.heap entry.2).inner.cache) :
    (state.setCell entry.2 cell).view = state.view := by
  rw [coherent.view_setCell member, same, ← coherent.view_entry member,
    Function.update_eq_self]

end

end

/-- The frame that every primitive leaves around the pinned entries. -/
def SameInner (before after : CacheState) (entries : List Entry) : Prop :=
  ∀ entry ∈ entries, (after.heap entry.2).inner = (before.heap entry.2).inner

theorem SameInner.trans
    {first second third : CacheState} {entries : List Entry}
    (left : SameInner first second entries)
    (right : SameInner second third entries) :
    SameInner first third entries :=
  fun entry member => (right entry member).trans (left entry member)

/-- Changing counts or lock bits leaves every cached block alone. -/
theorem sameInner_setCell {arc : ArcId}
    (same : cell.inner = (state.heap arc).inner) (entries : List Entry) :
    SameInner state (state.setCell arc cell) entries := by
  intro entry _
  by_cases equal : entry.2 = arc
  · simp [CacheState.setCell, equal, same]
  · simp [CacheState.setCell, equal]

/-! ## The primitives on a queue entry -/

theorem Coherent.arcClone (coherent : state.Coherent handles locks)
    (member : entry ∈ state.queue) :
    (state.arcClone entry.2).Coherent (entry :: handles) locks ∧
      (state.arcClone entry.2).view = state.view := by
  constructor
  · refine coherent.setCell member (coherent.blockIds entry member) ?_
      (coherent.lockFlags entry member) (coherent.clean entry member) ?_
      (fun _ _ => Iff.rfl) ?_
    · simp [coherent.counts entry member]
      omega
    · intro other distinct
      exact count_cons_of_ne (Ne.symm distinct)
    · intro handle handleMember
      rcases mem_cons.mp handleMember with rfl | old
      · exact member
      · exact coherent.pinned handle old
  · exact coherent.view_setCell_same member rfl

/-- Dropping a handle never drops the cache: the queue still holds it. -/
theorem Coherent.arcDrop (coherent : state.Coherent (entry :: handles) locks) :
    (state.arcDrop entry.2).Coherent handles locks ∧
      (state.arcDrop entry.2).view = state.view ∧
      (state.arcDrop entry.2).device = state.device ∧
      ∀ entries, SameInner state (state.arcDrop entry.2) entries := by
  have member : entry ∈ state.queue := coherent.pinned entry mem_cons_self
  have count := coherent.counts entry member
  rw [count_cons_self] at count
  have survives : ¬ (state.heap entry.2).strongCount - 1 = 0 := by omega
  have shape :
      state.arcDrop entry.2 =
        state.setCell entry.2
          { state.heap entry.2 with
            strongCount := (state.heap entry.2).strongCount - 1 } := by
    rw [CacheState.arcDrop, if_neg survives]
  rw [shape]
  refine ⟨?_, coherent.view_setCell_same member rfl, rfl,
    sameInner_setCell rfl⟩
  refine coherent.setCell member (coherent.blockIds entry member) ?_
    (coherent.lockFlags entry member) (coherent.clean entry member) ?_
    (fun _ _ => Iff.rfl) ?_
  · show (state.heap entry.2).strongCount - 1 = 1 + handles.count entry
    omega
  · intro other distinct
    rw [count_cons_of_ne (Ne.symm distinct)]
  · intro handle handleMember
    exact coherent.pinned handle (mem_cons_of_mem entry handleMember)

section

variable (coherent : state.Coherent handles locks)
  (member : entry ∈ state.queue)

include coherent member

theorem Coherent.lock_free (free : entry ∉ locks) :
    ∃ locked,
      state.lock entry.2 = .ok locked ∧
        locked.Coherent handles (entry :: locks) ∧
        locked.view = state.view ∧
        locked.device = state.device ∧
        ∀ entries, SameInner state locked entries := by
  have open_ : (state.heap entry.2).locked = false := by
    rw [← Bool.not_eq_true, coherent.lockFlags entry member]
    exact free
  refine ⟨state.setCell entry.2 { state.heap entry.2 with locked := true },
    ?_, ?_, coherent.view_setCell_same member rfl, rfl,
    sameInner_setCell rfl⟩
  · simp [CacheState.lock, open_]
  · refine coherent.setCell member (coherent.blockIds entry member)
      (coherent.counts entry member) ?_ (coherent.clean entry member)
      (fun _ _ => rfl) ?_ coherent.pinned
    · simp
    · intro other distinct
      simp [distinct]

theorem Coherent.lock_held (held : entry ∈ locks) :
    state.lock entry.2 = .error .lockedTwice := by
  have closed := (coherent.lockFlags entry member).mpr held
  simp [CacheState.lock, closed]

end

theorem Coherent.unlock (coherent : state.Coherent handles (entry :: locks))
    (member : entry ∈ state.queue) (once : entry ∉ locks) :
    (state.unlock entry.2).Coherent handles locks ∧
      (state.unlock entry.2).view = state.view ∧
      (state.unlock entry.2).device = state.device ∧
      ∀ entries, SameInner state (state.unlock entry.2) entries := by
  refine ⟨?_, coherent.view_setCell_same member rfl, rfl,
    sameInner_setCell rfl⟩
  refine coherent.setCell member (coherent.blockIds entry member)
    (coherent.counts entry member) ?_ (coherent.clean entry member)
    (fun _ _ => rfl) ?_ coherent.pinned
  · simp [once]
  · intro other distinct
    simp [distinct]

section

variable (coherent : state.Coherent handles locks)
  (member : entry ∈ state.queue)

include coherent member

theorem Coherent.markModified :
    (state.markModified entry.2).Coherent handles locks ∧
      (state.markModified entry.2).view = state.view ∧
      (state.markModified entry.2).device = state.device := by
  refine ⟨?_, coherent.view_setCell_same member rfl, rfl⟩
  exact coherent.setCell member (coherent.blockIds entry member)
    (coherent.counts entry member) (coherent.lockFlags entry member)
    (by simp) (fun _ _ => rfl) (fun _ _ => Iff.rfl) coherent.pinned

/-- A write through a `&mut` reference, whose cell is marked modified. -/
theorem Coherent.setContents
    (modified : (state.heap entry.2).inner.modified = true) (contents : Block) :
    (state.setContents entry.2 contents).Coherent handles locks ∧
      (state.setContents entry.2 contents).view =
        Function.update state.view entry.1 contents ∧
      (state.setContents entry.2 contents).device = state.device := by
  refine ⟨?_, coherent.view_setCell member _, rfl⟩
  exact coherent.setCell member (coherent.blockIds entry member)
    (coherent.counts entry member) (coherent.lockFlags entry member)
    (by simp [modified]) (fun _ _ => rfl) (fun _ _ => Iff.rfl)
    coherent.pinned

end

/-! ## Getting a block -/

/-- What `sync` leaves on the device, whether or not it had to write. -/
theorem BlockCache.sync_device (self : BlockCache) (device : BlockDevice)
    (clean :
      self.modified = false → self.cache = device.readBlock self.blockId)
    (blockId : Nat) :
    (self.sync device).2.readBlock blockId =
      if blockId = self.blockId then self.cache
      else device.readBlock blockId := by
  cases modified : self.modified with
  | true => simp [BlockCache.sync, modified, BlockDevice.readBlock_writeBlock]
  | false =>
    simp only [BlockCache.sync, modified, Bool.false_eq_true, if_false]
    split
    · next equal => rw [clean modified, equal]
    · rfl

theorem evict_eq (entry : Entry)
    (unshared : (state.heap entry.2).strongCount = 1) :
    state.evict entry =
      { device := ((state.heap entry.2).inner.sync state.device).2
        heap :=
          Function.update state.heap entry.2
            ⟨0, (state.heap entry.2).locked,
              ((state.heap entry.2).inner.sync state.device).1⟩
        next := state.next
        queue := state.queue.erase entry } := by
  simp [evict, CacheState.arcDrop, CacheState.setCell, unshared]

section

variable (coherent : state.Coherent handles locks)

include coherent

theorem mem_erase_entry {other : Entry} :
    other ∈ state.queue.erase entry ↔ other ≠ entry ∧ other ∈ state.queue :=
  coherent.idsNodup.of_map.mem_erase_iff

section

variable (member : entry ∈ state.queue)

include member

theorem Coherent.written (blockId : Nat) :
    ((state.heap entry.2).inner.sync state.device).2.readBlock blockId =
      if blockId = entry.1 then (state.heap entry.2).inner.cache
      else state.device.readBlock blockId := by
  rw [← coherent.blockIds entry member]
  apply BlockCache.sync_device
  rw [coherent.blockIds entry member]
  exact coherent.clean entry member

theorem Coherent.ids_differ :
    ∀ other ∈ state.queue, other ≠ entry → other.1 ≠ entry.1 := by
  intro other otherMember distinct equal
  exact distinct
    (inj_on_of_nodup_map coherent.idsNodup otherMember member equal)

/-- Evicting an entry that nobody holds writes it back and hides nothing. -/
theorem Coherent.evict (unshared : (state.heap entry.2).strongCount = 1) :
    (state.evict entry).Coherent handles locks ∧
      (state.evict entry).view = state.view ∧
      SameInner state (state.evict entry) handles ∧
      (state.Settled → (state.evict entry).Settled) := by
  have unpinned : entry ∉ handles := by
    have count := coherent.counts entry member
    rw [unshared] at count
    exact count_eq_zero.mp (by omega)
  have written := coherent.written member
  have idsDiffer := coherent.ids_differ member
  have arcsDiffer :
      ∀ other ∈ state.queue, other ≠ entry → other.2 ≠ entry.2 := by
    intro other otherMember distinct equal
    exact distinct
      (entry_eq_of_arc coherent.arcsNodup otherMember member equal)
  have heapOther :
      ∀ other ∈ state.queue, other ≠ entry →
        (state.evict entry).heap other.2 = state.heap other.2 := by
    intro other otherMember distinct
    rw [evict_eq entry unshared]
    simp [arcsDiffer other otherMember distinct]
  have queueEq : (state.evict entry).queue = state.queue.erase entry := by
    rw [evict_eq entry unshared]
  have deviceEq : ∀ blockId,
      (state.evict entry).device.readBlock blockId =
        if blockId = entry.1 then (state.heap entry.2).inner.cache
        else state.device.readBlock blockId := by
    intro blockId
    rw [evict_eq entry unshared]
    exact written blockId
  have kept :
      ∀ other, other ∈ (state.evict entry).queue ↔
        other ≠ entry ∧ other ∈ state.queue := by
    intro other
    rw [queueEq]
    exact mem_erase_entry coherent
  have coherentAfter : (state.evict entry).Coherent handles locks := by
    refine
      { idsNodup := ?_, arcsNodup := ?_, bounded := ?_, allocated := ?_,
        blockIds := ?_, counts := ?_, lockFlags := ?_, clean := ?_,
        pinned := ?_ }
    · rw [queueEq]
      exact coherent.idsNodup.sublist (erase_sublist.map Prod.fst)
    · rw [queueEq]
      exact coherent.arcsNodup.sublist (erase_sublist.map Prod.snd)
    · rw [queueEq]
      exact erase_sublist.length_le.trans coherent.bounded
    · intro other otherMember
      rw [evict_eq entry unshared]
      exact coherent.allocated other ((kept other).mp otherMember).2
    · intro other otherMember
      obtain ⟨distinct, old⟩ := (kept other).mp otherMember
      rw [heapOther other old distinct, coherent.blockIds other old]
    · intro other otherMember
      obtain ⟨distinct, old⟩ := (kept other).mp otherMember
      rw [heapOther other old distinct, coherent.counts other old]
    · intro other otherMember
      obtain ⟨distinct, old⟩ := (kept other).mp otherMember
      rw [heapOther other old distinct, coherent.lockFlags other old]
    · intro other otherMember
      obtain ⟨distinct, old⟩ := (kept other).mp otherMember
      rw [heapOther other old distinct, deviceEq,
        if_neg (idsDiffer other old distinct)]
      exact coherent.clean other old
    · intro handle handleMember
      refine (kept handle).mpr ⟨?_, coherent.pinned handle handleMember⟩
      rintro rfl
      exact unpinned handleMember
  have viewAfter : (state.evict entry).view = state.view := by
    funext blockId
    by_cases cached : ∃ other ∈ state.queue, other.1 = blockId
    · obtain ⟨other, otherMember, rfl⟩ := cached
      by_cases equal : other = entry
      · subst equal
        rw [coherent.view_entry member, view_uncached, deviceEq, if_pos rfl]
        intro third thirdMember
        obtain ⟨distinct, old⟩ := (kept third).mp thirdMember
        exact idsDiffer third old distinct
      · rw [coherent.view_entry otherMember,
          coherentAfter.view_entry ((kept other).mpr ⟨equal, otherMember⟩),
          heapOther other otherMember equal]
    · push Not at cached
      rw [view_uncached cached, view_uncached, deviceEq, if_neg]
      · exact (cached entry member).symm
      · intro other otherMember
        exact cached other ((kept other).mp otherMember).2
  refine ⟨coherentAfter, viewAfter, ?_, ?_⟩
  · intro handle handleMember
    have distinct : handle ≠ entry := by
      rintro rfl
      exact unpinned handleMember
    rw [heapOther handle (coherent.pinned handle handleMember) distinct]
  · intro settled blockId
    rw [viewAfter, deviceEq]
    split
    · next equal => rw [equal, coherent.view_entry member]
    · exact settled blockId

end

/-- Loading a block that is not cached shows what the device holds. -/
theorem Coherent.load (absent : ∀ entry ∈ state.queue, entry.1 ≠ blockId)
    (room : state.queue.length < blockCacheSize)
    (locksPinned : ∀ entry ∈ locks, entry ∈ handles) :
    let entry : Entry := (blockId, (state.load blockId).1)
    let loaded := (state.load blockId).2
    loaded.Coherent (entry :: handles) locks ∧
      loaded.view = state.view ∧
      SameInner state loaded handles ∧
      (state.Settled → loaded.Settled) := by
  intro entry loaded
  have fresh : ∀ other ∈ state.queue, other.2 ≠ state.next :=
    fun other member => Nat.ne_of_lt (coherent.allocated other member)
  have newEntry : entry ∉ state.queue := by
    intro member
    exact absent entry member rfl
  have heapOther :
      ∀ other ∈ state.queue, loaded.heap other.2 = state.heap other.2 := by
    intro other member
    simp [loaded, CacheState.load, CacheState.setCell, fresh other member]
  have heapNew :
      loaded.heap entry.2 =
        ⟨2, false, BlockCache.new blockId state.device⟩ := by
    simp [loaded, entry, CacheState.load, CacheState.setCell]
  have queueEq : loaded.queue = state.queue ++ [entry] := rfl
  have deviceEq : loaded.device = state.device := rfl
  have members :
      ∀ other, other ∈ loaded.queue ↔ other ∈ state.queue ∨ other = entry := by
    intro other
    simp [queueEq]
  have newHandle : entry ∉ handles :=
    fun member => newEntry (coherent.pinned entry member)
  have coherentAfter : loaded.Coherent (entry :: handles) locks := by
    refine
      { idsNodup := ?_, arcsNodup := ?_, bounded := ?_, allocated := ?_,
        blockIds := ?_, counts := ?_, lockFlags := ?_, clean := ?_,
        pinned := ?_ }
    · rw [queueEq, map_append]
      refine coherent.idsNodup.append (by simp) ?_
      intro id idMember idNew
      obtain ⟨other, otherMember, rfl⟩ := mem_map.mp idMember
      exact absent other otherMember (by simpa [entry] using idNew)
    · rw [queueEq, map_append]
      refine coherent.arcsNodup.append (by simp) ?_
      intro arc arcMember arcNew
      obtain ⟨other, otherMember, rfl⟩ := mem_map.mp arcMember
      exact fresh other otherMember
        (by simpa [entry, CacheState.load] using arcNew)
    · rw [queueEq, length_append]
      exact room
    · intro other otherMember
      show other.2 < state.next + 1
      rcases (members other).mp otherMember with old | rfl
      · exact Nat.lt_succ_of_lt (coherent.allocated other old)
      · exact Nat.lt_succ_self _
    · intro other otherMember
      rcases (members other).mp otherMember with old | rfl
      · rw [heapOther other old, coherent.blockIds other old]
      · rw [heapNew]
        rfl
    · intro other otherMember
      rcases (members other).mp otherMember with old | rfl
      · have distinct : entry ≠ other := fun equal => newEntry (equal ▸ old)
        rw [heapOther other old, coherent.counts other old,
          count_cons_of_ne distinct]
      · rw [heapNew, count_cons_self, count_eq_zero_of_not_mem newHandle]
    · intro other otherMember
      rcases (members other).mp otherMember with old | rfl
      · rw [heapOther other old, coherent.lockFlags other old]
      · rw [heapNew]
        constructor
        · intro impossible
          cases impossible
        · intro held
          exact absurd (locksPinned entry held) newHandle
    · intro other otherMember
      rcases (members other).mp otherMember with old | rfl
      · rw [heapOther other old, deviceEq]
        exact coherent.clean other old
      · rw [heapNew]
        intro _
        rfl
    · intro handle handleMember
      rcases mem_cons.mp handleMember with rfl | old
      · exact (members _).mpr (Or.inr rfl)
      · exact (members _).mpr (Or.inl (coherent.pinned handle old))
  have viewAfter : loaded.view = state.view := by
    funext id
    by_cases cached : ∃ other ∈ state.queue, other.1 = id
    · obtain ⟨other, otherMember, rfl⟩ := cached
      rw [coherent.view_entry otherMember,
        coherentAfter.view_entry ((members other).mpr (Or.inl otherMember)),
        heapOther other otherMember]
    · push Not at cached
      rw [view_uncached cached]
      by_cases equal : id = blockId
      · subst equal
        have shown :=
          coherentAfter.view_entry ((members entry).mpr (Or.inr rfl))
        rw [heapNew] at shown
        exact shown
      · rw [view_uncached, deviceEq]
        intro other otherMember
        rcases (members other).mp otherMember with old | rfl
        · exact cached other old
        · exact Ne.symm equal
  refine ⟨coherentAfter, viewAfter, ?_, ?_⟩
  · intro handle handleMember
    rw [heapOther handle (coherent.pinned handle handleMember)]
  · intro settled id
    rw [viewAfter, deviceEq]
    exact settled id

end

/-- What a caller of `get_block_cache` gets when the call returns. -/
structure Obtained
    (before : CacheState) (handles locks : List Entry) (blockId : Nat)
    (arc : ArcId) (after : CacheState) : Prop where
  coherent : after.Coherent ((blockId, arc) :: handles) locks
  view : after.view = before.view
  sameInner : SameInner before after handles
  settled : before.Settled → after.Settled

section

variable (coherent : state.Coherent handles locks)

include coherent

theorem Coherent.load_obtained
    (absent : ∀ entry ∈ state.queue, entry.1 ≠ blockId)
    (room : state.queue.length < blockCacheSize)
    (locksPinned : ∀ entry ∈ locks, entry ∈ handles) :
    Obtained state handles locks blockId
      (state.load blockId).1 (state.load blockId).2 := by
  obtain ⟨loaded, view, sameInner, settled⟩ :=
    coherent.load absent room locksPinned
  exact ⟨loaded, view, sameInner, settled⟩

/--
`get_block_cache` returns a handle and shows the same disk, or the queue is
full and every entry of it is pinned.
-/
theorem Coherent.getBlockCache (locksPinned : ∀ entry ∈ locks, entry ∈ handles)
    (blockId : Nat) :
    (∃ arc after,
      state.getBlockCache blockId = .ok (arc, after) ∧
        Obtained state handles locks blockId arc after) ∨
    (state.getBlockCache blockId = .error .runOutOfBlockCache ∧
      (∀ entry ∈ state.queue, entry.1 ≠ blockId) ∧
      state.queue.length = blockCacheSize ∧
      ∀ entry ∈ state.queue, entry ∈ handles) := by
  cases lookup : state.queue.find? (fun entry => entry.1 == blockId) with
  | some entry =>
    left
    have member := mem_of_find?_eq_some lookup
    have ownId : entry.1 = blockId := by
      simpa using find?_some lookup
    subst ownId
    obtain ⟨cloned, view⟩ := coherent.arcClone member
    refine ⟨entry.2, state.arcClone entry.2, ?_, cloned, view, ?_, ?_⟩
    · simp [CacheState.getBlockCache, lookup]
    · rw [CacheState.arcClone]
      apply sameInner_setCell
      rfl
    · intro settled id
      rw [view]
      exact settled id
  | none =>
    have absent : ∀ entry ∈ state.queue, entry.1 ≠ blockId := by
      intro entry member equal
      have := find?_eq_none.mp lookup entry member
      simp [equal] at this
    by_cases full : state.queue.length = blockCacheSize
    · cases victim : state.queue.find? fun entry =>
          (state.heap entry.2).strongCount == 1 with
      | some entry =>
        left
        have member := mem_of_find?_eq_some victim
        have unshared : (state.heap entry.2).strongCount = 1 := by
          simpa using find?_some victim
        obtain ⟨evicted, view, sameInner, settled⟩ :=
          coherent.evict member unshared
        have queueEq :
            (state.evict entry).queue = state.queue.erase entry := by
          rw [evict_eq entry unshared]
        have absentAfter :
            ∀ other ∈ (state.evict entry).queue, other.1 ≠ blockId := by
          intro other otherMember
          rw [queueEq] at otherMember
          exact absent other (mem_of_mem_erase otherMember)
        have room : (state.evict entry).queue.length < blockCacheSize := by
          rw [queueEq, length_erase_of_mem member, full]
          decide
        have loaded := evicted.load_obtained absentAfter room locksPinned
        refine ⟨_, _, ?_, loaded.coherent, loaded.view.trans view,
          sameInner.trans loaded.sameInner,
          fun before => loaded.settled (settled before)⟩
        simp [CacheState.getBlockCache, lookup, makeRoom, full, victim]
      | none =>
        right
        refine ⟨?_, absent, full, ?_⟩
        · simp [CacheState.getBlockCache, lookup, makeRoom, full, victim]
        · intro entry member
          have shared := find?_eq_none.mp victim entry member
          have count := coherent.counts entry member
          by_contra unpinned
          rw [count_eq_zero_of_not_mem unpinned] at count
          simp [count] at shared
    · left
      have room : state.queue.length < blockCacheSize :=
        lt_of_le_of_ne coherent.bounded full
      refine ⟨_, _, ?_, coherent.load_obtained absent room locksPinned⟩
      simp [CacheState.getBlockCache, lookup, makeRoom, full]

/-! ## Syncing everything -/

theorem Coherent.syncEntry
    (member : entry ∈ state.queue) (free : entry ∉ locks) :
    ∃ synced,
      state.syncEntry entry = .ok synced ∧
        synced.Coherent handles locks ∧
        synced.view = state.view ∧
        synced.queue = state.queue ∧
        (synced.heap entry.2).inner.modified = false ∧
        ∀ other ∈ state.queue,
          (state.heap other.2).inner.modified = false →
            (synced.heap other.2).inner.modified = false := by
  have unlocked : (state.heap entry.2).locked = false := by
    rw [← Bool.not_eq_true, coherent.lockFlags entry member]
    exact free
  have ownId := coherent.blockIds entry member
  have written := coherent.written member
  have innerId :
      ((state.heap entry.2).inner.sync state.device).1.blockId = entry.1 := by
    rw [← ownId, BlockCache.sync]
    split <;> rfl
  have innerCache :
      ((state.heap entry.2).inner.sync state.device).1.cache =
        (state.heap entry.2).inner.cache := by
    rw [BlockCache.sync]
    split <;> rfl
  have innerClean :
      ((state.heap entry.2).inner.sync state.device).1.modified = false := by
    cases modified : (state.heap entry.2).inner.modified <;>
      simp [BlockCache.sync, modified]
  -- The device changes first; on it the old cell is already up to date.
  let flushed : CacheState :=
    { state with device := ((state.heap entry.2).inner.sync state.device).2 }
  have idsDiffer := coherent.ids_differ member
  have flushedCoherent : flushed.Coherent handles locks :=
    { idsNodup := coherent.idsNodup
      arcsNodup := coherent.arcsNodup
      bounded := coherent.bounded
      allocated := coherent.allocated
      blockIds := coherent.blockIds
      counts := coherent.counts
      lockFlags := coherent.lockFlags
      pinned := coherent.pinned
      clean := by
        intro other otherMember clean
        show _ = flushed.device.readBlock other.1
        rw [written]
        by_cases equal : other = entry
        · subst equal
          simp [flushed]
        · rw [if_neg (idsDiffer other otherMember equal)]
          exact coherent.clean other otherMember clean }
  have flushedView : flushed.view = state.view := by
    funext blockId
    by_cases cached : ∃ other ∈ state.queue, other.1 = blockId
    · obtain ⟨other, otherMember, rfl⟩ := cached
      rw [coherent.view_entry otherMember]
      exact flushedCoherent.view_entry otherMember
    · push Not at cached
      have uncached : ∀ other ∈ flushed.queue, other.1 ≠ blockId := cached
      rw [view_uncached cached, view_uncached uncached]
      show flushed.device.readBlock blockId = _
      rw [written, if_neg (cached entry member).symm]
  let cell : SharedCache :=
    { state.heap entry.2 with
      inner := ((state.heap entry.2).inner.sync state.device).1 }
  refine ⟨flushed.setCell entry.2 cell, ?_, ?_, ?_, rfl, ?_, ?_⟩
  · simp [CacheState.syncEntry, CacheState.lock, unlocked, CacheState.unlock,
      CacheState.setCell, flushed, cell]
  · refine flushedCoherent.setCell member innerId
      (coherent.counts entry member) (coherent.lockFlags entry member) ?_
      (fun _ _ => rfl) (fun _ _ => Iff.rfl) coherent.pinned
    intro _
    show _ = flushed.device.readBlock entry.1
    rw [written, if_pos rfl]
    exact innerCache
  · rw [← flushedView]
    exact flushedCoherent.view_setCell_same member innerCache
  · show ((flushed.setCell entry.2 cell).heap entry.2).inner.modified = false
    simp [CacheState.setCell, cell, innerClean]
  · intro other otherMember clean
    by_cases equal : other = entry
    · subst equal
      simp [CacheState.setCell, cell, innerClean]
    · rw [heap_setCell_other flushedCoherent member otherMember equal]
      exact clean

end

theorem Coherent.syncEntries (entries : List Entry)
    (coherent : state.Coherent handles [])
    (members : ∀ entry ∈ entries, entry ∈ state.queue) :
    ∃ synced,
      entries.foldlM CacheState.syncEntry state = .ok synced ∧
        synced.Coherent handles [] ∧
        synced.view = state.view ∧
        synced.queue = state.queue ∧
        (∀ entry ∈ entries, (synced.heap entry.2).inner.modified = false) ∧
        ∀ other ∈ state.queue,
          (state.heap other.2).inner.modified = false →
            (synced.heap other.2).inner.modified = false := by
  induction entries generalizing state with
  | nil =>
    exact ⟨state, rfl, coherent, rfl, rfl, by simp, fun _ _ clean => clean⟩
  | cons entry rest induction =>
    have member := members entry mem_cons_self
    obtain ⟨first, firstEq, firstCoherent, firstView, firstQueue,
      firstClean, firstKept⟩ := coherent.syncEntry member not_mem_nil
    have restMembers : ∀ other ∈ rest, other ∈ first.queue := by
      intro other otherMember
      rw [firstQueue]
      exact members other (mem_cons_of_mem entry otherMember)
    obtain ⟨synced, syncedEq, syncedCoherent, syncedView, syncedQueue,
      syncedClean, syncedKept⟩ := induction firstCoherent restMembers
    refine ⟨synced, ?_, syncedCoherent, syncedView.trans firstView,
      syncedQueue.trans firstQueue, ?_, ?_⟩
    · rw [foldlM_cons, firstEq]
      exact syncedEq
    · intro other otherMember
      rcases mem_cons.mp otherMember with rfl | inRest
      · exact syncedKept other (firstQueue ▸ member) firstClean
      · exact syncedClean other inRest
    · intro other otherMember clean
      exact syncedKept other (firstQueue ▸ otherMember)
        (firstKept other otherMember clean)

/-- Once no entry is modified, the device alone shows the whole view. -/
theorem Coherent.settled_of_clean (coherent : state.Coherent handles locks)
    (clean :
      ∀ entry ∈ state.queue, (state.heap entry.2).inner.modified = false) :
    state.Settled := by
  intro blockId
  by_cases cached : ∃ entry ∈ state.queue, entry.1 = blockId
  · obtain ⟨entry, member, rfl⟩ := cached
    rw [coherent.view_entry member,
      coherent.clean entry member (clean entry member)]
  · push Not at cached
    rw [view_uncached cached]

theorem Coherent.blockCacheSyncAll (coherent : state.Coherent handles []) :
    ∃ synced,
      state.blockCacheSyncAll = .ok synced ∧
        synced.Coherent handles [] ∧
        synced.view = state.view ∧
        synced.Settled := by
  obtain ⟨synced, syncedEq, syncedCoherent, view, queueEq, clean, _⟩ :=
    Coherent.syncEntries state.queue coherent (fun _ member => member)
  refine ⟨synced, syncedEq, syncedCoherent, view, ?_⟩
  apply syncedCoherent.settled_of_clean
  intro entry member
  exact clean entry (queueEq ▸ member)

theorem Coherent.syncEntries_locked (entries : List Entry)
    (coherent : state.Coherent handles locks)
    (members : ∀ entry ∈ entries, entry ∈ state.queue)
    (someLock : ∃ entry ∈ entries, entry ∈ locks) :
    entries.foldlM CacheState.syncEntry state = .error .lockedTwice := by
  induction entries generalizing state with
  | nil =>
    obtain ⟨entry, member, _⟩ := someLock
    cases member
  | cons entry rest induction =>
    have member := members entry mem_cons_self
    rw [foldlM_cons]
    by_cases held : entry ∈ locks
    · have stuck : state.syncEntry entry = .error .lockedTwice := by
        rw [CacheState.syncEntry, coherent.lock_held member held]
        rfl
      rw [stuck]
      rfl
    · obtain ⟨first, firstEq, firstCoherent, _, firstQueue, _, _⟩ :=
        coherent.syncEntry member held
      rw [firstEq]
      refine induction firstCoherent ?_ ?_
      · intro other otherMember
        rw [firstQueue]
        exact members other (mem_cons_of_mem entry otherMember)
      · obtain ⟨other, otherMember, otherHeld⟩ := someLock
        rcases mem_cons.mp otherMember with rfl | inRest
        · exact absurd otherHeld held
        · exact ⟨other, inRest, otherHeld⟩

/-- Syncing while some cache is locked never returns. -/
theorem Coherent.blockCacheSyncAll_locked
    (coherent : state.Coherent handles locks)
    (locksPinned : ∀ entry ∈ locks, entry ∈ handles) (someLock : locks ≠ []) :
    state.blockCacheSyncAll = .error .lockedTwice := by
  obtain ⟨entry, held⟩ := exists_mem_of_ne_nil locks someLock
  exact coherent.syncEntries_locked state.queue (fun _ member => member)
    ⟨entry, coherent.pinned entry (locksPinned entry held), held⟩

end

end CacheState

end RCoreOS.EasyFs
