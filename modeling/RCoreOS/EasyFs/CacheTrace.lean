import RCoreOS.EasyFs.BlockCache
import RCoreOS.Lib.FallibleRuns

/-!
# The block cache is transparent

Callers of `get_block_cache` may keep several handles, also to one block, and
use and drop them in any order.  A `Client` is the cache together with the
handles that are still alive.  The reference is a plain memory of blocks:
`get` remembers which block a handle is for, `read` and `modify` act on that
block at once, and dropping handles or syncing does nothing.

Every run of the cache that does not stop shows exactly what the plain memory
shows, and leaves a queue with at most one entry per block, at most sixteen
entries, and no unmodified entry that differs from the device.
-/

namespace RCoreOS.EasyFs

open Lib.Bytes List Lib.FallibleRuns

namespace CacheTrace

/-- One step of a caller.  A handle is named by its place in the list of the
handles that are alive. -/
inductive CacheOp where
  | get (blockId : Nat)
  | read (handle offset size : Nat)
  | modify (handle offset size : Nat) (closure : Buffer size → Buffer size)
  | drop (handle : Nat)
  | syncAll

/-- The cache and the handles that callers keep. -/
structure Client where
  state : CacheState
  handles : List Entry

/-- What a step shows to the caller. -/
abbrev Observed := Option (List UInt8)

/-- The checks of `get_ref` and `get_mut` before they hand out a `&T`. -/
def checkRange (offset size : Nat) : Except Fault Unit :=
  if offset + size ≤ 512 then
    if offset < 512 then .ok () else .error .indexOutOfRange
  else
    .error .assertFailed

/-- The `T` of `size` bytes at `offset`. -/
def load (contents : Block) (offset size : Nat) : Buffer size :=
  ofBytes fun index => byteAt contents (offset + index)

/-- The block after a closure has changed the `T` at `offset`. -/
def change (contents : Block) (offset size : Nat)
    (closure : Buffer size → Buffer size) : Block :=
  splice contents offset (closure (load contents offset size)).toList

/-- `handle.lock().read(offset, ..)` -/
def Client.read (client : Client) (entry : Entry) (offset size : Nat) :
    Except Fault (Client × Observed) := do
  let state ← client.state.lock entry.2
  checkRange offset size
  let seen := load (state.heap entry.2).inner.cache offset size
  return ({ client with state := state.unlock entry.2 }, some seen.toList)

/-- `handle.lock().modify(offset, closure)` -/
def Client.modify (client : Client) (entry : Entry) (offset size : Nat)
    (closure : Buffer size → Buffer size) :
    Except Fault (Client × Observed) := do
  let state ← client.state.lock entry.2
  checkRange offset size
  let state := state.markModified entry.2
  let contents := change (state.heap entry.2).inner.cache offset size closure
  let state := (state.setContents entry.2 contents).unlock entry.2
  return ({ client with state := state }, none)

/-- One step on the cache.  A step that names no live handle does nothing. -/
def Client.step (client : Client) : CacheOp → Except Fault (Client × Observed)
  | .get blockId => do
      let (arc, state) ← client.state.getBlockCache blockId
      return (⟨state, client.handles ++ [(blockId, arc)]⟩, none)
  | .read handle offset size =>
    match client.handles[handle]? with
    | some entry => client.read entry offset size
    | none => .ok (client, none)
  | .modify handle offset size closure =>
    match client.handles[handle]? with
    | some entry => client.modify entry offset size closure
    | none => .ok (client, none)
  | .drop handle =>
    match client.handles[handle]? with
    | some entry =>
      .ok (⟨client.state.arcDrop entry.2, client.handles.eraseIdx handle⟩,
        none)
    | none => .ok (client, none)
  | .syncAll => do
      let state ← client.state.blockCacheSyncAll
      return ({ client with state := state }, none)

/-! ## The reference: a plain memory -/

/-- Blocks that change when they are modified and at no other time. -/
structure Memory where
  blocks : Nat → Block
  handles : List Nat

/-- One step on the plain memory. -/
def Memory.step (memory : Memory) : CacheOp → Memory × Observed
  | .get blockId => ({ memory with handles := memory.handles ++ [blockId] }, none)
  | .read handle offset size =>
    match memory.handles[handle]? with
    | some blockId =>
      (memory, some (load (memory.blocks blockId) offset size).toList)
    | none => (memory, none)
  | .modify handle offset size closure =>
    match memory.handles[handle]? with
    | some blockId =>
      ({ memory with
          blocks :=
            Function.update memory.blocks blockId
              (change (memory.blocks blockId) offset size closure) },
        none)
    | none => (memory, none)
  | .drop handle =>
    ({ memory with handles := memory.handles.eraseIdx handle }, none)
  | .syncAll => (memory, none)

/-! ## Refinement -/

/-- The cache shows the memory, and its handles are the memory's. -/
structure Refines (client : Client) (memory : Memory) : Prop where
  coherent : client.state.Coherent client.handles []
  view : client.state.view = memory.blocks
  handles : client.handles.map Prod.fst = memory.handles

variable {client after : Client} {memory : Memory} {entry : Entry}
  {seen : Observed}

section

variable (refines : Refines client memory)

include refines

theorem handles_lookup (handle : Nat) :
    memory.handles[handle]? = (client.handles[handle]?).map Prod.fst := by
  rw [← refines.handles, getElem?_map]

variable {offset size : Nat}

theorem Refines.read (member : entry ∈ client.handles)
    (returned : client.read entry offset size = .ok (after, seen)) :
    Refines after memory ∧
      seen = some (load (memory.blocks entry.1) offset size).toList := by
  have queued := refines.coherent.pinned entry member
  obtain ⟨locked, lockEq, lockedCoherent, lockedView, _, lockedInner⟩ :=
    refines.coherent.lock_free queued not_mem_nil
  rw [Client.read, lockEq] at returned
  cases range : checkRange offset size with
  | error fault =>
    rw [range] at returned
    cases returned
  | ok _ =>
    rw [range] at returned
    cases returned
    have lockedQueued := lockedCoherent.pinned entry member
    obtain ⟨unlocked, unlockedView, _, _⟩ :=
      lockedCoherent.unlock lockedQueued not_mem_nil
    refine ⟨⟨unlocked, ?_, refines.handles⟩, ?_⟩
    · rw [← refines.view, ← lockedView]
      exact unlockedView
    · rw [← refines.view, ← lockedView, lockedCoherent.view_entry lockedQueued]

theorem Refines.modify (member : entry ∈ client.handles)
    {closure : Buffer size → Buffer size}
    (returned : client.modify entry offset size closure = .ok (after, seen)) :
    Refines after
        { memory with
          blocks :=
            Function.update memory.blocks entry.1
              (change (memory.blocks entry.1) offset size closure) } ∧
      seen = none := by
  have queued := refines.coherent.pinned entry member
  obtain ⟨locked, lockEq, lockedCoherent, lockedView, _, _⟩ :=
    refines.coherent.lock_free queued not_mem_nil
  rw [Client.modify, lockEq] at returned
  cases range : checkRange offset size with
  | error fault =>
    rw [range] at returned
    cases returned
  | ok _ =>
    rw [range] at returned
    cases returned
    obtain ⟨marked, markedView, _⟩ :=
      lockedCoherent.markModified (lockedCoherent.pinned entry member)
    have flagged :
        ((locked.markModified entry.2).heap entry.2).inner.modified =
          true := by
      simp [CacheState.markModified, CacheState.setCell]
    have contents :
        ((locked.markModified entry.2).heap entry.2).inner.cache =
          memory.blocks entry.1 := by
      rw [← refines.view, ← lockedView, ← markedView]
      exact (marked.view_entry (marked.pinned entry member)).symm
    obtain ⟨stored, storedView, _⟩ :=
      marked.setContents (marked.pinned entry member) flagged
        (change (memory.blocks entry.1) offset size closure)
    obtain ⟨unlocked, unlockedView, _, _⟩ :=
      stored.unlock (stored.pinned entry member) not_mem_nil
    refine ⟨?_, rfl⟩
    rw [contents]
    have shown :
        (locked.markModified entry.2).view = memory.blocks :=
      markedView.trans (lockedView.trans refines.view)
    rw [shown] at storedView
    exact ⟨unlocked, unlockedView.trans storedView, refines.handles⟩

theorem Refines.drop {handle : Nat}
    (named : client.handles[handle]? = some entry) :
    Refines
      ⟨client.state.arcDrop entry.2, client.handles.eraseIdx handle⟩
      { memory with handles := memory.handles.eraseIdx handle } := by
  obtain ⟨inside, atHandle⟩ := List.getElem?_eq_some_iff.mp named
  have permutation :
      client.handles.Perm (entry :: client.handles.eraseIdx handle) := by
    rw [← atHandle]
    exact (getElem_cons_eraseIdx_perm inside).symm
  obtain ⟨dropped, droppedView, _, _⟩ :=
    (refines.coherent.perm permutation (List.Perm.refl _)).arcDrop
  refine ⟨dropped, droppedView.trans refines.view, ?_⟩
  show (client.handles.eraseIdx handle).map Prod.fst = _
  rw [← refines.handles, eraseIdx_map]

/-- One step of the cache is the same step of the memory. -/
theorem Refines.step {op : CacheOp}
    (returned : client.step op = .ok (after, seen)) :
    Refines after (memory.step op).1 ∧ seen = (memory.step op).2 := by
  cases op with
  | get blockId =>
    rcases refines.coherent.getBlockCache (fun _ member => by cases member)
        blockId with
      ⟨arc, got, gotEq, obtained⟩ | ⟨stuck, _⟩
    · rw [Client.step, gotEq] at returned
      cases returned
      refine ⟨⟨?_, obtained.view.trans refines.view, ?_⟩, rfl⟩
      · exact obtained.coherent.perm
          (perm_append_singleton _ _).symm (List.Perm.refl _)
      · simp [Memory.step, ← refines.handles]
    · rw [Client.step, stuck] at returned
      cases returned
  | read handle offset size =>
    have lookup := handles_lookup refines handle
    cases named : client.handles[handle]? with
    | none =>
      rw [named] at lookup
      simp only [Client.step, named] at returned
      cases returned
      simp only [Memory.step, lookup]
      exact ⟨refines, rfl⟩
    | some entry =>
      rw [named] at lookup
      simp only [Client.step, named] at returned
      simp only [Memory.step, lookup, Option.map_some]
      exact refines.read (mem_of_getElem? named) returned
  | modify handle offset size closure =>
    have lookup := handles_lookup refines handle
    cases named : client.handles[handle]? with
    | none =>
      rw [named] at lookup
      simp only [Client.step, named] at returned
      cases returned
      simp only [Memory.step, lookup]
      exact ⟨refines, rfl⟩
    | some entry =>
      rw [named] at lookup
      simp only [Client.step, named] at returned
      simp only [Memory.step, lookup, Option.map_some]
      exact refines.modify (mem_of_getElem? named) returned
  | drop handle =>
    have lookup := handles_lookup refines handle
    cases named : client.handles[handle]? with
    | none =>
      rw [named] at lookup
      simp only [Client.step, named] at returned
      cases returned
      have outside : memory.handles.length ≤ handle := by
        simpa using lookup
      simp only [Memory.step, eraseIdx_of_length_le outside]
      exact ⟨refines, trivial⟩
    | some entry =>
      simp only [Client.step, named] at returned
      cases returned
      exact ⟨refines.drop named, rfl⟩
  | syncAll =>
    obtain ⟨synced, syncedEq, syncedCoherent, view, _⟩ :=
      refines.coherent.blockCacheSyncAll
    rw [Client.step, syncedEq] at returned
    cases returned
    exact ⟨⟨syncedCoherent, view.trans refines.view, refines.handles⟩, rfl⟩

end

/-- The queue is well formed: one entry per block, at most sixteen, and the
unmodified ones equal the device. -/
def QueueOk (state : CacheState) : Prop :=
  (state.queue.map Prod.fst).Nodup ∧
    state.queue.length ≤ 16 ∧
    ∀ entry ∈ state.queue,
      (state.heap entry.2).inner.modified = false →
        (state.heap entry.2).inner.cache = state.device.readBlock entry.1

/--
The block cache is transparent: a run that does not stop observes what a
plain memory of blocks observes, and the queue is well formed at all times.
-/
theorem block_cache_transparent (device : BlockDevice) (ops : List CacheOp)
    (after : Client) (seen : List Observed)
    (returned :
      run Client.step ⟨CacheState.start device, []⟩ ops = .ok (after, seen)) :
    seen = (totalRun Memory.step ⟨device.readBlock, []⟩ ops).2 ∧
      ∀ first rest, ops = first ++ rest →
        ∃ between earlier,
          run Client.step ⟨CacheState.start device, []⟩ first =
              .ok (between, earlier) ∧
            QueueOk between.state := by
  have start :
      Refines ⟨CacheState.start device, []⟩ ⟨device.readBlock, []⟩ :=
    ⟨CacheState.start_coherent device, CacheState.view_start device, rfl⟩
  refine ⟨(run_refines (fun related => related.step) start returned).2, ?_⟩
  rintro first rest rfl
  obtain ⟨between, earlier, _, firstEq, _, _⟩ := run_append_eq_ok.mp returned
  have coherent := (run_refines (fun related => related.step) start firstEq).1.coherent
  exact ⟨between, earlier, firstEq,
    coherent.idsNodup, coherent.bounded, coherent.clean⟩

/-- Write block 0, push it out of the queue, and read it again. -/
def evictionOps : List CacheOp :=
  [.get 0, .modify 0 5 1 fun _ => #v[7], .drop 0] ++
    (List.range 16).flatMap (fun block => [.get (block + 1), .drop 0]) ++
    [.get 0, .read 0 5 1]

theorem block_cache_transparent_eviction :
    ∃ after seen,
      run Client.step ⟨CacheState.start ⟨fun _ => zeros⟩, []⟩ evictionOps =
          .ok (after, seen) ∧
        seen.getLast? = some (some [7]) := by
  have returns :
      (run Client.step ⟨CacheState.start ⟨fun _ => zeros⟩, []⟩
        evictionOps).toBool = true := by
    decide +kernel
  cases outcome :
      run Client.step ⟨CacheState.start ⟨fun _ => zeros⟩, []⟩ evictionOps with
  | error fault =>
    rw [outcome] at returns
    cases returns
  | ok pair =>
    refine ⟨pair.1, pair.2, rfl, ?_⟩
    rw [(block_cache_transparent ⟨fun _ => zeros⟩ evictionOps _ _ outcome).1]
    decide +kernel

end CacheTrace

end RCoreOS.EasyFs
