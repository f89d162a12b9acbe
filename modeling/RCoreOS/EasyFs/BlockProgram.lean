import RCoreOS.EasyFs.BlockCache
import RCoreOS.Lib.FallibleRuns

/-!
# Programs over the block cache

Every easy-fs operation reaches the disk only through
`get_block_cache(id).lock().read(..)`, `.modify(..)` and
`block_cache_sync_all()`, where the closures may use the cache again while
the outer block stays locked and pinned.  `BlockProg` is the type of such
programs, and the operations of the later modules are written in it.

A program has two meanings.  `run` executes it on the block cache, with
pinning, eviction and write-back.  `onDisk` executes it on a bare disk, where
a block id that is already locked, or a seventeenth pinned block, stops the
program.  The simulation theorem says that the two agree exactly, results and
faults alike, so that everything else can be proved on the bare disk.
-/

namespace RCoreOS.EasyFs

open Lib.Bytes List

/-- The contents of all blocks. -/
abbrev Disk := Nat → Block

namespace CacheState

/-- `get_block_cache(id).lock()` -/
def acquire (state : CacheState) (blockId : Nat) :
    Except Fault (ArcId × CacheState) := do
  let (arc, state) ← state.getBlockCache blockId
  let state ← state.lock arc
  return (arc, state)

/-- The end of the statement: the guard is dropped, then the `Arc`. -/
def release (state : CacheState) (arc : ArcId) : CacheState :=
  (state.unlock arc).arcDrop arc

end CacheState

/-- A program that uses the disk through the block cache. -/
inductive BlockProg : Type → Type 1 where
  | done {α : Type} (value : α) : BlockProg α
  | fail {α : Type} (fault : Fault) : BlockProg α
  | read {α β : Type} (blockId : Nat)
      (body : Block → BlockProg β) (next : β → BlockProg α) : BlockProg α
  | modify {α β : Type} (blockId : Nat)
      (body : Block → BlockProg (β × Block)) (next : β → BlockProg α) :
      BlockProg α
  | syncAll {α : Type} (next : BlockProg α) : BlockProg α

namespace BlockProg

variable {α β γ : Type}

/-- Sequencing. -/
def bind : BlockProg α → (α → BlockProg β) → BlockProg β
  | .done value, rest => rest value
  | .fail fault, _ => .fail fault
  | .read blockId body next, rest =>
    .read blockId body fun result => (next result).bind rest
  | .modify blockId body next, rest =>
    .modify blockId body fun result => (next result).bind rest
  | .syncAll next, rest => .syncAll (next.bind rest)

instance : Monad BlockProg where
  pure := .done
  bind := bind

/-- Continue with a value, or stop with the fault. -/
def ofExcept : Except Fault α → BlockProg α
  | .ok value => .done value
  | .error fault => .fail fault

/-- `assert!` -/
def assert (condition : Bool) : BlockProg Unit :=
  if condition then .done () else .fail .assertFailed

/-! ## The two meanings -/

/-- Execute a program on the block cache. -/
def run :
    {α : Type} → BlockProg α → CacheState → Except Fault (α × CacheState)
  | _, .done value, state => .ok (value, state)
  | _, .fail fault, _ => .error fault
  | _, .read blockId body next, state => do
      let (arc, state) ← state.acquire blockId
      let (result, state) ← (body (state.heap arc).inner.cache).run state
      (next result).run (state.release arc)
  | _, .modify blockId body next, state => do
      let (arc, state) ← state.acquire blockId
      let state := state.markModified arc
      let ((result, contents), state) ←
        (body (state.heap arc).inner.cache).run state
      (next result).run ((state.setContents arc contents).release arc)
  | _, .syncAll next, state => do
      let state ← state.blockCacheSyncAll
      next.run state

/-- May a program that holds the blocks `held` lock `blockId`? -/
def mayLock (held : List Nat) (blockId : Nat) : Except Fault Unit :=
  if blockId ∈ held then .error .lockedTwice
  else if blockCacheSize ≤ held.length then .error .runOutOfBlockCache
  else .ok ()

/-- Execute a program on a bare disk, holding the blocks `held`. -/
def onDisk :
    {α : Type} → BlockProg α → List Nat → Disk → Except Fault (α × Disk)
  | _, .done value, _, disk => .ok (value, disk)
  | _, .fail fault, _, _ => .error fault
  | _, .read blockId body next, held, disk => do
      mayLock held blockId
      let (result, disk) ← (body (disk blockId)).onDisk (blockId :: held) disk
      (next result).onDisk held disk
  | _, .modify blockId body next, held, disk => do
      mayLock held blockId
      let ((result, contents), disk) ←
        (body (disk blockId)).onDisk (blockId :: held) disk
      (next result).onDisk held (Function.update disk blockId contents)
  | _, .syncAll next, held, disk =>
    if held = [] then next.onDisk held disk else .error .lockedTwice

/-! ## Sequencing -/

theorem onDisk_bind (program : BlockProg α) (rest : α → BlockProg β)
    (held : List Nat) (disk : Disk) :
    (program >>= rest).onDisk held disk =
      (program.onDisk held disk).bind fun outcome =>
        (rest outcome.1).onDisk held outcome.2 := by
  show (program.bind rest).onDisk held disk = _
  induction program generalizing held disk with
  | done value => rfl
  | fail fault => rfl
  | read blockId body next _ ih =>
    simp only [bind, onDisk]
    cases mayLock held blockId with
    | error fault => rfl
    | ok _ =>
      cases (body (disk blockId)).onDisk (blockId :: held) disk with
      | error fault => rfl
      | ok outcome => exact ih outcome.1 rest held outcome.2
  | modify blockId body next _ ih =>
    simp only [bind, onDisk]
    cases mayLock held blockId with
    | error fault => rfl
    | ok _ =>
      cases (body (disk blockId)).onDisk (blockId :: held) disk with
      | error fault => rfl
      | ok outcome => exact ih outcome.1.1 rest held _
  | syncAll next ih =>
    simp only [bind, onDisk]
    split
    · exact ih rest held disk
    · rfl

@[simp]
theorem onDisk_pure (value : α) (held : List Nat) (disk : Disk) :
    (pure value : BlockProg α).onDisk held disk = .ok (value, disk) :=
  rfl

variable {held : List Nat} {disk after : Disk}

theorem onDisk_ofExcept_eq_ok {outcome : Except Fault α} {value : α}
    (returned : (ofExcept outcome).onDisk held disk = .ok (value, after)) :
    outcome = .ok value ∧ after = disk := by
  cases outcome with
  | error fault => cases returned
  | ok result =>
    cases returned
    exact ⟨rfl, rfl⟩

/-- An assertion that returned was true. -/
theorem onDisk_assert_eq_ok {condition : Bool} {value : Unit}
    (returned : (assert condition).onDisk held disk = .ok (value, after)) :
    condition = true ∧ after = disk := by
  cases condition with
  | false => cases returned
  | true =>
    cases returned
    exact ⟨rfl, rfl⟩

theorem onDisk_bind_ok {program : BlockProg α} {value : α}
    (returned : program.onDisk held disk = .ok (value, after))
    (rest : α → BlockProg β) :
    (program >>= rest).onDisk held disk = (rest value).onDisk held after := by
  rw [onDisk_bind, returned]
  rfl

theorem onDisk_bind_error {program : BlockProg α} {fault : Fault}
    (stopped : program.onDisk held disk = .error fault)
    (rest : α → BlockProg β) :
    (program >>= rest).onDisk held disk = .error fault := by
  rw [onDisk_bind, stopped]
  rfl

/-- A sequence returns when both parts do. -/
theorem onDisk_bind_eq_ok {program : BlockProg α} {rest : α → BlockProg β}
    {result : β} :
    (program >>= rest).onDisk held disk = .ok (result, after) ↔
      ∃ value between,
        program.onDisk held disk = .ok (value, between) ∧
          (rest value).onDisk held between = .ok (result, after) := by
  rw [onDisk_bind]
  cases outcome : program.onDisk held disk with
  | error fault => simp [Except.bind]
  | ok pair =>
    constructor
    · intro returned
      exact ⟨pair.1, pair.2, rfl, returned⟩
    · rintro ⟨value, between, equal, returned⟩
      cases equal
      exact returned

/-! ## Programs that only read -/

/-- A program without modifications. -/
def ReadOnly : {α : Type} → BlockProg α → Prop
  | _, .done _ => True
  | _, .fail _ => True
  | _, .read _ body next =>
    (∀ contents, (body contents).ReadOnly) ∧ ∀ result, (next result).ReadOnly
  | _, .modify _ _ _ => False
  | _, .syncAll _ => False

theorem ReadOnly.bind {program : BlockProg α} {rest : α → BlockProg β}
    (first : program.ReadOnly) (second : ∀ value, (rest value).ReadOnly) :
    (program >>= rest).ReadOnly := by
  show (program.bind rest).ReadOnly
  induction program with
  | done value => exact second value
  | fail fault => trivial
  | read blockId body next _ ih =>
    exact ⟨first.1, fun result => ih result (first.2 result) second⟩
  | modify blockId body next _ _ => exact first.elim
  | syncAll next _ => exact first.elim

theorem readOnly_ofExcept (outcome : Except Fault α) :
    (ofExcept outcome).ReadOnly := by
  cases outcome <;> trivial

theorem readOnly_assert (condition : Bool) : (assert condition).ReadOnly := by
  cases condition <;> trivial

/-- A program that only reads leaves the disk as it is. -/
theorem ReadOnly.onDisk_eq {program : BlockProg α}
    (readOnly : program.ReadOnly) {value : α}
    (returned : program.onDisk held disk = .ok (value, after)) :
    after = disk := by
  induction program generalizing held disk after with
  | done _ =>
    cases returned
    rfl
  | fail fault => cases returned
  | read blockId body next bodyIH nextIH =>
    simp only [onDisk] at returned
    obtain ⟨_, _, returned⟩ := Lib.FallibleRuns.bind_eq_ok.mp returned
    obtain ⟨⟨result, between⟩, bodyReturned, nextReturned⟩ :=
      Lib.FallibleRuns.bind_eq_ok.mp returned
    rw [nextIH result (readOnly.2 result) nextReturned,
      bodyIH _ (readOnly.1 _) bodyReturned]
  | modify blockId body next _ _ => exact readOnly.elim
  | syncAll next _ => exact readOnly.elim

end BlockProg

/-! ## The cache simulates the disk -/

namespace CacheState

variable {state : CacheState} {held : List Entry}

/-- What a caller has once `get_block_cache(id).lock()` has returned. -/
structure Acquired (before : CacheState) (held : List Entry) (blockId : Nat)
    (arc : ArcId) (after : CacheState) : Prop where
  coherent :
    after.Coherent ((blockId, arc) :: held) ((blockId, arc) :: held)
  fresh : (blockId, arc) ∉ held
  view : after.view = before.view
  sameInner : SameInner before after held
  settled : before.Settled → after.Settled

/-- All pinned entries are different entries of the queue. -/
theorem Coherent.held_length
    (coherent : state.Coherent held held) (distinct : held.Nodup) :
    held.length ≤ state.queue.length :=
  (distinct.subperm coherent.pinned).length_le

theorem Coherent.acquire
    (coherent : state.Coherent held held) (distinct : held.Nodup)
    (blockId : Nat) :
    match BlockProg.mayLock (held.map Prod.fst) blockId with
    | .error fault => state.acquire blockId = .error fault
    | .ok _ =>
      ∃ arc after,
        state.acquire blockId = .ok (arc, after) ∧
          Acquired state held blockId arc after := by
  rcases coherent.getBlockCache (fun _ member => member) blockId with
    ⟨arc, obtained, gotEq, got⟩ | ⟨stuckEq, absent, full, allPinned⟩
  · have inQueue : (blockId, arc) ∈ obtained.queue :=
      got.coherent.pinned _ mem_cons_self
    by_cases locked : blockId ∈ held.map Prod.fst
    · -- The entry found is the one that is already locked.
      obtain ⟨entry, entryHeld, entryId⟩ := mem_map.mp locked
      have entryQueue : entry ∈ obtained.queue :=
        got.coherent.pinned entry (mem_cons_of_mem _ entryHeld)
      have same : entry = (blockId, arc) :=
        inj_on_of_nodup_map got.coherent.idsNodup entryQueue inQueue
          entryId
      have stuck := got.coherent.lock_held inQueue (same ▸ entryHeld)
      simp only [BlockProg.mayLock, if_pos locked]
      rw [CacheState.acquire, gotEq]
      show (obtained.lock arc >>= _) = _
      rw [stuck]
      rfl
    · have fresh : (blockId, arc) ∉ held := by
        intro member
        exact locked (mem_map_of_mem member)
      obtain ⟨after, lockEq, afterCoherent, afterView, afterDevice, afterInner⟩ :=
        got.coherent.lock_free inQueue fresh
      have room : ¬ blockCacheSize ≤ (held.map Prod.fst).length := by
        have pinnedLength :=
          afterCoherent.held_length (nodup_cons.mpr ⟨fresh, distinct⟩)
        have bounded := afterCoherent.bounded
        simp only [length_cons, length_map] at pinnedLength ⊢
        omega
      simp only [BlockProg.mayLock, if_neg locked, if_neg room]
      refine ⟨arc, after, ?_, afterCoherent, fresh,
        afterView.trans got.view, ?_, ?_⟩
      · rw [CacheState.acquire, gotEq]
        show (obtained.lock arc >>= _) = _
        rw [lockEq]
        rfl
      · exact got.sameInner.trans (afterInner held)
      · intro settled id
        rw [afterView, afterDevice]
        exact got.settled settled id
  · have notHeld : blockId ∉ held.map Prod.fst := by
      intro member
      obtain ⟨entry, entryHeld, entryId⟩ := mem_map.mp member
      exact absent entry (coherent.pinned entry entryHeld) entryId
    have full' : blockCacheSize ≤ (held.map Prod.fst).length := by
      have queueLength :=
        (coherent.idsNodup.of_map.subperm allPinned).length_le
      rw [full] at queueLength
      simpa using queueLength
    simp only [BlockProg.mayLock, if_neg notHeld, if_pos full']
    rw [CacheState.acquire, stuckEq]
    rfl

/-- What is left once the guard and the handle of a block are dropped. -/
structure Released
    (before : CacheState) (held : List Entry) (after : CacheState) :
    Prop where
  coherent : after.Coherent held held
  view : after.view = before.view
  device : after.device = before.device
  sameInner : SameInner before after held

variable {entry : Entry} {after : CacheState} {blockId : Nat} {arc : ArcId}

section

variable (coherent : state.Coherent (entry :: held) (entry :: held))

include coherent

theorem Coherent.release (fresh : entry ∉ held) :
    Released state held (state.release entry.2) := by
  have member : entry ∈ state.queue := coherent.pinned entry mem_cons_self
  obtain ⟨unlocked, unlockedView, unlockedDevice, unlockedInner⟩ :=
    coherent.unlock member fresh
  obtain ⟨dropped, droppedView, droppedDevice, droppedInner⟩ :=
    unlocked.arcDrop
  exact
    { coherent := dropped
      view := droppedView.trans unlockedView
      device := droppedDevice.trans unlockedDevice
      sameInner := (unlockedInner held).trans (droppedInner held) }

/-- Marking a cell as modified changes no other cell. -/
theorem Coherent.markModified_inner (fresh : entry ∉ held) :
    SameInner state (state.markModified entry.2) held := by
  intro other otherHeld
  have distinct : other ≠ entry := by
    rintro rfl
    exact fresh otherHeld
  rw [CacheState.markModified, heap_setCell_other coherent
    (coherent.pinned entry mem_cons_self)
    (coherent.pinned other (mem_cons_of_mem entry otherHeld)) distinct]

theorem Coherent.setContents_inner (fresh : entry ∉ held) (contents : Block) :
    SameInner state (state.setContents entry.2 contents) held := by
  intro other otherHeld
  have distinct : other ≠ entry := by
    rintro rfl
    exact fresh otherHeld
  rw [CacheState.setContents, heap_setCell_other coherent
    (coherent.pinned entry mem_cons_self)
    (coherent.pinned other (mem_cons_of_mem entry otherHeld)) distinct]

end

variable {before : CacheState}

/-- The closure of a read sees what the cache shows. -/
theorem Acquired.shown (acquired : Acquired before held blockId arc after) :
    (after.heap arc).inner.cache = before.view blockId := by
  rw [← acquired.view]
  exact (acquired.coherent.view_entry
    (acquired.coherent.pinned _ mem_cons_self)).symm

/-- A lock that was obtained could be obtained. -/
theorem Coherent.acquire_eq_ok (coherent : state.Coherent held held)
    (distinct : held.Nodup)
    (returned : state.acquire blockId = .ok (arc, after)) :
    Acquired state held blockId arc after := by
  have acquire := coherent.acquire distinct blockId
  cases verdict : BlockProg.mayLock (held.map Prod.fst) blockId with
  | error fault =>
    rw [verdict] at acquire
    rw [acquire] at returned
    cases returned
  | ok _ =>
    rw [verdict] at acquire
    obtain ⟨_, _, acquireEq, acquired⟩ := acquire
    rw [acquireEq] at returned
    cases returned
    exact acquired

/-- What the closure of a modification starts with. -/
structure Opened (before : CacheState) (held : List Entry) (blockId : Nat)
    (arc : ArcId) (after : CacheState) : Prop where
  coherent :
    after.Coherent ((blockId, arc) :: held) ((blockId, arc) :: held)
  view : after.view = before.view
  shown : (after.heap arc).inner.cache = before.view blockId
  flagged : (after.heap arc).inner.modified = true
  sameInner : SameInner before after held
  settled : before.Settled → after.Settled

theorem Acquired.opened (acquired : Acquired before held blockId arc after) :
    Opened before held blockId arc (after.markModified arc) := by
  have member : (blockId, arc) ∈ after.queue :=
    acquired.coherent.pinned _ mem_cons_self
  obtain ⟨marked, markedView, markedDevice⟩ :=
    acquired.coherent.markModified member
  refine
    { coherent := marked
      view := markedView.trans acquired.view
      shown := ?_
      flagged := ?_
      sameInner :=
        acquired.sameInner.trans
          (acquired.coherent.markModified_inner acquired.fresh)
      settled := ?_ }
  · rw [← acquired.view, ← markedView]
    exact (marked.view_entry (marked.pinned _ mem_cons_self)).symm
  · simp [CacheState.markModified, CacheState.setCell]
  · intro settled id
    rw [markedView, markedDevice]
    exact acquired.settled settled id

/-- What is left once a modification has stored its contents. -/
structure Closed (before : CacheState) (held : List Entry) (blockId : Nat)
    (contents : Block) (after : CacheState) : Prop where
  coherent : after.Coherent held held
  view : after.view = Function.update before.view blockId contents
  device : after.device = before.device
  sameInner : SameInner before after held

theorem Coherent.close
    (coherent :
      state.Coherent ((blockId, arc) :: held) ((blockId, arc) :: held))
    (fresh : (blockId, arc) ∉ held)
    (flagged : (state.heap arc).inner.modified = true) (contents : Block) :
    Closed state held blockId contents
      ((state.setContents arc contents).release arc) := by
  obtain ⟨stored, storedView, storedDevice⟩ :=
    coherent.setContents (coherent.pinned _ mem_cons_self) flagged
      contents
  have released := stored.release fresh
  exact
    { coherent := released.coherent
      view := released.view.trans storedView
      device := released.device.trans storedDevice
      sameInner :=
        (coherent.setContents_inner fresh contents).trans
          released.sameInner }

end CacheState

namespace BlockProg

/--
The outcome on the cache and the outcome on the disk agree: both return the
same value and show the same disk, or both stop for the same reason.
-/
inductive Agrees {α : Type} (before : CacheState) (held : List Entry) :
    Except Fault (α × CacheState) → Except Fault (α × Disk) → Prop where
  | returned {value : α} {after : CacheState}
      (coherent : after.Coherent held held)
      (sameInner : CacheState.SameInner before after held) :
      Agrees before held (.ok (value, after)) (.ok (value, after.view))
  | stopped (fault : Fault) :
      Agrees before held (.error fault) (.error fault)

variable {α : Type} {held : List Entry}

theorem Agrees.mono {first second : CacheState}
    (sameInner : CacheState.SameInner first second held)
    {onCache : Except Fault (α × CacheState)}
    {onDisk : Except Fault (α × Disk)}
    (agrees : Agrees second held onCache onDisk) :
    Agrees first held onCache onDisk := by
  cases agrees with
  | returned coherent later => exact .returned coherent (sameInner.trans later)
  | stopped fault => exact .stopped fault

/--
Running a program on the block cache is running it on the disk that the
cache shows.
-/
theorem run_agrees (program : BlockProg α)
    {state : CacheState}
    (coherent : state.Coherent held held) (distinct : held.Nodup) :
    Agrees state held (program.run state)
      (program.onDisk (held.map Prod.fst) state.view) := by
  induction program generalizing state held with
  | done value => exact .returned coherent (fun _ _ => rfl)
  | fail fault => exact .stopped fault
  | read blockId body next bodyIH nextIH =>
    have acquire := coherent.acquire distinct blockId
    simp only [run, onDisk]
    cases verdict : mayLock (held.map Prod.fst) blockId with
    | error fault =>
      rw [verdict] at acquire
      rw [acquire]
      exact .stopped fault
    | ok _ =>
      rw [verdict] at acquire
      obtain ⟨arc, locked, acquireEq, acquired⟩ := acquire
      rw [acquireEq]
      have inner :=
        bodyIH (state.view blockId) acquired.coherent
          (nodup_cons.mpr ⟨acquired.fresh, distinct⟩)
      rw [acquired.view] at inner
      simp only [map_cons] at inner
      show Agrees state held
        (((body (locked.heap arc).inner.cache).run locked) >>= _)
        (((body (state.view blockId)).onDisk _ state.view) >>= _)
      rw [acquired.shown]
      generalize (body (state.view blockId)).run locked = onCache at *
      generalize
        (body (state.view blockId)).onDisk
          (blockId :: held.map Prod.fst) state.view = onBare at *
      cases inner with
      | stopped fault => exact .stopped fault
      | @returned result after afterCoherent sameInner =>
        have released := afterCoherent.release acquired.fresh
        refine Agrees.mono ?_
          (released.view ▸ nextIH result released.coherent distinct)
        exact acquired.sameInner.trans
          (CacheState.SameInner.trans
            (fun entry member => sameInner entry (mem_cons_of_mem _ member))
            released.sameInner)
  | modify blockId body next bodyIH nextIH =>
    have acquire := coherent.acquire distinct blockId
    simp only [run, onDisk]
    cases verdict : mayLock (held.map Prod.fst) blockId with
    | error fault =>
      rw [verdict] at acquire
      rw [acquire]
      exact .stopped fault
    | ok _ =>
      rw [verdict] at acquire
      obtain ⟨arc, locked, acquireEq, acquired⟩ := acquire
      rw [acquireEq]
      have opened := acquired.opened
      have inner :=
        bodyIH (state.view blockId) opened.coherent
          (nodup_cons.mpr ⟨acquired.fresh, distinct⟩)
      rw [opened.view] at inner
      simp only [map_cons] at inner
      show Agrees state held
        (((body ((locked.markModified arc).heap arc).inner.cache).run
          (locked.markModified arc)) >>= _)
        (((body (state.view blockId)).onDisk _ state.view) >>= _)
      rw [opened.shown]
      generalize
        (body (state.view blockId)).run (locked.markModified arc) =
          onCache at *
      generalize
        (body (state.view blockId)).onDisk
          (blockId :: held.map Prod.fst) state.view = onBare at *
      cases inner with
      | stopped fault => exact .stopped fault
      | @returned outcome after afterCoherent sameInner =>
        obtain ⟨result, contents⟩ := outcome
        have stillFlagged : (after.heap arc).inner.modified = true := by
          rw [sameInner (blockId, arc) mem_cons_self]
          exact opened.flagged
        have closed := afterCoherent.close acquired.fresh stillFlagged contents
        refine Agrees.mono ?_
          (closed.view ▸ nextIH result closed.coherent distinct)
        exact opened.sameInner.trans
          (CacheState.SameInner.trans
            (fun entry member => sameInner entry (mem_cons_of_mem _ member))
            closed.sameInner)
  | syncAll next ih =>
    simp only [run, onDisk]
    cases held with
    | nil =>
      obtain ⟨synced, syncedEq, syncedCoherent, view, _⟩ :=
        coherent.blockCacheSyncAll
      rw [syncedEq]
      have later := ih syncedCoherent distinct
      rw [view] at later
      exact Agrees.mono (fun _ member => by cases member) later
    | cons entry rest =>
      have stuck :=
        coherent.blockCacheSyncAll_locked (fun _ member => member)
          (cons_ne_nil entry rest)
      rw [stuck]
      exact .stopped .lockedTwice

end BlockProg

end RCoreOS.EasyFs
