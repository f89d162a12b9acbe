import RCoreOS.EasyFs.QuietProgram

/-!
# How many blocks a program pins

A closure of `read` or `modify` may use the cache while its own block stays
locked and pinned.  `Nests` bounds how deep this goes in the text of a program,
whatever the blocks contain.  `points` lists the states of the cache through
which an execution passes, and in none of them are more blocks pinned than the
program nests.

Locking a block twice does not show in the text: which block is locked may
depend on what is on the disk.  `NoRelock` says that an execution on the disk
does not stop for that reason, and has a rule for each kind of statement.
-/

namespace RCoreOS.EasyFs

open List

open Lib.FallibleRuns (bind_eq_ok bind_eq_error)

/-- The faults of the block cache itself. -/
def Fault.ofCache : Fault → Bool
  | .runOutOfBlockCache => true
  | .lockedTwice => true
  | _ => false

namespace CacheState

variable {state : CacheState} {handles locks : List Entry}

/-- The number of cached blocks that handles outside the queue pin. -/
def pinnedCount (state : CacheState) : Nat :=
  state.queue.countP fun entry => 1 < (state.heap entry.2).strongCount

/-- A pinned block has a handle. -/
theorem Coherent.pinnedCount_le (coherent : state.Coherent handles locks) :
    state.pinnedCount ≤ handles.length := by
  rw [pinnedCount, countP_eq_length_filter]
  refine List.Subperm.length_le (List.Nodup.subperm ?_ ?_)
  · exact coherent.idsNodup.of_map.filter _
  · intro entry member
    obtain ⟨inQueue, shared⟩ := mem_filter.mp member
    have count := coherent.counts entry inQueue
    have positive : 0 < handles.count entry := by
      have := of_decide_eq_true shared
      omega
    exact count_pos_iff.mp positive

variable {held : List Entry} {blockId : Nat} {arc : ArcId}
  {obtained : CacheState}

/-- A block that was looked up is pinned once more. -/
theorem Coherent.pinnedCount_got (coherent : state.Coherent held held)
    (got : state.getBlockCache blockId = .ok (arc, obtained)) :
    obtained.pinnedCount ≤ held.length + 1 := by
  rcases coherent.getBlockCache (fun _ member => member) blockId with
    ⟨_, _, gotEq, facts⟩ | ⟨stuck, _⟩
  · rw [gotEq] at got
    cases got
    exact facts.coherent.pinnedCount_le
  · rw [stuck] at got
    cases got

theorem acquire_of_lock {locked : CacheState}
    (got : state.getBlockCache blockId = .ok (arc, obtained))
    (lockEq : obtained.lock arc = .ok locked) :
    state.acquire blockId = .ok (arc, locked) :=
  bind_eq_ok.mpr ⟨_, got, bind_eq_ok.mpr ⟨_, lockEq, rfl⟩⟩

/-- A guard that is dropped leaves the handle. -/
theorem Coherent.pinnedCount_unlock {entry : Entry}
    (coherent : state.Coherent (entry :: held) (entry :: held))
    (fresh : entry ∉ held) :
    (state.unlock entry.2).pinnedCount ≤ held.length + 1 :=
  (coherent.unlock (coherent.pinned entry mem_cons_self)
    fresh).1.pinnedCount_le

end CacheState

namespace BlockProg

variable {α β : Type}

/-! ## Nesting -/

/--
At most `depth` blocks are open at once, and the program stops for no reason
that is the cache's.
-/
def Nests : {α : Type} → BlockProg α → Nat → Prop
  | _, .done _, _ => True
  | _, .fail fault, _ => fault.ofCache = false
  | _, .read _ body next, depth =>
    0 < depth ∧ (∀ contents, (body contents).Nests (depth - 1)) ∧
      ∀ result, (next result).Nests depth
  | _, .modify _ body next, depth =>
    0 < depth ∧ (∀ contents, (body contents).Nests (depth - 1)) ∧
      ∀ result, (next result).Nests depth
  | _, .syncAll next, depth => next.Nests depth

variable {depth : Nat}

theorem Nests.mono {program : BlockProg α} {more : Nat}
    (nests : program.Nests depth) (le : depth ≤ more) :
    program.Nests more := by
  induction program generalizing depth more with
  | done _ => trivial
  | fail _ => exact nests
  | read _ _ _ bodyIH nextIH
  | modify _ _ _ bodyIH nextIH =>
    exact ⟨Nat.lt_of_lt_of_le nests.1 le,
      fun contents => bodyIH contents (nests.2.1 contents) (by omega),
      fun result => nextIH result (nests.2.2 result) le⟩
  | syncAll _ ih => exact ih nests le

theorem Nests.bind {program : BlockProg α} {rest : α → BlockProg β}
    (first : program.Nests depth)
    (second : ∀ value, (rest value).Nests depth) :
    (program >>= rest).Nests depth := by
  show (program.bind rest).Nests depth
  induction program with
  | done value => exact second value
  | fail _ => exact first
  | read _ _ _ _ ih
  | modify _ _ _ _ ih =>
    exact ⟨first.1, first.2.1,
      fun result => ih result (first.2.2 result) second⟩
  | syncAll _ ih => exact ih first second

theorem nests_pure (value : α) (depth : Nat) :
    (pure value : BlockProg α).Nests depth :=
  trivial

theorem nests_assert (condition : Bool) (depth : Nat) :
    (assert condition).Nests depth := by
  cases condition
  · exact (rfl : Fault.ofCache .assertFailed = false)
  · trivial

theorem nests_syncAll (depth : Nat) : blockCacheSyncAll.Nests depth := trivial

/-- A computation that does not use the cache. -/
def Plain (outcome : Except Fault α) : Prop :=
  ∀ fault, outcome = .error fault → fault.ofCache = false

theorem plain_ok (value : α) : Plain (.ok value) := nofun

theorem plain_error {fault : Fault} (other : fault.ofCache = false) :
    Plain (.error fault : Except Fault α) := by
  intro found equal
  cases equal
  exact other

theorem Plain.bind {outcome : Except Fault α} {rest : α → Except Fault β}
    (first : Plain outcome) (second : ∀ value, Plain (rest value)) :
    Plain (outcome >>= rest) := by
  cases outcome with
  | error fault => exact plain_error (first fault rfl)
  | ok value => exact second value

theorem nests_ofExcept {outcome : Except Fault α} (plain : Plain outcome)
    (depth : Nat) : (ofExcept outcome).Nests depth := by
  cases outcome with
  | error fault => exact plain fault rfl
  | ok value => trivial

section

variable {T : Type} [BlockView T] {blockId offset depth : Nat}

theorem nests_readAt {body : T → BlockProg β}
    (inner : ∀ value, (body value).Nests depth) :
    (readAt blockId offset body).Nests (depth + 1) := by
  refine ⟨Nat.succ_pos depth, fun contents => ?_, fun _ => trivial⟩
  split
  · exact inner _
  · exact (rfl : Fault.ofCache .assertFailed = false)

theorem nests_modifyAt {body : T → BlockProg (β × T)}
    (inner : ∀ value, (body value).Nests depth) :
    (modifyAt blockId offset body).Nests (depth + 1) := by
  refine ⟨Nat.succ_pos depth, fun contents => ?_, fun _ => trivial⟩
  split
  · exact (inner _).bind fun _ => trivial
  · exact (rfl : Fault.ofCache .assertFailed = false)

end

/-! ## The states of an execution -/

/--
The states while a block is looked up and locked: before, with the handle, and
those that follow once the lock is taken.
-/
def lockPoints (state : CacheState) (blockId : Nat)
    (rest : ArcId → CacheState → List CacheState) : List CacheState :=
  state ::
    match state.getBlockCache blockId with
    | .error _ => []
    | .ok (arc, obtained) =>
      obtained ::
        match obtained.lock arc with
        | .error _ => []
        | .ok locked => rest arc locked

/--
The states of the cache through which an execution passes: those up to the
lock, those of the closure, without the lock again, and those of the rest.
-/
def points : {α : Type} → BlockProg α → CacheState → List CacheState
  | _, .done _, state => [state]
  | _, .fail _, state => [state]
  | _, .read blockId body next, state =>
    lockPoints state blockId fun arc locked =>
      let closure := body (locked.heap arc).inner.cache
      closure.points locked ++
        match closure.run locked with
        | .error _ => []
        | .ok (result, last) =>
          last.unlock arc :: (next result).points (last.release arc)
  | _, .modify blockId body next, state =>
    lockPoints state blockId fun arc locked =>
      let opened := locked.markModified arc
      let closure := body (opened.heap arc).inner.cache
      closure.points opened ++
        match closure.run opened with
        | .error _ => []
        | .ok ((result, contents), last) =>
          let stored := last.setContents arc contents
          stored.unlock arc :: (next result).points (stored.release arc)
  | _, .syncAll next, state =>
    state ::
      match state.blockCacheSyncAll with
      | .error _ => []
      | .ok synced => next.points synced

section

variable {state : CacheState} {held : List Entry}

/-- A state up to the lock has one more pinned block at most. -/
theorem mem_lockPoints (coherent : state.Coherent held held)
    (distinct : held.Nodup) {blockId : Nat}
    {rest : ArcId → CacheState → List CacheState} {point : CacheState}
    (member : point ∈ lockPoints state blockId rest) :
    point.pinnedCount ≤ held.length + 1 ∨
      ∃ arc locked,
        CacheState.Acquired state held blockId arc locked ∧
          point ∈ rest arc locked := by
  rw [lockPoints] at member
  rcases mem_cons.mp member with rfl | member
  · exact .inl (Nat.le_succ_of_le coherent.pinnedCount_le)
  cases got : state.getBlockCache blockId with
  | error _ =>
    rw [got] at member
    cases member
  | ok pair =>
    obtain ⟨arc, obtained⟩ := pair
    rw [got] at member
    rcases mem_cons.mp member with rfl | member
    · exact .inl (coherent.pinnedCount_got got)
    cases lockEq : obtained.lock arc with
    | error _ =>
      rw [lockEq] at member
      cases member
    | ok locked =>
      rw [lockEq] at member
      exact .inr ⟨arc, locked,
        coherent.acquire_eq_ok distinct
          (CacheState.acquire_of_lock got lockEq), member⟩

/-- In no state are more blocks pinned than the program nests. -/
theorem Nests.pinnedCount_le {program : BlockProg α} {depth : Nat}
    (nests : program.Nests depth) (coherent : state.Coherent held held)
    (distinct : held.Nodup) :
    ∀ point ∈ program.points state,
      point.pinnedCount ≤ held.length + depth := by
  induction program generalizing depth state held with
  | done _
  | fail _ =>
    intro point member
    rw [mem_singleton.mp member]
    exact Nat.le_trans coherent.pinnedCount_le (Nat.le_add_right _ _)
  | read blockId body next bodyIH nextIH =>
    obtain ⟨positive, bodyNests, nextNests⟩ := nests
    intro point member
    rw [points] at member
    rcases mem_lockPoints coherent distinct member with
      few | ⟨arc, locked, acquired, member⟩
    · omega
    have nowDistinct := nodup_cons.mpr ⟨acquired.fresh, distinct⟩
    rcases mem_append.mp member with inside | member
    · have bound :=
        bodyIH _ (bodyNests _) acquired.coherent nowDistinct point inside
      rw [length_cons] at bound
      omega
    cases ran : (body (locked.heap arc).inner.cache).run locked with
    | error _ =>
      rw [ran] at member
      cases member
    | ok outcome =>
      obtain ⟨result, last⟩ := outcome
      rw [ran] at member
      obtain ⟨lastCoherent, _⟩ := run_eq_ok acquired.coherent nowDistinct ran
      rcases mem_cons.mp member with rfl | member
      · exact Nat.le_trans
          (lastCoherent.pinnedCount_unlock acquired.fresh)
          (Nat.add_le_add_left positive _)
      · exact nextIH result (nextNests result)
          (lastCoherent.release acquired.fresh).coherent distinct point
          member
  | modify blockId body next bodyIH nextIH =>
    obtain ⟨positive, bodyNests, nextNests⟩ := nests
    intro point member
    rw [points] at member
    rcases mem_lockPoints coherent distinct member with
      few | ⟨arc, locked, acquired, member⟩
    · omega
    have opened := acquired.opened
    have nowDistinct := nodup_cons.mpr ⟨acquired.fresh, distinct⟩
    rcases mem_append.mp member with inside | member
    · have bound :=
        bodyIH _ (bodyNests _) opened.coherent nowDistinct point inside
      rw [length_cons] at bound
      omega
    cases ran :
        (body ((locked.markModified arc).heap arc).inner.cache).run
          (locked.markModified arc) with
    | error _ =>
      rw [ran] at member
      cases member
    | ok outcome =>
      obtain ⟨⟨result, contents⟩, last⟩ := outcome
      rw [ran] at member
      obtain ⟨lastCoherent, sameInner, _⟩ :=
        run_eq_ok opened.coherent nowDistinct ran
      have stillFlagged : (last.heap arc).inner.modified = true := by
        rw [sameInner (blockId, arc) mem_cons_self]
        exact opened.flagged
      have stored :=
        (lastCoherent.setContents
          (lastCoherent.pinned _ mem_cons_self) stillFlagged
          contents).1
      rcases mem_cons.mp member with rfl | member
      · exact Nat.le_trans (stored.pinnedCount_unlock acquired.fresh)
          (Nat.add_le_add_left positive _)
      · exact nextIH result (nextNests result)
          (stored.release acquired.fresh).coherent distinct point member
  | syncAll next ih =>
    intro point member
    rw [points] at member
    rcases mem_cons.mp member with rfl | member
    · exact Nat.le_trans coherent.pinnedCount_le (Nat.le_add_right _ _)
    cases held with
    | nil =>
      obtain ⟨synced, syncedEq, syncedCoherent, _⟩ :=
        coherent.blockCacheSyncAll
      rw [syncedEq] at member
      exact ih nests syncedCoherent distinct point member
    | cons entry rest =>
      rw [coherent.blockCacheSyncAll_locked (fun _ member => member)
        (cons_ne_nil entry rest)] at member
      cases member

end

/-! ## Faults of the cache -/

section

variable {held : List Nat} {disk : Disk}

theorem mayLock_eq_error {blockId : Nat} {fault : Fault}
    (stopped : mayLock held blockId = .error fault) :
    fault = .lockedTwice ∧ blockId ∈ held ∨
      fault = .runOutOfBlockCache ∧ blockCacheSize ≤ held.length := by
  rw [mayLock] at stopped
  by_cases locked : blockId ∈ held
  · rw [if_pos locked] at stopped
    cases stopped
    exact .inl ⟨rfl, locked⟩
  · rw [if_neg locked] at stopped
    by_cases full : blockCacheSize ≤ held.length
    · rw [if_pos full] at stopped
      cases stopped
      exact .inr ⟨rfl, full⟩
    · rw [if_neg full] at stopped
      cases stopped

/-- A program that nests no deeper than there is room does not run out. -/
theorem Nests.onDisk_ne_runOut {program : BlockProg α} {depth : Nat}
    (nests : program.Nests depth)
    (room : held.length + depth ≤ blockCacheSize) :
    program.onDisk held disk ≠ .error .runOutOfBlockCache := by
  induction program generalizing depth held disk with
  | done _ => exact nofun
  | fail fault =>
    intro stopped
    cases stopped
    cases nests
  | read blockId body next bodyIH nextIH
  | modify blockId body next bodyIH nextIH =>
    obtain ⟨positive, bodyNests, nextNests⟩ := nests
    intro stopped
    rw [onDisk] at stopped
    rcases bind_eq_error.mp stopped with full | ⟨_, _, stopped⟩
    · rcases mayLock_eq_error full with ⟨impossible, _⟩ | ⟨_, full⟩
      · cases impossible
      · omega
    rcases bind_eq_error.mp stopped with inside | ⟨outcome, _, later⟩
    · refine bodyIH _ (bodyNests _) ?_ inside
      rw [length_cons]
      omega
    · exact nextIH _ (nextNests _) room later
  | syncAll next ih =>
    intro stopped
    rw [onDisk] at stopped
    by_cases free : held = []
    · rw [if_pos free] at stopped
      exact ih nests room stopped
    · rw [if_neg free] at stopped
      cases stopped

/-- Holding `held`, the program does not lock a block that is locked. -/
def NoRelock (program : BlockProg α) (held : List Nat) (disk : Disk) : Prop :=
  program.onDisk held disk ≠ .error .lockedTwice

theorem NoRelock.of_ok {program : BlockProg α} {outcome : α × Disk}
    (returned : program.onDisk held disk = .ok outcome) :
    program.NoRelock held disk := by
  rw [NoRelock, returned]
  exact nofun

theorem noRelock_pure (value : α) :
    (pure value : BlockProg α).NoRelock held disk :=
  .of_ok rfl

theorem NoRelock.bind {program : BlockProg α} {rest : α → BlockProg β}
    (first : program.NoRelock held disk)
    (second :
      ∀ value after, program.onDisk held disk = .ok (value, after) →
        (rest value).NoRelock held after) :
    (program >>= rest).NoRelock held disk := by
  intro stopped
  rw [onDisk_bind] at stopped
  rcases bind_eq_error.mp stopped with stopped | ⟨outcome, ran, stopped⟩
  · exact first stopped
  · exact second outcome.1 outcome.2 ran stopped

theorem noRelock_ofExcept {outcome : Except Fault α} (plain : Plain outcome) :
    (ofExcept outcome).NoRelock held disk := by
  cases outcome with
  | error fault =>
    intro stopped
    cases stopped
    cases plain _ rfl
  | ok value => exact .of_ok rfl

theorem noRelock_assert (condition : Bool) :
    (assert condition).NoRelock held disk := by
  cases condition
  · exact nofun
  · exact .of_ok rfl

theorem noRelock_syncAll : blockCacheSyncAll.NoRelock [] disk := .of_ok rfl

variable {T : Type} [BlockView T] {blockId offset : Nat}

theorem noRelock_readAt {body : T → BlockProg β} (free : blockId ∉ held)
    (inner :
      (body (BlockView.load (disk blockId) offset)).NoRelock
        (blockId :: held) disk) :
    (readAt blockId offset body).NoRelock held disk := by
  intro stopped
  rw [readAt, onDisk] at stopped
  rcases bind_eq_error.mp stopped with locked | ⟨_, _, stopped⟩
  · rcases mayLock_eq_error locked with ⟨_, locked⟩ | ⟨impossible, _⟩
    · exact free locked
    · cases impossible
  rcases bind_eq_error.mp stopped with inside | ⟨outcome, _, later⟩
  · split at inside
    · exact inner inside
    · cases inside
  · cases later

theorem noRelock_modifyAt {body : T → BlockProg (β × T)}
    (free : blockId ∉ held)
    (inner :
      (body (BlockView.load (disk blockId) offset)).NoRelock
        (blockId :: held) disk) :
    (modifyAt blockId offset body).NoRelock held disk := by
  intro stopped
  rw [modifyAt, onDisk] at stopped
  rcases bind_eq_error.mp stopped with locked | ⟨_, _, stopped⟩
  · rcases mayLock_eq_error locked with ⟨_, locked⟩ | ⟨impossible, _⟩
    · exact free locked
    · cases impossible
  rcases bind_eq_error.mp stopped with inside | ⟨outcome, _, later⟩
  · split at inside
    · exact inner.bind (fun _ _ _ => noRelock_pure _) inside
    · cases inside
  · cases later

end

/-- What it means that a program does not lock itself out of the cache. -/
structure StaysIn (program : BlockProg α) (state : CacheState) (limit : Nat) :
    Prop where
  pinned : ∀ point ∈ program.points state, point.pinnedCount ≤ limit
  goesOn :
    ∀ fault, program.run state = .error fault → fault.ofCache = false

/-- A program that nests little and never locks twice, on an unused cache. -/
theorem Nests.staysIn {program : BlockProg α} {state : CacheState}
    {depth : Nat} (nests : program.Nests depth)
    (room : depth ≤ blockCacheSize) (coherent : state.Coherent [] [])
    (noRelock : program.NoRelock [] state.view) :
    program.StaysIn state depth := by
  constructor
  · intro point member
    have few := nests.pinnedCount_le coherent nodup_nil point member
    rwa [length_nil, Nat.zero_add] at few
  · intro fault stopped
    have agrees := run_agrees program coherent nodup_nil
    rw [stopped, map_nil] at agrees
    have notFull :
        program.onDisk [] state.view ≠ .error .runOutOfBlockCache :=
      nests.onDisk_ne_runOut
        (by rw [length_nil, Nat.zero_add]; exact room)
    rw [NoRelock] at noRelock
    generalize program.onDisk [] state.view = onDisk at agrees notFull noRelock
    cases agrees with
    | stopped =>
      cases fault with
      | runOutOfBlockCache => exact absurd rfl notFull
      | lockedTwice => exact absurd rfl noRelock
      | errorLoadingEfs => rfl
      | assertFailed => rfl
      | unwrapFailed => rfl
      | indexOutOfRange => rfl

end BlockProg

end RCoreOS.EasyFs
