import RCoreOS.Kernel.MutexOwners

/-!
# The tables of the mutexes against the mutexes

The tables are meant to say which mutexes are free, who holds each of them and
who waits for one.  `sys_mutex_lock` enters the thread as the holder before it
locks, also when the thread then has to wait, and neither the hand-over in
`unlock` nor `Condvar::wait` touches the tables.

The tables are right in every run in which a mutex is locked only while it is
free, no mutex is given up in `Condvar::wait`, and no thread comes back from
there.
-/

namespace RCoreOS.Kernel

open Lib.FallibleRuns Mutex List Function

namespace Process

variable {self after : Process} {thread : Nat} {events : List Event}
  {event : Event}

/-! ## What the tables should say -/

/-- The steps in question: no thread exits, and mutexes are unlocked by holders. -/
def SharesMutexes (events : List Event) (move : Nat × Action) : Prop :=
  match move.2 with
  | .mutexUnlock mutexId => owner events mutexId = some move.1
  | .exit _ => False
  | _ => True

/--
Only free mutexes are locked, none is given up in `Condvar::wait`, and nobody
takes one again after that wait.
-/
def LocksFree (self : Process) (move : Nat × Action) : Prop :=
  match move.2 with
  | .mutexLock mutexId | .condvarWait _ mutexId =>
    ∀ mutex, self.mutexList[mutexId]? = some (some mutex) →
      mutex.locked = false
  | .resume =>
    ∀ task, self.threads[move.1]? = some task →
      ∀ condvarId mutexId, task.point ≠ .condvarWait condvarId mutexId
  | _ => True

/-! ## The invariant -/

/-- The switch points outside of `Mutex::lock`. -/
def Unlocking : SwitchPoint → Prop
  | .mutexLock _ | .condvarLock _ => False
  | _ => True

/-- The tables of a process whose threads never wait for a mutex. -/
structure Uncontended (process : Process) (events : List Event) : Prop where
  reached : Reached process
  lives : process.isZombie = false
  points :
    ∀ {thread : Nat} {task : TaskControlBlock},
      process.threads[thread]? = some task → Unlocking task.point
  empty :
    ∀ {mutexId : Nat} {mutex : Mutex Nat},
      process.mutexList[mutexId]? = some (some mutex) → mutex.waitQueue = []
  locked_iff :
    ∀ {mutexId : Nat} {mutex : Mutex Nat},
      process.mutexList[mutexId]? = some (some mutex) →
        (mutex.locked = true ↔ ∃ thread, owner events mutexId = some thread)
  available_eq :
    ∀ {mutexId : Nat} {mutex : Mutex Nat},
      process.mutexList[mutexId]? = some (some mutex) →
        process.mutexAvailable.getD mutexId 0 = if mutex.locked then 0 else 1
  absent :
    ∀ {mutexId : Nat},
      (∀ mutex, process.mutexList[mutexId]? ≠ some (some mutex)) →
        owner events mutexId = none
  holder :
    ∀ {mutexId thread : Nat}, owner events mutexId = some thread →
      ∃ tid, process.curTid thread = .ok tid
  held :
    ∀ {mutexId thread tid : Nat}, owner events mutexId = some thread →
      process.curTid thread = .ok tid →
        entry process.mutexAllocation tid mutexId = 1
  unheld :
    ∀ {mutexId tid : Nat},
      (∀ thread, owner events mutexId = some thread →
        process.curTid thread ≠ .ok tid) →
        entry process.mutexAllocation tid mutexId = 0
  need_eq : ∀ tid mutexId, entry process.mutexNeed tid mutexId = 0

variable {tid mutexId : Nat} {effect : Effect}

/-- No thread gets into `Mutex::lock` without returning from it. -/
theorem Uncontended.points_step {task : TaskControlBlock} {action : Action}
    (uncontended : Uncontended self events) (runs : self.Runs thread task tid)
    (acted : self.act thread task.point action = .ok (after, effect))
    (notExit : ∀ exitCode, action ≠ .exit exitCode)
    (notRelock :
      action = .resume →
        ∀ condvarId mutexId, task.point ≠ .condvarWait condvarId mutexId)
    (locks :
      ∀ mutexId, action = .mutexLock mutexId →
        ∃ value, effect.outcome = .returned value) {other : Nat}
    {last : TaskControlBlock} (found : after.threads[other]? = some last) :
    Unlocking last.point := by
  rcases (Moved.act runs acted).point_cases notExit found with
    atUser | ⟨rfl, notReturned, pointEq⟩ | ⟨first, firstFound, pointEq⟩
  · rw [atUser]
    trivial
  · have before := uncontended.points runs.found
    rw [pointEq]
    cases action with
    | mutexLock mutexId =>
      obtain ⟨value, returned⟩ := locks mutexId rfl
      exact absurd returned (notReturned value)
    | condvarWait condvarId mutexId => trivial
    | resume =>
      cases pointCase : task.point with
      | condvarWait condvarId mutexId =>
        exact absurd pointCase (notRelock rfl condvarId mutexId)
      | _ =>
        rw [pointCase] at before
        exact before
    | yield => trivial
    | sleep => trivial
    | fileTurn waits => trivial
    | semaphoreDown semId => trivial
    | _ => exact before
  · rw [pointEq]
    exact uncontended.points firstFound

/-- The part of the invariant that does not depend on the action. -/
structure StepKeeps (before after : Process) : Prop where
  reached : Reached after
  lives : after.isZombie = false
  points :
    ∀ {thread : Nat} {task : TaskControlBlock},
      after.threads[thread]? = some task → Unlocking task.point
  tids :
    ∀ {thread tid : Nat}, before.curTid thread = .ok tid →
      after.curTid thread = .ok tid

/-- The tid of a holder is the same after the step. -/
theorem Uncontended.curTid_eq (uncontended : Uncontended self events)
    (keeps : StepKeeps self after) {holding : Nat}
    (holds : owner events mutexId = some holding) :
    after.curTid holding = .ok tid ↔ self.curTid holding = .ok tid := by
  refine ⟨fun own => ?_, keeps.tids⟩
  obtain ⟨before, beforeEq⟩ := uncontended.holder holds
  rw [keeps.tids beforeEq] at own
  cases own
  exact beforeEq

/-- A step that leaves the mutexes, the entries and the holders alone. -/
theorem Uncontended.keep (uncontended : Uncontended self events)
    (keeps : StepKeeps self after) (list_eq : after.mutexList = self.mutexList)
    (available_eq : after.mutexAvailable = self.mutexAvailable)
    (allocation_eq :
      entry after.mutexAllocation = entry self.mutexAllocation)
    (need_eq : entry after.mutexNeed = entry self.mutexNeed)
    (owner_eq : owner (events ++ [event]) = owner events) :
    Uncontended after (events ++ [event]) where
  reached := keeps.reached
  lives := keeps.lives
  points := keeps.points
  empty found := uncontended.empty (list_eq ▸ found)
  locked_iff found := by
    rw [owner_eq]
    exact uncontended.locked_iff (list_eq ▸ found)
  available_eq found := by
    rw [available_eq]
    exact uncontended.available_eq (list_eq ▸ found)
  absent none := by
    rw [owner_eq]
    exact uncontended.absent (list_eq ▸ none)
  holder holds := by
    rw [owner_eq] at holds
    obtain ⟨tid, own⟩ := uncontended.holder holds
    exact ⟨tid, keeps.tids own⟩
  held holds own := by
    rw [owner_eq] at holds
    rw [allocation_eq]
    exact uncontended.held holds ((uncontended.curTid_eq keeps holds).mp own)
  unheld others := by
    rw [owner_eq] at others
    rw [allocation_eq]
    exact uncontended.unheld fun holding holds own =>
      others holding holds (keeps.tids own)
  need_eq tid mutexId := by
    rw [need_eq]
    exact uncontended.need_eq tid mutexId

/-- A new mutex is free and takes a slot that had none. -/
theorem sysMutexCreate_spec (self : Process) (blocking : Bool) :
    ∃ id,
      (∀ mutex, self.mutexList[id]? ≠ some (some mutex)) ∧
        (self.sysMutexCreate blocking).1.mutexList[id]? =
          some (some (.new blocking)) ∧
        (∀ other ≠ id,
          (self.sysMutexCreate blocking).1.mutexList[other]? =
            self.mutexList[other]?) ∧
        ∀ other,
          (self.sysMutexCreate blocking).1.mutexAvailable.getD other 0 =
            if other = id then 1 else self.mutexAvailable.getD other 0 := by
  obtain ⟨vacant, filled, others⟩ :=
    fillSlot_spec self.mutexList (Mutex.new blocking)
  refine ⟨_, vacant, filled, others, fun other => ?_⟩
  have room :
      (fillSlot self.mutexList (Mutex.new blocking)).2 <
        (padTo ((fillSlot self.mutexList (Mutex.new blocking)).2 + 1)
          self.mutexAvailable).length := by
    rw [length_padTo]
    omega
  have value := getD_set room 1 0 other
  rw [getD_padTo] at value
  exact value

theorem Uncontended.sysMutexCreate (uncontended : Uncontended self events)
    {blocking : Bool} (keeps : StepKeeps self (self.sysMutexCreate blocking).1)
    (owner_eq : owner (events ++ [event]) = owner events) :
    Uncontended (self.sysMutexCreate blocking).1 (events ++ [event]) := by
  obtain ⟨id, vacant, filled, others, available⟩ :=
    sysMutexCreate_spec self blocking
  have nobody := uncontended.absent vacant
  have find :
      ∀ {mutexId : Nat} {mutex : Mutex Nat},
        (self.sysMutexCreate blocking).1.mutexList[mutexId]? =
            some (some mutex) →
          (mutexId = id ∧ mutex = .new blocking) ∨
            (mutexId ≠ id ∧
              self.mutexList[mutexId]? = some (some mutex)) := by
    intro mutexId mutex found
    by_cases same : mutexId = id
    · subst same
      have equal := filled.symm.trans found
      cases equal
      exact .inl ⟨rfl, rfl⟩
    · exact .inr ⟨same, (others mutexId same).symm.trans found⟩
  refine ⟨keeps.reached, keeps.lives, keeps.points, ?_, ?_, ?_, ?_, ?_, ?_, ?_,
    uncontended.need_eq⟩
  · intro mutexId mutex found
    rcases find found with ⟨_, rfl⟩ | ⟨_, old⟩
    · exact waitQueue_new blocking
    · exact uncontended.empty old
  · intro mutexId mutex found
    rw [owner_eq]
    rcases find found with ⟨rfl, rfl⟩ | ⟨_, old⟩
    · rw [locked_new, nobody]
      simp
    · exact uncontended.locked_iff old
  · intro mutexId mutex found
    rw [available]
    rcases find found with ⟨rfl, rfl⟩ | ⟨different, old⟩
    · rw [if_pos rfl, locked_new]
      rfl
    · rw [if_neg different]
      exact uncontended.available_eq old
  · intro mutexId none
    rw [owner_eq]
    by_cases same : mutexId = id
    · subst same
      exact absurd filled (none _)
    · exact uncontended.absent fun mutex found =>
        none mutex ((others mutexId same).trans found)
  · intro mutexId holding holds
    rw [owner_eq] at holds
    exact uncontended.holder holds
  · intro mutexId holding tid holds own
    rw [owner_eq] at holds
    exact uncontended.held holds own
  · intro mutexId tid nobodyHolds
    rw [owner_eq] at nobodyHolds
    exact uncontended.unheld nobodyHolds

/-- What a step that changes one mutex, one holder and one entry comes to. -/
structure Changes (before after : Process) (events : List Event)
    (event : Event) (mutexId tid : Nat) (mutex : Mutex Nat)
    (holder : Option Nat) : Prop where
  inside : mutexId < before.mutexList.length
  list_eq : after.mutexList = before.mutexList.set mutexId (some mutex)
  empty : mutex.waitQueue = []
  locked_iff : mutex.locked = true ↔ ∃ thread, holder = some thread
  available_eq :
    ∀ other,
      after.mutexAvailable.getD other 0 =
        if other = mutexId then (if mutex.locked then 0 else 1)
        else before.mutexAvailable.getD other 0
  owner_eq :
    owner (events ++ [event]) = Function.update (owner events) mutexId holder
  allocation_eq :
    ∀ otherTid otherId,
      entry after.mutexAllocation otherTid otherId =
        if otherTid = tid ∧ otherId = mutexId then
          (if mutex.locked then 1 else 0)
        else entry before.mutexAllocation otherTid otherId
  holder_tid :
    ∀ {thread : Nat}, holder = some thread → after.curTid thread = .ok tid
  unheld :
    ∀ {otherTid : Nat}, otherTid ≠ tid →
      entry before.mutexAllocation otherTid mutexId = 0
  need_eq : ∀ otherTid otherId, entry after.mutexNeed otherTid otherId = 0

section

variable (uncontended : Uncontended self events)

include uncontended

theorem Uncontended.change {mutex : Mutex Nat} {holder : Option Nat}
    (keeps : StepKeeps self after)
    (changes : Changes self after events event mutexId tid mutex holder) :
    Uncontended after (events ++ [event]) := by
  have find :
      ∀ {other : Nat} {held : Mutex Nat},
        after.mutexList[other]? = some (some held) →
          (other = mutexId ∧ held = mutex) ∨
            (other ≠ mutexId ∧ self.mutexList[other]? = some (some held)) := by
    intro other held found
    rw [changes.list_eq] at found
    by_cases same : other = mutexId
    · subst same
      rw [getElem?_set_self changes.inside] at found
      cases found
      exact .inl ⟨rfl, rfl⟩
    · rw [getElem?_set_ne (Ne.symm same)] at found
      exact .inr ⟨same, found⟩
  have ownerHere : owner (events ++ [event]) mutexId = holder := by
    rw [changes.owner_eq, update_self]
  have ownerThere :
      ∀ {other : Nat}, other ≠ mutexId →
        owner (events ++ [event]) other = owner events other := by
    intro other different
    rw [changes.owner_eq, update_of_ne different]
  refine ⟨keeps.reached, keeps.lives, keeps.points, ?_, ?_, ?_, ?_, ?_, ?_, ?_,
    changes.need_eq⟩
  · intro other held found
    rcases find found with ⟨_, rfl⟩ | ⟨_, old⟩
    · exact changes.empty
    · exact uncontended.empty old
  · intro other held found
    rcases find found with ⟨rfl, rfl⟩ | ⟨different, old⟩
    · rw [ownerHere]
      exact changes.locked_iff
    · rw [ownerThere different]
      exact uncontended.locked_iff old
  · intro other held found
    rw [changes.available_eq]
    rcases find found with ⟨rfl, rfl⟩ | ⟨different, old⟩
    · rw [if_pos rfl]
    · rw [if_neg different]
      exact uncontended.available_eq old
  · intro other none
    by_cases same : other = mutexId
    · subst same
      refine absurd ?_ (none mutex)
      rw [changes.list_eq, getElem?_set_self changes.inside]
    · rw [ownerThere same]
      refine uncontended.absent fun held found => none held ?_
      rw [changes.list_eq, getElem?_set_ne (Ne.symm same)]
      exact found
  · intro other holding holds
    by_cases same : other = mutexId
    · subst same
      rw [ownerHere] at holds
      exact ⟨tid, changes.holder_tid holds⟩
    · rw [ownerThere same] at holds
      obtain ⟨holdingTid, own⟩ := uncontended.holder holds
      exact ⟨holdingTid, keeps.tids own⟩
  · intro other holding holdingTid holds own
    rw [changes.allocation_eq]
    by_cases same : other = mutexId
    · subst same
      rw [ownerHere] at holds
      rw [changes.holder_tid holds] at own
      cases own
      rw [if_pos ⟨rfl, rfl⟩, if_pos (changes.locked_iff.mpr ⟨_, holds⟩)]
    · rw [if_neg fun both => same both.2]
      rw [ownerThere same] at holds
      exact uncontended.held holds
        ((uncontended.curTid_eq keeps holds).mp own)
  · intro other otherTid nobody
    rw [changes.allocation_eq]
    by_cases same : other = mutexId
    · subst same
      rw [ownerHere] at nobody
      by_cases sameTid : otherTid = tid
      · subst sameTid
        have unlocked : ¬ mutex.locked = true := fun locked => by
          obtain ⟨holding, holds⟩ := changes.locked_iff.mp locked
          exact nobody holding holds (changes.holder_tid holds)
        rw [if_pos ⟨rfl, rfl⟩, if_neg unlocked]
      · rw [if_neg fun both => sameTid both.1]
        exact changes.unheld sameTid
    · rw [if_neg fun both => same both.2]
      rw [ownerThere same] at nobody
      exact uncontended.unheld fun holding holds own =>
        nobody holding holds (keeps.tids own)

/-- Nobody holds a mutex that is free. -/
theorem Uncontended.free_unheld
    (free :
      ∀ mutex, self.mutexList[mutexId]? = some (some mutex) →
        mutex.locked = false) :
    owner events mutexId = none := by
  by_cases vacant :
      ∀ mutex, self.mutexList[mutexId]? ≠ some (some mutex)
  · exact uncontended.absent vacant
  · obtain ⟨mutex, found⟩ := not_forall_not.mp vacant
    cases holds : owner events mutexId with
    | none => rfl
    | some holding =>
      have locked := (uncontended.locked_iff found).mpr ⟨holding, holds⟩
      rw [free mutex found] at locked
      cases locked

/-- A free mutex is locked at once, and the tables say so. -/
theorem Uncontended.sysMutexLock
    (point : SwitchPoint) (own : self.curTid thread = .ok tid)
    (free :
      ∀ mutex, self.mutexList[mutexId]? = some (some mutex) →
        mutex.locked = false)
    (returned : self.sysMutexLock thread mutexId = .ok (after, effect)) :
    effect = ⟨.returned 0, none⟩ ∧
      (StepKeeps self after →
        ∃ mutex,
          Changes self after events
            ⟨thread, tid, point, .mutexLock mutexId, effect⟩ mutexId tid mutex
            (some thread)) := by
  obtain ⟨mutex, mutexEq, _⟩ := bind_eq_ok.mp returned
  have found := object_eq_ok.mp mutexEq
  have unlocked := free mutex found
  have one : self.mutexAvailable.getD mutexId 0 = 1 := by
    rw [uncontended.available_eq found, unlocked]
    rfl
  have nobody := uncontended.free_unheld free
  obtain ⟨callerTid, need, allocation, callerEq, requested, cases⟩ :=
    sysMutexLock_eq_ok returned
  rw [own] at callerEq
  cases callerEq
  have inside := (uncontended.reached.numbered uncontended.lives).tid_lt own
  obtain ⟨needEntries, allocationEntries, _, _⟩ :=
    requestMutex_spec inside requested
  rcases cases with ⟨detected, _, _⟩ |
    ⟨_, available, granted, settled, availableEq, grantedEq, settledEq, locks⟩
  · -- the request itself fits, so the detector does not refuse it
    rw [detectMutex] at detected
    split at detected
    · have exceeds := ((mutexDetect_eq_true_iff detected).mp rfl).2 tid inside
      rw [show entry need = _ from needEntries, changeEntry,
        if_pos ⟨rfl, rfl⟩, uncontended.need_eq, one] at exceeds
      exact absurd (show (0 : Usize) + 1 ≤ 1 by decide) exceeds
    · cases detected
  · obtain ⟨same, locked, progress, sameFound, lockEq, outcomes⟩ :=
      lockMutex_eq_ok locks
    rw [show self.mutexList[mutexId]? = _ from found] at sameFound
    cases sameFound
    rcases lock_cases lockEq with
      ⟨rfl, _, lockedTrue, queueEq⟩ | ⟨_, held, _⟩ | ⟨_, held, _⟩
    · rcases outcomes with ⟨_, rfl, rfl⟩ | ⟨impossible, _⟩ | ⟨impossible, _⟩
      · refine ⟨rfl, fun keeps => ⟨locked, ?_⟩⟩
        refine
          { inside := (List.getElem?_eq_some_iff.mp found).1
            list_eq := rfl
            empty := queueEq.trans (uncontended.empty found)
            locked_iff := ⟨fun _ => ⟨thread, rfl⟩, fun _ => lockedTrue⟩
            available_eq := ?_
            owner_eq := ?_
            allocation_eq := ?_
            holder_tid := ?_
            unheld := ?_
            need_eq := ?_ }
        · intro other
          rw [lockedTrue]
          refine ((modifyAt_spec 0 availableEq).2.2 other).trans ?_
          split
          · rw [one]
            rfl
          · rfl
        · funext other
          rw [owner_concat, ownerAfter, update_apply]
          by_cases same : other = mutexId
          · subst same
            simp [unlockedBy, lockedBy]
          · simp [unlockedBy, lockedBy, same, Ne.symm same]
        · intro otherTid otherId
          rw [lockedTrue]
          change entry granted otherTid otherId = _
          rw [(modifyEntry_spec grantedEq).1,
            show entry allocation = _ from allocationEntries, changeEntry]
          split
          · next both =>
              rw [both.1, both.2, uncontended.unheld]
              · rfl
              · intro holding holds
                rw [nobody] at holds
                cases holds
          · rfl
        · intro holding same
          cases same
          exact keeps.tids own
        · intro otherTid _
          refine uncontended.unheld fun holding holds => ?_
          rw [nobody] at holds
          cases holds
        · intro otherTid otherId
          change entry settled otherTid otherId = 0
          rw [(modifyEntry_spec settledEq).1,
            show entry need = _ from needEntries, changeEntry, changeEntry,
            uncontended.need_eq]
          split
          · rfl
          · rfl
      · cases impossible
      · cases impossible
    · rw [unlocked] at held
      cases held
    · rw [unlocked] at held
      cases held

/-- The holder frees the mutex, and the tables say so. -/
theorem Uncontended.sysMutexUnlock {point : SwitchPoint}
    (own : self.curTid thread = .ok tid)
    (holds : owner events mutexId = some thread)
    (returned : self.sysMutexUnlock thread mutexId = .ok (after, effect)) :
    ∃ mutex,
      Changes self after events
        ⟨thread, tid, point, .mutexUnlock mutexId, effect⟩ mutexId tid mutex
        none := by
  obtain ⟨callerTid, mutex, unlocked, woken, available, allocation, callerEq,
    found, unlockEq, availableEq, allocationEq, rfl, rfl⟩ :=
    sysMutexUnlock_eq_ok returned
  rw [own] at callerEq
  cases callerEq
  have locked := (uncontended.locked_iff found).mpr ⟨thread, holds⟩
  have zero : self.mutexAvailable.getD mutexId 0 = 0 := by
    rw [uncontended.available_eq found, locked]
    rfl
  rcases unlock_cases unlockEq with
    ⟨waiting, _, queueEq, _⟩ | ⟨rfl, _, queueEq, unlockedFalse⟩
  · rw [uncontended.empty found] at queueEq
    cases queueEq
  · refine ⟨unlocked, ?_⟩
    refine
      { inside := (List.getElem?_eq_some_iff.mp found).1
        list_eq := rfl
        empty := queueEq
        locked_iff := by simp [unlockedFalse]
        available_eq := ?_
        owner_eq := ?_
        allocation_eq := ?_
        holder_tid := nofun
        unheld := ?_
        need_eq := uncontended.need_eq }
    · intro other
      rw [unlockedFalse]
      refine ((modifyAt_spec 0 availableEq).2.2 other).trans ?_
      split
      · rw [zero]
        rfl
      · rfl
    · funext other
      rw [owner_concat, ownerAfter, update_apply]
      by_cases same : other = mutexId
      · subst same
        simp [unlockedBy]
      · simp [unlockedBy, lockedBy, same, Ne.symm same]
    · intro otherTid otherId
      rw [unlockedFalse]
      change entry allocation otherTid otherId = _
      rw [(modifyEntry_spec allocationEq).1, changeEntry]
      split
      · next both =>
          rw [both.1, both.2, uncontended.held holds own]
          rfl
      · rfl
    · intro otherTid different
      refine uncontended.unheld fun holding otherHolds otherOwn => ?_
      rw [holds] at otherHolds
      cases otherHolds
      rw [own] at otherOwn
      cases otherOwn
      exact different rfl

end

/-- `Condvar::wait` on a mutex that is free changes no mutex. -/
theorem sysCondvarWait_of_free {condvarId : Nat}
    (free :
      ∀ mutex, self.mutexList[mutexId]? = some (some mutex) →
        mutex.locked = false)
    (returned :
      self.sysCondvarWait thread condvarId mutexId = .ok (after, effect)) :
    after.mutexList = self.mutexList ∧ effect.readied = none := by
  obtain ⟨condvar, mutex, waiting, released, woken, _, found, waits, rfl, rfl⟩ :=
    sysCondvarWait_eq_ok returned
  obtain ⟨unlockEq, _, _⟩ := Condvar.wait_eq_ok.mp waits
  have isFree := free mutex found
  cases mutex with
  | spin inner =>
    cases unlockEq
    have same : inner.unlock = inner := (congrArg MutexSpin.mk isFree).symm
    obtain ⟨inside, slot⟩ := List.getElem?_eq_some_iff.mp found
    refine ⟨?_, rfl⟩
    change self.mutexList.set mutexId (some (.spin inner.unlock)) = _
    rw [same, ← slot]
    exact set_getElem_self inside
  | blocking inner =>
    -- the assertion in `MutexBlocking::unlock` fails
    obtain ⟨_, unlocks, _⟩ := bind_eq_ok.mp unlockEq
    rw [MutexBlocking.unlock, show inner.locked = false from isFree] at unlocks
    cases unlocks

/-- A thread that is not inside `Mutex::lock` changes no mutex when it goes on. -/
theorem resume_unlocking {point : SwitchPoint} (unlocking : Unlocking point)
    (notRelock :
      ∀ condvarId mutexId, point ≠ .condvarWait condvarId mutexId)
    (returned : self.resume thread point = .ok (after, effect)) :
    after.mutexList = self.mutexList ∧ lockedBy .resume point = none := by
  rcases resume_eq_ok returned with
    ⟨_, rfl | rfl, _⟩ | ⟨condvarId, mutexId, rfl, _⟩ |
      ⟨rfl | ⟨_, rfl⟩, finishes⟩
  · cases unlocking
  · cases unlocking
  · exact absurd rfl (notRelock condvarId mutexId)
  · cases finishes
    exact ⟨rfl, rfl⟩
  · cases finishes
    exact ⟨rfl, rfl⟩

/-- Every step that locks only what is free keeps the tables right. -/
theorem Uncontended.step {move : Nat × Action}
    (uncontended : Uncontended self events)
    (shares : SharesMutexes events move) (free : self.LocksFree move)
    (returned : self.step move = .ok (after, event)) :
    Uncontended after (events ++ [event]) := by
  obtain ⟨thread, action⟩ := move
  obtain ⟨task, tid, effect, runs, acted, rfl⟩ := step_eq_ok returned
  have own := runs.curTid
  have notExit : ∀ exitCode, action ≠ .exit exitCode := by
    rintro exitCode rfl
    exact shares
  have notRelock :
      action = .resume →
        ∀ condvarId mutexId, task.point ≠ .condvarWait condvarId mutexId := by
    rintro rfl
    exact free task runs.found
  have locks :
      ∀ mutexId, action = .mutexLock mutexId →
        ∃ value, effect.outcome = .returned value := by
    rintro mutexId rfl
    obtain ⟨_, calls⟩ := syscall_of_act acted nofun nofun
    obtain ⟨rfl, _⟩ := uncontended.sysMutexLock task.point own free calls
    exact ⟨0, rfl⟩
  have kept := KeepsTids.act notExit own acted
  have keeps : StepKeeps self after :=
    ⟨uncontended.reached.step returned, kept.zombie_eq.trans uncontended.lives,
      uncontended.points_step runs acted notExit notRelock locks, kept.curTid⟩
  have frame := Frame.act own acted
  have noOwner :
      unlockedBy action = none → lockedBy action task.point = none →
        owner (events ++ [⟨thread, tid, task.point, action, effect⟩]) =
          owner events := by
    intro notUnlocked notLocked
    funext mutexId
    rw [owner_concat, ownerAfter]
    simp [notUnlocked, notLocked]
  rcases act_eq_ok acted with
    ⟨rfl, resumes⟩ | ⟨waits, rfl, _, _⟩ | ⟨_, calls⟩
  · obtain ⟨listEq, notLocked⟩ :=
      resume_unlocking (uncontended.points runs.found) (notRelock rfl) resumes
    have tables := frame.mutexTables id
    exact uncontended.keep keeps listEq tables.available_eq
      (by rw [tables.allocation_eq]) (by rw [tables.need_eq])
      (noOwner rfl notLocked)
  · have tables := frame.mutexTables id
    exact uncontended.keep keeps (frame.mutexes id) tables.available_eq
      (by rw [tables.allocation_eq]) (by rw [tables.need_eq])
      (noOwner rfl rfl)
  · cases action with
    | threadCreate =>
      obtain ⟨_, _, _, _, rfl⟩ := sysThreadCreate_eq_ok calls
      exact uncontended.keep keeps rfl rfl (entry_append_empty _ _)
        (entry_append_empty _ _) (noOwner rfl rfl)
    | mutexCreate blocking =>
      cases calls
      exact uncontended.sysMutexCreate keeps (noOwner rfl rfl)
    | mutexLock mutexId =>
      obtain ⟨_, changes⟩ := uncontended.sysMutexLock task.point own free calls
      obtain ⟨mutex, changes⟩ := changes keeps
      exact uncontended.change keeps changes
    | mutexUnlock mutexId =>
      obtain ⟨mutex, changes⟩ := uncontended.sysMutexUnlock own shares calls
      exact uncontended.change keeps changes
    | condvarWait condvarId mutexId =>
      obtain ⟨listEq, wakesNone⟩ := sysCondvarWait_of_free free calls
      have tables := frame.mutexTables id
      refine uncontended.keep keeps listEq tables.available_eq
        (by rw [tables.allocation_eq]) (by rw [tables.need_eq]) ?_
      funext other
      rw [owner_concat, ownerAfter]
      split
      · next unlocks =>
          cases unlocks
          rw [uncontended.free_unheld free]
          exact wakesNone
      · simp [lockedBy]
    | exit exitCode => exact absurd rfl (notExit exitCode)
    | resume => cases calls
    | _ =>
      have tables := frame.mutexTables id
      exact uncontended.keep keeps (frame.mutexes id) tables.available_eq
        (by rw [tables.allocation_eq]) (by rw [tables.need_eq])
        (noOwner rfl rfl)

/-! ## Runs -/

/-- A process whose only thread has locked its mutex. -/
def holding : Process :=
  { new with
    threads := [{ TaskControlBlock.new 0 with taskStatus := .running }]
    mutexList := [some (.blocking ⟨true, []⟩)]
    mutexAvailable := [0]
    mutexAllocation := [[1]]
    mutexNeed := [[0]] }

end Process

end RCoreOS.Kernel
