import RCoreOS.Kernel.ProcessFrames

/-!
# What the calls of a process do

Every step is one of three: a call that returns and wakes at most one thread,
a thread that is switched out or goes on in user space, or a call that
numbers threads.  In the first two the call has changed the tables and the
objects of the process before; what such changes can be is said once for each
call, and the facts about all steps follow.

A thread that blocks in `Mutex::lock`, `Semaphore::down` or `Condvar::wait`
joins one queue, and the call that wakes it takes it out again.
-/

namespace RCoreOS.Kernel

open Lib.FallibleRuns List Mutex Option

/-! ## Lists of queues -/

section Queues

variable {α : Type} {queue : α → List Nat}

/-- The threads that wait in the objects of a list. -/
def queued (queue : α → List Nat) (slots : List (Option α)) : List Nat :=
  slots.flatMap fun slot => slot.elim [] queue

/-- A slot that takes another object changes what its own queue held. -/
theorem count_queued_set (queue : α → List Nat) {slots : List (Option α)}
    {id : Nat} {slot : Option α} (found : slots[id]? = some slot) (item : α)
    (thread : Nat) :
    (queued queue (slots.set id (some item))).count thread +
        (slot.elim [] queue).count thread =
      (queued queue slots).count thread + (queue item).count thread := by
  induction slots generalizing id with
  | nil => cases found
  | cons first rest induction =>
    cases id with
    | zero =>
      cases found
      simp only [queued, set_cons_zero, flatMap_cons, count_append, elim_some]
      omega
    | succ id =>
      have step := induction (show rest[id]? = some slot from found)
      simp only [queued, set_cons_succ, flatMap_cons, count_append] at step ⊢
      omega

/-- A new object, in which nobody waits, adds nothing. -/
theorem count_queued_fillSlot (slots : List (Option α)) {item : α}
    (empty : queue item = []) (thread : Nat) :
    (queued queue (fillSlot slots item).1).count thread =
      (queued queue slots).count thread := by
  rw [fillSlot]
  split
  · next id found =>
      obtain ⟨inside, vacant, _⟩ := findIdx?_eq_some_iff_getElem.mp found
      have slot : slots[id]? = some none := by
        rw [getElem?_eq_getElem inside, isNone_iff_eq_none.mp vacant]
      have changed :
          (queued queue (slots.set id (some item))).count thread + 0 =
            (queued queue slots).count thread + (queue item).count thread :=
        count_queued_set queue slot item thread
      rw [empty] at changed
      exact changed
  · simp [queued, empty]

theorem count_concat (queue : List Nat) (thread other : Nat) :
    (queue ++ [thread]).count other =
      queue.count other + if other = thread then 1 else 0 := by
  rw [count_append, count_singleton]
  simp only [beq_iff_eq, eq_comm (a := thread)]

end Queues

/-- What `up` does to the queue, whatever the count is. -/
theorem Semaphore.up_queue (self : Semaphore Nat) (thread : Nat) :
    self.up.1.waitQueue.count thread + self.up.2.toList.count thread =
      self.waitQueue.count thread := by
  rw [Semaphore.up]
  split
  · split
    · next task rest queue =>
        rw [queue, count_cons, toList_some, count_singleton]
    · next queue =>
        rw [queue]
        rfl
  · rfl

/-- What `down` does to the queue, whatever the count is. -/
theorem Semaphore.down_queue {self after : Semaphore Nat} {current : Nat}
    {progress : Progress}
    (returned : self.down current = .ok (after, progress)) :
    (progress = .returned ∧ after.waitQueue = self.waitQueue) ∨
      (progress = .blocked ∧
        after.waitQueue = self.waitQueue ++ [current]) := by
  simp only [Semaphore.down] at returned
  split at returned
  · obtain ⟨waitQueue, pushed, rest⟩ := bind_eq_ok.mp returned
    cases rest
    exact .inr ⟨rfl, (pushBack_eq_ok.mp pushed).2⟩
  · cases returned
    exact .inl ⟨rfl, rfl⟩

theorem Mutex.unlock_queue {self after : Mutex Nat} {woken : Option Nat}
    (returned : self.unlock = .ok (after, woken)) (thread : Nat) :
    after.waitQueue.count thread + woken.toList.count thread =
      self.waitQueue.count thread := by
  rcases unlock_cases returned with
    ⟨task, rfl, queue, _⟩ | ⟨rfl, queue, afterQueue, _⟩
  · rw [queue, count_cons, toList_some, count_singleton]
  · rw [queue, afterQueue]
    rfl

theorem Condvar.signal_queue (self : Condvar Nat) (thread : Nat) :
    self.signal.1.waitQueue.count thread + self.signal.2.toList.count thread =
      self.waitQueue.count thread := by
  rcases self.signal_cases with ⟨task, woken, queue⟩ | ⟨woken, _, same⟩
  · rw [queue, woken, count_cons, toList_some, count_singleton]
  · rw [woken, same]
    rfl

/-- The thread that an action takes out of a wait queue. -/
def takenOut : Action → Effect → Option Nat
  | .threadCreate, _ => none
  | _, effect => effect.readied

/-- Where an action that starts at a switch point is switched out. -/
def outPoint : Action → SwitchPoint → SwitchPoint
  | .mutexLock mutexId, _ => .mutexLock mutexId
  | .semaphoreDown semId, _ => .semaphoreDown semId
  | .condvarWait condvarId mutexId, _ => .condvarWait condvarId mutexId
  | .yield, _ => .user
  | .sleep, _ => .sleep
  | .fileTurn _, _ => .fileTurn
  | .resume, .condvarWait _ mutexId => .condvarLock mutexId
  | _, point => point

/-- The actions in which a thread can block. -/
def CanBlock : Action → SwitchPoint → Prop
  | .mutexLock _, _ | .semaphoreDown _, _ | .condvarWait _ _, _ | .sleep, _
  | .resume, .condvarWait _ _ => True
  | _, _ => False

namespace Process

variable {self after base : Process} {effect : Effect} {thread tid : Nat}
  {action : Action} {point : SwitchPoint}

/-- The threads in the wait queues of all objects. -/
def waiting (self : Process) : List Nat :=
  queued Mutex.waitQueue self.mutexList ++
    (queued Semaphore.waitQueue self.semaphoreList ++
      queued Condvar.waitQueue self.condvarList)

/-- A step takes at most one thread out of the queues and adds at most its own. -/
def QueuesMove (before after : Process) (thread : Nat) (action : Action)
    (effect : Effect) : Prop :=
  ∀ other,
    (takenOut action effect).toList.count other ≤
        before.waiting.count other ∧
      after.waiting.count other + (takenOut action effect).toList.count other =
        before.waiting.count other +
          if other = thread ∧ effect.outcome = .blocked ∧ action ≠ .sleep then 1
          else 0

/-- A step that changes no queue and blocks no thread, or puts it to sleep. -/
theorem QueuesMove.of_count
    (same : ∀ other, after.waiting.count other = self.waiting.count other)
    (nobody : takenOut action effect = none)
    (stays : effect.outcome = .blocked → action = .sleep) :
    QueuesMove self after thread action effect := by
  intro other
  have notJoined :
      ¬ (other = thread ∧ effect.outcome = .blocked ∧ action ≠ .sleep) :=
    fun joined => joined.2.2 (stays joined.2.1)
  rw [nobody, if_neg notJoined, same]
  exact ⟨Nat.zero_le _, rfl⟩

/-! ## The three kinds of steps -/

/-- What a call changes before it wakes or switches threads. -/
structure Edits (tid : Nat) (action : Action) (before after : Process) :
    Prop where
  threads_eq : after.threads = before.threads
  shape : SameShape before after
  frame : Frame action before after
  rows : OwnRow tid before after

theorem Edits.trans {before : Process} (first : Edits tid action before base)
    (second : Edits tid action base after) : Edits tid action before after :=
  ⟨second.threads_eq.trans first.threads_eq, first.shape.trans second.shape,
    first.frame.trans second.frame, first.rows.trans second.rows⟩

/-- Only objects change. -/
theorem Edits.lists {mutexList : List (Option (Mutex Nat))}
    {semaphoreList : List (Option (Semaphore Nat))}
    {condvarList : List (Option (Condvar Nat))}
    (frame :
      Frame action self
        { self with mutexList, semaphoreList, condvarList }) :
    Edits tid action self
      { self with mutexList, semaphoreList, condvarList } :=
  ⟨rfl, ⟨rfl, rfl, rfl, fun _ => rfl, rfl, rfl, rfl, rfl⟩, frame,
    .of_entries rfl rfl rfl rfl⟩

theorem Edits.refl (self : Process) : Edits tid action self self :=
  .lists (.of_eq ⟨rfl, rfl, rfl⟩ rfl ⟨rfl, rfl, rfl, rfl⟩ rfl)

/-- How a thread that is switched out or goes on in user space is left. -/
inductive Leaves (action : Action) (point : SwitchPoint) :
    SwitchPoint → TaskStatus → Outcome → Prop where
  | returns : Leaves action point .user .running (.returned 0)
  | suspends : Leaves action point (outPoint action point) .ready .suspended
  | blocks (canBlock : CanBlock action point) :
      Leaves action point (outPoint action point) .blocked .blocked

/-- The kinds of steps. -/
inductive Acted (self : Process) (thread tid : Nat) (action : Action)
    (point : SwitchPoint) : Process → Effect → Prop where
  | wakes {base : Process} {value : Int} {woken : Option Nat}
      (keeps : ¬ Renumbers action) (atUser : point = .user)
      (edits : Edits tid action self base)
      (queues :
        QueuesMove self base thread action ⟨.returned value, woken⟩) :
      Acted self thread tid action point (base.wakeupTask woken)
        ⟨.returned value, woken⟩
  | switches {base : Process} {newPoint : SwitchPoint}
      {taskStatus : TaskStatus} {outcome : Outcome} {woken : Option Nat}
      (keeps : ¬ Renumbers action) (edits : Edits tid action self base)
      (queues : QueuesMove self base thread action ⟨outcome, woken⟩)
      (leaves : Leaves action point newPoint taskStatus outcome) :
      Acted self thread tid action point
        ((base.wakeupTask woken).switchTo thread newPoint taskStatus)
        ⟨outcome, woken⟩
  | numbers {after : Process} {effect : Effect}
      (renumbers : Renumbers action) (atUser : point = .user)
      (calls : self.syscall thread action = .ok (after, effect)) :
      Acted self thread tid action point after effect

namespace Acted

/-- The call returns and wakes nobody. -/
theorem returns {value : Int} (keeps : ¬ Renumbers action)
    (atUser : point = .user) (edits : Edits tid action self base)
    (queues : QueuesMove self base thread action ⟨.returned value, none⟩) :
    Acted self thread tid action point base ⟨.returned value, none⟩ :=
  show Acted self thread tid action point (base.wakeupTask none) _ from
    .wakes keeps atUser edits queues

/-- The thread is switched out or goes on, and nobody is woken. -/
theorem goes {newPoint : SwitchPoint} {taskStatus : TaskStatus}
    {outcome : Outcome} (keeps : ¬ Renumbers action)
    (edits : Edits tid action self base)
    (queues : QueuesMove self base thread action ⟨outcome, none⟩)
    (leaves : Leaves action point newPoint taskStatus outcome) :
    Acted self thread tid action point
      (base.switchTo thread newPoint taskStatus) ⟨outcome, none⟩ :=
  show Acted self thread tid action point
      ((base.wakeupTask none).switchTo thread newPoint taskStatus) _ from
    .switches keeps edits queues leaves

/-! ## Mutexes -/

variable {mutexId semId : Nat}

/-- `lock` puts the thread into the queue of the mutex exactly if it blocks. -/
theorem lock_queues {mutex locked : Mutex Nat} {progress : Progress}
    {outcome : Outcome} (same : base.waiting = self.waiting)
    (noSleep : action ≠ .sleep)
    (found : base.mutexList[mutexId]? = some (some mutex))
    (locks : mutex.lock thread = .ok (locked, progress))
    (outcomeEq : outcome = .blocked ↔ progress = .blocked)
    (nobody : takenOut action ⟨outcome, none⟩ = none) :
    QueuesMove self
      { base with mutexList := base.mutexList.set mutexId locked } thread
      action ⟨outcome, none⟩ := by
  intro other
  have counts := count_queued_set Mutex.waitQueue found locked other
  rw [elim_some] at counts
  rw [nobody, toList_none, count_nil, ← same]
  simp only [waiting, count_append, outcomeEq, ne_eq, noSleep,
    not_false_eq_true, and_true]
  rcases lock_cases locks with
    ⟨rfl, _, _, queue⟩ | ⟨rfl, _, rfl⟩ | ⟨rfl, _, _, queue⟩
  · rw [queue] at counts
    simp only [reduceCtorEq, and_false, if_false]
    omega
  · simp only [reduceCtorEq, and_false, if_false]
    omega
  · rw [queue, count_concat] at counts
    simp only [and_true]
    omega

theorem lockMutex {newPoint : SwitchPoint} (keeps : ¬ Renumbers action)
    (noSleep : action ≠ .sleep) (touches : TouchesMutexes action)
    (edits : Edits tid action self base) (same : base.waiting = self.waiting)
    (pointEq : newPoint = outPoint action point)
    (blocks : effect.outcome = .blocked → CanBlock action point)
    (returned :
      base.lockMutex thread mutexId newPoint = .ok (after, effect)) :
    Acted self thread tid action point after effect := by
  obtain ⟨mutex, locked, progress, found, locks, cases⟩ :=
    lockMutex_eq_ok returned
  subst pointEq
  have locked :
      Edits tid action self
        { base with mutexList := base.mutexList.set mutexId locked } :=
    edits.trans (.lists ⟨fun _ => ⟨rfl, rfl, rfl⟩, absurd touches,
      fun _ => ⟨rfl, rfl, rfl, rfl⟩, fun _ => rfl⟩)
  have nobody :
      ∀ {outcome : Outcome}, takenOut action ⟨outcome, none⟩ = none := by
    intro outcome
    rw [takenOut.eq_def]
    split
    · rfl
    · rfl
  rcases cases with ⟨rfl, rfl, rfl⟩ | ⟨rfl, rfl, rfl⟩ | ⟨rfl, rfl, rfl⟩
  · exact .goes keeps locked
      (lock_queues same noSleep found locks ⟨nofun, nofun⟩ nobody) .returns
  · exact .goes keeps locked
      (lock_queues same noSleep found locks ⟨nofun, nofun⟩ nobody) .suspends
  · exact .goes keeps locked
      (lock_queues same noSleep found locks ⟨fun _ => rfl, fun _ => rfl⟩
        nobody) (.blocks (blocks rfl))

theorem finishCall (keeps : ¬ Renumbers action)
    (nobody : takenOut action (self.finishCall thread).2 = none) :
    Acted self thread tid action point (self.finishCall thread).1
      (self.finishCall thread).2 :=
  .goes keeps (.refl self) (.of_count (fun _ => rfl) nobody nofun) .returns

theorem resume (returned : self.resume thread point = .ok (after, effect)) :
    Acted self thread tid .resume point after effect := by
  rcases resume_eq_ok returned with
    ⟨mutexId, lockPoint, resumes⟩ | ⟨_, _, rfl, locks⟩ | ⟨_, finishes⟩
  · rcases resumeLock_eq_ok resumes with locks | ⟨finishes, _⟩
    · refine lockMutex id nofun trivial (.refl self) rfl ?_
        (absurd · (resumeLock_not_blocked resumes)) locks
      rcases lockPoint with rfl | rfl
      · rfl
      · rfl
    · cases finishes
      exact finishCall id rfl
  · exact lockMutex id nofun trivial (.refl self) rfl rfl (fun _ => trivial)
      locks
  · cases finishes
    exact finishCall id rfl

theorem sysMutexLock (own : self.curTid thread = .ok tid)
    (atUser : point = .user)
    (returned : self.sysMutexLock thread mutexId = .ok (after, effect)) :
    Acted self thread tid (.mutexLock mutexId) point after effect := by
  obtain ⟨ownTid, need, allocation, tidEq, requested, cases⟩ :=
    sysMutexLock_eq_ok returned
  rw [own] at tidEq
  cases tidEq
  obtain ⟨needEntries, allocationEntries, needLength, allocationLength⟩ :=
    foldlM_requestVisit_spec nodup_range requested
  have others :
      ∀ other ≠ tid, ∀ id,
        entry need other id = entry self.mutexNeed other id := by
    intro other different id
    rw [needEntries]
    split
    · exact changeEntry_of_ne different id
    · rfl
  rcases cases with ⟨_, rfl, rfl⟩ |
    ⟨_, available, granted, settled, _, grantedEq, settledEq, locks⟩
  · refine .returns id atUser ⟨rfl, ⟨rfl, rfl, rfl, fun _ => rfl, needLength,
      allocationLength, rfl, rfl⟩, ?_, others, fun other _ id => ?_,
      fun _ _ _ => rfl, fun _ _ _ => rfl⟩ (.of_count (fun _ => rfl) rfl nofun)
    · exact ⟨absurd trivial, absurd trivial, fun _ => ⟨rfl, rfl, rfl, rfl⟩,
        fun _ => rfl⟩
    · rw [allocationEntries]
  · have tables :
        Edits tid (.mutexLock mutexId) self
          { self with
            mutexAvailable := available
            mutexAllocation := granted
            mutexNeed := settled } := by
      refine ⟨rfl, ⟨rfl, rfl, rfl, fun _ => rfl,
        (modifyEntry_spec settledEq).2.trans needLength,
        (modifyEntry_spec grantedEq).2.trans allocationLength, rfl, rfl⟩,
        ⟨absurd trivial, absurd trivial, fun _ => ⟨rfl, rfl, rfl, rfl⟩,
          fun _ => rfl⟩, ?_, ?_, fun _ _ _ => rfl, fun _ _ _ => rfl⟩
      · intro other different id
        rw [(modifyEntry_spec settledEq).1, changeEntry_of_ne different]
        exact others other different id
      · intro other different id
        rw [(modifyEntry_spec grantedEq).1, changeEntry_of_ne different,
          allocationEntries]
    exact lockMutex id nofun trivial tables rfl rfl (fun _ => trivial) locks

theorem sysMutexUnlock (own : self.curTid thread = .ok tid)
    (atUser : point = .user)
    (returned : self.sysMutexUnlock thread mutexId = .ok (after, effect)) :
    Acted self thread tid (.mutexUnlock mutexId) point after effect := by
  obtain ⟨ownTid, mutex, unlocked, woken, available, allocation, tidEq, found,
    unlocks, _, allocationEq, rfl, rfl⟩ := sysMutexUnlock_eq_ok returned
  rw [own] at tidEq
  cases tidEq
  refine .wakes id atUser ⟨rfl, ⟨rfl, rfl, rfl, fun _ => rfl, rfl,
    (modifyEntry_spec allocationEq).2, rfl, rfl⟩,
    ⟨absurd trivial, absurd trivial, fun _ => ⟨rfl, rfl, rfl, rfl⟩,
      fun _ => rfl⟩, fun _ _ _ => rfl, ?_, fun _ _ _ => rfl,
      fun _ _ _ => rfl⟩ fun other => ?_
  · intro other different id
    rw [(modifyEntry_spec allocationEq).1, changeEntry_of_ne different]
  · have taken := unlock_queue unlocks other
    have counts := count_queued_set Mutex.waitQueue found unlocked other
    rw [elim_some] at counts
    simp only [waiting, count_append, takenOut, reduceCtorEq, false_and,
      and_false, if_false]
    omega

/-! ## Semaphores -/

theorem sysSemaphoreCreate {resCount : Usize} (atUser : point = .user)
    (returned : self.sysSemaphoreCreate resCount = .ok (after, effect)) :
    Acted self thread tid (.semaphoreCreate resCount) point after effect := by
  obtain ⟨allocation, allocationEq, rest⟩ := bind_eq_ok.mp returned
  obtain ⟨need, needEq, rest⟩ := bind_eq_ok.mp rest
  cases rest
  refine .returns id atUser ⟨rfl, ⟨rfl, rfl, rfl, fun _ => rfl, rfl, rfl,
    (padRows_spec needEq).2, (padRows_spec allocationEq).2⟩,
    ⟨fun _ => ⟨rfl, rfl, rfl⟩, fun _ => rfl, absurd trivial, fun _ => rfl⟩,
    .of_entries rfl rfl (padRows_spec needEq).1 (padRows_spec allocationEq).1⟩
    (.of_count (fun other => ?_) rfl nofun)
  have added := count_queued_fillSlot self.semaphoreList
    (show (Semaphore.new resCount).waitQueue = [] from rfl) other
  simp only [waiting, count_append, added]

theorem sysSemaphoreUp (own : self.curTid thread = .ok tid)
    (atUser : point = .user)
    (returned : self.sysSemaphoreUp thread semId = .ok (after, effect)) :
    Acted self thread tid (.semaphoreUp semId) point after effect := by
  obtain ⟨ownTid, semaphore, available, padded, allocation, tidEq, found, _,
    paddedEq, allocationEq, rfl, rfl⟩ := sysSemaphoreUp_eq_ok returned
  rw [own] at tidEq
  cases tidEq
  refine .wakes id atUser ⟨rfl, ⟨rfl, rfl, rfl, fun _ => rfl, rfl, rfl, rfl,
    (modifyEntry_spec allocationEq).2.trans (padRow_spec paddedEq).2⟩,
    ⟨fun _ => ⟨rfl, rfl, rfl⟩, fun _ => rfl, absurd trivial, fun _ => rfl⟩,
    fun _ _ _ => rfl, fun _ _ _ => rfl, fun _ _ _ => rfl, ?_⟩ fun other => ?_
  · intro other different id
    rw [(modifyEntry_spec allocationEq).1, changeEntry_of_ne different,
      (padRow_spec paddedEq).1]
  · have taken := semaphore.up_queue other
    have counts :=
      count_queued_set Semaphore.waitQueue found semaphore.up.1 other
    rw [elim_some] at counts
    simp only [waiting, count_append, takenOut, reduceCtorEq, false_and,
      and_false, if_false]
    omega

theorem takeUnit_edits (returned : self.takeUnit tid semId = .ok after) :
    Edits tid (.semaphoreDown semId) self after ∧
      after.waiting = self.waiting := by
  obtain ⟨units, _, ⟨_, rfl⟩ | ⟨_, available, padded, allocation, need, _,
    paddedEq, allocationEq, needEq, rfl⟩⟩ := takeUnit_eq_ok returned
  · exact ⟨.refl after, rfl⟩
  · refine ⟨⟨rfl, ⟨rfl, rfl, rfl, fun _ => rfl, rfl, rfl,
      (modifyEntry_spec needEq).2,
      (modifyEntry_spec allocationEq).2.trans (padRow_spec paddedEq).2⟩,
      ⟨fun _ => ⟨rfl, rfl, rfl⟩, fun _ => rfl, absurd trivial, fun _ => rfl⟩,
      fun _ _ _ => rfl, fun _ _ _ => rfl, ?_, ?_⟩, rfl⟩
    · intro other different id
      rw [(modifyEntry_spec needEq).1, changeEntry_of_ne different]
    · intro other different id
      rw [(modifyEntry_spec allocationEq).1, changeEntry_of_ne different,
        (padRow_spec paddedEq).1]

theorem downSemaphore (atUser : point = .user)
    (edits : Edits tid (.semaphoreDown semId) self base)
    (same : base.waiting = self.waiting)
    (returned : base.downSemaphore thread semId = .ok (after, effect)) :
    Acted self thread tid (.semaphoreDown semId) point after effect := by
  obtain ⟨semaphore, lowered, progress, found, lowers, cases⟩ :=
    downSemaphore_eq_ok returned
  have lowersEdits :
      Edits tid (.semaphoreDown semId) self
        { base with
          semaphoreList := base.semaphoreList.set semId lowered } :=
    edits.trans (.lists ⟨fun _ => ⟨rfl, rfl, rfl⟩, fun _ => rfl,
      absurd trivial, fun _ => rfl⟩)
  have counts := count_queued_set Semaphore.waitQueue found lowered
  simp only [elim_some] at counts
  rcases Semaphore.down_queue lowers with ⟨rfl, queue⟩ | ⟨rfl, queue⟩
  · rcases cases with ⟨_, rfl, rfl⟩ | ⟨impossible, _⟩
    · refine .returns id atUser lowersEdits
        (.of_count (fun other => ?_) rfl nofun)
      have counts := counts other
      rw [queue] at counts
      rw [← same]
      simp only [waiting, count_append]
      omega
    · cases impossible
  · rcases cases with ⟨impossible, _⟩ | ⟨_, rfl, rfl⟩
    · exact absurd rfl impossible
    · refine .goes id lowersEdits (fun other => ?_) (.blocks trivial)
      have counts := counts other
      rw [queue, count_concat] at counts
      rw [← same]
      simp only [waiting, count_append, takenOut, toList_none,
        count_nil, ne_eq, reduceCtorEq, not_false_eq_true, and_true]
      omega

theorem sysSemaphoreDown (own : self.curTid thread = .ok tid)
    (atUser : point = .user)
    (returned : self.sysSemaphoreDown thread semId = .ok (after, effect)) :
    Acted self thread tid (.semaphoreDown semId) point after effect := by
  obtain ⟨ownTid, padded, requested, refuses, need, allocation, tidEq,
    paddedEq, requestedEq, detected, cases⟩ := sysSemaphoreDown_eq_ok returned
  rw [own] at tidEq
  cases tidEq
  obtain ⟨needEntries, allocationEntries, needLength, allocationLength⟩ :=
    detectSemaphore_entries detected
  have tables :
      Edits tid (.semaphoreDown semId) self
        { self with
          semaphoreNeed := need, semaphoreAllocation := allocation } := by
    refine ⟨rfl, ⟨rfl, rfl, rfl, fun _ => rfl, rfl, rfl,
      needLength.trans ((modifyEntry_spec requestedEq).2.trans
        (padRow_spec paddedEq).2), allocationLength⟩,
      ⟨fun _ => ⟨rfl, rfl, rfl⟩, fun _ => rfl, absurd trivial, fun _ => rfl⟩,
      fun _ _ _ => rfl, fun _ _ _ => rfl, ?_, fun _ _ _ => ?_⟩
    · intro other different id
      rw [needEntries, (modifyEntry_spec requestedEq).1,
        changeEntry_of_ne different, (padRow_spec paddedEq).1]
    · rw [allocationEntries]
  rcases cases with ⟨_, rfl, rfl⟩ | ⟨_, taken, takenEq, downs⟩
  · exact .returns id atUser tables (.of_count (fun _ => rfl) rfl nofun)
  · obtain ⟨takes, same⟩ := takeUnit_edits takenEq
    exact downSemaphore atUser (tables.trans takes) same downs

/-! ## Condition variables and the rest -/

variable {condvarId : Nat}

theorem sysCondvarSignal (atUser : point = .user)
    (returned : self.sysCondvarSignal condvarId = .ok (after, effect)) :
    Acted self thread tid (.condvarSignal condvarId) point after effect := by
  obtain ⟨condvar, found, rfl, rfl⟩ := sysCondvarSignal_eq_ok returned
  refine .wakes id atUser
    (.lists (.of_eq ⟨rfl, rfl, rfl⟩ rfl ⟨rfl, rfl, rfl, rfl⟩ rfl))
    fun other => ?_
  have taken := condvar.signal_queue other
  have counts :=
    count_queued_set Condvar.waitQueue found condvar.signal.1 other
  rw [elim_some] at counts
  simp only [waiting, count_append, takenOut, reduceCtorEq, false_and,
    and_false, if_false]
  omega

/-- `Condvar::wait` leaves the queue of the mutex and joins its own. -/
theorem sysCondvarWait
    (returned :
      self.sysCondvarWait thread condvarId mutexId = .ok (after, effect)) :
    Acted self thread tid (.condvarWait condvarId mutexId) point after
      effect := by
  obtain ⟨condvar, mutex, waits, free, woken, condvarFound, mutexFound, waitEq,
    rfl, rfl⟩ := sysCondvarWait_eq_ok returned
  obtain ⟨unlocks, _, queue⟩ := Condvar.wait_eq_ok.mp waitEq
  refine .switches id (.lists ⟨fun _ => ⟨rfl, rfl, rfl⟩, absurd trivial,
    fun _ => ⟨rfl, rfl, rfl, rfl⟩, fun _ => rfl⟩) (fun other => ?_)
    (.blocks trivial)
  have taken := unlock_queue unlocks other
  have unlocked := count_queued_set Mutex.waitQueue mutexFound free other
  have joined := count_queued_set Condvar.waitQueue condvarFound waits other
  rw [elim_some] at unlocked joined
  rw [queue, count_concat] at joined
  simp only [waiting, count_append, takenOut, ne_eq, reduceCtorEq,
    not_false_eq_true, and_true]
  omega

theorem sysEnableDeadlockDetect {enabled : Usize} (atUser : point = .user)
    (returned : self.sysEnableDeadlockDetect enabled = (after, effect)) :
    Acted self thread tid (.enableDeadlockDetect enabled) point after
      effect := by
  have changes :
      ∀ deadlockDetect : Bool,
        Edits tid (.enableDeadlockDetect enabled) self
          { self with deadlockDetect } := by
    intro deadlockDetect
    refine ⟨rfl, ⟨rfl, rfl, rfl, fun _ => rfl, rfl, rfl, rfl, rfl⟩, ?_,
      .of_entries rfl rfl rfl rfl⟩
    exact ⟨fun _ => ⟨rfl, rfl, rfl⟩, fun _ => rfl,
      fun _ => ⟨rfl, rfl, rfl, rfl⟩, fun other => absurd rfl (other enabled)⟩
  rw [Process.sysEnableDeadlockDetect] at returned
  split at returned
  · cases returned
    exact .returns id atUser (changes true) (.of_count (fun _ => rfl) rfl nofun)
  · split at returned
    · cases returned
      exact .returns id atUser (changes false)
        (.of_count (fun _ => rfl) rfl nofun)
    · cases returned
      exact .returns id atUser (.refl self)
        (.of_count (fun _ => rfl) rfl nofun)

theorem syscall (own : self.curTid thread = .ok tid) (atUser : point = .user)
    (returned : self.syscall thread action = .ok (after, effect)) :
    Acted self thread tid action point after effect := by
  cases action with
  | resume => cases returned
  | yield =>
    cases returned
    exact .goes id (.refl self) (.of_count (fun _ => rfl) rfl nofun)
      .suspends
  | sleep =>
    cases returned
    exact .goes id (.refl self)
      (.of_count (fun _ => rfl) rfl fun _ => rfl) (.blocks trivial)
  | fileTurn waits => cases returned
  | threadCreate => exact .numbers trivial atUser returned
  | exit exitCode => exact .numbers trivial atUser returned
  | waittid waited => exact .numbers trivial atUser returned
  | mutexCreate blocking =>
    cases returned
    refine .returns id atUser ⟨rfl, ⟨rfl, rfl, rfl, fun _ => rfl, rfl, rfl,
      rfl, rfl⟩, ⟨absurd trivial, absurd trivial,
      fun _ => ⟨rfl, rfl, rfl, rfl⟩, fun _ => rfl⟩,
      .of_entries rfl rfl rfl rfl⟩ (.of_count (fun other => ?_) rfl nofun)
    have added := count_queued_fillSlot self.mutexList
      (waitQueue_new blocking) other
    simp only [waiting, count_append, added]
  | mutexLock mutexId => exact sysMutexLock own atUser returned
  | mutexUnlock mutexId => exact sysMutexUnlock own atUser returned
  | semaphoreCreate resCount => exact sysSemaphoreCreate atUser returned
  | semaphoreUp semId => exact sysSemaphoreUp own atUser returned
  | semaphoreDown semId => exact sysSemaphoreDown own atUser returned
  | condvarCreate =>
    cases returned
    refine .returns id atUser
      (.lists (.of_eq ⟨rfl, rfl, rfl⟩ rfl ⟨rfl, rfl, rfl, rfl⟩ rfl))
      (.of_count (fun other => ?_) rfl nofun)
    have added := count_queued_fillSlot self.condvarList
      (show Condvar.new.waitQueue = [] from rfl) other
    simp only [waiting, count_append, added]
  | condvarSignal condvarId => exact sysCondvarSignal atUser returned
  | condvarWait condvarId mutexId => exact sysCondvarWait returned
  | enableDeadlockDetect enabled =>
    exact sysEnableDeadlockDetect atUser (Except.ok.inj returned)

/-- Every step is of one of the kinds. -/
theorem act (own : self.curTid thread = .ok tid)
    (returned : self.act thread point action = .ok (after, effect)) :
    Acted self thread tid action point after effect := by
  rcases act_eq_ok returned with
    ⟨rfl, resumes⟩ | ⟨waits, rfl, _, turns⟩ | ⟨atUser, calls⟩
  · exact resume resumes
  · cases waits with
    | true =>
      cases turns
      exact .goes id (.refl self) (.of_count (fun _ => rfl) rfl nofun)
        .suspends
    | false =>
      cases turns
      exact finishCall id rfl
  · exact syscall own atUser calls

end Acted

/-! ## What follows for every step -/

/-- Most steps keep the shape of the process. -/
theorem SameShape.act (keeps : ¬ Renumbers action)
    (own : self.curTid thread = .ok tid)
    (returned : self.act thread point action = .ok (after, effect)) :
    SameShape self after := by
  cases Acted.act own returned with
  | wakes _ _ edits _ => exact edits.shape.trans (.wakeupTask _ _)
  | switches _ edits _ _ =>
    exact (edits.shape.trans (.wakeupTask _ _)).trans (.switchTo _ _ _ _)
  | numbers renumbers _ _ => exact absurd renumbers keeps

/-- A call that numbers threads adds one, or changes no object and no table. -/
theorem numbers_eq_ok (renumbers : Renumbers action)
    (returned : self.syscall thread action = .ok (after, effect)) :
    (action = .threadCreate ∧
        self.sysThreadCreate thread = .ok (after, effect)) ∨
      (action ≠ .threadCreate ∧ effect.readied = none ∧
        effect.outcome ≠ .blocked ∧
        after =
          { self with
            threads := after.threads
            taskResAllocator := after.taskResAllocator
            tasks := after.tasks
            isZombie := after.isZombie
            exitCode := after.exitCode
            children := after.children }) := by
  cases action with
  | threadCreate => exact .inl ⟨rfl, returned⟩
  | exit exitCode =>
    obtain ⟨_, exited, _, exits, rfl, cases⟩ := exitCurrent_eq_ok returned
    refine .inr ⟨nofun, rfl, nofun, ?_⟩
    obtain ⟨_, _, _, _, rfl⟩ := exitThread_eq_ok exits
    rcases cases with ⟨_, ends⟩ | ⟨_, rfl⟩
    · rw [(exitProcess_eq_ok ends).rest_eq]
    · rfl
  | waittid waited =>
    obtain ⟨_, _, ⟨rfl, rfl, _⟩ | ⟨_, _, _, _, _,
      ⟨rfl, rfl, _⟩ | ⟨_, _, rfl, rfl⟩⟩⟩ := sysWaittid_eq_ok returned
    all_goals exact .inr ⟨nofun, rfl, nofun, rfl⟩
  | _ => cases renumbers

/-- What a step leaves alone, by its action. -/
theorem Frame.act (own : self.curTid thread = .ok tid)
    (returned : self.act thread point action = .ok (after, effect)) :
    Frame action self after := by
  cases Acted.act own returned with
  | wakes _ _ edits _ => exact edits.frame.trans (.wakeupTask _ _)
  | switches _ edits _ _ =>
    exact (edits.frame.trans (.wakeupTask _ _)).trans (.switchTo _ _ _ _)
  | numbers renumbers _ calls =>
    rcases numbers_eq_ok renumbers calls with
      ⟨rfl, creates⟩ | ⟨_, _, _, rest⟩
    · obtain ⟨_, _, _, _, rfl⟩ := sysThreadCreate_eq_ok creates
      exact ⟨absurd trivial, fun _ => rfl, absurd trivial, fun _ => rfl⟩
    · rw [rest]
      exact .of_eq ⟨rfl, rfl, rfl⟩ rfl ⟨rfl, rfl, rfl, rfl⟩ rfl

/-- The rows of a new thread are empty, whichever thread they belonged to. -/
theorem OwnRow.sysThreadCreate
    (returned : self.sysThreadCreate thread = .ok (after, effect)) :
    OwnRow tid self after := by
  obtain ⟨newTid, allocator, _, _, rfl⟩ := sysThreadCreate_eq_ok returned
  exact .of_entries (entry_append_empty _ _) (entry_append_empty _ _)
    (entry_append_empty _ _) (entry_append_empty _ _)

section

variable (own : self.curTid thread = .ok tid)
  (returned : self.act thread point action = .ok (after, effect))

include own returned

/-- A step changes only the rows of the thread that takes it. -/
theorem OwnRow.act :
    OwnRow tid self after := by
  cases Acted.act own returned with
  | wakes _ _ edits _ => exact edits.rows.trans (.wakeupTask _ _)
  | switches _ edits _ _ =>
    exact (edits.rows.trans (.wakeupTask _ _)).trans (.switchTo _ _ _ _)
  | numbers renumbers _ calls =>
    rcases numbers_eq_ok renumbers calls with
      ⟨rfl, creates⟩ | ⟨_, _, _, rest⟩
    · exact .sysThreadCreate creates
    · rw [rest]
      exact .of_entries rfl rfl rfl rfl

/-- What every step does to the wait queues. -/
theorem QueuesMove.act :
    QueuesMove self after thread action effect := by
  cases Acted.act own returned with
  | @wakes base value woken _ _ _ queues =>
    have same : (base.wakeupTask woken).waiting = base.waiting := by
      simp only [waiting, wakeupTask_mutexList, wakeupTask_semaphoreList,
        wakeupTask_condvarList]
    rw [QueuesMove, same]
    exact queues
  | @switches base newPoint taskStatus outcome woken _ _ queues _ =>
    have same :
        ((base.wakeupTask woken).switchTo thread newPoint
          taskStatus).waiting = base.waiting := by
      simp only [waiting, switchTo, wakeupTask_mutexList,
        wakeupTask_semaphoreList, wakeupTask_condvarList]
    rw [QueuesMove, same]
    exact queues
  | numbers renumbers _ calls =>
    rcases numbers_eq_ok renumbers calls with
      ⟨rfl, creates⟩ | ⟨notCreate, nobody, runs, rest⟩
    · obtain ⟨_, _, _, rfl, rfl⟩ := sysThreadCreate_eq_ok creates
      refine .of_count (fun _ => rfl) rfl ?_
      intro blocks
      cases blocks
    · rw [rest]
      refine .of_count (fun _ => rfl) ?_ (absurd · runs)
      rw [takenOut.eq_def]
      split
      · rfl
      · exact nobody

end

end Process

end RCoreOS.Kernel
