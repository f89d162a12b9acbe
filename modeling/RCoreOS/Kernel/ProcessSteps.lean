import RCoreOS.Kernel.Process

/-!
# What the steps of a process change

The system calls of `Process` taken apart: how each of them can end, what it
makes of the process and which effect it reports.
-/

namespace RCoreOS.Kernel

open Lib.FallibleRuns List

/-- The tid and the exit code of a thread. -/
def TaskControlBlock.account (task : TaskControlBlock) :
    Option Nat × Option Int :=
  (task.res, task.exitCode)

namespace Process

variable {self after : Process} {effect : Effect} {thread : Nat}

variable {tid mutexId semId position : Nat} {action : Action}
  {point : SwitchPoint} {exitCode : Int}

theorem curTid_eq_ok :
    self.curTid thread = .ok tid ↔
      ∃ task, self.threads[thread]? = some task ∧ task.res = some tid := by
  simp only [curTid, bind_eq_ok, index_eq_ok]
  constructor
  · rintro ⟨task, found, rest⟩
    cases res : task.res with
    | none =>
      rw [res] at rest
      cases rest
    | some held =>
      rw [res] at rest
      cases rest
      exact ⟨task, found, res⟩
  · rintro ⟨task, found, res⟩
    refine ⟨task, found, ?_⟩
    rw [res]
    rfl

/-- What holds of a thread that takes a step. -/
structure Runs (process : Process) (thread : Nat) (task : TaskControlBlock)
    (tid : Nat) : Prop where
  found : process.threads[thread]? = some task
  lives : process.isZombie = false
  exitCode_eq : task.exitCode = none
  runnable : task.taskStatus ≠ .blocked ∨ task.point = .sleep
  res_eq : task.res = some tid

variable {task : TaskControlBlock} {condvarId other : Nat} {α : Type}
  {slots : List (Option Nat)}

theorem Runs.curTid
    (runs : self.Runs thread task tid) : self.curTid thread = .ok tid :=
  curTid_eq_ok.mpr ⟨task, runs.found, runs.res_eq⟩

/-- A thread in user space is not blocked. -/
theorem Runs.notBlocked
    (runs : self.Runs thread task tid) (atUser : task.point = .user) :
    task.taskStatus ≠ .blocked := by
  rcases runs.runnable with notBlocked | sleeps
  · exact notBlocked
  · rw [atUser] at sleeps
    cases sleeps

theorem step_eq_ok {event : Event}
    (returned : self.step (thread, action) = .ok (after, event)) :
    ∃ task tid effect,
      self.Runs thread task tid ∧
        self.act thread task.point action = .ok (after, effect) ∧
        event = ⟨thread, tid, task.point, action, effect⟩ := by
  rw [step] at returned
  split at returned
  · cases returned
  · next task found =>
      split at returned
      · next guard =>
          obtain ⟨tid, tidEq, rest⟩ := bind_eq_ok.mp returned
          obtain ⟨⟨between, effect⟩, acted, rest⟩ := bind_eq_ok.mp rest
          cases rest
          obtain ⟨same, sameFound, res⟩ := curTid_eq_ok.mp tidEq
          rw [found] at sameFound
          cases sameFound
          exact ⟨task, tid, effect,
            ⟨found, guard.1, guard.2.1, guard.2.2, res⟩, acted, rfl⟩
      · cases returned

/-! ## The threads that a step changes -/

theorem getElem?_switchTo (self : Process) (thread other : Nat)
    (point : SwitchPoint) (taskStatus : TaskStatus) :
    (self.switchTo thread point taskStatus).threads[other]? =
      (self.threads[other]?).map fun task =>
        if thread = other then { task with point, taskStatus } else task := by
  rw [switchTo, getElem?_modify]
  rfl

theorem getElem?_wakeupTask (self : Process) (woken : Option Nat)
    (other : Nat) :
    (self.wakeupTask woken).threads[other]? =
      (self.threads[other]?).map fun task =>
        if woken = some other then { task with taskStatus := .ready }
        else task := by
  cases woken with
  | none => simp [wakeupTask]
  | some thread =>
    rw [wakeupTask, getElem?_modify]
    simp only [Option.some.injEq]
    rfl

/-! ## The system calls taken apart -/

/-- What `mutex.lock()` comes to, for each way it can end. -/
theorem lockMutex_eq_ok
    (returned :
      self.lockMutex thread mutexId point = .ok (after, effect)) :
    ∃ mutex locked progress,
      self.mutexList[mutexId]? = some (some mutex) ∧
        mutex.lock thread = .ok (locked, progress) ∧
        ((progress = .returned ∧ effect = ⟨.returned 0, none⟩ ∧
            after =
              { self with
                mutexList := self.mutexList.set mutexId locked }.switchTo
                  thread .user .running) ∨
          (progress = .suspended ∧ effect = ⟨.suspended, none⟩ ∧
            after =
              { self with
                mutexList := self.mutexList.set mutexId locked }.switchTo
                  thread point .ready) ∨
          (progress = .blocked ∧ effect = ⟨.blocked, none⟩ ∧
            after =
              { self with
                mutexList := self.mutexList.set mutexId locked }.switchTo
                  thread point .blocked)) := by
  obtain ⟨mutex, found, rest⟩ := bind_eq_ok.mp returned
  obtain ⟨⟨locked, progress⟩, locks, rest⟩ := bind_eq_ok.mp rest
  refine ⟨mutex, locked, progress, object_eq_ok.mp found, locks, ?_⟩
  cases progress with
  | returned =>
    cases rest
    exact .inl ⟨rfl, rfl, rfl⟩
  | suspended =>
    cases rest
    exact .inr (.inl ⟨rfl, rfl, rfl⟩)
  | blocked =>
    cases rest
    exact .inr (.inr ⟨rfl, rfl, rfl⟩)

/-- The two ways of `sys_mutex_lock`: the request is refused or entered. -/
theorem sysMutexLock_eq_ok
    (returned : self.sysMutexLock thread mutexId = .ok (after, effect)) :
    ∃ tid need allocation,
      self.curTid thread = .ok tid ∧
        requestMutex self.mutexNeed self.mutexAllocation self.tasks.length
            tid mutexId = .ok (need, allocation) ∧
        ((self.detectMutex need allocation mutexId = .ok true ∧
            effect = ⟨.returned (-0xDEAD), none⟩ ∧
            after =
              { self with mutexNeed := need, mutexAllocation := allocation }) ∨
          (self.detectMutex need allocation mutexId = .ok false ∧
            ∃ available granted settled,
              modifyAt self.mutexAvailable mutexId (· - 1) = .ok available ∧
                modifyEntry allocation tid mutexId (· + 1) = .ok granted ∧
                modifyEntry need tid mutexId (· - 1) = .ok settled ∧
                lockMutex
                    { self with
                      mutexAvailable := available
                      mutexAllocation := granted
                      mutexNeed := settled }
                    thread mutexId (.mutexLock mutexId) =
                  .ok (after, effect))) := by
  obtain ⟨_, _, rest⟩ := bind_eq_ok.mp returned
  obtain ⟨tid, tidEq, rest⟩ := bind_eq_ok.mp rest
  obtain ⟨⟨need, allocation⟩, requested, rest⟩ := bind_eq_ok.mp rest
  obtain ⟨refuses, detected, rest⟩ := bind_eq_ok.mp rest
  refine ⟨tid, need, allocation, tidEq, requested, ?_⟩
  cases refuses with
  | true =>
    cases rest
    exact .inl ⟨detected, rfl, rfl⟩
  | false =>
    obtain ⟨available, availableEq, rest⟩ := bind_eq_ok.mp rest
    obtain ⟨granted, grantedEq, rest⟩ := bind_eq_ok.mp rest
    obtain ⟨settled, settledEq, locks⟩ := bind_eq_ok.mp rest
    exact .inr ⟨detected, available, granted, settled, availableEq,
      grantedEq, settledEq, locks⟩

theorem sysMutexUnlock_eq_ok
    (returned : self.sysMutexUnlock thread mutexId = .ok (after, effect)) :
    ∃ tid mutex unlocked woken available allocation,
      self.curTid thread = .ok tid ∧
        self.mutexList[mutexId]? = some (some mutex) ∧
        mutex.unlock = .ok (unlocked, woken) ∧
        modifyAt self.mutexAvailable mutexId (· + 1) = .ok available ∧
        modifyEntry self.mutexAllocation tid mutexId (· - 1) = .ok allocation ∧
        effect = ⟨.returned 0, woken⟩ ∧
        after =
          { self with
            mutexAvailable := available
            mutexAllocation := allocation
            mutexList := self.mutexList.set mutexId unlocked }.wakeupTask
              woken := by
  obtain ⟨mutex, found, rest⟩ := bind_eq_ok.mp returned
  obtain ⟨tid, tidEq, rest⟩ := bind_eq_ok.mp rest
  obtain ⟨available, availableEq, rest⟩ := bind_eq_ok.mp rest
  obtain ⟨allocation, allocationEq, rest⟩ := bind_eq_ok.mp rest
  obtain ⟨⟨unlocked, woken⟩, unlocks, rest⟩ := bind_eq_ok.mp rest
  cases rest
  exact ⟨tid, mutex, unlocked, woken, available, allocation, tidEq,
    object_eq_ok.mp found, unlocks, availableEq, allocationEq, rfl, rfl⟩

theorem sysSemaphoreUp_eq_ok
    (returned : self.sysSemaphoreUp thread semId = .ok (after, effect)) :
    ∃ tid semaphore available padded allocation,
      self.curTid thread = .ok tid ∧
        self.semaphoreList[semId]? = some (some semaphore) ∧
        modifyAt self.semaphoreAvailable semId (· + 1) = .ok available ∧
        padRow self.semaphoreAllocation tid (semId + 1) = .ok padded ∧
        modifyEntry padded tid semId (· - 1) = .ok allocation ∧
        effect = ⟨.returned 0, semaphore.up.2⟩ ∧
        after =
          { self with
            semaphoreAvailable := available
            semaphoreAllocation := allocation
            semaphoreList :=
              self.semaphoreList.set semId semaphore.up.1 }.wakeupTask
              semaphore.up.2 := by
  obtain ⟨semaphore, found, rest⟩ := bind_eq_ok.mp returned
  obtain ⟨tid, tidEq, rest⟩ := bind_eq_ok.mp rest
  obtain ⟨available, availableEq, rest⟩ := bind_eq_ok.mp rest
  obtain ⟨padded, paddedEq, rest⟩ := bind_eq_ok.mp rest
  obtain ⟨allocation, allocationEq, rest⟩ := bind_eq_ok.mp rest
  cases rest
  exact ⟨tid, semaphore, available, padded, allocation, tidEq,
    object_eq_ok.mp found, availableEq, paddedEq, allocationEq, rfl, rfl⟩

/-- What `sem.down()` comes to, for each way it can end. -/
theorem downSemaphore_eq_ok
    (returned : self.downSemaphore thread semId = .ok (after, effect)) :
    ∃ semaphore lowered progress,
      self.semaphoreList[semId]? = some (some semaphore) ∧
        semaphore.down thread = .ok (lowered, progress) ∧
        ((progress ≠ .blocked ∧ effect = ⟨.returned 0, none⟩ ∧
            after =
              { self with
                semaphoreList := self.semaphoreList.set semId lowered }) ∨
          (progress = .blocked ∧ effect = ⟨.blocked, none⟩ ∧
            after =
              { self with
                semaphoreList :=
                  self.semaphoreList.set semId lowered }.switchTo thread
                    (.semaphoreDown semId) .blocked)) := by
  obtain ⟨semaphore, found, rest⟩ := bind_eq_ok.mp returned
  obtain ⟨⟨lowered, progress⟩, downs, rest⟩ := bind_eq_ok.mp rest
  refine ⟨semaphore, lowered, progress, object_eq_ok.mp found, downs, ?_⟩
  cases progress with
  | returned =>
    cases rest
    exact .inl ⟨nofun, rfl, rfl⟩
  | suspended =>
    cases rest
    exact .inl ⟨nofun, rfl, rfl⟩
  | blocked =>
    cases rest
    exact .inr ⟨rfl, rfl, rfl⟩

/-- The tables are left alone, or one unit goes to the thread. -/
theorem takeUnit_eq_ok (returned : self.takeUnit tid semId = .ok after) :
    ∃ units,
      self.semaphoreAvailable[semId]? = some units ∧
        ((¬ 1 ≤ units ∧ after = self) ∨
          (1 ≤ units ∧
            ∃ available padded allocation need,
              modifyAt self.semaphoreAvailable semId (· - 1) = .ok available ∧
                padRow self.semaphoreAllocation tid (semId + 1) = .ok padded ∧
                modifyEntry padded tid semId (· + 1) = .ok allocation ∧
                modifyEntry self.semaphoreNeed tid semId (· - 1) = .ok need ∧
                after =
                  { self with
                    semaphoreAvailable := available
                    semaphoreAllocation := allocation
                    semaphoreNeed := need })) := by
  obtain ⟨units, found, rest⟩ := bind_eq_ok.mp returned
  refine ⟨units, index_eq_ok.mp found, ?_⟩
  split at rest
  · next some =>
      obtain ⟨available, availableEq, rest⟩ := bind_eq_ok.mp rest
      obtain ⟨padded, paddedEq, rest⟩ := bind_eq_ok.mp rest
      obtain ⟨allocation, allocationEq, rest⟩ := bind_eq_ok.mp rest
      obtain ⟨need, needEq, rest⟩ := bind_eq_ok.mp rest
      cases rest
      exact .inr ⟨some, available, padded, allocation, need, availableEq,
        paddedEq, allocationEq, needEq, rfl⟩
  · next none =>
      cases rest
      exact .inl ⟨none, rfl⟩

/-- The two ways of `sys_semaphore_down`: refused, or taken to `down`. -/
theorem sysSemaphoreDown_eq_ok
    (returned : self.sysSemaphoreDown thread semId = .ok (after, effect)) :
    ∃ tid padded requested refuses need allocation,
      self.curTid thread = .ok tid ∧
        padRow self.semaphoreNeed tid (semId + 1) = .ok padded ∧
        modifyEntry padded tid semId (· + 1) = .ok requested ∧
        self.detectSemaphore requested = .ok (refuses, need, allocation) ∧
        ((refuses = true ∧ effect = ⟨.returned (-0xDEAD), none⟩ ∧
            after =
              { self with
                semaphoreNeed := need, semaphoreAllocation := allocation }) ∨
          (refuses = false ∧
            ∃ taken,
              takeUnit
                  { self with
                    semaphoreNeed := need, semaphoreAllocation := allocation }
                  tid semId = .ok taken ∧
                taken.downSemaphore thread semId = .ok (after, effect))) := by
  obtain ⟨_, _, rest⟩ := bind_eq_ok.mp returned
  obtain ⟨tid, tidEq, rest⟩ := bind_eq_ok.mp rest
  obtain ⟨padded, paddedEq, rest⟩ := bind_eq_ok.mp rest
  obtain ⟨requested, requestedEq, rest⟩ := bind_eq_ok.mp rest
  obtain ⟨⟨refuses, need, allocation⟩, detected, rest⟩ := bind_eq_ok.mp rest
  refine ⟨tid, padded, requested, refuses, need, allocation, tidEq, paddedEq,
    requestedEq, detected, ?_⟩
  cases refuses with
  | true =>
    cases rest
    exact .inl ⟨rfl, rfl, rfl⟩
  | false =>
    obtain ⟨taken, takenEq, downs⟩ := bind_eq_ok.mp rest
    exact .inr ⟨rfl, taken, takenEq, downs⟩

theorem sysCondvarWait_eq_ok
    (returned :
      self.sysCondvarWait thread condvarId mutexId = .ok (after, effect)) :
    ∃ condvar mutex waiting free woken,
      self.condvarList[condvarId]? = some (some condvar) ∧
        self.mutexList[mutexId]? = some (some mutex) ∧
        condvar.wait mutex thread = .ok (waiting, free, woken) ∧
        effect = ⟨.blocked, woken⟩ ∧
        after =
          ({ self with
            condvarList := self.condvarList.set condvarId waiting
            mutexList := self.mutexList.set mutexId free }.wakeupTask
              woken).switchTo thread (.condvarWait condvarId mutexId)
                .blocked := by
  obtain ⟨condvar, condvarFound, rest⟩ := bind_eq_ok.mp returned
  obtain ⟨mutex, mutexFound, rest⟩ := bind_eq_ok.mp rest
  obtain ⟨⟨waiting, free, woken⟩, waits, rest⟩ := bind_eq_ok.mp rest
  cases rest
  exact ⟨condvar, mutex, waiting, free, woken, object_eq_ok.mp condvarFound,
    object_eq_ok.mp mutexFound, waits, rfl, rfl⟩

theorem sysCondvarSignal_eq_ok
    (returned : self.sysCondvarSignal condvarId = .ok (after, effect)) :
    ∃ condvar,
      self.condvarList[condvarId]? = some (some condvar) ∧
        effect = ⟨.returned 0, condvar.signal.2⟩ ∧
        after =
          { self with
            condvarList :=
              self.condvarList.set condvarId condvar.signal.1 }.wakeupTask
              condvar.signal.2 := by
  obtain ⟨condvar, found, rest⟩ := bind_eq_ok.mp returned
  cases rest
  exact ⟨condvar, object_eq_ok.mp found, rfl, rfl⟩

section

variable (returned :
    self.resumeLock thread mutexId point = .ok (after, effect))

include returned

/-- A thread inside `Mutex::lock` spins once more or returns. -/
theorem resumeLock_eq_ok :
    self.lockMutex thread mutexId point = .ok (after, effect) ∨
      ((after, effect) = self.finishCall thread ∧
        ∃ inner, self.mutexList[mutexId]? = some (some (.blocking inner))) := by
  obtain ⟨mutex, found, rest⟩ := bind_eq_ok.mp returned
  cases mutex with
  | spin inner => exact .inl rest
  | blocking inner =>
    cases rest
    exact .inr ⟨rfl, inner, object_eq_ok.mp found⟩

/-- A thread inside `Mutex::lock` that runs again does not block again. -/
theorem resumeLock_not_blocked :
    effect.outcome ≠ .blocked := by
  obtain ⟨mutex, found, rest⟩ := bind_eq_ok.mp returned
  cases mutex with
  | blocking inner =>
    cases rest
    exact nofun
  | spin inner =>
    obtain ⟨same, locked, progress, sameFound, locks, cases⟩ :=
      lockMutex_eq_ok rest
    rw [object_eq_ok.mp found] at sameFound
    cases sameFound
    rcases cases with ⟨_, rfl, _⟩ | ⟨_, rfl, _⟩ | ⟨rfl, _, _⟩
    · exact nofun
    · exact nofun
    · have progressEq : inner.lock.2 = .blocked :=
        congrArg Prod.snd (Except.ok.inj locks)
      rw [MutexSpin.lock] at progressEq
      split at progressEq
      · cases progressEq
      · cases progressEq

end

/-- How a thread that was switched out goes on. -/
theorem resume_eq_ok
    (returned : self.resume thread point = .ok (after, effect)) :
    (∃ mutexId,
        (point = .mutexLock mutexId ∨ point = .condvarLock mutexId) ∧
          self.resumeLock thread mutexId point = .ok (after, effect)) ∨
      (∃ condvarId mutexId,
        point = .condvarWait condvarId mutexId ∧
          self.lockMutex thread mutexId (.condvarLock mutexId) =
            .ok (after, effect)) ∨
      ((point = .sleep ∨ ∃ semId, point = .semaphoreDown semId) ∧
        (after, effect) = self.finishCall thread) := by
  cases point with
  | user => cases returned
  | mutexLock mutexId => exact .inl ⟨mutexId, .inl rfl, returned⟩
  | semaphoreDown semId =>
    exact .inr (.inr ⟨.inr ⟨semId, rfl⟩, (Except.ok.inj returned).symm⟩)
  | condvarWait condvarId mutexId =>
    exact .inr (.inl ⟨condvarId, mutexId, rfl, returned⟩)
  | condvarLock mutexId => exact .inl ⟨mutexId, .inr rfl, returned⟩
  | sleep => exact .inr (.inr ⟨.inl rfl, (Except.ok.inj returned).symm⟩)
  | fileTurn => cases returned

section

variable (returned : self.act thread point action = .ok (after, effect))

include returned

/-- A step is a resumption, a turn of a file or a system call. -/
theorem act_eq_ok :
    (action = .resume ∧ self.resume thread point = .ok (after, effect)) ∨
      (∃ waits,
        action = .fileTurn waits ∧
          (point = .user ∨ point = .fileTurn) ∧
          (after, effect) = self.turnFile thread waits) ∨
      (point = .user ∧
        self.syscall thread action = .ok (after, effect)) := by
  rw [act.eq_def] at returned
  split at returned
  · exact .inl ⟨rfl, returned⟩
  · next waits =>
      exact .inr (.inl ⟨waits, rfl, .inl rfl, (Except.ok.inj returned).symm⟩)
  · next waits =>
      exact .inr (.inl ⟨waits, rfl, .inr rfl, (Except.ok.inj returned).symm⟩)
  · exact .inr (.inr ⟨rfl, returned⟩)
  · cases returned

theorem syscall_of_act (notResume : action ≠ .resume)
    (notTurn : ∀ waits, action ≠ .fileTurn waits) :
    point = .user ∧ self.syscall thread action = .ok (after, effect) := by
  rcases act_eq_ok returned with
    ⟨resumes, _⟩ | ⟨waits, turns, _, _⟩ | called
  · exact absurd resumes notResume
  · exact absurd turns (notTurn waits)
  · exact called

end

/-- The detector leaves the entries and the number of rows as they are. -/
theorem detectSemaphore_entries {requested need allocation : Table}
    {refuses : Bool}
    (returned :
      self.detectSemaphore requested = .ok (refuses, need, allocation)) :
    entry need = entry requested ∧
      entry allocation = entry self.semaphoreAllocation ∧
      need.length = requested.length ∧
      allocation.length = self.semaphoreAllocation.length := by
  rw [detectSemaphore] at returned
  split at returned
  · exact semaphoreDetect_entries returned
  · cases returned
    exact ⟨rfl, rfl, rfl, rfl⟩

/-! ## Steps that number the threads -/

/-- The actions that number threads or take their numbers back. -/
def Renumbers : Action → Prop
  | .threadCreate | .exit _ | .waittid _ => True
  | _ => False

theorem getElem?_concat_eq_some {items : List α} {last item : α} :
    (items ++ [last])[position]? = some item ↔
      items[position]? = some item ∨
        (position = items.length ∧ item = last) := by
  by_cases inside : position < items.length
  · rw [getElem?_append_left inside]
    constructor
    · exact .inl
    · rintro (found | ⟨rfl, _⟩)
      · exact found
      · exact absurd inside (Nat.lt_irrefl _)
  · rw [getElem?_append_right (Nat.le_of_not_lt inside),
      getElem?_eq_none (Nat.le_of_not_lt inside)]
    by_cases same : position = items.length
    · subst same
      rw [Nat.sub_self]
      simp [eq_comm]
    · rw [getElem?_eq_none (by simp; omega)]
      simp [same]

/-- A list of slots that grows until it has the position, which is filled. -/
theorem getElem?_grow_eq_some {filled item : Nat} :
    ((slots ++ List.replicate (position + 1 - slots.length) none).set position
        (some filled))[other]? = some (some item) ↔
      (other = position ∧ item = filled) ∨
        (other ≠ position ∧ slots[other]? = some (some item)) := by
  by_cases same : other = position
  · subst same
    rw [getElem?_set_self (by simp; omega)]
    simp [eq_comm]
  · rw [getElem?_set_ne (Ne.symm same)]
    simp only [same, false_and, ne_eq, not_false_eq_true, true_and, false_or]
    by_cases inside : other < slots.length
    · rw [getElem?_append_left inside]
    · rw [getElem?_append_right (Nat.le_of_not_lt inside),
        getElem?_eq_none (Nat.le_of_not_lt inside), getElem?_replicate]
      split <;> simp

theorem getElem?_modify_eq_some {items : List α} {item : α}
    {change : α → α} :
    (items.modify position change)[other]? = some item ↔
      (other = position ∧
          ∃ old, items[position]? = some old ∧ item = change old) ∨
        (other ≠ position ∧ items[other]? = some item) := by
  rw [getElem?_modify]
  by_cases same : other = position
  · subst same
    simp [eq_comm]
  · simp [same, Ne.symm same]

theorem sysThreadCreate_eq_ok
    (returned : self.sysThreadCreate thread = .ok (after, effect)) :
    ∃ tid allocator,
      self.taskResAllocator.alloc = (tid, allocator) ∧
        effect = ⟨.returned tid, some self.threads.length⟩ ∧
        after =
          { self with
            threads := self.threads ++ [.new tid]
            taskResAllocator := allocator
            tasks :=
              (self.tasks ++
                List.replicate (tid + 1 - self.tasks.length) none).set tid
                (some self.threads.length)
            mutexAllocation :=
              self.mutexAllocation ++
                List.replicate (tid + 1 - self.tasks.length) []
            mutexNeed :=
              self.mutexNeed ++ List.replicate (tid + 1 - self.tasks.length) []
            semaphoreAllocation :=
              self.semaphoreAllocation ++
                List.replicate (tid + 1 - self.tasks.length) []
            semaphoreNeed :=
              self.semaphoreNeed ++
                List.replicate (tid + 1 - self.tasks.length) [] } := by
  obtain ⟨_, _, rest⟩ := bind_eq_ok.mp returned
  cases rest
  exact ⟨_, _, rfl, rfl, rfl⟩

theorem exitThread_eq_ok
    (returned : self.exitThread thread exitCode = .ok after) :
    ∃ tid allocator,
      self.curTid thread = .ok tid ∧
        self.taskResAllocator.dealloc tid = .ok allocator ∧
        after =
          { self with
            taskResAllocator := allocator
            threads := self.threads.modify thread fun task =>
              { task with res := none, exitCode := some exitCode } } := by
  obtain ⟨tid, tidEq, rest⟩ := bind_eq_ok.mp returned
  obtain ⟨allocator, deallocated, rest⟩ := bind_eq_ok.mp rest
  cases rest
  exact ⟨tid, allocator, tidEq, deallocated, rfl⟩

/-- Only the tids of threads have changed. -/
structure OnlyRes (before after : Process) : Prop where
  rest_eq :
    after =
      { before with
        threads := after.threads
        taskResAllocator := after.taskResAllocator }
  block_eq :
    ∀ thread : Nat,
      (after.threads[thread]?).map (fun task => { task with res := none }) =
        (before.threads[thread]?).map fun task => { task with res := none }

theorem OnlyRes.refl (self : Process) : OnlyRes self self :=
  ⟨rfl, fun _ => rfl⟩

theorem OnlyRes.trans {before between : Process}
    (first : OnlyRes before between) (second : OnlyRes between after) :
    OnlyRes before after := by
  refine ⟨?_, fun thread =>
    (second.block_eq thread).trans (first.block_eq thread)⟩
  rw [second.rest_eq, first.rest_eq]

theorem OnlyRes.recycleRes {slot : Option Nat}
    (returned : self.recycleRes slot = .ok after) : OnlyRes self after := by
  cases slot with
  | none =>
    cases returned
    exact .refl _
  | some thread =>
    obtain ⟨task, _, rest⟩ := bind_eq_ok.mp returned
    cases res : task.res with
    | none =>
      rw [res] at rest
      cases rest
      exact .refl _
    | some tid =>
      rw [res] at rest
      obtain ⟨allocator, _, rest⟩ := bind_eq_ok.mp rest
      cases rest
      refine ⟨rfl, fun other => ?_⟩
      rw [getElem?_modify]
      cases self.threads[other]? with
      | none => rfl
      | some old =>
        by_cases same : thread = other
        · simp [same]
        · simp [same]

theorem OnlyRes.foldlM
    (returned : slots.foldlM Process.recycleRes self = .ok after) :
    OnlyRes self after := by
  induction slots generalizing self with
  | nil =>
    cases returned
    exact .refl _
  | cons slot rest induction =>
    rw [foldlM_cons] at returned
    obtain ⟨between, recycled, restEq⟩ := bind_eq_ok.mp returned
    exact (OnlyRes.recycleRes recycled).trans (induction restEq)

/-- The end of a process leaves a zombie without tasks and children. -/
theorem exitProcess_eq_ok (returned : self.exitProcess exitCode = .ok after) :
    OnlyRes
      { self with isZombie := true, exitCode, children := [], tasks := [] }
      after := by
  obtain ⟨recycled, foldEq, rest⟩ := bind_eq_ok.mp returned
  cases rest
  have only := OnlyRes.foldlM foldEq
  refine ⟨?_, only.block_eq⟩
  rw [only.rest_eq]

/-- The end of the main thread ends the process. -/
theorem exitCurrent_eq_ok
    (returned : self.exitCurrent thread exitCode = .ok (after, effect)) :
    ∃ tid exited,
      self.curTid thread = .ok tid ∧
        self.exitThread thread exitCode = .ok exited ∧
        effect = ⟨.exited, none⟩ ∧
        ((tid = 0 ∧ exited.exitProcess exitCode = .ok after) ∨
          (tid ≠ 0 ∧ after = exited)) := by
  obtain ⟨tid, tidEq, rest⟩ := bind_eq_ok.mp returned
  obtain ⟨exited, exits, rest⟩ := bind_eq_ok.mp rest
  refine ⟨tid, exited, tidEq, exits, ?_⟩
  split at rest
  · next main =>
      obtain ⟨ended, ends, rest⟩ := bind_eq_ok.mp rest
      cases rest
      exact ⟨rfl, .inl ⟨main, ends⟩⟩
  · next other =>
      cases rest
      exact ⟨rfl, .inr ⟨other, rfl⟩⟩

/-- `sys_waittid` takes the exit code, or changes nothing. -/
theorem sysWaittid_eq_ok
    (returned : self.sysWaittid thread tid = .ok (after, effect)) :
    ∃ curTid,
      self.curTid thread = .ok curTid ∧
        ((after = self ∧ effect = ⟨.returned (-1), none⟩ ∧
            (curTid = tid ∨ self.tasks[tid]? = some none)) ∨
          (curTid ≠ tid ∧
            ∃ waited task,
              self.tasks[tid]? = some (some waited) ∧
                self.threads[waited]? = some task ∧
                ((after = self ∧ effect = ⟨.returned (-2), none⟩ ∧
                    task.exitCode = none) ∨
                  ∃ exitCode,
                    task.exitCode = some exitCode ∧
                      effect = ⟨.returned exitCode, none⟩ ∧
                      after =
                        { self with tasks := self.tasks.set tid none }))) := by
  obtain ⟨curTid, curTidEq, rest⟩ := bind_eq_ok.mp returned
  refine ⟨curTid, curTidEq, ?_⟩
  split at rest
  · next same =>
      cases rest
      exact .inl ⟨rfl, rfl, .inl same⟩
  · next different =>
      obtain ⟨slot, slotEq, rest⟩ := bind_eq_ok.mp rest
      have slotFound := index_eq_ok.mp slotEq
      cases slot with
      | none =>
        cases rest
        exact .inl ⟨rfl, rfl, .inr slotFound⟩
      | some waited =>
        obtain ⟨task, taskEq, rest⟩ := bind_eq_ok.mp rest
        refine .inr ⟨different, waited, task, slotFound,
          index_eq_ok.mp taskEq, ?_⟩
        cases exited : task.exitCode with
        | none =>
          rw [exited] at rest
          cases rest
          exact .inl ⟨rfl, rfl, rfl⟩
        | some exitCode =>
          rw [exited] at rest
          cases rest
          exact .inr ⟨exitCode, rfl, rfl, rfl⟩

end Process

end RCoreOS.Kernel
