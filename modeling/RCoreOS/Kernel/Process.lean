import RCoreOS.Kernel.SemaphoreDetector

/-!
# Processes and the system calls of their threads

`ProcessControlBlockInner` with the system calls of `sync.rs` and `thread.rs`,
the end of a thread and `fork`, as functions on the fields that they use.
Memory, files and signals are left out.

A thread control block is reached through an `Arc`; here it is the position of
the block in `threads`, which never shrinks.  The list `tasks` holds such
positions at the tids of the threads.  The objects of a process are never
removed from their lists, so an `Arc` of an object is its index.

A step is what one thread does from the moment it runs until its call returns
or it is switched out.  Where it was switched out is its `SwitchPoint`; from
there it goes on when it runs again.
-/

namespace RCoreOS.Kernel

open Lib.FallibleRuns List

/-! ## Identifiers -/

/-- `RecycleAllocator`; the vector is a stack with its top at the end. -/
structure RecycleAllocator where
  current : Nat
  recycled : List Nat
  recycled_lt : ∀ id ∈ recycled, id < current
  recycled_nodup : recycled.Nodup
deriving DecidableEq

namespace RecycleAllocator

/-- `RecycleAllocator::new` -/
def new : RecycleAllocator where
  current := 0
  recycled := []
  recycled_lt := nofun
  recycled_nodup := nodup_nil

/-- `RecycleAllocator::alloc` -/
def alloc (self : RecycleAllocator) : Nat × RecycleAllocator :=
  match self.recycled.getLast? with
  | some id =>
    (id,
      { current := self.current
        recycled := self.recycled.dropLast
        recycled_lt := fun id member =>
          self.recycled_lt id (mem_of_mem_dropLast member)
        recycled_nodup := self.recycled_nodup.sublist (dropLast_sublist _) })
  | none =>
    (self.current,
      { self with
        current := self.current + 1
        recycled_lt := fun id member =>
          Nat.lt_succ_of_lt (self.recycled_lt id member) })

/-- `RecycleAllocator::dealloc` -/
def dealloc (self : RecycleAllocator) (id : Nat) :
    Except Stop RecycleAllocator :=
  if live : id < self.current ∧ id ∉ self.recycled then
    .ok
      { current := self.current
        recycled := self.recycled ++ [id]
        recycled_lt := by
          intro other member
          rcases mem_append.mp member with member | member
          · exact self.recycled_lt other member
          · rw [mem_singleton.mp member]
            exact live.1
        recycled_nodup :=
          self.recycled_nodup.append (nodup_singleton id)
            (disjoint_singleton.mpr live.2) }
  else
    .error .panicked

/-- The identifier is handed out and not given back. -/
def InUse (self : RecycleAllocator) (id : Nat) : Prop :=
  id < self.current ∧ id ∉ self.recycled

variable {self after : RecycleAllocator} {id : Nat}

/-- A new identifier is one that was given back last, or the next one. -/
theorem alloc_spec (allocated : self.alloc = (id, after)) :
    ¬ self.InUse id ∧
      (∀ other, after.InUse other ↔ other = id ∨ self.InUse other) ∧
      ((self.recycled.getLast? = some id ∧ after.current = self.current ∧
          self.recycled = after.recycled ++ [id]) ∨
        (self.recycled = [] ∧ id = self.current ∧
          after.current = self.current + 1 ∧ after.recycled = [])) := by
  rw [alloc] at allocated
  split at allocated
  · next last found =>
      cases allocated
      have split : self.recycled = self.recycled.dropLast ++ [id] :=
        (dropLast_append_getLast? _ found).symm
      have member : id ∈ self.recycled := mem_of_getLast? found
      have nodup := self.recycled_nodup
      rw [split, nodup_append] at nodup
      have notLast : id ∉ self.recycled.dropLast := fun inside =>
        nodup.2.2 id inside id (mem_singleton_self id) rfl
      refine ⟨fun inUse => inUse.2 member, fun other => ?_,
        .inl ⟨found, rfl, split⟩⟩
      have memberIff :
          other ∈ self.recycled ↔
            other ∈ self.recycled.dropLast ∨ other = id := by
        rw [split, mem_append, mem_singleton,
          dropLast_append_of_ne_nil (by simp)]
        simp
      rw [InUse, InUse, memberIff]
      constructor
      · rintro ⟨below, absent⟩
        by_cases same : other = id
        · exact .inl same
        · exact .inr ⟨below, fun either => either.elim absent same⟩
      · rintro (rfl | ⟨below, absent⟩)
        · exact ⟨self.recycled_lt other member, notLast⟩
        · exact ⟨below, fun inside => absent (.inl inside)⟩
  · next nothing =>
      cases allocated
      have empty : self.recycled = [] := getLast?_eq_none_iff.mp nothing
      refine ⟨fun inUse => Nat.lt_irrefl _ inUse.1, fun other => ?_,
        .inr ⟨empty, rfl, rfl, empty⟩⟩
      rw [InUse, InUse]
      simp only [empty, not_mem_nil, not_false_eq_true, and_true]
      exact Nat.lt_succ_iff.trans
        (Nat.le_iff_lt_or_eq.trans or_comm)

theorem dealloc_spec (returned : self.dealloc id = .ok after) :
    self.InUse id ∧ after.current = self.current ∧
      after.recycled = self.recycled ++ [id] ∧
      ∀ other, after.InUse other ↔ self.InUse other ∧ other ≠ id := by
  rw [dealloc] at returned
  split at returned
  · next live =>
      cases returned
      refine ⟨live, rfl, rfl, fun other => ?_⟩
      rw [InUse, InUse, mem_append, mem_singleton, not_or, and_assoc]
  · cases returned

theorem dealloc_returns (inUse : self.InUse id) :
    ∃ after, self.dealloc id = .ok after := by
  have live : id < self.current ∧ id ∉ self.recycled := inUse
  rw [dealloc, dif_pos live]
  exact ⟨_, rfl⟩

/--
The identifiers that are handed out are `live`: with those that were given
back they are all up to `current`, each of them once.
-/
def Serves (self : RecycleAllocator) (live : List Nat) : Prop :=
  (live ++ self.recycled).Perm (List.range self.current)

variable {live : List Nat}

theorem Serves.new : RecycleAllocator.new.Serves [] := List.Perm.refl []

section

variable (serves : self.Serves live)

include serves

theorem Serves.lt (member : id ∈ live) :
    id < self.current :=
  mem_range.mp (serves.subset (mem_append_left _ member))

theorem Serves.nodup : live.Nodup :=
  (nodup_append.mp (serves.nodup_iff.mpr nodup_range)).1

/-- A new identifier is not live, and is below any bound on the live ones. -/
theorem Serves.alloc (allocated : self.alloc = (id, after)) :
    after.Serves (live ++ [id]) ∧ id ∉ live ∧
      after.current ≤ max self.current (live.length + 1) := by
  obtain ⟨_, _, taken | fresh⟩ := alloc_spec allocated
  · obtain ⟨_, currentEq, recycledEq⟩ := taken
    have afterServes : after.Serves (live ++ [id]) := by
      have perm := serves
      rw [Serves, recycledEq] at perm
      rw [Serves, currentEq, append_assoc]
      exact (perm_append_comm.append_left live).trans perm
    refine ⟨afterServes, fun member => ?_, by omega⟩
    exact (nodup_append.mp afterServes.nodup).2.2 id member id
      (mem_singleton_self id) rfl
  · obtain ⟨recycledEq, rfl, currentEq, afterEq⟩ := fresh
    have livePerm : live.Perm (List.range self.current) := by
      have perm := serves
      rw [Serves, recycledEq, append_nil] at perm
      exact perm
    have count : live.length = self.current := by
      rw [livePerm.length_eq, length_range]
    refine ⟨?_, fun member => Nat.lt_irrefl _ (serves.lt member), by omega⟩
    rw [Serves, afterEq, append_nil, currentEq, range_succ]
    exact livePerm.append_right _

theorem Serves.dealloc (member : id ∈ live)
    (returned : self.dealloc id = .ok after) :
    after.Serves (live.erase id) ∧ after.current = self.current := by
  obtain ⟨_, currentEq, recycledEq, _⟩ := dealloc_spec returned
  refine ⟨?_, currentEq⟩
  rw [Serves, currentEq, recycledEq, ← append_assoc]
  refine List.Perm.trans ?_ serves
  refine perm_append_comm.trans ?_
  exact (perm_cons_erase member).symm.append_right _

end

end RecycleAllocator

/-! ## Threads and processes -/

/-- Where a thread is switched out, and goes on when it runs again. -/
inductive SwitchPoint where
  -- outside of the kernel, or at the yield of `sys_yield` or of a timer tick
  | user
  -- `sys_mutex_lock`, inside `Mutex::lock`
  | mutexLock (mutexId : Nat)
  -- `sys_semaphore_down`, inside `Semaphore::down`
  | semaphoreDown (semId : Nat)
  -- `sys_condvar_wait`, at `block_current_and_run_next` of `Condvar::wait`
  | condvarWait (condvarId mutexId : Nat)
  -- `sys_condvar_wait`, inside the `Mutex::lock` of `Condvar::wait`
  | condvarLock (mutexId : Nat)
  -- `sys_sleep`
  | sleep
  -- `sys_read` or `sys_write`, in the loop of `File::read` or `File::write`
  | fileTurn
deriving DecidableEq, Repr

/-- `TaskControlBlock`; of `TaskUserRes` only the tid. -/
structure TaskControlBlock where
  res : Option Nat
  exitCode : Option Int
  taskStatus : TaskStatus
  point : SwitchPoint
deriving DecidableEq, Repr

/-- `TaskControlBlock::new` -/
def TaskControlBlock.new (tid : Nat) : TaskControlBlock where
  res := some tid
  exitCode := none
  taskStatus := .ready
  point := .user

/-- `ProcessControlBlockInner`, with the blocks of all its threads. -/
structure Process where
  threads : List TaskControlBlock
  isZombie : Bool
  parent : Option Nat
  children : List Nat
  exitCode : Int
  tasks : List (Option Nat)
  taskResAllocator : RecycleAllocator
  mutexList : List (Option (Mutex Nat))
  semaphoreList : List (Option (Semaphore Nat))
  condvarList : List (Option (Condvar Nat))
  deadlockDetect : Bool
  mutexAvailable : List Usize
  semaphoreAvailable : List Usize
  mutexAllocation : Table
  semaphoreAllocation : Table
  mutexNeed : Table
  semaphoreNeed : Table
deriving DecidableEq

/-- What a thread does when it runs. -/
inductive Action where
  -- it goes on where it was switched out
  | resume
  | yield
  | sleep
  -- a turn in the loop of a file; `waits` when it yields once more
  | fileTurn (waits : Bool)
  | threadCreate
  | exit (exitCode : Int)
  | waittid (tid : Nat)
  | mutexCreate (blocking : Bool)
  | mutexLock (mutexId : Nat)
  | mutexUnlock (mutexId : Nat)
  | semaphoreCreate (resCount : Usize)
  | semaphoreUp (semId : Nat)
  | semaphoreDown (semId : Nat)
  | condvarCreate
  | condvarSignal (condvarId : Nat)
  | condvarWait (condvarId mutexId : Nat)
  | enableDeadlockDetect (enabled : Usize)
deriving DecidableEq, Repr

/-- How a step of a thread ends. -/
inductive Outcome where
  | returned (value : Int)
  | suspended
  | blocked
  | exited
deriving DecidableEq, Repr

/-- The outcome, and the thread that the step puts into the ready queue. -/
structure Effect where
  outcome : Outcome
  readied : Option Nat := none
deriving DecidableEq, Repr

/-- What a step shows: who did what, from where, and how it ended. -/
structure Event where
  thread : Nat
  tid : Nat
  point : SwitchPoint
  action : Action
  effect : Effect
deriving DecidableEq, Repr

/-- `list[id].as_ref().unwrap()` -/
def object {α : Type} (list : List (Option α)) (id : Nat) : Except Stop α := do
  let slot ← index list id
  match slot with
  | some item => return item
  | none => .error .panicked

theorem object_eq_ok {α : Type} {list : List (Option α)} {id : Nat}
    {item : α} :
    object list id = .ok item ↔ list[id]? = some (some item) := by
  simp only [object, bind_eq_ok, index_eq_ok]
  constructor
  · rintro ⟨slot, found, rest⟩
    cases slot with
    | none => cases rest
    | some held =>
      cases rest
      exact found
  · intro found
    exact ⟨some item, found, rfl⟩

/-- The first empty slot of the list, or a new one, takes the object. -/
def fillSlot {α : Type} (list : List (Option α)) (item : α) :
    List (Option α) × Nat :=
  match list.findIdx? Option.isNone with
  | some id => (list.set id (some item), id)
  | none => (list ++ [some item], list.length)

namespace Process

/-- `ProcessControlBlock::new`, with its main thread. -/
def new : Process where
  threads := [.new RecycleAllocator.new.alloc.1]
  isZombie := false
  parent := none
  children := []
  exitCode := 0
  tasks := [some 0]
  taskResAllocator := RecycleAllocator.new.alloc.2
  mutexList := []
  semaphoreList := []
  condvarList := []
  deadlockDetect := false
  mutexAvailable := []
  semaphoreAvailable := []
  mutexAllocation := [[]]
  semaphoreAllocation := [[]]
  mutexNeed := [[]]
  semaphoreNeed := [[]]

/-- The tid in `res` of a thread. -/
def curTid (self : Process) (thread : Nat) : Except Stop Nat := do
  let task ← index self.threads thread
  match task.res with
  | some tid => return tid
  | none => .error .panicked

/-- The thread goes on at the point when it runs again. -/
def switchTo (self : Process) (thread : Nat) (point : SwitchPoint)
    (taskStatus : TaskStatus) : Process :=
  { self with
    threads := self.threads.modify thread fun task =>
      { task with point, taskStatus } }

/-- `wakeup_task` -/
def wakeupTask (self : Process) : Option Nat → Process
  | none => self
  | some thread =>
    { self with
      threads := self.threads.modify thread fun task =>
        { task with taskStatus := .ready } }

/-! ### Threads -/

/-- `sys_thread_create` -/
def sysThreadCreate (self : Process) (thread : Nat) :
    Except Stop (Process × Effect) := do
  let _ ← self.curTid thread
  let tid := self.taskResAllocator.alloc.1
  let newTask := self.threads.length
  let missing := tid + 1 - self.tasks.length
  return (
    { self with
      threads := self.threads ++ [.new tid]
      taskResAllocator := self.taskResAllocator.alloc.2
      tasks :=
        (self.tasks ++ List.replicate missing none).set tid (some newTask)
      mutexAllocation := self.mutexAllocation ++ List.replicate missing []
      mutexNeed := self.mutexNeed ++ List.replicate missing []
      semaphoreAllocation :=
        self.semaphoreAllocation ++ List.replicate missing []
      semaphoreNeed := self.semaphoreNeed ++ List.replicate missing [] },
    ⟨.returned tid, some newTask⟩)

/--
The part of `exit_current_and_run_next` that every thread runs: the exit code
is recorded and the drop of `res` gives the tid back.
-/
def exitThread (self : Process) (thread : Nat) (exitCode : Int) :
    Except Stop Process := do
  let tid ← self.curTid thread
  let taskResAllocator ← self.taskResAllocator.dealloc tid
  return { self with
    taskResAllocator
    threads := self.threads.modify thread fun task =>
      { task with res := none, exitCode := some exitCode } }

/-- `res.take()` of the thread in a slot, and the drop of what was taken. -/
def recycleRes (self : Process) (slot : Option Nat) : Except Stop Process :=
  match slot with
  | none => return self
  | some thread => do
      let task ← index self.threads thread
      match task.res with
      | none => return self
      | some tid =>
        let taskResAllocator ← self.taskResAllocator.dealloc tid
        return { self with
          taskResAllocator
          threads := self.threads.modify thread fun task =>
            { task with res := none } }

/-- The part of `exit_current_and_run_next` that ends the process. -/
def exitProcess (self : Process) (exitCode : Int) : Except Stop Process := do
  let recycled ← self.tasks.foldlM recycleRes
    { self with isZombie := true, exitCode }
  return { recycled with children := [], tasks := [] }

/-- `exit_current_and_run_next`, as far as it changes the process. -/
def exitCurrent (self : Process) (thread : Nat) (exitCode : Int) :
    Except Stop (Process × Effect) := do
  let tid ← self.curTid thread
  let exited ← self.exitThread thread exitCode
  if tid = 0 then
    let ended ← exited.exitProcess exitCode
    return (ended, ⟨.exited, none⟩)
  else
    return (exited, ⟨.exited, none⟩)

/-- `sys_waittid` -/
def sysWaittid (self : Process) (thread tid : Nat) :
    Except Stop (Process × Effect) := do
  let curTid ← self.curTid thread
  if curTid = tid then
    return (self, ⟨.returned (-1), none⟩)
  else
    let slot ← index self.tasks tid
    match slot with
    | none => return (self, ⟨.returned (-1), none⟩)
    | some waited =>
      let task ← index self.threads waited
      match task.exitCode with
      | some exitCode =>
        return ({ self with tasks := self.tasks.set tid none },
          ⟨.returned exitCode, none⟩)
      | none => return (self, ⟨.returned (-2), none⟩)

/-! ### Mutexes -/

/-- `sys_mutex_create` -/
def sysMutexCreate (self : Process) (blocking : Bool) : Process × Effect :=
  let slot := fillSlot self.mutexList (.new blocking)
  ({ self with
      mutexList := slot.1
      mutexAvailable :=
        (padTo (slot.2 + 1) self.mutexAvailable).set slot.2 1 },
    ⟨.returned slot.2, none⟩)

/-- `mutex.lock()`, called at the point. -/
def lockMutex (self : Process) (thread mutexId : Nat) (point : SwitchPoint) :
    Except Stop (Process × Effect) := do
  let mutex ← object self.mutexList mutexId
  let (mutex, progress) ← mutex.lock thread
  let locked := { self with mutexList := self.mutexList.set mutexId mutex }
  match progress with
  | .returned =>
    return (locked.switchTo thread .user .running, ⟨.returned 0, none⟩)
  | .suspended =>
    return (locked.switchTo thread point .ready, ⟨.suspended, none⟩)
  | .blocked =>
    return (locked.switchTo thread point .blocked, ⟨.blocked, none⟩)

/-- The `if process_inner.deadlock_detect` of `sys_mutex_lock`. -/
def detectMutex (self : Process) (need allocation : Table) (mutexId : Nat) :
    Except Stop Bool :=
  if self.deadlockDetect then
    mutexDetect need allocation self.mutexAvailable self.tasks.length mutexId
  else
    return false

/-- `sys_mutex_lock` -/
def sysMutexLock (self : Process) (thread mutexId : Nat) :
    Except Stop (Process × Effect) := do
  let _ ← object self.mutexList mutexId
  let curTid ← self.curTid thread
  let (mutexNeed, mutexAllocation) ←
    requestMutex self.mutexNeed self.mutexAllocation self.tasks.length curTid
      mutexId
  let refuses ← self.detectMutex mutexNeed mutexAllocation mutexId
  if refuses then
    return ({ self with mutexNeed, mutexAllocation },
      ⟨.returned (-0xDEAD), none⟩)
  else
    let mutexAvailable ← modifyAt self.mutexAvailable mutexId (· - 1)
    let mutexAllocation ←
      modifyEntry mutexAllocation curTid mutexId (· + 1)
    let mutexNeed ← modifyEntry mutexNeed curTid mutexId (· - 1)
    lockMutex { self with mutexAvailable, mutexAllocation, mutexNeed } thread
      mutexId (.mutexLock mutexId)

/-- `sys_mutex_unlock` -/
def sysMutexUnlock (self : Process) (thread mutexId : Nat) :
    Except Stop (Process × Effect) := do
  let mutex ← object self.mutexList mutexId
  let curTid ← self.curTid thread
  let mutexAvailable ← modifyAt self.mutexAvailable mutexId (· + 1)
  let mutexAllocation ←
    modifyEntry self.mutexAllocation curTid mutexId (· - 1)
  let (mutex, woken) ← mutex.unlock
  let unlocked :=
    { self with
      mutexAvailable
      mutexAllocation
      mutexList := self.mutexList.set mutexId mutex }
  return (unlocked.wakeupTask woken, ⟨.returned 0, woken⟩)

/-! ### Semaphores -/

/-- `sys_semaphore_create` -/
def sysSemaphoreCreate (self : Process) (resCount : Usize) :
    Except Stop (Process × Effect) := do
  let slot := fillSlot self.semaphoreList (.new resCount)
  let semaphoreAllocation ←
    padRows self.semaphoreAllocation self.tasks.length (slot.2 + 1)
  let semaphoreNeed ←
    padRows self.semaphoreNeed self.tasks.length (slot.2 + 1)
  return (
    { self with
      semaphoreList := slot.1
      semaphoreAvailable :=
        (padTo (slot.2 + 1) self.semaphoreAvailable).set slot.2 resCount
      semaphoreAllocation
      semaphoreNeed },
    ⟨.returned slot.2, none⟩)

/-- `sys_semaphore_up` -/
def sysSemaphoreUp (self : Process) (thread semId : Nat) :
    Except Stop (Process × Effect) := do
  let semaphore ← object self.semaphoreList semId
  let curTid ← self.curTid thread
  let semaphoreAvailable ← modifyAt self.semaphoreAvailable semId (· + 1)
  let padded ← padRow self.semaphoreAllocation curTid (semId + 1)
  let semaphoreAllocation ← modifyEntry padded curTid semId (· - 1)
  let raised :=
    { self with
      semaphoreAvailable
      semaphoreAllocation
      semaphoreList := self.semaphoreList.set semId semaphore.up.1 }
  return (raised.wakeupTask semaphore.up.2, ⟨.returned 0, semaphore.up.2⟩)

/-- The `if process_inner.deadlock_detect` of `sys_semaphore_down`. -/
def detectSemaphore (self : Process) (need : Table) :
    Except Stop (Bool × Table × Table) :=
  if self.deadlockDetect then
    semaphoreDetect need self.semaphoreAllocation self.semaphoreAvailable
      self.tasks.length
  else
    return (false, need, self.semaphoreAllocation)

/-- The tables are updated if there is a unit at once. -/
def takeUnit (self : Process) (curTid semId : Nat) : Except Stop Process := do
  let units ← index self.semaphoreAvailable semId
  if 1 ≤ units then
    let semaphoreAvailable ← modifyAt self.semaphoreAvailable semId (· - 1)
    let padded ← padRow self.semaphoreAllocation curTid (semId + 1)
    let semaphoreAllocation ← modifyEntry padded curTid semId (· + 1)
    let semaphoreNeed ← modifyEntry self.semaphoreNeed curTid semId (· - 1)
    return { self with
      semaphoreAvailable, semaphoreAllocation, semaphoreNeed }
  else
    return self

/-- `sem.down()` -/
def downSemaphore (self : Process) (thread semId : Nat) :
    Except Stop (Process × Effect) := do
  let semaphore ← object self.semaphoreList semId
  let (semaphore, progress) ← semaphore.down thread
  let lowered :=
    { self with semaphoreList := self.semaphoreList.set semId semaphore }
  match progress with
  | .blocked =>
    return (lowered.switchTo thread (.semaphoreDown semId) .blocked,
      ⟨.blocked, none⟩)
  | _ => return (lowered, ⟨.returned 0, none⟩)

/-- `sys_semaphore_down` -/
def sysSemaphoreDown (self : Process) (thread semId : Nat) :
    Except Stop (Process × Effect) := do
  let _ ← object self.semaphoreList semId
  let curTid ← self.curTid thread
  let padded ← padRow self.semaphoreNeed curTid (semId + 1)
  let requested ← modifyEntry padded curTid semId (· + 1)
  let (refuses, semaphoreNeed, semaphoreAllocation) ←
    self.detectSemaphore requested
  if refuses then
    return ({ self with semaphoreNeed, semaphoreAllocation },
      ⟨.returned (-0xDEAD), none⟩)
  else
    let taken ← takeUnit { self with semaphoreNeed, semaphoreAllocation }
      curTid semId
    taken.downSemaphore thread semId

/-! ### Condition variables -/

/-- `sys_condvar_create` -/
def sysCondvarCreate (self : Process) : Process × Effect :=
  let slot := fillSlot self.condvarList .new
  ({ self with condvarList := slot.1 }, ⟨.returned slot.2, none⟩)

/-- `sys_condvar_signal` -/
def sysCondvarSignal (self : Process) (condvarId : Nat) :
    Except Stop (Process × Effect) := do
  let condvar ← object self.condvarList condvarId
  let signalled :=
    { self with
      condvarList := self.condvarList.set condvarId condvar.signal.1 }
  return (signalled.wakeupTask condvar.signal.2,
    ⟨.returned 0, condvar.signal.2⟩)

/-- `sys_condvar_wait`, up to `block_current_and_run_next`. -/
def sysCondvarWait (self : Process) (thread condvarId mutexId : Nat) :
    Except Stop (Process × Effect) := do
  let condvar ← object self.condvarList condvarId
  let mutex ← object self.mutexList mutexId
  let (condvar, mutex, woken) ← condvar.wait mutex thread
  let waiting :=
    { self with
      condvarList := self.condvarList.set condvarId condvar
      mutexList := self.mutexList.set mutexId mutex }
  return (
    (waiting.wakeupTask woken).switchTo thread
      (.condvarWait condvarId mutexId) .blocked,
    ⟨.blocked, woken⟩)

/-- `sys_enable_deadlock_detect` -/
def sysEnableDeadlockDetect (self : Process) (enabled : Usize) :
    Process × Effect :=
  if enabled = 1 then
    ({ self with deadlockDetect := true }, ⟨.returned 0, none⟩)
  else if enabled = 0 then
    ({ self with deadlockDetect := false }, ⟨.returned 0, none⟩)
  else
    (self, ⟨.returned (-1), none⟩)

/-! ### Steps -/

/-- The thread returns from the call it was switched out in. -/
def finishCall (self : Process) (thread : Nat) : Process × Effect :=
  (self.switchTo thread .user .running, ⟨.returned 0, none⟩)

/--
A thread in `Mutex::lock` runs again: a spinning thread tries once more, and
a thread that was woken has been handed the mutex.
-/
def resumeLock (self : Process) (thread mutexId : Nat) (point : SwitchPoint) :
    Except Stop (Process × Effect) := do
  let mutex ← object self.mutexList mutexId
  match mutex with
  | .spin _ => self.lockMutex thread mutexId point
  | .blocking _ => return self.finishCall thread

/-- The thread goes on where it was switched out. -/
def resume (self : Process) (thread : Nat) :
    SwitchPoint → Except Stop (Process × Effect)
  | .user => .error .notRunnable
  | .mutexLock mutexId => self.resumeLock thread mutexId (.mutexLock mutexId)
  | .semaphoreDown _ => return self.finishCall thread
  | .condvarWait _ mutexId =>
    self.lockMutex thread mutexId (.condvarLock mutexId)
  | .condvarLock mutexId =>
    self.resumeLock thread mutexId (.condvarLock mutexId)
  | .sleep => return self.finishCall thread
  | .fileTurn => .error .notRunnable

/-- The thread makes a system call. -/
def syscall (self : Process) (thread : Nat) :
    Action → Except Stop (Process × Effect)
  | .resume => .error .notRunnable
  | .yield => return (self.switchTo thread .user .ready, ⟨.suspended, none⟩)
  | .sleep => return (self.switchTo thread .sleep .blocked, ⟨.blocked, none⟩)
  | .fileTurn _ => .error .notRunnable
  | .threadCreate => self.sysThreadCreate thread
  | .exit exitCode => self.exitCurrent thread exitCode
  | .waittid tid => self.sysWaittid thread tid
  | .mutexCreate blocking => return self.sysMutexCreate blocking
  | .mutexLock mutexId => self.sysMutexLock thread mutexId
  | .mutexUnlock mutexId => self.sysMutexUnlock thread mutexId
  | .semaphoreCreate resCount => self.sysSemaphoreCreate resCount
  | .semaphoreUp semId => self.sysSemaphoreUp thread semId
  | .semaphoreDown semId => self.sysSemaphoreDown thread semId
  | .condvarCreate => return self.sysCondvarCreate
  | .condvarSignal condvarId => self.sysCondvarSignal condvarId
  | .condvarWait condvarId mutexId =>
    self.sysCondvarWait thread condvarId mutexId
  | .enableDeadlockDetect enabled =>
    return self.sysEnableDeadlockDetect enabled

/-- One turn of a thread in a loop of a file. -/
def turnFile (self : Process) (thread : Nat) (waits : Bool) :
    Process × Effect :=
  if waits then
    (self.switchTo thread .fileTurn .ready, ⟨.suspended, none⟩)
  else
    self.finishCall thread

/-- What the thread does at the point. -/
def act (self : Process) (thread : Nat) (point : SwitchPoint)
    (action : Action) : Except Stop (Process × Effect) :=
  match action, point with
  | .resume, point => self.resume thread point
  | .fileTurn waits, .user => return self.turnFile thread waits
  | .fileTurn waits, .fileTurn => return self.turnFile thread waits
  | action, .user => self.syscall thread action
  | _, _ => .error .notRunnable

/--
A thread that can run does something.  The timers belong to the kernel, so a
thread that sleeps can be woken at any time.
-/
def step (self : Process) (move : Nat × Action) :
    Except Stop (Process × Event) :=
  match self.threads[move.1]? with
  | none => .error .notRunnable
  | some task =>
    if self.isZombie = false ∧ task.exitCode = none ∧
        (task.taskStatus ≠ .blocked ∨ task.point = .sleep) then do
      let tid ← self.curTid move.1
      let (after, effect) ← self.act move.1 task.point move.2
      return (after, ⟨move.1, tid, task.point, move.2, effect⟩)
    else
      .error .notRunnable

/-- `ProcessControlBlock::fork`, with the main thread of the child. -/
def fork (self : Process) (parent : Nat) : Except Stop Process :=
  if self.tasks.length = 1 then
    return {
      threads := [.new RecycleAllocator.new.alloc.1]
      isZombie := false
      parent := some parent
      children := []
      exitCode := 0
      tasks := [some 0]
      taskResAllocator := RecycleAllocator.new.alloc.2
      mutexList := []
      semaphoreList := []
      condvarList := []
      deadlockDetect := self.deadlockDetect
      mutexAvailable := self.mutexAvailable
      semaphoreAvailable := self.semaphoreAvailable
      mutexAllocation := self.mutexAllocation
      semaphoreAllocation := self.semaphoreAllocation
      mutexNeed := self.mutexNeed
      semaphoreNeed := self.semaphoreNeed }
  else
    .error .panicked

end Process

end RCoreOS.Kernel
