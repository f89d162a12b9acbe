import RCoreOS.Kernel.DetectorVerdicts
import RCoreOS.Kernel.WaitQueues

/-!
# The tables of the semaphores against the semaphores

`sys_semaphore_down` enters a unit as held only when there is one at once.  A
thread that has to wait is handed its unit by an `up` of another thread, which
counts that unit as free; nothing is entered for the thread that gets it.  A
request that the detector refuses stays in the need table.

The tables are right in every run in which no `up` finds a waiting thread and
no request is refused.
-/

namespace RCoreOS.Kernel

open Lib.FallibleRuns Lib.SafeStates List

/-! ## What the history says -/

/-- The step completes a `down` of the thread, at once or after a wait. -/
def completes (thread semId : Nat) (event : Event) : Bool :=
  event.thread == thread && event.effect.outcome == .returned 0 &&
    (event.action == .semaphoreDown semId ||
      (event.action == .resume && event.point == .semaphoreDown semId))

/-- The step is an `up` of the thread. -/
def raises (thread semId : Nat) (event : Event) : Bool :=
  event.thread == thread && event.action == .semaphoreUp semId

/-- The units of a thread: the downs it has completed minus its ups. -/
def held (events : List Event) (thread semId : Nat) : Int :=
  events.countP (completes thread semId) - events.countP (raises thread semId)

/-- The semaphore was created with that many units. -/
def Created (events : List Event) (semId : Nat) (resCount : Usize) : Prop :=
  ∃ event ∈ events,
    event.action = .semaphoreCreate resCount ∧
      event.effect.outcome = .returned semId

theorem held_concat (events : List Event) (event : Event)
    (thread semId : Nat) :
    held (events ++ [event]) thread semId =
      held events thread semId +
        ((if completes thread semId event then 1 else 0) -
          if raises thread semId event then 1 else 0) := by
  simp only [held, countP_append, countP_singleton]
  push_cast
  omega

variable {events : List Event} {event : Event}

/-- A step of another kind changes nobody's units. -/
theorem held_concat_of_not
    (notDown : ∀ semId, event.action ≠ .semaphoreDown semId)
    (notResumed :
      event.action = .resume → ∀ semId, event.point ≠ .semaphoreDown semId)
    (notUp : ∀ semId, event.action ≠ .semaphoreUp semId) :
    held (events ++ [event]) = held events := by
  funext thread semId
  have notCompletes : completes thread semId event = false := by
    simp only [completes, Bool.and_eq_false_iff, Bool.or_eq_false_iff,
      beq_eq_false_iff_ne]
    refine .inr ⟨notDown semId, ?_⟩
    by_cases resumes : event.action = .resume
    · exact .inr (notResumed resumes semId)
    · exact .inl resumes
  have notRaises : raises thread semId event = false := by
    simp only [raises, Bool.and_eq_false_iff, beq_eq_false_iff_ne]
    exact .inr (notUp semId)
  rw [held_concat, notCompletes, notRaises]
  simp

theorem created_concat {semId : Nat} {resCount : Usize} :
    Created (events ++ [event]) semId resCount ↔
      Created events semId resCount ∨
        (event.action = .semaphoreCreate resCount ∧
          event.effect.outcome = .returned semId) := by
  simp only [Created, mem_append, mem_singleton]
  constructor
  · rintro ⟨other, member | rfl, both⟩
    · exact .inl ⟨other, member, both⟩
    · exact .inr both
  · rintro (⟨other, member, both⟩ | both)
    · exact ⟨other, .inl member, both⟩
    · exact ⟨event, .inr rfl, both⟩

theorem created_concat_of_not
    (notCreate : ∀ resCount, event.action ≠ .semaphoreCreate resCount) :
    Created (events ++ [event]) = Created events := by
  funext semId resCount
  rw [eq_iff_iff, created_concat]
  exact or_iff_left fun both => notCreate resCount both.1

namespace Process

variable {self after : Process} {thread : Nat} {events : List Event}
  {event : Event}

/-! ## What the tables should say -/

/-- The units that are free and those that threads hold, by the tables. -/
def tableUnits (self : Process) (semId : Nat) : Nat :=
  (self.semaphoreAvailable.getD semId 0).toNat +
    ∑ tid ∈ Finset.range self.tasks.length,
      (entry self.semaphoreAllocation tid semId).toNat

/--
The steps in question: no thread exits, threads give back units that they
hold, and new semaphores have fewer than `isize::MAX` units.
-/
def SharesSemaphores (events : List Event) (move : Nat × Action) : Prop :=
  match move.2 with
  | .semaphoreCreate resCount => resCount.toNat < 2 ^ 63 - 1
  | .semaphoreUp semId => 0 < held events move.1 semId
  | .exit _ => False
  | _ => True

/-- The threads that wait in a semaphore. -/
def semaphoreQueue (self : Process) (semId : Nat) : List Nat :=
  match self.semaphoreList[semId]? with
  | some (some semaphore) => semaphore.waitQueue
  | _ => []

/-- No `up` wakes a thread, and every request leaves a safe order. -/
def WakesNobody (self : Process) (move : Nat × Action) : Prop :=
  match move.2 with
  | .semaphoreUp semId => self.semaphoreQueue semId = []
  | .semaphoreDown semId =>
    self.deadlockDetect = true →
      ∀ tid, self.curTid move.1 = .ok tid →
        ∃ order, (self.semaphoreRequest tid semId).SafeOrder order
  | _ => True

variable {semId : Nat}

theorem semaphoreQueue_eq {semaphore : Semaphore Nat}
    (found : self.semaphoreList[semId]? = some (some semaphore)) :
    self.semaphoreQueue semId = semaphore.waitQueue := by
  rw [semaphoreQueue, found]

theorem semaphoreQueue_of_vacant
    (vacant : ∀ semaphore, self.semaphoreList[semId]? ≠ some (some semaphore)) :
    self.semaphoreQueue semId = [] := by
  rw [semaphoreQueue]
  split
  · next semaphore found => exact absurd found (vacant semaphore)
  · rfl

theorem mem_waiting_of_semaphoreQueue
    (member : thread ∈ self.semaphoreQueue semId) : thread ∈ self.waiting := by
  rw [semaphoreQueue] at member
  split at member
  · next semaphore found =>
      refine mem_append_right _ (mem_append_left _ ?_)
      exact mem_flatMap.mpr
        ⟨some semaphore, mem_of_getElem? found, member⟩
  · cases member

/-! ## The invariant -/

/-- The tables of a process in which nobody was woken in a semaphore. -/
structure Settled (process : Process) (events : List Event) : Prop where
  reached : Reached process
  lives : process.isZombie = false
  placed : process.Placed
  listed :
    ∀ {semId : Nat}, semId < process.semaphoreAvailable.length →
      ∃ semaphore, process.semaphoreList[semId]? = some (some semaphore)
  created :
    ∀ {semId : Nat} {semaphore : Semaphore Nat},
      process.semaphoreList[semId]? = some (some semaphore) →
        ∃ resCount, Created events semId resCount
  balanced :
    ∀ {semId : Nat} {semaphore : Semaphore Nat},
      process.semaphoreList[semId]? = some (some semaphore) →
        semaphore.Balanced
  available_eq :
    ∀ {semId : Nat} {semaphore : Semaphore Nat},
      process.semaphoreList[semId]? = some (some semaphore) →
        ((process.semaphoreAvailable.getD semId 0).toNat : Int) =
          max semaphore.count.toInt 0
  allocation_eq :
    ∀ {thread tid : Nat}, process.curTid thread = .ok tid →
      ∀ semId, ((entry process.semaphoreAllocation tid semId).toNat : Int) =
        held events thread semId
  need_eq :
    ∀ {thread tid : Nat}, process.curTid thread = .ok tid →
      ∀ semId, entry process.semaphoreNeed tid semId =
        if thread ∈ process.semaphoreQueue semId then 1 else 0
  unused :
    ∀ {tid : Nat}, (∀ thread, process.curTid thread ≠ .ok tid) →
      ∀ semId, entry process.semaphoreAllocation tid semId = 0 ∧
        entry process.semaphoreNeed tid semId = 0
  vacant :
    ∀ {semId : Nat},
      (∀ semaphore, process.semaphoreList[semId]? ≠ some (some semaphore)) →
        ∀ tid, entry process.semaphoreAllocation tid semId = 0
  units_eq :
    ∀ {semId : Nat} {resCount : Usize}, Created events semId resCount →
      (∃ semaphore, process.semaphoreList[semId]? = some (some semaphore)) ∧
        resCount.toNat < 2 ^ 63 - 1 ∧
        process.tableUnits semId = resCount.toNat
  points :
    ∀ {thread semId : Nat} {task : TaskControlBlock},
      process.threads[thread]? = some task →
        task.point = .semaphoreDown semId →
          thread ∈ process.semaphoreQueue semId
  fresh :
    ∀ {thread : Nat}, process.threads[thread]? = none →
      ∀ semId, held events thread semId = 0

theorem Settled.new : Settled .new [] := by
  have zero : ∀ tid semId, entry [[]] tid semId = 0 := by
    intro tid semId
    cases tid <;> rfl
  refine ⟨.new, rfl, .new, nofun, nofun, nofun, nofun, ?_, ?_, ?_, ?_, ?_, ?_,
    fun _ _ => rfl⟩
  · intro thread tid _ semId
    rw [show Process.new.semaphoreAllocation = [[]] from rfl, zero]
    rfl
  · intro thread tid _ semId
    rw [show Process.new.semaphoreNeed = [[]] from rfl, zero]
    rfl
  · intro tid _ semId
    exact ⟨zero tid semId, zero tid semId⟩
  · intro semId _ tid
    exact zero tid semId
  · rintro semId resCount ⟨_, member, _⟩
    cases member
  · intro thread semId task found atDown
    cases thread with
    | zero =>
      cases found
      cases atDown
    | succ other => cases found

variable {task : TaskControlBlock} {tid : Nat}

section

variable (settled : Settled self events) (runs : self.Runs thread task tid)

include settled runs

/-- A thread that waits in a semaphore is never run. -/
theorem Settled.not_down
    (semId : Nat) : task.point ≠ .semaphoreDown semId := by
  intro atDown
  have member :=
    mem_waiting_of_semaphoreQueue (settled.points runs.found atDown)
  obtain ⟨same, found, waits⟩ := settled.placed.waits member
  rw [runs.found] at found
  cases found
  exact runs.not_waits waits

/-- A thread that runs waits in no semaphore. -/
theorem Settled.not_queued
    (semId : Nat) : thread ∉ self.semaphoreQueue semId := by
  intro member
  obtain ⟨same, found, waits⟩ :=
    settled.placed.waits (mem_waiting_of_semaphoreQueue member)
  rw [runs.found] at found
  cases found
  exact runs.not_waits waits

end

/-! ## Steps -/

variable {task : TaskControlBlock} {tid : Nat} {action : Action}
  {effect : Effect}

/-- The part of the invariant that does not depend on the semaphores. -/
structure Continues (before after : Process) : Prop where
  reached : Reached after
  lives : after.isZombie = false
  placed : after.Placed
  tids_iff :
    ∀ {thread tid : Nat},
      after.curTid thread = .ok tid ↔ before.curTid thread = .ok tid
  tasks_length : after.tasks.length = before.tasks.length
  absent :
    ∀ {thread : Nat}, after.threads[thread]? = none →
      before.threads[thread]? = none

theorem Settled.continues (settled : Settled self events)
    (runs : self.Runs thread task tid)
    (acted : self.act thread task.point action = .ok (after, effect))
    (reached : Reached after) (notExit : ∀ exitCode, action ≠ .exit exitCode)
    (notCreate : action ≠ .threadCreate) : Continues self after := by
  have keeps := KeepsTids.act notExit runs.curTid acted
  have length := (Moved.act runs acted).length_eq notCreate
  have absent :
      ∀ {other : Nat}, after.threads[other]? = none →
        self.threads[other]? = none := by
    intro other none
    rw [List.getElem?_eq_none_iff] at none ⊢
    omega
  exact ⟨reached, keeps.zombie_eq.trans settled.lives,
    settled.placed.act runs acted, keeps.curTid_iff notCreate,
    keeps.tasks_length notCreate, absent⟩

variable {other semId : Nat} {semaphore old : Semaphore Nat}

/-- A thread stays in the queue of the semaphore in which it blocked. -/
theorem Settled.points_step (settled : Settled self events)
    (runs : self.Runs thread task tid)
    (acted : self.act thread task.point action = .ok (after, effect))
    (notExit : ∀ exitCode, action ≠ .exit exitCode)
    (stays :
      ∀ {other semId : Nat}, other ∈ self.semaphoreQueue semId →
        other ∈ after.semaphoreQueue semId)
    (joins :
      ∀ semId, action = .semaphoreDown semId →
        (∀ value, effect.outcome ≠ .returned value) →
          thread ∈ after.semaphoreQueue semId) {last : TaskControlBlock}
    (found : after.threads[other]? = some last)
    (atDown : last.point = .semaphoreDown semId) :
    other ∈ after.semaphoreQueue semId := by
  rcases (Moved.act runs acted).point_cases notExit found with
    atUser | ⟨rfl, notReturned, pointEq⟩ | ⟨first, firstFound, pointEq⟩
  · rw [atUser] at atDown
    cases atDown
  · have before := settled.not_down runs
    rw [atDown] at pointEq
    cases action with
    | semaphoreDown id =>
      cases pointEq
      exact joins semId rfl notReturned
    | resume =>
      cases pointCase : task.point with
      | semaphoreDown id => exact absurd pointCase (before id)
      | _ =>
        rw [pointCase] at pointEq
        cases pointEq
    | mutexLock mutexId => cases pointEq
    | condvarWait condvarId mutexId => cases pointEq
    | yield => cases pointEq
    | sleep => cases pointEq
    | fileTurn waits => cases pointEq
    | _ => exact absurd pointEq.symm (before semId)
  · exact stays (settled.points firstFound (pointEq ▸ atDown))

/-- What a step does to one semaphore, and to the tables for one thread. -/
structure Updates (before after : Process) (events : List Event)
    (event : Event) (thread tid semId : Nat) (units : Int) : Prop where
  listed :
    ∀ other : Nat,
      (∃ semaphore, after.semaphoreList[other]? = some (some semaphore)) ↔
        ∃ semaphore, before.semaphoreList[other]? = some (some semaphore)
  present :
    units ≠ 0 →
      ∃ semaphore, before.semaphoreList[semId]? = some (some semaphore)
  length_eq :
    after.semaphoreAvailable.length = before.semaphoreAvailable.length
  balanced :
    ∀ {other : Nat} {semaphore : Semaphore Nat},
      after.semaphoreList[other]? = some (some semaphore) →
        semaphore.Balanced ∧
          ((after.semaphoreAvailable.getD other 0).toNat : Int) =
            max semaphore.count.toInt 0
  available_change :
    ∀ other,
      ((after.semaphoreAvailable.getD other 0).toNat : Int) =
        (before.semaphoreAvailable.getD other 0).toNat -
          if other = semId then units else 0
  allocation_change :
    ∀ otherTid other,
      ((entry after.semaphoreAllocation otherTid other).toNat : Int) =
        (entry before.semaphoreAllocation otherTid other).toNat +
          if otherTid = tid ∧ other = semId then units else 0
  held_change :
    ∀ otherThread other,
      held (events ++ [event]) otherThread other =
        held events otherThread other +
          if otherThread = thread ∧ other = semId then units else 0
  need_change :
    ∀ otherTid other,
      entry after.semaphoreNeed otherTid other =
        if otherTid = tid ∧ other = semId then
          (if thread ∈ after.semaphoreQueue semId then 1 else 0)
        else entry before.semaphoreNeed otherTid other
  queue_iff :
    ∀ {otherThread other : Nat}, ¬ (otherThread = thread ∧ other = semId) →
      (otherThread ∈ after.semaphoreQueue other ↔
        otherThread ∈ before.semaphoreQueue other)
  created_eq : Created (events ++ [event]) = Created events

variable {units : Int} {resCount : Usize}

theorem Updates.tableUnits_eq (continues : Continues self after)
    (inside : tid < self.tasks.length)
    (updates : Updates self after events event thread tid semId units)
    (other : Nat) : after.tableUnits other = self.tableUnits other := by
  have sums :
      ((∑ otherTid ∈ Finset.range self.tasks.length,
          (entry after.semaphoreAllocation otherTid other).toNat : Nat) :
          Int) =
        (∑ otherTid ∈ Finset.range self.tasks.length,
          (entry self.semaphoreAllocation otherTid other).toNat : Nat) +
          if other = semId then units else 0 := by
    push_cast
    rw [Finset.sum_congr rfl fun otherTid _ =>
      updates.allocation_change otherTid other, Finset.sum_add_distrib]
    congr 1
    by_cases same : other = semId
    · simp only [same, and_true, if_true]
      rw [Finset.sum_ite_eq', if_pos (Finset.mem_range.mpr inside)]
    · simp only [same, and_false, if_false, Finset.sum_const_zero]
  have available := updates.available_change other
  rw [tableUnits, tableUnits, continues.tasks_length]
  omega

section

variable (settled : Settled self events)

include settled

theorem Settled.update
    (runs : self.Runs thread task tid) (continues : Continues self after)
    (updates : Updates self after events event thread tid semId units)
    (points :
      ∀ {thread semId : Nat} {task : TaskControlBlock},
        after.threads[thread]? = some task →
          task.point = .semaphoreDown semId →
            thread ∈ after.semaphoreQueue semId) :
    Settled after (events ++ [event]) := by
  have own := runs.curTid
  have numbered := settled.reached.numbered settled.lives
  have unique :
      ∀ {other otherTid : Nat}, self.curTid other = .ok otherTid →
        (otherTid = tid ↔ other = thread) := by
    intro other otherTid otherOwn
    constructor
    · rintro rfl
      obtain ⟨_, found, res⟩ := curTid_eq_ok.mp otherOwn
      exact numbered.thread_unique found res runs.found runs.res_eq
    · rintro rfl
      rw [own] at otherOwn
      cases otherOwn
      rfl
  refine
    { reached := continues.reached
      lives := continues.lives
      placed := continues.placed
      listed := ?_
      created := ?_
      balanced := fun found => (updates.balanced found).1
      available_eq := fun found => (updates.balanced found).2
      allocation_eq := ?_
      need_eq := ?_
      unused := ?_
      vacant := ?_
      units_eq := ?_
      points := points
      fresh := ?_ }
  · intro other inside
    rw [updates.length_eq] at inside
    exact (updates.listed other).mpr (settled.listed inside)
  · intro other semaphore found
    rw [updates.created_eq]
    obtain ⟨_, before⟩ := (updates.listed other).mp ⟨semaphore, found⟩
    exact settled.created before
  · intro other otherTid otherOwn otherId
    have before := continues.tids_iff.mp otherOwn
    rw [updates.allocation_change, updates.held_change,
      settled.allocation_eq before]
    simp only [unique before]
  · intro other otherTid otherOwn otherId
    have before := continues.tids_iff.mp otherOwn
    rw [updates.need_change]
    split
    · next both => rw [(unique before).mp both.1, both.2]
    · next notBoth =>
        rw [unique before] at notBoth
        rw [settled.need_eq before]
        simp only [updates.queue_iff notBoth]
  · intro otherTid nobody otherId
    have before : ∀ other, self.curTid other ≠ .ok otherTid :=
      fun other otherOwn => nobody other (continues.tids_iff.mpr otherOwn)
    have different : ¬ (otherTid = tid ∧ otherId = semId) := by
      rintro ⟨rfl, _⟩
      exact before thread own
    have allocation := updates.allocation_change otherTid otherId
    obtain ⟨zero, needZero⟩ := settled.unused before otherId
    rw [if_neg different, zero] at allocation
    rw [updates.need_change, if_neg different]
    refine ⟨BitVec.eq_of_toNat_eq ?_, needZero⟩
    simpa using allocation
  · intro otherId vacant otherTid
    have before :
        ∀ semaphore, self.semaphoreList[otherId]? ≠ some (some semaphore) := by
      intro semaphore found
      obtain ⟨last, lastFound⟩ :=
        (updates.listed otherId).mpr ⟨semaphore, found⟩
      exact vacant last lastFound
    have allocation := updates.allocation_change otherTid otherId
    have nothing : (if otherTid = tid ∧ otherId = semId then units else 0) =
        0 := by
      split
      · next both =>
          by_contra some
          obtain ⟨semaphore, found⟩ := updates.present some
          exact before semaphore (both.2 ▸ found)
      · rfl
    rw [nothing, settled.vacant before] at allocation
    refine BitVec.eq_of_toNat_eq ?_
    simpa using allocation
  · intro otherId resCount created
    rw [updates.created_eq] at created
    obtain ⟨present, small, unitsEq⟩ := settled.units_eq created
    refine ⟨(updates.listed otherId).mpr present, small, ?_⟩
    rw [updates.tableUnits_eq continues (numbered.tid_lt own)]
    exact unitsEq
  · intro other none otherId
    have absent := continues.absent none
    rw [updates.held_change, settled.fresh absent, if_neg]
    · rfl
    · rintro ⟨rfl, _⟩
      rw [runs.found] at absent
      cases absent

/-- A step that leaves the semaphores and their tables alone. -/
theorem Settled.unchanged
    (own : self.curTid thread = .ok tid) (frame : SemaphoreFrame self after)
    (heldEq : held (events ++ [event]) = held events)
    (createdEq : Created (events ++ [event]) = Created events) :
    Updates self after events event thread tid 0 0 := by
  have queue : after.semaphoreQueue = self.semaphoreQueue := by
    funext semId
    rw [semaphoreQueue, frame.list_eq, semaphoreQueue]
  refine
    { listed := fun other => by rw [frame.list_eq]
      present := absurd rfl
      length_eq := by rw [frame.available_eq]
      balanced := ?_
      available_change := ?_
      allocation_change := ?_
      held_change := ?_
      need_change := ?_
      queue_iff := fun _ => by rw [queue]
      created_eq := createdEq }
  · intro other semaphore found
    rw [frame.list_eq] at found
    rw [frame.available_eq]
    exact ⟨settled.balanced found, settled.available_eq found⟩
  · intro other
    rw [frame.available_eq, ite_self, Int.sub_zero]
  · intro otherTid other
    rw [frame.allocation_eq, ite_self, Int.add_zero]
  · intro otherThread other
    rw [heldEq, ite_self, Int.add_zero]
  · intro otherTid other
    rw [frame.need_eq, queue]
    split
    · next both =>
        rw [both.1, both.2]
        exact settled.need_eq own 0
    · rfl

theorem Settled.sysThreadCreate
    (reached : Reached after) (placed : after.Placed)
    (points :
      ∀ {thread semId : Nat} {task : TaskControlBlock},
        after.threads[thread]? = some task →
          task.point = .semaphoreDown semId →
            thread ∈ after.semaphoreQueue semId)
    (heldEq : held (events ++ [event]) = held events)
    (createdEq : Created (events ++ [event]) = Created events)
    (returned : self.sysThreadCreate thread = .ok (after, effect)) :
    Settled after (events ++ [event]) := by
  obtain ⟨newTid, allocator, allocated, rfl, rfl⟩ :=
    sysThreadCreate_eq_ok returned
  have numbered := settled.reached.numbered settled.lives
  have notInUse := (RecycleAllocator.alloc_spec allocated).1
  have newUnused : ∀ other, self.curTid other ≠ .ok newTid := by
    intro other otherOwn
    obtain ⟨_, found, res⟩ := curTid_eq_ok.mp otherOwn
    exact notInUse (numbered.live found res).2
  have tids :
      ∀ {other otherTid : Nat},
        curTid { self with threads := self.threads ++ [.new newTid] } other =
            .ok otherTid →
          self.curTid other = .ok otherTid ∨
            (self.threads[other]? = none ∧ otherTid = newTid) := by
    intro other otherTid otherOwn
    obtain ⟨_, found, res⟩ := curTid_eq_ok.mp otherOwn
    rcases getElem?_concat_eq_some.mp found with old | ⟨rfl, rfl⟩
    · exact .inl (curTid_eq_ok.mpr ⟨_, old, res⟩)
    · cases res
      exact .inr ⟨getElem?_eq_none (Nat.le_refl _), rfl⟩
  have keeps :
      ∀ {other otherTid : Nat}, self.curTid other = .ok otherTid →
        curTid { self with threads := self.threads ++ [.new newTid] } other =
          .ok otherTid := by
    intro other otherTid otherOwn
    obtain ⟨task, found, res⟩ := curTid_eq_ok.mp otherOwn
    exact curTid_eq_ok.mpr
      ⟨task, getElem?_concat_eq_some.mpr (.inl found), res⟩
  refine
    { reached := reached
      lives := settled.lives
      placed := placed
      listed := settled.listed
      created := by rw [createdEq]; exact settled.created
      balanced := settled.balanced
      available_eq := settled.available_eq
      allocation_eq := ?_
      need_eq := ?_
      unused := ?_
      vacant := ?_
      units_eq := ?_
      points := points
      fresh := ?_ }
  · intro other otherTid otherOwn semId
    rw [heldEq, entry_append_empty]
    rcases tids otherOwn with before | ⟨absent, rfl⟩
    · exact settled.allocation_eq before semId
    · rw [(settled.unused newUnused semId).1, settled.fresh absent]
      rfl
  · intro other otherTid otherOwn semId
    rw [entry_append_empty]
    rcases tids otherOwn with before | ⟨absent, rfl⟩
    · exact settled.need_eq before semId
    · rw [(settled.unused newUnused semId).2, if_neg]
      intro member
      obtain ⟨task, found, _⟩ :=
        settled.placed.waits (mem_waiting_of_semaphoreQueue member)
      rw [absent] at found
      cases found
  · intro otherTid nobody semId
    rw [entry_append_empty, entry_append_empty]
    exact settled.unused (fun other own => nobody other (keeps own)) semId
  · intro semId vacant otherTid
    rw [entry_append_empty]
    exact settled.vacant vacant otherTid
  · intro semId resCount created
    rw [createdEq] at created
    obtain ⟨present, small, unitsEq⟩ := settled.units_eq created
    refine ⟨present, small, Eq.trans ?_ unitsEq⟩
    rw [tableUnits, tableUnits, entry_append_empty]
    congr 1
    -- the new rows are rows of zeros
    refine (Finset.sum_subset ?_ fun otherTid _ outside => ?_).symm
    · refine Finset.range_mono ?_
      rw [length_set, length_append]
      omega
    · rw [(settled.unused (fun other own => ?_) semId).1]
      · rfl
      · exact outside (Finset.mem_range.mpr (numbered.tid_lt own))
  · intro other none semId
    rw [heldEq]
    refine settled.fresh ?_ semId
    rw [List.getElem?_eq_none_iff] at none ⊢
    rw [length_append] at none
    omega

end

/-- What `sys_semaphore_create` does to the semaphores and their tables. -/
theorem sysSemaphoreCreate_spec
    (returned : self.sysSemaphoreCreate resCount = .ok (after, effect)) :
    ∃ semId : Nat,
      effect = ⟨.returned semId, none⟩ ∧
        (∀ semaphore, self.semaphoreList[semId]? ≠ some (some semaphore)) ∧
        after.semaphoreList[semId]? = some (some (.new resCount)) ∧
        (∀ other ≠ semId,
          after.semaphoreList[other]? = self.semaphoreList[other]?) ∧
        (∀ other < semId,
          ∃ semaphore, self.semaphoreList[other]? = some (some semaphore)) ∧
        after.semaphoreAvailable.length =
          max self.semaphoreAvailable.length (semId + 1) ∧
        (∀ other,
          after.semaphoreAvailable.getD other 0 =
            if other = semId then resCount
            else self.semaphoreAvailable.getD other 0) ∧
        entry after.semaphoreAllocation = entry self.semaphoreAllocation ∧
        entry after.semaphoreNeed = entry self.semaphoreNeed := by
  obtain ⟨allocation, allocationEq, rest⟩ := bind_eq_ok.mp returned
  obtain ⟨need, needEq, rest⟩ := bind_eq_ok.mp rest
  cases rest
  obtain ⟨vacant, filled, others⟩ :=
    fillSlot_spec self.semaphoreList (Semaphore.new resCount)
  have room :
      (fillSlot self.semaphoreList (Semaphore.new resCount)).2 <
        (padTo ((fillSlot self.semaphoreList (Semaphore.new resCount)).2 + 1)
          self.semaphoreAvailable).length := by
    rw [length_padTo]
    omega
  refine ⟨_, rfl, vacant, filled, others, fun _ => fillSlot_full, ?_,
    fun other => ?_, (padRows_spec allocationEq).1, (padRows_spec needEq).1⟩
  · rw [length_set, length_padTo]
  · have value := getD_set room resCount 0 other
    rw [getD_padTo] at value
    exact value

theorem Settled.sysSemaphoreCreate
    (settled : Settled self events) (continues : Continues self after)
    (small : resCount.toNat < 2 ^ 63 - 1)
    (points :
      ∀ {thread semId : Nat} {task : TaskControlBlock},
        after.threads[thread]? = some task →
          task.point = .semaphoreDown semId →
            thread ∈ after.semaphoreQueue semId)
    (heldEq : held (events ++ [event]) = held events)
    (isCreate : event.action = .semaphoreCreate resCount)
    (isEffect : event.effect = effect)
    (returned : self.sysSemaphoreCreate resCount = .ok (after, effect)) :
    Settled after (events ++ [event]) := by
  obtain ⟨semId, rfl, vacant, filled, others, full, lengthEq, available,
    allocation, need⟩ := sysSemaphoreCreate_spec returned
  have find :
      ∀ {other : Nat} {semaphore : Semaphore Nat},
        after.semaphoreList[other]? = some (some semaphore) →
          (other = semId ∧ semaphore = .new resCount) ∨
            (other ≠ semId ∧
              self.semaphoreList[other]? = some (some semaphore)) := by
    intro other semaphore found
    by_cases same : other = semId
    · subst same
      have equal := filled.symm.trans found
      cases equal
      exact .inl ⟨rfl, rfl⟩
    · exact .inr ⟨same, (others other same).symm.trans found⟩
  have present :
      ∀ {other : Nat},
        (∃ semaphore, self.semaphoreList[other]? = some (some semaphore)) →
          ∃ semaphore, after.semaphoreList[other]? = some (some semaphore) := by
    rintro other ⟨semaphore, found⟩
    have different : other ≠ semId := by
      rintro rfl
      exact vacant semaphore found
    exact ⟨semaphore, (others other different).trans found⟩
  have queue : after.semaphoreQueue = self.semaphoreQueue := by
    funext other
    by_cases same : other = semId
    · subst same
      rw [semaphoreQueue_eq filled, semaphoreQueue_of_vacant vacant]
      rfl
    · rw [semaphoreQueue, others other same, semaphoreQueue]
  have newCreated : Created (events ++ [event]) semId resCount :=
    created_concat.mpr (.inr ⟨isCreate, by rw [isEffect]⟩)
  have oldCreated :
      ∀ {other : Nat} {count : Usize},
        Created (events ++ [event]) other count →
          Created events other count ∨ (other = semId ∧ count = resCount) := by
    intro other count created
    rcases created_concat.mp created with before | ⟨creates, outcome⟩
    · exact .inl before
    · rw [isCreate] at creates
      rw [isEffect] at outcome
      cases creates
      exact .inr ⟨(Int.ofNat.inj (Outcome.returned.inj outcome)).symm, rfl⟩
  refine
    { reached := continues.reached
      lives := continues.lives
      placed := continues.placed
      listed := ?_
      created := ?_
      balanced := ?_
      available_eq := ?_
      allocation_eq := ?_
      need_eq := ?_
      unused := ?_
      vacant := ?_
      units_eq := ?_
      points := points
      fresh := ?_ }
  · intro other inside
    by_cases same : other = semId
    · exact ⟨_, same ▸ filled⟩
    · refine present ?_
      by_cases before : other < self.semaphoreAvailable.length
      · exact settled.listed before
      · exact full other (by omega)
  · intro other semaphore found
    rcases find found with ⟨rfl, _⟩ | ⟨_, before⟩
    · exact ⟨resCount, newCreated⟩
    · obtain ⟨count, created⟩ := settled.created before
      exact ⟨count, created_concat.mpr (.inl created)⟩
  · intro other semaphore found
    rcases find found with ⟨_, rfl⟩ | ⟨_, before⟩
    · exact (Semaphore.Balanced.new (by omega)).1
    · exact settled.balanced before
  · intro other semaphore found
    rw [available]
    rcases find found with ⟨rfl, rfl⟩ | ⟨different, before⟩
    · rw [if_pos rfl, (Semaphore.Balanced.new (by omega)).2]
      omega
    · rw [if_neg different]
      exact settled.available_eq before
  · intro thread tid own other
    rw [allocation, heldEq]
    exact settled.allocation_eq (continues.tids_iff.mp own) other
  · intro thread tid own other
    rw [need, queue]
    exact settled.need_eq (continues.tids_iff.mp own) other
  · intro tid nobody other
    rw [allocation, need]
    exact settled.unused
      (fun thread own => nobody thread (continues.tids_iff.mpr own)) other
  · intro other afterVacant tid
    rw [allocation]
    refine settled.vacant (fun semaphore found => ?_) tid
    obtain ⟨last, lastFound⟩ := present ⟨semaphore, found⟩
    exact afterVacant last lastFound
  · intro other count created
    rcases oldCreated created with before | ⟨rfl, rfl⟩
    · obtain ⟨⟨semaphore, found⟩, below, unitsEq⟩ := settled.units_eq before
      have different : other ≠ semId := by
        rintro rfl
        exact vacant semaphore found
      refine ⟨present ⟨semaphore, found⟩, below, Eq.trans ?_ unitsEq⟩
      rw [tableUnits, tableUnits, available, if_neg different, allocation,
        continues.tasks_length]
    · refine ⟨⟨_, filled⟩, small, ?_⟩
      rw [tableUnits, available, if_pos rfl, allocation,
        Finset.sum_eq_zero fun tid _ => by
          rw [settled.vacant vacant]
          rfl]
      rfl
  · intro thread none other
    rw [heldEq]
    exact settled.fresh (continues.absent none) other

/-! ### Giving back and taking a unit -/

theorem toNat_add_one {units : Usize} (small : units.toNat + 1 < 2 ^ 64) :
    (units + 1).toNat = units.toNat + 1 := by
  rw [BitVec.toNat_add]
  exact Nat.mod_eq_of_lt small

theorem toNat_sub_one {units : Usize} (positive : 0 < units.toNat) :
    (units - 1).toNat = units.toNat - 1 := by
  rw [BitVec.toNat_sub_of_le]
  · rfl
  · exact positive

/-- The free units of a semaphore are among those it was created with. -/
theorem Settled.available_lt (settled : Settled self events)
    (found : self.semaphoreList[semId]? = some (some semaphore)) :
    self.tableUnits semId < 2 ^ 63 - 1 ∧
      semaphore.count.toInt < 2 ^ 63 - 1 := by
  obtain ⟨resCount, created⟩ := settled.created found
  obtain ⟨_, small, unitsEq⟩ := settled.units_eq created
  have available := settled.available_eq found
  have part :
      (self.semaphoreAvailable.getD semId 0).toNat ≤
        self.tableUnits semId := Nat.le_add_right _ _
  omega

section

variable (found : self.semaphoreList[semId]? = some (some old))
  (listEq :
    after.semaphoreList = self.semaphoreList.set semId (some semaphore))

include found listEq

theorem getElem?_set_found :
    after.semaphoreList[semId]? = some (some semaphore) := by
  rw [listEq]
  exact getElem?_set_self (List.getElem?_eq_some_iff.mp found).1

/-- One semaphore is replaced; the queues of the others stay. -/
theorem queue_set_iff
    (same :
      ∀ {other : Nat}, other ≠ thread →
        (other ∈ semaphore.waitQueue ↔ other ∈ old.waitQueue))
    {otherThread : Nat} (different : ¬ (otherThread = thread ∧ other = semId)) :
    otherThread ∈ after.semaphoreQueue other ↔
      otherThread ∈ self.semaphoreQueue other := by
  by_cases here : other = semId
  · subst here
    rw [semaphoreQueue_eq (getElem?_set_found found listEq),
      semaphoreQueue_eq found]
    exact same fun equal => different ⟨equal, rfl⟩
  · rw [semaphoreQueue, listEq, getElem?_set_ne (Ne.symm here), semaphoreQueue]

theorem listed_set_iff (other : Nat) :
    (∃ last, after.semaphoreList[other]? = some (some last)) ↔
      ∃ first, self.semaphoreList[other]? = some (some first) := by
  by_cases here : other = semId
  · subst here
    exact ⟨fun _ => ⟨old, found⟩,
      fun _ => ⟨semaphore, getElem?_set_found found listEq⟩⟩
  · rw [listEq, getElem?_set_ne (Ne.symm here)]

end

/-- The other semaphores keep their counts. -/
theorem Settled.balanced_set (settled : Settled self events)
    (found : self.semaphoreList[semId]? = some (some old))
    (listEq :
      after.semaphoreList = self.semaphoreList.set semId (some semaphore))
    (balanced : semaphore.Balanced)
    (available :
      ((after.semaphoreAvailable.getD semId 0).toNat : Int) =
        max semaphore.count.toInt 0)
    (others :
      ∀ other ≠ semId,
        after.semaphoreAvailable.getD other 0 =
          self.semaphoreAvailable.getD other 0) {last : Semaphore Nat}
    (lastFound : after.semaphoreList[other]? = some (some last)) :
    last.Balanced ∧
      ((after.semaphoreAvailable.getD other 0).toNat : Int) =
        max last.count.toInt 0 := by
  by_cases here : other = semId
  · subst here
    rw [getElem?_set_found found listEq] at lastFound
    cases lastFound
    exact ⟨balanced, available⟩
  · rw [listEq, getElem?_set_ne (Ne.symm here)] at lastFound
    rw [others other here]
    exact ⟨settled.balanced lastFound, settled.available_eq lastFound⟩

/-- An `up` that wakes nobody gives one unit back. -/
theorem Settled.sysSemaphoreUp (settled : Settled self events)
    (point : SwitchPoint) (own : self.curTid thread = .ok tid)
    (positive : 0 < held events thread semId)
    (nobody : self.semaphoreQueue semId = [])
    (returned : self.sysSemaphoreUp thread semId = .ok (after, effect)) :
    Updates self after events
      ⟨thread, tid, point, .semaphoreUp semId, effect⟩ thread tid semId
      (-1) := by
  obtain ⟨callerTid, semaphore, available, padded, allocation, callerEq, found,
    availableEq, paddedEq, allocationEq, rfl, rfl⟩ :=
    sysSemaphoreUp_eq_ok returned
  rw [own] at callerEq
  cases callerEq
  rw [semaphoreQueue_eq found] at nobody
  obtain ⟨unitsLt, countLt⟩ := settled.available_lt found
  obtain ⟨balanced, countEq, wakes⟩ :=
    (settled.balanced found).up_cases countLt
  obtain ⟨wakesNone, _, queueEq⟩ :
      semaphore.up.2 = none ∧ semaphore.waitQueue = [] ∧
        semaphore.up.1.waitQueue = [] := by
    rcases wakes with ⟨task, _, queue⟩ | none
    · rw [nobody] at queue
      cases queue
    · exact none
  have queueLength := (settled.balanced found).length_eq
  rw [nobody, length_nil] at queueLength
  have free := settled.available_eq found
  have part :
      (self.semaphoreAvailable.getD semId 0).toNat ≤
        self.tableUnits semId := Nat.le_add_right _ _
  obtain ⟨_, lengthEq, values⟩ := modifyAt_spec 0 availableEq
  have more := values semId
  rw [if_pos rfl] at more
  have moreUnits : (available.getD semId 0).toNat =
      (self.semaphoreAvailable.getD semId 0).toNat + 1 := by
    rw [more]
    exact toNat_add_one (by omega)
  have holds := settled.allocation_eq own semId
  rw [wakesNone]
  refine
    { listed := listed_set_iff found rfl
      present := fun _ => ⟨semaphore, found⟩
      length_eq := lengthEq
      balanced := settled.balanced_set found rfl balanced ?_ ?_
      available_change := ?_
      allocation_change := ?_
      held_change := ?_
      need_change := ?_
      queue_iff := queue_set_iff found rfl ?_
      created_eq := created_concat_of_not nofun }
  · change ((available.getD semId 0).toNat : Int) = _
    omega
  · intro other different
    exact (values other).trans (if_neg different)
  · intro other
    change ((available.getD other 0).toNat : Int) = _
    by_cases here : other = semId
    · rw [here, if_pos rfl]
      omega
    · rw [values other, if_neg here, if_neg here, Int.sub_zero]
  · intro otherTid other
    change ((entry allocation otherTid other).toNat : Int) = _
    rw [(modifyEntry_spec allocationEq).1, (padRow_spec paddedEq).1,
      changeEntry]
    split
    · next both =>
        rw [both.1, both.2, toNat_sub_one (by omega)]
        omega
    · rw [Int.add_zero]
  · intro otherThread other
    rw [held_concat]
    congr 1
    by_cases both : otherThread = thread ∧ other = semId
    · simp [completes, raises, both.1, both.2]
    · have notRaises :
          raises otherThread other
            ⟨thread, tid, point, .semaphoreUp semId, ⟨.returned 0, none⟩⟩ =
            false := by
        simp only [raises, Bool.and_eq_false_iff, beq_eq_false_iff_ne]
        by_cases sameThread : otherThread = thread
        · refine .inr fun sameAction => both ⟨sameThread, ?_⟩
          cases sameAction
          rfl
        · exact .inl (Ne.symm sameThread)
      rw [notRaises, if_neg both]
      simp [completes]
  · intro otherTid other
    split
    · next both =>
        rw [both.1, both.2]
        change entry self.semaphoreNeed tid semId = _
        rw [settled.need_eq own, semaphoreQueue_eq found, nobody,
          semaphoreQueue_eq (getElem?_set_found found rfl), queueEq]
    · rfl
  · intro other _
    rw [queueEq, nobody]

/-- With detection on, the verdict is that of the safety test. -/
theorem Settled.detects (settled : Settled self events)
    (found : self.semaphoreList[semId]? = some (some semaphore))
    (own : self.curTid thread = .ok tid)
    (detects : self.deadlockDetect = true) :
    self.DetectsSemaphores thread tid semId := by
  have numbered := settled.reached.numbered settled.lives
  refine ⟨⟨?_, ?_⟩, detects, ⟨semaphore, found⟩, own, numbered.tid_lt own, ?_⟩
  · rw [numbered.semaphoreNeed_length]
  · rw [numbered.semaphoreAllocation_length]
  · intro id
    obtain ⟨other, otherFound⟩ := settled.listed id.isLt
    have bound := (settled.available_lt otherFound).1
    have same :
        (self.semaphoreRequest tid semId).work
          (Finset.range self.tasks.length) id = self.tableUnits id := rfl
    omega

/-- What a `down` that is not refused does to the tables. -/
theorem sysSemaphoreDown_taken (own : self.curTid thread = .ok tid)
    (notRefused : effect.outcome ≠ refused)
    (returned : self.sysSemaphoreDown thread semId = .ok (after, effect)) :
    ∃ (taken : Process) (units : Usize),
      taken.semaphoreList = self.semaphoreList ∧
        self.semaphoreAvailable[semId]? = some units ∧
        taken.downSemaphore thread semId = .ok (after, effect) ∧
        ((¬ 1 ≤ units ∧ taken.semaphoreAvailable = self.semaphoreAvailable ∧
            entry taken.semaphoreAllocation = entry self.semaphoreAllocation ∧
            entry taken.semaphoreNeed =
              changeEntry (entry self.semaphoreNeed) tid semId (· + 1)) ∨
          (1 ≤ units ∧
            modifyAt self.semaphoreAvailable semId (· - 1) =
              .ok taken.semaphoreAvailable ∧
            entry taken.semaphoreAllocation =
              changeEntry (entry self.semaphoreAllocation) tid semId
                (· + 1) ∧
            entry taken.semaphoreNeed =
              changeEntry
                (changeEntry (entry self.semaphoreNeed) tid semId (· + 1))
                tid semId (· - 1))) := by
  obtain ⟨callerTid, padded, requested, refuses, need, allocation, callerEq,
    paddedEq, requestedEq, detected, cases⟩ := sysSemaphoreDown_eq_ok returned
  rw [own] at callerEq
  cases callerEq
  obtain ⟨needEntries, allocationEntries, _, _⟩ :=
    detectSemaphore_entries detected
  have requestEntries :
      entry need = changeEntry (entry self.semaphoreNeed) tid semId (· + 1) := by
    rw [needEntries, (modifyEntry_spec requestedEq).1,
      (padRow_spec paddedEq).1]
  rcases cases with ⟨_, rfl, _⟩ | ⟨_, taken, takenEq, downs⟩
  · exact absurd rfl notRefused
  · obtain ⟨units, unitsEq, ⟨short, same⟩ | ⟨enough, available, paddedRow,
      granted, settledNeed, availableEq, paddedRowEq, grantedEq, settledEq,
      same⟩⟩ := takeUnit_eq_ok takenEq
    · refine ⟨taken, units, by rw [same], unitsEq, downs, .inl ⟨short, ?_⟩⟩
      rw [same]
      exact ⟨rfl, allocationEntries, requestEntries⟩
    · refine ⟨taken, units, by rw [same], unitsEq, downs, .inr ⟨enough, ?_⟩⟩
      have grantedEntries := (modifyEntry_spec grantedEq).1
      rw [(padRow_spec paddedRowEq).1] at grantedEntries
      have settledEntries := (modifyEntry_spec settledEq).1
      simp only [allocationEntries] at grantedEntries
      simp only [requestEntries] at settledEntries
      rw [same]
      exact ⟨availableEq, grantedEntries, settledEntries⟩

/-- What the history says of a `down`. -/
theorem held_semaphoreDown (events : List Event) (thread tid semId : Nat)
    (point : SwitchPoint) (effect : Effect) (otherThread other : Nat) :
    held
        (events ++ [⟨thread, tid, point, .semaphoreDown semId, effect⟩])
        otherThread other =
      held events otherThread other +
        if otherThread = thread ∧ other = semId then
          (if effect.outcome = .returned 0 then 1 else 0)
        else 0 := by
  rw [held_concat]
  congr 1
  by_cases both : otherThread = thread ∧ other = semId
  · simp [completes, raises, both.1, both.2]
  · have notCompletes :
        completes otherThread other
          ⟨thread, tid, point, .semaphoreDown semId, effect⟩ = false := by
      simp only [completes, Bool.and_eq_false_iff, Bool.or_eq_false_iff,
        beq_eq_false_iff_ne]
      by_cases sameThread : otherThread = thread
      · refine .inr ⟨fun sameAction => both ⟨sameThread, ?_⟩, .inl nofun⟩
        cases sameAction
        rfl
      · exact .inl (.inl (Ne.symm sameThread))
    rw [notCompletes, if_neg both]
    simp [raises]

/-- A `down` takes a free unit, or joins the queue without one. -/
theorem Settled.sysSemaphoreDown (settled : Settled self events)
    (runs : self.Runs thread task tid) (notRefused : effect.outcome ≠ refused)
    (returned : self.sysSemaphoreDown thread semId = .ok (after, effect)) :
    ∃ (units : Int) (semaphore lowered : Semaphore Nat),
      self.semaphoreList[semId]? = some (some semaphore) ∧
        after.semaphoreList = self.semaphoreList.set semId (some lowered) ∧
        (lowered.waitQueue = semaphore.waitQueue ∧
            effect.outcome = .returned 0 ∨
          lowered.waitQueue = semaphore.waitQueue ++ [thread]) ∧
        Updates self after events
          ⟨thread, tid, task.point, .semaphoreDown semId, effect⟩ thread tid
          semId units := by
  have own := runs.curTid
  obtain ⟨taken, units, listEq, unitsEq, downs, tables⟩ :=
    sysSemaphoreDown_taken own notRefused returned
  obtain ⟨semaphore, lowered, progress, found, lowers, cases⟩ :=
    downSemaphore_eq_ok downs
  have fields :
      after.semaphoreList = taken.semaphoreList.set semId (some lowered) ∧
        after.semaphoreAvailable = taken.semaphoreAvailable ∧
        after.semaphoreAllocation = taken.semaphoreAllocation ∧
        after.semaphoreNeed = taken.semaphoreNeed := by
    rcases cases with ⟨_, _, rfl⟩ | ⟨_, _, rfl⟩
    · exact ⟨rfl, rfl, rfl, rfl⟩
    · exact ⟨rfl, rfl, rfl, rfl⟩
  rw [listEq] at found fields
  obtain ⟨afterList, afterAvailable, afterAllocation, afterNeed⟩ := fields
  have notQueued := settled.not_queued runs semId
  have noNeed := settled.need_eq own semId
  rw [if_neg notQueued] at noNeed
  rw [semaphoreQueue_eq found] at notQueued
  have free := settled.available_eq found
  have unitsAt := getD_of_getElem? unitsEq 0
  rw [unitsAt] at free
  have unitsIff : 1 ≤ units ↔ 0 < semaphore.count.toInt := by
    rw [BitVec.le_def, show (1 : Usize).toNat = 1 from rfl]
    omega
  have afterQueue := semaphoreQueue_eq (getElem?_set_found found afterList)
  obtain ⟨balanced, countEq, outcomes⟩ :=
    (settled.balanced found).down_cases lowers
  rcases outcomes with ⟨rfl, positive, queueEq⟩ | ⟨rfl, empty, queueEq⟩
  · obtain ⟨enough, availableEq, allocationEntries, needEntries⟩ :=
      tables.resolve_left fun short => short.1 (unitsIff.mpr positive)
    have outcome : effect.outcome = .returned 0 := by
      rcases cases with ⟨_, rfl, _⟩ | ⟨impossible, _⟩
      · rfl
      · cases impossible
    rw [← afterAvailable] at availableEq
    obtain ⟨_, lengthEq, values⟩ := modifyAt_spec 0 availableEq
    have bound := (settled.available_lt found).1
    have fewer : (after.semaphoreAvailable.getD semId 0).toNat =
        units.toNat - 1 := by
      rw [values semId, if_pos rfl, unitsAt]
      exact toNat_sub_one (by omega)
    refine ⟨1, semaphore, lowered, found, afterList, .inl ⟨queueEq, outcome⟩,
      { listed := listed_set_iff found afterList
        present := fun _ => ⟨semaphore, found⟩
        length_eq := lengthEq
        balanced := settled.balanced_set found afterList balanced ?_ ?_
        available_change := ?_
        allocation_change := ?_
        held_change := ?_
        need_change := ?_
        queue_iff := queue_set_iff found afterList ?_
        created_eq := created_concat_of_not nofun }⟩
    · omega
    · intro other different
      exact (values other).trans (if_neg different)
    · intro other
      by_cases here : other = semId
      · rw [here, if_pos rfl, unitsAt]
        omega
      · rw [values other, if_neg here, if_neg here, Int.sub_zero]
    · intro otherTid other
      rw [afterAllocation, allocationEntries, changeEntry]
      split
      · next both =>
          rw [both.1, both.2, toNat_add_one]
          · rfl
          · have part := Finset.single_le_sum
              (f := fun tid => (entry self.semaphoreAllocation tid semId).toNat)
              (fun _ _ => Nat.zero_le _)
              (Finset.mem_range.mpr
                ((settled.reached.numbered settled.lives).tid_lt own))
            rw [tableUnits] at bound
            omega
      · rw [Int.add_zero]
    · intro otherThread other
      rw [held_semaphoreDown, outcome, if_pos rfl]
    · intro otherTid other
      rw [afterNeed, needEntries, afterQueue, queueEq, if_neg notQueued,
        changeEntry, changeEntry]
      split
      · next both =>
          rw [both.1, both.2, noNeed]
          rfl
      · rfl
    · intro other _
      rw [queueEq]
  · obtain ⟨short, availableEq, allocationEntries, needEntries⟩ :=
      tables.resolve_right fun enough =>
        absurd (unitsIff.mp enough.1) (Int.not_lt.mpr empty)
    have outcome : effect.outcome = .blocked := by
      rcases cases with ⟨impossible, _⟩ | ⟨_, rfl, _⟩
      · exact absurd rfl impossible
      · rfl
    rw [← afterAvailable] at availableEq
    refine ⟨0, semaphore, lowered, found, afterList, .inr queueEq,
      { listed := listed_set_iff found afterList
        present := absurd rfl
        length_eq := by rw [availableEq]
        balanced := settled.balanced_set found afterList balanced ?_ ?_
        available_change := ?_
        allocation_change := ?_
        held_change := ?_
        need_change := ?_
        queue_iff := queue_set_iff found afterList ?_
        created_eq := created_concat_of_not nofun }⟩
    · rw [availableEq, unitsAt]
      omega
    · intro other _
      rw [availableEq]
    · intro other
      rw [availableEq, ite_self, Int.sub_zero]
    · intro otherTid other
      rw [afterAllocation, allocationEntries, ite_self, Int.add_zero]
    · intro otherThread other
      rw [held_semaphoreDown, outcome]
      simp only [reduceCtorEq, if_false]
    · intro otherTid other
      rw [afterNeed, needEntries, afterQueue, queueEq,
        if_pos mem_concat_self, changeEntry]
      split
      · next both =>
          rw [both.1, both.2, noNeed]
          rfl
      · rfl
    · intro other different
      rw [queueEq, mem_append, mem_singleton]
      exact or_iff_left different

/-- Every step that wakes nobody in a semaphore keeps the tables right. -/
theorem Settled.step {move : Nat × Action} (settled : Settled self events)
    (shares : SharesSemaphores events move) (quiet : self.WakesNobody move)
    (returned : self.step move = .ok (after, event)) :
    Settled after (events ++ [event]) := by
  obtain ⟨thread, action⟩ := move
  obtain ⟨task, tid, effect, runs, acted, rfl⟩ := step_eq_ok returned
  have reached := settled.reached.step returned
  have own := runs.curTid
  have notExit : ∀ exitCode, action ≠ .exit exitCode := by
    rintro exitCode rfl
    exact shares
  have notResumed :
      action = .resume → ∀ semId, task.point ≠ .semaphoreDown semId :=
    fun _ => settled.not_down runs
  have continues : action ≠ .threadCreate → Continues self after :=
    settled.continues runs acted reached notExit
  -- all actions but those on semaphores and `threadCreate`
  have keep :
      ¬ TouchesSemaphores action →
        Settled after
          (events ++ [⟨thread, tid, task.point, action, effect⟩]) := by
    intro untouched
    have frame := (Frame.act runs.curTid acted).semaphores untouched
    have queue : after.semaphoreQueue = self.semaphoreQueue := by
      funext semId
      rw [semaphoreQueue, frame.list_eq, semaphoreQueue]
    have notCreate : action ≠ .threadCreate := by
      rintro rfl
      exact untouched trivial
    refine settled.update runs (continues notCreate)
      (settled.unchanged own frame
        (held_concat_of_not ?_ notResumed ?_)
        (created_concat_of_not ?_)) ?_
    · rintro semId rfl
      exact untouched trivial
    · rintro semId rfl
      exact untouched trivial
    · rintro resCount rfl
      exact untouched trivial
    · refine settled.points_step runs acted notExit
        (fun member => by rw [queue]; exact member) ?_
      rintro semId rfl
      exact absurd trivial untouched
  rcases act_eq_ok acted with ⟨rfl, _⟩ | ⟨waits, rfl, _, _⟩ | ⟨_, calls⟩
  · exact keep id
  · exact keep id
  · cases action with
    | threadCreate =>
      refine settled.sysThreadCreate reached
        (settled.placed.act runs acted) ?_
        (held_concat_of_not (by rintro _ ⟨⟩) (by rintro ⟨⟩) (by rintro _ ⟨⟩))
        (created_concat_of_not (by rintro _ ⟨⟩)) calls
      refine settled.points_step runs acted notExit ?_ (by rintro _ ⟨⟩)
      obtain ⟨_, _, _, _, rfl⟩ := sysThreadCreate_eq_ok calls
      exact id
    | semaphoreCreate resCount =>
      refine settled.sysSemaphoreCreate (continues (by rintro ⟨⟩)) shares ?_
        (held_concat_of_not (by rintro _ ⟨⟩) (by rintro ⟨⟩) (by rintro _ ⟨⟩))
        rfl rfl calls
      refine settled.points_step runs acted notExit ?_ (by rintro _ ⟨⟩)
      obtain ⟨newId, _, vacant, _, others, _⟩ := sysSemaphoreCreate_spec calls
      intro other semId member
      have different : semId ≠ newId := by
        rintro rfl
        rw [semaphoreQueue_of_vacant vacant] at member
        cases member
      rw [semaphoreQueue, others semId different]
      exact member
    | semaphoreUp semId =>
      have updates := settled.sysSemaphoreUp task.point own shares quiet calls
      refine settled.update runs (continues (by rintro ⟨⟩)) updates ?_
      refine settled.points_step runs acted notExit ?_ (by rintro _ ⟨⟩)
      intro other id member
      refine (updates.queue_iff ?_).mpr member
      rintro ⟨rfl, rfl⟩
      rw [quiet] at member
      cases member
    | semaphoreDown semId =>
      have notRefused : effect.outcome ≠ refused := by
        intro refuses
        obtain ⟨semaphore, found, _⟩ := bind_eq_ok.mp calls
        cases detects : self.deadlockDetect with
        | false =>
          obtain ⟨_, _, _, _, _, _, _, _, _, detected,
            ⟨rfl, _⟩ | ⟨_, taken, _, downs⟩⟩ :=
            sysSemaphoreDown_eq_ok calls
          · rw [detectSemaphore, detects] at detected
            cases detected
          · obtain ⟨_, _, _, _, _, ⟨_, rfl, _⟩ | ⟨_, rfl, _⟩⟩ :=
              downSemaphore_eq_ok downs
            · cases refuses
            · cases refuses
        | true =>
          have detector := settled.detects (object_eq_ok.mp found) own detects
          have stuck :=
            detector.refuses_iff_stuck.mp ⟨after, effect, calls, refuses⟩
          exact Resources.exists_safeOrder_iff.mp (quiet detects tid own)
            stuck
      obtain ⟨units, semaphore, lowered, found, listEq, queues, updates⟩ :=
        settled.sysSemaphoreDown runs notRefused calls
      have queueEq := semaphoreQueue_eq (getElem?_set_found found listEq)
      refine settled.update runs (continues (by rintro ⟨⟩)) updates ?_
      refine settled.points_step runs acted notExit ?_ ?_
      · intro other id member
        by_cases here : other = thread ∧ id = semId
        · obtain ⟨rfl, rfl⟩ := here
          exact absurd member (settled.not_queued runs id)
        · exact (updates.queue_iff here).mpr member
      · rintro id same notReturned
        cases same
        rw [queueEq]
        rcases queues with ⟨_, outcome⟩ | queue
        · exact absurd outcome (notReturned 0)
        · rw [queue]
          exact mem_concat_self
    | exit exitCode => exact absurd rfl (notExit exitCode)
    | _ => exact keep id

/-! ## Runs -/

end Process

end RCoreOS.Kernel
