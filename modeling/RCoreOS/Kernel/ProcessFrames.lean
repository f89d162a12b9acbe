import RCoreOS.Kernel.ProcessSteps

/-!
# What the steps of a process leave alone

Most actions keep the numbering of the threads, and no action changes the
entries of another thread in the tables.  The mutexes with their tables and
the semaphores with theirs are changed by a few actions only.  A thread that
is switched out or woken changes none of this.
-/

namespace RCoreOS.Kernel

open Lib.FallibleRuns List

/-! ## Slots -/

variable {α : Type}

/-- The object is put into a slot that had none. -/
theorem fillSlot_spec (list : List (Option α)) (item : α) :
    (∀ other, list[(fillSlot list item).2]? ≠ some (some other)) ∧
      (fillSlot list item).1[(fillSlot list item).2]? = some (some item) ∧
      ∀ id ≠ (fillSlot list item).2,
        (fillSlot list item).1[id]? = list[id]? := by
  rw [fillSlot]
  split
  · next id found =>
      obtain ⟨inside, empty, _⟩ := findIdx?_eq_some_iff_getElem.mp found
      have slot : list[id]? = some none := by
        rw [getElem?_eq_getElem inside, Option.isNone_iff_eq_none.mp empty]
      refine ⟨fun other held => ?_, getElem?_set_self inside,
        fun other different => getElem?_set_ne (Ne.symm different)⟩
      rw [slot] at held
      cases held
  · refine ⟨fun other held => ?_, ?_, fun id different => ?_⟩
    · rw [getElem?_eq_none (Nat.le_refl _)] at held
      cases held
    · rw [getElem?_append_right (Nat.le_refl _), Nat.sub_self]
      rfl
    · by_cases inside : id < list.length
      · exact getElem?_append_left inside
      · have different : id ≠ list.length := different
        rw [getElem?_eq_none (Nat.le_of_not_lt inside),
          getElem?_eq_none (by simp; omega)]

/-- The slots before the one that is filled are taken. -/
theorem fillSlot_full {list : List (Option α)} {item : α}
    {id : Nat} (earlier : id < (fillSlot list item).2) :
    ∃ other, list[id]? = some (some other) := by
  rw [fillSlot] at earlier
  split at earlier
  · next firstId isFirst =>
      obtain ⟨inside, _, before⟩ := findIdx?_eq_some_iff_getElem.mp isFirst
      have taken := before id earlier
      rw [Bool.not_eq_true, Option.isNone_eq_false_iff] at taken
      obtain ⟨other, slot⟩ := Option.isSome_iff_exists.mp taken
      exact ⟨other, by rw [getElem?_eq_getElem (by omega), slot]⟩
  · next none =>
      have inside : id < list.length := earlier
      have taken := findIdx?_eq_none_iff.mp none list[id]
        (getElem_mem inside)
      obtain ⟨other, slot⟩ :=
        Option.isSome_iff_exists.mp (Option.isNone_eq_false_iff.mp taken)
      exact ⟨other, by rw [getElem?_eq_getElem inside, slot]⟩

namespace Process

variable {self after : Process} {tid : Nat}

/-! ## The fields that a wakeup leaves alone -/

@[simp]
theorem wakeupTask_mutexList (self : Process) (woken : Option Nat) :
    (self.wakeupTask woken).mutexList = self.mutexList := by
  cases woken <;> rfl

@[simp]
theorem wakeupTask_mutexAvailable (self : Process) (woken : Option Nat) :
    (self.wakeupTask woken).mutexAvailable = self.mutexAvailable := by
  cases woken <;> rfl

@[simp]
theorem wakeupTask_mutexAllocation (self : Process) (woken : Option Nat) :
    (self.wakeupTask woken).mutexAllocation = self.mutexAllocation := by
  cases woken <;> rfl

@[simp]
theorem wakeupTask_mutexNeed (self : Process) (woken : Option Nat) :
    (self.wakeupTask woken).mutexNeed = self.mutexNeed := by
  cases woken <;> rfl

@[simp]
theorem wakeupTask_semaphoreList (self : Process) (woken : Option Nat) :
    (self.wakeupTask woken).semaphoreList = self.semaphoreList := by
  cases woken <;> rfl

@[simp]
theorem wakeupTask_semaphoreAvailable (self : Process) (woken : Option Nat) :
    (self.wakeupTask woken).semaphoreAvailable = self.semaphoreAvailable := by
  cases woken <;> rfl

@[simp]
theorem wakeupTask_semaphoreAllocation (self : Process) (woken : Option Nat) :
    (self.wakeupTask woken).semaphoreAllocation = self.semaphoreAllocation := by
  cases woken <;> rfl

@[simp]
theorem wakeupTask_semaphoreNeed (self : Process) (woken : Option Nat) :
    (self.wakeupTask woken).semaphoreNeed = self.semaphoreNeed := by
  cases woken <;> rfl

@[simp]
theorem wakeupTask_deadlockDetect (self : Process) (woken : Option Nat) :
    (self.wakeupTask woken).deadlockDetect = self.deadlockDetect := by
  cases woken <;> rfl

@[simp]
theorem wakeupTask_condvarList (self : Process) (woken : Option Nat) :
    (self.wakeupTask woken).condvarList = self.condvarList := by
  cases woken <;> rfl

/-! ## The shape of a process -/

/-- The numbering of the threads and the rows of the tables are the same. -/
structure SameShape (before after : Process) : Prop where
  tasks_eq : after.tasks = before.tasks
  allocator_eq : after.taskResAllocator = before.taskResAllocator
  zombie_eq : after.isZombie = before.isZombie
  account_eq :
    ∀ thread : Nat,
      (after.threads[thread]?).map TaskControlBlock.account =
        (before.threads[thread]?).map TaskControlBlock.account
  mutexNeed_length : after.mutexNeed.length = before.mutexNeed.length
  mutexAllocation_length :
    after.mutexAllocation.length = before.mutexAllocation.length
  semaphoreNeed_length :
    after.semaphoreNeed.length = before.semaphoreNeed.length
  semaphoreAllocation_length :
    after.semaphoreAllocation.length = before.semaphoreAllocation.length

namespace SameShape

variable {before between : Process}

theorem refl (self : Process) : SameShape self self :=
  ⟨rfl, rfl, rfl, fun _ => rfl, rfl, rfl, rfl, rfl⟩

theorem trans (first : SameShape before between)
    (second : SameShape between after) : SameShape before after where
  tasks_eq := second.tasks_eq.trans first.tasks_eq
  allocator_eq := second.allocator_eq.trans first.allocator_eq
  zombie_eq := second.zombie_eq.trans first.zombie_eq
  account_eq thread := (second.account_eq thread).trans (first.account_eq thread)
  mutexNeed_length := second.mutexNeed_length.trans first.mutexNeed_length
  mutexAllocation_length :=
    second.mutexAllocation_length.trans first.mutexAllocation_length
  semaphoreNeed_length :=
    second.semaphoreNeed_length.trans first.semaphoreNeed_length
  semaphoreAllocation_length :=
    second.semaphoreAllocation_length.trans first.semaphoreAllocation_length

theorem switchTo (self : Process) (thread : Nat) (point : SwitchPoint)
    (taskStatus : TaskStatus) :
    SameShape self (self.switchTo thread point taskStatus) := by
  refine ⟨rfl, rfl, rfl, fun other => ?_, rfl, rfl, rfl, rfl⟩
  rw [getElem?_switchTo, Option.map_map]
  congr 1
  funext task
  rw [Function.comp_apply]
  split
  · rfl
  · rfl

theorem wakeupTask (self : Process) (woken : Option Nat) :
    SameShape self (self.wakeupTask woken) := by
  have accounts :
      ∀ other : Nat,
        ((self.wakeupTask woken).threads[other]?).map
            TaskControlBlock.account =
          (self.threads[other]?).map TaskControlBlock.account := by
    intro other
    rw [getElem?_wakeupTask, Option.map_map]
    congr 1
    funext task
    rw [Function.comp_apply]
    split
    · rfl
    · rfl
  cases woken with
  | none => exact .refl self
  | some task => exact ⟨rfl, rfl, rfl, accounts, rfl, rfl, rfl, rfl⟩

end SameShape

/-! ## Frames -/

/-- The tables of the mutexes are the same. -/
structure MutexTablesFrame (before after : Process) : Prop where
  available_eq : after.mutexAvailable = before.mutexAvailable
  allocation_eq : after.mutexAllocation = before.mutexAllocation
  need_eq : after.mutexNeed = before.mutexNeed

/-- The semaphores and their tables are the same. -/
structure SemaphoreFrame (before after : Process) : Prop where
  list_eq : after.semaphoreList = before.semaphoreList
  available_eq : after.semaphoreAvailable = before.semaphoreAvailable
  allocation_eq : after.semaphoreAllocation = before.semaphoreAllocation
  need_eq : after.semaphoreNeed = before.semaphoreNeed

/-- The actions that change the tables of the mutexes. -/
def TouchesMutexTables : Action → Prop
  | .threadCreate | .mutexCreate _ | .mutexLock _ | .mutexUnlock _ => True
  | _ => False

/-- The actions that change the mutexes themselves. -/
def TouchesMutexes : Action → Prop
  | .resume | .mutexCreate _ | .mutexLock _ | .mutexUnlock _
  | .condvarWait _ _ => True
  | _ => False

/-- The actions that change the semaphores or their tables. -/
def TouchesSemaphores : Action → Prop
  | .threadCreate | .semaphoreCreate _ | .semaphoreUp _
  | .semaphoreDown _ => True
  | _ => False

/-- What an action leaves alone. -/
structure Frame (action : Action) (before after : Process) : Prop where
  mutexTables : ¬ TouchesMutexTables action → MutexTablesFrame before after
  mutexes : ¬ TouchesMutexes action → after.mutexList = before.mutexList
  semaphores : ¬ TouchesSemaphores action → SemaphoreFrame before after
  detect :
    (∀ enabled, action ≠ .enableDeadlockDetect enabled) →
      after.deadlockDetect = before.deadlockDetect

variable {action : Action}

variable {before : Process}

/-- An action that changes the threads only. -/
theorem Frame.of_eq (mutexTables : MutexTablesFrame before after)
    (mutexes : after.mutexList = before.mutexList)
    (semaphores : SemaphoreFrame before after)
    (detect : after.deadlockDetect = before.deadlockDetect) :
    Frame action before after :=
  ⟨fun _ => mutexTables, fun _ => mutexes, fun _ => semaphores,
    fun _ => detect⟩

theorem Frame.switchTo (self : Process) (thread : Nat) (point : SwitchPoint)
    (taskStatus : TaskStatus) :
    Frame action self (self.switchTo thread point taskStatus) :=
  .of_eq ⟨rfl, rfl, rfl⟩ rfl ⟨rfl, rfl, rfl, rfl⟩ rfl

theorem Frame.wakeupTask (self : Process) (woken : Option Nat) :
    Frame action self (self.wakeupTask woken) :=
  .of_eq ⟨by simp, by simp, by simp⟩ (by simp)
    ⟨by simp, by simp, by simp, by simp⟩ (by simp)

theorem Frame.trans {between : Process}
    (first : Frame action before between)
    (second : Frame action between after) : Frame action before after where
  mutexTables keeps :=
    have early := first.mutexTables keeps
    have late := second.mutexTables keeps
    ⟨late.available_eq.trans early.available_eq,
      late.allocation_eq.trans early.allocation_eq,
      late.need_eq.trans early.need_eq⟩
  mutexes keeps := (second.mutexes keeps).trans (first.mutexes keeps)
  semaphores keeps :=
    have early := first.semaphores keeps
    have late := second.semaphores keeps
    ⟨late.list_eq.trans early.list_eq,
      late.available_eq.trans early.available_eq,
      late.allocation_eq.trans early.allocation_eq,
      late.need_eq.trans early.need_eq⟩
  detect keeps := (second.detect keeps).trans (first.detect keeps)

/-! ## Rows of other threads -/

/-- Rows of other threads have the same entries. -/
structure OwnRow (tid : Nat) (before after : Process) : Prop where
  mutexNeed_eq :
    ∀ other ≠ tid, ∀ id,
      entry after.mutexNeed other id = entry before.mutexNeed other id
  mutexAllocation_eq :
    ∀ other ≠ tid, ∀ id,
      entry after.mutexAllocation other id =
        entry before.mutexAllocation other id
  semaphoreNeed_eq :
    ∀ other ≠ tid, ∀ id,
      entry after.semaphoreNeed other id = entry before.semaphoreNeed other id
  semaphoreAllocation_eq :
    ∀ other ≠ tid, ∀ id,
      entry after.semaphoreAllocation other id =
        entry before.semaphoreAllocation other id

namespace OwnRow

variable {before between : Process}

theorem of_entries (mutexNeed : entry after.mutexNeed = entry before.mutexNeed)
    (mutexAllocation :
      entry after.mutexAllocation = entry before.mutexAllocation)
    (semaphoreNeed : entry after.semaphoreNeed = entry before.semaphoreNeed)
    (semaphoreAllocation :
      entry after.semaphoreAllocation = entry before.semaphoreAllocation) :
    OwnRow tid before after := by
  constructor
  · intro other _ id
    rw [mutexNeed]
  · intro other _ id
    rw [mutexAllocation]
  · intro other _ id
    rw [semaphoreNeed]
  · intro other _ id
    rw [semaphoreAllocation]

theorem refl (tid : Nat) (self : Process) : OwnRow tid self self :=
  .of_entries rfl rfl rfl rfl

theorem trans (first : OwnRow tid before between)
    (second : OwnRow tid between after) : OwnRow tid before after where
  mutexNeed_eq other different id :=
    (second.mutexNeed_eq other different id).trans
      (first.mutexNeed_eq other different id)
  mutexAllocation_eq other different id :=
    (second.mutexAllocation_eq other different id).trans
      (first.mutexAllocation_eq other different id)
  semaphoreNeed_eq other different id :=
    (second.semaphoreNeed_eq other different id).trans
      (first.semaphoreNeed_eq other different id)
  semaphoreAllocation_eq other different id :=
    (second.semaphoreAllocation_eq other different id).trans
      (first.semaphoreAllocation_eq other different id)

theorem switchTo (self : Process) (thread : Nat) (point : SwitchPoint)
    (taskStatus : TaskStatus) :
    OwnRow tid self (self.switchTo thread point taskStatus) :=
  .of_entries rfl rfl rfl rfl

theorem wakeupTask (self : Process) (woken : Option Nat) :
    OwnRow tid self (self.wakeupTask woken) := by
  cases woken with
  | none => exact .refl tid self
  | some task => exact .of_entries rfl rfl rfl rfl

end OwnRow

end Process

end RCoreOS.Kernel
