import RCoreOS.Kernel.Numbering

/-!
# The rows of new threads and of new processes

The rows of a thread in the tables of the detector are made when its tid is
used for the first time, and stay when the thread exits.  The next thread with
that tid takes them over.  `fork` clones all tables although the child has no
objects.

A step changes only the rows of the thread that takes it, so the rows of a tid
that is not in use are those that its last thread has left.
-/

namespace RCoreOS.Kernel

open Lib.FallibleRuns

namespace Process

variable {self after : Process} {effect : Effect} {thread tid : Nat}

/-! ## Clean rows -/

/-- Every entry of the rows of the tid is zero. -/
def RowsZero (self : Process) (tid : Nat) : Prop :=
  ∀ id, entry self.mutexNeed tid id = 0 ∧ entry self.mutexAllocation tid id = 0 ∧
    entry self.semaphoreNeed tid id = 0 ∧
    entry self.semaphoreAllocation tid id = 0

/-- Every entry of every table is zero. -/
structure TablesZero (process : Process) : Prop where
  rows : ∀ tid, process.RowsZero tid
  mutexAvailable : ∀ id, process.mutexAvailable.getD id 0 = 0
  semaphoreAvailable : ∀ id, process.semaphoreAvailable.getD id 0 = 0

/-- The tids whose last thread has left an entry that is not zero. -/
def leftover (stale : Set Nat) (self : Process) (event : Event) : Set Nat :=
  match event.action with
  | .exit _ =>
    { tid | (tid = event.tid ∧ ¬ self.RowsZero tid) ∨
      (tid ≠ event.tid ∧ tid ∈ stale) }
  | _ => stale

/--
The runs in which no tid is handed out again after a thread has left entries
in its rows, and no process with entries in its tables is forked.
-/
inductive CleanRun : Set Nat → Process → Prop where
  | new : CleanRun ∅ .new
  | step {stale : Set Nat} {self after : Process} {thread : Nat}
      {action : Action} {event : Event}
      (clean : CleanRun stale self)
      (reuses :
        action = .threadCreate →
          ∀ tid, self.taskResAllocator.recycled.getLast? = some tid →
            tid ∉ stale)
      (returned : self.step (thread, action) = .ok (after, event)) :
      CleanRun (leftover stale self event) after
  | fork {stale : Set Nat} {self child : Process} {parent : Nat}
      (clean : CleanRun stale self) (zero : self.TablesZero)
      (returned : self.fork parent = .ok child) : CleanRun ∅ child
  | relink {stale : Set Nat} {self : Process} (parent : Option Nat)
      (children : List Nat) (clean : CleanRun stale self) :
      CleanRun stale { self with parent, children }

theorem OwnRow.rowsZero (own : OwnRow tid self after) {other : Nat}
    (different : other ≠ tid) (zero : self.RowsZero other) :
    after.RowsZero other := by
  intro id
  rw [own.mutexNeed_eq other different, own.mutexAllocation_eq other different,
    own.semaphoreNeed_eq other different,
    own.semaphoreAllocation_eq other different]
  exact zero id

/-- A row that was never made has no entries. -/
theorem Numbered.rowsZero_of_le (numbered : self.Numbered)
    (outside : self.tasks.length ≤ tid) : self.RowsZero tid := by
  have absent :
      ∀ {table : Table}, table.length = self.tasks.length →
        ∀ id, entry table tid id = 0 := by
    intro table length id
    rw [entry, List.getD_eq_default table _ (by omega)]
    rfl
  intro id
  exact ⟨absent numbered.mutexNeed_length id,
    absent numbered.mutexAllocation_length id,
    absent numbered.semaphoreNeed_length id,
    absent numbered.semaphoreAllocation_length id⟩

variable {stale : Set Nat}

theorem CleanRun.reached (clean : CleanRun stale self) :
    Reached self := by
  induction clean with
  | new => exact .new
  | step _ _ returned induction => exact .step induction returned
  | fork _ _ returned induction => exact .fork induction returned
  | relink parent children _ induction =>
    exact .relink parent children induction

/-- A tid that is not in use has clean rows, unless its last thread did not. -/
theorem CleanRun.rowsZero (clean : CleanRun stale self)
    (lives : self.isZombie = false)
    (free : ¬ self.taskResAllocator.InUse tid) (fresh : tid ∉ stale) :
    self.RowsZero tid := by
  induction clean generalizing tid with
  | new =>
    refine Numbered.new.rowsZero_of_le ?_
    by_contra inside
    have zero : tid = 0 := Nat.lt_one_iff.mp (Nat.lt_of_not_le inside)
    rw [zero] at free
    exact free ⟨by decide, by decide⟩
  | @step stale self after thread action event clean reuses returned induction =>
    obtain ⟨task, own, effect, runs, acted, rfl⟩ := step_eq_ok returned
    have numbered := clean.reached.numbered runs.lives
    have ownUsed := (numbered.live runs.found runs.res_eq).2
    by_cases exits : ∃ exitCode, action = .exit exitCode
    · obtain ⟨exitCode, rfl⟩ := exits
      obtain ⟨_, calls⟩ := syscall_of_act acted nofun nofun
      obtain ⟨exitTid, exited, tidEq, exits, _, ⟨_, ends⟩ | ⟨_, rfl⟩⟩ :=
        exitCurrent_eq_ok calls
      · rw [(exitProcess_eq_ok ends).rest_eq] at lives
        cases lives
      · obtain ⟨sameTid, allocator, sameEq, deallocated, rfl⟩ :=
          exitThread_eq_ok exits
        obtain ⟨_, _, _, inUse⟩ := RecycleAllocator.dealloc_spec deallocated
        rw [runs.curTid] at sameEq
        cases sameEq
        by_cases same : tid = own
        · by_contra notZero
          exact fresh (.inl ⟨same, notZero⟩)
        · refine induction runs.lives (fun used => ?_) fun member => ?_
          · exact free ((inUse tid).mpr ⟨used, same⟩)
          · exact fresh (.inr ⟨same, member⟩)
    · have stays : ∀ exitCode, action ≠ .exit exitCode :=
        fun exitCode equal => exits ⟨exitCode, equal⟩
      have freeBefore : ¬ self.taskResAllocator.InUse tid :=
        fun used => free ((KeepsTids.act stays runs.curTid acted).inUse used)
      have different : tid ≠ own := by
        rintro rfl
        exact freeBefore ownUsed
      refine (OwnRow.act runs.curTid acted).rowsZero different
        (induction runs.lives freeBefore fun member => fresh ?_)
      rw [leftover]
      split
      · next exitCode equal => exact absurd equal (stays exitCode)
      · exact member
  | fork _ zero returned _ =>
    rw [Process.fork] at returned
    split at returned
    · cases returned
      exact zero.rows tid
    · cases returned
  | relink parent children _ induction => exact induction lives free fresh

/--
In every clean run a new thread starts with empty rows, and a new process with
empty tables.
-/
theorem new_threads_and_processes_start_clean {stale : Set Nat}
    (clean : CleanRun stale self) :
    (∀ thread after event,
        (∀ tid, self.taskResAllocator.recycled.getLast? = some tid →
          tid ∉ stale) →
        self.step (thread, .threadCreate) = .ok (after, event) →
          ∃ tid : Nat,
            event.effect.outcome = .returned tid ∧ after.RowsZero tid) ∧
      ∀ parent child,
        self.TablesZero → self.fork parent = .ok child →
          child.mutexList = [] ∧ child.semaphoreList = [] ∧
            child.TablesZero := by
  constructor
  · intro thread after event reuses returned
    obtain ⟨task, own, effect, runs, acted, rfl⟩ := step_eq_ok returned
    obtain ⟨_, calls⟩ := syscall_of_act acted nofun nofun
    obtain ⟨tid, allocator, allocated, rfl, _⟩ := sysThreadCreate_eq_ok calls
    obtain ⟨fresh, _, cases⟩ := RecycleAllocator.alloc_spec allocated
    refine ⟨tid, rfl, ?_⟩
    have zero : self.RowsZero tid := by
      rcases cases with ⟨last, _, _⟩ | ⟨_, rfl, _, _⟩
      · exact clean.rowsZero runs.lives fresh (reuses tid last)
      · have numbered := clean.reached.numbered runs.lives
        exact numbered.rowsZero_of_le (Nat.le_of_eq numbered.tasks_length)
    exact (OwnRow.sysThreadCreate calls).rowsZero (Nat.succ_ne_self tid).symm
      zero
  · intro parent child zero returned
    rw [fork] at returned
    split at returned
    · cases returned
      exact ⟨rfl, rfl, zero.rows, zero.mutexAvailable, zero.semaphoreAvailable⟩
    · cases returned

/-- A thread exits with clean rows and the next one gets its tid. -/
theorem new_threads_and_processes_start_clean_reused :
    ∃ stale self,
      CleanRun stale self ∧
        self.taskResAllocator.recycled.getLast? = some 1 ∧
        (∃ after event,
          self.step (0, .threadCreate) = .ok (after, event) ∧
            event.effect.outcome = .returned 1 ∧ after.RowsZero 1) ∧
        ∃ child,
          Process.new.fork 0 = .ok child ∧ child.TablesZero := by
  have created := CleanRun.new.step
    (fun _ tid found => by cases found)
    (show _ = .ok (_, _) from rfl : Process.new.step (0, .threadCreate) = _)
  have exited := created.step (by exact nofun)
    (show _ = .ok (_, _) from rfl : step _ (1, .exit 5) = _)
  have next := (new_threads_and_processes_start_clean exited).1 0
  obtain ⟨tid, tidEq, zero⟩ := next _ _ (by
    rintro tid equal (⟨_, notZero⟩ | ⟨different, _⟩)
    · have same : some 1 = some tid := equal
      cases same
      exact notZero fun id => ⟨rfl, rfl, rfl, rfl⟩
    · have same : some 1 = some tid := equal
      exact different (Option.some.inj same).symm) rfl
  have empty : entry [[]] = fun _ _ => 0 := by
    funext tid id
    cases tid <;> rfl
  have zeroTables : Process.new.TablesZero :=
    ⟨fun tid id => by simp only [Process.new, empty, and_self],
      fun _ => rfl, fun _ => rfl⟩
  refine ⟨_, _, exited, rfl, ⟨_, _, rfl, rfl, ?_⟩, _, rfl, ?_⟩
  · cases tidEq
    exact zero
  · exact ((new_threads_and_processes_start_clean .new).2 0 _ zeroTables
      rfl).2.2

/--
A thread exits while it holds a mutex; the next thread has its tid and its
entry.  A process that has made a mutex forks a child without mutexes, and the
child counts one as available.
-/
theorem stale_rows_are_inherited :
    (∃ before after events event,
      run step .new
          [(0, .threadCreate), (1, .mutexCreate true), (1, .mutexLock 0),
            (1, .exit 0), (0, .waittid 1)] = .ok (before, events) ∧
        before.step (0, .threadCreate) = .ok (after, event) ∧
        event.effect.outcome = .returned 1 ∧
        entry after.mutexAllocation 1 0 = 1) ∧
      ∃ parent child events,
        run step .new [(0, .mutexCreate true)] = .ok (parent, events) ∧
          parent.fork 0 = .ok child ∧ child.mutexList = [] ∧
          child.mutexAvailable = [1] :=
  ⟨⟨_, _, _, _, rfl, rfl, rfl, rfl⟩, _, _, _, rfl, rfl, rfl, rfl⟩

end Process

end RCoreOS.Kernel
