import RCoreOS.Kernel.ThreadSteps

/-!
# The numbering of the threads

The tid of a living thread is in use, and the slot of `tasks` at that tid
holds the thread.  Only `sys_thread_create`, `sys_waittid` and the end of a
thread touch the numbering; all other steps keep the shape of the process.
-/

namespace RCoreOS.Kernel

open List Option

open Lib.FallibleRuns

namespace Process

variable {self after : Process} {effect : Effect} {thread : Nat}

/-! ## The numbering of the threads -/

/-- The tids, the slots and the rows of the tables agree. -/
structure Numbered (process : Process) : Prop where
  tasks_length : process.tasks.length = process.taskResAllocator.current
  live :
    ∀ {thread : Nat} {task : TaskControlBlock} {tid : Nat},
      process.threads[thread]? = some task → task.res = some tid →
        process.tasks[tid]? = some (some thread) ∧
          process.taskResAllocator.InUse tid
  used :
    ∀ {tid : Nat}, process.taskResAllocator.InUse tid →
      ∃ (thread : Nat) (task : TaskControlBlock),
        process.threads[thread]? = some task ∧ task.res = some tid
  slot :
    ∀ {tid thread : Nat}, process.tasks[tid]? = some (some thread) →
      ∃ task,
        process.threads[thread]? = some task ∧
          (task.res = some tid ∨
            (task.res = none ∧ ¬ process.taskResAllocator.InUse tid))
  exited :
    ∀ {thread : Nat} {task : TaskControlBlock},
      process.threads[thread]? = some task →
        (task.exitCode = none ↔ ∃ tid, task.res = some tid)
  mutexNeed_length : process.mutexNeed.length = process.tasks.length
  mutexAllocation_length : process.mutexAllocation.length = process.tasks.length
  semaphoreNeed_length : process.semaphoreNeed.length = process.tasks.length
  semaphoreAllocation_length :
    process.semaphoreAllocation.length = process.tasks.length

namespace Numbered

/-- A process with one thread, whose tid is the first one. -/
theorem single (threads : self.threads = [.new 0])
    (tasks : self.tasks = [some 0])
    (current : self.taskResAllocator.current = 1)
    (recycled : self.taskResAllocator.recycled = [])
    (mutexNeed : self.mutexNeed.length = 1)
    (mutexAllocation : self.mutexAllocation.length = 1)
    (semaphoreNeed : self.semaphoreNeed.length = 1)
    (semaphoreAllocation : self.semaphoreAllocation.length = 1) :
    self.Numbered := by
  have inUse : ∀ tid, self.taskResAllocator.InUse tid ↔ tid = 0 := by
    intro tid
    rw [RecycleAllocator.InUse, current, recycled]
    simp
  have only :
      ∀ {thread : Nat} {task : TaskControlBlock},
        self.threads[thread]? = some task → thread = 0 ∧ task = .new 0 := by
    intro thread task found
    rw [threads] at found
    cases thread with
    | zero => exact ⟨rfl, (Option.some.inj found).symm⟩
    | succ other => cases found
  refine ⟨?_, ?_, ?_, ?_, ?_, ?_, ?_, ?_, ?_⟩
  · rw [tasks, current]
    rfl
  · intro thread task tid found res
    obtain ⟨rfl, rfl⟩ := only found
    cases res
    exact ⟨by rw [tasks]; rfl, (inUse 0).mpr rfl⟩
  · intro tid used
    rw [(inUse tid).mp used]
    exact ⟨0, .new 0, by rw [threads]; rfl, rfl⟩
  · intro tid thread found
    rw [tasks] at found
    cases tid with
    | zero =>
      cases found
      exact ⟨.new 0, by rw [threads]; rfl, .inl rfl⟩
    | succ other => cases found
  · intro thread task found
    obtain ⟨rfl, rfl⟩ := only found
    exact ⟨fun _ => ⟨0, rfl⟩, fun _ => rfl⟩
  all_goals
    rw [tasks]
    assumption

theorem new : Process.new.Numbered := single rfl rfl rfl rfl rfl rfl rfl rfl

variable {tid : Nat}

/-- The thread of a tid is the only living one with that tid. -/
theorem thread_unique (numbered : self.Numbered) {first second : Nat}
    {firstTask secondTask : TaskControlBlock}
    (firstFound : self.threads[first]? = some firstTask)
    (firstRes : firstTask.res = some tid)
    (secondFound : self.threads[second]? = some secondTask)
    (secondRes : secondTask.res = some tid) : first = second := by
  have firstSlot := (numbered.live firstFound firstRes).1
  have secondSlot := (numbered.live secondFound secondRes).1
  rw [firstSlot] at secondSlot
  exact Option.some.inj (Option.some.inj secondSlot)

theorem tid_lt (numbered : self.Numbered)
    (found : self.curTid thread = .ok tid) : tid < self.tasks.length := by
  obtain ⟨task, present, res⟩ := curTid_eq_ok.mp found
  rw [numbered.tasks_length]
  exact (numbered.live present res).2.1

theorem congr (numbered : self.Numbered) (same : SameShape self after) :
    after.Numbered := by
  have back :
      ∀ {thread : Nat} {task : TaskControlBlock},
        after.threads[thread]? = some task →
          ∃ old, self.threads[thread]? = some old ∧
            old.res = task.res ∧ old.exitCode = task.exitCode := by
    intro thread task found
    have account := same.account_eq thread
    rw [found, map_some] at account
    obtain ⟨old, oldFound, equal⟩ := map_eq_some_iff.mp account.symm
    exact ⟨old, oldFound, congrArg Prod.fst equal, congrArg Prod.snd equal⟩
  have forth :
      ∀ {thread : Nat} {task : TaskControlBlock},
        self.threads[thread]? = some task →
          ∃ new, after.threads[thread]? = some new ∧
            new.res = task.res ∧ new.exitCode = task.exitCode := by
    intro thread task found
    have account := same.account_eq thread
    rw [found, map_some] at account
    obtain ⟨new, newFound, equal⟩ := map_eq_some_iff.mp account
    exact ⟨new, newFound, congrArg Prod.fst equal, congrArg Prod.snd equal⟩
  refine ⟨?_, ?_, ?_, ?_, ?_, ?_, ?_, ?_, ?_⟩
  · rw [same.tasks_eq, same.allocator_eq]
    exact numbered.tasks_length
  · intro thread task tid found res
    obtain ⟨old, oldFound, resEq, _⟩ := back found
    rw [same.tasks_eq, same.allocator_eq]
    exact numbered.live oldFound (resEq.trans res)
  · intro tid used
    rw [same.allocator_eq] at used
    obtain ⟨thread, task, found, res⟩ := numbered.used used
    obtain ⟨new, newFound, resEq, _⟩ := forth found
    exact ⟨thread, new, newFound, resEq.trans res⟩
  · intro tid thread found
    rw [same.tasks_eq] at found
    obtain ⟨task, taskFound, cases⟩ := numbered.slot found
    obtain ⟨new, newFound, resEq, _⟩ := forth taskFound
    refine ⟨new, newFound, ?_⟩
    rw [resEq, same.allocator_eq]
    exact cases
  · intro thread task found
    obtain ⟨old, oldFound, resEq, exitEq⟩ := back found
    rw [← resEq, ← exitEq]
    exact numbered.exited oldFound
  · rw [same.mutexNeed_length, same.tasks_eq]
    exact numbered.mutexNeed_length
  · rw [same.mutexAllocation_length, same.tasks_eq]
    exact numbered.mutexAllocation_length
  · rw [same.semaphoreNeed_length, same.tasks_eq]
    exact numbered.semaphoreNeed_length
  · rw [same.semaphoreAllocation_length, same.tasks_eq]
    exact numbered.semaphoreAllocation_length

/-- A new thread gets a tid that is not in use, and its slot. -/
theorem sysThreadCreate (numbered : self.Numbered)
    (returned : self.sysThreadCreate thread = .ok (after, effect)) :
    after.Numbered := by
  obtain ⟨tid, allocator, allocated, _, rfl⟩ := sysThreadCreate_eq_ok returned
  obtain ⟨fresh, inUse, cases⟩ := RecycleAllocator.alloc_spec allocated
  have tasksLength := numbered.tasks_length
  have grown :
      self.tasks.length + (tid + 1 - self.tasks.length) =
        allocator.current := by
    rcases cases with ⟨last, current, _⟩ | ⟨_, tidEq, current, _⟩
    · have below := self.taskResAllocator.recycled_lt tid
        (mem_of_getLast? last)
      omega
    · omega
  refine ⟨?_, ?_, ?_, ?_, ?_, ?_, ?_, ?_, ?_⟩
  · simp only [length_set, length_append, length_replicate]
    exact grown
  · intro other task otherTid found res
    rcases getElem?_concat_eq_some.mp found with old | ⟨rfl, rfl⟩
    · have live := numbered.live old res
      have different : otherTid ≠ tid := by
        rintro rfl
        exact fresh live.2
      exact ⟨getElem?_grow_eq_some.mpr (.inr ⟨different, live.1⟩),
        (inUse otherTid).mpr (.inr live.2)⟩
    · cases res
      exact ⟨getElem?_grow_eq_some.mpr (.inl ⟨rfl, rfl⟩),
        (inUse tid).mpr (.inl rfl)⟩
  · intro otherTid used
    rcases (inUse otherTid).mp used with rfl | used
    · exact ⟨self.threads.length, .new otherTid,
        getElem?_concat_eq_some.mpr (.inr ⟨rfl, rfl⟩), rfl⟩
    · obtain ⟨other, task, found, res⟩ := numbered.used used
      exact ⟨other, task, getElem?_concat_eq_some.mpr (.inl found), res⟩
  · intro otherTid other found
    rcases getElem?_grow_eq_some.mp found with
      ⟨rfl, rfl⟩ | ⟨different, found⟩
    · exact ⟨.new otherTid, getElem?_concat_eq_some.mpr (.inr ⟨rfl, rfl⟩),
        .inl rfl⟩
    · obtain ⟨task, taskFound, either⟩ := numbered.slot found
      refine ⟨task, getElem?_concat_eq_some.mpr (.inl taskFound),
        either.imp_right fun both => ⟨both.1, fun used => ?_⟩⟩
      exact ((inUse otherTid).mp used).elim different both.2
  · intro other task found
    rcases getElem?_concat_eq_some.mp found with old | ⟨rfl, rfl⟩
    · exact numbered.exited old
    · exact ⟨fun _ => ⟨tid, rfl⟩, fun _ => rfl⟩
  · simp [numbered.mutexNeed_length]
  · simp [numbered.mutexAllocation_length]
  · simp [numbered.semaphoreNeed_length]
  · simp [numbered.semaphoreAllocation_length]

/-- A thread that exits leaves its slot as it is and gives its tid back. -/
theorem exitThread (numbered : self.Numbered) {exitCode : Int}
    (returned : self.exitThread thread exitCode = .ok after) :
    after.Numbered := by
  obtain ⟨tid, allocator, tidEq, deallocated, rfl⟩ := exitThread_eq_ok returned
  obtain ⟨own, ownFound, ownRes⟩ := curTid_eq_ok.mp tidEq
  obtain ⟨_, current, _, inUse⟩ := RecycleAllocator.dealloc_spec deallocated
  have ended :
      ∀ {other : Nat} {task : TaskControlBlock},
        (self.threads.modify thread fun task =>
            { task with res := none, exitCode := some exitCode })[other]? =
            some task →
          (other = thread ∧ task.res = none ∧ task.exitCode = some exitCode) ∨
            (other ≠ thread ∧ self.threads[other]? = some task) := by
    intro other task found
    rw [getElem?_modify_eq_some] at found
    rcases found with ⟨rfl, old, _, rfl⟩ | ⟨different, found⟩
    · exact .inl ⟨rfl, rfl, rfl⟩
    · exact .inr ⟨different, found⟩
  refine ⟨numbered.tasks_length.trans current.symm, ?_, ?_, ?_, ?_,
    numbered.mutexNeed_length, numbered.mutexAllocation_length,
    numbered.semaphoreNeed_length, numbered.semaphoreAllocation_length⟩
  · intro other task otherTid found res
    rcases ended found with ⟨_, none, _⟩ | ⟨different, found⟩
    · rw [none] at res
      cases res
    · have live := numbered.live found res
      refine ⟨live.1, (inUse otherTid).mpr ⟨live.2, ?_⟩⟩
      rintro rfl
      exact different (numbered.thread_unique found res ownFound ownRes)
  · intro otherTid used
    obtain ⟨usedBefore, different⟩ := (inUse otherTid).mp used
    obtain ⟨other, task, found, res⟩ := numbered.used usedBefore
    refine ⟨other, task, getElem?_modify_eq_some.mpr (.inr ⟨?_, found⟩), res⟩
    rintro rfl
    rw [ownFound] at found
    cases found
    rw [ownRes] at res
    exact different (Option.some.inj res).symm
  · intro otherTid other found
    obtain ⟨task, taskFound, either⟩ := numbered.slot found
    by_cases same : other = thread
    · subst same
      refine ⟨_, getElem?_modify_eq_some.mpr
        (.inl ⟨rfl, own, ownFound, rfl⟩), .inr ⟨rfl, fun used => ?_⟩⟩
      rw [ownFound] at taskFound
      cases taskFound
      rw [ownRes] at either
      rcases either with sameTid | ⟨absurdRes, _⟩
      · exact ((inUse otherTid).mp used).2 (Option.some.inj sameTid).symm
      · cases absurdRes
    · refine ⟨task, getElem?_modify_eq_some.mpr (.inr ⟨same, taskFound⟩),
        either.imp_right fun both => ⟨both.1, fun used => ?_⟩⟩
      exact both.2 ((inUse otherTid).mp used).1
  · intro other task found
    rcases ended found with ⟨_, none, exited⟩ | ⟨_, found⟩
    · rw [none, exited]
      exact ⟨nofun, fun ⟨_, impossible⟩ => by cases impossible⟩
    · exact numbered.exited found

/-- `sys_waittid` clears at most the slot of a thread that has exited. -/
theorem sysWaittid (numbered : self.Numbered)
    (returned : self.sysWaittid thread tid = .ok (after, effect)) :
    after.Numbered := by
  obtain ⟨curTid, _, ⟨rfl, _⟩ | ⟨_, waited, task, slot, found,
    ⟨rfl, _⟩ | ⟨exitCode, exited, _, rfl⟩⟩⟩ := sysWaittid_eq_ok returned
  · exact numbered
  · exact numbered
  · have cleared :
        ∀ {otherTid other : Nat},
          (self.tasks.set tid none)[otherTid]? = some (some other) ↔
            otherTid ≠ tid ∧ self.tasks[otherTid]? = some (some other) := by
      intro otherTid other
      by_cases same : otherTid = tid
      · subst same
        obtain ⟨inside, _⟩ := List.getElem?_eq_some_iff.mp slot
        rw [getElem?_set_self inside]
        simp
      · rw [getElem?_set_ne (Ne.symm same)]
        exact ⟨fun held => ⟨same, held⟩, fun both => both.2⟩
    refine ⟨?_, ?_, numbered.used, ?_, numbered.exited, ?_, ?_, ?_, ?_⟩
    · rw [length_set]
      exact numbered.tasks_length
    · intro other otherTask otherTid otherFound res
      have live := numbered.live otherFound res
      refine ⟨cleared.mpr ⟨?_, live.1⟩, live.2⟩
      rintro rfl
      rw [live.1] at slot
      cases slot
      rw [found] at otherFound
      cases otherFound
      rw [(numbered.exited found).mpr ⟨otherTid, res⟩] at exited
      cases exited
    · intro otherTid other held
      exact numbered.slot (cleared.mp held).2
    all_goals
      rw [length_set]
    · exact numbered.mutexNeed_length
    · exact numbered.mutexAllocation_length
    · exact numbered.semaphoreNeed_length
    · exact numbered.semaphoreAllocation_length

/-- Every step keeps the numbering until the process ends. -/
theorem act (numbered : self.Numbered) {point : SwitchPoint} {action : Action}
    (own : self.curTid thread = .ok tid)
    (returned : self.act thread point action = .ok (after, effect))
    (lives : after.isZombie = false) : after.Numbered := by
  by_cases renumbers : Renumbers action
  · rcases act_eq_ok returned with
      ⟨rfl, _⟩ | ⟨waits, rfl, _, _⟩ | ⟨_, calls⟩
    · cases renumbers
    · cases renumbers
    · cases action with
      | threadCreate => exact numbered.sysThreadCreate calls
      | waittid tid => exact numbered.sysWaittid calls
      | exit exitCode =>
        obtain ⟨tid, exited, _, exits, _, ⟨_, ended⟩ | ⟨_, rfl⟩⟩ :=
          exitCurrent_eq_ok calls
        · rw [(exitProcess_eq_ok ended).rest_eq] at lives
          cases lives
        · exact numbered.exitThread exits
      | _ => cases renumbers
  · exact numbered.congr (.act renumbers own returned)

theorem step (numbered : self.Numbered) {move : Nat × Action} {event : Event}
    (returned : self.step move = .ok (after, event))
    (lives : after.isZombie = false) : after.Numbered := by
  obtain ⟨task, tid, effect, runs, acted, _⟩ := step_eq_ok returned
  exact numbered.act runs.curTid acted lives

/-- A child starts with one thread; its rows are those of the parent. -/
theorem fork (numbered : self.Numbered) {parent : Nat}
    (returned : self.fork parent = .ok after) : after.Numbered := by
  rw [Process.fork] at returned
  split at returned
  · next one =>
      cases returned
      exact single rfl rfl rfl rfl (numbered.mutexNeed_length.trans one)
        (numbered.mutexAllocation_length.trans one)
        (numbered.semaphoreNeed_length.trans one)
        (numbered.semaphoreAllocation_length.trans one)
  · cases returned

end Numbered

/-! ## Reachable processes -/

/--
The processes that exist at some time: the first one, those that steps of
threads lead to, and the children of such processes.  The links of the process
tree belong to the kernel and can change at any time.
-/
inductive Reached : Process → Prop where
  | new : Reached .new
  | step {self after : Process} {move : Nat × Action} {event : Event}
      (reached : Reached self)
      (returned : self.step move = .ok (after, event)) : Reached after
  | fork {self child : Process} {parent : Nat}
      (reached : Reached self) (returned : self.fork parent = .ok child) :
      Reached child
  | relink {self : Process} (parent : Option Nat) (children : List Nat)
      (reached : Reached self) : Reached { self with parent, children }

/-- A process becomes a zombie only when its last step ends it. -/
theorem zombie_of_step {move : Nat × Action} {event : Event}
    (returned : self.step move = .ok (after, event))
    (ended : after.isZombie = true) : after.tasks = [] := by
  obtain ⟨thread, action⟩ := move
  obtain ⟨task, tid, effect, runs, acted, _⟩ := step_eq_ok returned
  by_cases exits : ∃ exitCode, action = .exit exitCode
  · obtain ⟨exitCode, rfl⟩ := exits
    obtain ⟨_, calls⟩ := syscall_of_act acted nofun nofun
    obtain ⟨tid, exited, _, exits, _, ⟨_, ends⟩ | ⟨_, rfl⟩⟩ :=
      exitCurrent_eq_ok calls
    · rw [(exitProcess_eq_ok ends).rest_eq]
    · obtain ⟨_, _, _, _, rfl⟩ := exitThread_eq_ok exits
      rw [runs.lives] at ended
      cases ended
  · have keeps :=
      KeepsTids.act (fun exitCode equal => exits ⟨exitCode, equal⟩)
        runs.curTid acted
    rw [keeps.zombie_eq, runs.lives] at ended
    cases ended

theorem Reached.sound (reached : Reached self) :
    (self.isZombie = true → self.tasks = []) ∧
      (self.isZombie = false → self.Numbered) := by
  induction reached with
  | new => exact ⟨nofun, fun _ => Numbered.new⟩
  | step reached returned induction =>
    obtain ⟨task, tid, effect, runs, _, _⟩ := step_eq_ok returned
    exact ⟨zombie_of_step returned, (induction.2 runs.lives).step returned⟩
  | @fork self child parent reached returned induction =>
    refine ⟨fun ended => ?_, fun _ => ?_⟩
    · rw [Process.fork] at returned
      split at returned
      · cases returned
        cases ended
      · cases returned
    · cases zombie : self.isZombie with
      | true =>
        rw [Process.fork, induction.1 zombie] at returned
        cases returned
      | false => exact (induction.2 zombie).fork returned
  | relink parent children reached induction =>
    exact ⟨induction.1, fun lives =>
      (induction.2 lives).congr
        ⟨rfl, rfl, rfl, fun _ => rfl, rfl, rfl, rfl, rfl⟩⟩

/-- The threads of a living process are numbered. -/
theorem Reached.numbered (reached : Reached self)
    (lives : self.isZombie = false) : self.Numbered :=
  reached.sound.2 lives

end Process

end RCoreOS.Kernel