import RCoreOS.Kernel.ProcessCalls

/-!
# Where a step leaves the threads

A step of a thread changes the status and the switch point of that thread as
its outcome says.  Of the other threads it changes at most the status of the
one that it makes ready, and `sys_thread_create` adds a thread.
-/

namespace RCoreOS.Kernel

open Lib.FallibleRuns List

/-- The status of a thread, where it goes on, and its exit code. -/
def TaskControlBlock.place (task : TaskControlBlock) :
    TaskStatus × SwitchPoint × Option Int :=
  (task.taskStatus, task.point, task.exitCode)

/-- `wakeup_task` on the place of a thread. -/
def TaskControlBlock.readied (task : TaskControlBlock) :
    TaskStatus × SwitchPoint × Option Int :=
  (.ready, task.point, task.exitCode)

namespace Process

variable {self after : Process} {effect : Effect} {thread : Nat}
  {action : Action} {point : SwitchPoint}

/-- The thread that takes a step is left as the outcome says. -/
def LeftAs (task : TaskControlBlock) (action : Action) (point : SwitchPoint) :
    Outcome → Prop
  | .returned _ =>
    task.taskStatus ≠ .blocked ∧ task.point = .user ∧ task.exitCode = none
  | .suspended => task.place = (.ready, outPoint action point, none)
  | .blocked => task.place = (.blocked, outPoint action point, none)
  | .exited => task.exitCode ≠ none

/-- What a step does to the threads. -/
structure Moved (before after : Process) (thread : Nat) (action : Action)
    (point : SwitchPoint) (effect : Effect) : Prop where
  others :
    ∀ other ≠ thread, other < before.threads.length →
      (after.threads[other]?).map TaskControlBlock.place =
        (before.threads[other]?).map fun task =>
          if effect.readied = some other then task.readied else task.place
  own :
    ∃ task, after.threads[thread]? = some task ∧
      LeftAs task action point effect.outcome
  length_eq :
    action ≠ .threadCreate → after.threads.length = before.threads.length
  created :
    action = .threadCreate →
      ∃ tid : Nat,
        after.threads = before.threads ++ [.new tid] ∧
          effect = ⟨.returned tid, some before.threads.length⟩
  exits : effect.outcome = .exited → ∃ exitCode, action = .exit exitCode
  blocks : effect.outcome = .blocked → CanBlock action point

theorem length_switchTo (self : Process) (thread : Nat) (point : SwitchPoint)
    (taskStatus : TaskStatus) :
    (self.switchTo thread point taskStatus).threads.length =
      self.threads.length :=
  length_modify _ _ _

theorem length_wakeupTask (self : Process) (woken : Option Nat) :
    (self.wakeupTask woken).threads.length = self.threads.length := by
  cases woken with
  | none => rfl
  | some task => exact length_modify _ _ _

theorem place_wakeupTask (self : Process) (woken : Option Nat) (other : Nat) :
    ((self.wakeupTask woken).threads[other]?).map TaskControlBlock.place =
      (self.threads[other]?).map fun task =>
        if woken = some other then task.readied else task.place := by
  rw [getElem?_wakeupTask, Option.map_map]
  congr 1
  funext task
  rw [Function.comp_apply]
  split
  · rfl
  · rfl

theorem place_switchTo_of_ne {other : Nat} (different : other ≠ thread)
    (taskStatus : TaskStatus) :
    ((self.switchTo thread point taskStatus).threads[other]?).map
        TaskControlBlock.place =
      (self.threads[other]?).map TaskControlBlock.place := by
  rw [getElem?_switchTo, Option.map_map]
  congr 1
  funext task
  rw [Function.comp_apply, if_neg (Ne.symm different)]

theorem length_eq_of_map {α β : Type} {first second : List α} {view : α → β}
    (same :
      ∀ position : Nat,
        (first[position]?).map view = (second[position]?).map view) :
    first.length = second.length := by
  have equal : first.map view = second.map view := by
    refine ext_getElem? fun position => ?_
    rw [getElem?_map, getElem?_map]
    exact same position
  have lengths := congrArg List.length equal
  rw [length_map, length_map] at lengths
  exact lengths

theorem ne_threadCreate (keeps : ¬ Renumbers action) :
    action ≠ .threadCreate := by
  rintro rfl
  exact keeps trivial

namespace Moved

variable {task : TaskControlBlock} {tid : Nat}

variable {base : Process} {value : Int} {woken : Option Nat} {other : Nat}
  {last : TaskControlBlock}

/-- The call returns and makes at most one thread ready. -/
theorem wakeupTask
    (threads : base.threads = self.threads) (runs : self.Runs thread task tid)
    (atUser : task.point = .user) (notCreate : action ≠ .threadCreate) :
    Moved self (base.wakeupTask woken) thread action point
      ⟨.returned value, woken⟩ := by
  refine ⟨fun other _ _ => ?_, ?_, fun _ => ?_, fun create =>
    absurd create notCreate, nofun, nofun⟩
  · rw [place_wakeupTask, threads]
  · have found := getElem?_wakeupTask base woken thread
    rw [threads, runs.found, Option.map_some] at found
    refine ⟨_, found, ?_⟩
    split
    · exact ⟨nofun, atUser, runs.exitCode_eq⟩
    · exact ⟨runs.notBlocked atUser, atUser, runs.exitCode_eq⟩
  · rw [length_wakeupTask, threads]

/-- The call returns and leaves all threads as they are. -/
theorem returns (threads : after.threads = self.threads)
    (runs : self.Runs thread task tid) (atUser : task.point = .user)
    (notCreate : action ≠ .threadCreate) :
    Moved self after thread action point ⟨.returned value, none⟩ :=
  show Moved self (after.wakeupTask none) thread action point _ from
    wakeupTask threads runs atUser notCreate

/-- The thread is switched out or goes on in user space. -/
theorem switchTo {outcome : Outcome} {newPoint : SwitchPoint}
    {taskStatus : TaskStatus} (threads : base.threads = self.threads)
    (runs : self.Runs thread task tid) (notCreate : action ≠ .threadCreate)
    (leaves : Leaves action point newPoint taskStatus outcome) :
    Moved self ((base.wakeupTask woken).switchTo thread newPoint taskStatus)
      thread action point ⟨outcome, woken⟩ := by
  refine ⟨fun other different _ => ?_, ?_, fun _ => ?_, fun create =>
    absurd create notCreate, ?_, ?_⟩
  · rw [place_switchTo_of_ne different, place_wakeupTask, threads]
  · have found := getElem?_switchTo (base.wakeupTask woken) thread thread
      newPoint taskStatus
    rw [getElem?_wakeupTask, threads, runs.found, Option.map_some,
      Option.map_some, if_pos rfl] at found
    refine ⟨_, found, ?_⟩
    have exitCode :
        (if woken = some thread then { task with taskStatus := .ready }
          else task).exitCode = none := by
      split
      · exact runs.exitCode_eq
      · exact runs.exitCode_eq
    cases leaves with
    | returns => exact ⟨nofun, rfl, exitCode⟩
    | suspends => exact Prod.ext rfl (Prod.ext rfl exitCode)
    | blocks canBlock => exact Prod.ext rfl (Prod.ext rfl exitCode)
  · rw [length_switchTo, length_wakeupTask, threads]
  · rintro rfl
    cases leaves
  · rintro rfl
    cases leaves with
    | blocks canBlock => exact canBlock

section

variable (runs : self.Runs thread task tid)

include runs

theorem sysThreadCreate (atUser : task.point = .user)
    (returned : self.sysThreadCreate thread = .ok (after, effect)) :
    Moved self after thread .threadCreate point effect := by
  obtain ⟨newTid, allocator, _, rfl, rfl⟩ := sysThreadCreate_eq_ok returned
  refine ⟨fun other _ inside => ?_, ?_, absurd rfl, fun _ =>
    ⟨newTid, rfl, rfl⟩, nofun, nofun⟩
  · rw [getElem?_append_left inside]
    have different : some self.threads.length ≠ some other :=
      fun equal => Nat.ne_of_lt inside (Option.some.inj equal).symm
    simp only [different, if_false]
  · refine ⟨task, ?_, runs.notBlocked atUser, atUser, runs.exitCode_eq⟩
    exact getElem?_concat_eq_some.mpr (.inl runs.found)

theorem exitCurrent {exitCode : Int}
    (returned : self.exitCurrent thread exitCode = .ok (after, effect)) :
    Moved self after thread (.exit exitCode) point effect := by
  obtain ⟨_, exited, _, exits, rfl, cases⟩ := exitCurrent_eq_ok returned
  obtain ⟨_, _, _, _, rfl⟩ := exitThread_eq_ok exits
  -- the drop of the other threads' `res` leaves their places alone
  have places :
      ∀ other : Nat,
        (after.threads[other]?).map TaskControlBlock.place =
          ((self.threads.modify thread fun task =>
            { task with res := none, exitCode := some exitCode })[other]?).map
            TaskControlBlock.place := by
    intro other
    rcases cases with ⟨_, ends⟩ | ⟨_, rfl⟩
    · have blocks := (exitProcess_eq_ok ends).block_eq other
      have mapped := congrArg (Option.map TaskControlBlock.place) blocks
      rw [Option.map_map, Option.map_map] at mapped
      exact mapped
    · rfl
  refine ⟨fun other different _ => ?_, ?_, fun _ => ?_, nofun,
    fun _ => ⟨exitCode, rfl⟩, nofun⟩
  · rw [places, getElem?_modify]
    simp [Ne.symm different]
  · have own := places thread
    simp only [getElem?_modify, runs.found, if_true] at own
    obtain ⟨last, found, equal⟩ := Option.map_eq_some_iff.mp own
    refine ⟨last, found, ?_⟩
    rw [LeftAs, show last.exitCode = some exitCode from
      congrArg (fun place => place.2.2) equal]
    exact Option.some_ne_none exitCode
  · rw [length_eq_of_map places]
    exact length_modify _ _ _

/-- What every step does to the threads. -/
theorem act
    (returned : self.act thread task.point action = .ok (after, effect)) :
    Moved self after thread action task.point effect := by
  cases Acted.act runs.curTid returned with
  | wakes keeps atUser edits _ =>
    exact wakeupTask edits.threads_eq runs atUser (ne_threadCreate keeps)
  | switches keeps edits _ leaves =>
    exact switchTo edits.threads_eq runs (ne_threadCreate keeps) leaves
  | numbers renumbers atUser calls =>
    cases action with
    | threadCreate => exact sysThreadCreate runs atUser calls
    | exit exitCode => exact exitCurrent runs calls
    | waittid waited =>
      obtain ⟨_, _, ⟨rfl, rfl, _⟩ | ⟨_, _, _, _, _,
        ⟨rfl, rfl, _⟩ | ⟨_, _, rfl, rfl⟩⟩⟩ := sysWaittid_eq_ok calls
      all_goals
        exact returns rfl runs atUser nofun
    | _ => cases renumbers

end

/-- A thread that is there after a step was there before, or is new. -/
theorem other_cases (moved : Moved self after thread action point effect)
    (different : other ≠ thread) (found : after.threads[other]? = some last) :
    (∃ first,
        self.threads[other]? = some first ∧
          last.place =
            if effect.readied = some other then first.readied
            else first.place) ∨
      (other = self.threads.length ∧ action = .threadCreate ∧
        effect.readied = some other ∧ ∃ tid, last = .new tid) := by
  by_cases inside : other < self.threads.length
  · have places := moved.others other different inside
    rw [found, Option.map_some] at places
    obtain ⟨first, firstFound, equal⟩ := Option.map_eq_some_iff.mp places.symm
    exact .inl ⟨first, firstFound, equal.symm⟩
  · obtain ⟨bound, _⟩ := List.getElem?_eq_some_iff.mp found
    by_cases create : action = .threadCreate
    · obtain ⟨tid, threads, rfl⟩ := moved.created create
      rw [threads] at found
      rcases getElem?_concat_eq_some.mp found with old | ⟨rfl, rfl⟩
      · exact absurd (List.getElem?_eq_some_iff.mp old).1 inside
      · exact .inr ⟨rfl, create, rfl, tid, rfl⟩
    · rw [moved.length_eq create] at bound
      exact absurd bound inside

/-- Where a thread goes on that has not just exited. -/
theorem point_cases (moved : Moved self after thread action point effect)
    (notExit : ∀ exitCode, action ≠ .exit exitCode)
    (found : after.threads[other]? = some last) :
    last.point = .user ∨
      (other = thread ∧ (∀ value, effect.outcome ≠ .returned value) ∧
        last.point = outPoint action point) ∨
      ∃ first,
        self.threads[other]? = some first ∧ last.point = first.point := by
  by_cases same : other = thread
  · subst same
    obtain ⟨own, ownFound, left⟩ := moved.own
    rw [found] at ownFound
    cases ownFound
    cases outcome : effect.outcome with
    | returned value =>
      rw [outcome] at left
      exact .inl left.2.1
    | suspended
    | blocked =>
      rw [outcome] at left
      exact .inr (.inl ⟨rfl, nofun, congrArg (fun place => place.2.1) left⟩)
    | exited =>
      obtain ⟨exitCode, exits⟩ := moved.exits outcome
      exact absurd exits (notExit exitCode)
  · rcases moved.other_cases same found with
      ⟨first, firstFound, placeEq⟩ | ⟨_, _, _, newTid, rfl⟩
    · refine .inr (.inr ⟨first, firstFound, ?_⟩)
      have equal := congrArg (fun place => place.2.1) placeEq
      split at equal
      · exact equal
      · exact equal
    · exact .inl rfl

end Moved

/-! ## The tids after a step -/

variable {tid : Nat}

theorem SameShape.curTid_iff (same : SameShape self after) {other : Nat} :
    after.curTid other = .ok tid ↔ self.curTid other = .ok tid := by
  have held :
      ∀ process : Process,
        process.curTid other = .ok tid ↔
          ((process.threads[other]?).map TaskControlBlock.account).map
            Prod.fst = some (some tid) := by
    intro process
    rw [curTid_eq_ok, Option.map_map, Option.map_eq_some_iff]
    rfl
  rw [held, held, same.account_eq]

/-- Only the end of a thread takes a tid away or ends the process. -/
structure KeepsTids (action : Action) (before after : Process) : Prop where
  zombie_eq : after.isZombie = before.isZombie
  inUse :
    ∀ {tid : Nat}, before.taskResAllocator.InUse tid →
      after.taskResAllocator.InUse tid
  curTid :
    ∀ {thread tid : Nat}, before.curTid thread = .ok tid →
      after.curTid thread = .ok tid
  tasks_length :
    action ≠ .threadCreate → after.tasks.length = before.tasks.length
  curTid_iff :
    action ≠ .threadCreate →
      ∀ {thread tid : Nat},
        after.curTid thread = .ok tid ↔ before.curTid thread = .ok tid

theorem KeepsTids.act (notExit : ∀ exitCode, action ≠ .exit exitCode)
    (own : self.curTid thread = .ok tid)
    (returned : self.act thread point action = .ok (after, effect)) :
    KeepsTids action self after := by
  by_cases renumbers : Renumbers action
  · rcases act_eq_ok returned with ⟨rfl, _⟩ | ⟨_, rfl, _, _⟩ | ⟨_, calls⟩
    · cases renumbers
    · cases renumbers
    · cases action with
      | threadCreate =>
        obtain ⟨_, _, allocated, _, rfl⟩ := sysThreadCreate_eq_ok calls
        obtain ⟨_, used, _⟩ := RecycleAllocator.alloc_spec allocated
        refine ⟨rfl, fun inUse => (used _).mpr (.inr inUse), fun own => ?_,
          absurd rfl, absurd rfl⟩
        obtain ⟨task, found, res⟩ := curTid_eq_ok.mp own
        exact curTid_eq_ok.mpr
          ⟨task, getElem?_concat_eq_some.mpr (.inl found), res⟩
      | waittid waited =>
        obtain ⟨_, _, ⟨rfl, _⟩ | ⟨_, _, _, _, _,
          ⟨rfl, _⟩ | ⟨_, _, _, rfl⟩⟩⟩ := sysWaittid_eq_ok calls
        · exact ⟨rfl, id, id, fun _ => rfl, fun _ => .rfl⟩
        · exact ⟨rfl, id, id, fun _ => rfl, fun _ => .rfl⟩
        · exact ⟨rfl, id, id, fun _ => length_set, fun _ => .rfl⟩
      | exit exitCode => exact absurd rfl (notExit exitCode)
      | _ => cases renumbers
  · have same := SameShape.act renumbers own returned
    refine ⟨same.zombie_eq, fun inUse => ?_, same.curTid_iff.mpr, fun _ => ?_,
      fun _ => same.curTid_iff⟩
    · rw [same.allocator_eq]
      exact inUse
    · rw [same.tasks_eq]

end Process

end RCoreOS.Kernel
