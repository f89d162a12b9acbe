import RCoreOS.Kernel.MutexOwners
import RCoreOS.Lib.WaitSets

/-!
# Deadlocks that `sys_mutex_lock` misses

With the detector switched on, a thread that locks a mutex may still complete
a set of threads that wait for each other: one thread whose need of this mutex
fits what is available is enough for the request to pass, be it a thread that
asks for nothing.

No such set appears in a run in which every request that would complete one
meets a detector that finds nobody.
-/

namespace RCoreOS.Kernel

open Lib.FallibleRuns Lib.WaitSets Relation

namespace Process

variable {self after : Process} {thread : Nat} {events : List Event}
  {event : Event}

/-- The thread is blocked in `MutexBlocking::lock`. -/
def BlockedOn (self : Process) (thread mutexId : Nat) : Prop :=
  ∃ task, self.threads[thread]? = some task ∧ task.taskStatus = .blocked ∧
    task.point = .mutexLock mutexId

/-- The first thread is blocked on a mutex that the second one holds. -/
def WaitsOn (self : Process) (events : List Event) (waiting holding : Nat) :
    Prop :=
  ∃ mutexId,
    self.BlockedOn waiting mutexId ∧ owner events mutexId = some holding

/--
The steps in question: blocking mutexes, unlocked by their holders, with the
detector left as it is.  Threads do not exit and use no condition variables.
-/
def UsesMutexes (events : List Event) (move : Nat × Action) : Prop :=
  match move.2 with
  | .mutexCreate blocking => blocking = true
  | .mutexUnlock mutexId => owner events mutexId = some move.1
  | .exit _ | .condvarWait _ _ | .enableDeadlockDetect _ => False
  | _ => True

/-- Every thread needs more of the mutex than is available. -/
def NobodyFits (self : Process) (tid mutexId : Nat) : Prop :=
  ∀ other < self.tasks.length,
    ¬ changeEntry (entry self.mutexNeed) tid mutexId (· + 1) other mutexId ≤
      self.mutexAvailable.getD mutexId 0

/--
A request for a mutex whose holder waits, directly or not, for the thread that
asks is one for which the detector finds nobody.
-/
def CyclesFound (self : Process) (events : List Event)
    (move : Nat × Action) : Prop :=
  ∀ {mutexId holding tid : Nat},
    move.2 = .mutexLock mutexId → owner events mutexId = some holding →
      ReflTransGen (self.WaitsOn events) holding move.1 →
        self.curTid move.1 = .ok tid → self.NobodyFits tid mutexId

/-! ## Steps -/

variable {action : Action} {mutexId : Nat}

variable {point : SwitchPoint} {tid : Nat} {effect : Effect}

theorem mutexLock_of_outPoint (blocks : CanBlock action point)
    (atPoint : outPoint action point = .mutexLock mutexId) :
    action = .mutexLock mutexId := by
  cases action with
  | mutexLock id =>
    cases atPoint
    rfl
  | resume =>
    cases point with
    | condvarWait condvarId id => cases atPoint
    | _ => cases blocks
  | semaphoreDown semId => cases atPoint
  | condvarWait condvarId id => cases atPoint
  | sleep => cases atPoint
  | _ => cases blocks

/-- A thread that has become blocked has asked for a mutex. -/
theorem BlockedOn.of_step {task : TaskControlBlock} {other : Nat}
    (runs : self.Runs thread task tid)
    (acted : self.act thread task.point action = .ok (after, effect))
    (notExit : ∀ exitCode, action ≠ .exit exitCode)
    (blocked : after.BlockedOn other mutexId) :
    (other ≠ thread ∧ self.BlockedOn other mutexId ∧
        effect.readied ≠ some other) ∨
      (other = thread ∧ action = .mutexLock mutexId ∧
        effect.outcome = .blocked) := by
  have moved := Moved.act runs acted
  obtain ⟨last, found, status, pointEq⟩ := blocked
  by_cases same : other = thread
  · subst same
    obtain ⟨own, ownFound, left⟩ := moved.own
    rw [found] at ownFound
    cases ownFound
    cases outcome : effect.outcome with
    | returned value =>
      rw [outcome] at left
      exact absurd status left.1
    | suspended =>
      rw [outcome] at left
      have ready := congrArg (fun place => place.1) left
      rw [TaskControlBlock.place, status] at ready
      cases ready
    | exited =>
      obtain ⟨exitCode, exits⟩ := moved.exits outcome
      exact absurd exits (notExit exitCode)
    | blocked =>
      rw [outcome] at left
      have atPoint : outPoint action task.point = .mutexLock mutexId := by
        rw [← pointEq]
        exact (congrArg (fun place => place.2.1) left).symm
      exact .inr ⟨rfl, mutexLock_of_outPoint (moved.blocks outcome) atPoint,
        rfl⟩
  · refine .inl ⟨same, ?_⟩
    rcases moved.other_cases same found with
      ⟨first, firstFound, placeEq⟩ | ⟨_, _, _, tid, rfl⟩
    · split at placeEq
      · have ready := congrArg (fun place => place.1) placeEq
        rw [TaskControlBlock.place, TaskControlBlock.readied, status] at ready
        cases ready
      · next notReadied =>
          refine ⟨⟨first, firstFound, ?_, ?_⟩, notReadied⟩
          · rw [← status]
            exact (congrArg (fun place => place.1) placeEq).symm
          · rw [← pointEq]
            exact (congrArg (fun place => place.2.1) placeEq).symm
    · cases status

/-- `sys_mutex_lock` makes nobody ready. -/
theorem readied_mutexLock
    (acted :
      self.act thread point (.mutexLock mutexId) = .ok (after, effect)) :
    effect.readied = none := by
  obtain ⟨_, calls⟩ := syscall_of_act acted nofun nofun
  obtain ⟨_, _, _, _, _, ⟨_, rfl, _⟩ | ⟨_, _, _, _, _, _, _, locks⟩⟩ :=
    sysMutexLock_eq_ok calls
  · rfl
  · obtain ⟨_, _, _, _, _, ⟨_, rfl, _⟩ | ⟨_, rfl, _⟩ | ⟨_, rfl, _⟩⟩ :=
      lockMutex_eq_ok locks
    all_goals rfl

/-- A step makes a thread wait only as its own action says. -/
theorem WaitsOn.of_step {waiting holding : Nat}
    (returned : self.step (thread, action) = .ok (after, event))
    (notExit : ∀ exitCode, action ≠ .exit exitCode)
    (waits : after.WaitsOn (events ++ [event]) waiting holding) :
    self.WaitsOn events waiting holding ∨
      (∀ third, ¬ after.WaitsOn (events ++ [event]) holding third) ∨
      ∃ mutexId,
        waiting = thread ∧ action = .mutexLock mutexId ∧
          event.effect.outcome = .blocked ∧
          owner events mutexId = some holding := by
  obtain ⟨task, tid, effect, runs, acted, rfl⟩ := step_eq_ok returned
  obtain ⟨mutexId, blocked, holds⟩ := waits
  rw [owner_concat] at holds
  rcases ownerAfter_cases holds with old | ⟨outcome, rfl⟩ | readied
  · rcases BlockedOn.of_step runs acted notExit blocked with
      ⟨_, before, _⟩ | ⟨rfl, locks, outcome⟩
    · exact .inl ⟨mutexId, before, old⟩
    · exact .inr (.inr ⟨mutexId, rfl, locks, outcome, old⟩)
  · -- the new holder has just returned from `lock`
    refine .inr (.inl fun third waits => ?_)
    obtain ⟨_, blocked, _⟩ := waits
    rcases BlockedOn.of_step runs acted notExit blocked with
      ⟨different, _⟩ | ⟨_, _, blocks⟩
    · exact different rfl
    · rw [outcome] at blocks
      cases blocks
  · -- the new holder has just been woken
    refine .inr (.inl fun third waits => ?_)
    obtain ⟨_, blocked, _⟩ := waits
    rcases BlockedOn.of_step runs acted notExit blocked with
      ⟨_, _, notReadied⟩ | ⟨_, rfl, blocks⟩
    · exact notReadied readied
    · rw [readied_mutexLock acted] at readied
      cases readied

/-- A request that blocks has passed the detector. -/
theorem someone_fits_of_blocked (reached : Reached self)
    (detects : self.deadlockDetect = true)
    (returned : self.step (thread, .mutexLock mutexId) = .ok (after, event))
    (blocks : event.effect.outcome = .blocked)
    (own : self.curTid thread = .ok tid) : ¬ self.NobodyFits tid mutexId := by
  obtain ⟨task, _, effect, runs, acted, rfl⟩ := step_eq_ok returned
  have inside := (reached.numbered runs.lives).tid_lt own
  intro nobody
  obtain ⟨_, calls⟩ := syscall_of_act acted nofun nofun
  obtain ⟨callerTid, need, allocation, callerEq, requested, cases⟩ :=
    sysMutexLock_eq_ok calls
  rw [own] at callerEq
  cases callerEq
  obtain ⟨entries, _⟩ := requestMutex_spec inside requested
  rcases cases with ⟨_, rfl, _⟩ | ⟨detected, _⟩
  · cases blocks
  · rw [detectMutex, if_pos detects] at detected
    have refuses := (mutexDetect_eq_true_iff detected).mpr
      ⟨Nat.zero_lt_of_lt inside, fun other below => by
        rw [show entry need = _ from entries]
        exact nobody other below⟩
    cases refuses

/-! ## Runs -/

/-- The detector is on, and no threads wait for each other. -/
structure NoDeadlock (process : Process) (events : List Event) : Prop where
  reached : Reached process
  detects : process.deadlockDetect = true
  free : ∀ members, ¬ Deadlocked (process.WaitsOn events) members

theorem NoDeadlock.step {move : Nat × Action}
    (noDeadlock : NoDeadlock self events) (uses : UsesMutexes events move)
    (found : self.CyclesFound events move)
    (returned : self.step move = .ok (after, event)) :
    NoDeadlock after (events ++ [event]) := by
  obtain ⟨thread, action⟩ := move
  obtain ⟨task, tid, effect, runs, acted, eventEq⟩ := step_eq_ok returned
  have own := runs.curTid
  have notExit : ∀ exitCode, action ≠ .exit exitCode := by
    rintro exitCode rfl
    exact uses
  have notEnable : ∀ enabled, action ≠ .enableDeadlockDetect enabled := by
    rintro enabled rfl
    exact uses
  refine ⟨noDeadlock.reached.step returned, ?_, fun members deadlocked => ?_⟩
  · rw [(Frame.act own acted).detect notEnable]
    exact noDeadlock.detects
  · by_cases blocks :
      ∃ mutexId holding,
        action = .mutexLock mutexId ∧ event.effect.outcome = .blocked ∧
          owner events mutexId = some holding
    · obtain ⟨mutexId, holding, rfl, blocks, holds⟩ := blocks
      have edge :
          ∀ {waiting other : Nat},
            after.WaitsOn (events ++ [event]) waiting other →
              (self.WaitsOn events waiting other ∨
                  waiting = thread ∧ other = holding) ∨
                ∀ third, ¬ after.WaitsOn (events ++ [event]) other third := by
        intro waiting other waits
        rcases waits.of_step returned notExit with
          before | idle | ⟨id, same, locks, _, idHolds⟩
        · exact .inl (.inl before)
        · exact .inr idle
        · cases locks
          rw [holds] at idHolds
          exact .inl (.inr ⟨same, (Option.some.inj idHolds).symm⟩)
      have closed := deadlocked.of_idle edge
      have reaches := closed.reaches id noDeadlock.free
      exact someone_fits_of_blocked noDeadlock.reached noDeadlock.detects
        returned blocks own (found rfl holds reaches own)
    · refine noDeadlock.free members (deadlocked.of_idle fun waits => ?_)
      rcases waits.of_step returned notExit with
        before | idle | ⟨id, _, locks, outcome, idHolds⟩
      · exact .inl before
      · exact .inr idle
      · exact absurd ⟨id, _, locks, outcome, idHolds⟩ blocks

end Process

end RCoreOS.Kernel
