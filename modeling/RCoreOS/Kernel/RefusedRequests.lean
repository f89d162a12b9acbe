import RCoreOS.Kernel.Numbering

/-!
# Requests that the detector refuses

`sys_mutex_lock` and `sys_semaphore_down` count the request in the need table
before they look for a deadlock, and return early when they find one.  The
request then stays in the table, although the thread does not wait.
-/

namespace RCoreOS.Kernel

open Lib.FallibleRuns

/-- Both calls return this value when they find a deadlock. -/
def refused : Outcome := .returned (-0xDEAD)

namespace Process

variable {self after : Process} {effect : Effect} {thread : Nat}

/-- The tables have the same entries; an absent entry is zero. -/
structure SameTables (before after : Process) : Prop where
  mutexAvailable_eq :
    ∀ id, after.mutexAvailable.getD id 0 = before.mutexAvailable.getD id 0
  mutexAllocation_eq :
    entry after.mutexAllocation = entry before.mutexAllocation
  mutexNeed_eq : entry after.mutexNeed = entry before.mutexNeed
  semaphoreAvailable_eq :
    ∀ id, after.semaphoreAvailable.getD id 0 =
      before.semaphoreAvailable.getD id 0
  semaphoreAllocation_eq :
    entry after.semaphoreAllocation = entry before.semaphoreAllocation
  semaphoreNeed_eq : entry after.semaphoreNeed = entry before.semaphoreNeed

/-- The calls that ask for a mutex or for a unit of a semaphore. -/
inductive Requests : Action → Prop where
  | mutexLock (mutexId : Nat) : Requests (.mutexLock mutexId)
  | semaphoreDown (semId : Nat) : Requests (.semaphoreDown semId)

/-- One more request in an entry is another entry. -/
theorem changeEntry_add_one_ne (counts : Nat → Nat → Usize) (tid id : Nat) :
    changeEntry counts tid id (· + 1) ≠ counts := by
  intro equal
  have here := congrFun (congrFun equal tid) id
  rw [changeEntry, if_pos ⟨rfl, rfl⟩] at here
  have one : (1 : Usize) = 0 := by
    have cancel := congrArg (· - counts tid id) here
    simp only [BitVec.add_comm (counts tid id), BitVec.add_sub_cancel,
      BitVec.sub_self] at cancel
    exact cancel
  exact absurd one (by decide)

/-- A refused `sys_mutex_lock` has counted its request. -/
theorem sysMutexLock_refused (numbered : self.Numbered) {mutexId : Nat}
    (returned : self.sysMutexLock thread mutexId = .ok (after, effect))
    (refuses : effect.outcome = refused) :
    ∃ tid, entry after.mutexNeed =
      changeEntry (entry self.mutexNeed) tid mutexId (· + 1) := by
  obtain ⟨tid, need, allocation, tidEq, requested, cases⟩ :=
    sysMutexLock_eq_ok returned
  rcases cases with ⟨_, _, rfl⟩ | ⟨_, _, _, _, _, _, _, locks⟩
  · exact ⟨tid, (requestMutex_spec (numbered.tid_lt tidEq) requested).1⟩
  · obtain ⟨_, _, _, _, _, cases⟩ := lockMutex_eq_ok locks
    rcases cases with ⟨_, rfl, _⟩ | ⟨_, rfl, _⟩ | ⟨_, rfl, _⟩
    all_goals exact absurd refuses (by decide)

theorem sysSemaphoreDown_refused {semId : Nat}
    (returned : self.sysSemaphoreDown thread semId = .ok (after, effect))
    (refuses : effect.outcome = refused) :
    ∃ tid, entry after.semaphoreNeed =
      changeEntry (entry self.semaphoreNeed) tid semId (· + 1) := by
  obtain ⟨tid, padded, requested, verdict, need, allocation, tidEq, paddedEq,
    requestedEq, detected, cases⟩ := sysSemaphoreDown_eq_ok returned
  rcases cases with ⟨_, _, rfl⟩ | ⟨_, taken, _, downs⟩
  · refine ⟨tid, (detectSemaphore_entries detected).1.trans ?_⟩
    rw [(modifyEntry_spec requestedEq).1, (padRow_spec paddedEq).1]
  · obtain ⟨_, _, _, _, _, cases⟩ := downSemaphore_eq_ok downs
    rcases cases with ⟨_, rfl, _⟩ | ⟨_, rfl, _⟩
    all_goals exact absurd refuses (by decide)

/--
Whatever happened before, a request that is refused leaves the tables of its
process changed.
-/
theorem refused_request_leaves_trace (reached : Reached self)
    {action : Action} {event : Event} (requests : Requests action)
    (returned : self.step (thread, action) = .ok (after, event))
    (refuses : event.effect.outcome = refused) :
    ¬ SameTables self after := by
  obtain ⟨task, tid, effect, runs, acted, rfl⟩ := step_eq_ok returned
  have numbered := reached.numbered runs.lives
  intro same
  rcases act_eq_ok acted with ⟨rfl, _⟩ | ⟨_, rfl, _, _⟩ | ⟨_, calls⟩
  · cases requests
  · cases requests
  · cases requests with
    | mutexLock mutexId =>
      obtain ⟨tid, counted⟩ := sysMutexLock_refused numbered calls refuses
      rw [same.mutexNeed_eq] at counted
      exact changeEntry_add_one_ne _ _ _ counted.symm
    | semaphoreDown semId =>
      obtain ⟨tid, counted⟩ := sysSemaphoreDown_refused calls refuses
      rw [same.semaphoreNeed_eq] at counted
      exact changeEntry_add_one_ne _ _ _ counted.symm

/-- The only thread locks the only mutex, with the detector switched on. -/
def lockedOnce : List (Nat × Action) :=
  [(0, .enableDeadlockDetect 1), (0, .mutexCreate true), (0, .mutexLock 0)]

theorem refused_request_leaves_trace_lockedOnce :
    ∃ before after events event,
      run step .new lockedOnce = .ok (before, events) ∧
        before.step (0, .mutexLock 0) = .ok (after, event) ∧
        event.effect.outcome = refused ∧ ¬ SameTables before after := by
  have reached :=
    ((Reached.new.step (show _ = .ok (_, _) from rfl :
        Process.new.step (0, .enableDeadlockDetect 1) = _)).step
      (show _ = .ok (_, _) from rfl :
        step _ (0, .mutexCreate true) = _)).step
      (show _ = .ok (_, _) from rfl : step _ (0, .mutexLock 0) = _)
  have traced :=
    refused_request_leaves_trace reached (.mutexLock 0)
      (show _ = .ok (_, _) from rfl : step _ (0, .mutexLock 0) = _) rfl
  exact ⟨_, _, _, _, rfl, rfl, rfl, traced⟩

/--
The thread locks the mutex that it holds and is refused.  After it has
unlocked the mutex it is refused again, and would not be had it not asked.
-/
theorem refused_lock_is_refused_again :
    ∃ before after events event,
      run step .new lockedOnce = .ok (before, events) ∧
        before.step (0, .mutexLock 0) = .ok (after, event) ∧
        event.effect.outcome = refused ∧ ¬ SameTables before after ∧
        (run step after [(0, .mutexUnlock 0), (0, .mutexLock 0)]).map
            (fun result => result.2.map fun event => event.effect.outcome) =
          .ok [.returned 0, refused] ∧
        (run step before [(0, .mutexUnlock 0), (0, .mutexLock 0)]).map
            (fun result => result.2.map fun event => event.effect.outcome) =
          .ok [.returned 0, .returned 0] := by
  refine ⟨_, _, _, _, rfl, rfl, rfl, fun same => ?_, rfl, rfl⟩
  have counted := congrFun (congrFun same.mutexNeed_eq 0) 0
  exact absurd counted (by decide)

end Process

end RCoreOS.Kernel
