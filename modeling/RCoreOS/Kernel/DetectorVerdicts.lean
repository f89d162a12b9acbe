import RCoreOS.Kernel.RefusedRequests

/-!
# The verdicts of the two detectors

`sys_semaphore_down` refuses a request exactly when there is no safe order of
all threads, so its loop decides the safety test of the banker's algorithm.

`sys_mutex_lock` looks at one column only and stops as soon as it finds a
thread whose need fits.  What it refuses is refused by the other detector as
well.  The converse fails as soon as one thread fits and others are stuck.
-/

namespace RCoreOS.Kernel

open Lib.FallibleRuns Lib.SafeStates Finset

/-- The call returns the value that stands for a deadlock. -/
def Refuses (call : Except Stop (Process × Effect)) : Prop :=
  ∃ after effect, call = .ok (after, effect) ∧ effect.outcome = refused

namespace Process

variable {self : Process} {thread tid : Nat}

/-! ## Semaphores -/

/-- What the threads hold and need once the thread has asked for a unit. -/
def semaphoreRequest (self : Process) (tid semId : Nat) :
    Resources Nat (Fin self.semaphoreAvailable.length) where
  threads := Finset.range self.tasks.length
  available id := (self.semaphoreAvailable.getD id 0).toNat
  allocation other id := (entry self.semaphoreAllocation other id).toNat
  need other id :=
    (changeEntry (entry self.semaphoreNeed) tid semId (· + 1) other id).toNat

/-- A row of both semaphore tables for each thread. -/
structure SemaphoreRows (process : Process) : Prop where
  need_length : process.tasks.length ≤ process.semaphoreNeed.length
  allocation_length : process.tasks.length ≤ process.semaphoreAllocation.length

/-- The request of the thread is entered into the need table. -/
theorem SemaphoreRows.requested (rows : self.SemaphoreRows) (semId : Nat)
    (inside : tid < self.tasks.length) :
    ∃ padded requested,
      padRow self.semaphoreNeed tid (semId + 1) = .ok padded ∧
        modifyEntry padded tid semId (· + 1) = .ok requested ∧
        self.tasks.length ≤ requested.length ∧
        resources requested self.semaphoreAllocation self.semaphoreAvailable
            self.tasks.length = self.semaphoreRequest tid semId := by
  obtain ⟨padded, paddedEq⟩ :
      ∃ padded, padRow self.semaphoreNeed tid (semId + 1) = .ok padded :=
    modifyAt_returns (inside.trans_le rows.need_length) _
  have column : semId < rowLength padded tid := by
    rw [rowLength_padRow paddedEq, if_pos rfl]
    omega
  obtain ⟨requested, requestedEq⟩ :
      ∃ requested, modifyEntry padded tid semId (· + 1) = .ok requested :=
    modifyEntry_returns_iff.mpr column
  obtain ⟨entries, length⟩ := modifyEntry_spec requestedEq
  obtain ⟨paddedEntries, paddedLength⟩ := padRow_spec paddedEq
  refine ⟨padded, requested, paddedEq, requestedEq, ?_, ?_⟩
  · rw [length, paddedLength]
    exact rows.need_length
  · rw [resources, semaphoreRequest, entries, paddedEntries]

variable {semId : Nat}

/-- The call refuses when the detector does. -/
theorem refuses_sysSemaphoreDown_iff
    {semaphore : Semaphore Nat} {padded requested need allocation : Table}
    {refuses : Bool}
    (found : self.semaphoreList[semId]? = some (some semaphore))
    (caller : self.curTid thread = .ok tid)
    (paddedEq : padRow self.semaphoreNeed tid (semId + 1) = .ok padded)
    (requestedEq : modifyEntry padded tid semId (· + 1) = .ok requested)
    (detected :
      self.detectSemaphore requested = .ok (refuses, need, allocation)) :
    Refuses (self.sysSemaphoreDown thread semId) ↔ refuses = true := by
  constructor
  · rintro ⟨after, effect, returned, outcome⟩
    obtain ⟨callerTid, callerPadded, callerRequested, verdict, _, _, callerEq,
      callerPaddedEq, callerRequestedEq, callerDetected, cases⟩ :=
      sysSemaphoreDown_eq_ok returned
    rw [caller] at callerEq
    cases callerEq
    rw [paddedEq] at callerPaddedEq
    cases callerPaddedEq
    rw [requestedEq] at callerRequestedEq
    cases callerRequestedEq
    rw [detected] at callerDetected
    cases callerDetected
    rcases cases with ⟨refuses, _⟩ | ⟨_, taken, _, downs⟩
    · exact refuses
    · obtain ⟨_, _, _, _, _, ⟨_, rfl, _⟩ | ⟨_, rfl, _⟩⟩ :=
        downSemaphore_eq_ok downs
      · cases outcome
      · cases outcome
  · rintro rfl
    refine ⟨{ self with
      semaphoreNeed := need, semaphoreAllocation := allocation },
      ⟨refused, none⟩, ?_, rfl⟩
    refine bind_eq_ok.mpr ⟨semaphore, object_eq_ok.mpr found, ?_⟩
    refine bind_eq_ok.mpr ⟨tid, caller, ?_⟩
    refine bind_eq_ok.mpr ⟨padded, paddedEq, ?_⟩
    refine bind_eq_ok.mpr ⟨requested, requestedEq, ?_⟩
    exact bind_eq_ok.mpr ⟨_, detected, rfl⟩

/-- What the call needs so that its verdict is that of the safety test. -/
structure DetectsSemaphores (process : Process) (thread tid semId : Nat) :
    Prop extends SemaphoreRows process where
  detects : process.deadlockDetect = true
  found :
    ∃ semaphore, process.semaphoreList[semId]? = some (some semaphore)
  caller : process.curTid thread = .ok tid
  inside : tid < process.tasks.length
  bounded :
    ∀ id, (process.semaphoreRequest tid semId).work
      (Finset.range process.tasks.length) id < 2 ^ 64

/-- `sys_semaphore_down` refuses exactly when the request leaves threads stuck. -/
theorem DetectsSemaphores.refuses_iff_stuck
    (detector : self.DetectsSemaphores thread tid semId) :
    Refuses (self.sysSemaphoreDown thread semId) ↔
      ∃ waiting, (self.semaphoreRequest tid semId).Stuck waiting := by
  obtain ⟨semaphore, found⟩ := detector.found
  obtain ⟨padded, requested, paddedEq, requestedEq, requestedRows, same⟩ :=
    detector.requested semId detector.inside
  obtain ⟨⟨refuses, need, allocation⟩, detected⟩ :=
    semaphoreDetect_returns self.semaphoreAvailable requestedRows
      detector.allocation_length
  have bounded := detector.bounded
  rw [← same] at bounded
  have verdict := semaphoreDetect_eq_true_iff bounded detected
  rw [same] at verdict
  rw [refuses_sysSemaphoreDown_iff found detector.caller paddedEq requestedEq
    (by rw [detectSemaphore, if_pos detector.detects]; exact detected)]
  exact verdict

/--
The search of `sys_semaphore_down` ends by itself, and the call refuses exactly
when no order of the threads is safe.
-/
theorem semaphore_detector_is_safety_test {semId : Nat}
    (detector : self.DetectsSemaphores thread tid semId) :
    (∃ padded requested detection,
      padRow self.semaphoreNeed tid (semId + 1) = .ok padded ∧
        modifyEntry padded tid semId (· + 1) = .ok requested ∧
        detection.isFound = false ∧
        ∀ turns, self.tasks.length < turns →
          semaphoreLoop self.tasks.length turns
              ⟨⟨self.semaphoreAvailable,
                List.replicate self.tasks.length false, false⟩, requested,
                self.semaphoreAllocation⟩ = .ok detection) ∧
      (Refuses (self.sysSemaphoreDown thread semId) ↔
        ¬ ∃ order, (self.semaphoreRequest tid semId).SafeOrder order) := by
  constructor
  · obtain ⟨padded, requested, paddedEq, requestedEq, requestedRows, same⟩ :=
      detector.requested semId detector.inside
    have bounded := detector.bounded
    rw [← same] at bounded
    have sized :
        Sized self.tasks.length
          ⟨⟨self.semaphoreAvailable,
            List.replicate self.tasks.length false, false⟩, requested,
            self.semaphoreAllocation⟩ :=
      ⟨requestedRows, detector.allocation_length, List.length_replicate⟩
    obtain ⟨detection, looped⟩ := sized.loop_returns (self.tasks.length + 1)
    obtain ⟨_, ended, _⟩ := Progressed.start.loop bounded (by omega) looped
    refine ⟨padded, requested, detection, paddedEq, requestedEq, ended,
      fun turns enough => ?_⟩
    obtain ⟨more, rfl⟩ := Nat.exists_eq_add_of_lt enough
    exact semaphoreLoop_stable looped ended (Nat.le_add_right _ _)
  · rw [detector.refuses_iff_stuck, Resources.exists_safeOrder_iff, not_not]

/--
Two threads; the main thread has locked the only mutex and has taken the only
unit of the only semaphore.
-/
def takenOnce : Process :=
  { new with
    threads := [{ TaskControlBlock.new 0 with taskStatus := .running }, .new 1]
    tasks := [some 0, some 1]
    taskResAllocator := RecycleAllocator.new.alloc.2.alloc.2
    mutexList := [some (.blocking ⟨true, []⟩)]
    semaphoreList := [some ⟨0, []⟩]
    deadlockDetect := true
    mutexAvailable := [0]
    semaphoreAvailable := [0]
    mutexAllocation := [[1], [0]]
    semaphoreAllocation := [[1], [0]]
    mutexNeed := [[0], [0]]
    semaphoreNeed := [[0], [0]] }

theorem detectsSemaphores_takenOnce : takenOnce.DetectsSemaphores 0 0 0 := by
  have bounded :
      ∀ id : Fin takenOnce.semaphoreAvailable.length,
        (takenOnce.semaphoreRequest 0 0).work (Finset.range 2) id < 2 ^ 64 := by
    decide
  exact ⟨⟨by decide, by decide⟩, rfl, ⟨_, rfl⟩, rfl, by decide, bounded⟩

theorem refuses_sysSemaphoreDown_takenOnce :
    Refuses (takenOnce.sysSemaphoreDown 0 0) :=
  ⟨{ takenOnce with semaphoreNeed := [[1], [0]] }, ⟨refused, none⟩, rfl, rfl⟩

/-- A thread that asks once more for the unit it holds is refused. -/
theorem semaphore_detector_is_safety_test_takenOnce :
    takenOnce.DetectsSemaphores 0 0 0 ∧
      Refuses (takenOnce.sysSemaphoreDown 0 0) ∧
      ¬ ∃ order, (takenOnce.semaphoreRequest 0 0).SafeOrder order := by
  have detector := detectsSemaphores_takenOnce
  have test := (semaphore_detector_is_safety_test detector).2
  exact ⟨detector, refuses_sysSemaphoreDown_takenOnce,
    test.mp refuses_sysSemaphoreDown_takenOnce⟩

/-! ## Mutexes -/

/-- What the verdict of `sys_mutex_lock` depends on. -/
structure DetectsMutexes (process : Process) (thread tid mutexId : Nat) :
    Prop where
  need_length : process.tasks.length ≤ process.mutexNeed.length
  allocation_length : process.tasks.length ≤ process.mutexAllocation.length
  detects : process.deadlockDetect = true
  found : ∃ mutex, process.mutexList[mutexId]? = some (some mutex)
  caller : process.curTid thread = .ok tid
  inside : tid < process.tasks.length
  column : mutexId < process.mutexAvailable.length

/-- `sys_mutex_lock` refuses when no thread's need of the mutex fits. -/
theorem DetectsMutexes.refuses_iff {mutexId : Nat}
    (detector : self.DetectsMutexes thread tid mutexId) :
    Refuses (self.sysMutexLock thread mutexId) ↔
      ∀ other < self.tasks.length,
        ¬ changeEntry (entry self.mutexNeed) tid mutexId (· + 1) other
            mutexId ≤ self.mutexAvailable.getD mutexId 0 := by
  obtain ⟨⟨need, allocation⟩, requested⟩ :=
    requestMutex_returns detector.need_length detector.allocation_length
  obtain ⟨entries, _⟩ := requestMutex_spec detector.inside requested
  rw [← entries]
  constructor
  · rintro ⟨after, effect, returned, outcome⟩
    obtain ⟨callerTid, callerNeed, callerAllocation, callerEq, callerRequested,
      cases⟩ := sysMutexLock_eq_ok returned
    rw [detector.caller] at callerEq
    cases callerEq
    rw [requested] at callerRequested
    cases callerRequested
    rcases cases with ⟨detected, _⟩ | ⟨_, _, _, _, _, _, _, locks⟩
    · rw [detectMutex, if_pos detector.detects] at detected
      exact ((mutexDetect_eq_true_iff detected).mp rfl).2
    · obtain ⟨_, _, _, _, _, ⟨_, rfl, _⟩ | ⟨_, rfl, _⟩ | ⟨_, rfl, _⟩⟩ :=
        lockMutex_eq_ok locks
      · cases outcome
      · cases outcome
      · cases outcome
  · intro exceeds
    have rows : ∀ other < self.tasks.length, mutexId < rowLength need other := by
      intro other inside
      rw [(rowLength_requestMutex inside requested).1]
      omega
    obtain ⟨refuses, detected⟩ :=
      mutexDetect_returns_of_exceeds detector.column rows exceeds
    have positive := (mutexDetect_eq_true_iff detected).mpr
      ⟨Nat.zero_lt_of_lt detector.inside, exceeds⟩
    rw [positive] at detected
    obtain ⟨mutex, found⟩ := detector.found
    refine ⟨{ self with mutexNeed := need, mutexAllocation := allocation },
      ⟨refused, none⟩, ?_, rfl⟩
    refine bind_eq_ok.mpr ⟨mutex, object_eq_ok.mpr found, ?_⟩
    refine bind_eq_ok.mpr ⟨tid, detector.caller, ?_⟩
    refine bind_eq_ok.mpr ⟨_, requested, ?_⟩
    refine bind_eq_ok.mpr ⟨true, ?_, rfl⟩
    rw [detectMutex, if_pos detector.detects]
    exact detected

/-! ## Both -/

/-- The tables for mutexes and for semaphores hold the same counts. -/
structure SameCounts (process : Process) : Prop where
  available_eq : process.mutexAvailable = process.semaphoreAvailable
  allocation_eq :
    entry process.mutexAllocation = entry process.semaphoreAllocation
  need_eq : entry process.mutexNeed = entry process.semaphoreNeed

/-- Some thread's need of the object fits what is available of it. -/
def SomeoneFits (self : Process) (tid id : Nat) : Prop :=
  ∃ other < self.tasks.length,
    changeEntry (entry self.semaphoreNeed) tid id (· + 1) other id ≤
      self.semaphoreAvailable.getD id 0

/-- When nobody fits, all threads together are stuck. -/
theorem stuck_of_nobody_fits {id : Nat} (inside : tid < self.tasks.length)
    (column : id < self.semaphoreAvailable.length)
    (nobody : ¬ self.SomeoneFits tid id) :
    (self.semaphoreRequest tid id).Stuck
      (self.semaphoreRequest tid id).threads where
  nonempty := ⟨tid, mem_range.mpr inside⟩
  subset := Finset.Subset.refl _
  notFits other member fits := by
    refine nobody ⟨other, mem_range.mp member, ?_⟩
    have here := fits ⟨id, column⟩
    rw [Finset.sdiff_self, Resources.work, sum_empty] at here
    exact here

/--
The two detectors agree exactly when, as soon as one thread's need of the
object fits, there is a safe order of all threads.
-/
theorem detectors_agree_iff {id : Nat}
    (mutexes : self.DetectsMutexes thread tid id)
    (semaphores : self.DetectsSemaphores thread tid id)
    (same : self.SameCounts) :
    (Refuses (self.sysMutexLock thread id) ↔
        Refuses (self.sysSemaphoreDown thread id)) ↔
      (self.SomeoneFits tid id →
        ∃ order, (self.semaphoreRequest tid id).SafeOrder order) := by
  have mutexRefuses :
      Refuses (self.sysMutexLock thread id) ↔ ¬ self.SomeoneFits tid id := by
    rw [mutexes.refuses_iff, same.need_eq, same.available_eq, SomeoneFits]
    push Not
    rfl
  have column : id < self.semaphoreAvailable.length := by
    rw [← same.available_eq]
    exact mutexes.column
  rw [mutexRefuses, semaphores.refuses_iff_stuck,
    Resources.exists_safeOrder_iff]
  constructor
  · intro agree someone stuck
    exact agree.mpr stuck someone
  · intro safe
    constructor
    · intro nobody
      exact ⟨_, stuck_of_nobody_fits semaphores.inside column nobody⟩
    · intro stuck someone
      exact safe someone stuck

/-- The main thread is the only one. -/
def takenAlone : Process :=
  { takenOnce with
    threads := [{ TaskControlBlock.new 0 with taskStatus := .running }]
    tasks := [some 0]
    taskResAllocator := RecycleAllocator.new.alloc.2
    mutexAllocation := [[1]]
    semaphoreAllocation := [[1]]
    mutexNeed := [[0]]
    semaphoreNeed := [[0]] }

/-- A thread that has no other beside it is refused by both detectors. -/
theorem detectors_agree_iff_takenAlone :
    takenAlone.DetectsMutexes 0 0 0 ∧ takenAlone.DetectsSemaphores 0 0 0 ∧
      takenAlone.SameCounts ∧
      (Refuses (takenAlone.sysMutexLock 0 0) ↔
        Refuses (takenAlone.sysSemaphoreDown 0 0)) := by
  have mutexes : takenAlone.DetectsMutexes 0 0 0 :=
    ⟨by decide, by decide, rfl, ⟨_, rfl⟩, rfl, by decide, by decide⟩
  have bounded :
      ∀ id : Fin takenAlone.semaphoreAvailable.length,
        (takenAlone.semaphoreRequest 0 0).work (Finset.range 1) id <
          2 ^ 64 := by
    decide
  have semaphores : takenAlone.DetectsSemaphores 0 0 0 :=
    ⟨⟨by decide, by decide⟩, rfl, ⟨_, rfl⟩, rfl, by decide, bounded⟩
  have same : takenAlone.SameCounts := ⟨rfl, rfl, rfl⟩
  have nobody : ¬ takenAlone.SomeoneFits 0 0 := by
    have exceeds :
        ∀ other < 1,
          ¬ changeEntry (entry [[0]]) 0 0 (· + 1) other 0 ≤ 0 := by
      decide
    rintro ⟨other, inside, fits⟩
    exact exceeds other inside fits
  exact ⟨mutexes, semaphores, same,
    (detectors_agree_iff mutexes semaphores same).mpr
      fun someone => absurd someone nobody⟩

/--
The main thread asks once more for what it holds.  The second thread asks for
nothing, which is enough for `sys_mutex_lock` to let the main thread block.
-/
theorem detectors_disagree :
    takenOnce.DetectsMutexes 0 0 0 ∧ takenOnce.DetectsSemaphores 0 0 0 ∧
      takenOnce.SameCounts ∧ Refuses (takenOnce.sysSemaphoreDown 0 0) ∧
      ¬ Refuses (takenOnce.sysMutexLock 0 0) := by
  refine ⟨⟨by decide, by decide, rfl, ⟨_, rfl⟩, rfl, by decide, by decide⟩,
    detectsSemaphores_takenOnce, ⟨rfl, rfl, rfl⟩,
    refuses_sysSemaphoreDown_takenOnce, ?_⟩
  rintro ⟨after, effect, returned, outcome⟩
  have blocks :
      (takenOnce.sysMutexLock 0 0).map (fun result => result.2.outcome) =
        .ok .blocked := rfl
  rw [returned] at blocks
  have equal : effect.outcome = .blocked := Except.ok.inj blocks
  rw [equal] at outcome
  cases outcome

end Process

end RCoreOS.Kernel
