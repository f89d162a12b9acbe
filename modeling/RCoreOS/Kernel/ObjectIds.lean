import RCoreOS.Kernel.Numbering

/-!
# Identifiers that user programs pass

The calls of `thread.rs` and `sync.rs` index the lists of the process and the
rows of its tables with numbers from user space.  A number that names no object
panics the kernel, except for a tid of `sys_waittid` that has a slot.  A number
that names an object is inside the rows that are indexed, except for the row
that `sys_mutex_unlock` changes: only `sys_mutex_lock` pads that row, for the
threads that exist at that time.
-/

namespace RCoreOS.Kernel

open Lib.FallibleRuns

namespace Process

variable {self after : Process} {thread tid : Nat} {action : Action}

/-! ## What is asked of a call -/

/-- The calls that take the number of an object or of a thread. -/
inductive TakesId : Action → Prop where
  | waittid (tid : Nat) : TakesId (.waittid tid)
  | mutexLock (mutexId : Nat) : TakesId (.mutexLock mutexId)
  | mutexUnlock (mutexId : Nat) : TakesId (.mutexUnlock mutexId)
  | semaphoreUp (semId : Nat) : TakesId (.semaphoreUp semId)
  | semaphoreDown (semId : Nat) : TakesId (.semaphoreDown semId)
  | condvarSignal (condvarId : Nat) : TakesId (.condvarSignal condvarId)
  | condvarWait (condvarId mutexId : Nat) :
      TakesId (.condvarWait condvarId mutexId)

/-- The numbers in the call name objects of the process. -/
def NamesObjects (self : Process) : Action → Prop
  | .waittid tid => ∃ waited, self.tasks[tid]? = some (some waited)
  | .mutexLock mutexId | .mutexUnlock mutexId =>
    ∃ mutex, self.mutexList[mutexId]? = some (some mutex)
  | .semaphoreUp semId | .semaphoreDown semId =>
    ∃ semaphore, self.semaphoreList[semId]? = some (some semaphore)
  | .condvarSignal condvarId =>
    ∃ condvar, self.condvarList[condvarId]? = some (some condvar)
  | .condvarWait condvarId mutexId =>
    (∃ condvar, self.condvarList[condvarId]? = some (some condvar)) ∧
      ∃ mutex, self.mutexList[mutexId]? = some (some mutex)
  | _ => True

/-- The entries that the call uses are inside the rows of the caller. -/
def RowsCovered (self : Process) (tid : Nat) : Action → Prop
  | .mutexLock mutexId =>
    ∃ need allocation,
      requestMutex self.mutexNeed self.mutexAllocation self.tasks.length tid
          mutexId = .ok (need, allocation) ∧
        mutexId < rowLength need tid ∧ mutexId < rowLength allocation tid
  | .mutexUnlock mutexId => mutexId < rowLength self.mutexAllocation tid
  | .semaphoreUp semId =>
    ∃ padded,
      padRow self.semaphoreAllocation tid (semId + 1) = .ok padded ∧
        semId < rowLength padded tid
  | .semaphoreDown semId =>
    ∃ padded requested refuses need allocation grown,
      padRow self.semaphoreNeed tid (semId + 1) = .ok padded ∧
        semId < rowLength padded tid ∧
        modifyEntry padded tid semId (· + 1) = .ok requested ∧
        self.detectSemaphore requested = .ok (refuses, need, allocation) ∧
        semId < rowLength need tid ∧
        padRow allocation tid (semId + 1) = .ok grown ∧
        semId < rowLength grown tid
  | _ => True

/--
The call rejects what names no object and leaves the process alone, and it
stays inside the rows of the caller otherwise.
-/
structure HandlesIds (process : Process) (thread tid : Nat)
    (action : Action) : Prop where
  rejects :
    ¬ process.NamesObjects action →
      ∃ code < 0,
        process.syscall thread action = .ok (process, ⟨.returned code, none⟩)
  covered : process.NamesObjects action → process.RowsCovered tid action

/-- The numbers for which the calls are written. -/
def ExpectsIds (self : Process) (tid : Nat) : Action → Prop
  | .waittid waited => waited < self.tasks.length
  | .mutexUnlock mutexId =>
    self.NamesObjects (.mutexUnlock mutexId) ∧
      mutexId < rowLength self.mutexAllocation tid
  | action => self.NamesObjects action

/-! ## The rows of the mutex tables -/

/-- A thread has as many entries in one table as in the other. -/
def Aligned (self : Process) : Prop :=
  rowLength self.mutexAllocation = rowLength self.mutexNeed

variable {effect : Effect}

variable {mutexId : Nat}

theorem Aligned.sysMutexLock (aligned : self.Aligned)
    (returned : self.sysMutexLock thread mutexId = .ok (after, effect)) :
    after.Aligned := by
  obtain ⟨own, need, allocation, _, requested, cases⟩ :=
    sysMutexLock_eq_ok returned
  have rows : rowLength allocation = rowLength need := by
    funext other
    obtain ⟨needRow, allocationRow⟩ :=
      rowLength_foldlM_requestVisit List.nodup_range requested other
    simp only at needRow allocationRow
    rw [needRow, allocationRow, show rowLength self.mutexAllocation =
      rowLength self.mutexNeed from aligned]
    split
    · omega
    · rfl
  rcases cases with ⟨_, _, rfl⟩ |
    ⟨_, available, granted, settled, _, grantedEq, settledEq, locks⟩
  · exact rows
  · obtain ⟨_, _, _, _, _, ⟨_, _, rfl⟩ | ⟨_, _, rfl⟩ | ⟨_, _, rfl⟩⟩ :=
      lockMutex_eq_ok locks
    all_goals
      exact (rowLength_modifyEntry grantedEq).trans
        (rows.trans (rowLength_modifyEntry settledEq).symm)

theorem Aligned.act {point : SwitchPoint} (aligned : self.Aligned)
    (own : self.curTid thread = .ok tid)
    (returned : self.act thread point action = .ok (after, effect)) :
    after.Aligned := by
  by_cases touches : TouchesMutexTables action
  · rcases act_eq_ok returned with ⟨rfl, _⟩ | ⟨_, rfl, _, _⟩ | ⟨_, calls⟩
    · cases touches
    · cases touches
    · cases action with
      | threadCreate =>
        obtain ⟨_, _, _, _, rfl⟩ := sysThreadCreate_eq_ok calls
        rw [Aligned, rowLength_append_empty, rowLength_append_empty]
        exact aligned
      | mutexCreate blocking =>
        cases calls
        exact aligned
      | mutexLock mutexId => exact aligned.sysMutexLock calls
      | mutexUnlock mutexId =>
        obtain ⟨_, _, _, woken, _, _, _, _, _, _, allocationEq, _, rfl⟩ :=
          sysMutexUnlock_eq_ok calls
        rw [Aligned, wakeupTask_mutexAllocation, wakeupTask_mutexNeed]
        exact (rowLength_modifyEntry allocationEq).trans aligned
      | _ => cases touches
  · obtain ⟨_, allocationEq, needEq⟩ :=
      (Frame.act own returned).mutexTables touches
    rw [Aligned, allocationEq, needEq]
    exact aligned

theorem Reached.aligned (reached : Reached self) : self.Aligned := by
  induction reached with
  | new => rfl
  | step reached returned induction =>
    obtain ⟨_, _, _, runs, acted, _⟩ := step_eq_ok returned
    exact induction.act runs.curTid acted
  | fork reached returned induction =>
    rw [Process.fork] at returned
    split at returned
    · cases returned
      exact induction
    · cases returned
  | relink parent children reached induction => exact induction

/-! ## The calls -/

theorem Numbered.rowsCovered_mutexLock (numbered : self.Numbered)
    (aligned : self.Aligned) (inside : tid < self.tasks.length) :
    self.RowsCovered tid (.mutexLock mutexId) := by
  obtain ⟨⟨need, allocation⟩, requested⟩ :=
    requestMutex_returns (Nat.le_of_eq numbered.mutexNeed_length.symm)
      (Nat.le_of_eq numbered.mutexAllocation_length.symm)
  obtain ⟨needRow, allocationRow⟩ := rowLength_requestMutex inside requested
  have rows : rowLength self.mutexAllocation tid = rowLength self.mutexNeed tid :=
    congrFun aligned tid
  refine ⟨need, allocation, requested, ?_, ?_⟩
  · rw [needRow]
    omega
  · rw [allocationRow]
    omega

/-- The row has the entry once it is padded. -/
theorem padRow_covers {table : Table} {id : Nat} (inside : tid < table.length) :
    ∃ padded,
      padRow table tid (id + 1) = .ok padded ∧ id < rowLength padded tid := by
  obtain ⟨padded, paddedEq⟩ :
      ∃ padded, padRow table tid (id + 1) = .ok padded :=
    modifyAt_returns inside _
  refine ⟨padded, paddedEq, ?_⟩
  rw [rowLength_padRow paddedEq, if_pos rfl]
  omega

theorem detectSemaphore_returns {requested : Table}
    (needRows : self.tasks.length ≤ requested.length)
    (allocationRows : self.tasks.length ≤ self.semaphoreAllocation.length) :
    ∃ refuses need allocation,
      self.detectSemaphore requested = .ok (refuses, need, allocation) ∧
        ∀ tid, rowLength requested tid ≤ rowLength need tid := by
  rw [detectSemaphore]
  split
  · obtain ⟨⟨refuses, need, allocation⟩, detected⟩ :=
      semaphoreDetect_returns self.semaphoreAvailable needRows allocationRows
    exact ⟨refuses, need, allocation, detected,
      rowLength_le_semaphoreDetect detected⟩
  · exact ⟨false, requested, self.semaphoreAllocation, rfl,
      fun _ => Nat.le_refl _⟩

theorem Numbered.rowsCovered_semaphoreDown (numbered : self.Numbered)
    {semId : Nat} (inside : tid < self.tasks.length) :
    self.RowsCovered tid (.semaphoreDown semId) := by
  have needLength := numbered.semaphoreNeed_length
  have allocationLength := numbered.semaphoreAllocation_length
  obtain ⟨padded, paddedEq, paddedRow⟩ :
      ∃ padded,
        padRow self.semaphoreNeed tid (semId + 1) = .ok padded ∧
          semId < rowLength padded tid :=
    padRow_covers (by omega)
  obtain ⟨requested, requestedEq⟩ :
      ∃ requested, modifyEntry padded tid semId (· + 1) = .ok requested :=
    modifyEntry_returns_iff.mpr paddedRow
  have requestedLength : requested.length = self.tasks.length := by
    rw [(modifyEntry_spec requestedEq).2, (padRow_spec paddedEq).2, needLength]
  obtain ⟨refuses, need, allocation, detected, grows⟩ :=
    detectSemaphore_returns (Nat.le_of_eq requestedLength.symm)
      (Nat.le_of_eq allocationLength.symm)
  obtain ⟨_, _, _, laterLength⟩ := detectSemaphore_entries detected
  obtain ⟨grown, grownEq, grownRow⟩ :
      ∃ grown,
        padRow allocation tid (semId + 1) = .ok grown ∧
          semId < rowLength grown tid :=
    padRow_covers (by omega)
  refine ⟨padded, requested, refuses, need, allocation, grown, paddedEq,
    paddedRow, requestedEq, detected, ?_, grownEq, grownRow⟩
  rw [← rowLength_modifyEntry requestedEq] at paddedRow
  exact Nat.lt_of_lt_of_le paddedRow (grows tid)

/-- A list index or an `unwrap` that fails ends the call. -/
theorem syscall_names (takes : TakesId action)
    (notWaits : ∀ tid, action ≠ .waittid tid)
    (returned : self.syscall thread action = .ok (after, effect)) :
    self.NamesObjects action := by
  cases takes with
  | waittid tid => exact absurd rfl (notWaits tid)
  | mutexLock mutexId
  | mutexUnlock mutexId =>
    obtain ⟨mutex, found, _⟩ := bind_eq_ok.mp returned
    exact ⟨mutex, object_eq_ok.mp found⟩
  | semaphoreUp semId =>
    obtain ⟨semaphore, found, _⟩ := bind_eq_ok.mp returned
    exact ⟨semaphore, object_eq_ok.mp found⟩
  | semaphoreDown semId =>
    obtain ⟨semaphore, found, _⟩ := bind_eq_ok.mp returned
    exact ⟨semaphore, object_eq_ok.mp found⟩
  | condvarSignal condvarId =>
    obtain ⟨condvar, found, _⟩ := bind_eq_ok.mp returned
    exact ⟨condvar, object_eq_ok.mp found⟩
  | condvarWait condvarId mutexId =>
    obtain ⟨condvar, found, rest⟩ := bind_eq_ok.mp returned
    obtain ⟨mutex, mutexFound, _⟩ := bind_eq_ok.mp rest
    exact ⟨⟨condvar, object_eq_ok.mp found⟩, mutex, object_eq_ok.mp mutexFound⟩

/-- The calls other than `sys_waittid` reject nothing. -/
theorem HandlesIds.names (handles : self.HandlesIds thread tid action)
    (takes : TakesId action) (notWaits : ∀ tid, action ≠ .waittid tid) :
    self.NamesObjects action := by
  by_contra unnamed
  obtain ⟨code, _, returned⟩ := handles.rejects unnamed
  exact unnamed (syscall_names takes notWaits returned)

theorem HandlesIds.of_names (names : self.NamesObjects action)
    (covered : self.RowsCovered tid action) :
    self.HandlesIds thread tid action :=
  ⟨fun unnamed => absurd names unnamed, fun _ => covered⟩

/-- `sys_waittid` rejects the tids of empty slots. -/
theorem Numbered.handlesIds_waittid_iff (numbered : self.Numbered)
    (own : self.curTid thread = .ok tid) {waited : Nat} :
    self.HandlesIds thread tid (.waittid waited) ↔
      waited < self.tasks.length := by
  constructor
  · intro handles
    by_contra outside
    have nothing : self.tasks[waited]? = none :=
      List.getElem?_eq_none (Nat.le_of_not_lt outside)
    have unnamed : ¬ self.NamesObjects (.waittid waited) := by
      rintro ⟨_, found⟩
      rw [nothing] at found
      cases found
    obtain ⟨code, _, returned⟩ := handles.rejects unnamed
    obtain ⟨curTid, curTidEq, cases⟩ := sysWaittid_eq_ok returned
    rw [own] at curTidEq
    cases curTidEq
    rcases cases with ⟨_, _, same | empty⟩ | ⟨_, _, _, slot, _⟩
    · exact outside (same ▸ numbered.tid_lt own)
    · rw [nothing] at empty
      cases empty
    · rw [nothing] at slot
      cases slot
  · intro inside
    refine ⟨fun unnamed => ⟨-1, by decide, ?_⟩, fun _ => trivial⟩
    have slot : self.tasks[waited]? = some none := by
      have found := List.getElem?_eq_getElem inside
      cases held : self.tasks[waited] with
      | none => rw [found, held]
      | some other => exact absurd ⟨other, by rw [found, held]⟩ unnamed
    have other : tid ≠ waited := by
      rintro rfl
      obtain ⟨task, found, res⟩ := curTid_eq_ok.mp own
      exact unnamed ⟨thread, (numbered.live found res).1⟩
    refine bind_eq_ok.mpr ⟨tid, own, ?_⟩
    rw [if_neg other]
    exact bind_eq_ok.mpr ⟨none, index_eq_ok.mpr slot, rfl⟩

/--
A call handles the numbers it is given exactly when they name objects, where a
slot is enough for `sys_waittid`, and the row that `sys_mutex_unlock` changes
has the entry.
-/
theorem handles_ids_iff (reached : Reached self) {task : TaskControlBlock}
    (runs : self.Runs thread task tid) (takes : TakesId action) :
    self.HandlesIds thread tid action ↔ self.ExpectsIds tid action := by
  have numbered := reached.numbered runs.lives
  have own := runs.curTid
  have inside := numbered.tid_lt own
  cases takes with
  | waittid waited => exact numbered.handlesIds_waittid_iff own
  | mutexLock mutexId =>
    refine ⟨fun handles => handles.names (.mutexLock mutexId) nofun,
      fun names => .of_names names ?_⟩
    exact numbered.rowsCovered_mutexLock reached.aligned inside
  | mutexUnlock mutexId =>
    constructor
    · intro handles
      have names := handles.names (.mutexUnlock mutexId) nofun
      exact ⟨names, handles.covered names⟩
    · rintro ⟨names, covered⟩
      exact .of_names names covered
  | semaphoreUp semId =>
    refine ⟨fun handles => handles.names (.semaphoreUp semId) nofun,
      fun names => .of_names names ?_⟩
    exact padRow_covers
      (Nat.lt_of_lt_of_eq inside numbered.semaphoreAllocation_length.symm)
  | semaphoreDown semId =>
    refine ⟨fun handles => handles.names (.semaphoreDown semId) nofun,
      fun names => .of_names names ?_⟩
    exact numbered.rowsCovered_semaphoreDown inside
  | condvarSignal condvarId =>
    exact ⟨fun handles => handles.names (.condvarSignal condvarId) nofun,
      fun names => .of_names names trivial⟩
  | condvarWait condvarId mutexId =>
    exact ⟨
      fun handles => handles.names (.condvarWait condvarId mutexId) nofun,
      fun names => .of_names names trivial⟩

/-- The main thread of a new process locks a mutex that it has created. -/
theorem handles_ids_iff_created :
    ∃ self event,
      Process.new.step (0, .mutexCreate true) = .ok (self, event) ∧
        self.HandlesIds 0 0 (.mutexLock 0) := by
  have reached := Reached.new.step
    (show Process.step _ (0, .mutexCreate true) = .ok (_, _) from rfl)
  refine ⟨_, _, rfl, ?_⟩
  exact (handles_ids_iff reached ⟨rfl, rfl, rfl, by decide, rfl⟩
    (.mutexLock 0)).mpr ⟨_, rfl⟩

/--
A new process has no mutex zero.  A thread that is created after a mutex was
locked has no entry for the mutex in its row.
-/
theorem bad_ids_panic :
    Process.new.syscall 0 (.mutexLock 0) = .error .panicked ∧
      ¬ Process.new.HandlesIds 0 0 (.mutexLock 0) ∧
      ∃ self events,
        run step .new
            [(0, .mutexCreate true), (0, .mutexLock 0), (0, .threadCreate)] =
          .ok (self, events) ∧
          self.syscall 1 (.mutexUnlock 0) = .error .panicked ∧
          ¬ self.HandlesIds 1 1 (.mutexUnlock 0) := by
  refine ⟨rfl, fun handles => ?_, _, _, rfl, rfl, fun handles => ?_⟩
  · obtain ⟨mutex, found⟩ := handles.names (.mutexLock 0) nofun
    cases found
  · have covered : 0 < rowLength _ 1 := handles.covered ⟨_, rfl⟩
    exact absurd covered (by decide)

end Process

end RCoreOS.Kernel
