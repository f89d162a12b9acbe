import RCoreOS.Kernel.Primitives

/-!
# One mutex, its condition variables and any number of threads

A state machine around one `Mutex` of either kind and a family of condition
variables.  Each step is what one thread does from the moment it runs until it
returns from a call, blocks or yields.

Neither kind of mutex stores its holder.  `holds` records it: a thread holds
the mutex from a return of `lock`, or of the `lock` inside `Condvar::wait`, to
its next release.  A thread that `unlock` has woken owns the mutex before it
runs again.  The invariant says that the mutex is locked exactly when it has
an owner, and then has only one.
-/

namespace RCoreOS.Kernel

open Lib.FallibleRuns Mutex List Function

/-- Where a thread is, relative to the calls on the mutex. -/
inductive Place (κ : Type) where
  | outside
  -- in `MutexBlocking::lock`, at `block_current_and_run_next`
  | queued
  -- in `MutexSpin::lock`, at `suspend_current_and_run_next`
  | spinning
  -- in `Condvar::wait`, at `block_current_and_run_next`
  | waiting (condvar : κ)
deriving DecidableEq, Repr

structure LockState (τ κ : Type) where
  mutex : Mutex τ
  condvars : κ → Condvar τ
  place : τ → Place κ
  status : τ → TaskStatus
  holds : τ → Bool

inductive LockOp (τ κ : Type) where
  | lock (thread : τ)
  | unlock (thread : τ)
  | wait (thread : τ) (condvar : κ)
  | signal (thread : τ) (condvar : κ)
  -- a thread that was switched out inside a call runs again
  | resume (thread : τ)

inductive LockEvent (τ κ : Type) where
  | acquired (thread : τ)
  | yields (thread : τ)
  | queues (thread : τ)
  | unlocks (thread : τ) (woken : Option τ)
  | waits (thread : τ) (condvar : κ) (woken : Option τ)
  | signals (thread : τ) (condvar : κ) (woken : Option τ)

variable {τ κ : Type}

namespace LockState

/-- A new mutex and new condition variables; no thread is inside a call. -/
def new (blocking : Bool) : LockState τ κ where
  mutex := .new blocking
  condvars _ := .new
  place _ := .outside
  status _ := .ready
  holds _ := false

/-- The thread runs in user mode. -/
def Runs (state : LockState τ κ) (thread : τ) : Prop :=
  state.place thread = .outside ∧ state.status thread ≠ .blocked

instance [DecidableEq κ] (state : LockState τ κ) (thread : τ) :
    Decidable (state.Runs thread) :=
  inferInstanceAs (Decidable (_ ∧ _))

/-- The thread holds the mutex or was handed it by `unlock`. -/
def Owns (state : LockState τ κ) (thread : τ) : Prop :=
  state.holds thread = true ∨
    (state.place thread = .queued ∧ state.status thread ≠ .blocked)

/-! ## The invariant -/

/-- The mutex, its queue and the condition variables agree with the threads. -/
structure Coherent (state : LockState τ κ) : Prop where
  owned :
    state.mutex.locked = true →
      ∃ owner, ∀ thread, state.Owns thread ↔ thread = owner
  unowned :
    state.mutex.locked = false →
      (∀ thread, ¬ state.Owns thread) ∧ state.mutex.waitQueue = []
  nodup : state.mutex.waitQueue.Nodup
  mem_queue :
    ∀ thread,
      thread ∈ state.mutex.waitQueue ↔
        state.place thread = .queued ∧ state.status thread = .blocked
  condvar_nodup : ∀ condvar, (state.condvars condvar).waitQueue.Nodup
  mem_condvar :
    ∀ condvar thread,
      thread ∈ (state.condvars condvar).waitQueue ↔
        state.place thread = .waiting condvar ∧ state.status thread = .blocked

variable {state : LockState τ κ}

theorem Runs.not_queued {thread : τ} (runs : state.Runs thread) :
    state.place thread ≠ .queued := by
  rw [runs.1]
  exact nofun

theorem Coherent.new (blocking : Bool) :
    (LockState.new blocking : LockState τ κ).Coherent where
  owned locked := by
    rw [LockState.new, locked_new] at locked
    cases locked
  unowned _ := by
    refine ⟨?_, waitQueue_new blocking⟩
    rintro thread (holds | ⟨queued, _⟩)
    · cases holds
    · cases queued
  nodup := by
    rw [LockState.new, waitQueue_new]
    exact nodup_nil
  mem_queue thread := by
    rw [LockState.new, waitQueue_new]
    constructor
    · intro member
      cases member
    · rintro ⟨queued, _⟩
      cases queued
  condvar_nodup _ := nodup_nil
  mem_condvar condvar thread := by
    constructor
    · intro member
      cases member
    · rintro ⟨waiting, _⟩
      cases waiting

/-- The owner of a locked mutex is the only one. -/
theorem Coherent.owner_unique (coherent : state.Coherent) {first second : τ}
    (firstOwns : state.Owns first) (secondOwns : state.Owns second) :
    first = second := by
  cases locked : state.mutex.locked with
  | false => exact absurd firstOwns ((coherent.unowned locked).1 first)
  | true =>
    obtain ⟨owner, owns⟩ := coherent.owned locked
    rw [(owns first).mp firstOwns, (owns second).mp secondOwns]

theorem Coherent.locked_of_owns (coherent : state.Coherent) {thread : τ}
    (owns : state.Owns thread) : state.mutex.locked = true := by
  cases locked : state.mutex.locked with
  | false => exact absurd owns ((coherent.unowned locked).1 thread)
  | true => rfl

/-- A thread that is not blocked is in no queue. -/
theorem Coherent.not_mem_queue (coherent : state.Coherent) {thread : τ}
    (runs : state.status thread ≠ .blocked) :
    thread ∉ state.mutex.waitQueue :=
  fun member => runs ((coherent.mem_queue thread).mp member).2

theorem Coherent.not_mem_condvar (coherent : state.Coherent) {thread : τ}
    (runs : state.status thread ≠ .blocked) (condvar : κ) :
    thread ∉ (state.condvars condvar).waitQueue :=
  fun member => runs ((coherent.mem_condvar condvar thread).mp member).2

/-! ## What the calls change -/

variable [DecidableEq τ]

/-- The thread returns from `lock`. -/
def acquired (state : LockState τ κ) (mutex : Mutex τ) (thread : τ) :
    LockState τ κ :=
  { state with
    mutex
    place := Function.update state.place thread .outside
    status := Function.update state.status thread .running
    holds := Function.update state.holds thread true }

/-- The thread is switched out at `place`. -/
def switchedOut (state : LockState τ κ) (thread : τ) (place : Place κ)
    (status : TaskStatus) : LockState τ κ :=
  { state with
    place := Function.update state.place thread place
    status := Function.update state.status thread status }

/-- The thread has given up the mutex and woken the next one. -/
def released (state : LockState τ κ) (mutex : Mutex τ) (thread : τ)
    (woken : Option τ) : LockState τ κ :=
  { state with
    mutex
    status := wakeup state.status woken
    holds := Function.update state.holds thread false }

/-- The thread calls `Mutex::lock`, or comes back to the top of its loop. -/
def lock (state : LockState τ κ) (thread : τ) :
    Except Stop (LockState τ κ × LockEvent τ κ) := do
  let (mutex, progress) ← state.mutex.lock thread
  match progress with
  | .returned => return (state.acquired mutex thread, .acquired thread)
  | .suspended =>
    return ({ state with mutex }.switchedOut thread .spinning .ready,
      .yields thread)
  | .blocked =>
    return ({ state with mutex }.switchedOut thread .queued .blocked,
      .queues thread)

theorem owns_acquired {mutex : Mutex τ} {thread other : τ} :
    (state.acquired mutex thread).Owns other ↔
      other = thread ∨ state.Owns other := by
  by_cases same : other = thread
  · subst same
    simp [Owns, acquired]
  · simp [Owns, acquired, same]

theorem owns_switchedOut {thread other : τ} {place : Place κ}
    {status : TaskStatus} (notQueued : state.place thread ≠ .queued)
    (parked : place = .queued → status = .blocked) :
    (state.switchedOut thread place status).Owns other ↔
      state.Owns other := by
  by_cases same : other = thread
  · subst same
    simpa [Owns, switchedOut, notQueued] using
      fun queued blocked => absurd (parked queued) blocked
  · simp [Owns, switchedOut, same]

/-- A thread that goes on running stays outside of the queues. -/
theorem Coherent.acquired (coherent : state.Coherent) {mutex : Mutex τ}
    {thread : τ} (runs : state.status thread ≠ .blocked)
    (alone : ∀ other, state.Owns other → other = thread)
    (locked : mutex.locked = true)
    (queue : mutex.waitQueue = state.mutex.waitQueue) :
    (state.acquired mutex thread).Coherent where
  owned _ := by
    refine ⟨thread, fun other => ?_⟩
    rw [owns_acquired]
    exact ⟨fun owns => owns.elim id (alone other), .inl⟩
  unowned free := by
    rw [LockState.acquired, locked] at free
    cases free
  nodup := by
    rw [LockState.acquired, queue]
    exact coherent.nodup
  mem_queue other := by
    rw [LockState.acquired, queue]
    by_cases same : other = thread
    · subst same
      simp [coherent.not_mem_queue runs]
    · simp [same, coherent.mem_queue]
  condvar_nodup := coherent.condvar_nodup
  mem_condvar condvar other := by
    by_cases same : other = thread
    · subst same
      simp [LockState.acquired, coherent.not_mem_condvar runs]
    · simp [LockState.acquired, same, coherent.mem_condvar]

theorem Coherent.yields (coherent : state.Coherent) {thread : τ}
    (runs : state.status thread ≠ .blocked)
    (notQueued : state.place thread ≠ .queued) :
    (state.switchedOut thread .spinning .ready).Coherent where
  owned locked := by
    obtain ⟨owner, owns⟩ := coherent.owned locked
    refine ⟨owner, fun other => ?_⟩
    rw [owns_switchedOut notQueued (by exact nofun)]
    exact owns other
  unowned free := by
    obtain ⟨nobody, empty⟩ := coherent.unowned free
    refine ⟨fun other owns => nobody other ?_, empty⟩
    rw [owns_switchedOut notQueued (by exact nofun)] at owns
    exact owns
  nodup := coherent.nodup
  mem_queue other := by
    by_cases same : other = thread
    · subst same
      simp [switchedOut, coherent.not_mem_queue runs]
    · simp [switchedOut, same, coherent.mem_queue]
  condvar_nodup := coherent.condvar_nodup
  mem_condvar condvar other := by
    by_cases same : other = thread
    · subst same
      simp [switchedOut, coherent.not_mem_condvar runs]
    · simp [switchedOut, same, coherent.mem_condvar]

theorem Coherent.queues (coherent : state.Coherent) {mutex : Mutex τ}
    {thread : τ} (runs : state.status thread ≠ .blocked)
    (notQueued : state.place thread ≠ .queued)
    (held : state.mutex.locked = true) (locked : mutex.locked = true)
    (queue : mutex.waitQueue = state.mutex.waitQueue ++ [thread]) :
    ({ state with mutex }.switchedOut thread .queued .blocked).Coherent where
  owned _ := by
    obtain ⟨owner, owns⟩ := coherent.owned held
    refine ⟨owner, fun other => ?_⟩
    exact (owns_switchedOut notQueued fun _ => rfl).trans (owns other)
  unowned free := by
    rw [switchedOut, locked] at free
    cases free
  nodup := by
    rw [switchedOut, queue]
    exact coherent.nodup.append (nodup_singleton thread)
      (disjoint_singleton.mpr (coherent.not_mem_queue runs))
  mem_queue other := by
    rw [switchedOut, queue]
    by_cases same : other = thread
    · subst same
      simp
    · simp [same, coherent.mem_queue]
  condvar_nodup := coherent.condvar_nodup
  mem_condvar condvar other := by
    by_cases same : other = thread
    · subst same
      simp [switchedOut, coherent.not_mem_condvar runs]
    · simp [switchedOut, same, coherent.mem_condvar]

/-- After a release the thread that was woken is the owner, if there is one. -/
theorem Coherent.owns_released (coherent : state.Coherent)
    (mutex : Mutex τ) (other : τ) (woken : Option τ) {thread : τ}
    (runs : state.Runs thread) (holds : state.holds thread = true)
    (queued : ∀ task, woken = some task → state.place task = .queued) :
    (state.released mutex thread woken).Owns other ↔
      woken = some other := by
  have ownerIs : ∀ owner, state.Owns owner → owner = thread :=
    fun owner owns => coherent.owner_unique owns (.inl holds)
  have outside : ∀ owner, state.Owns owner → state.place owner ≠ .queued := by
    intro owner owns
    rw [ownerIs owner owns, runs.1]
    exact nofun
  constructor
  · rintro (holding | ⟨inside, ready⟩)
    · by_cases same : other = thread
      · subst same
        simp [released] at holding
      · have held : state.holds other = true := by
          simpa [released, same] using holding
        exact absurd (ownerIs other (.inl held)) same
    · cases woken with
      | none => exact absurd inside (outside other (.inr ⟨inside, ready⟩))
      | some task =>
        by_cases same : other = task
        · rw [same]
        · have awake : state.status other ≠ .blocked := by
            simpa [released, wakeup, same] using ready
          exact absurd inside (outside other (.inr ⟨inside, awake⟩))
  · rintro rfl
    refine .inr ⟨queued other rfl, ?_⟩
    simp [released, wakeup]

theorem Coherent.released (coherent : state.Coherent) {mutex : Mutex τ}
    {thread : τ} {woken : Option τ} (runs : state.Runs thread)
    (holds : state.holds thread = true)
    (unlocked : state.mutex.unlock = .ok (mutex, woken)) :
    (state.released mutex thread woken).Coherent := by
  rcases unlock_cases unlocked with
    ⟨task, rfl, queue, _, locked⟩ | ⟨rfl, queue, emptied, free⟩
  · have member : task ∈ state.mutex.waitQueue := by
      rw [queue]
      exact mem_cons_self
    have queued := ((coherent.mem_queue task).mp member).1
    have nodup := coherent.nodup
    rw [queue, nodup_cons] at nodup
    have owns := fun other =>
      coherent.owns_released mutex other (some task) runs holds fun _ equal =>
        Option.some.inj equal ▸ queued
    refine ⟨fun _ => ⟨task, fun other => ?_⟩, ?_, nodup.2, ?_,
      coherent.condvar_nodup, ?_⟩
    · rw [owns other, Option.some.injEq, eq_comm]
    · intro unlocked
      rw [LockState.released, locked] at unlocked
      cases unlocked
    · intro other
      by_cases same : other = task
      · subst same
        simp [LockState.released, wakeup, nodup.1]
      · have old := coherent.mem_queue other
        rw [queue, mem_cons, or_iff_right same] at old
        simp [LockState.released, wakeup, same, old]
    · intro condvar other
      by_cases same : other = task
      · subst same
        simp [LockState.released, wakeup, coherent.mem_condvar, queued]
      · simp [LockState.released, wakeup, same, coherent.mem_condvar]
  · have owns := fun other =>
      coherent.owns_released mutex other none runs holds nofun
    refine ⟨?_, fun _ => ⟨fun other owned => ?_, emptied⟩, ?_, ?_,
      coherent.condvar_nodup, coherent.mem_condvar⟩
    · intro unlocked
      rw [LockState.released, free] at unlocked
      cases unlocked
    · cases (owns other).mp owned
    · rw [LockState.released, emptied]
      exact nodup_nil
    · intro other
      have old := coherent.mem_queue other
      rw [queue] at old
      rw [LockState.released, emptied]
      exact old

/-- The thread that releases the mutex goes on running. -/
theorem Coherent.runs_released (coherent : state.Coherent) {mutex : Mutex τ}
    {thread : τ} {woken : Option τ} (runs : state.Runs thread)
    (unlocked : state.mutex.unlock = .ok (mutex, woken)) :
    (state.released mutex thread woken).Runs thread := by
  refine ⟨runs.1, ?_⟩
  rcases unlock_cases unlocked with
    ⟨task, rfl, queue, _, _⟩ | ⟨rfl, _, _, _⟩
  · have other : thread ≠ task := by
      rintro rfl
      refine coherent.not_mem_queue runs.2 ?_
      rw [queue]
      exact mem_cons_self
    simpa [LockState.released, wakeup, other] using runs.2
  · exact runs.2

variable [DecidableEq κ]

/-- A thread joins the queue of a condition variable. -/
theorem Coherent.waits (coherent : state.Coherent) {thread : τ} {condvar : κ}
    {queue : Condvar τ} (runs : state.Runs thread)
    (pushed :
      queue.waitQueue = (state.condvars condvar).waitQueue ++ [thread]) :
    ({ state with
        condvars := Function.update state.condvars condvar queue
      }.switchedOut thread (.waiting condvar) .blocked).Coherent where
  owned locked := by
    obtain ⟨owner, owns⟩ := coherent.owned locked
    refine ⟨owner, fun other => ?_⟩
    exact (owns_switchedOut runs.not_queued (by exact nofun)).trans
      (owns other)
  unowned free := by
    obtain ⟨nobody, empty⟩ := coherent.unowned free
    refine ⟨fun other owns => nobody other ?_, empty⟩
    exact (owns_switchedOut runs.not_queued (by exact nofun)).mp owns
  nodup := coherent.nodup
  mem_queue other := by
    by_cases same : other = thread
    · subst same
      simp [switchedOut, coherent.not_mem_queue runs.2]
    · simp [switchedOut, same, coherent.mem_queue]
  condvar_nodup other := by
    by_cases same : other = condvar
    · subst same
      dsimp only [switchedOut]
      rw [update_self, pushed]
      exact (coherent.condvar_nodup other).append
        (nodup_singleton thread)
        (disjoint_singleton.mpr (coherent.not_mem_condvar runs.2 other))
    · dsimp only [switchedOut]
      rw [update_of_ne same]
      exact coherent.condvar_nodup other
  mem_condvar other task := by
    by_cases same : other = condvar
    · subst same
      dsimp only [switchedOut]
      rw [update_self, pushed]
      by_cases self : task = thread
      · subst self
        simp
      · simp [self, coherent.mem_condvar]
    · dsimp only [switchedOut]
      rw [update_of_ne same]
      by_cases self : task = thread
      · subst self
        simp [coherent.not_mem_condvar runs.2, Ne.symm same]
      · simp [self, coherent.mem_condvar]

/-- The first thread of the queue is taken out and made ready. -/
def signalled (state : LockState τ κ) (condvar : κ) : LockState τ κ :=
  { state with
    condvars := Function.update state.condvars condvar
      (state.condvars condvar).signal.1
    status := wakeup state.status (state.condvars condvar).signal.2 }

theorem owns_signalled {condvar : κ} {task other : τ}
    (woken : (state.condvars condvar).signal.2 = some task)
    (waiting : state.place task = .waiting condvar) :
    (state.signalled condvar).Owns other ↔ state.Owns other := by
  by_cases same : other = task
  · subst same
    simp [Owns, signalled, waiting]
  · simp [Owns, signalled, woken, wakeup, same]

theorem Coherent.signalled (coherent : state.Coherent) (condvar : κ) :
    (state.signalled condvar).Coherent := by
  rcases (state.condvars condvar).signal_cases with
    ⟨task, woken, queue⟩ | ⟨woken, _, unchanged⟩
  · have member : task ∈ (state.condvars condvar).waitQueue := by
      rw [queue]
      exact mem_cons_self
    obtain ⟨waiting, _⟩ := (coherent.mem_condvar condvar task).mp member
    have nodup := coherent.condvar_nodup condvar
    rw [queue, nodup_cons] at nodup
    refine ⟨fun locked => ?_, fun free => ?_, coherent.nodup, ?_, ?_, ?_⟩
    · obtain ⟨owner, owned⟩ := coherent.owned locked
      exact ⟨owner, fun other =>
        (owns_signalled woken waiting).trans (owned other)⟩
    · obtain ⟨nobody, empty⟩ := coherent.unowned free
      exact ⟨fun other owned =>
        nobody other ((owns_signalled woken waiting).mp owned), empty⟩
    · intro other
      dsimp only [LockState.signalled]
      rw [woken]
      by_cases same : other = task
      · subst same
        simp [coherent.mem_queue, waiting]
      · simp [wakeup, same, coherent.mem_queue]
    · intro other
      dsimp only [LockState.signalled]
      by_cases same : other = condvar
      · subst same
        rw [update_self]
        exact nodup.2
      · rw [update_of_ne same]
        exact coherent.condvar_nodup other
    · intro other thread
      dsimp only [LockState.signalled]
      rw [woken]
      by_cases same : other = condvar
      · subst same
        rw [update_self]
        by_cases self : thread = task
        · subst self
          simp [wakeup, nodup.1]
        · have old := coherent.mem_condvar other thread
          rw [queue, mem_cons, or_iff_right self] at old
          simp [wakeup, self, old]
      · rw [update_of_ne same]
        by_cases self : thread = task
        · subst self
          simp [coherent.mem_condvar, waiting, Ne.symm same]
        · simp [wakeup, self, coherent.mem_condvar]
  · rw [LockState.signalled, woken, unchanged, update_eq_self]
    exact coherent

/-! ## Steps -/

/-- One step of one thread; only the holder gives up the mutex. -/
def step (state : LockState τ κ) :
    LockOp τ κ → Except Stop (LockState τ κ × LockEvent τ κ)
  | .lock thread =>
    if state.Runs thread then state.lock thread else .error .notRunnable
  | .unlock thread =>
    if state.Runs thread ∧ state.holds thread then do
      let (mutex, woken) ← state.mutex.unlock
      return (state.released mutex thread woken, .unlocks thread woken)
    else .error .notRunnable
  | .wait thread condvar =>
    if state.Runs thread ∧ state.holds thread then do
      let (queue, mutex, woken) ←
        (state.condvars condvar).wait state.mutex thread
      let state := state.released mutex thread woken
      return ({ state with
          condvars := Function.update state.condvars condvar queue
        }.switchedOut thread (.waiting condvar) .blocked,
        .waits thread condvar woken)
    else .error .notRunnable
  | .signal thread condvar =>
    if state.Runs thread then
      return (state.signalled condvar,
        .signals thread condvar (state.condvars condvar).signal.2)
    else .error .notRunnable
  | .resume thread =>
    if state.status thread = .blocked then .error .notRunnable
    else
      match state.place thread with
      | .outside => .error .notRunnable
      | .queued => return (state.acquired state.mutex thread, .acquired thread)
      | .spinning => state.lock thread
      | .waiting _ => state.lock thread

/-- The moves of the machine, with what is known when they are made. -/
inductive Moves (state : LockState τ κ) :
    LockState τ κ → LockEvent τ κ → Prop where
  | acquires {mutex : Mutex τ} {thread : τ}
      (runs : state.status thread ≠ .blocked)
      (notQueued : state.place thread ≠ .queued)
      (free : state.mutex.locked = false)
      (locked : mutex.locked = true)
      (queue : mutex.waitQueue = state.mutex.waitQueue) :
      Moves state (state.acquired mutex thread) (.acquired thread)
  | takesOver {thread : τ}
      (runs : state.status thread ≠ .blocked)
      (queued : state.place thread = .queued) :
      Moves state (state.acquired state.mutex thread) (.acquired thread)
  | yields {thread : τ}
      (runs : state.status thread ≠ .blocked)
      (notQueued : state.place thread ≠ .queued) :
      Moves state (state.switchedOut thread .spinning .ready) (.yields thread)
  | queues {mutex : Mutex τ} {thread : τ}
      (runs : state.status thread ≠ .blocked)
      (notQueued : state.place thread ≠ .queued)
      (held : state.mutex.locked = true)
      (locked : mutex.locked = true)
      (queue : mutex.waitQueue = state.mutex.waitQueue ++ [thread]) :
      Moves state ({ state with mutex }.switchedOut thread .queued .blocked)
        (.queues thread)
  | unlocks {mutex : Mutex τ} {thread : τ} {woken : Option τ}
      (runs : state.Runs thread)
      (holds : state.holds thread = true)
      (unlocked : state.mutex.unlock = .ok (mutex, woken)) :
      Moves state (state.released mutex thread woken) (.unlocks thread woken)
  | waits {mutex : Mutex τ} {thread : τ} {woken : Option τ} {condvar : κ}
      {queue : Condvar τ}
      (runs : state.Runs thread)
      (holds : state.holds thread = true)
      (unlocked : state.mutex.unlock = .ok (mutex, woken))
      (pushed :
        queue.waitQueue = (state.condvars condvar).waitQueue ++ [thread]) :
      Moves state
        ({ state.released mutex thread woken with
            condvars := Function.update state.condvars condvar queue
          }.switchedOut thread (.waiting condvar) .blocked)
        (.waits thread condvar woken)
  | signals {thread : τ} {condvar : κ}
      (runs : state.Runs thread) :
      Moves state (state.signalled condvar)
        (.signals thread condvar (state.condvars condvar).signal.2)

variable {after : LockState τ κ} {event : LockEvent τ κ}

theorem lock_moves {thread : τ}
    (runs : state.status thread ≠ .blocked)
    (notQueued : state.place thread ≠ .queued)
    (returned : state.lock thread = .ok (after, event)) :
    Moves state after event := by
  obtain ⟨⟨mutex, progress⟩, locks, rest⟩ := bind_eq_ok.mp returned
  rcases lock_cases locks with
    ⟨rfl, free, locked, queue⟩ | ⟨rfl, held, rfl⟩ |
      ⟨rfl, held, locked, queue⟩
  · obtain ⟨rfl, rfl⟩ := Prod.mk.inj (Except.ok.inj rest)
    exact .acquires runs notQueued free locked queue
  · obtain ⟨rfl, rfl⟩ := Prod.mk.inj (Except.ok.inj rest)
    exact .yields runs notQueued
  · obtain ⟨rfl, rfl⟩ := Prod.mk.inj (Except.ok.inj rest)
    exact .queues runs notQueued held locked queue

theorem step_moves {operation : LockOp τ κ}
    (returned : state.step operation = .ok (after, event)) :
    Moves state after event := by
  cases operation with
  | lock thread =>
    rw [step] at returned
    split at returned
    · next runs => exact lock_moves runs.2 runs.not_queued returned
    · cases returned
  | unlock thread =>
    rw [step] at returned
    split at returned
    · next enabled =>
        obtain ⟨⟨mutex, woken⟩, unlocked, rest⟩ := bind_eq_ok.mp returned
        obtain ⟨rfl, rfl⟩ := Prod.mk.inj (Except.ok.inj rest)
        exact .unlocks enabled.1 enabled.2 unlocked
    · cases returned
  | wait thread condvar =>
    rw [step] at returned
    split at returned
    · next enabled =>
        obtain ⟨⟨queue, mutex, woken⟩, waits, rest⟩ := bind_eq_ok.mp returned
        obtain ⟨rfl, rfl⟩ := Prod.mk.inj (Except.ok.inj rest)
        obtain ⟨unlocked, _, pushed⟩ := Condvar.wait_eq_ok.mp waits
        exact .waits enabled.1 enabled.2 unlocked pushed
    · cases returned
  | signal thread condvar =>
    rw [step] at returned
    split at returned
    · next runs =>
        obtain ⟨rfl, rfl⟩ := Prod.mk.inj (Except.ok.inj returned)
        exact .signals runs
    · cases returned
  | resume thread =>
    rw [step] at returned
    split at returned
    · cases returned
    · next runs =>
        cases here : state.place thread with
        | outside =>
          rw [here] at returned
          cases returned
        | queued =>
          rw [here] at returned
          obtain ⟨rfl, rfl⟩ := Prod.mk.inj (Except.ok.inj returned)
          exact .takesOver runs here
        | spinning
        | waiting condvar =>
          rw [here] at returned
          exact lock_moves runs (by rw [here]; exact nofun) returned

theorem Coherent.step (coherent : state.Coherent)
    (moves : Moves state after event) : after.Coherent := by
  cases moves with
  | acquires runs _ free locked queue =>
    exact coherent.acquired runs
      (fun other owns => absurd owns ((coherent.unowned free).1 other))
      locked queue
  | takesOver runs queued =>
    have owns : state.Owns _ := .inr ⟨queued, runs⟩
    exact coherent.acquired runs
      (fun other owned => coherent.owner_unique owned owns)
      (coherent.locked_of_owns owns) rfl
  | yields runs notQueued => exact coherent.yields runs notQueued
  | queues runs notQueued held locked queue =>
    exact coherent.queues runs notQueued held locked queue
  | unlocks runs holds unlocked => exact coherent.released runs holds unlocked
  | waits runs holds unlocked pushed =>
    exact (coherent.released runs holds unlocked).waits
      (coherent.runs_released runs unlocked) pushed
  | signals _ => exact coherent.signalled _

/-! ## Histories -/

/-- The threads that joined the queue of the mutex, in that order. -/
def queuedIn (events : List (LockEvent τ κ)) : List τ :=
  events.filterMap fun
    | .queues thread => some thread
    | _ => none

/-- The threads that a release woke, in that order. -/
def servedIn (events : List (LockEvent τ κ)) : List τ :=
  events.filterMap fun
    | .unlocks _ woken => woken
    | .waits _ _ woken => woken
    | _ => none

/-- The threads that joined the queue of the condition variable. -/
def waitedOn (condvar : κ) (events : List (LockEvent τ κ)) : List τ :=
  events.filterMap fun
    | .waits thread other _ => if other = condvar then some thread else none
    | _ => none

/-- The threads that a signal of the condition variable woke. -/
def wokenBy (condvar : κ) (events : List (LockEvent τ κ)) : List τ :=
  events.filterMap fun
    | .signals _ other woken => if other = condvar then woken else none
    | _ => none

/-- A release that wakes no thread. -/
def Frees : LockEvent τ κ → Prop
  | .unlocks _ none => True
  | .waits _ _ none => True
  | _ => False

section

variable (moves : Moves state after event)

include moves

/-- A step adds at the end of the mutex's queue and takes from its front. -/
theorem Moves.queue :
    state.mutex.waitQueue ++ queuedIn [event] =
      servedIn [event] ++ after.mutex.waitQueue := by
  cases moves with
  | acquires _ _ _ _ queue =>
    dsimp only [queuedIn, servedIn, acquired, List.filterMap]
    rw [queue, append_nil, nil_append]
  | takesOver _ _ => exact append_nil _
  | yields _ _ => exact append_nil _
  | queues _ _ _ _ queue => exact queue.symm
  | unlocks _ _ unlocked
  | waits _ _ unlocked _ =>
    rcases unlock_cases unlocked with
      ⟨task, rfl, queue, _, _⟩ | ⟨rfl, queue, emptied, _⟩
    · exact (append_nil _).trans queue
    · exact (append_nil _).trans (queue.trans emptied.symm)
  | signals _ => exact append_nil _

/-- A step adds at the end of each condition variable and takes from its front. -/
theorem Moves.condvar (condvar : κ) :
    (state.condvars condvar).waitQueue ++ waitedOn condvar [event] =
      wokenBy condvar [event] ++ (after.condvars condvar).waitQueue := by
  cases moves with
  | acquires _ _ _ _ _
  | takesOver _ _
  | yields _ _
  | queues _ _ _ _ _
  | unlocks _ _ _ => exact append_nil _
  | @waits _ _ _ other _ _ _ _ pushed =>
    by_cases same : condvar = other
    · subst same
      simp [waitedOn, wokenBy, switchedOut, pushed]
    · simp [waitedOn, wokenBy, switchedOut, released, same, Ne.symm same]
  | @signals thread other _ =>
    by_cases same : condvar = other
    · subst same
      rcases (state.condvars condvar).signal_cases with
        ⟨task, woken, queue⟩ | ⟨woken, empty, unchanged⟩
      · simpa [waitedOn, wokenBy, signalled, woken] using queue
      · simp [waitedOn, wokenBy, signalled, woken, unchanged]
    · simp [waitedOn, wokenBy, signalled, same, Ne.symm same]

/-- A release wakes a thread if one is waiting. -/
theorem Moves.free (frees : Frees event) :
    state.mutex.waitQueue = [] := by
  cases moves with
  | acquires _ _ _ _ _ => cases frees
  | takesOver _ _ => cases frees
  | yields _ _ => cases frees
  | queues _ _ _ _ _ => cases frees
  | unlocks _ _ unlocked
  | waits _ _ unlocked _ =>
    rcases unlock_cases unlocked with
      ⟨task, rfl, _⟩ | ⟨_, empty, _⟩
    · cases frees
    · exact empty
  | signals _ => cases frees

end

/-- A signal wakes a thread if one is waiting. -/
theorem Moves.silent {thread : τ} {condvar : κ}
    (moves : Moves state after (.signals thread condvar none)) :
    (state.condvars condvar).waitQueue = [] := by
  generalize shown : LockEvent.signals thread condvar none = event at moves
  cases moves with
  | signals _ =>
    injection shown with _ same woken
    subst same
    rcases (state.condvars condvar).signal_cases with
      ⟨task, some, _⟩ | ⟨_, empty, _⟩
    · rw [← woken] at some
      cases some
    · exact empty
  | _ => cases shown

/-- Only a signal that wakes it takes a thread out of the queue. -/
theorem Moves.stays (moves : Moves state after event) {thread : τ}
    {condvar : κ} (member : thread ∈ (state.condvars condvar).waitQueue)
    (other :
      ∀ signaller, event ≠ .signals signaller condvar (some thread)) :
    thread ∈ (after.condvars condvar).waitQueue := by
  have kept :
      thread ∈
        wokenBy condvar [event] ++ (after.condvars condvar).waitQueue := by
    rw [← moves.condvar condvar]
    exact mem_append_left _ member
  refine (mem_append.mp kept).resolve_left ?_
  intro woken
  obtain ⟨signal, shown, equal⟩ := mem_filterMap.mp woken
  cases mem_singleton.mp shown
  cases event with
  | signals signaller signalled woken =>
    by_cases same : signalled = condvar
    · subst same
      exact other signaller (by simpa using equal)
    · simp [same] at equal
  | _ => cases equal

/--
What is known after a run.  The history says in which order threads joined and
left the queues.
-/
structure Handoff (state : LockState τ κ) (events : List (LockEvent τ κ)) :
    Prop where
  exclusive :
    ∀ first second, state.holds first = true → state.holds second = true →
      first = second
  locked_iff :
    state.mutex.locked = true ↔ ∃ thread, state.Owns thread
  queue_nodup : state.mutex.waitQueue.Nodup
  queue_blocked :
    ∀ thread ∈ state.mutex.waitQueue,
      state.place thread = .queued ∧ state.status thread = .blocked
  queue_fifo :
    queuedIn events = servedIn events ++ state.mutex.waitQueue
  queue_empty : state.mutex.locked = false → state.mutex.waitQueue = []
  release_serves :
    ∀ earlier event later,
      events = earlier ++ event :: later → Frees event →
        queuedIn earlier = servedIn earlier
  woken_owns :
    ∀ thread, state.place thread = .queued →
      state.status thread ≠ .blocked →
        state.mutex.locked = true ∧ ∀ other, state.Owns other ↔ other = thread
  condvar_fifo :
    ∀ condvar,
      waitedOn condvar events =
        wokenBy condvar events ++ (state.condvars condvar).waitQueue
  signal_wakes :
    ∀ earlier thread condvar later,
      events = earlier ++ .signals thread condvar none :: later →
        waitedOn condvar earlier = wokenBy condvar earlier
  waiter_queued :
    ∀ earlier thread condvar woken later,
      events = earlier ++ .waits thread condvar woken :: later →
        (∀ signaller, .signals signaller condvar (some thread) ∉ later) →
          thread ∈ (state.condvars condvar).waitQueue

variable {events : List (LockEvent τ κ)}

omit [DecidableEq τ] in
/-- The part of `Handoff` that is about the state alone. -/
theorem Coherent.handoff (coherent : state.Coherent)
    (queue_fifo :
      queuedIn events = servedIn events ++ state.mutex.waitQueue)
    (release_serves :
      ∀ earlier event later,
        events = earlier ++ event :: later → Frees event →
          queuedIn earlier = servedIn earlier)
    (condvar_fifo :
      ∀ condvar,
        waitedOn condvar events =
          wokenBy condvar events ++ (state.condvars condvar).waitQueue)
    (signal_wakes :
      ∀ earlier thread condvar later,
        events = earlier ++ .signals thread condvar none :: later →
          waitedOn condvar earlier = wokenBy condvar earlier)
    (waiter_queued :
      ∀ earlier thread condvar woken later,
        events = earlier ++ .waits thread condvar woken :: later →
          (∀ signaller, .signals signaller condvar (some thread) ∉ later) →
            thread ∈ (state.condvars condvar).waitQueue) :
    state.Handoff events where
  exclusive _ _ first second :=
    coherent.owner_unique (.inl first) (.inl second)
  locked_iff := by
    constructor
    · intro locked
      obtain ⟨owner, owns⟩ := coherent.owned locked
      exact ⟨owner, (owns owner).mpr rfl⟩
    · rintro ⟨thread, owns⟩
      exact coherent.locked_of_owns owns
  queue_nodup := coherent.nodup
  queue_blocked thread := (coherent.mem_queue thread).mp
  queue_fifo := queue_fifo
  queue_empty free := (coherent.unowned free).2
  release_serves := release_serves
  woken_owns thread queued awake := by
    have owns : state.Owns thread := .inr ⟨queued, awake⟩
    refine ⟨coherent.locked_of_owns owns, fun other => ?_⟩
    constructor
    · intro owned
      exact coherent.owner_unique owned owns
    · rintro rfl
      exact owns
  condvar_fifo := condvar_fifo
  signal_wakes := signal_wakes
  waiter_queued := waiter_queued

omit [DecidableEq τ] in
theorem Handoff.new (blocking : Bool) :
    (LockState.new blocking : LockState τ κ).Handoff [] := by
  refine (Coherent.new blocking).handoff ?_ ?_ (fun _ => rfl) ?_ ?_
  · rw [LockState.new, waitQueue_new]
    rfl
  · intro earlier event later split
    exact absurd split.symm (by simp)
  · intro earlier thread condvar later split
    exact absurd split.symm (by simp)
  · intro earlier thread condvar woken later split
    exact absurd split.symm (by simp)

theorem Handoff.step (coherent : state.Coherent)
    (handoff : state.Handoff events) (moves : Moves state after event) :
    after.Handoff (events ++ [event]) := by
  refine (coherent.step moves).handoff ?_ ?_ ?_ ?_ ?_
  · calc
      queuedIn (events ++ [event])
          = servedIn events ++
              (state.mutex.waitQueue ++ queuedIn [event]) := by
            rw [queuedIn, filterMap_append, ← queuedIn,
              handoff.queue_fifo, append_assoc, ← queuedIn]
      _ = servedIn (events ++ [event]) ++ after.mutex.waitQueue := by
            rw [moves.queue, ← append_assoc, servedIn, servedIn,
              ← filterMap_append, ← servedIn]
  · intro earlier shown later split frees
    rcases concat_eq_split.mp split with
      ⟨_, rfl, rfl⟩ | ⟨between, _, split⟩
    · rw [handoff.queue_fifo, moves.free frees, append_nil]
    · exact handoff.release_serves earlier shown between split frees
  · intro condvar
    calc
      waitedOn condvar (events ++ [event])
          = wokenBy condvar events ++
              ((state.condvars condvar).waitQueue ++
                waitedOn condvar [event]) := by
            rw [waitedOn, filterMap_append, ← waitedOn,
              handoff.condvar_fifo, append_assoc, ← waitedOn]
      _ = wokenBy condvar (events ++ [event]) ++
            (after.condvars condvar).waitQueue := by
            rw [moves.condvar, ← append_assoc, wokenBy, wokenBy,
              ← filterMap_append, ← wokenBy]
  · intro earlier thread condvar later split
    rcases concat_eq_split.mp split with
      ⟨_, rfl, rfl⟩ | ⟨between, _, split⟩
    · rw [handoff.condvar_fifo, moves.silent, append_nil]
    · exact handoff.signal_wakes earlier thread condvar between split
  · intro earlier thread condvar woken later split unsignalled
    rcases concat_eq_split.mp split with
      ⟨_, rfl, rfl⟩ | ⟨between, rfl, earlierSplit⟩
    · have joined := moves.condvar condvar
      simp only [waitedOn, wokenBy, List.filterMap, if_true,
        nil_append] at joined
      rw [← joined]
      exact mem_append_right _ (mem_singleton_self thread)
    · refine moves.stays
        (handoff.waiter_queued earlier thread condvar woken between
          earlierSplit fun signaller signalled =>
            unsignalled signaller (mem_append_left _ signalled)) ?_
      rintro signaller rfl
      exact unsignalled signaller
        (mem_append_right _ (mem_singleton_self _))

/--
Mutual exclusion with handoff, for a mutex of either kind, any threads and any
condition variables, after every sequence of steps.
-/
theorem mutual_exclusion_with_handoff (blocking : Bool)
    {ops : List (LockOp τ κ)}
    (returned : run step (LockState.new blocking) ops = .ok (after, events)) :
    after.Handoff events := by
  have both : after.Coherent ∧ after.Handoff ([] ++ events) :=
    run_history
      (fun state events => state.Coherent ∧ state.Handoff events)
      (fun both stepEq =>
        ⟨both.1.step (step_moves stepEq), both.2.step both.1 (step_moves stepEq)⟩)
      ⟨Coherent.new blocking, Handoff.new blocking⟩ returned
  exact both.2

/-- Two threads meet at one condition variable. -/
def meeting : List (LockOp Nat Nat) :=
  [.lock 0, .lock 1, .wait 0 7, .resume 1, .signal 1 7, .resume 0, .unlock 1,
    .resume 0]

theorem mutual_exclusion_with_handoff_meeting :
    ∃ after,
      run step (LockState.new true) meeting =
          .ok (after,
            [.acquired 0, .queues 1, .waits 0 7 (some 1), .acquired 1,
              .signals 1 7 (some 0), .queues 0, .unlocks 1 (some 0),
              .acquired 0]) ∧
        after.Handoff
          [.acquired 0, .queues 1, .waits 0 7 (some 1), .acquired 1,
            .signals 1 7 (some 0), .queues 0, .unlocks 1 (some 0),
            .acquired 0] := by
  obtain ⟨after, ran⟩ :
      ∃ after,
        run step (LockState.new true) meeting =
          .ok (after,
            [.acquired 0, .queues 1, .waits 0 7 (some 1), .acquired 1,
              .signals 1 7 (some 0), .queues 0, .unlocks 1 (some 0),
              .acquired 0]) :=
    ⟨_, rfl⟩
  exact ⟨after, ran, mutual_exclusion_with_handoff true ran⟩

end LockState

end RCoreOS.Kernel
