import RCoreOS.Lib.FallibleRuns

/-!
# Synchronization primitives

`MutexSpin`, `MutexBlocking`, `Semaphore` and `Condvar` of `os/src/sync`, as
functions on their own fields.  The kernel has one core and is not preempted,
so a call runs until it returns, blocks or yields.  How far it got is its
`Progress`; what it does after it was switched out is a step of the machine
that uses it.

`wakeup_task` makes one thread ready.  A call says which one, so that the
machine can change the status of that thread.
-/

namespace RCoreOS.Kernel

open List

/-- Why a step is not taken to its end. -/
inductive Stop where
  -- an assertion, an `unwrap`, an index or an allocation that fails
  | panicked
  -- the thread is blocked, or is not at the place where the step starts
  | notRunnable
deriving DecidableEq, Repr

/-- `TaskStatus` -/
inductive TaskStatus where
  | ready
  | running
  | blocked
deriving DecidableEq, Repr

/-- How far a call got before it returned or its thread was switched out. -/
inductive Progress where
  | returned
  | suspended
  | blocked
deriving DecidableEq, Repr

variable {τ : Type}

/--
`VecDeque::push_back` on a queue of pointers.  The capacity doubles when it is
exhausted and stays below `isize::MAX` bytes, so there are at most `2 ^ 59`
elements.
-/
def pushBack (queue : List τ) (task : τ) : Except Stop (List τ) :=
  if queue.length < 2 ^ 59 then .ok (queue ++ [task]) else .error .panicked

theorem pushBack_eq_ok {queue after : List τ} {task : τ} :
    pushBack queue task = .ok after ↔
      queue.length < 2 ^ 59 ∧ after = queue ++ [task] := by
  rw [pushBack]
  split
  · next room =>
      constructor
      · intro returned
        exact ⟨room, (Except.ok.inj returned).symm⟩
      · rintro ⟨_, rfl⟩
        rfl
  · next full =>
      constructor
      · intro returned
        cases returned
      · rintro ⟨room, _⟩
        exact absurd room full

/-- `wakeup_task` sets the status of the thread that a call woke. -/
def wakeup [DecidableEq τ] (status : τ → TaskStatus) :
    Option τ → τ → TaskStatus
  | none => status
  | some task => Function.update status task .ready

/-! ## Mutexes -/

/-- `MutexSpin` -/
structure MutexSpin where
  locked : Bool
deriving DecidableEq, Repr

namespace MutexSpin

/-- `MutexSpin::new` -/
def new : MutexSpin := ⟨false⟩

/--
One turn of the loop in `MutexSpin::lock`.  After `suspend_current_and_run_next`
the loop starts again.
-/
def lock (self : MutexSpin) : MutexSpin × Progress :=
  if self.locked then (self, .suspended) else (⟨true⟩, .returned)

/-- `MutexSpin::unlock` -/
def unlock (_ : MutexSpin) : MutexSpin := ⟨false⟩

end MutexSpin

/-- `MutexBlocking` -/
structure MutexBlocking (τ : Type) where
  locked : Bool
  waitQueue : List τ
deriving DecidableEq, Repr

namespace MutexBlocking

/-- `MutexBlocking::new` -/
def new : MutexBlocking τ := ⟨false, []⟩

/-- `MutexBlocking::lock`, up to `block_current_and_run_next`. -/
def lock (self : MutexBlocking τ) (current : τ) :
    Except Stop (MutexBlocking τ × Progress) :=
  if self.locked then do
    let waitQueue ← pushBack self.waitQueue current
    return ({ self with waitQueue }, .blocked)
  else
    return ({ self with locked := true }, .returned)

/-- `MutexBlocking::unlock`, with the thread that it wakes. -/
def unlock (self : MutexBlocking τ) :
    Except Stop (MutexBlocking τ × Option τ) :=
  if self.locked then
    match self.waitQueue with
    | wakingTask :: rest =>
      return ({ self with waitQueue := rest }, some wakingTask)
    | [] => return ({ self with locked := false }, none)
  else
    .error .panicked

end MutexBlocking

/-- `dyn Mutex` -/
inductive Mutex (τ : Type) where
  | spin (inner : MutexSpin)
  | blocking (inner : MutexBlocking τ)
deriving DecidableEq, Repr

namespace Mutex

/-- The mutex that `sys_mutex_create` makes. -/
def new (blocking : Bool) : Mutex τ :=
  if blocking then .blocking .new else .spin .new

def locked : Mutex τ → Bool
  | .spin inner => inner.locked
  | .blocking inner => inner.locked

/-- The threads that wait in the mutex; a spinning thread waits elsewhere. -/
def waitQueue : Mutex τ → List τ
  | .spin _ => []
  | .blocking inner => inner.waitQueue

/-- `Mutex::lock` -/
def lock (self : Mutex τ) (current : τ) : Except Stop (Mutex τ × Progress) :=
  match self with
  | .spin inner => return (.spin inner.lock.1, inner.lock.2)
  | .blocking inner => do
      let (inner, progress) ← inner.lock current
      return (.blocking inner, progress)

/-- `Mutex::unlock`, with the thread that it wakes. -/
def unlock (self : Mutex τ) : Except Stop (Mutex τ × Option τ) :=
  match self with
  | .spin inner => return (.spin inner.unlock, none)
  | .blocking inner => do
      let (inner, woken) ← inner.unlock
      return (.blocking inner, woken)

variable {self after : Mutex τ} {current : τ}

@[simp]
theorem locked_new (blocking : Bool) :
    (Mutex.new blocking : Mutex τ).locked = false := by
  cases blocking <;> rfl

@[simp]
theorem waitQueue_new (blocking : Bool) :
    (Mutex.new blocking : Mutex τ).waitQueue = [] := by
  cases blocking <;> rfl

/-- What `lock` does to a mutex that is free, and to one that is not. -/
theorem lock_cases {progress : Progress}
    (returned : self.lock current = .ok (after, progress)) :
    (progress = .returned ∧ self.locked = false ∧ after.locked = true ∧
        after.waitQueue = self.waitQueue) ∨
      (progress = .suspended ∧ self.locked = true ∧ after = self) ∨
      (progress = .blocked ∧ self.locked = true ∧ after.locked = true ∧
        after.waitQueue = self.waitQueue ++ [current]) := by
  cases self with
  | spin inner =>
    obtain ⟨rfl, rfl⟩ := Prod.mk.inj (Except.ok.inj returned)
    cases held : inner.locked with
    | false =>
      refine .inl ⟨?_, held, ?_, rfl⟩ <;> simp [MutexSpin.lock, held, locked]
    | true => refine .inr (.inl ⟨?_, held, ?_⟩) <;> simp [MutexSpin.lock, held]
  | blocking inner =>
    obtain ⟨⟨between, reached⟩, locks, rest⟩ :=
      Lib.FallibleRuns.bind_eq_ok.mp returned
    obtain ⟨rfl, rfl⟩ := Prod.mk.inj (Except.ok.inj rest)
    cases held : inner.locked with
    | false =>
      rw [MutexBlocking.lock, held] at locks
      obtain ⟨rfl, rfl⟩ := Prod.mk.inj (Except.ok.inj locks)
      exact .inl ⟨rfl, held, rfl, rfl⟩
    | true =>
      rw [MutexBlocking.lock, held] at locks
      obtain ⟨waitQueue, pushed, rest⟩ := Lib.FallibleRuns.bind_eq_ok.mp locks
      obtain ⟨rfl, rfl⟩ := Prod.mk.inj (Except.ok.inj rest)
      obtain ⟨_, rfl⟩ := pushBack_eq_ok.mp pushed
      exact .inr (.inr ⟨rfl, held, rfl, rfl⟩)

/-- `unlock` hands the mutex to the first waiting thread, or frees it. -/
theorem unlock_cases {woken : Option τ}
    (returned : self.unlock = .ok (after, woken)) :
    (∃ task, woken = some task ∧ self.waitQueue = task :: after.waitQueue ∧
        self.locked = true ∧ after.locked = true) ∨
      (woken = none ∧ self.waitQueue = [] ∧ after.waitQueue = [] ∧
        after.locked = false) := by
  cases self with
  | spin inner =>
    obtain ⟨rfl, rfl⟩ := Prod.mk.inj (Except.ok.inj returned)
    exact .inr ⟨rfl, rfl, rfl, rfl⟩
  | blocking inner =>
    obtain ⟨⟨between, reached⟩, unlocks, rest⟩ :=
      Lib.FallibleRuns.bind_eq_ok.mp returned
    obtain ⟨rfl, rfl⟩ := Prod.mk.inj (Except.ok.inj rest)
    cases held : inner.locked with
    | false =>
      rw [MutexBlocking.unlock, held] at unlocks
      cases unlocks
    | true =>
      rw [MutexBlocking.unlock, held] at unlocks
      cases queue : inner.waitQueue with
      | nil =>
        rw [queue] at unlocks
        obtain ⟨rfl, rfl⟩ := Prod.mk.inj (Except.ok.inj unlocks)
        exact .inr ⟨rfl, queue, rfl, rfl⟩
      | cons task rest =>
        rw [queue] at unlocks
        obtain ⟨rfl, rfl⟩ := Prod.mk.inj (Except.ok.inj unlocks)
        exact .inl ⟨task, rfl, queue, held, rfl⟩

end Mutex

/-! ## Condition variables -/

/-- `Condvar` -/
structure Condvar (τ : Type) where
  waitQueue : List τ
deriving DecidableEq, Repr

namespace Condvar

/-- `Condvar::new` -/
def new : Condvar τ := ⟨[]⟩

/-- `Condvar::signal`, with the thread that it wakes. -/
def signal (self : Condvar τ) : Condvar τ × Option τ :=
  match self.waitQueue with
  | task :: rest => (⟨rest⟩, some task)
  | [] => (self, none)

/--
`Condvar::wait`, up to `block_current_and_run_next`; the mutex is locked again
when the thread goes on.
-/
def wait (self : Condvar τ) (mutex : Mutex τ) (current : τ) :
    Except Stop (Condvar τ × Mutex τ × Option τ) := do
  let (mutex, woken) ← mutex.unlock
  let waitQueue ← pushBack self.waitQueue current
  return (⟨waitQueue⟩, mutex, woken)

theorem signal_cases (self : Condvar τ) :
    (∃ task, self.signal.2 = some task ∧
        self.waitQueue = task :: self.signal.1.waitQueue) ∨
      (self.signal.2 = none ∧ self.waitQueue = [] ∧ self.signal.1 = self) := by
  rw [signal]
  cases queue : self.waitQueue with
  | nil => exact .inr ⟨rfl, rfl, rfl⟩
  | cons task rest => exact .inl ⟨task, rfl, rfl⟩

theorem wait_eq_ok {self after : Condvar τ} {mutex free : Mutex τ}
    {current : τ} {woken : Option τ} :
    self.wait mutex current = .ok (after, free, woken) ↔
      mutex.unlock = .ok (free, woken) ∧ self.waitQueue.length < 2 ^ 59 ∧
        after.waitQueue = self.waitQueue ++ [current] := by
  simp only [wait, Lib.FallibleRuns.bind_eq_ok]
  constructor
  · rintro ⟨⟨between, reached⟩, unlocks, waitQueue, pushed, rest⟩
    cases rest
    obtain ⟨room, equal⟩ := pushBack_eq_ok.mp pushed
    exact ⟨unlocks, room, equal⟩
  · rintro ⟨unlocks, room, equal⟩
    refine ⟨(free, woken), unlocks, _, pushBack_eq_ok.mpr ⟨room, rfl⟩, ?_⟩
    rw [← equal]
    rfl

end Condvar

/-! ## Semaphores -/

/-- `Semaphore`; `count` is an `isize`. -/
structure Semaphore (τ : Type) where
  count : BitVec 64
  waitQueue : List τ
deriving DecidableEq, Repr

namespace Semaphore

/-- `Semaphore::new`; the `usize` becomes an `isize` with the same bits. -/
def new (resCount : BitVec 64) : Semaphore τ := ⟨resCount, []⟩

/-- `Semaphore::up`, with the thread that it wakes. -/
def up (self : Semaphore τ) : Semaphore τ × Option τ :=
  let count := self.count + 1
  if count.sle 0 then
    match self.waitQueue with
    | task :: rest => (⟨count, rest⟩, some task)
    | [] => (⟨count, []⟩, none)
  else
    (⟨count, self.waitQueue⟩, none)

/-- `Semaphore::down`, up to `block_current_and_run_next`. -/
def down (self : Semaphore τ) (current : τ) :
    Except Stop (Semaphore τ × Progress) :=
  let count := self.count - 1
  if count.slt 0 then do
    let waitQueue ← pushBack self.waitQueue current
    return (⟨count, waitQueue⟩, .blocked)
  else
    return (⟨count, self.waitQueue⟩, .returned)

/-- A negative count is the number of threads that wait. -/
structure Balanced (semaphore : Semaphore τ) : Prop where
  length_eq :
    (semaphore.waitQueue.length : Int) = max 0 (-semaphore.count.toInt)
  length_le : semaphore.waitQueue.length ≤ 2 ^ 59

theorem Balanced.new {resCount : BitVec 64} (small : resCount.toNat < 2 ^ 63) :
    (Semaphore.new resCount : Semaphore τ).Balanced ∧
      (Semaphore.new resCount : Semaphore τ).count.toInt = resCount.toNat := by
  have positive : resCount.toInt = resCount.toNat :=
    BitVec.toInt_eq_toNat_of_lt (by omega)
  refine ⟨⟨?_, Nat.zero_le _⟩, positive⟩
  change ((0 : Nat) : Int) = max 0 (-resCount.toInt)
  rw [positive]
  omega

variable {count : BitVec 64}

theorem toInt_count_add_one (below : count.toInt < 2 ^ 63 - 1) :
    (count + 1).toInt = count.toInt + 1 := by
  have low := BitVec.le_toInt count
  have one : (1 : BitVec 64).toInt = 1 := by decide
  rw [BitVec.toInt_add, one, Int.bmod_eq_of_le]
  · norm_num at low ⊢
    omega
  · norm_num at below ⊢
    omega

theorem toInt_count_sub_one (above : -2 ^ 63 < count.toInt) :
    (count - 1).toInt = count.toInt - 1 := by
  have high : count.toInt < 2 ^ (64 - 1) := BitVec.toInt_lt
  have one : (1 : BitVec 64).toInt = 1 := by decide
  rw [BitVec.toInt_sub, one, Int.bmod_eq_of_le]
  · norm_num at above ⊢
    omega
  · norm_num at high ⊢
    omega

variable {self after : Semaphore τ}

/-- `up` wakes the first waiting thread, if there is one. -/
theorem Balanced.up_cases (balanced : self.Balanced)
    (below : self.count.toInt < 2 ^ 63 - 1) :
    self.up.1.Balanced ∧ self.up.1.count.toInt = self.count.toInt + 1 ∧
      ((∃ task, self.up.2 = some task ∧
          self.waitQueue = task :: self.up.1.waitQueue) ∨
        (self.up.2 = none ∧ self.waitQueue = [] ∧
          self.up.1.waitQueue = [])) := by
  have next := toInt_count_add_one below
  have lengthEq := balanced.length_eq
  have lengthLe := balanced.length_le
  have test :
      (self.count + 1).sle 0 = decide (self.count.toInt + 1 ≤ 0) := by
    rw [BitVec.sle_eq_decide, next]
    rfl
  simp only [up, test, decide_eq_true_eq]
  cases queue : self.waitQueue with
  | nil =>
    rw [queue, length_nil] at lengthEq
    rw [if_neg (by omega)]
    refine ⟨⟨?_, Nat.zero_le _⟩, next, .inr ⟨rfl, rfl, rfl⟩⟩
    change ((0 : Nat) : Int) = max 0 (-(self.count + 1).toInt)
    omega
  | cons task rest =>
    rw [queue, length_cons] at lengthEq lengthLe
    rw [if_pos (by omega)]
    refine ⟨⟨?_, ?_⟩, next, .inl ⟨task, rfl, rfl⟩⟩
    · change (rest.length : Int) = max 0 (-(self.count + 1).toInt)
      omega
    · change rest.length ≤ 2 ^ 59
      omega

/-- `down` takes a unit if there is one, and joins the queue otherwise. -/
theorem Balanced.down_cases (balanced : self.Balanced) {current : τ}
    {progress : Progress}
    (returned : self.down current = .ok (after, progress)) :
    after.Balanced ∧ after.count.toInt = self.count.toInt - 1 ∧
      ((progress = .returned ∧ 0 < self.count.toInt ∧
          after.waitQueue = self.waitQueue) ∨
        (progress = .blocked ∧ self.count.toInt ≤ 0 ∧
          after.waitQueue = self.waitQueue ++ [current])) := by
  have lengthEq := balanced.length_eq
  have lengthLe := balanced.length_le
  have above : -2 ^ 63 < self.count.toInt := by omega
  have next := toInt_count_sub_one above
  have test :
      (self.count - 1).slt 0 = decide (self.count.toInt - 1 < 0) := by
    rw [BitVec.slt_eq_decide, next]
    rfl
  simp only [down, test, decide_eq_true_eq] at returned
  split at returned
  · next negative =>
      obtain ⟨waitQueue, pushed, rest⟩ :=
        Lib.FallibleRuns.bind_eq_ok.mp returned
      obtain ⟨rfl, rfl⟩ := Prod.mk.inj (Except.ok.inj rest)
      obtain ⟨room, rfl⟩ := pushBack_eq_ok.mp pushed
      refine ⟨⟨?_, ?_⟩, next, .inr ⟨rfl, by omega, rfl⟩⟩
      · change ((self.waitQueue ++ [current]).length : Int) =
          max 0 (-(self.count - 1).toInt)
        rw [length_append, length_singleton]
        omega
      · rw [length_append, length_singleton]
        omega
  · next positive =>
      obtain ⟨rfl, rfl⟩ := Prod.mk.inj (Except.ok.inj returned)
      refine ⟨⟨?_, lengthLe⟩, next, .inl ⟨rfl, by omega, rfl⟩⟩
      change (self.waitQueue.length : Int) = max 0 (-(self.count - 1).toInt)
      omega

end Semaphore

end RCoreOS.Kernel
