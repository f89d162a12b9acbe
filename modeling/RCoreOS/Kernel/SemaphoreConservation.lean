import RCoreOS.Kernel.Primitives

/-!
# One semaphore and any number of threads

A state machine around one `Semaphore`.  A step of `down` runs until it
returns or blocks; a thread that `up` has woken returns from `down` when it
runs again.

The signed count stands for the free units and for the waiting threads.  The
history of a run says how many units were put in and how many were granted, so
that the two readings of the count can be stated and compared.
-/

namespace RCoreOS.Kernel

open Lib.FallibleRuns List

structure SemaphoreState (τ : Type) where
  semaphore : Semaphore τ
  status : τ → TaskStatus
  -- the thread is in `Semaphore::down`, at `block_current_and_run_next`
  inside : τ → Bool

inductive SemaphoreOp (τ : Type) where
  | up (thread : τ)
  | down (thread : τ)
  -- a thread that was woken runs again
  | resume (thread : τ)

inductive SemaphoreEvent (τ : Type) where
  | ups (thread : τ) (woken : Option τ)
  | passes (thread : τ)
  | queues (thread : τ)
  | returns (thread : τ)
deriving DecidableEq

namespace SemaphoreState

variable {τ : Type}

/-- A new semaphore; no thread is inside `down`. -/
def new (resCount : BitVec 64) : SemaphoreState τ where
  semaphore := .new resCount
  status _ := .ready
  inside _ := false

/-- The thread runs in user mode. -/
def Runs (state : SemaphoreState τ) (thread : τ) : Prop :=
  state.inside thread = false ∧ state.status thread ≠ .blocked

instance (state : SemaphoreState τ) (thread : τ) :
    Decidable (state.Runs thread) :=
  inferInstanceAs (Decidable (_ ∧ _))

/-- One step of one thread. -/
def step [DecidableEq τ] (state : SemaphoreState τ) :
    SemaphoreOp τ → Except Stop (SemaphoreState τ × SemaphoreEvent τ)
  | .up thread =>
    if state.Runs thread then
      return ({ state with
          semaphore := state.semaphore.up.1
          status := wakeup state.status state.semaphore.up.2 },
        .ups thread state.semaphore.up.2)
    else .error .notRunnable
  | .down thread =>
    if state.Runs thread then do
      let (semaphore, progress) ← state.semaphore.down thread
      match progress with
      | .blocked =>
        return ({
            semaphore
            status := Function.update state.status thread .blocked
            inside := Function.update state.inside thread true },
          .queues thread)
      | _ => return ({ state with semaphore }, .passes thread)
    else .error .notRunnable
  | .resume thread =>
    if state.inside thread ∧ state.status thread ≠ .blocked then
      return ({ state with
          inside := Function.update state.inside thread false },
        .returns thread)
    else .error .notRunnable

/-! ## What the history says -/

section

variable (events : List (SemaphoreEvent τ))

def ups : Nat :=
  events.countP fun
    | .ups _ _ => true
    | _ => false

/-- The calls of `down` that found a unit. -/
def passes : Nat :=
  events.countP fun
    | .passes _ => true
    | _ => false

/-- The threads that joined the queue, in that order. -/
def queuedIn : List τ :=
  events.filterMap fun
    | .queues thread => some thread
    | _ => none

/-- The threads that were woken, in that order. -/
def grantedIn : List τ :=
  events.filterMap fun
    | .ups _ woken => woken
    | _ => none

/-- The calls of `down` that were made. -/
def downs : Nat := passes events + (queuedIn events).length

/-- The calls of `down` that returned or whose thread was woken. -/
def granted : Nat := passes events + (grantedIn events).length

end

/--
What is known after a run from `resCount` units.  A thread that joined the
queue stays in it only while every unit is granted.
-/
structure Conserved (resCount : BitVec 64) (state : SemaphoreState τ)
    (events : List (SemaphoreEvent τ)) : Prop where
  queue_length :
    (state.semaphore.waitQueue.length : Int) =
      max 0 (-state.semaphore.count.toInt)
  count_eq :
    state.semaphore.count.toInt = resCount.toNat + ups events - downs events
  granted_le : granted events ≤ resCount.toNat + ups events
  slack :
    granted events < resCount.toNat + ups events →
      state.semaphore.waitQueue = []
  fifo : queuedIn events = grantedIn events ++ state.semaphore.waitQueue

/-- The invariant; the rest of `Conserved` follows by counting. -/
structure Counted (resCount : BitVec 64) (state : SemaphoreState τ)
    (events : List (SemaphoreEvent τ)) : Prop where
  balanced : state.semaphore.Balanced
  count_eq :
    state.semaphore.count.toInt = resCount.toNat + ups events - downs events
  fifo : queuedIn events = grantedIn events ++ state.semaphore.waitQueue

variable {resCount : BitVec 64} {state after : SemaphoreState τ}
  {events : List (SemaphoreEvent τ)} {event : SemaphoreEvent τ}

theorem Counted.conserved (counted : Counted resCount state events) :
    Conserved resCount state events := by
  have lengthEq := counted.balanced.length_eq
  have countEq := counted.count_eq
  have joined := congrArg List.length counted.fifo
  rw [length_append] at joined
  rw [downs] at countEq
  refine ⟨lengthEq, counted.count_eq, ?_, ?_, counted.fifo⟩
  · rw [granted]
    omega
  · intro slack
    rw [granted] at slack
    exact eq_nil_of_length_eq_zero (by omega)

theorem Counted.new (small : resCount.toNat < 2 ^ 63) :
    Counted resCount (SemaphoreState.new resCount : SemaphoreState τ) [] := by
  obtain ⟨balanced, countEq⟩ := Semaphore.Balanced.new (τ := τ) small
  refine ⟨balanced, ?_, rfl⟩
  rw [SemaphoreState.new, countEq]
  simp [ups, downs, passes, queuedIn]

theorem ups_append_le (earlier later : List (SemaphoreEvent τ)) :
    ups earlier ≤ ups (earlier ++ later) := by
  rw [ups, ups, countP_append]
  exact Nat.le_add_right _ _

variable [DecidableEq τ]

/-- A step keeps the count, as long as `up` does not overflow it. -/
theorem Counted.step (counted : Counted resCount state events)
    {operation : SemaphoreOp τ}
    (returned : state.step operation = .ok (after, event))
    (bound : resCount.toNat + ups (events ++ [event]) < 2 ^ 63) :
    Counted resCount after (events ++ [event]) := by
  have countEq := counted.count_eq
  have joined := counted.fifo
  cases operation with
  | up thread =>
    rw [SemaphoreState.step] at returned
    split at returned
    · obtain ⟨rfl, rfl⟩ := Prod.mk.inj (Except.ok.inj returned)
      have more :
          ups (events ++ [.ups thread state.semaphore.up.2]) =
            ups events + 1 := by
        rw [ups, countP_append, ← ups]
        rfl
      have same :
          downs (events ++ [.ups thread state.semaphore.up.2]) =
            downs events := by
        simp [downs, passes, queuedIn]
      rw [more] at bound
      obtain ⟨balanced, next, cases⟩ := counted.balanced.up_cases (by omega)
      refine ⟨balanced, ?_, ?_⟩
      · rw [more, same]
        change state.semaphore.up.1.count.toInt = _
        omega
      · rw [queuedIn, filterMap_append, ← queuedIn, joined]
        rcases cases with ⟨task, woken, queue⟩ | ⟨woken, queue, emptied⟩
        · simp [grantedIn, woken, queue]
        · simp [grantedIn, woken, queue, emptied]
    · cases returned
  | down thread =>
    rw [SemaphoreState.step] at returned
    split at returned
    · obtain ⟨⟨semaphore, progress⟩, downs, rest⟩ := bind_eq_ok.mp returned
      obtain ⟨balanced, next, cases⟩ := counted.balanced.down_cases downs
      rcases cases with ⟨rfl, _, queue⟩ | ⟨rfl, _, queue⟩
      · obtain ⟨rfl, rfl⟩ := Prod.mk.inj (Except.ok.inj rest)
        refine ⟨balanced, ?_, ?_⟩
        · change semaphore.count.toInt = _
          simp [SemaphoreState.downs, passes, queuedIn, ups] at countEq ⊢
          omega
        · change _ = _ ++ semaphore.waitQueue
          simpa [queuedIn, grantedIn, queue] using joined
      · obtain ⟨rfl, rfl⟩ := Prod.mk.inj (Except.ok.inj rest)
        refine ⟨balanced, ?_, ?_⟩
        · change semaphore.count.toInt = _
          simp [SemaphoreState.downs, passes, queuedIn, ups] at countEq ⊢
          omega
        · change _ = _ ++ semaphore.waitQueue
          simp [queuedIn, grantedIn, queue] at joined ⊢
          rw [joined, append_assoc]
    · cases returned
  | resume thread =>
    rw [SemaphoreState.step] at returned
    split at returned
    · obtain ⟨rfl, rfl⟩ := Prod.mk.inj (Except.ok.inj returned)
      refine ⟨counted.balanced, ?_, ?_⟩
      · simpa [downs, passes, queuedIn, ups] using countEq
      · simpa [queuedIn, grantedIn] using joined
    · cases returned

/--
The semaphore loses no unit and makes none up, for every initial count and
every sequence of steps in which the units fit into an `isize`.
-/
theorem semaphore_conservation (resCount : BitVec 64)
    {ops : List (SemaphoreOp τ)}
    (returned :
      run step (SemaphoreState.new resCount) ops = .ok (after, events))
    (bound : resCount.toNat + ups events ≤ 2 ^ 63 - 1) :
    Conserved resCount after events := by
  have history :
      resCount.toNat + ups ([] ++ events) < 2 ^ 63 →
        Counted resCount after ([] ++ events) :=
    run_history
      (fun state events =>
        resCount.toNat + ups events < 2 ^ 63 → Counted resCount state events)
      (fun {_ _ _ earlier shown} counted stepEq fits =>
        (counted (Nat.lt_of_le_of_lt
          (Nat.add_le_add_left (ups_append_le earlier [shown]) _)
          fits)).step stepEq fits)
      (fun fits => Counted.new (by omega)) returned
  rw [nil_append] at history
  exact (history (by omega)).conserved

/-- One unit, three threads: the two that wait are woken in order. -/
theorem semaphore_conservation_three :
    ∃ after : SemaphoreState Nat,
      run step (SemaphoreState.new 1)
          [.down 0, .down 1, .down 2, .up 0, .resume 1] =
        .ok (after,
          [.passes 0, .queues 1, .queues 2, .ups 0 (some 1), .returns 1]) ∧
      Conserved 1 after
        [.passes 0, .queues 1, .queues 2, .ups 0 (some 1), .returns 1] := by
  obtain ⟨after, ran⟩ :
      ∃ after : SemaphoreState Nat,
        run step (SemaphoreState.new 1)
            [.down 0, .down 1, .down 2, .up 0, .resume 1] =
          .ok (after,
            [.passes 0, .queues 1, .queues 2, .ups 0 (some 1), .returns 1]) :=
    ⟨_, rfl⟩
  exact ⟨after, ran, semaphore_conservation 1 ran (by decide)⟩

end SemaphoreState

end RCoreOS.Kernel
