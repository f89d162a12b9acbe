import RCoreOS.Kernel.ThreadSteps

/-!
# The threads in the wait queues

A thread of a process is in one wait queue, once, exactly when it is blocked
and does not sleep.
-/

namespace RCoreOS.Kernel

open List

namespace Process

variable {self after : Process} {effect : Effect} {thread : Nat}
  {action : Action} {point : SwitchPoint}

/-- The thread is blocked and does not sleep. -/
def Waits (task : TaskControlBlock) : Prop :=
  task.exitCode = none ∧ task.taskStatus = .blocked ∧ task.point ≠ .sleep

instance (task : TaskControlBlock) : Decidable (Waits task) :=
  inferInstanceAs (Decidable (_ ∧ _))

/-- The wait queues hold the threads that wait, each of them once. -/
structure Placed (process : Process) : Prop where
  count_eq :
    ∀ {thread : Nat} {task : TaskControlBlock},
      process.threads[thread]? = some task →
        process.waiting.count thread = if Waits task then 1 else 0
  absent :
    ∀ {thread : Nat}, process.threads[thread]? = none →
      process.waiting.count thread = 0

/-- A thread in a wait queue waits. -/
theorem Placed.waits (placed : self.Placed) {other : Nat}
    (member : other ∈ self.waiting) :
    ∃ task, self.threads[other]? = some task ∧ Waits task := by
  have positive := count_pos_iff.mpr member
  cases found : self.threads[other]? with
  | none =>
    rw [placed.absent found] at positive
    cases positive
  | some task =>
    rw [placed.count_eq found] at positive
    by_cases waits : Waits task
    · exact ⟨task, rfl, waits⟩
    · rw [if_neg waits] at positive
      cases positive

variable {task : TaskControlBlock} {tid : Nat}

theorem Runs.not_waits (runs : self.Runs thread task tid) : ¬ Waits task := by
  rintro ⟨_, blocked, awake⟩
  rcases runs.runnable with notBlocked | sleeps
  · exact notBlocked blocked
  · exact awake sleeps

variable {last : TaskControlBlock}

/-- The thread that was taken out of a queue is now ready. -/
theorem Placed.other {other : Nat}
    (placed : self.Placed)
    (moved : Moved self after thread action point effect)
    (moves : QueuesMove self after thread action effect)
    (different : other ≠ thread) (found : after.threads[other]? = some last) :
    after.waiting.count other = if Waits last then 1 else 0 := by
  obtain ⟨within, counts⟩ := moves other
  rw [if_neg fun joined => different joined.1, Nat.add_zero] at counts
  rcases moved.other_cases different found with
    ⟨first, firstFound, placeEq⟩ | ⟨rfl, rfl, _, newTid, rfl⟩
  · have before := placed.count_eq firstFound
    by_cases taken : takenOut action effect = some other
    · have readied : effect.readied = some other := by
        rw [takenOut.eq_def] at taken
        split at taken
        · cases taken
        · exact taken
      rw [if_pos readied] at placeEq
      have ready : last.taskStatus = .ready := congrArg Prod.fst placeEq
      have awake : ¬ Waits last := by
        intro waits
        cases waits.2.1.symm.trans ready
      rw [if_neg awake]
      rw [taken, Option.toList_some, count_singleton_self] at within counts
      split at before
      · omega
      · omega
    · have nothing : (takenOut action effect).toList.count other = 0 := by
        rw [count_eq_zero, Option.mem_toList]
        exact taken
      have same : last.place = first.place := by
        rw [placeEq]
        split
        · next readied =>
            rw [takenOut.eq_def] at taken
            split at taken
            · -- a new thread is not one of the old ones
              obtain ⟨_, _, rfl⟩ := moved.created rfl
              cases readied
              exact absurd (List.getElem?_eq_some_iff.mp firstFound).1
                (Nat.lt_irrefl _)
            · exact absurd readied taken
        · rfl
      have waitsIff : Waits last ↔ Waits first := by
        rw [Waits, Waits, show last.exitCode = first.exitCode from
          congrArg (fun place => place.2.2) same,
          show last.taskStatus = first.taskStatus from congrArg Prod.fst same,
          show last.point = first.point from
            congrArg (fun place => place.2.1) same]
      rw [nothing, Nat.add_zero, before] at counts
      rw [counts]
      simp only [waitsIff]
  · have before := placed.absent (getElem?_eq_none (Nat.le_refl _))
    rw [if_neg fun waits => by cases waits.2.1]
    omega

/-- The thread that took the step is in a queue if it blocked. -/
theorem Placed.own (placed : self.Placed) (runs : self.Runs thread task tid)
    (moved : Moved self after thread action task.point effect)
    (moves : QueuesMove self after thread action effect)
    (found : after.threads[thread]? = some last) :
    after.waiting.count thread = if Waits last then 1 else 0 := by
  have before := placed.count_eq runs.found
  rw [if_neg runs.not_waits] at before
  obtain ⟨within, counts⟩ := moves thread
  obtain ⟨same, sameFound, left⟩ := moved.own
  rw [found] at sameFound
  cases sameFound
  cases outcome : effect.outcome with
  | returned value =>
    rw [outcome] at left
    rw [outcome, if_neg fun joined => nomatch joined.2.1] at counts
    rw [if_neg fun waits => left.1 waits.2.1]
    omega
  | suspended =>
    rw [outcome] at left
    rw [outcome, if_neg fun joined => nomatch joined.2.1] at counts
    rw [if_neg fun waits =>
      nomatch waits.2.1.symm.trans (congrArg Prod.fst left)]
    omega
  | blocked =>
    rw [outcome] at left
    have pointEq : last.point = outPoint action task.point :=
      congrArg (fun place => place.2.1) left
    have isSleep : last.point = .sleep ↔ action = .sleep := by
      have blocks := moved.blocks outcome
      rw [pointEq]
      cases action with
      | resume =>
        cases pointCase : task.point with
        | condvarWait condvarId mutexId => exact ⟨nofun, nofun⟩
        | _ =>
          rw [pointCase] at blocks
          cases blocks
      | mutexLock mutexId => exact ⟨nofun, nofun⟩
      | semaphoreDown semId => exact ⟨nofun, nofun⟩
      | condvarWait condvarId mutexId => exact ⟨nofun, nofun⟩
      | sleep => exact ⟨fun _ => rfl, fun _ => rfl⟩
      | _ => cases blocks
    have waitsIff : Waits last ↔ action ≠ .sleep := by
      refine ⟨fun waits sleeps => waits.2.2 (isSleep.mpr sleeps),
        fun awake => ⟨congrArg (fun place => place.2.2) left,
          congrArg Prod.fst left, fun sleeps => awake (isSleep.mp sleeps)⟩⟩
    rw [outcome] at counts
    by_cases sleeps : action = .sleep
    · rw [if_neg fun joined => joined.2.2 sleeps] at counts
      rw [if_neg fun waits => waitsIff.mp waits sleeps]
      omega
    · rw [if_pos ⟨rfl, rfl, sleeps⟩] at counts
      rw [if_pos (waitsIff.mpr sleeps)]
      omega
  | exited =>
    rw [outcome] at left
    rw [outcome, if_neg fun joined => nomatch joined.2.1] at counts
    rw [if_neg fun waits => left waits.1]
    omega

theorem Placed.act (placed : self.Placed) (runs : self.Runs thread task tid)
    (acted : self.act thread task.point action = .ok (after, effect)) :
    after.Placed := by
  have moved := Moved.act runs acted
  have moves := QueuesMove.act runs.curTid acted
  refine ⟨fun {other last} found => ?_, fun {other} none => ?_⟩
  · by_cases same : other = thread
    · subst same
      exact placed.own runs moved moves found
    · exact placed.other moved moves same found
  · obtain ⟨within, counts⟩ := moves other
    have outside : self.threads[other]? = .none := by
      rw [List.getElem?_eq_none_iff] at none ⊢
      by_cases create : action = .threadCreate
      · obtain ⟨_, threads, _⟩ := moved.created create
        rw [threads, length_append] at none
        omega
      · rw [moved.length_eq create] at none
        exact none
    have different : other ≠ thread := by
      rintro rfl
      rw [runs.found] at outside
      cases outside
    have before := placed.absent outside
    rw [if_neg fun joined => different joined.1] at counts
    omega

theorem Placed.new : Process.new.Placed := by
  refine ⟨fun {thread task} found => ?_, fun _ => rfl⟩
  cases thread with
  | zero =>
    cases found
    rfl
  | succ other => cases found

end Process

end RCoreOS.Kernel
