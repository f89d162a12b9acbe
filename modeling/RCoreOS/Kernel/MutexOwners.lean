import RCoreOS.Kernel.Numbering

/-!
# Who holds a mutex

`MutexBlocking` and `MutexSpin` do not record who holds them.  The holder is
read off the steps made so far: the thread whose `lock` returned last, unless
an `unlock` came later, which leaves the mutex free or hands it to the thread
that it wakes.
-/

namespace RCoreOS.Kernel

/-- The mutex that an action tries to lock at a switch point. -/
def lockedBy : Action → SwitchPoint → Option Nat
  | .mutexLock mutexId, _ => some mutexId
  | .resume, .mutexLock mutexId => some mutexId
  | .resume, .condvarLock mutexId => some mutexId
  | .resume, .condvarWait _ mutexId => some mutexId
  | _, _ => none

/-- The mutex that an action unlocks. -/
def unlockedBy : Action → Option Nat
  | .mutexUnlock mutexId => some mutexId
  | .condvarWait _ mutexId => some mutexId
  | _ => none

/-- The holder of each mutex after one more step. -/
def ownerAfter (owner : Nat → Option Nat) (event : Event) (mutexId : Nat) :
    Option Nat :=
  if unlockedBy event.action = some mutexId then event.effect.readied
  else if lockedBy event.action event.point = some mutexId ∧
      event.effect.outcome = .returned 0 then some event.thread
  else owner mutexId

/-- The holder of each mutex after some steps. -/
def owner (events : List Event) : Nat → Option Nat :=
  events.foldl ownerAfter fun _ => none

@[simp]
theorem owner_concat (events : List Event) (event : Event) :
    owner (events ++ [event]) = ownerAfter (owner events) event :=
  List.foldl_concat _ _ _ _

/-- A new holder has returned from `lock`, or has been handed the mutex. -/
theorem ownerAfter_cases {owner : Nat → Option Nat} {event : Event}
    {mutexId holder : Nat}
    (holds : ownerAfter owner event mutexId = some holder) :
    owner mutexId = some holder ∨
      (event.effect.outcome = .returned 0 ∧ holder = event.thread) ∨
      event.effect.readied = some holder := by
  rw [ownerAfter] at holds
  split at holds
  · exact .inr (.inr holds)
  · split at holds
    · next locks => exact .inr (.inl ⟨locks.2, (Option.some.inj holds).symm⟩)
    · exact .inl holds

end RCoreOS.Kernel
