import RCoreOS.Kernel.Numbering

/-!
# Exit codes of threads

The exit code of a thread lies in its control block, which is found through
the slot of `tasks` at its tid until `sys_waittid` clears the slot.  The tid
itself is given back when the thread exits.  A thread that is created in
between can get the tid and overwrites the slot.

The code survives in every run in which `sys_thread_create` never gets the tid
of a thread that nobody has waited for.
-/

namespace RCoreOS.Kernel

open Lib.FallibleRuns List

namespace Process

variable {self after : Process} {thread tid : Nat} {event : Event}

/-- Another thread calls `sys_waittid` for the tid. -/
def WaitsFor (event : Event) (tid : Nat) : Prop :=
  event.action = .waittid tid ∧ event.tid ≠ tid

/-- A thread with the tid has exited and nobody has waited for it since. -/
def Unwaited (events : List Event) (tid : Nat) (exitCode : Int) : Prop :=
  ∃ earlier exit between,
    events = earlier ++ exit :: between ∧
      exit.tid = tid ∧ exit.action = .exit exitCode ∧
      ∀ event ∈ between, ¬ WaitsFor event tid

/-- No exit code is lost, and no tid is handed out before its time. -/
structure ExitCodesKept (events : List Event) : Prop where
  waited :
    ∀ {earlier later : List Event} {event : Event} {tid : Nat}
      {exitCode : Int},
      events = earlier ++ event :: later → WaitsFor event tid →
        Unwaited earlier tid exitCode →
          event.effect.outcome = .returned exitCode
  created :
    ∀ {earlier later : List Event} {event : Event} {tid : Nat}
      {exitCode : Int},
      events = earlier ++ event :: later → event.action = .threadCreate →
        event.effect.outcome = .returned tid → ¬ Unwaited earlier tid exitCode

/--
The thread that exited last, among those whose tid is free, has been waited
for when a thread is created.
-/
def ReusesWaited (self : Process) (move : Nat × Action) : Prop :=
  move.2 = .threadCreate →
    ∀ tid, self.taskResAllocator.recycled.getLast? = some tid →
      self.tasks[tid]? = some none

variable {exitCode : Int} {action : Action}

variable {events : List Event}

theorem unwaited_concat :
    Unwaited (events ++ [event]) tid exitCode ↔
      (event.tid = tid ∧ event.action = .exit exitCode) ∨
        (Unwaited events tid exitCode ∧ ¬ WaitsFor event tid) := by
  constructor
  · rintro ⟨earlier, exit, between, split, tidEq, actionEq, noWait⟩
    rcases concat_eq_split.mp split with
      ⟨_, _, rfl⟩ | ⟨middle, rfl, eventsEq⟩
    · exact .inl ⟨tidEq, actionEq⟩
    · refine .inr ⟨⟨earlier, exit, middle, eventsEq, tidEq, actionEq,
        fun other member => noWait other (mem_append_left _ member)⟩, ?_⟩
      exact noWait event
        (mem_append_right _ (mem_singleton_self _))
  · rintro (⟨tidEq, actionEq⟩ |
      ⟨⟨earlier, exit, between, rfl, tidEq, actionEq, noWait⟩, notWaits⟩)
    · exact ⟨events, event, [], rfl, tidEq, actionEq, nofun⟩
    · refine ⟨earlier, exit, between ++ [event], by simp, tidEq, actionEq,
        fun other member => ?_⟩
      rcases mem_append.mp member with member | member
      · exact noWait other member
      · rw [mem_singleton.mp member]
        exact notWaits

/-- The slot of the tid holds a thread that has exited with the code. -/
def HoldsCode (self : Process) (tid : Nat) (exitCode : Int) : Prop :=
  ∃ (thread : Nat) (task : TaskControlBlock),
    self.tasks[tid]? = some (some thread) ∧
      self.threads[thread]? = some task ∧ task.exitCode = some exitCode

theorem HoldsCode.congr (same : SameShape self after)
    (holds : self.HoldsCode tid exitCode) : after.HoldsCode tid exitCode := by
  obtain ⟨thread, task, slot, found, exited⟩ := holds
  have account := same.account_eq thread
  rw [found, Option.map_some] at account
  obtain ⟨new, newFound, equal⟩ := Option.map_eq_some_iff.mp account
  refine ⟨thread, new, ?_, newFound, (congrArg Prod.snd equal).trans exited⟩
  rw [same.tasks_eq]
  exact slot

/-- A code that is waited for later stays in its slot. -/
theorem HoldsCode.step (holds : self.HoldsCode tid exitCode)
    (reuses : self.ReusesWaited (thread, action)) (numbered : self.Numbered)
    (returned : self.step (thread, action) = .ok (after, event))
    (lives : after.isZombie = false) (notWaits : ¬ WaitsFor event tid) :
    after.HoldsCode tid exitCode := by
  obtain ⟨task, own, effect, runs, acted, rfl⟩ := step_eq_ok returned
  by_cases renumbers : Renumbers action
  · rcases act_eq_ok acted with ⟨rfl, _⟩ | ⟨_, rfl, _, _⟩ | ⟨_, calls⟩
    · cases renumbers
    · cases renumbers
    · obtain ⟨held, heldTask, slot, found, exited⟩ := holds
      cases action with
      | threadCreate =>
        obtain ⟨newTid, allocator, allocated, _, rfl⟩ :=
          sysThreadCreate_eq_ok calls
        obtain ⟨_, _, cases⟩ := RecycleAllocator.alloc_spec allocated
        have different : tid ≠ newTid := by
          rintro rfl
          rcases cases with ⟨last, _, _⟩ | ⟨_, rfl, _, _⟩
          · rw [reuses rfl tid last] at slot
            cases slot
          · obtain ⟨inside, _⟩ := List.getElem?_eq_some_iff.mp slot
            rw [numbered.tasks_length] at inside
            exact Nat.lt_irrefl _ inside
        exact ⟨held, heldTask,
          getElem?_grow_eq_some.mpr (.inr ⟨different, slot⟩),
          getElem?_concat_eq_some.mpr (.inl found), exited⟩
      | waittid waitedTid =>
        obtain ⟨curTid, curTidEq, ⟨rfl, _⟩ | ⟨differs, waited, waitedTask,
          _, _, ⟨rfl, _⟩ | ⟨code, _, _, rfl⟩⟩⟩ := sysWaittid_eq_ok calls
        · exact ⟨held, heldTask, slot, found, exited⟩
        · exact ⟨held, heldTask, slot, found, exited⟩
        · have ownEq := runs.curTid
          rw [ownEq] at curTidEq
          cases curTidEq
          have other : waitedTid ≠ tid := by
            rintro rfl
            exact notWaits ⟨rfl, differs⟩
          refine ⟨held, heldTask, ?_, found, exited⟩
          rw [getElem?_set_ne other]
          exact slot
      | exit code =>
        obtain ⟨_, ended, _, exits, _, ⟨_, ends⟩ | ⟨_, rfl⟩⟩ :=
          exitCurrent_eq_ok calls
        · rw [(exitProcess_eq_ok ends).rest_eq] at lives
          cases lives
        · obtain ⟨_, _, _, _, rfl⟩ := exitThread_eq_ok exits
          have other : held ≠ thread := by
            rintro rfl
            rw [runs.found] at found
            cases found
            rw [runs.exitCode_eq] at exited
            cases exited
          exact ⟨held, heldTask, slot,
            getElem?_modify_eq_some.mpr (.inr ⟨other, found⟩), exited⟩
      | _ => cases renumbers
  · exact holds.congr (.act renumbers runs.curTid acted)

/-- A thread that exits puts its code into its slot. -/
theorem HoldsCode.of_exit (numbered : self.Numbered)
    (returned : self.step (thread, .exit exitCode) = .ok (after, event))
    (lives : after.isZombie = false) :
    after.HoldsCode event.tid exitCode := by
  obtain ⟨task, own, effect, runs, acted, rfl⟩ := step_eq_ok returned
  obtain ⟨_, calls⟩ := syscall_of_act acted nofun nofun
  obtain ⟨_, ended, _, exits, _, ⟨_, ends⟩ | ⟨_, rfl⟩⟩ :=
    exitCurrent_eq_ok calls
  · rw [(exitProcess_eq_ok ends).rest_eq] at lives
    cases lives
  · obtain ⟨_, _, _, _, rfl⟩ := exitThread_eq_ok exits
    exact ⟨thread, _, (numbered.live runs.found runs.res_eq).1,
      getElem?_modify_eq_some.mpr (.inl ⟨rfl, task, runs.found, rfl⟩), rfl⟩

/-- Another thread that waits for the tid gets the code in its slot. -/
theorem HoldsCode.waited (holds : self.HoldsCode tid exitCode)
    (returned : self.step (thread, action) = .ok (after, event))
    (waits : WaitsFor event tid) :
    event.effect.outcome = .returned exitCode := by
  obtain ⟨held, heldTask, slot, found, exited⟩ := holds
  obtain ⟨task, own, effect, runs, acted, rfl⟩ := step_eq_ok returned
  obtain ⟨rfl, differs⟩ := waits
  obtain ⟨_, calls⟩ := syscall_of_act acted nofun nofun
  have ownEq := runs.curTid
  obtain ⟨curTid, curTidEq, cases⟩ := sysWaittid_eq_ok calls
  rw [ownEq] at curTidEq
  cases curTidEq
  rcases cases with ⟨_, _, same | empty⟩ | ⟨_, waited, waitedTask, waitedSlot,
    waitedFound, cases⟩
  · exact absurd same differs
  · rw [slot] at empty
    cases empty
  · rw [slot] at waitedSlot
    cases waitedSlot
    rw [found] at waitedFound
    cases waitedFound
    rcases cases with ⟨_, _, alive⟩ | ⟨code, codeEq, rfl, _⟩
    · rw [exited] at alive
      cases alive
    · rw [exited] at codeEq
      cases codeEq
      rfl

/-- A new thread does not get the tid of a code that waits in its slot. -/
theorem HoldsCode.not_created (holds : self.HoldsCode tid exitCode)
    (reuses : self.ReusesWaited (thread, action)) (numbered : self.Numbered)
    (returned : self.step (thread, action) = .ok (after, event))
    (creates : event.action = .threadCreate) :
    event.effect.outcome ≠ .returned tid := by
  obtain ⟨held, heldTask, slot, found, exited⟩ := holds
  obtain ⟨task, own, effect, runs, acted, rfl⟩ := step_eq_ok returned
  cases creates
  obtain ⟨_, calls⟩ := syscall_of_act acted nofun nofun
  obtain ⟨newTid, allocator, allocated, rfl, _⟩ := sysThreadCreate_eq_ok calls
  obtain ⟨_, _, cases⟩ := RecycleAllocator.alloc_spec allocated
  intro equal
  have same : newTid = tid := by
    have values := Outcome.returned.inj equal
    exact Int.ofNat.inj values
  subst same
  rcases cases with ⟨last, _, _⟩ | ⟨_, rfl, _, _⟩
  · rw [reuses rfl newTid last] at slot
    cases slot
  · obtain ⟨inside, _⟩ := List.getElem?_eq_some_iff.mp slot
    rw [numbered.tasks_length] at inside
    exact Nat.lt_irrefl _ inside

/-! ## Runs -/

/-- The codes that nobody has waited for are in their slots. -/
structure Remembers (process : Process) (events : List Event) : Prop where
  reached : Reached process
  holds :
    process.isZombie = false →
      ∀ {tid : Nat} {exitCode : Int},
        Unwaited events tid exitCode → process.HoldsCode tid exitCode
  kept : ExitCodesKept events

theorem Remembers.of_reached (reached : Reached self) :
    Remembers self [] where
  reached := reached
  holds := by
    rintro _ tid exitCode ⟨earlier, exit, between, split, _⟩
    exact absurd split (by simp)
  kept := by
    constructor
    · intro earlier later event tid exitCode split
      exact absurd split (by simp)
    · intro earlier later event tid exitCode split
      exact absurd split (by simp)

theorem Remembers.step {move : Nat × Action}
    (remembers : Remembers self events) (reuses : self.ReusesWaited move)
    (returned : self.step move = .ok (after, event)) :
    Remembers after (events ++ [event]) := by
  obtain ⟨task, tid, effect, runs, _, eventEq⟩ := step_eq_ok returned
  have numbered := remembers.reached.numbered runs.lives
  have holds :
      ∀ {tid : Nat} {exitCode : Int},
        Unwaited events tid exitCode → self.HoldsCode tid exitCode :=
    remembers.holds runs.lives
  refine ⟨remembers.reached.step returned, ?_, ?_, ?_⟩
  · intro lives tid exitCode unwaited
    rcases unwaited_concat.mp unwaited with
      ⟨rfl, exits⟩ | ⟨unwaited, notWaits⟩
    · rw [eventEq] at exits
      obtain ⟨thread, action⟩ := move
      cases exits
      exact .of_exit numbered returned lives
    · exact (holds unwaited).step reuses numbered returned lives notWaits
  · intro earlier later other tid exitCode split waits unwaited
    rcases concat_eq_split.mp split with
      ⟨_, rfl, rfl⟩ | ⟨between, _, eventsEq⟩
    · exact (holds unwaited).waited returned waits
    · exact remembers.kept.waited eventsEq waits unwaited
  · intro earlier later other tid exitCode split creates outcome unwaited
    rcases concat_eq_split.mp split with
      ⟨_, rfl, rfl⟩ | ⟨between, _, eventsEq⟩
    · exact (holds unwaited).not_created reuses numbered returned creates
        outcome
    · exact remembers.kept.created eventsEq creates outcome unwaited

/--
In every run in which threads are created only when the last free tid belongs
to no thread that still has to be waited for, no exit code is lost.
-/
theorem exit_codes_are_kept {start : Process} {events : List Event}
    (reached : Reached start)
    (trace :
      Trace Process.step (fun self _ move => self.ReusesWaited move) start
        self events) :
    ExitCodesKept events := by
  have remembers : Remembers self events := by
    refine trace.keeps Remembers (.of_reached reached) ?_
    intro state after earlier move event remembers reuses returned
    exact remembers.step reuses returned
  exact remembers.kept

/-- Thread one exits with seven and is waited for; its tid is used again. -/
theorem exit_codes_are_kept_waited :
    ∃ self events,
      Trace Process.step (fun self _ move => self.ReusesWaited move) .new
          self events ∧
        events.map (fun event => event.effect.outcome) =
          [.returned 1, .exited, .returned 7, .returned 1] ∧
        ExitCodesKept events := by
  have created :
      Trace Process.step (fun self _ move => self.ReusesWaited move) .new
        _ _ :=
    .next .start
      (show ReusesWaited .new (0, .threadCreate) from
        fun _ tid found => by cases found)
      (show Process.step _ _ = .ok (_, _) from rfl)
  have exited := created.next
    (show ReusesWaited _ (1, .exit 7) from nofun)
    (show Process.step _ _ = .ok (_, _) from rfl)
  have waited := exited.next
    (show ReusesWaited _ (0, .waittid 1) from nofun)
    (show Process.step _ _ = .ok (_, _) from rfl)
  have again := waited.next
    (show ReusesWaited _ (0, .threadCreate) from fun _ tid found => by
      have same : some 1 = some tid := found
      cases same
      rfl)
    (show Process.step _ _ = .ok (_, _) from rfl)
  exact ⟨_, _, again, rfl, exit_codes_are_kept .new again⟩

/-- Nobody waits for thread one before a new thread takes its tid. -/
theorem exit_code_is_lost :
    ∃ self events,
      run Process.step .new
          [(0, .threadCreate), (1, .exit 7), (0, .threadCreate),
            (0, .waittid 1)] = .ok (self, events) ∧
        events.map (fun event => event.effect.outcome) =
          [.returned 1, .exited, .returned 1, .returned (-2)] ∧
        ¬ ExitCodesKept events := by
  refine ⟨_, _, rfl, rfl, fun kept => ?_⟩
  have unwaited :
      Unwaited
        [⟨0, 0, .user, .threadCreate, ⟨.returned 1, some 1⟩⟩,
          ⟨1, 1, .user, .exit 7, ⟨.exited, none⟩⟩,
          ⟨0, 0, .user, .threadCreate, ⟨.returned 1, some 2⟩⟩] 1 7 := by
    refine ⟨[_], _, [_], rfl, rfl, rfl, fun event member waits => ?_⟩
    rw [mem_singleton.mp member] at waits
    cases waits.1
  have returns := kept.waited (show _ = _ ++ _ :: [] from rfl)
    ⟨rfl, by decide⟩ unwaited
  cases returns

end Process

end RCoreOS.Kernel
