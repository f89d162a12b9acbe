import Mathlib
import RCoreOS.Lib.MaxHeap

/-!
# Sleeping threads

`os/src/timer.rs` and `sys_sleep`.  A timer is ordered by its negated expiry
time, read as a signed number, so that the heap hands out the timer that
expires first.  That is so among the times up to `2 ^ 63` and among the later
ones, but every later time comes before all the others.

Machine words wrap.  The heap is any that peeks and pops a maximum.
-/

namespace RCoreOS.Kernel

open Lib

/-- `TimerCondVar` -/
structure TimerCondVar (Task : Type) where
  expireMs : BitVec 64
  task : Task
deriving DecidableEq, Repr

namespace TimerCondVar

variable {Task : Type}

/-- `TimerCondVar::partial_cmp` -/
def partialCmp (self other : TimerCondVar Task) : Option Ordering :=
  let a := (-self.expireMs).toInt
  let b := (-other.expireMs).toInt
  some (compare a b)

/-- `TimerCondVar::cmp` -/
def cmp (self other : TimerCondVar Task) : Ordering :=
  (self.partialCmp other).get rfl

/-- The order of the heap. -/
def le (self other : TimerCondVar Task) : Prop := (self.cmp other).isLE = true

instance : DecidableRel (le : TimerCondVar Task → TimerCondVar Task → Prop) :=
  fun self other => inferInstanceAs (Decidable ((self.cmp other).isLE = true))

/-! ## The order -/

/-- The place of an expiry time among all: `2 ^ 63 + 1` is the first. -/
def rank (expireMs : BitVec 64) : Nat :=
  (expireMs.toNat + (2 ^ 63 - 1)) % 2 ^ 64

theorem toInt_neg_eq (expireMs : BitVec 64) :
    (-expireMs).toInt = 2 ^ 63 - 1 - (rank expireMs : Int) := by
  have bound := expireMs.isLt
  rw [rank, BitVec.toInt_eq_toNat_cond, BitVec.toNat_neg]
  split <;> omega

/-- A timer is below another one when it has a later place. -/
theorem le_iff_rank {self other : TimerCondVar Task} :
    self.le other ↔ rank other.expireMs ≤ rank self.expireMs := by
  show
    (compare (-self.expireMs).toInt (-other.expireMs).toInt).isLE = true ↔ _
  rw [Int.isLE_compare, toInt_neg_eq, toInt_neg_eq]
  omega

instance : Std.Total (le : TimerCondVar Task → TimerCondVar Task → Prop) where
  total self other := by
    rw [le_iff_rank, le_iff_rank]
    exact Nat.le_total _ _

instance : IsTrans (TimerCondVar Task) le where
  trans first second third lower upper := by
    rw [le_iff_rank] at lower upper ⊢
    exact Nat.le_trans upper lower

end TimerCondVar

/-! ## The timers of the kernel -/

variable {Task : Type}

/-- What `BinaryHeap` is known to do. -/
abbrev TimerHeap (Task : Type) := MaxHeap (TimerCondVar Task) TimerCondVar.le

/-- `TIMERS`, and the ready queue that woken threads join. -/
structure TimerState (heap : TimerHeap Task) where
  timers : heap.Carrier
  readyQueue : List Task

namespace TimerState

variable {heap : TimerHeap Task}

/-- No thread sleeps. -/
def initial (heap : TimerHeap Task) : TimerState heap := ⟨heap.empty, []⟩

/-- `add_timer` -/
def addTimer (self : TimerState heap) (expireMs : BitVec 64) (task : Task) :
    TimerState heap :=
  { self with timers := heap.push ⟨expireMs, task⟩ self.timers }

/-- `remove_timer` -/
def removeTimer [DecidableEq Task] (self : TimerState heap) (task : Task) :
    TimerState heap :=
  let kept := (heap.drain self.timers).filter (task ≠ ·.task)
  { self with timers := heap.pushAll kept heap.empty }

/-- `sys_sleep`, up to the switch to another thread. -/
def sysSleep (self : TimerState heap) (nowMs ms : BitVec 64) (task : Task) :
    TimerState heap :=
  self.addTimer (nowMs + ms) task

/-- The loop of `check_timer`: the timers that it pops, in order. -/
def expired (self : TimerState heap) (currentMs : BitVec 64) :
    List (TimerCondVar Task) × heap.Carrier :=
  heap.popWhile (fun timer => timer.expireMs ≤ currentMs) self.timers

/-- `check_timer` at a given time. -/
def checkTimer (self : TimerState heap) (currentMs : BitVec 64) :
    TimerState heap :=
  let (woken, timers) := self.expired currentMs
  { timers, readyQueue := self.readyQueue ++ woken.map (·.task) }

/-- What can happen to the timers. -/
inductive Call (Task : Type) where
  | sleep (nowMs ms : BitVec 64) (task : Task)
  | remove (task : Task)
  | check (currentMs : BitVec 64)
deriving Repr

def step [DecidableEq Task] (self : TimerState heap) :
    Call Task → TimerState heap
  | .sleep nowMs ms task => self.sysSleep nowMs ms task
  | .remove task => self.removeTimer task
  | .check currentMs => self.checkTimer currentMs

/-- The state after the given calls. -/
def after [DecidableEq Task] (heap : TimerHeap Task)
    (calls : List (Call Task)) : TimerState heap :=
  calls.foldl step (initial heap)

/-! ## Waking on time -/

/-- `check_timer` wakes those that are due, first come first, and no other. -/
structure OnTime (state : TimerState heap) (currentMs : BitVec 64) :
    Prop where
  woken :
    ((state.expired currentMs).1 : Multiset (TimerCondVar Task)) =
      (heap.items state.timers).filter (·.expireMs ≤ currentMs)
  inOrder :
    (state.expired currentMs).1.Pairwise fun earlier later =>
      earlier.expireMs ≤ later.expireMs
  queued :
    (state.checkTimer currentMs).readyQueue =
      state.readyQueue ++ (state.expired currentMs).1.map (·.task)
  left :
    heap.items (state.checkTimer currentMs).timers =
      (heap.items state.timers).filter fun timer =>
        ¬ timer.expireMs ≤ currentMs

/-- No timer in the upper half while one in the lower half is due. -/
def Ordinary (state : TimerState heap) (currentMs : BitVec 64) : Prop :=
  ∀ due ∈ heap.items state.timers, ∀ other ∈ heap.items state.timers,
    due.expireMs ≤ currentMs → due.expireMs.toNat ≤ 2 ^ 63 →
      other.expireMs.toNat ≤ 2 ^ 63

variable {self : TimerState heap} {currentMs : BitVec 64}

theorem expired_popped (self : TimerState heap) (currentMs : BitVec 64) :
    heap.Popped (fun timer => timer.expireMs ≤ currentMs) self.timers
      (self.expired currentMs).1 (self.expired currentMs).2 :=
  heap.popWhile_popped _ _

section

variable (ordinary : self.Ordinary currentMs)

include ordinary

/-- The heap order, for two timers of which a due one is in the lower half. -/
theorem Ordinary.le_iff {first second : TimerCondVar Task}
    (firstIn : first ∈ heap.items self.timers)
    (secondIn : second ∈ heap.items self.timers)
    (firstDue : first.expireMs ≤ currentMs)
    (secondDue : second.expireMs ≤ currentMs) :
    second.le first ↔ first.expireMs ≤ second.expireMs := by
  have forward := ordinary first firstIn second secondIn firstDue
  have backward := ordinary second secondIn first firstIn secondDue
  have firstBound := first.expireMs.isLt
  have secondBound := second.expireMs.isLt
  rw [TimerCondVar.le_iff_rank, TimerCondVar.rank, TimerCondVar.rank,
    BitVec.le_def]
  omega

/-- With ordinary timers, the loop does not stop in front of a due one. -/
theorem Ordinary.none_due {timer : TimerCondVar Task}
    (remains : timer ∈ heap.items (self.expired currentMs).2) :
    ¬ timer.expireMs ≤ currentMs := by
  intro due
  have popped := self.expired_popped currentMs
  have inAll (other : TimerCondVar Task)
      (member : other ∈ heap.items (self.expired currentMs).2) :
      other ∈ heap.items self.timers := by
    rw [popped.split]
    exact Multiset.mem_add.mpr (.inr member)
  have more : heap.items (self.expired currentMs).2 ≠ 0 := by
    intro none
    rw [none] at remains
    exact Multiset.notMem_zero timer remains
  obtain ⟨top, isTop, notDue, below⟩ := popped.stopped more
  have order := below timer remains
  have half := ordinary timer (inAll timer remains) top (inAll top isTop) due
  have timerBound := timer.expireMs.isLt
  have topBound := top.expireMs.isLt
  rw [decide_eq_false_iff_not] at notDue
  rw [TimerCondVar.le_iff_rank, TimerCondVar.rank, TimerCondVar.rank] at order
  rw [BitVec.le_def] at due notDue
  omega

theorem Ordinary.onTime :
    self.OnTime currentMs := by
  have popped := self.expired_popped currentMs
  have due (timer : TimerCondVar Task)
      (member : timer ∈ (self.expired currentMs).1) :
      timer.expireMs ≤ currentMs :=
    of_decide_eq_true (popped.passed timer member)
  have inAll (timer : TimerCondVar Task)
      (member : timer ∈ (self.expired currentMs).1) :
      timer ∈ heap.items self.timers := by
    rw [popped.split]
    exact Multiset.mem_add.mpr (.inl (Multiset.mem_coe.mpr member))
  constructor
  · rw [popped.split, Multiset.filter_add,
      Multiset.filter_eq_self.mpr fun timer member =>
        due timer (Multiset.mem_coe.mp member),
      Multiset.filter_eq_nil.mpr fun timer member => ordinary.none_due member,
      Multiset.add_zero]
  · apply popped.descending.imp_of_mem
    intro earlier later earlierIn laterIn order
    exact (ordinary.le_iff (inAll earlier earlierIn) (inAll later laterIn)
      (due earlier earlierIn) (due later laterIn)).mp order
  · rfl
  · rw [popped.split, Multiset.filter_add,
      Multiset.filter_eq_nil.mpr fun timer member =>
        not_not.mpr (due timer (Multiset.mem_coe.mp member)),
      Multiset.filter_eq_self.mpr fun timer member => ordinary.none_due member,
      Multiset.zero_add]
    rfl

end

/-- A timer of the upper half comes before every one of the lower half. -/
theorem OnTime.ordinary (onTime : self.OnTime currentMs) :
    self.Ordinary currentMs := by
  intro due dueIn other otherIn isDue lower
  by_contra upper
  have popped := self.expired_popped currentMs
  have dueTaken : due ∈ (self.expired currentMs).1 := by
    rw [← Multiset.mem_coe, onTime.woken]
    exact Multiset.mem_filter.mpr ⟨dueIn, isDue⟩
  have behind : ¬ other.le due := by
    have otherBound := other.expireMs.isLt
    rw [TimerCondVar.le_iff_rank, TimerCondVar.rank, TimerCondVar.rank]
    omega
  by_cases otherDue : other.expireMs ≤ currentMs
  · -- both are woken, the later time first
    have otherTaken : other ∈ (self.expired currentMs).1 := by
      rw [← Multiset.mem_coe, onTime.woken]
      exact Multiset.mem_filter.mpr ⟨otherIn, otherDue⟩
    let inTurn (first second : TimerCondVar Task) : Prop :=
      second.le first ∧ first.expireMs ≤ second.expireMs
    have both : (self.expired currentMs).1.Pairwise inTurn :=
      popped.descending.and onTime.inOrder
    have symmetric :
        Std.Symm fun first second => inTurn first second ∨ inTurn second first :=
      ⟨fun _ _ => Or.symm⟩
    have either :
        (self.expired currentMs).1.Pairwise fun first second =>
          inTurn first second ∨ inTurn second first :=
      both.imp Or.inl
    have different : due ≠ other := fun equal => upper (equal ▸ lower)
    rcases either.forall dueTaken otherTaken different with first | second
    · exact behind first.1
    · have sooner := second.2
      rw [BitVec.le_def] at sooner
      omega
  · -- the other one stays in the heap, below the one that was popped
    have remains : other ∈ heap.items (self.expired currentMs).2 := by
      rw [popped.split] at otherIn
      rcases Multiset.mem_add.mp otherIn with taken | remains
      · exact absurd
          (of_decide_eq_true (popped.passed other (Multiset.mem_coe.mp taken)))
          otherDue
      · exact remains
    exact behind (popped.above due dueTaken other remains)

theorem onTime_iff_ordinary :
    self.OnTime currentMs ↔ self.Ordinary currentMs :=
  ⟨OnTime.ordinary, Ordinary.onTime⟩

end TimerState

/--
After any calls and at any time, `check_timer` wakes the sleepers that are due
in the order of their times, exactly when no timer beyond `2 ^ 63` is in the
heap together with a due one that is not.
-/
theorem check_timer_on_time_iff [DecidableEq Task]
    (heap : TimerHeap Task) (calls : List (TimerState.Call Task))
    (currentMs : BitVec 64) :
    (TimerState.after heap calls).OnTime currentMs ↔
      ∀ due ∈ heap.items (TimerState.after heap calls).timers,
        ∀ other ∈ heap.items (TimerState.after heap calls).timers,
          due.expireMs ≤ currentMs → due.expireMs.toNat ≤ 2 ^ 63 →
            other.expireMs.toNat ≤ 2 ^ 63 :=
  TimerState.onTime_iff_ordinary

/-- One thread sleeps 10 ms, another one `2 ^ 63 + 5` ms. -/
def longSleep : List (TimerState.Call Nat) :=
  [.sleep 0 10 1, .sleep 0 9223372036854775813 2]

theorem longSleep_items (heap : TimerHeap Nat) :
    heap.items (TimerState.after heap longSleep).timers =
      ⟨9223372036854775813, 2⟩ ::ₘ ⟨10, 1⟩ ::ₘ 0 := by
  show heap.items (heap.push _ (heap.push _ heap.empty)) = _
  rw [heap.items_push, heap.items_push, heap.items_empty]
  rfl

/-- At time 20 the first of the two is not woken. -/
theorem longSleep_not_on_time :
    ¬ ∀ (heap : TimerHeap Nat) (calls : List (TimerState.Call Nat))
        (currentMs : BitVec 64),
        (TimerState.after heap calls).OnTime currentMs := by
  intro onTime
  have ordinary :=
    (onTime (MaxHeap.sorted TimerCondVar.le) longSleep 20).ordinary
  rw [TimerState.Ordinary, longSleep_items] at ordinary
  have small :=
    ordinary ⟨10, 1⟩ (by simp) ⟨9223372036854775813, 2⟩ (by simp)
      (by decide) (by simp)
  exact absurd small (by simp)

end RCoreOS.Kernel
