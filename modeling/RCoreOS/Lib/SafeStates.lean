import Mathlib.Algebra.BigOperators.Group.Finset.Basic
import Mathlib.Algebra.Order.BigOperators.Group.Finset
import Mathlib.Data.Finset.Max
import Mathlib.Data.Finset.Powerset

/-!
# Safe states of a resource system

Threads hold units of several resources and ask for more.  A thread that gets
what it needs finishes and gives back what it holds.  Some threads are stuck
when each of them needs more of some resource than there is after all the
other threads have finished.

The sets of threads that can finish one after another never meet a stuck set,
and a set that cannot be extended leaves a stuck set behind.  So taking any
thread that fits, in any order, decides whether all threads can finish, which
is the case exactly when there is a safe order of all threads.
-/

namespace RCoreOS.Lib.SafeStates

open List

variable {τ ι : Type} [DecidableEq τ]

/-- What each thread of a finite set holds and needs, and what is left. -/
structure Resources (τ ι : Type) where
  threads : Finset τ
  available : ι → Nat
  allocation : τ → ι → Nat
  need : τ → ι → Nat

namespace Resources

variable (resources : Resources τ ι)

/-- What there is once some threads have given back what they hold. -/
def work (finished : Finset τ) (resource : ι) : Nat :=
  resources.available resource +
    ∑ thread ∈ finished, resources.allocation thread resource

/-- The thread can get what it needs. -/
def Fits (finished : Finset τ) (thread : τ) : Prop :=
  ∀ resource, resources.need thread resource ≤
    resources.work finished resource

/-- No thread of the set can finish before another thread of the set. -/
structure Stuck (waiting : Finset τ) : Prop where
  nonempty : waiting.Nonempty
  subset : waiting ⊆ resources.threads
  notFits :
    ∀ thread ∈ waiting, ¬ resources.Fits (resources.threads \ waiting) thread

/-- Threads that can finish one after another. -/
inductive Finishes : Finset τ → Prop where
  | none : Finishes ∅
  | next {finished : Finset τ} {thread : τ}
      (earlier : Finishes finished)
      (member : thread ∈ resources.threads)
      (unfinished : thread ∉ finished)
      (fits : resources.Fits finished thread) :
      Finishes (insert thread finished)

variable {resources}

omit [DecidableEq τ] in
theorem work_mono {first second : Finset τ} (subset : first ⊆ second)
    (resource : ι) :
    resources.work first resource ≤ resources.work second resource :=
  Nat.add_le_add_left (Finset.sum_le_sum_of_subset subset) _

omit [DecidableEq τ] in
theorem Fits.mono {first second : Finset τ} {thread : τ}
    (fits : resources.Fits first thread) (subset : first ⊆ second) :
    resources.Fits second thread :=
  fun resource => (fits resource).trans (work_mono subset resource)

theorem work_insert {finished : Finset τ} {thread : τ}
    (unfinished : thread ∉ finished) (resource : ι) :
    resources.work (insert thread finished) resource =
      resources.work finished resource +
        resources.allocation thread resource := by
  rw [work, work, Finset.sum_insert unfinished, Nat.add_assoc,
    Nat.add_comm (resources.allocation thread resource)]

theorem Finishes.subset {finished : Finset τ}
    (finishes : resources.Finishes finished) :
    finished ⊆ resources.threads := by
  induction finishes with
  | none => exact Finset.empty_subset _
  | next _ member _ _ induction => exact Finset.insert_subset member induction

/-- No thread of a stuck set is ever among the finished ones. -/
theorem Finishes.disjoint {finished waiting : Finset τ}
    (finishes : resources.Finishes finished)
    (stuck : resources.Stuck waiting) : Disjoint finished waiting := by
  induction finishes with
  | none => exact Finset.disjoint_empty_left _
  | next earlier member unfinished fits induction =>
    rw [Finset.disjoint_insert_left]
    refine ⟨fun waits => ?_, induction⟩
    refine stuck.notFits _ waits (fits.mono ?_)
    intro thread finishedThread
    rw [Finset.mem_sdiff]
    exact ⟨earlier.subset finishedThread,
      Finset.disjoint_left.mp induction finishedThread⟩

/-- When nobody else can finish, the unfinished threads are stuck. -/
theorem stuck_of_maximal {finished : Finset τ}
    (subset : finished ⊆ resources.threads)
    (unfinished : finished ≠ resources.threads)
    (maximal :
      ∀ thread ∈ resources.threads \ finished,
        ¬ resources.Fits finished thread) :
    resources.Stuck (resources.threads \ finished) where
  nonempty := by
    rw [Finset.sdiff_nonempty]
    exact fun covered => unfinished (subset.antisymm covered)
  subset := Finset.sdiff_subset
  notFits thread member := by
    rw [Finset.sdiff_sdiff_eq_self subset]
    exact maximal thread member

/-- Some threads are stuck exactly when a maximal set is not everything. -/
theorem exists_stuck_iff {finished : Finset τ}
    (finishes : resources.Finishes finished)
    (maximal :
      ∀ thread ∈ resources.threads \ finished,
        ¬ resources.Fits finished thread) :
    (∃ waiting, resources.Stuck waiting) ↔ finished ≠ resources.threads := by
  constructor
  · rintro ⟨waiting, stuck⟩ rfl
    obtain ⟨thread, waits⟩ := stuck.nonempty
    exact Finset.disjoint_left.mp (finishes.disjoint stuck)
      (stuck.subset waits) waits
  · intro unfinished
    exact ⟨_, stuck_of_maximal finishes.subset unfinished maximal⟩

/-! ## Orders -/

/-- An order of all threads in which each fits once those before it are done. -/
structure SafeOrder (resources : Resources τ ι) (order : List τ) : Prop where
  nodup : order.Nodup
  toFinset_eq : order.toFinset = resources.threads
  fits :
    ∀ {earlier : List τ} {thread : τ}, earlier ++ [thread] <+: order →
      resources.Fits earlier.toFinset thread

/-- The threads finish one after another in some order. -/
theorem Finishes.exists_order {finished : Finset τ}
    (finishes : resources.Finishes finished) :
    ∃ order : List τ,
      order.Nodup ∧ order.toFinset = finished ∧
        ∀ {earlier : List τ} {thread : τ}, earlier ++ [thread] <+: order →
          resources.Fits earlier.toFinset thread := by
  induction finishes with
  | none =>
    refine ⟨[], nodup_nil, rfl, fun before => ?_⟩
    have empty := prefix_nil.mp before
    exact absurd empty (by simp)
  | @next finished last earlier member unfinished fits induction =>
    obtain ⟨order, nodup, rfl, fitsBefore⟩ := induction
    have notMember : last ∉ order := fun inside =>
      unfinished (mem_toFinset.mpr inside)
    refine ⟨order ++ [last], ?_, ?_, fun before => ?_⟩
    · exact nodup.append (nodup_singleton last)
        (disjoint_singleton.mpr notMember)
    · rw [toFinset_append, Finset.union_comm]
      rfl
    · rcases prefix_concat_iff.mp before with equal | before
      · obtain ⟨rfl, same⟩ := append_inj' equal rfl
        cases same
        exact fits
      · exact fitsBefore before

/-- Following an order of threads that fit finishes all of them. -/
theorem Finishes.of_order {order : List τ} (nodup : order.Nodup)
    (subset : order.toFinset ⊆ resources.threads)
    (fits :
      ∀ {earlier : List τ} {thread : τ}, earlier ++ [thread] <+: order →
        resources.Fits earlier.toFinset thread) :
    resources.Finishes order.toFinset := by
  induction order using List.reverseRecOn with
  | nil => exact .none
  | append_singleton order last induction =>
    have notMember : last ∉ order := by
      have parts := nodup_append.mp nodup
      exact fun inside =>
        parts.2.2 last inside last (mem_singleton_self last) rfl
    have equal : (order ++ [last]).toFinset = insert last order.toFinset := by
      rw [toFinset_append, Finset.union_comm]
      rfl
    rw [equal] at subset ⊢
    obtain ⟨member, subset⟩ := Finset.insert_subset_iff.mp subset
    refine .next (induction nodup.of_append_left subset ?_) member ?_ ?_
    · intro earlier thread before
      exact fits (before.trans (prefix_append order [last]))
    · exact fun inside => notMember (mem_toFinset.mp inside)
    · exact fits prefix_rfl

/-- Some finished set cannot be extended. -/
theorem exists_maximal (resources : Resources τ ι) :
    ∃ finished,
      resources.Finishes finished ∧
        ∀ thread ∈ resources.threads \ finished,
          ¬ resources.Fits finished thread := by
  classical
  have nonempty :
      (resources.threads.powerset.filter resources.Finishes).Nonempty :=
    ⟨∅, Finset.mem_filter.mpr ⟨Finset.empty_mem_powerset _, .none⟩⟩
  obtain ⟨finished, member, largest⟩ :=
    Finset.exists_max_image _ Finset.card nonempty
  have finishes := (Finset.mem_filter.mp member).2
  refine ⟨finished, finishes, fun thread outside fits => ?_⟩
  obtain ⟨inside, unfinished⟩ := Finset.mem_sdiff.mp outside
  have more := Finishes.next finishes inside unfinished fits
  have smaller := largest _
    (Finset.mem_filter.mpr ⟨Finset.mem_powerset.mpr more.subset, more⟩)
  rw [Finset.card_insert_of_notMem unfinished] at smaller
  exact Nat.not_succ_le_self _ smaller

/-- There is a safe order exactly when no threads are stuck. -/
theorem exists_safeOrder_iff :
    (∃ order, resources.SafeOrder order) ↔
      ¬ ∃ waiting, resources.Stuck waiting := by
  obtain ⟨finished, finishes, maximal⟩ := exists_maximal resources
  rw [exists_stuck_iff finishes maximal, ne_eq, not_not]
  constructor
  · rintro ⟨order, safe⟩
    by_contra unfinished
    have stuck := stuck_of_maximal finishes.subset unfinished maximal
    have all := Finishes.of_order safe.nodup
      (safe.toFinset_eq ▸ Finset.Subset.refl _) safe.fits
    rw [safe.toFinset_eq] at all
    obtain ⟨thread, waits⟩ := stuck.nonempty
    exact Finset.disjoint_left.mp (all.disjoint stuck)
      (stuck.subset waits) waits
  · rintro rfl
    obtain ⟨order, nodup, toFinsetEq, fits⟩ := finishes.exists_order
    exact ⟨order, nodup, toFinsetEq, fits⟩

end Resources

end RCoreOS.Lib.SafeStates
