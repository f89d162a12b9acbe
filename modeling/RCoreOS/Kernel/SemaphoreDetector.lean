import RCoreOS.Kernel.ResourceTables
import RCoreOS.Lib.SafeStates

/-!
# The detector of `sys_semaphore_down`

The detector looks for threads whose needs fit what is available, lets them
give back what they hold, and starts again until it finds nobody.  The request
is refused when a thread is left.  While it looks, it pads the rows of the
tables with zeros.

As long as the sums do not wrap, the request is refused exactly when some
threads are stuck in the sense of `Lib.SafeStates`.
-/

namespace RCoreOS.Kernel

open Lib.FallibleRuns Lib.SafeStates List

/-- The local variables of the detector and the tables it pads. -/
structure SemaphoreDetection extends Detection where
  need : Table
  allocation : Table
deriving DecidableEq, Repr

/-- `valid`: no entry of the row is greater than what there is. -/
def fits (row work : List Usize) : Bool :=
  (row.zip work).all fun pair => decide (pair.1 ≤ pair.2)

/-- One turn of the `for` loop over the threads. -/
def semaphoreVisit (detection : SemaphoreDetection) (tid : Nat) :
    Except Stop SemaphoreDetection := do
  let row ← index detection.need tid
  let row := padTo detection.work.length row
  let need := detection.need.set tid row
  let finished ← index detection.finish tid
  if !finished && fits row detection.work then
    let held ← index detection.allocation tid
    let held := padTo detection.work.length held
    return {
      need
      allocation := detection.allocation.set tid held
      work := List.zipWith (· + ·) detection.work held
      finish := detection.finish.set tid true
      isFound := true }
  else
    return { detection with need }

/--
The `loop`, for at most `turns` turns.  Each turn but the last one finishes a
thread, so one turn more than there are threads is enough.
-/
def semaphoreLoop (count : Nat) :
    Nat → SemaphoreDetection → Except Stop SemaphoreDetection
  | 0, detection => return detection
  | turns + 1, detection => do
      let detection ← (List.range count).foldlM semaphoreVisit
        { detection with isFound := false }
      if detection.isFound then semaphoreLoop count turns detection
      else return detection

/-- The detection in `sys_semaphore_down`; `true` means a deadlock. -/
def semaphoreDetect (need allocation : Table) (available : List Usize)
    (count : Nat) : Except Stop (Bool × Table × Table) := do
  let detection ← semaphoreLoop count (count + 1)
    ⟨⟨available, List.replicate count false, false⟩, need, allocation⟩
  return (!detection.finish.all id, detection.need, detection.allocation)

/-! ## One turn -/

theorem fits_iff {row work : List Usize} (long : work.length ≤ row.length) :
    fits row work = true ↔
      ∀ id < work.length, row.getD id 0 ≤ work.getD id 0 := by
  rw [fits, all_eq_true]
  constructor
  · intro all id inside
    have insideRow : id < row.length := by omega
    have member : (row[id], work[id]) ∈ row.zip work := by
      rw [mem_iff_getElem]
      exact ⟨id, by simp [insideRow, inside], by simp⟩
    have smaller := of_decide_eq_true (all _ member)
    rw [getD_eq_getElem _ _ insideRow, getD_eq_getElem _ _ inside]
    exact smaller
  · intro smaller pair member
    obtain ⟨id, inside, rfl⟩ := mem_iff_getElem.mp member
    rw [length_zip] at inside
    have insideWork : id < work.length := by omega
    have insideRow : id < row.length := by omega
    have here := smaller id insideWork
    rw [getD_eq_getElem _ _ insideRow, getD_eq_getElem _ _ insideWork] at here
    simpa using here

/-- The thread's needs fit what there is. -/
def Satisfiable (detection : SemaphoreDetection) (tid : Nat) : Prop :=
  ∀ id < detection.work.length,
    entry detection.need tid id ≤ detection.work.getD id 0

/-- What a turn does when it finishes the thread. -/
structure TurnFinishes (detection after : SemaphoreDetection) (tid : Nat) :
    Prop where
  unfinished : detection.finish[tid]? = some false
  satisfiable : Satisfiable detection tid
  found : after.isFound = true
  finish_eq : after.finish = detection.finish.set tid true
  work_length : after.work.length = detection.work.length
  work_eq :
    ∀ id < detection.work.length,
      after.work.getD id 0 =
        detection.work.getD id 0 + entry detection.allocation tid id

variable {detection after : SemaphoreDetection} {tid count : Nat}

/-- A turn only pads the tables; it finishes the thread if that is possible. -/
theorem semaphoreVisit_spec
    (returned : semaphoreVisit detection tid = .ok after) :
    (entry after.need = entry detection.need ∧
        entry after.allocation = entry detection.allocation ∧
        after.need.length = detection.need.length ∧
        after.allocation.length = detection.allocation.length) ∧
      ((after.toDetection = detection.toDetection ∧
          (detection.finish[tid]? = some true ∨ ¬ Satisfiable detection tid)) ∨
        TurnFinishes detection after tid) := by
  obtain ⟨row, rowEq, rest⟩ := bind_eq_ok.mp returned
  obtain ⟨finished, finishedEq, rest⟩ := bind_eq_ok.mp rest
  have rowFound := index_eq_ok.mp rowEq
  obtain ⟨inside, _⟩ := List.getElem?_eq_some_iff.mp rowFound
  have rowIs : detection.need.getD tid [] = row := getD_of_getElem? rowFound []
  have padded :
      entry (detection.need.set tid (padTo detection.work.length row)) =
        entry detection.need := by
    funext otherTid id
    rw [entry_set inside]
    split
    · next same => rw [getD_padTo, same, entry, rowIs]
    · rfl
  have fitsIff :
      fits (padTo detection.work.length row) detection.work = true ↔
        Satisfiable detection tid := by
    rw [fits_iff (by rw [length_padTo]; omega), Satisfiable]
    simp only [getD_padTo, entry, rowIs]
  have finishedIs := index_eq_ok.mp finishedEq
  split at rest
  · next taken =>
      rw [Bool.and_eq_true, Bool.not_eq_true'] at taken
      obtain ⟨held, heldEq, rest⟩ := bind_eq_ok.mp rest
      cases rest
      have heldFound := index_eq_ok.mp heldEq
      obtain ⟨heldInside, _⟩ := List.getElem?_eq_some_iff.mp heldFound
      have heldIs : detection.allocation.getD tid [] = held :=
        getD_of_getElem? heldFound []
      have lengths :
          detection.work.length ≤
            (padTo detection.work.length held).length := by
        rw [length_padTo]
        omega
      refine ⟨⟨padded, ?_, length_set, length_set⟩,
        .inr ⟨?_, fitsIff.mp taken.2, rfl, rfl, ?_, ?_⟩⟩
      · funext otherTid id
        rw [entry_set heldInside]
        split
        · next same => rw [getD_padTo, same, entry, heldIs]
        · rfl
      · rw [← taken.1]
        exact finishedIs
      · rw [length_zipWith]
        omega
      · intro id below
        have insideHeld :
            id < (padTo detection.work.length held).length := by omega
        have value := getD_padTo detection.work.length held id
        rw [getD_eq_getElem _ _ insideHeld] at value
        rw [getD_eq_getElem _ _
            (by rw [length_zipWith]; omega), getElem_zipWith,
          getD_eq_getElem _ _ below, value, entry, heldIs]
  · next skipped =>
      cases rest
      refine ⟨⟨padded, rfl, length_set, rfl⟩, .inl ⟨rfl, ?_⟩⟩
      cases finished with
      | true => exact .inl finishedIs
      | false =>
        refine .inr fun satisfiable => skipped ?_
        rw [Bool.not_false, Bool.true_and]
        exact fitsIff.mpr satisfiable

/-! ## The tables -/

/-- The detector has padded the rows and changed nothing else. -/
structure OnlyPadded (before after : SemaphoreDetection) : Prop where
  need_eq : entry after.need = entry before.need
  allocation_eq : entry after.allocation = entry before.allocation
  need_length : after.need.length = before.need.length
  allocation_length : after.allocation.length = before.allocation.length

theorem OnlyPadded.refl (detection : SemaphoreDetection) :
    OnlyPadded detection detection :=
  ⟨rfl, rfl, rfl, rfl⟩

theorem OnlyPadded.trans {first second third : SemaphoreDetection}
    (earlier : OnlyPadded first second) (later : OnlyPadded second third) :
    OnlyPadded first third where
  need_eq := later.need_eq.trans earlier.need_eq
  allocation_eq := later.allocation_eq.trans earlier.allocation_eq
  need_length := later.need_length.trans earlier.need_length
  allocation_length := later.allocation_length.trans earlier.allocation_length

theorem OnlyPadded.visit (returned : semaphoreVisit detection tid = .ok after) :
    OnlyPadded detection after := by
  obtain ⟨⟨need, allocation, needLength, allocationLength⟩, _⟩ :=
    semaphoreVisit_spec returned
  exact ⟨need, allocation, needLength, allocationLength⟩

variable {tids : List Nat} {turns : Nat} {need allocation : Table}
  {available : List Usize} {result : Bool × Table × Table}

theorem OnlyPadded.pass
    (returned : tids.foldlM semaphoreVisit detection = .ok after) :
    OnlyPadded detection after := by
  induction tids generalizing detection with
  | nil =>
    cases returned
    exact .refl _
  | cons tid rest induction =>
    rw [foldlM_cons] at returned
    obtain ⟨between, visited, restEq⟩ := bind_eq_ok.mp returned
    exact (OnlyPadded.visit visited).trans (induction restEq)

theorem OnlyPadded.loop
    (returned : semaphoreLoop count turns detection = .ok after) :
    OnlyPadded detection after := by
  induction turns generalizing detection with
  | zero =>
    cases returned
    exact .refl _
  | succ turns induction =>
    obtain ⟨between, passed, rest⟩ := bind_eq_ok.mp returned
    have passPadded := OnlyPadded.pass passed
    have padded : OnlyPadded detection between :=
      ⟨passPadded.need_eq, passPadded.allocation_eq,
        passPadded.need_length, passPadded.allocation_length⟩
    split at rest
    · exact padded.trans (induction rest)
    · cases rest
      exact padded

/-- The tables that the detector leaves have the same entries. -/
theorem semaphoreDetect_entries
    (returned :
      semaphoreDetect need allocation available count = .ok result) :
    entry result.2.1 = entry need ∧ entry result.2.2 = entry allocation ∧
      result.2.1.length = need.length ∧
      result.2.2.length = allocation.length := by
  obtain ⟨detection, looped, rest⟩ := bind_eq_ok.mp returned
  cases rest
  have padded := OnlyPadded.loop looped
  exact ⟨padded.need_eq, padded.allocation_eq, padded.need_length,
    padded.allocation_length⟩

theorem rowLength_le_visit
    (returned : semaphoreVisit detection tid = .ok after) (other : Nat) :
    rowLength detection.need other ≤ rowLength after.need other := by
  obtain ⟨row, rowEq, rest⟩ := bind_eq_ok.mp returned
  obtain ⟨finished, _, rest⟩ := bind_eq_ok.mp rest
  have rowFound := index_eq_ok.mp rowEq
  obtain ⟨inside, _⟩ := List.getElem?_eq_some_iff.mp rowFound
  have grows :
      rowLength detection.need other ≤
        rowLength
          (detection.need.set tid (padTo detection.work.length row))
          other := by
    rw [rowLength_set inside]
    split
    · next same =>
        rw [same, rowLength, getD_of_getElem? rowFound, length_padTo]
        exact Nat.le_max_left _ _
    · exact Nat.le_refl _
  split at rest
  · obtain ⟨held, _, rest⟩ := bind_eq_ok.mp rest
    cases rest
    exact grows
  · cases rest
    exact grows

theorem rowLength_le_pass
    (returned : tids.foldlM semaphoreVisit detection = .ok after)
    (other : Nat) :
    rowLength detection.need other ≤ rowLength after.need other := by
  induction tids generalizing detection with
  | nil =>
    cases returned
    exact Nat.le_refl _
  | cons tid rest induction =>
    rw [foldlM_cons] at returned
    obtain ⟨between, visited, restEq⟩ := bind_eq_ok.mp returned
    exact (rowLength_le_visit visited other).trans (induction restEq)

theorem rowLength_le_loop
    (returned : semaphoreLoop count turns detection = .ok after) (other : Nat) :
    rowLength detection.need other ≤ rowLength after.need other := by
  induction turns generalizing detection with
  | zero =>
    cases returned
    exact Nat.le_refl _
  | succ turns induction =>
    obtain ⟨between, passed, rest⟩ := bind_eq_ok.mp returned
    have grows := rowLength_le_pass passed other
    split at rest
    · exact Nat.le_trans grows (induction rest)
    · cases rest
      exact grows

/-- The rows of the need table only grow. -/
theorem rowLength_le_semaphoreDetect
    (returned :
      semaphoreDetect need allocation available count = .ok result)
    (tid : Nat) : rowLength need tid ≤ rowLength result.2.1 tid := by
  obtain ⟨detection, looped, rest⟩ := bind_eq_ok.mp returned
  cases rest
  exact rowLength_le_loop looped tid

/-! ## The verdict -/

section Verdict

/-- The entries of the tables as numbers of units. -/
def resources (need allocation : Table) (available : List Usize)
    (count : Nat) : Resources Nat (Fin available.length) where
  threads := Finset.range count
  available id := (available.getD id 0).toNat
  allocation tid id := (entry allocation tid id).toNat
  need tid id := (entry need tid id).toNat

/-- The threads that the detector has finished. -/
def finished (count : Nat) (finish : List Bool) : Finset Nat :=
  (Finset.range count).filter fun tid => finish[tid]? = some true

variable {need allocation : Table} {available : List Usize} {count : Nat}
  {detection after : SemaphoreDetection} {tid : Nat}

/-- What holds of the variables of the detector while it runs. -/
structure Progressed (need allocation : Table) (available : List Usize)
    (count : Nat) (detection : SemaphoreDetection) : Prop where
  need_eq : entry detection.need = entry need
  allocation_eq : entry detection.allocation = entry allocation
  work_length : detection.work.length = available.length
  finish_length : detection.finish.length = count
  finishes :
    (resources need allocation available count).Finishes
      (finished count detection.finish)
  work_eq :
    ∀ id : Fin available.length,
      (detection.work.getD id 0).toNat =
        (resources need allocation available count).work
          (finished count detection.finish) id

theorem Progressed.satisfiable_iff
    (progressed : Progressed need allocation available count detection) :
    Satisfiable detection tid ↔
      (resources need allocation available count).Fits
        (finished count detection.finish) tid := by
  have lengthEq := progressed.work_length
  constructor
  · intro satisfiable id
    have smaller := satisfiable id (by omega)
    rw [BitVec.le_def, progressed.work_eq, progressed.need_eq] at smaller
    exact smaller
  · intro smaller id inside
    have here := smaller ⟨id, by omega⟩
    rw [BitVec.le_def, progressed.need_eq]
    exact here.trans (Nat.le_of_eq (progressed.work_eq ⟨id, by omega⟩).symm)

variable {finish : List Bool}

theorem finished_set (inside : tid < count)
    (length : finish.length = count) :
    finished count (finish.set tid true) =
      insert tid (finished count finish) := by
  ext other
  simp only [finished, Finset.mem_filter, Finset.mem_range, Finset.mem_insert]
  by_cases same : other = tid
  · subst same
    rw [getElem?_set_self (by omega)]
    simp [inside]
  · rw [getElem?_set_ne (Ne.symm same)]
    simp [same]

theorem finished_eq_iff (length : finish.length = count) :
    finished count finish = Finset.range count ↔ finish.all id = true := by
  rw [finished, Finset.filter_eq_self, all_eq_true]
  constructor
  · intro all value member
    obtain ⟨tid, inside, rfl⟩ := mem_iff_getElem.mp member
    have here := all tid (Finset.mem_range.mpr (by omega))
    rw [getElem?_eq_getElem inside, Option.some.injEq] at here
    exact here
  · intro all tid member
    have inside : tid < finish.length := by
      rw [length]
      exact Finset.mem_range.mp member
    rw [getElem?_eq_getElem inside, Option.some.injEq]
    exact all _ (getElem_mem inside)

variable
  (bounded :
    ∀ id, (resources need allocation available count).work
      (Finset.range count) id < 2 ^ 64)

include bounded

theorem Progressed.turn
    (progressed : Progressed need allocation available count detection)
    (inside : tid < count) (padded : OnlyPadded detection after)
    (turn : TurnFinishes detection after tid) :
    Progressed need allocation available count after ∧
      finished count after.finish =
        insert tid (finished count detection.finish) ∧
      tid ∉ finished count detection.finish := by
  have unfinished : tid ∉ finished count detection.finish := by
    rw [finished, Finset.mem_filter, turn.unfinished]
    exact fun both => absurd both.2 (by decide)
  have finishedEq :
      finished count after.finish =
        insert tid (finished count detection.finish) := by
    rw [turn.finish_eq, finished_set inside progressed.finish_length]
  have finishes :
      (resources need allocation available count).Finishes
        (finished count after.finish) := by
    rw [finishedEq]
    exact .next progressed.finishes (Finset.mem_range.mpr inside) unfinished
      (progressed.satisfiable_iff.mp turn.satisfiable)
  refine ⟨⟨?_, ?_, ?_, ?_, finishes, fun id => ?_⟩, finishedEq, unfinished⟩
  · exact padded.need_eq.trans progressed.need_eq
  · exact padded.allocation_eq.trans progressed.allocation_eq
  · exact turn.work_length.trans progressed.work_length
  · rw [turn.finish_eq, length_set]
    exact progressed.finish_length
  · have insideWork : (id : Nat) < detection.work.length := by
      rw [progressed.work_length]
      exact id.isLt
    have total :
        (resources need allocation available count).work
            (insert tid (finished count detection.finish)) id < 2 ^ 64 :=
      Nat.lt_of_le_of_lt
        (Resources.work_mono (finishedEq ▸ finishes.subset) id) (bounded id)
    rw [Resources.work_insert unfinished, ← progressed.work_eq] at total
    rw [finishedEq, Resources.work_insert unfinished, ← progressed.work_eq,
      turn.work_eq id insideWork, progressed.allocation_eq]
    exact BitVec.toNat_add_of_lt total

omit bounded in
theorem Progressed.congr
    (progressed : Progressed need allocation available count detection)
    (padded : OnlyPadded detection after) (work : after.work = detection.work)
    (finish : after.finish = detection.finish) :
    Progressed need allocation available count after where
  need_eq := padded.need_eq.trans progressed.need_eq
  allocation_eq := padded.allocation_eq.trans progressed.allocation_eq
  work_length := (congrArg List.length work).trans progressed.work_length
  finish_length := (congrArg List.length finish).trans progressed.finish_length
  finishes := by
    rw [finish]
    exact progressed.finishes
  work_eq id := by
    rw [work, finish]
    exact progressed.work_eq id

/-- What one pass over the threads comes to. -/
structure PassResult (count : Nat) (tids : List Nat)
    (detection after : SemaphoreDetection) : Prop where
  found : detection.isFound = true → after.isFound = true
  subset : finished count detection.finish ⊆ finished count after.finish
  nobody :
    after.isFound = false →
      after.work = detection.work ∧ after.finish = detection.finish ∧
        ∀ tid ∈ tids, tid ∈ finished count detection.finish ∨
          ¬ Satisfiable detection tid
  somebody :
    detection.isFound = false → after.isFound = true →
      finished count detection.finish ⊂ finished count after.finish

section

variable (progressed : Progressed need allocation available count detection)

include progressed

theorem Progressed.pass {tids : List Nat}
    (inside : ∀ tid ∈ tids, tid < count)
    (returned : tids.foldlM semaphoreVisit detection = .ok after) :
    Progressed need allocation available count after ∧
      PassResult count tids detection after := by
  induction tids generalizing detection with
  | nil =>
    cases returned
    refine ⟨progressed, id, subset_rfl,
      fun _ => ⟨rfl, rfl, forall_mem_nil _⟩, ?_⟩
    intro notFound found
    rw [notFound] at found
    cases found
  | cons tid rest induction =>
    rw [foldlM_cons] at returned
    obtain ⟨between, visited, restEq⟩ := bind_eq_ok.mp returned
    have padded := OnlyPadded.visit visited
    have here := inside tid mem_cons_self
    have insideRest : ∀ other ∈ rest, other < count :=
      fun other member => inside other (mem_cons_of_mem _ member)
    rcases (semaphoreVisit_spec visited).2 with ⟨same, passedOver⟩ | turn
    · -- the turn passes the thread over
      obtain ⟨workEq, finishEq, foundEq⟩ := Detection.mk.inj same
      obtain ⟨later, result⟩ :=
        induction (progressed.congr padded workEq finishEq) insideRest
          restEq
      have satisfiableIff :
          ∀ other, Satisfiable between other ↔ Satisfiable detection other := by
        intro other
        rw [Satisfiable, Satisfiable, workEq, padded.need_eq]
      refine ⟨later, ?_, ?_, ?_, ?_⟩
      · rw [← foundEq]
        exact result.found
      · rw [← finishEq]
        exact result.subset
      · intro notFound
        obtain ⟨laterWork, laterFinish, others⟩ := result.nobody notFound
        refine ⟨laterWork.trans workEq, laterFinish.trans finishEq, ?_⟩
        intro other member
        rcases mem_cons.mp member with rfl | member
        · refine passedOver.imp_left fun finishedHere => ?_
          rw [finished, Finset.mem_filter, Finset.mem_range]
          exact ⟨here, finishedHere⟩
        · have othersHere := others other member
          rw [finishEq, satisfiableIff] at othersHere
          exact othersHere
      · rw [← foundEq, ← finishEq]
        exact result.somebody
    · -- the turn finishes the thread
      obtain ⟨turned, finishedEq, unfinished⟩ :=
        progressed.turn bounded here padded turn
      obtain ⟨later, result⟩ := induction turned insideRest restEq
      have found : after.isFound = true := result.found turn.found
      have grows :
          finished count detection.finish ⊂ finished count after.finish := by
        refine Finset.ssubset_of_ssubset_of_subset ?_ result.subset
        rw [finishedEq]
        exact Finset.ssubset_insert unfinished
      refine ⟨later, fun _ => found, grows.subset, ?_, fun _ _ => grows⟩
      intro notFound
      rw [found] at notFound
      cases notFound

/-- The loop ends by itself, when nobody is left that can finish. -/
theorem Progressed.loop {turns : Nat}
    (enough : count - (finished count detection.finish).card < turns)
    (returned : semaphoreLoop count turns detection = .ok after) :
    Progressed need allocation available count after ∧
      after.isFound = false ∧
      ∀ tid ∈ Finset.range count \ finished count after.finish,
        ¬ (resources need allocation available count).Fits
          (finished count after.finish) tid := by
  induction turns generalizing detection with
  | zero => exact absurd enough (Nat.not_lt_zero _)
  | succ turns induction =>
    obtain ⟨between, passed, rest⟩ := bind_eq_ok.mp returned
    have started :
        Progressed need allocation available count
          { detection with isFound := false } :=
      progressed.congr ⟨rfl, rfl, rfl, rfl⟩ rfl rfl
    obtain ⟨later, result⟩ :=
      started.pass bounded (fun _ => mem_range.mp) passed
    split at rest
    · next found =>
        have grows := Finset.card_lt_card (result.somebody rfl found)
        have small :
            (finished count between.finish).card ≤ count := by
          have subset := Finset.card_le_card later.finishes.subset
          rwa [resources, Finset.card_range] at subset
        exact induction later (by simp only at grows; omega) rest
    · next notFound =>
        cases rest
        have notFound : after.isFound = false := Bool.not_eq_true _ ▸ notFound
        obtain ⟨workEq, finishEq, nobody⟩ := result.nobody notFound
        refine ⟨later, notFound, fun tid member fits => ?_⟩
        rw [Finset.mem_sdiff, Finset.mem_range, finishEq] at member
        rcases nobody tid (mem_range.mpr member.1) with
          already | exceeds
        · exact member.2 already
        · refine exceeds (started.satisfiable_iff.mpr ?_)
          rw [finishEq] at fits
          exact fits

end

omit bounded in
/-- The variables of the detector before its first pass. -/
theorem Progressed.start :
    Progressed need allocation available count
      ⟨⟨available, List.replicate count false, false⟩, need, allocation⟩ := by
  have nobody : finished count (List.replicate count false) = ∅ := by
    rw [finished, Finset.filter_eq_empty_iff]
    intro tid member
    rw [getElem?_replicate]
    split <;> simp
  refine ⟨rfl, rfl, rfl, length_replicate, ?_, fun id => ?_⟩
  · rw [nobody]
    exact .none
  · rw [nobody, Resources.work, Finset.sum_empty]
    rfl

/-- The detector refuses exactly the requests that leave threads stuck. -/
theorem semaphoreDetect_eq_true_iff {result : Bool × Table × Table}
    (returned :
      semaphoreDetect need allocation available count = .ok result) :
    result.1 = true ↔
      ∃ waiting,
        (resources need allocation available count).Stuck waiting := by
  obtain ⟨detection, looped, rest⟩ := bind_eq_ok.mp returned
  cases rest
  obtain ⟨progressed, _, maximal⟩ :=
    Progressed.start.loop bounded (by omega) looped
  rw [Resources.exists_stuck_iff progressed.finishes maximal,
    Bool.not_eq_true', ← Bool.not_eq_true, not_iff_not]
  exact (finished_eq_iff progressed.finish_length).symm

end Verdict

/-! ## The search ends -/

section Ends

variable {count : Nat} {detection after : SemaphoreDetection} {tid : Nat}

/-- There is a row and a mark for each thread. -/
structure Sized (count : Nat) (detection : SemaphoreDetection) : Prop where
  need_le : count ≤ detection.need.length
  allocation_le : count ≤ detection.allocation.length
  finish_length : detection.finish.length = count

section

variable (sized : Sized count detection)

include sized

theorem Sized.visit (returned : semaphoreVisit detection tid = .ok after) :
    Sized count after := by
  obtain ⟨⟨_, _, needLength, allocationLength⟩, cases⟩ :=
    semaphoreVisit_spec returned
  refine ⟨needLength ▸ sized.need_le, allocationLength ▸ sized.allocation_le,
    ?_⟩
  rcases cases with ⟨same, _⟩ | turn
  · rw [show after.finish = detection.finish from congrArg Detection.finish same]
    exact sized.finish_length
  · rw [turn.finish_eq, length_set]
    exact sized.finish_length

theorem Sized.visit_returns
    (inside : tid < count) : ∃ after, semaphoreVisit detection tid = .ok after := by
  have needInside : tid < detection.need.length :=
    Nat.lt_of_lt_of_le inside sized.need_le
  have allocationInside : tid < detection.allocation.length :=
    Nat.lt_of_lt_of_le inside sized.allocation_le
  have finishInside : tid < detection.finish.length := by
    rw [sized.finish_length]
    exact inside
  have needRow := index_eq_ok.mpr (getElem?_eq_getElem needInside)
  have heldRow := index_eq_ok.mpr (getElem?_eq_getElem allocationInside)
  have mark := index_eq_ok.mpr (getElem?_eq_getElem finishInside)
  simp only [semaphoreVisit, needRow, mark, heldRow, bind, Except.bind]
  split
  · exact ⟨_, rfl⟩
  · exact ⟨_, rfl⟩

theorem Sized.pass {tids : List Nat}
    (inside : ∀ tid ∈ tids, tid < count) :
    ∃ after, tids.foldlM semaphoreVisit detection = .ok after ∧
      Sized count after := by
  induction tids generalizing detection with
  | nil => exact ⟨detection, rfl, sized⟩
  | cons tid rest induction =>
    obtain ⟨between, visited⟩ := sized.visit_returns (inside tid mem_cons_self)
    obtain ⟨after, passed, later⟩ := induction (sized.visit visited)
      (fun other member => inside other (mem_cons_of_mem _ member))
    refine ⟨after, ?_, later⟩
    rw [foldlM_cons]
    exact bind_eq_ok.mpr ⟨between, visited, passed⟩

theorem Sized.loop_returns (turns : Nat) :
    ∃ after, semaphoreLoop count turns detection = .ok after := by
  induction turns generalizing detection with
  | zero => exact ⟨detection, rfl⟩
  | succ turns induction =>
    have started : Sized count { detection with isFound := false } :=
      ⟨sized.need_le, sized.allocation_le, sized.finish_length⟩
    obtain ⟨between, passed, later⟩ := started.pass fun tid => mem_range.mp
    cases found : between.isFound with
    | true =>
      obtain ⟨after, looped⟩ := induction later
      refine ⟨after, bind_eq_ok.mpr ⟨between, passed, ?_⟩⟩
      rw [if_pos found]
      exact looped
    | false =>
      refine ⟨between, bind_eq_ok.mpr ⟨between, passed, ?_⟩⟩
      rw [if_neg (by rw [found]; exact Bool.false_ne_true)]
      rfl

end

/-- A search that has ended by itself is not changed by more turns. -/
theorem semaphoreLoop_stable {turns more : Nat}
    (returned : semaphoreLoop count (turns + 1) detection = .ok after)
    (ended : after.isFound = false) (le : turns ≤ more) :
    semaphoreLoop count (more + 1) detection = .ok after := by
  induction turns generalizing detection more with
  | zero =>
    obtain ⟨between, passed, rest⟩ := bind_eq_ok.mp returned
    split at rest
    · next found =>
        cases rest
        rw [found] at ended
        cases ended
    · next notFound =>
        cases rest
        refine bind_eq_ok.mpr ⟨after, passed, ?_⟩
        rw [if_neg notFound]
        rfl
  | succ turns induction =>
    obtain ⟨more, rfl⟩ := Nat.exists_eq_add_of_lt le
    obtain ⟨between, passed, rest⟩ := bind_eq_ok.mp returned
    refine bind_eq_ok.mpr ⟨between, passed, ?_⟩
    split at rest
    · next found =>
        rw [if_pos found]
        exact induction rest (by omega)
    · next notFound =>
        rw [if_neg notFound]
        exact rest

theorem semaphoreDetect_returns {need allocation : Table}
    (available : List Usize) (needRows : count ≤ need.length)
    (allocationRows : count ≤ allocation.length) :
    ∃ result, semaphoreDetect need allocation available count = .ok result := by
  have sized :
      Sized count
        ⟨⟨available, List.replicate count false, false⟩, need, allocation⟩ :=
    ⟨needRows, allocationRows, length_replicate⟩
  obtain ⟨after, looped⟩ := sized.loop_returns (count + 1)
  exact ⟨_, bind_eq_ok.mpr ⟨after, looped, rfl⟩⟩

end Ends

end RCoreOS.Kernel
