import RCoreOS.Kernel.Primitives

/-!
# The tables of the deadlock detector

A process counts, for its mutexes and for its semaphores, what is available,
what each thread holds and what each thread asks for.  The counts are vectors
and vectors of vectors that grow when a larger index is used, so an entry that
is not there stands for zero.  `entry` reads a table in that way.

The two detectors are the loops inside `sys_mutex_lock` and
`sys_semaphore_down`.  An index outside of a vector panics.
-/

namespace RCoreOS.Kernel

open Lib.FallibleRuns List

/-- `usize`; the arithmetic of a release build wraps. -/
abbrev Usize := BitVec 64

/-- `Vec<Vec<usize>>`: a row for each tid, a column for each object. -/
abbrev Table := List (List Usize)

/-! ## Vectors -/

section Vectors

variable {α : Type}

/-- Indexing of a `Vec`. -/
def index (items : List α) (position : Nat) : Except Stop α :=
  match items[position]? with
  | some item => .ok item
  | none => .error .panicked

variable {position : Nat}

theorem index_eq_ok {items : List α} {item : α} :
    index items position = .ok item ↔ items[position]? = some item := by
  rw [index]
  split
  · next found => rw [found, Except.ok.injEq, Option.some.injEq]
  · next absent =>
      rw [absent]
      exact ⟨nofun, nofun⟩

/-- An assignment to one element of a `Vec`. -/
def modifyAt (items : List α) (position : Nat) (change : α → α) :
    Except Stop (List α) := do
  let item ← index items position
  return items.set position (change item)

theorem getD_of_getElem? {items : List α} {item : α}
    (found : items[position]? = some item) (absent : α) :
    items.getD position absent = item := by
  rw [getD_eq_getElem?_getD, found, Option.getD_some]

theorem getD_set {items : List α} (inside : position < items.length)
    (item absent : α) (other : Nat) :
    (items.set position item).getD other absent =
      if other = position then item else items.getD other absent := by
  simp only [getD_eq_getElem?_getD]
  by_cases same : other = position
  · subst same
    rw [if_pos rfl, getElem?_set_self inside, Option.getD_some]
  · rw [if_neg same, getElem?_set_ne (Ne.symm same)]

theorem modifyAt_spec {items after : List α} {change : α → α} (absent : α)
    (returned : modifyAt items position change = .ok after) :
    position < items.length ∧ after.length = items.length ∧
      ∀ other, after.getD other absent =
        if other = position then change (items.getD position absent)
        else items.getD other absent := by
  obtain ⟨item, found, rest⟩ := bind_eq_ok.mp returned
  cases rest
  have present := index_eq_ok.mp found
  obtain ⟨inside, _⟩ := List.getElem?_eq_some_iff.mp present
  refine ⟨inside, length_set, fun other => ?_⟩
  rw [getD_set inside, getD_of_getElem? present]

/-- An element that is not there reads as the default, so does a new one. -/
theorem getD_append_replicate (items : List α) (count position : Nat)
    (absent : α) :
    (items ++ List.replicate count absent).getD position absent =
      items.getD position absent := by
  by_cases inside : position < items.length
  · rw [getD_append _ _ _ _ inside]
  · have outside : items.length ≤ position := Nat.le_of_not_lt inside
    rw [getD_append_right _ _ _ _ outside, getD_eq_default _ _ outside]
    by_cases more : position - items.length < count
    · rw [getD_replicate _ more]
    · have beyond :
          (List.replicate count absent).length ≤ position - items.length := by
        rw [length_replicate]
        exact Nat.le_of_not_lt more
      rw [getD_eq_default _ _ beyond]

end Vectors

/-! ## Tables -/

/-- `while row.len() < len { row.push(0); }` -/
def padTo (len : Nat) (row : List Usize) : List Usize :=
  row ++ List.replicate (len - row.length) 0

@[simp]
theorem getD_padTo (len : Nat) (row : List Usize) (position : Nat) :
    (padTo len row).getD position 0 = row.getD position 0 :=
  getD_append_replicate row _ position 0

theorem length_padTo (len : Nat) (row : List Usize) :
    (padTo len row).length = max row.length len := by
  rw [padTo, length_append, length_replicate]
  omega

/-- What a table holds for a thread and an object. -/
def entry (table : Table) (tid id : Nat) : Usize :=
  (table.getD tid []).getD id 0

/-- One entry of a table of counts is changed. -/
def changeEntry (counts : Nat → Nat → Usize) (tid id : Nat)
    (change : Usize → Usize) (otherTid otherId : Nat) : Usize :=
  if otherTid = tid ∧ otherId = id then change (counts otherTid otherId)
  else counts otherTid otherId

variable {tid len count curTid mutexId : Nat} {change : Usize → Usize}
  {table after need allocation : Table} {tids : List Nat}
  {tables : Table × Table}

theorem changeEntry_of_ne {counts : Nat → Nat → Usize} {id : Nat}
    {other : Nat} (different : other ≠ tid) (otherId : Nat) :
    changeEntry counts tid id change other otherId = counts other otherId :=
  if_neg fun both => different both.1

/-- Rows without entries are rows of zeros. -/
theorem entry_append_empty (table : Table) (count : Nat) :
    entry (table ++ List.replicate count []) = entry table := by
  funext other id
  rw [entry, getD_append_replicate, entry]

/-- `table[tid][id] = change(table[tid][id])` -/
def modifyEntry (table : Table) (tid id : Nat) (change : Usize → Usize) :
    Except Stop Table := do
  let row ← index table tid
  let row ← modifyAt row id change
  return table.set tid row

theorem entry_set (inside : tid < table.length) (row : List Usize)
    (otherTid id : Nat) :
    entry (table.set tid row) otherTid id =
      if otherTid = tid then row.getD id 0 else entry table otherTid id := by
  rw [entry, getD_set inside]
  split
  · rfl
  · rfl

theorem modifyEntry_spec {id : Nat}
    (returned : modifyEntry table tid id change = .ok after) :
    entry after = changeEntry (entry table) tid id change ∧
      after.length = table.length := by
  obtain ⟨row, found, rest⟩ := bind_eq_ok.mp returned
  obtain ⟨changed, changedEq, rest⟩ := bind_eq_ok.mp rest
  cases rest
  have present := index_eq_ok.mp found
  obtain ⟨inside, _⟩ := List.getElem?_eq_some_iff.mp present
  obtain ⟨_, _, values⟩ := modifyAt_spec 0 changedEq
  refine ⟨?_, length_set⟩
  funext otherTid otherId
  have rowEq : table.getD tid [] = row := getD_of_getElem? present []
  rw [entry_set inside, changeEntry, values]
  by_cases sameTid : otherTid = tid
  · subst sameTid
    by_cases sameId : otherId = id
    · subst sameId
      rw [if_pos rfl, if_pos rfl, if_pos ⟨rfl, rfl⟩, entry, rowEq]
    · rw [if_pos rfl, if_neg sameId, if_neg fun both => sameId both.2, entry,
        rowEq]
  · rw [if_neg sameTid, if_neg fun both => sameTid both.1]

/-- `while table[tid].len() < len { table[tid].push(0); }` -/
def padRow (table : Table) (tid len : Nat) : Except Stop Table :=
  modifyAt table tid (padTo len)

theorem padRow_spec (returned : padRow table tid len = .ok after) :
    entry after = entry table ∧ after.length = table.length := by
  obtain ⟨_, length, rows⟩ := modifyAt_spec [] returned
  refine ⟨?_, length⟩
  funext otherTid id
  rw [entry, rows, entry]
  split
  · next same => rw [getD_padTo, same]
  · rfl

/-- The padding of the rows of all threads. -/
def padRows (table : Table) (count len : Nat) : Except Stop Table :=
  (List.range count).foldlM (fun table tid => padRow table tid len) table

theorem foldlM_padRow_spec
    (returned :
      tids.foldlM (fun table tid => padRow table tid len) table = .ok after) :
    entry after = entry table ∧ after.length = table.length := by
  induction tids generalizing table with
  | nil =>
    cases returned
    exact ⟨rfl, rfl⟩
  | cons tid rest induction =>
    rw [foldlM_cons] at returned
    obtain ⟨between, padded, restEq⟩ := bind_eq_ok.mp returned
    obtain ⟨entries, length⟩ := padRow_spec padded
    obtain ⟨laterEntries, laterLength⟩ := induction restEq
    exact ⟨laterEntries.trans entries, laterLength.trans length⟩

theorem padRows_spec (returned : padRows table count len = .ok after) :
    entry after = entry table ∧ after.length = table.length :=
  foldlM_padRow_spec returned

/-! ## The lengths of rows -/

/-- How many entries the row of a thread has. -/
def rowLength (table : Table) (tid : Nat) : Nat := (table.getD tid []).length

theorem lt_length_of_lt_rowLength {id : Nat}
    (inside : id < rowLength table tid) : tid < table.length := by
  by_contra outside
  rw [rowLength, getD_eq_default _ _ (Nat.le_of_not_lt outside)] at inside
  exact Nat.not_lt_zero _ inside

theorem rowLength_append_empty (table : Table) (count : Nat) :
    rowLength (table ++ List.replicate count []) = rowLength table := by
  funext other
  rw [rowLength, getD_append_replicate, rowLength]

theorem rowLength_set (inside : tid < table.length) (row : List Usize)
    (otherTid : Nat) :
    rowLength (table.set tid row) otherTid =
      if otherTid = tid then row.length else rowLength table otherTid := by
  rw [rowLength, getD_set inside]
  split
  · rfl
  · rfl

/-- An assignment to an entry does not panic exactly when the row has it. -/
theorem modifyEntry_returns_iff {id : Nat} :
    (∃ after, modifyEntry table tid id change = .ok after) ↔
      id < rowLength table tid := by
  constructor
  · rintro ⟨after, returned⟩
    obtain ⟨row, found, rest⟩ := bind_eq_ok.mp returned
    obtain ⟨changed, changedEq, _⟩ := bind_eq_ok.mp rest
    rw [rowLength, getD_of_getElem? (index_eq_ok.mp found)]
    exact (modifyAt_spec 0 changedEq).1
  · intro inside
    have row := getElem?_eq_getElem (lt_length_of_lt_rowLength inside)
    rw [rowLength, getD_of_getElem? row] at inside
    have item := getElem?_eq_getElem inside
    exact ⟨_, bind_eq_ok.mpr ⟨_, index_eq_ok.mpr row, bind_eq_ok.mpr
      ⟨_, bind_eq_ok.mpr ⟨_, index_eq_ok.mpr item, rfl⟩, rfl⟩⟩⟩

theorem rowLength_modifyEntry {id : Nat}
    (returned : modifyEntry table tid id change = .ok after) :
    rowLength after = rowLength table := by
  obtain ⟨row, found, rest⟩ := bind_eq_ok.mp returned
  obtain ⟨changed, changedEq, rest⟩ := bind_eq_ok.mp rest
  cases rest
  have present := index_eq_ok.mp found
  obtain ⟨inside, _⟩ := List.getElem?_eq_some_iff.mp present
  funext otherTid
  rw [rowLength_set inside, (modifyAt_spec 0 changedEq).2.1]
  split
  · next same => rw [same, rowLength, getD_of_getElem? present]
  · rfl

/-- A change of one row, when the table has it. -/
theorem modifyAt_returns {α : Type} {items : List α} {position : Nat}
    (inside : position < items.length) (change : α → α) :
    ∃ after, modifyAt items position change = .ok after :=
  ⟨_, bind_eq_ok.mpr
    ⟨_, index_eq_ok.mpr (getElem?_eq_getElem inside), rfl⟩⟩

theorem rowLength_modifyAt {change : List Usize → List Usize}
    (returned : modifyAt table tid change = .ok after) (otherTid : Nat) :
    rowLength after otherTid =
      if otherTid = tid then (change (table.getD tid [])).length
      else rowLength table otherTid := by
  rw [rowLength, (modifyAt_spec [] returned).2.2 otherTid]
  split
  · rfl
  · rfl

theorem rowLength_padRow (returned : padRow table tid len = .ok after)
    (otherTid : Nat) :
    rowLength after otherTid =
      if otherTid = tid then max (rowLength table tid) len
      else rowLength table otherTid := by
  rw [rowLength_modifyAt returned, length_padTo]
  rfl

/-! ## The mutex detector -/

/-- `table[tid].push(0)`, `count` times. -/
def pushZeros (table : Table) (tid count : Nat) : Except Stop Table :=
  if count = 0 then .ok table
  else modifyAt table tid (· ++ List.replicate count 0)

/--
One turn of the first loop of `sys_mutex_lock`.  The row of the allocation
table grows by as many zeros as the row of the need table.
-/
def requestVisit (curTid mutexId : Nat) (tables : Table × Table) (tid : Nat) :
    Except Stop (Table × Table) := do
  let row ← index tables.1 tid
  let missing := mutexId + 1 - row.length
  let need ← pushZeros tables.1 tid missing
  let allocation ← pushZeros tables.2 tid missing
  if curTid = tid then
    let need ← modifyEntry need tid mutexId (· + 1)
    return (need, allocation)
  else
    return (need, allocation)

/-- The need and the allocation table once the request is entered. -/
def requestMutex (need allocation : Table) (count curTid mutexId : Nat) :
    Except Stop (Table × Table) :=
  (List.range count).foldlM (requestVisit curTid mutexId) (need, allocation)

/-- The local variables of the detector. -/
structure Detection where
  work : List Usize
  finish : List Bool
  isFound : Bool
deriving DecidableEq, Repr

/-- One turn of the detection loop of `sys_mutex_lock`. -/
def mutexVisit (need allocation : Table) (mutexId : Nat)
    (detection : Detection) (tid : Nat) : Except Stop Detection := do
  let finished ← index detection.finish tid
  if finished then
    return detection
  else
    let needRow ← index need tid
    let needed ← index needRow mutexId
    let free ← index detection.work mutexId
    if needed ≤ free then
      let allocationRow ← index allocation tid
      let held ← index allocationRow mutexId
      return {
        work := detection.work.set mutexId (free + held)
        finish := detection.finish.set tid true
        isFound := true }
    else
      return detection

variable {detection : Detection}

/-- The detection in `sys_mutex_lock`; `true` means that it finds a deadlock. -/
def mutexDetect (need allocation : Table) (available : List Usize)
    (count mutexId : Nat) : Except Stop Bool := do
  let detection ← (List.range count).foldlM
    (mutexVisit need allocation mutexId)
    ⟨available, List.replicate count false, false⟩
  return !detection.isFound && !detection.finish.all id

theorem pushZeros_spec (returned : pushZeros table tid count = .ok after) :
    entry after = entry table ∧ after.length = table.length := by
  rw [pushZeros] at returned
  split at returned
  · cases returned
    exact ⟨rfl, rfl⟩
  · obtain ⟨_, length, rows⟩ := modifyAt_spec [] returned
    refine ⟨?_, length⟩
    funext otherTid id
    rw [entry, rows, entry]
    split
    · next same => rw [getD_append_replicate, same]
    · rfl

/-- The request of the current thread, seen by the turn for one thread. -/
theorem requestVisit_spec {after : Table × Table}
    (returned : requestVisit curTid mutexId tables tid = .ok after) :
    (entry after.1 =
        if curTid = tid then changeEntry (entry tables.1) tid mutexId (· + 1)
        else entry tables.1) ∧
      entry after.2 = entry tables.2 ∧
      after.1.length = tables.1.length ∧ after.2.length = tables.2.length := by
  obtain ⟨row, _, rest⟩ := bind_eq_ok.mp returned
  obtain ⟨need, paddedNeed, rest⟩ := bind_eq_ok.mp rest
  obtain ⟨allocation, paddedAllocation, rest⟩ := bind_eq_ok.mp rest
  obtain ⟨needEntries, needLength⟩ := pushZeros_spec paddedNeed
  obtain ⟨allocationEntries, allocationLength⟩ :=
    pushZeros_spec paddedAllocation
  split at rest
  · next same =>
      obtain ⟨requested, requestedEq, rest⟩ := bind_eq_ok.mp rest
      cases rest
      obtain ⟨entries, length⟩ := modifyEntry_spec requestedEq
      refine ⟨?_, allocationEntries, length.trans needLength, allocationLength⟩
      rw [if_pos same, ← needEntries]
      exact entries
  · next different =>
      cases rest
      refine ⟨?_, allocationEntries, needLength, allocationLength⟩
      rw [if_neg different]
      exact needEntries

theorem foldlM_requestVisit_spec {after : Table × Table} (nodup : tids.Nodup)
    (returned :
      tids.foldlM (requestVisit curTid mutexId) tables = .ok after) :
    (entry after.1 =
        if curTid ∈ tids then
          changeEntry (entry tables.1) curTid mutexId (· + 1)
        else entry tables.1) ∧
      entry after.2 = entry tables.2 ∧
      after.1.length = tables.1.length ∧ after.2.length = tables.2.length := by
  induction tids generalizing tables with
  | nil =>
    cases returned
    exact ⟨rfl, rfl, rfl, rfl⟩
  | cons tid rest induction =>
    rw [foldlM_cons] at returned
    obtain ⟨between, visited, restEq⟩ := bind_eq_ok.mp returned
    rw [nodup_cons] at nodup
    obtain ⟨need, allocation, needLength, allocationLength⟩ :=
      requestVisit_spec visited
    obtain ⟨laterNeed, laterAllocation, laterNeedLength,
      laterAllocationLength⟩ := induction nodup.2 restEq
    refine ⟨?_, laterAllocation.trans allocation,
      laterNeedLength.trans needLength,
      laterAllocationLength.trans allocationLength⟩
    rw [laterNeed, need]
    by_cases same : curTid = tid
    · subst same
      rw [if_neg nodup.1, if_pos rfl, if_pos mem_cons_self]
    · rw [if_neg same]
      simp only [mem_cons, same, false_or]

/-- The request adds one to the need of the current thread. -/
theorem requestMutex_spec {after : Table × Table} (inside : curTid < count)
    (returned :
      requestMutex need allocation count curTid mutexId = .ok after) :
    entry after.1 = changeEntry (entry need) curTid mutexId (· + 1) ∧
      entry after.2 = entry allocation ∧
      after.1.length = need.length ∧ after.2.length = allocation.length := by
  have spec := foldlM_requestVisit_spec nodup_range returned
  rw [if_pos (mem_range.mpr inside)] at spec
  exact spec

theorem pushZeros_returns (inside : tid < table.length) (count : Nat) :
    ∃ after, pushZeros table tid count = .ok after := by
  rw [pushZeros]
  split
  · exact ⟨table, rfl⟩
  · exact modifyAt_returns inside _

theorem rowLength_pushZeros (returned : pushZeros table tid count = .ok after)
    (otherTid : Nat) :
    rowLength after otherTid =
      if otherTid = tid then rowLength table tid + count
      else rowLength table otherTid := by
  rw [pushZeros] at returned
  split at returned
  · next zero =>
      cases returned
      split
      · next same => rw [same, zero, Nat.add_zero]
      · rfl
  · rw [rowLength_modifyAt returned, length_append, length_replicate]
    rfl

/-- A turn of the first loop pads both rows by the same number of zeros. -/
theorem rowLength_requestVisit {after : Table × Table}
    (returned : requestVisit curTid mutexId tables tid = .ok after)
    (otherTid : Nat) :
    rowLength after.1 otherTid =
        (if otherTid = tid then max (rowLength tables.1 tid) (mutexId + 1)
        else rowLength tables.1 otherTid) ∧
      rowLength after.2 otherTid =
        (if otherTid = tid then
          rowLength tables.2 tid + (mutexId + 1 - rowLength tables.1 tid)
        else rowLength tables.2 otherTid) := by
  obtain ⟨row, rowEq, rest⟩ := bind_eq_ok.mp returned
  obtain ⟨need, paddedNeed, rest⟩ := bind_eq_ok.mp rest
  obtain ⟨allocation, paddedAllocation, rest⟩ := bind_eq_ok.mp rest
  have rowIs : rowLength tables.1 tid = row.length := by
    rw [rowLength, getD_of_getElem? (index_eq_ok.mp rowEq)]
  have needRows := rowLength_pushZeros paddedNeed otherTid
  have allocationRows := rowLength_pushZeros paddedAllocation otherTid
  rw [← rowIs] at needRows allocationRows
  have sum :
      rowLength tables.1 tid + (mutexId + 1 - rowLength tables.1 tid) =
        max (rowLength tables.1 tid) (mutexId + 1) := by omega
  rw [sum] at needRows
  split at rest
  · obtain ⟨requested, requestedEq, rest⟩ := bind_eq_ok.mp rest
    cases rest
    refine ⟨?_, allocationRows⟩
    change rowLength requested otherTid = _
    rw [rowLength_modifyEntry requestedEq]
    exact needRows
  · cases rest
    exact ⟨needRows, allocationRows⟩

theorem requestVisit_returns (needRow : tid < tables.1.length)
    (allocationRow : tid < tables.2.length) :
    ∃ after, requestVisit curTid mutexId tables tid = .ok after := by
  have row := index_eq_ok.mpr (getElem?_eq_getElem needRow)
  obtain ⟨need, paddedNeed⟩ :=
    pushZeros_returns needRow (mutexId + 1 - tables.1[tid].length)
  obtain ⟨allocation, paddedAllocation⟩ :=
    pushZeros_returns allocationRow (mutexId + 1 - tables.1[tid].length)
  by_cases same : curTid = tid
  · have inside : mutexId < rowLength need tid := by
      rw [rowLength_pushZeros paddedNeed, if_pos rfl, rowLength,
        getD_eq_getElem _ _ needRow]
      omega
    obtain ⟨requested, requestedEq⟩ :=
      (modifyEntry_returns_iff.mpr inside :
        ∃ after, modifyEntry need tid mutexId (· + 1) = .ok after)
    refine ⟨(requested, allocation), bind_eq_ok.mpr ⟨_, row, bind_eq_ok.mpr
      ⟨need, paddedNeed, bind_eq_ok.mpr ⟨allocation, paddedAllocation, ?_⟩⟩⟩⟩
    rw [if_pos same]
    exact bind_eq_ok.mpr ⟨requested, requestedEq, rfl⟩
  · refine ⟨(need, allocation), bind_eq_ok.mpr ⟨_, row, bind_eq_ok.mpr
      ⟨need, paddedNeed, bind_eq_ok.mpr ⟨allocation, paddedAllocation, ?_⟩⟩⟩⟩
    rw [if_neg same]
    rfl

theorem foldlM_requestVisit_returns
    (needRows : ∀ tid ∈ tids, tid < tables.1.length)
    (allocationRows : ∀ tid ∈ tids, tid < tables.2.length) :
    ∃ after, tids.foldlM (requestVisit curTid mutexId) tables = .ok after := by
  induction tids generalizing tables with
  | nil => exact ⟨tables, rfl⟩
  | cons tid rest induction =>
    obtain ⟨between, visited⟩ :=
      requestVisit_returns (needRows tid mem_cons_self)
        (allocationRows tid mem_cons_self)
    obtain ⟨_, _, needLength, allocationLength⟩ := requestVisit_spec visited
    obtain ⟨after, later⟩ := induction
      (fun other member => needLength ▸
        needRows other (mem_cons_of_mem _ member))
      (fun other member => allocationLength ▸
        allocationRows other (mem_cons_of_mem _ member))
    refine ⟨after, ?_⟩
    rw [foldlM_cons]
    exact bind_eq_ok.mpr ⟨between, visited, later⟩

theorem rowLength_foldlM_requestVisit {after : Table × Table}
    (nodup : tids.Nodup)
    (returned :
      tids.foldlM (requestVisit curTid mutexId) tables = .ok after)
    (otherTid : Nat) :
    rowLength after.1 otherTid =
        (if otherTid ∈ tids then max (rowLength tables.1 otherTid) (mutexId + 1)
        else rowLength tables.1 otherTid) ∧
      rowLength after.2 otherTid =
        (if otherTid ∈ tids then
          rowLength tables.2 otherTid +
            (mutexId + 1 - rowLength tables.1 otherTid)
        else rowLength tables.2 otherTid) := by
  induction tids generalizing tables with
  | nil =>
    cases returned
    exact ⟨rfl, rfl⟩
  | cons tid rest induction =>
    rw [foldlM_cons] at returned
    obtain ⟨between, visited, restEq⟩ := bind_eq_ok.mp returned
    rw [nodup_cons] at nodup
    have here := rowLength_requestVisit visited otherTid
    obtain ⟨need, allocation⟩ := induction nodup.2 restEq
    rw [need, allocation]
    by_cases same : otherTid = tid
    · subst same
      rw [if_neg nodup.1, if_neg nodup.1, if_pos mem_cons_self,
        if_pos mem_cons_self, here.1, here.2, if_pos rfl, if_pos rfl]
      exact ⟨rfl, rfl⟩
    · rw [here.1, here.2, if_neg same, if_neg same]
      simp only [mem_cons, same, false_or, and_self]

/-- The request does not panic when each thread has its rows. -/
theorem requestMutex_returns (needRows : count ≤ need.length)
    (allocationRows : count ≤ allocation.length) :
    ∃ after, requestMutex need allocation count curTid mutexId = .ok after :=
  foldlM_requestVisit_returns
    (fun _ member => (mem_range.mp member).trans_le needRows)
    (fun _ member => (mem_range.mp member).trans_le allocationRows)

theorem rowLength_requestMutex {after : Table × Table} (inside : tid < count)
    (returned :
      requestMutex need allocation count curTid mutexId = .ok after) :
    rowLength after.1 tid = max (rowLength need tid) (mutexId + 1) ∧
      rowLength after.2 tid =
        rowLength allocation tid + (mutexId + 1 - rowLength need tid) := by
  have rows := rowLength_foldlM_requestVisit nodup_range returned tid
  rw [if_pos (mem_range.mpr inside), if_pos (mem_range.mpr inside)] at rows
  exact rows

theorem mutexVisit_spec {after : Detection}
    (fresh : detection.finish[tid]? = some false)
    (returned :
      mutexVisit need allocation mutexId detection tid = .ok after) :
    (after = detection ∧
        ¬ entry need tid mutexId ≤ detection.work.getD mutexId 0) ∨
      (after.isFound = true ∧
        entry need tid mutexId ≤ detection.work.getD mutexId 0) := by
  obtain ⟨finished, finishedEq, rest⟩ := bind_eq_ok.mp returned
  rw [index_eq_ok, fresh] at finishedEq
  cases finishedEq
  obtain ⟨needRow, needRowEq, rest⟩ := bind_eq_ok.mp rest
  obtain ⟨needed, neededEq, rest⟩ := bind_eq_ok.mp rest
  obtain ⟨free, freeEq, rest⟩ := bind_eq_ok.mp rest
  have neededIs : entry need tid mutexId = needed := by
    rw [entry, getD_of_getElem? (index_eq_ok.mp needRowEq),
      getD_of_getElem? (index_eq_ok.mp neededEq)]
  have freeIs : detection.work.getD mutexId 0 = free :=
    getD_of_getElem? (index_eq_ok.mp freeEq) 0
  rw [neededIs, freeIs]
  split at rest
  · next fits =>
      obtain ⟨allocationRow, _, rest⟩ := bind_eq_ok.mp rest
      obtain ⟨held, _, rest⟩ := bind_eq_ok.mp rest
      cases rest
      exact .inr ⟨rfl, fits⟩
  · next exceeds =>
      cases rest
      exact .inl ⟨rfl, exceeds⟩

theorem mutexVisit_found {after : Detection}
    (found : detection.isFound = true)
    (returned :
      mutexVisit need allocation mutexId detection tid = .ok after) :
    after.isFound = true := by
  obtain ⟨finished, _, rest⟩ := bind_eq_ok.mp returned
  split at rest
  · cases rest
    exact found
  · obtain ⟨needRow, _, rest⟩ := bind_eq_ok.mp rest
    obtain ⟨needed, _, rest⟩ := bind_eq_ok.mp rest
    obtain ⟨free, _, rest⟩ := bind_eq_ok.mp rest
    split at rest
    · obtain ⟨allocationRow, _, rest⟩ := bind_eq_ok.mp rest
      obtain ⟨held, _, rest⟩ := bind_eq_ok.mp rest
      cases rest
      rfl
    · cases rest
      exact found

theorem foldlM_mutexVisit_found {after : Detection}
    (found : detection.isFound = true)
    (returned :
      tids.foldlM (mutexVisit need allocation mutexId) detection = .ok after) :
    after.isFound = true := by
  induction tids generalizing detection with
  | nil =>
    cases returned
    exact found
  | cons tid rest induction =>
    rw [foldlM_cons] at returned
    obtain ⟨between, visited, restEq⟩ := bind_eq_ok.mp returned
    exact induction (mutexVisit_found found visited) restEq

/-- The loop finds a thread, or has left its variables as they were. -/
theorem foldlM_mutexVisit_spec {after : Detection}
    (fresh : ∀ tid ∈ tids, detection.finish[tid]? = some false)
    (notFound : detection.isFound = false)
    (returned :
      tids.foldlM (mutexVisit need allocation mutexId) detection = .ok after) :
    (after = detection ∧
        ∀ tid ∈ tids, ¬ entry need tid mutexId ≤
          detection.work.getD mutexId 0) ∨
      (after.isFound = true ∧
        ∃ tid ∈ tids, entry need tid mutexId ≤
          detection.work.getD mutexId 0) := by
  induction tids generalizing detection with
  | nil =>
    cases returned
    exact .inl ⟨rfl, nofun⟩
  | cons tid rest induction =>
    rw [foldlM_cons] at returned
    obtain ⟨between, visited, restEq⟩ := bind_eq_ok.mp returned
    rcases mutexVisit_spec (fresh tid mem_cons_self) visited with
      ⟨rfl, exceeds⟩ | ⟨found, fits⟩
    · rcases induction (fun other member =>
          fresh other (mem_cons_of_mem _ member)) notFound restEq with
        ⟨same, exceedsRest⟩ | ⟨found, other, member, fits⟩
      · refine .inl ⟨same, fun other member => ?_⟩
        rcases mem_cons.mp member with rfl | member
        · exact exceeds
        · exact exceedsRest other member
      · exact .inr ⟨found, other, mem_cons_of_mem _ member, fits⟩
    · exact .inr ⟨foldlM_mutexVisit_found found restEq, tid,
        mem_cons_self, fits⟩

variable {available : List Usize}

/-- The detector refuses when every thread asks for more than is available. -/
theorem mutexDetect_eq_true_iff {refuses : Bool}
    (returned :
      mutexDetect need allocation available count mutexId = .ok refuses) :
    refuses = true ↔
      0 < count ∧
        ∀ tid < count, ¬ entry need tid mutexId ≤
          available.getD mutexId 0 := by
  obtain ⟨detection, looped, rest⟩ := bind_eq_ok.mp returned
  cases rest
  have fresh :
      ∀ tid ∈ List.range count,
        (List.replicate count false)[tid]? = some false := by
    intro tid member
    rw [getElem?_replicate, if_pos (mem_range.mp member)]
  rcases foldlM_mutexVisit_spec fresh rfl looped with
    ⟨rfl, exceeds⟩ | ⟨found, tid, member, fits⟩
  · have all :
        (List.replicate count false).all id = true ↔ count = 0 := by
      cases count <;> simp
    have exceedsAll :
        ∀ tid < count, ¬ entry need tid mutexId ≤ available.getD mutexId 0 :=
      fun tid inside => exceeds tid (mem_range.mpr inside)
    change (!false && !(List.replicate count false).all id) = true ↔ _
    rw [Bool.not_false, Bool.true_and, Bool.not_eq_true',
      ← Bool.not_eq_true, all]
    constructor
    · intro positive
      exact ⟨Nat.pos_of_ne_zero positive, exceedsAll⟩
    · rintro ⟨positive, _⟩
      exact Nat.pos_iff_ne_zero.mp positive
  · rw [found]
    constructor
    · intro impossible
      cases impossible
    · rintro ⟨_, exceeds⟩
      exact absurd fits (exceeds tid (mem_range.mp member))

/-- A detector that finds nobody looks at no row of the allocation table. -/
theorem foldlM_mutexVisit_exceeds
    (fresh : ∀ tid ∈ tids, detection.finish[tid]? = some false)
    (column : mutexId < detection.work.length)
    (rows : ∀ tid ∈ tids, mutexId < rowLength need tid)
    (exceeds :
      ∀ tid ∈ tids, ¬ entry need tid mutexId ≤
        detection.work.getD mutexId 0) :
    tids.foldlM (mutexVisit need allocation mutexId) detection =
      .ok detection := by
  induction tids with
  | nil => rfl
  | cons tid rest induction =>
    have row := rows tid mem_cons_self
    have rowFound := getElem?_eq_getElem (lt_length_of_lt_rowLength row)
    rw [rowLength, getD_of_getElem? rowFound] at row
    have here := exceeds tid mem_cons_self
    rw [entry, getD_of_getElem? rowFound, getD_eq_getElem _ _ row,
      getD_eq_getElem _ _ column] at here
    have visited :
        mutexVisit need allocation mutexId detection tid =
          .ok detection := by
      refine bind_eq_ok.mpr ⟨false,
        index_eq_ok.mpr (fresh tid mem_cons_self), ?_⟩
      refine bind_eq_ok.mpr ⟨_, index_eq_ok.mpr rowFound, ?_⟩
      refine bind_eq_ok.mpr
        ⟨_, index_eq_ok.mpr (getElem?_eq_getElem row), ?_⟩
      refine bind_eq_ok.mpr
        ⟨_, index_eq_ok.mpr (getElem?_eq_getElem column), ?_⟩
      rw [if_neg here]
      rfl
    rw [foldlM_cons]
    exact bind_eq_ok.mpr ⟨detection, visited, induction
      (fun other member => fresh other (mem_cons_of_mem _ member))
      (fun other member => rows other (mem_cons_of_mem _ member))
      (fun other member => exceeds other (mem_cons_of_mem _ member))⟩

theorem mutexDetect_returns_of_exceeds (column : mutexId < available.length)
    (rows : ∀ tid < count, mutexId < rowLength need tid)
    (exceeds :
      ∀ tid < count, ¬ entry need tid mutexId ≤ available.getD mutexId 0) :
    ∃ refuses,
      mutexDetect need allocation available count mutexId = .ok refuses := by
  have fresh :
      ∀ tid ∈ List.range count,
        (List.replicate count false)[tid]? = some false := by
    intro tid member
    rw [getElem?_replicate, if_pos (mem_range.mp member)]
  have looped :
      (List.range count).foldlM (mutexVisit need allocation mutexId)
          ⟨available, List.replicate count false, false⟩ = .ok _ :=
    foldlM_mutexVisit_exceeds fresh column
      (fun tid member => rows tid (mem_range.mp member))
      (fun tid member => exceeds tid (mem_range.mp member))
  exact ⟨_, bind_eq_ok.mpr ⟨_, looped, rfl⟩⟩

end RCoreOS.Kernel
