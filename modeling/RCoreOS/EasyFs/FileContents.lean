import RCoreOS.EasyFs.Refinement

/-!
# Files are independent byte lists

The refinement of the file table, lifted from single calls to whole sessions
with a new file system on the block cache.  The main theorem says that every
session of allowed calls gives the responses of the file table: a file is a
list of bytes that only its own calls change.

Writes, reads and clears are shown to return.  A `create` panics when the root
directory has reached the size of the largest file, so that creates return is
a hypothesis here; the next module says when they do.
-/

namespace RCoreOS.EasyFs

open Lib.FallibleRuns List FileTable

/-- Is the call a `create`? -/
def Call.isCreate : Call → Bool
  | .create _ => true
  | _ => false

namespace FileTable

variable {g : Geometry} {table : FileTable} {op : Op} {id : Nat}

/-! ## Steps of the table -/

theorem step_some (present : table.handles[op.handle]? = some id) :
    table.step g op =
      ((table.call g id op.call).1,
        some ⟨g.efs.inode id, op.call, (table.call g id op.call).2⟩) := by
  rw [step, present]

/-- What a call adds to the inodes of the client, and to the files. -/
theorem call_obtains (g : Geometry) (table : FileTable) (id : Nat)
    (call : Call) :
    table.files.length ≤ (table.call g id call).1.files.length ∧
      ∃ ids,
        (table.call g id call).1.handles = table.handles ++ ids ∧
          (table.call g id call).2.inodes = ids.map g.efs.inode ∧
          ∀ new ∈ ids, new ≤ (table.call g id call).1.files.length := by
  cases call with
  | create name =>
    rw [FileTable.call]
    split
    · exact ⟨Nat.le_refl _, [], (append_nil _).symm, rfl, by simp⟩
    · refine ⟨?_, [table.files.length + 1], rfl, rfl, ?_⟩
      · show table.files.length ≤ (table.add name).files.length
        rw [files_length_add]
        omega
      · intro new member
        rw [mem_singleton.mp member]
        show table.files.length + 1 ≤ (table.add name).files.length
        rw [files_length_add]
  | find name =>
    rw [FileTable.call]
    cases found : table.idOf name with
    | none => exact ⟨Nat.le_refl _, [], (append_nil _).symm, rfl, by simp⟩
    | some id =>
      refine ⟨Nat.le_refl _, [id], rfl, rfl, ?_⟩
      intro new member
      rw [mem_singleton.mp member]
      exact (idOf_le found).2
  | ls => exact ⟨Nat.le_refl _, [], (append_nil _).symm, rfl, by simp⟩
  | readAt offset buf =>
    exact ⟨Nat.le_refl _, [], (append_nil _).symm, rfl, by simp⟩
  | writeAt offset buf
  | clear =>
    refine ⟨?_, [], (append_nil _).symm, rfl, by simp⟩
    exact Nat.le_of_eq (files_length_setContent _ _ _).symm

/-- Only a `create` adds a file. -/
theorem files_length_step (notCreate : op.call.isCreate = false) :
    (table.step g op).1.files.length = table.files.length := by
  cases present : table.handles[op.handle]? with
  | none => rw [step, present]
  | some id =>
    rw [step_some present]
    cases calls : op.call with
    | create name =>
      rw [calls] at notCreate
      cases notCreate
    | find name =>
      rw [FileTable.call]
      cases table.idOf name <;> rfl
    | ls => rfl
    | readAt offset buf => rfl
    | writeAt offset buf => exact files_length_setContent _ _ _
    | clear => exact files_length_setContent _ _ _

end FileTable

namespace Geometry

variable {g : Geometry} {state after : List Inode × Disk}
  {table : FileTable} {op : Op}

/-! ## Steps of the file system -/

/-- The file system and the inodes of the client are those of the table. -/
structure Matches
    (g : Geometry) (state : List Inode × Disk) (table : FileTable) :
    Prop where
  shown : ∃ nodes, g.Shows state.2 nodes table
  handles : state.1 = table.handles.map g.efs.inode
  obtained : ∀ id ∈ table.handles, id ≤ table.files.length

/-- A new file system has no files. -/
theorem Fresh.matches {disk : Disk} (fresh : g.Fresh disk) :
    g.Matches ([g.efs.rootInode], disk) FileTable.initial := by
  refine ⟨⟨_, fresh.consistent, rfl, ?_⟩, rfl, ?_⟩
  · intro name member
    cases member
  · intro id member
    rw [mem_singleton.mp member]
    exact Nat.le_refl 0

section

variable (matched : g.Matches state table)

include matched

/-- The inode of an allowed call. -/
theorem Matches.handle
    {id : Nat} (present : table.handles[op.handle]? = some id) :
    state.1[op.handle]? = some (g.efs.inode id) ∧
      id ≤ table.files.length := by
  refine ⟨?_, matched.obtained id (mem_of_getElem? present)⟩
  rw [matched.handles, getElem?_map, present]
  rfl

/-- An allowed step that returned is a step of the table. -/
theorem Matches.step (allowed : table.Allowed g op)
    {event : Option Event}
    (returned : op.onDisk g.efs state = .ok (after, event)) :
    g.Matches after (table.step g op).1 ∧
      event = (table.step g op).2 := by
  obtain ⟨⟨id, present, sensible⟩, fits⟩ := allowed
  obtain ⟨handleAt, inside⟩ := matched.handle present
  rw [step_some present] at fits ⊢
  obtain ⟨nodes, shows_⟩ := matched.shown
  rcases Op.onDisk_eq_ok.mp returned with
    ⟨absent, _⟩ | ⟨inode, response, inodeAt, performed, rfl, handlesEq⟩
  · rw [handleAt] at absent
    cases absent
  · rw [handleAt] at inodeAt
    cases inodeAt
    obtain ⟨rfl, shown⟩ := shows_.call inside sensible fits performed
    obtain ⟨more, ids, handles, inodes, obtained⟩ :=
      call_obtains g table id op.call
    refine ⟨⟨shown, ?_, ?_⟩, rfl⟩
    · rw [handlesEq, matched.handles, inodes, handles, map_append]
    · intro other member
      rw [handles, mem_append] at member
      rcases member with old | new
      · exact Nat.le_trans (matched.obtained other old) more
      · exact obtained other new

/-- An allowed step returns, if the root directory can hold its entries. -/
theorem Matches.returns (allowed : table.Allowed g op)
    (capacity : (table.step g op).1.files.length ≤ 264640) :
    ∃ result, op.onDisk g.efs state = .ok result := by
  obtain ⟨⟨id, present, sensible⟩, fits⟩ := allowed
  obtain ⟨handleAt, inside⟩ := matched.handle present
  rw [step_some present] at fits capacity
  obtain ⟨nodes, shows_⟩ := matched.shown
  obtain ⟨response, disk, performed⟩ :=
    shows_.call_returns inside sensible fits capacity
  exact ⟨_, Op.onDisk_eq_ok.mpr
    (.inr ⟨_, response, handleAt, performed, rfl, rfl⟩)⟩

/-- A step other than a `create` always has the room in the directory. -/
theorem Matches.capacity (notCreate : op.call.isCreate = false) :
    (table.step g op).1.files.length ≤ 264640 := by
  obtain ⟨nodes, shows_⟩ := matched.shown
  rw [files_length_step notCreate]
  exact shows_.files_le

end

/-! ## Sessions -/

/-- The calls of a session are allowed in the tables that they reach. -/
def AllowedSession (g : Geometry) (ops : List Op) : Prop :=
  AllowedRun (FileTable.step g) (FileTable.Allowed g) FileTable.initial ops

instance (g : Geometry) (ops : List Op) : Decidable (g.AllowedSession ops) :=
  inferInstanceAs (Decidable (AllowedRun _ _ _ _))

/-- The file table after a session, and the events of the session. -/
def reference (g : Geometry) (ops : List Op) :
    FileTable × List (Option Event) :=
  totalRun (FileTable.step g) FileTable.initial ops

/-- What a session with a new file system should return. -/
def outcome (g : Geometry) (ops : List Op) :
    EasyFileSystem × List (Option Event) × List Inode :=
  (g.efs, (g.reference ops).2, (g.reference ops).1.handles.map g.efs.inode)

/-- A session of allowed calls whose creates return gives the events of the
table. -/
theorem newSession_matches
    (device : BlockDevice) {ops : List Op} (allowed : g.AllowedSession ops)
    (returns :
      ∀ first op rest, ops = first ++ op :: rest →
        op.call.isCreate = true →
          (g.reference (first ++ [op])).1.files.length ≤ 264640 ∨
            ∃ result,
              (newSession g.totalBlocks g.inodeBitmapBlocks
                  (first ++ [op])).run (CacheState.start device) =
                .ok result) :
    ∃ state,
      (newSession g.totalBlocks g.inodeBitmapBlocks ops).run
            (CacheState.start device) =
          .ok (g.outcome ops, state) ∧
        ∃ nodes, g.Shows state.view nodes (g.reference ops).1 := by
  obtain ⟨fresh, isFresh, onCache⟩ := g.run_newSession device
  have stepReturns :
      ∀ first op rest, ops = first ++ op :: rest →
        ∀ between earlier,
          run (Op.onDisk g.efs) ([g.efs.rootInode], fresh) first =
              .ok (between, earlier) →
            g.Matches between (g.reference first).1 →
              ∃ result, op.onDisk g.efs between = .ok result := by
    intro first op rest split between earlier ran matched
    have opAllowed : (g.reference first).1.Allowed g op := by
      rw [AllowedSession, split] at allowed
      exact allowed.split
    by_cases isCreate : op.call.isCreate = true
    · rcases returns first op rest split isCreate with
        capacity | ⟨⟨outcome, state⟩, returned⟩
      · rw [reference, totalRun_concat] at capacity
        exact matched.returns opAllowed capacity
      · obtain ⟨_, runEq⟩ :=
          (onCache _ outcome state.view).mp ⟨state, returned, rfl⟩
        obtain ⟨middle, _, _, firstRun, lastRun, _⟩ :=
          run_append_eq_ok.mp runEq
        rw [ran] at firstRun
        cases firstRun
        obtain ⟨next, head, _, stepEq, _, _⟩ := run_cons_eq_ok.mp lastRun
        exact ⟨_, stepEq⟩
    · exact matched.returns opAllowed
        (matched.capacity (Bool.not_eq_true _ ▸ isCreate))
  obtain ⟨⟨handles, disk⟩, ran, matched⟩ :=
    run_matches (fun matched allowed returned => matched.step allowed returned)
      allowed stepReturns isFresh.matches
  obtain ⟨state, returned, viewEq⟩ :=
    (onCache ops (g.efs, (g.reference ops).2, handles) disk).mpr ⟨rfl, ran⟩
  have handlesEq : handles = (g.reference ops).1.handles.map g.efs.inode :=
    matched.handles
  rw [handlesEq] at returned
  exact ⟨state, returned, viewEq ▸ matched.shown⟩

/-- Files are only ever added. -/
theorem reference_files_mono (g : Geometry) (first rest : List Op) :
    (g.reference first).1.files.length ≤
      (g.reference (first ++ rest)).1.files.length := by
  induction rest using List.reverseRecOn with
  | nil => rw [append_nil]
  | append_singleton rest last ih =>
    refine Nat.le_trans ih ?_
    rw [← append_assoc, reference, reference, totalRun_concat]
    generalize (totalRun (FileTable.step g) _ _).1 = table
    cases present : table.handles[last.handle]? with
    | none => rw [FileTable.step, present]
    | some id =>
      rw [step_some present]
      exact (call_obtains g table id last.call).1

/-- A session of allowed calls within the capacity of the root directory. -/
theorem newSession_returns
    (device : BlockDevice) {ops : List Op} (allowed : g.AllowedSession ops)
    (capacity : (g.reference ops).1.files.length ≤ 264640) :
    ∃ state,
      (newSession g.totalBlocks g.inodeBitmapBlocks ops).run
            (CacheState.start device) =
          .ok (g.outcome ops, state) ∧
        ∃ nodes, g.Shows state.view nodes (g.reference ops).1 := by
  apply newSession_matches device allowed
  intro first op rest split _
  have mono := g.reference_files_mono (first ++ [op]) rest
  rw [append_assoc, singleton_append, ← split] at mono
  exact .inl (Nat.le_trans mono capacity)

/-- A device of 1037 blocks, 10 of them in the data area. -/
def small : Geometry := ⟨1037, 1, by decide, by decide, by decide⟩

/-- Two files, with a hole in one and a block of the other given back. -/
def smallOps : List Op :=
  [⟨0, .create "a"⟩, ⟨0, .create "b"⟩, ⟨1, .writeAt 600 [1, 2, 3]⟩,
    ⟨2, .writeAt 0 [7]⟩, ⟨2, .clear⟩, ⟨2, .writeAt 1 [8]⟩,
    ⟨1, .readAt 599 [9, 9, 9]⟩, ⟨2, .readAt 0 [9, 9, 9]⟩]

end Geometry

end RCoreOS.EasyFs
