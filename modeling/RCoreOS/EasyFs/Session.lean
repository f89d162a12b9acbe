import RCoreOS.EasyFs.Consistency
import RCoreOS.EasyFs.QuietProgram

/-!
# Sessions

A client creates a file system, takes its root inode and calls operations on
the inodes that it has obtained so far: the root, and those that `create` and
`find` returned.  A session is such a sequence of calls, as one program over
the block cache.

On the bare disk a session is a run of a machine whose state is the list of
inodes and the disk, so the rules for runs apply to it.  On the cache it gives
the same results, and each of its calls leaves the device up to date.
-/

namespace RCoreOS.EasyFs

open Lib BlockProg Geometry

/-- A call of an operation of `Inode`. -/
inductive Call where
  | create (name : String)
  | find (name : String)
  | ls
  | readAt (offset : Nat) (buf : List UInt8)
  | writeAt (offset : Nat) (buf : List UInt8)
  | clear
deriving DecidableEq

/-- What a call returns; `read_at` also fills a buffer. -/
inductive Response where
  | inode (result : Option Inode)
  | names (result : List String)
  | read (count : Nat) (buf : List UInt8)
  | wrote (count : Nat)
  | cleared
deriving DecidableEq

/-- The inodes that a client obtains from a response. -/
def Response.inodes : Response → List Inode
  | .inode result => result.toList
  | _ => []

/-- Perform a call on an inode. -/
def Call.perform (efs : EasyFileSystem) (self : Inode) :
    Call → BlockProg Response
  | .create name => do return .inode (← Inode.create efs self name)
  | .find name => do return .inode (← Inode.find efs self name)
  | .ls => do return .names (← self.ls)
  | .readAt offset buf => do
      let (count, buf) ← self.readAt offset buf
      return .read count buf
  | .writeAt offset buf => do
      return .wrote (← Inode.writeAt efs self offset buf)
  | .clear => do
      Inode.clear efs self
      return .cleared

/-- A call on the inode at a position of the list of inodes obtained. -/
structure Op where
  handle : Nat
  call : Call
deriving DecidableEq

/-- A call that was made, and its response. -/
structure Event where
  inode : Inode
  call : Call
  response : Response
deriving DecidableEq

/-- One step of a client.  Without an inode there is no call. -/
def Op.step (efs : EasyFileSystem) (handles : List Inode) (op : Op) :
    BlockProg (Option Event × List Inode) :=
  match handles[op.handle]? with
  | none => return (none, handles)
  | some inode => do
      let response ← op.call.perform efs inode
      return (some ⟨inode, op.call, response⟩, handles ++ response.inodes)

/-- The steps of a client. -/
def session (efs : EasyFileSystem) :
    List Inode → List Op → BlockProg (List (Option Event) × List Inode)
  | handles, [] => return ([], handles)
  | handles, op :: rest => do
      let (event, handles) ← op.step efs handles
      let (events, handles) ← session efs handles rest
      return (event :: events, handles)

/-- Create a file system and use it. -/
def newSession (totalBlocks inodeBitmapBlocks : Nat) (ops : List Op) :
    BlockProg (EasyFileSystem × List (Option Event) × List Inode) := do
  let efs ← EasyFileSystem.create totalBlocks inodeBitmapBlocks
  let (events, handles) ← session efs [efs.rootInode] ops
  return (efs, events, handles)

/-! ## On the bare disk -/

/-- One step of a client as a step of a machine. -/
def Op.onDisk (efs : EasyFileSystem) (state : List Inode × Disk) (op : Op) :
    Except Fault ((List Inode × Disk) × Option Event) :=
  ((op.step efs state.1).onDisk [] state.2).map fun outcome =>
    ((outcome.1.2, outcome.2), outcome.1.1)

/-- A step that returned made a call that returned, or none. -/
theorem Op.onDisk_eq_ok {efs : EasyFileSystem} {handles handles' : List Inode}
    {disk after : Disk} {op : Op} {event : Option Event} :
    op.onDisk efs (handles, disk) = .ok ((handles', after), event) ↔
      (handles[op.handle]? = none ∧ event = none ∧ handles' = handles ∧
          after = disk) ∨
        ∃ inode response,
          handles[op.handle]? = some inode ∧
            (op.call.perform efs inode).onDisk [] disk =
              .ok (response, after) ∧
            event = some ⟨inode, op.call, response⟩ ∧
            handles' = handles ++ response.inodes := by
  rw [Op.onDisk, Op.step]
  cases handles[op.handle]? with
  | none =>
    constructor
    · intro returned
      cases returned
      exact .inl ⟨rfl, rfl, rfl, rfl⟩
    · rintro (⟨_, rfl, rfl, rfl⟩ | ⟨_, _, absent, _⟩)
      · rfl
      · cases absent
  | some inode =>
    dsimp only
    rw [onDisk_bind]
    cases ran : (op.call.perform efs inode).onDisk [] disk with
    | error fault =>
      constructor
      · intro returned
        cases returned
      · rintro (⟨absent, _⟩ | ⟨_, _, present, returned, _⟩)
        · cases absent
        · cases present
          rw [ran] at returned
          cases returned
    | ok outcome =>
      constructor
      · intro returned
        cases returned
        exact .inr ⟨inode, outcome.1, rfl, ran, rfl, rfl⟩
      · rintro (⟨absent, _⟩ | ⟨_, _, present, returned, rfl, rfl⟩)
        · cases absent
        · cases present
          rw [ran] at returned
          cases returned
          rfl

/-- A session on the disk is a run of the machine. -/
theorem onDisk_session
    (efs : EasyFileSystem) (handles : List Inode) (ops : List Op)
    (disk : Disk) :
    (session efs handles ops).onDisk [] disk =
      (FallibleRuns.run (Op.onDisk efs) (handles, disk) ops).map
        fun outcome => ((outcome.2, outcome.1.1), outcome.1.2) := by
  induction ops generalizing handles disk with
  | nil => rfl
  | cons op rest ih =>
    rw [session, onDisk_bind, FallibleRuns.run, Op.onDisk]
    cases (op.step efs handles).onDisk [] disk with
    | error fault => rfl
    | ok outcome =>
      obtain ⟨⟨event, between⟩, after⟩ := outcome
      show (session efs between rest >>= _).onDisk [] after =
        Except.map _ (FallibleRuns.run _ (between, after) rest >>= _)
      rw [onDisk_bind, ih]
      cases FallibleRuns.run (Op.onDisk efs) (between, after) rest <;> rfl

namespace Geometry

/-- The sessions with a new file system, from one disk after `create` on. -/
theorem onDisk_newSession (g : Geometry) (disk : Disk) :
    ∃ fresh,
      g.Fresh fresh ∧
        ∀ ops,
          (newSession g.totalBlocks g.inodeBitmapBlocks ops).onDisk [] disk =
            (FallibleRuns.run (Op.onDisk g.efs)
                ([g.efs.rootInode], fresh) ops).map
              fun outcome => ((g.efs, outcome.2, outcome.1.1), outcome.1.2) := by
  obtain ⟨fresh, ran, isFresh⟩ := g.onDisk_createEfs disk
  refine ⟨fresh, isFresh, ?_⟩
  intro ops
  rw [newSession, onDisk_bind_ok ran, onDisk_bind, onDisk_session]
  cases FallibleRuns.run (Op.onDisk g.efs) ([g.efs.rootInode], fresh) ops <;>
    rfl

/-- The same sessions on the block cache. -/
theorem run_newSession (g : Geometry) (device : BlockDevice) :
    ∃ fresh,
      g.Fresh fresh ∧
        ∀ ops outcome disk,
          (∃ state,
              (newSession g.totalBlocks g.inodeBitmapBlocks ops).run
                  (CacheState.start device) = .ok (outcome, state) ∧
                state.view = disk) ↔
            outcome.1 = g.efs ∧
              FallibleRuns.run (Op.onDisk g.efs)
                  ([g.efs.rootInode], fresh) ops =
                .ok ((outcome.2.2, disk), outcome.2.1) := by
  obtain ⟨fresh, isFresh, onDisk⟩ := g.onDisk_newSession device.readBlock
  refine ⟨fresh, isFresh, ?_⟩
  intro ops outcome disk
  have coherent := CacheState.start_coherent device
  have view := CacheState.view_start device
  constructor
  · rintro ⟨state, returned, stateView⟩
    obtain ⟨_, ran⟩ := onDisk_of_run coherent returned
    rw [view, onDisk, stateView] at ran
    cases runEq :
        FallibleRuns.run (Op.onDisk g.efs) ([g.efs.rootInode], fresh) ops with
    | error fault =>
      rw [runEq] at ran
      cases ran
    | ok last =>
      rw [runEq] at ran
      cases ran
      exact ⟨rfl, rfl⟩
  · rintro ⟨efsEq, runEq⟩
    apply run_of_onDisk coherent
    rw [view, onDisk, runEq]
    cases outcome with
    | mk efs rest =>
      cases efsEq
      rfl

/-- A session that returned has returned after its first operations. -/
theorem newSession_first
    (g : Geometry) {device : BlockDevice} {first rest : List Op}
    {result : (EasyFileSystem × List (Option Event) × List Inode) × CacheState}
    (returned :
      (newSession g.totalBlocks g.inodeBitmapBlocks (first ++ rest)).run
          (CacheState.start device) =
        .ok result) :
    ∃ earlier,
      (newSession g.totalBlocks g.inodeBitmapBlocks first).run
          (CacheState.start device) =
        .ok earlier := by
  obtain ⟨fresh, _, onCache⟩ := g.run_newSession device
  obtain ⟨_, ran⟩ := (onCache _ _ _).mp ⟨result.2, returned, rfl⟩
  obtain ⟨⟨handles, disk⟩, events, _, firstRun, _⟩ :=
    FallibleRuns.run_append_eq_ok.mp ran
  obtain ⟨state, earlier, _⟩ :=
    (onCache first (g.efs, events, handles) disk).mpr ⟨rfl, firstRun⟩
  exact ⟨_, earlier⟩

end Geometry

/-! ## The device after each call -/

/-- The search of `create` stores the directory back as it was. -/
theorem quiet_createSearch (self : Inode) (name : String) (disk : Disk) :
    (self.modifyDiskInode fun rootInode => do
        BlockProg.assert rootInode.isDir
        let found ← Inode.findInodeId name rootInode
        return (found, rootInode)).Quiet disk := by
  have search (rootInode : DiskInode) :
      (do
        BlockProg.assert rootInode.isDir
        let found ← Inode.findInodeId name rootInode
        return (found, rootInode)).ReadOnly :=
    (readOnly_assert _).bind fun _ =>
      (readOnly_findInodeId name rootInode).bind fun _ => trivial
  refine ⟨?_, ?_, fun _ => trivial⟩
  · split
    · refine (((search _).quiet disk).bind fun _ => trivial)
    · trivial
  · intro held result contents after returned
    split at returned
    · obtain ⟨⟨found, rootInode⟩, between, searched, stored⟩ :=
        onDisk_bind_eq_ok.mp returned
      have unchanged := (search _).onDisk_eq searched
      obtain ⟨_, asserted, _, searched⟩ := onDisk_bind_eq_ok.mp searched
      obtain ⟨_, _, _, shown⟩ := onDisk_bind_eq_ok.mp searched
      cases shown
      cases stored
      exact ⟨unchanged, DiskInode.store_load _ _⟩
    · cases returned

variable {efs : EasyFileSystem} {state after : CacheState}

section

variable (coherent : state.Coherent [] [])

include coherent

/-- Every call leaves the device up to date. -/
theorem Call.run_settled {self : Inode} {call : Call} {response : Response}
    (settled : state.Settled)
    (returned : (call.perform efs self).run state = .ok (response, after)) :
    after.Settled := by
  have quietly {α : Type} {program : BlockProg α} {value : α}
      {last : CacheState} (readOnly : program.ReadOnly)
      (ran : program.run state = .ok (value, last)) : last.Settled :=
    ((readOnly.quiet state.view).run_settled coherent List.nodup_nil settled
      ran).1
  cases call with
  | create name =>
    obtain ⟨result, last, created, returned⟩ := run_bind_eq_ok.mp returned
    cases returned
    obtain ⟨found, searched, search, created⟩ := run_bind_eq_ok.mp created
    obtain ⟨searchedSettled, _⟩ :=
      (quiet_createSearch self name state.view).run_settled coherent
        List.nodup_nil settled search
    obtain ⟨searchedCoherent, _⟩ := onDisk_of_run coherent search
    cases found with
    | some inodeId =>
      cases created
      exact searchedSettled
    | none =>
      obtain ⟨newInode, last, created, returned⟩ := run_bind_eq_ok.mp created
      cases returned
      obtain ⟨newId, allocated, alloc, created⟩ := run_bind_eq_ok.mp created
      obtain ⟨allocatedCoherent, _⟩ := onDisk_of_run searchedCoherent alloc
      obtain ⟨_, initialized, initialize_, created⟩ :=
        run_bind_eq_ok.mp created
      obtain ⟨initializedCoherent, _⟩ :=
        onDisk_of_run allocatedCoherent initialize_
      exact run_sync_settled initializedCoherent created
  | find name =>
    obtain ⟨_, _, ran, returned⟩ := run_bind_eq_ok.mp returned
    cases returned
    exact quietly (readOnly_find efs self name) ran
  | ls =>
    obtain ⟨_, _, ran, returned⟩ := run_bind_eq_ok.mp returned
    cases returned
    exact quietly (readOnly_ls self) ran
  | readAt offset buf =>
    obtain ⟨_, _, ran, returned⟩ := run_bind_eq_ok.mp returned
    cases returned
    exact quietly (Geometry.readOnly_readAt self offset buf) ran
  | writeAt offset buf
  | clear =>
    obtain ⟨_, _, ran, returned⟩ := run_bind_eq_ok.mp returned
    cases returned
    exact run_sync_settled coherent ran

variable {ops : List Op} {totalBlocks inodeBitmapBlocks : Nat}

/-- A session that starts with a device up to date ends with one. -/
theorem run_session_settled {handles : List Inode}
    {outcome : List (Option Event) × List Inode} (settled : state.Settled)
    (returned : (session efs handles ops).run state = .ok (outcome, after)) :
    after.Settled := by
  induction ops generalizing handles state outcome with
  | nil =>
    cases returned
    exact settled
  | cons op rest ih =>
    obtain ⟨⟨event, handles'⟩, between, ran, returned⟩ :=
      run_bind_eq_ok.mp returned
    obtain ⟨_, _, later, returned⟩ := run_bind_eq_ok.mp returned
    cases returned
    obtain ⟨betweenCoherent, _⟩ := onDisk_of_run coherent ran
    refine ih betweenCoherent ?_ later
    rw [Op.step] at ran
    cases present : handles[op.handle]? with
    | none =>
      rw [present] at ran
      cases ran
      exact settled
    | some inode =>
      rw [present] at ran
      obtain ⟨response, _, performed, ran⟩ := run_bind_eq_ok.mp ran
      cases ran
      exact Call.run_settled coherent settled performed

theorem run_create_settled
    (returned :
      (EasyFileSystem.create totalBlocks inodeBitmapBlocks).run state =
        .ok (efs, after)) :
    after.Settled := by
  obtain ⟨_, _, clear, returned⟩ := run_bind_eq_ok.mp returned
  obtain ⟨coherent, _⟩ := onDisk_of_run coherent clear
  obtain ⟨_, _, store, returned⟩ := run_bind_eq_ok.mp returned
  obtain ⟨coherent, _⟩ := onDisk_of_run coherent store
  obtain ⟨_, _, alloc, returned⟩ := run_bind_eq_ok.mp returned
  obtain ⟨coherent, _⟩ := onDisk_of_run coherent alloc
  obtain ⟨_, _, check, returned⟩ := run_bind_eq_ok.mp returned
  obtain ⟨coherent, _⟩ := onDisk_of_run coherent check
  exact run_sync_settled coherent returned

/-- A session with a new file system leaves the device up to date. -/
theorem run_newSession_settled
    {outcome : EasyFileSystem × List (Option Event) × List Inode}
    (returned :
      (newSession totalBlocks inodeBitmapBlocks ops).run state =
        .ok (outcome, after)) :
    after.Coherent [] [] ∧ after.Settled := by
  refine ⟨(onDisk_of_run coherent returned).1, ?_⟩
  obtain ⟨efs, created, create, returned⟩ := run_bind_eq_ok.mp returned
  obtain ⟨_, _, used, returned⟩ := run_bind_eq_ok.mp returned
  cases returned
  obtain ⟨createdCoherent, _⟩ := onDisk_of_run coherent create
  exact run_session_settled createdCoherent
    (run_create_settled coherent create) used

end

end RCoreOS.EasyFs
