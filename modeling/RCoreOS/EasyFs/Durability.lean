import RCoreOS.EasyFs.FileContents

/-!
# The device alone determines the file system

`create`, `write_at` and `clear` end with `block_cache_sync_all`, so after each
of them the device holds what the cache shows.  A file system that is opened
on that device behaves as the one in memory: it has the same layout, because
no operation touches the superblock, and every later session with it returns
the same.
-/

namespace RCoreOS.EasyFs

open Lib List BlockProg EasyFileSystem CacheState

/-- The calls that change the file system. -/
def Call.isUpdate : Call → Bool
  | .create _ => true
  | .writeAt _ _ => true
  | .clear => true
  | _ => false

namespace Geometry

variable {g : Geometry} {state after : List Inode × Disk}
  {handles : List Inode} {disk : Disk} {nodes : List Node}
  {count id : Nat}

/--
A file system in use: its nodes are the inodes that were allocated, of which
there are at most `2 ^ 32`, and the client has inodes of these.
-/
structure Mounted
    (g : Geometry) (handles : List Inode) (disk : Disk) (nodes : List Node)
    (count : Nat) : Prop where
  represents : g.Represents disk nodes
  inodeBits : g.InodeBits disk count
  length : nodes.length = min count (2 ^ 32)
  obtained : ∀ inode ∈ handles, ∃ id < nodes.length, inode = g.efs.inode id

/-- A file system in use, with the inodes and the disk of a session. -/
def InUse (g : Geometry) (state : List Inode × Disk) : Prop :=
  ∃ nodes count, g.Mounted state.1 state.2 nodes count

theorem Fresh.inUse (fresh : g.Fresh disk) :
    g.InUse ([g.efs.rootInode], disk) := by
  refine ⟨_, 1, fresh.represents, fresh.inodeBits, rfl, ?_⟩
  intro inode member
  exact ⟨0, Nat.one_pos, mem_singleton.mp member⟩

/-! ## Updates -/

variable {last : Disk}

/-- Replacing a node keeps the file system in use. -/
theorem Mounted.set (mounted : g.Mounted handles disk nodes count) {new : Node}
    (represents : g.Represents last (nodes.set id new))
    (same :
      ∀ block, g.efs.inodeBitmap.Covers block → last block = disk block) :
    g.InUse (handles, last) := by
  have length : (nodes.set id new).length = nodes.length := length_set
  refine ⟨nodes.set id new, count, represents,
    mounted.inodeBits.congr same, by rw [length, mounted.length], ?_⟩
  intro inode member
  obtain ⟨id, inside, equal⟩ := mounted.obtained inode member
  exact ⟨id, by omega, equal⟩

theorem Mounted.create (mounted : g.Mounted handles disk nodes count)
    (inside : id < nodes.length) {name : String} {result : Option Inode}
    (returned :
      (Inode.create g.efs (g.efs.inode id) name).onDisk [] disk =
        .ok (result, last)) :
    g.InUse (handles ++ result.toList, last) := by
  have slot := Nat.lt_of_lt_of_le inside mounted.represents.slots
  obtain ⟨_, _, ⟨_, rfl, rfl⟩ | ⟨_, newInode, rfl, created⟩⟩ :=
    (onDisk_create slot).mp returned
  · refine ⟨nodes, count, mounted.represents, mounted.inodeBits,
      mounted.length, ?_⟩
    intro inode member
    exact mounted.obtained inode (by simpa using member)
  · have lengthEq := mounted.length
    have ordered : count % 2 ^ 32 ≤ nodes.length := by omega
    have placed : (place nodes (count % 2 ^ 32) .file).length =
        min (count + 1) (2 ^ 32) := by
      rw [length_place ordered]
      omega
    have present :=
      getElem?_eq_getElem
        (show id < (place nodes (count % 2 ^ 32) .file).length by omega)
    obtain ⟨rfl, entry, v, _, done⟩ :=
      mounted.represents.createFile_returned mounted.inodeBits ordered
        present created
    refine ⟨_, count + 1, done.represents, done.inodeBits, ?_, ?_⟩
    · rw [length_set, placed]
    · intro inode member
      rw [length_set, placed]
      rcases mem_append.mp member with old | new
      · obtain ⟨other, below, equal⟩ := mounted.obtained inode old
        exact ⟨other, by omega, equal⟩
      · exact ⟨count % 2 ^ 32, by omega, mem_singleton.mp new⟩

/-- An update keeps the file system in use. -/
theorem InUse.step
    (inUse : g.InUse state) {op : Op} (update : op.call.isUpdate = true)
    {event : Option Event}
    (returned : op.onDisk g.efs state = .ok (after, event)) :
    g.InUse after := by
  obtain ⟨nodes, count, mounted⟩ := inUse
  rcases Op.onDisk_eq_ok.mp returned with
    ⟨_, _, handlesEq, diskEq⟩ |
      ⟨inode, response, handleAt, performed, _, handlesEq⟩
  · have unchanged : after = state := Prod.ext handlesEq diskEq
    rw [unchanged]
    exact ⟨nodes, count, mounted⟩
  · obtain ⟨id, inside, rfl⟩ :=
      mounted.obtained inode (mem_of_getElem? handleAt)
    have present := getElem?_eq_getElem inside
    have afterEq : after = (state.1 ++ response.inodes, after.2) :=
      Prod.ext handlesEq rfl
    rw [afterEq]
    cases calls : op.call with
    | create name =>
      rw [calls] at performed
      obtain ⟨result, last, created, performed⟩ :=
        onDisk_bind_eq_ok.mp performed
      obtain ⟨rfl, rfl⟩ := Prod.mk.inj (Except.ok.inj performed)
      exact mounted.create inside created
    | writeAt offset buf =>
      rw [calls] at performed
      obtain ⟨written, last, wrote, performed⟩ :=
        onDisk_bind_eq_ok.mp performed
      obtain ⟨rfl, rfl⟩ := Prod.mk.inj (Except.ok.inj performed)
      obtain ⟨_, _, _, v, done⟩ :=
        mounted.represents.writeAt_returned present wrote
      show g.InUse (state.1 ++ [], after.2)
      rw [append_nil]
      exact mounted.set done.represents done.inodeBitmap
    | clear =>
      rw [calls] at performed
      obtain ⟨_, last, cleared, performed⟩ := onDisk_bind_eq_ok.mp performed
      obtain ⟨rfl, rfl⟩ := Prod.mk.inj (Except.ok.inj performed)
      obtain ⟨other, ran, represents, _, same⟩ :=
        mounted.represents.onDisk_clear present
      rw [ran] at cleared
      obtain ⟨_, rfl⟩ := Prod.mk.inj (Except.ok.inj cleared)
      show g.InUse (state.1 ++ [], after.2)
      rw [append_nil]
      exact mounted.set represents same
    | find name
    | ls
    | readAt offset buf =>
      rw [calls] at update
      cases update

/-- After a session of updates the file system is in use. -/
theorem InUse.run (inUse : g.InUse state) {ops : List Op}
    (updates : ∀ op ∈ ops, op.call.isUpdate = true)
    {events : List (Option Event)}
    (returned :
      FallibleRuns.run (Op.onDisk g.efs) state ops = .ok (after, events)) :
    g.InUse after := by
  refine FallibleRuns.run_invariant_along
    (fun {_ _ op _} holds stepEq (update : op.call.isUpdate = true) =>
      InUse.step holds update stepEq) ?_ inUse returned
  intro first op rest split _ _ _ _ _ _
  exact updates op (by rw [split]; simp)

/-! ## Reopening -/

/--
Durability.  After every session of updates with a new file system, opening
the device again with an empty cache gives the same layout, and every later
session returns the same as on the file system in memory.
-/
theorem durable_after_updates
    (g : Geometry) (device : BlockDevice) (ops : List Op)
    (updates : ∀ op ∈ ops, op.call.isUpdate = true)
    (outcome : EasyFileSystem × List (Option Event) × List Inode)
    (state : CacheState)
    (reached :
      (newSession g.totalBlocks g.inodeBitmapBlocks ops).run
          (CacheState.start device) =
        .ok (outcome, state)) :
    ∃ reopened,
      open_.run (CacheState.start state.device) = .ok (outcome.1, reopened) ∧
        ∀ handles later,
          ((session outcome.1 handles later).run reopened).map Prod.fst =
            ((session outcome.1 handles later).run state).map Prod.fst := by
  obtain ⟨coherent, settled⟩ :=
    run_newSession_settled (start_coherent device) reached
  obtain ⟨fresh, isFresh, onCache⟩ := g.run_newSession device
  obtain ⟨efsEq, ran⟩ :=
    (onCache ops outcome state.view).mp ⟨state, reached, rfl⟩
  obtain ⟨nodes, count, mounted⟩ := isFresh.inUse.run updates ran
  have startView : (CacheState.start state.device).view = state.view := by
    rw [view_start]
    funext blockId
    exact settled blockId
  have startCoherent := start_coherent state.device
  have opened :
      open_.onDisk [] (CacheState.start state.device).view =
        .ok (g.efs, state.view) := by
    rw [startView]
    exact onDisk_open mounted.represents.holding.superBlock
  obtain ⟨reopened, openRan, view⟩ := run_of_onDisk startCoherent opened
  have reopenedCoherent := (onDisk_of_run startCoherent openRan).1
  rw [efsEq]
  refine ⟨reopened, openRan, ?_⟩
  intro handles later
  rw [run_map_fst _ reopenedCoherent, run_map_fst _ coherent, view]

/-- The updates of the small session. -/
def smallUpdates : List Op :=
  [⟨0, .create "a"⟩, ⟨1, .writeAt 600 [1, 2, 3]⟩, ⟨1, .clear⟩]

theorem durable_after_updates_small :
    ∃ outcome state reopened,
      (newSession 1037 1 smallUpdates).run
            (CacheState.start ⟨fun _ => Lib.Bytes.zeros⟩) =
          .ok (outcome, state) ∧
        open_.run (CacheState.start state.device) = .ok (outcome.1, reopened) ∧
        ∀ handles later,
          ((session outcome.1 handles later).run reopened).map Prod.fst =
            ((session outcome.1 handles later).run state).map Prod.fst := by
  obtain ⟨state, returned, _⟩ :=
    @newSession_returns small ⟨fun _ => Lib.Bytes.zeros⟩ smallUpdates
      (by decide +kernel) (by decide +kernel)
  obtain ⟨reopened, openRan, same⟩ :=
    durable_after_updates small ⟨fun _ => Lib.Bytes.zeros⟩ smallUpdates
      (by decide) _ state returned
  exact ⟨_, state, reopened, returned, openRan, same⟩

end Geometry

end RCoreOS.EasyFs
