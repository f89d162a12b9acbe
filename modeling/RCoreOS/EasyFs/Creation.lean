import RCoreOS.EasyFs.Directory

/-!
# Creating files

`Inode::create` searches the directory, allocates an inode, initializes it as
an empty file and appends an entry to the directory.

Inode ids are `u32` numbers while the inode bitmap can have more bits, so the
id of a new file is the number of allocated inodes modulo `2 ^ 32`.  Below
that bound `place` adds a node; from there on it would reset an old one.
-/

namespace RCoreOS.EasyFs

open Lib.Bytes BlockProg List Lib.Segments Inode DirEntry

/-- The nodes once the inode `id` is initialized. -/
def place (nodes : List Node) (id : Nat) (kind : DiskInodeType) :
    List Node :=
  if id < nodes.length then nodes.set id (Node.empty kind)
  else nodes ++ [Node.empty kind]

section Place

variable {nodes : List Node} {id : Nat} {kind : DiskInodeType}

section

variable (ordered : id ≤ nodes.length)

include ordered

theorem getElem?_place_self :
    (place nodes id kind)[id]? = some (Node.empty kind) := by
  rw [place]
  split
  · next inside => rw [getElem?_set_self inside]
  · next outside =>
      have last : id = nodes.length := by omega
      rw [last, getElem?_concat_length]

theorem getElem?_place_other {other : Nat} (different : other ≠ id) :
    (place nodes id kind)[other]? = nodes[other]? := by
  rw [place]
  split
  · rw [getElem?_set_ne (Ne.symm different)]
  · next outside =>
      by_cases before : other < nodes.length
      · rw [getElem?_append_left before]
      · rw [getElem?_eq_none (by simp; omega), getElem?_eq_none (by omega)]

theorem length_place :
    (place nodes id kind).length = max nodes.length (id + 1) := by
  rw [place]
  split
  · rw [length_set]
    omega
  · rw [length_append, length_singleton]
    omega

end

theorem place_length :
    place nodes nodes.length kind = nodes ++ [Node.empty kind] :=
  if_neg (Nat.lt_irrefl _)

end Place

namespace Geometry

variable {g : Geometry} {disk after : Disk} {nodes : List Node}
  {id count : Nat} {node : Node} {name : String}

/-! ## A new inode -/

/-- Allocating an inode changes no node. -/
theorem Represents.allocate (represents : g.Represents disk nodes)
    (allocated : g.efs.inodeBitmap.Allocated disk count after) :
    g.Represents after nodes := by
  obtain ⟨_, start, _, _, _, _⟩ := g.regions
  have kept {block : Nat}
      (outside : block = 0 ∨ 1 + g.inodeBitmapBlocks ≤ block) :
      after block = disk block := by
    apply allocated.frame
    rintro ⟨lower, upper⟩
    have first : 1 ≤ block := lower
    have last : block < 1 + g.inodeBitmapBlocks := upper
    omega
  refine ⟨?_, represents.slots⟩
  have holding :=
    represents.holding.congr (kept (.inl rfl)) fun block behind =>
      kept (.inr (by omega))
  refine holding.inodes_congr fun other _ => ?_
  apply inodeAt_congr
  apply kept
  rw [inodeBlock]
  omega

/-- What is known once an inode was allocated. -/
structure NewInode
    (g : Geometry) (disk : Disk) (nodes : List Node) (count : Nat)
    (after : Disk) : Prop where
  room : count < g.efs.inodeBitmap.maximum
  represents : g.Represents after nodes
  inodeBits : g.InodeBits after (count + 1)
  dataBitmap :
    ∀ block, g.efs.dataBitmap.Covers block → after block = disk block

theorem Represents.onDisk_allocInode
    (represents : g.Represents disk nodes) (bits : g.InodeBits disk count)
    (room : count < g.efs.inodeBitmap.maximum) :
    ∃ after,
      g.efs.allocInode.onDisk [] disk = .ok (count % 2 ^ 32, after) ∧
        g.NewInode disk nodes count after := by
  obtain ⟨after, ran, allocated⟩ :=
    Geometry.onDisk_allocInode (fun _ _ => canLock_nil _) room bits
  refine ⟨after, ran, room, represents.allocate allocated, ?_, ?_⟩
  · intro n inside
    rw [allocated.bits, bits n inside, ← Bool.decide_or, decide_eq_decide]
    omega
  · intro block covers
    apply allocated.frame
    intro inInodes
    have position := (covers_lt inInodes 0).2
    have lower := covers.1
    omega

variable {newId : Nat} {inode : DiskInode}

/-- An `alloc_inode` that returned found a free inode. -/
theorem Represents.allocInode_returned
    (represents : g.Represents disk nodes) (bits : g.InodeBits disk count)
    (returned : g.efs.allocInode.onDisk [] disk = .ok (newId, after)) :
    newId = count % 2 ^ 32 ∧ g.NewInode disk nodes count after := by
  by_cases room : count < g.efs.inodeBitmap.maximum
  · obtain ⟨allocated, ran, new⟩ := represents.onDisk_allocInode bits room
    rw [ran] at returned
    cases returned
    exact ⟨rfl, new⟩
  · have full :
        g.efs.allocInode.onDisk [] disk = .error .unwrapFailed := by
      refine onDisk_allocInode_full (fun _ _ => canLock_nil _) ?_
      intro n inside
      rw [bits n inside, decide_eq_true (by omega)]
    rw [full] at returned
    cases returned

/-- Initializing an inode makes it an empty node. -/
theorem Represents.initialized (represents : g.Represents disk nodes)
    (inside : id < g.efs.inodeBitmap.maximum)
    (ordered : id ≤ nodes.length) (kind : DiskInodeType) :
    g.Represents (g.storeInode disk id (DiskInode.initialized kind))
      (place nodes id kind) := by
  have holding := represents.holding
  have placed :
      g.Holding
        (Function.update (g.inodeAt disk) id (DiskInode.initialized kind))
        disk (place nodes id kind) := by
    apply holding.replaceNode (getElem?_place_self ordered)
      (fun _ different => getElem?_place_other ordered different) rfl
    · exact represents_empty _ _ rfl rfl
    · exact nodup_nil
    · intro block owns
      cases owns
    · intro block owns
      cases owns
    · intro block owns
      cases owns
    · intro other otherNode _ otherAt block owns
      exact ⟨rfl, holding.owned otherNode (mem_of_getElem? otherAt)
        block owns⟩
    · exact holding.freeZero
  refine placed.store inside ?_ fun _ _ => rfl
  have slots := represents.slots
  rw [length_place ordered]
  omega

theorem onDisk_initialized
    (inside : id < g.efs.inodeBitmap.maximum) (kind : DiskInodeType) :
    ((g.efs.inode id).modifyDiskInode fun _ =>
        return ((), DiskInode.initialized kind)).onDisk [] disk =
      .ok ((), g.storeInode disk id (DiskInode.initialized kind)) :=
  modifyDiskInode_returns inside rfl fun _ _ => rfl

/-! ## A new entry -/

/-- Appending an entry is a write of its bytes behind the last entry. -/
theorem onDisk_appendDirEntry {efs : EasyFileSystem} {root : DiskInode}
    {held : List Nat} :
    (appendDirEntry efs name newId root).onDisk held disk =
        .ok (((), inode), after) ↔
      ∃ entry written,
        DirEntry.new name (BitVec.ofNat 32 newId) = .ok entry ∧
          (growAndWrite efs (root.size.toNat / 32 * 32) entry.asBytes
              root).onDisk held disk =
            .ok ((written, inode), after) := by
  have sizeEq (entry : DirEntry) :
      (root.size.toNat / 32 * 32 + entry.asBytes.length) % 2 ^ 32 =
        (root.size.toNat / 32 + 1) * 32 % 2 ^ 32 := by
    rw [length_asBytes, Nat.succ_mul]
  constructor
  · intro returned
    obtain ⟨grown, between, grew, returned⟩ := onDisk_bind_eq_ok.mp returned
    obtain ⟨entry, same, made, returned⟩ := onDisk_bind_eq_ok.mp returned
    obtain ⟨madeEq, sameEq⟩ := onDisk_ofExcept_eq_ok made
    obtain ⟨written, last, wrote, returned⟩ := onDisk_bind_eq_ok.mp returned
    cases returned
    refine ⟨entry, written, madeEq, ?_⟩
    rw [sameEq] at wrote
    rw [growAndWrite, sizeEq]
    apply onDisk_bind_eq_ok.mpr
    refine ⟨inode, between, grew, ?_⟩
    rw [onDisk_bind_ok wrote]
    rfl
  · rintro ⟨entry, written, made, returned⟩
    rw [growAndWrite, sizeEq] at returned
    obtain ⟨grown, between, grew, returned⟩ := onDisk_bind_eq_ok.mp returned
    obtain ⟨size, last, wrote, returned⟩ := onDisk_bind_eq_ok.mp returned
    cases returned
    apply onDisk_bind_eq_ok.mpr
    refine ⟨inode, between, grew, ?_⟩
    rw [made]
    show (inode.writeAt _ _ >>= _).onDisk held between = _
    rw [onDisk_bind_ok wrote]
    rfl

/-- What is known once a file was created. -/
structure Created
    (g : Geometry) (disk : Disk) (nodes : List Node) (count id : Nat)
    (node : Node) (entry : DirEntry) (v : List Nat) (after : Disk) :
    Prop where
  room : count < g.efs.inodeBitmap.maximum
  limit : node.content.length / 32 * 32 + 32 ≤ 512 * 16540
  represents :
    g.Represents after
      ((place nodes (count % 2 ^ 32) .file).set id
        (node.write (node.content.length / 32 * 32) entry.asBytes v))
  taken : g.Taken disk v after
  inodeBits : g.InodeBits after (count + 1)

/-- The new inode and the new entry, put together. -/
theorem NewInode.created
    {allocated between : Disk} {entry : DirEntry} {v : List Nat}
    (new : g.NewInode disk nodes count allocated)
    (ordered : count % 2 ^ 32 ≤ nodes.length)
    (present : (place nodes (count % 2 ^ 32) .file)[id]? = some node)
    (limit : node.content.length / 32 * 32 + 32 ≤ 512 * 16540)
    (wrote :
      g.WroteNode
        (g.inodeAt
          (g.storeInode allocated (count % 2 ^ 32)
            (DiskInode.initialized .file)))
        (g.storeInode allocated (count % 2 ^ 32)
          (DiskInode.initialized .file))
        (place nodes (count % 2 ^ 32) .file) id node
        (node.content.length / 32 * 32) entry.asBytes v inode between) :
    g.Created disk nodes count id node entry v
      (g.storeInode between id inode) := by
  have inside : count % 2 ^ 32 < g.efs.inodeBitmap.maximum :=
    Nat.lt_of_le_of_lt (Nat.mod_le _ _) new.room
  have placed := new.represents.initialized inside ordered .file
  have stored := wrote.store placed (placed.inside present)
  refine ⟨new.room, limit, stored.represents, ?_, ?_⟩
  · apply stored.taken.congr_before
    intro block covers
    rw [dataBitmap_storeInode inside _ covers, new.dataBitmap block covers]
  · apply new.inodeBits.congr
    intro block covers
    rw [stored.inodeBitmap block covers]
    exact storeInode_other _ (Nat.ne_of_lt (covers_lt covers _).1)

section

variable (represents : g.Represents disk nodes)
  (bits : g.InodeBits disk count) (ordered : count % 2 ^ 32 ≤ nodes.length)
  (present : (place nodes (count % 2 ^ 32) .file)[id]? = some node)

include represents bits ordered present

/-- A `create` past its search that returned has created the file. -/
theorem Represents.createFile_returned {newInode : Inode}
    (returned :
      (Inode.createFile g.efs (g.efs.inode id) name).onDisk [] disk =
        .ok (newInode, after)) :
    newInode = g.efs.inode (count % 2 ^ 32) ∧
      ∃ entry v,
        DirEntry.new name (BitVec.ofNat 32 (count % 2 ^ 32)) = .ok entry ∧
          g.Created disk nodes count id node entry v after := by
  obtain ⟨newId, allocated, alloc, returned⟩ := onDisk_bind_eq_ok.mp returned
  obtain ⟨rfl, new⟩ := represents.allocInode_returned bits alloc
  have inside : count % 2 ^ 32 < g.efs.inodeBitmap.maximum :=
    Nat.lt_of_le_of_lt (Nat.mod_le _ _) new.room
  have placed := new.represents.initialized inside ordered .file
  have rootInside := placed.inside present
  rw [onDisk_bind_ok (onDisk_initialized inside .file)] at returned
  obtain ⟨_, appended, append, returned⟩ := onDisk_bind_eq_ok.mp returned
  cases returned
  refine ⟨rfl, ?_⟩
  obtain ⟨inode, between, ran, afterEq⟩ :=
    (onDisk_modifyDiskInode rootInside).mp append
  obtain ⟨entry, written, made, wrote⟩ := onDisk_appendDirEntry.mp ran
  rw [(placed.holding.represented id node present).size] at wrote
  obtain ⟨enough, _, _, v, wroteNode⟩ :=
    placed.holding.growAndWrite_returned present (inodeBlock_lt rootInside)
      wrote
  refine ⟨entry, v, made, ?_⟩
  have limit : node.content.length / 32 * 32 + 32 ≤ 512 * 16540 := by
    have small := (placed.holding.represented id node present).small
    have most := enough.1
    rwa [length_asBytes, Nat.mod_eq_of_lt (by omega)] at most
  rw [afterEq, ← wroteNode.frame _ (inodeBlock_lt rootInside)]
  exact new.created ordered present limit wroteNode

/-- A `create` past its search returns when there is room for the file. -/
theorem Represents.createFile_returns
    (room : count < g.efs.inodeBitmap.maximum) {entry : DirEntry}
    (made :
      DirEntry.new name (BitVec.ofNat 32 (count % 2 ^ 32)) = .ok entry)
    (enough : g.Enough disk node (node.content.length / 32 * 32 + 32)) :
    ∃ newInode after,
      (Inode.createFile g.efs (g.efs.inode id) name).onDisk [] disk =
        .ok (newInode, after) := by
  obtain ⟨allocated, alloc, new⟩ := represents.onDisk_allocInode bits room
  have inside : count % 2 ^ 32 < g.efs.inodeBitmap.maximum :=
    Nat.lt_of_le_of_lt (Nat.mod_le _ _) new.room
  have placed := new.represents.initialized inside ordered .file
  have rootInside := placed.inside present
  have limit := enough.1
  have newSize :
      (node.content.length / 32 * 32 + entry.asBytes.length) % 2 ^ 32 =
        node.content.length / 32 * 32 + 32 := by
    rw [length_asBytes, Nat.mod_eq_of_lt (by omega)]
  have sameBitmap (block : Nat)
      (covers : g.efs.dataBitmap.Covers block) :
      g.storeInode allocated (count % 2 ^ 32)
          (DiskInode.initialized .file) block =
        disk block := by
    rw [dataBitmap_storeInode inside _ covers, new.dataBitmap block covers]
  have placedEnough :
      g.Enough
        (g.storeInode allocated (count % 2 ^ 32)
          (DiskInode.initialized .file))
        node
        ((node.content.length / 32 * 32 + entry.asBytes.length) %
          2 ^ 32) := by
    rw [newSize, Enough, Bitmap.used_congr sameBitmap]
    exact enough
  have more :
      node.content.length / 32 * 32 <
        node.writeStop (node.content.length / 32 * 32) entry.asBytes := by
    rw [Node.writeStop, newSize, length_asBytes]
    omega
  obtain ⟨inode, between, v, ran, wrote⟩ :=
    placed.holding.onDisk_growAndWrite present (inodeBlock_lt rootInside)
      placedEnough more
  rw [← (placed.holding.represented id node present).size] at ran
  have appended :=
    modifyDiskInode_returns rootInside
      (onDisk_appendDirEntry.mpr ⟨entry, _, made, ran⟩) wrote.frame
  refine ⟨g.efs.inode (count % 2 ^ 32), g.storeInode between id inode, ?_⟩
  rw [Inode.createFile, onDisk_bind_ok alloc,
    onDisk_bind_ok (onDisk_initialized inside .file), onDisk_bind_ok appended]
  rfl

end

/-! ## `create` -/

/-- The search of `create` leaves the disk as it is. -/
theorem onDisk_createSearch (inside : id < g.efs.inodeBitmap.maximum)
    {found : Option (BitVec 32)} :
    ((g.efs.inode id).modifyDiskInode fun rootInode => do
        BlockProg.assert rootInode.isDir
        let found ← Inode.findInodeId name rootInode
        return (found, rootInode)).onDisk [] disk = .ok (found, after) ↔
      (Inode.findInodeId name (g.inodeAt disk id)).onDisk
          [g.inodeBlock id] disk = .ok (found, disk) ∧
        after = disk := by
  have unchanged :
      Function.update disk (g.inodeBlock id)
          (BlockView.store (disk (g.inodeBlock id)) (id % 4 * 128)
            (g.inodeAt disk id)) =
        disk := by
    rw [inodeAt, DiskInode.store_load, Function.update_eq_self]
  rw [onDisk_modifyDiskInode inside]
  constructor
  · rintro ⟨inode, between, ran, afterEq⟩
    obtain ⟨_, asserted, checked, ran⟩ := onDisk_bind_eq_ok.mp ran
    obtain ⟨_, assertedEq⟩ := onDisk_assert_eq_ok checked
    obtain ⟨found', searched, search, ran⟩ := onDisk_bind_eq_ok.mp ran
    cases ran
    rw [assertedEq] at search
    have searchedEq := (readOnly_findInodeId name _).onDisk_eq search
    rw [searchedEq] at search afterEq
    exact ⟨search, afterEq.trans unchanged⟩
  · rintro ⟨search, rfl⟩
    refine ⟨g.inodeAt after id, after, ?_, unchanged.symm⟩
    obtain ⟨_, _, checked, _⟩ := onDisk_bind_eq_ok.mp search
    obtain ⟨isDir, _⟩ := onDisk_assert_eq_ok checked
    rw [isDir]
    show (Inode.findInodeId name (g.inodeAt after id) >>= _).onDisk _ _ = _
    rw [onDisk_bind_ok search]
    rfl

/--
A `create` that returned found the name and changed nothing, or did not find
it and created the file.
-/
theorem onDisk_create
    (inside : id < g.efs.inodeBitmap.maximum) {result : Option Inode} :
    (Inode.create g.efs (g.efs.inode id) name).onDisk [] disk =
        .ok (result, after) ↔
      ∃ found,
        (Inode.findInodeId name (g.inodeAt disk id)).onDisk
            [g.inodeBlock id] disk = .ok (found, disk) ∧
          (found.isSome ∧ result = none ∧ after = disk ∨
            found = none ∧
              ∃ newInode, result = some newInode ∧
                (Inode.createFile g.efs (g.efs.inode id) name).onDisk []
                  disk = .ok (newInode, after)) := by
  constructor
  · intro returned
    obtain ⟨found, searched, search, returned⟩ := onDisk_bind_eq_ok.mp returned
    obtain ⟨search, rfl⟩ := (onDisk_createSearch inside).mp search
    refine ⟨found, search, ?_⟩
    cases found with
    | some inodeId =>
      cases returned
      exact .inl ⟨rfl, rfl, rfl⟩
    | none =>
      obtain ⟨newInode, _, created, returned⟩ := onDisk_bind_eq_ok.mp returned
      cases returned
      exact .inr ⟨rfl, newInode, rfl, created⟩
  · rintro ⟨found, search, outcome⟩
    have searched := (onDisk_createSearch inside).mpr ⟨search, rfl⟩
    rw [Inode.create, onDisk_bind_ok searched]
    rcases outcome with ⟨isSome, rfl, rfl⟩ | ⟨rfl, newInode, rfl, created⟩
    · rw [if_pos isSome]
      rfl
    · show (Inode.createFile g.efs (g.efs.inode id) name >>= _).onDisk _ _ = _
      rw [onDisk_bind_ok created]
      rfl

end Geometry

end RCoreOS.EasyFs
