import RCoreOS.EasyFs.FileContents

/-!
# Every used block has one owner

The blocks of an inode are its data blocks, as `get_block_id` finds them, and
the index blocks that `total_blocks` counts.  After every session that writes
to files only, the blocks of the allocated inodes are all different and lie in
the data area, and the bits of the data bitmap are set exactly for them.

The root directory is a file that clients can write to.  A forged entry makes
`find` return an inode that was never allocated, and a write to that inode
takes blocks that no allocated inode owns.
-/

namespace RCoreOS.EasyFs

open Lib BlockProg Lib.FallibleRuns List DiskInode

/-! ## The blocks of an inode -/

namespace Slot

/-- The index blocks of a file with `count` data blocks. -/
def indexSlots (count : Nat) : List Slot :=
  (if 28 < count then [.indirect1] else []) ++
    if 156 < count then
      .indirect2 :: (List.range ((count - 156 + 127) / 128)).map .sub
    else []

/-- The slots of a file, data blocks first. -/
def slotsByKind (count : Nat) : List Slot :=
  (List.range count).map .data ++ indexSlots count

theorem nodup_slotsByKind (count : Nat) : (slotsByKind count).Nodup := by
  have datas : ((List.range count).map Slot.data).Nodup :=
    nodup_range.map fun _ _ equal => Slot.data.inj equal
  have subs (number : Nat) : ((List.range number).map Slot.sub).Nodup :=
    nodup_range.map fun _ _ equal => Slot.sub.inj equal
  have indexes : (indexSlots count).Nodup := by
    rw [indexSlots]
    split <;> split <;> simp [subs]
  refine datas.append indexes ?_
  intro slot isData isIndex
  obtain ⟨index, _, rfl⟩ := mem_map.mp isData
  rw [indexSlots] at isIndex
  split at isIndex <;> split at isIndex <;> simp at isIndex

theorem slotsByKind_subset (count : Nat) :
    slotsByKind count ⊆ slots count := by
  intro slot member
  rcases mem_append.mp member with isData | isIndex
  · obtain ⟨index, inside, rfl⟩ := mem_map.mp isData
    exact data_mem_slots.mpr (mem_range.mp inside)
  · rcases mem_append.mp isIndex with single | double
    · split at single
      · next more =>
          rw [mem_singleton.mp single]
          exact indirect1_mem_slots.mpr more
      · cases single
    · split at double
      · next most =>
          rcases mem_cons.mp double with rfl | sub
          · exact indirect2_mem_slots.mpr most
          · obtain ⟨index, inside, rfl⟩ := mem_map.mp sub
            have below := mem_range.mp inside
            exact sub_mem_slots.mpr (by omega)
      · cases double

theorem length_slotsByKind (count : Nat) :
    (slotsByKind count).length = blockCount count := by
  rw [slotsByKind, indexSlots, blockCount]
  split <;> split <;> simp <;> omega

/-- The two orders list the same slots. -/
theorem slotsByKind_perm (count : Nat) :
    (slotsByKind count).Perm (slots count) := by
  refine
    ((nodup_slotsByKind count).subperm
      (slotsByKind_subset count)).perm_of_length_le ?_
  rw [length_slots, length_slotsByKind]

end Slot

namespace DiskInode

variable {self : DiskInode} {disk : Disk}

/-- The index blocks that `total_blocks` counts. -/
def indexBlocks (self : DiskInode) (disk : Disk) : List Nat :=
  (if 28 < self.dataBlocks then [self.indirect1.toNat] else []) ++
    if 156 < self.dataBlocks then
      self.indirect2.toNat ::
        (List.range ((self.dataBlocks - 156 + 127) / 128)).map
          (entry (indexBlock (disk self.indirect2.toNat)))
    else []

/-- The blocks that `get_block_id` finds, and the index blocks. -/
def ownedBlocks (self : DiskInode) (disk : Disk) : List Nat :=
  (List.range self.dataBlocks).filterMap
      (fun index =>
        ((self.getBlockId index).onDisk [] disk).toOption.map
          fun found => found.1.toNat) ++
    self.indexBlocks disk

theorem indexBlocks_eq (self : DiskInode) (disk : Disk) :
    self.indexBlocks disk =
      (Slot.indexSlots self.dataBlocks).map (self.treeOf disk) := by
  rw [indexBlocks, Slot.indexSlots]
  split <;> split <;> simp [treeOf, secondTree, Function.comp_def]

/-- All data blocks are found. -/
theorem ownedBlocks_eq (limit : self.dataBlocks ≤ 16540) :
    self.ownedBlocks disk =
      (Slot.slotsByKind self.dataBlocks).map (self.treeOf disk) := by
  rw [ownedBlocks, indexBlocks_eq, Slot.slotsByKind, map_append, map_map]
  congr 1
  rw [← filterMap_eq_map]
  apply filterMap_congr
  intro index member
  obtain ⟨blockId, ran, blockEq⟩ :=
    onDisk_getBlockId (mem_range.mp member) limit
      fun slot _ _ => canLock_nil (self.treeOf disk slot)
  rw [ran]
  exact congrArg some blockEq

theorem ownedBlocks_perm (limit : self.dataBlocks ≤ 16540) :
    (self.ownedBlocks disk).Perm (self.blocks disk) := by
  rw [ownedBlocks_eq limit]
  exact (Slot.slotsByKind_perm self.dataBlocks).map _

end DiskInode

namespace Geometry

variable {g : Geometry} {state after : List Inode × Disk} {disk : Disk}
  {nodes : List Node} {entries : List DirEntry}

/-! ## Owned blocks of a consistent file system -/

/-- The inodes whose bit is set. -/
def allocatedInodes (g : Geometry) (disk : Disk) : List Nat :=
  (List.range g.efs.inodeBitmap.maximum).filter (g.efs.inodeBitmap.bit disk)

/-- The blocks of all allocated inodes. -/
def allOwnedBlocks (g : Geometry) (disk : Disk) : List Nat :=
  (g.allocatedInodes disk).flatMap fun id =>
    (g.inodeAt disk id).ownedBlocks disk

/-- Every used block has one owner, and is on the device. -/
structure BlocksOwned (g : Geometry) (disk : Disk) : Prop where
  counted :
    ∀ id ∈ g.allocatedInodes disk,
      ((g.inodeAt disk id).ownedBlocks disk).length =
        DiskInode.totalBlocks (g.inodeAt disk id).size.toNat
  distinct : (g.allOwnedBlocks disk).Nodup
  onDevice :
    ∀ block ∈ g.allOwnedBlocks disk,
      g.dataStart ≤ block ∧ block < g.totalBlocks
  used :
    ∀ n, n < g.efs.dataBitmap.maximum →
      (g.efs.dataBitmap.bit disk n = true ↔
        g.dataStart + n ∈ g.allOwnedBlocks disk)

variable {count : Nat}

section

variable (bits : g.InodeBits disk count)
  (inside : count ≤ g.efs.inodeBitmap.maximum)

include bits inside

theorem InodeBits.allocatedInodes_eq :
    g.allocatedInodes disk = List.range count := by
  obtain ⟨more, total⟩ := Nat.exists_eq_add_of_le inside
  have agree :
      (List.range g.efs.inodeBitmap.maximum).filter
          (g.efs.inodeBitmap.bit disk) =
        (List.range g.efs.inodeBitmap.maximum).filter
          fun n => decide (n < count) := by
    apply filter_congr
    intro n member
    exact bits n (mem_range.mp member)
  rw [allocatedInodes, agree, total, range_add, filter_append]
  have front :
      (List.range count).filter (fun n => decide (n < count)) =
        List.range count := by
    rw [filter_eq_self]
    intro n member
    exact decide_eq_true (mem_range.mp member)
  have back :
      ((List.range more).map (count + ·)).filter
          (fun n => decide (n < count)) = [] := by
    rw [filter_eq_nil_iff]
    intro n member
    obtain ⟨index, _, rfl⟩ := mem_map.mp member
    simp
  rw [front, back, append_nil]

theorem InodeBits.used_eq :
    g.efs.inodeBitmap.used disk = count := by
  rw [Bitmap.used, countP_eq_length_filter, ← allocatedInodes,
    bits.allocatedInodes_eq inside, length_range]

end

/-- The owned blocks are those of the nodes. -/
theorem Consistent.allOwnedBlocks_perm (consistent : g.Consistent disk nodes) :
    (g.allOwnedBlocks disk).Perm (nodes.flatMap Node.blocks) := by
  have represented (id : Nat) (inside : id < nodes.length) :=
    consistent.holding.represented id nodes[id]
      (getElem?_eq_getElem inside)
  have nodeBlocks :
      nodes.map Node.blocks =
        (List.range nodes.length).map fun id =>
          (g.inodeAt disk id).blocks disk := by
    apply ext_getElem
    · simp
    · intro id inside _
      rw [length_map] at inside
      simp only [getElem_map, getElem_range]
      exact (represented id inside).blocks.symm
  have allBlocks :
      nodes.flatMap Node.blocks =
        (List.range nodes.length).flatMap fun id =>
          (g.inodeAt disk id).blocks disk := by
    rw [flatMap_def, nodeBlocks, ← flatMap_def]
  rw [allOwnedBlocks,
    consistent.inodeBits.allocatedInodes_eq consistent.slots, allBlocks]
  apply List.Perm.flatMap_left
  intro id member
  exact ownedBlocks_perm
    (represented id (mem_range.mp member)).largest

/-- In a consistent file system every used block has one owner. -/
theorem Consistent.blocksOwned (consistent : g.Consistent disk nodes) :
    g.BlocksOwned disk := by
  have perm := consistent.allOwnedBlocks_perm
  have holding := consistent.holding
  have inArea {block : Nat} (member : block ∈ g.allOwnedBlocks disk) :
      ∃ node ∈ nodes, block ∈ node.blocks :=
    mem_flatMap.mp (perm.mem_iff.mp member)
  refine ⟨?_, perm.nodup_iff.mpr holding.nodup_blocks, ?_, ?_⟩
  · intro id member
    rw [consistent.inodeBits.allocatedInodes_eq consistent.slots,
      mem_range] at member
    have rep := holding.represented id nodes[id] (getElem?_eq_getElem member)
    rw [(ownedBlocks_perm rep.largest).length_eq,
      DiskInode.blocks, length_map, Slot.length_slots]
    rfl
  · intro block member
    obtain ⟨node, nodeMember, owns⟩ := inArea member
    exact ⟨(holding.inArea node nodeMember block owns).1,
      consistent.onDevice node nodeMember block owns⟩
  · intro n inside
    constructor
    · intro isSet
      have bitEq : g.dataBit disk (g.dataStart + n) = true := by
        rw [dataBit, Nat.add_sub_cancel_left, isSet]
      exact perm.mem_iff.mpr
        (mem_flatMap.mpr (consistent.owner _ (inArea_add inside) bitEq))
    · intro member
      obtain ⟨node, nodeMember, owns⟩ := inArea member
      have isSet := holding.owned node nodeMember _ owns
      rwa [dataBit, Nat.add_sub_cancel_left] at isSet

/-! ## Sessions that write to files -/

/--
A consistent file system whose only directory is the root, with entries for
allocated inodes; the client has allocated inodes.
-/
structure Tidy
    (g : Geometry) (handles : List Inode) (disk : Disk) (nodes : List Node)
    (root : Node) (entries : List DirEntry) : Prop where
  consistent : g.Consistent disk nodes
  rootAt : nodes[0]? = some root
  directory : g.Directory root entries
  pointers : ∀ entry ∈ entries, entry.inodeId.toNat < nodes.length
  files : ∀ id node, id ≠ 0 → nodes[id]? = some node → node.kind = .file
  obtained : ∀ inode ∈ handles, ∃ id < nodes.length, inode = g.efs.inode id

/-- A tidy file system, with the inodes and the disk of a session. -/
def IsTidy (g : Geometry) (state : List Inode × Disk) : Prop :=
  ∃ nodes root entries, g.Tidy state.1 state.2 nodes root entries

/-- A tidy file system with these entries in the root directory. -/
def TidyWith (g : Geometry) (state : List Inode × Disk)
    (entries : List DirEntry) : Prop :=
  ∃ nodes root, g.Tidy state.1 state.2 nodes root entries

theorem TidyWith.isTidy (tidyWith : g.TidyWith state entries) :
    g.IsTidy state := by
  obtain ⟨nodes, root, tidy⟩ := tidyWith
  exact ⟨nodes, root, entries, tidy⟩

/-- What a call on an inode may leave as the entries of the root directory. -/
inductive EntriesAfter (entries : List DirEntry) :
    Nat → Call → List DirEntry → Prop where
  | kept (id : Nat) (call : Call) : EntriesAfter entries id call entries
  | cleared : EntriesAfter entries 0 .clear []
  | created {name : String} {inodeId : BitVec 32} {entry : DirEntry}
      (made : DirEntry.new name inodeId = .ok entry) :
      EntriesAfter entries 0 (.create name) (entries ++ [entry])

theorem Fresh.tidyWith (fresh : g.Fresh disk) :
    g.TidyWith ([g.efs.rootInode], disk) [] := by
  refine ⟨_, Node.empty .directory, fresh.consistent, rfl,
    ⟨rfl, rfl, by simp [Node.empty]⟩, by simp, ?_, ?_⟩
  · intro id node notRoot present
    have inside := (List.getElem?_eq_some_iff.mp present).1
    rw [length_singleton] at inside
    omega
  · intro inode member
    exact ⟨0, Nat.one_pos, mem_singleton.mp member⟩

section Steps

variable {handles : List Inode} {root node : Node} {id : Nat}
  {last : Disk}

section

variable (tidy : g.Tidy handles disk nodes root entries)

include tidy

/-- Only the root is a directory. -/
theorem Tidy.root_of_directory (present : nodes[id]? = some node)
    (kind : node.kind = .directory) :
    id = 0 := by
  by_contra notRoot
  rw [tidy.files id node notRoot present] at kind
  cases kind

/-- The client may get inodes that are allocated. -/
theorem Tidy.obtain_ {more : List Inode}
    (allocated :
      ∀ inode ∈ more, ∃ id < nodes.length, inode = g.efs.inode id) :
    g.TidyWith (handles ++ more, disk) entries := by
  refine ⟨nodes, root, tidy.consistent, tidy.rootAt, tidy.directory,
    tidy.pointers, tidy.files, ?_⟩
  intro inode member
  rcases mem_append.mp member with old | new
  · exact tidy.obtained inode old
  · exact allocated inode new

theorem Tidy.unchanged :
    g.TidyWith (handles ++ [], disk) entries :=
  tidy.obtain_ fun _ member => absurd member not_mem_nil

/-- Files may be replaced. -/
theorem Tidy.setFile (notRoot : id ≠ 0) {new : Node}
    (isFile : new.kind = .file)
    (consistent : g.Consistent last (nodes.set id new)) :
    g.TidyWith (handles ++ [], last) entries := by
  refine ⟨nodes.set id new, root, consistent, ?_, tidy.directory, ?_, ?_, ?_⟩
  · rw [getElem?_set_ne notRoot, tidy.rootAt]
  · intro entry member
    rw [length_set]
    exact tidy.pointers entry member
  · intro other node otherNotRoot present
    by_cases same : other = id
    · have inside := (List.getElem?_eq_some_iff.mp present).1
      rw [length_set] at inside
      rw [same, getElem?_set_self (same ▸ inside)] at present
      rw [← Option.some.inj present, isFile]
    · rw [getElem?_set_ne (Ne.symm same)] at present
      exact tidy.files other node otherNotRoot present
  · rw [length_set, append_nil]
    exact tidy.obtained

end

variable {name : String}

section

variable (tidy : g.Tidy handles disk nodes root entries)

include tidy

/-- A new file gets an entry behind the others. -/
theorem Tidy.createFile {newInode : Inode}
    (created :
      (Inode.createFile g.efs (g.efs.inode 0) name).onDisk [] disk =
        .ok (newInode, last))
    (within : g.efs.dataBitmap.used last ≤ g.dataAreaBlocks)
    (few : g.efs.inodeBitmap.used last ≤ 2 ^ 32) :
    ∃ entry,
      DirEntry.new name (BitVec.ofNat 32 nodes.length) = .ok entry ∧
        newInode = g.efs.inode entry.inodeId.toNat ∧
        g.TidyWith (handles ++ [newInode], last) (entries ++ [entry]) := by
  have consistent := tidy.consistent
  have rootInside := (List.getElem?_eq_some_iff.mp tidy.rootAt).1
  have small : nodes.length < 2 ^ 32 := by
    have ordered : nodes.length % 2 ^ 32 ≤ nodes.length := Nat.mod_le _ _
    have inside :
        0 < (place nodes (nodes.length % 2 ^ 32) .file).length := by
      rw [length_place ordered]
      omega
    obtain ⟨_, _, _, _, done⟩ :=
      consistent.toRepresents.createFile_returned consistent.inodeBits
        ordered (getElem?_eq_getElem inside) created
    rw [done.inodeBits.used_eq done.room] at few
    omega
  have ordered : nodes.length % 2 ^ 32 = nodes.length := Nat.mod_eq_of_lt small
  have placed :
      (place nodes (nodes.length % 2 ^ 32) .file)[0]? = some root := by
    rw [ordered, place_length, getElem?_append_left rootInside, tidy.rootAt]
  obtain ⟨rfl, entry, v, made, done⟩ :=
    consistent.toRepresents.createFile_returned consistent.inodeBits
      (Nat.le_of_eq ordered) placed created
  have inodeId : entry.inodeId.toNat = nodes.length := by
    rw [DirEntry.inodeId_of_new made, BitVec.toNat_ofNat, Nat.mod_mod, ordered]
  generalize newEq :
    root.write (root.content.length / 32 * 32) entry.asBytes v = new
  have directory : g.Directory new (entries ++ [entry]) := by
    rw [← newEq]
    exact tidy.directory.append entry done.limit
      (done.taken.onDevice within)
  have grown := consistent.created tidy.rootAt small done within
  rw [newEq] at grown
  have length :
      (nodes.set 0 new ++ [Node.empty .file]).length =
        nodes.length + 1 := by
    rw [length_append, length_set, length_singleton]
  rw [ordered] at made
  refine ⟨entry, made, by rw [inodeId, ordered], _, new, grown, ?_,
    directory, ?_, ?_, ?_⟩
  · rw [getElem?_append_left (by rw [length_set]; omega),
      getElem?_set_self rootInside]
  · intro other member
    rw [length]
    rcases mem_append.mp member with old | last
    · have below := tidy.pointers other old
      omega
    · rw [mem_singleton.mp last, inodeId]
      omega
  · intro other file notRoot at_
    by_cases old : other < nodes.length
    · rw [getElem?_append_left (by rw [length_set]; omega),
        getElem?_set_ne (Ne.symm notRoot)] at at_
      exact tidy.files other file notRoot at_
    · rw [getElem?_append_right (by rw [length_set]; omega)]
        at at_
      have member := mem_of_getElem? at_
      rw [mem_singleton.mp member]
      rfl
  · intro inode member
    rw [length]
    rcases mem_append.mp member with old | new
    · obtain ⟨other, below, equal⟩ := tidy.obtained inode old
      exact ⟨other, by omega, equal⟩
    · exact ⟨nodes.length % 2 ^ 32, by omega, mem_singleton.mp new⟩

section

variable (present : nodes[id]? = some node)

include present

variable {result : Option Inode}

theorem Tidy.create
    (returned :
      (Inode.create g.efs (g.efs.inode id) name).onDisk [] disk =
        .ok (result, last))
    (within : g.efs.dataBitmap.used last ≤ g.dataAreaBlocks)
    (few : g.efs.inodeBitmap.used last ≤ 2 ^ 32) :
    ∃ entriesNow,
      EntriesAfter entries id (.create name) entriesNow ∧
        g.TidyWith (handles ++ result.toList, last) entriesNow := by
  have consistent := tidy.consistent
  obtain ⟨found, searched, outcome⟩ :=
    (onDisk_create (consistent.inside present)).mp returned
  have isRoot : id = 0 :=
    tidy.root_of_directory present
      (consistent.holding.findInodeId_returned present searched)
  subst isRoot
  rcases outcome with ⟨_, rfl, rfl⟩ | ⟨_, newInode, rfl, created⟩
  · exact ⟨entries, .kept _ _, tidy.unchanged⟩
  · obtain ⟨entry, made, _, tidyNow⟩ := tidy.createFile created within few
    exact ⟨_, .created made, tidyNow⟩

theorem Tidy.clear
    (returned :
      (Inode.clear g.efs (g.efs.inode id)).onDisk [] disk = .ok ((), last)) :
    ∃ entriesNow,
      EntriesAfter entries id .clear entriesNow ∧
        g.TidyWith (handles ++ [], last) entriesNow := by
  obtain ⟨_, ran, consistent⟩ := tidy.consistent.onDisk_clear present
  rw [ran] at returned
  obtain ⟨_, rfl⟩ := Prod.mk.inj (Except.ok.inj returned)
  by_cases isRoot : id = 0
  · subst isRoot
    rw [tidy.rootAt] at present
    cases present
    have rootInside := (List.getElem?_eq_some_iff.mp tidy.rootAt).1
    refine ⟨[], .cleared, _, Node.empty root.kind, consistent,
      getElem?_set_self rootInside,
      ⟨tidy.directory.kind, rfl, by simp [Node.empty]⟩, by simp, ?_, ?_⟩
    · intro other file notRoot at_
      rw [getElem?_set_ne (Ne.symm notRoot)] at at_
      exact tidy.files other file notRoot at_
    · rw [length_set, append_nil]
      exact tidy.obtained
  · refine ⟨entries, .kept _ _, tidy.setFile isRoot ?_ consistent⟩
    exact tidy.files id node isRoot present

/-- `find` returns inodes that have an entry. -/
theorem Tidy.find
    (returned :
      (Inode.find g.efs (g.efs.inode id) name).onDisk [] disk =
        .ok (result, last)) :
    g.TidyWith (handles ++ result.toList, last) entries := by
  have represents := tidy.consistent.toRepresents
  have isRoot : id = 0 :=
    tidy.root_of_directory present
      (represents.find_returned present returned)
  subst isRoot
  rw [represents.onDisk_find tidy.rootAt tidy.directory] at returned
  cases searched : lookup name entries with
  | error fault =>
    rw [searched] at returned
    cases returned
  | ok found =>
    rw [searched] at returned
    obtain ⟨rfl, rfl⟩ := Prod.mk.inj (Except.ok.inj returned)
    apply tidy.obtain_
    intro inode member
    rw [Option.mem_toList, Option.map_eq_some_iff] at member
    obtain ⟨inodeId, rfl, rfl⟩ := member
    obtain ⟨entry, entryMember, inodeIdEq⟩ := mem_of_lookup searched
    exact ⟨inodeId.toNat, inodeIdEq ▸ tidy.pointers entry entryMember, rfl⟩

/-- A call that returned keeps a file system tidy. -/
theorem Tidy.perform {call : Call}
    {response : Response}
    (returned :
      (call.perform g.efs (g.efs.inode id)).onDisk [] disk =
        .ok (response, last))
    (within : g.efs.dataBitmap.used last ≤ g.dataAreaBlocks)
    (few : g.efs.inodeBitmap.used last ≤ 2 ^ 32)
    (toFile : ∀ offset buf, call = .writeAt offset buf → id ≠ 0) :
    ∃ entriesNow,
      EntriesAfter entries id call entriesNow ∧
        g.TidyWith (handles ++ response.inodes, last) entriesNow := by
  cases call with
  | create name =>
    obtain ⟨result, _, created, rest⟩ := onDisk_bind_eq_ok.mp returned
    obtain ⟨rfl, rfl⟩ := Prod.mk.inj (Except.ok.inj rest)
    exact tidy.create present created within few
  | find name =>
    obtain ⟨result, _, searched, rest⟩ := onDisk_bind_eq_ok.mp returned
    obtain ⟨rfl, rfl⟩ := Prod.mk.inj (Except.ok.inj rest)
    exact ⟨entries, .kept _ _, tidy.find present searched⟩
  | ls =>
    obtain ⟨names, _, listed, rest⟩ := onDisk_bind_eq_ok.mp returned
    obtain ⟨rfl, rfl⟩ := Prod.mk.inj (Except.ok.inj rest)
    rw [(readOnly_ls _).onDisk_eq listed]
    exact ⟨entries, .kept _ _, tidy.unchanged⟩
  | readAt offset buf =>
    obtain ⟨⟨count, read⟩, _, ran, rest⟩ := onDisk_bind_eq_ok.mp returned
    obtain ⟨rfl, rfl⟩ := Prod.mk.inj (Except.ok.inj rest)
    rw [(readOnly_readAt _ _ _).onDisk_eq ran]
    exact ⟨entries, .kept _ _, tidy.unchanged⟩
  | writeAt offset buf =>
    obtain ⟨written, _, wrote, rest⟩ := onDisk_bind_eq_ok.mp returned
    obtain ⟨rfl, rfl⟩ := Prod.mk.inj (Except.ok.inj rest)
    obtain ⟨_, _, _, v, done⟩ :=
      tidy.consistent.toRepresents.writeAt_returned present wrote
    have notRoot := toFile offset buf rfl
    refine ⟨entries, .kept _ _, tidy.setFile notRoot ?_
      (tidy.consistent.wrote present done within)⟩
    exact tidy.files id node notRoot present
  | clear =>
    obtain ⟨_, _, cleared, rest⟩ := onDisk_bind_eq_ok.mp returned
    obtain ⟨rfl, rfl⟩ := Prod.mk.inj (Except.ok.inj rest)
    exact tidy.clear present cleared

end

end

end Steps

/-- The calls that a tidy file system allows. -/
def KeepsTidy (g : Geometry) (after : List Inode × Disk)
    (event : Option Event) : Prop :=
  g.efs.dataBitmap.used after.2 ≤ g.dataAreaBlocks ∧
    g.efs.inodeBitmap.used after.2 ≤ 2 ^ 32 ∧
    ∀ made offset buf, event = some made →
      made.call = .writeAt offset buf → made.inode ≠ g.efs.rootInode

variable {op : Op} {event : Option Event}

/-- A step that returned made a call on an allocated inode, or none. -/
theorem TidyWith.step (tidyWith : g.TidyWith state entries)
    (returned : op.onDisk g.efs state = .ok (after, event))
    (keeps : g.KeepsTidy after event) :
    (event = none ∧ after = state) ∨
      ∃ id made entriesNow,
        event = some made ∧ made.inode = g.efs.inode id ∧
          made.call = op.call ∧
          EntriesAfter entries id op.call entriesNow ∧
          g.TidyWith after entriesNow := by
  obtain ⟨nodes, root, tidy⟩ := tidyWith
  obtain ⟨within, few, toFiles⟩ := keeps
  rcases Op.onDisk_eq_ok.mp returned with
    ⟨_, eventEq, handlesEq, diskEq⟩ |
      ⟨inode, response, handleAt, performed, eventEq, handlesEq⟩
  · exact .inl ⟨eventEq, Prod.ext handlesEq diskEq⟩
  · obtain ⟨id, inside, rfl⟩ := tidy.obtained inode (mem_of_getElem? handleAt)
    have afterEq : after = (state.1 ++ response.inodes, after.2) :=
      Prod.ext handlesEq rfl
    have toFile :
        ∀ offset buf, op.call = .writeAt offset buf → id ≠ 0 := by
      rintro offset buf isWrite rfl
      exact toFiles _ offset buf eventEq isWrite rfl
    obtain ⟨entriesNow, entriesAfter, tidyNow⟩ :=
      tidy.perform (getElem?_eq_getElem inside) performed within few
        toFile
    rw [← afterEq] at tidyNow
    exact .inr ⟨id, _, entriesNow, eventEq, rfl, rfl, entriesAfter, tidyNow⟩

theorem IsTidy.step (isTidy : g.IsTidy state)
    (returned : op.onDisk g.efs state = .ok (after, event))
    (keeps : g.KeepsTidy after event) :
    g.IsTidy after := by
  obtain ⟨nodes, root, entries, tidy⟩ := isTidy
  rcases TidyWith.step ⟨nodes, root, tidy⟩ returned keeps with
    ⟨_, rfl⟩ | ⟨_, _, _, _, _, _, _, tidyNow⟩
  · exact ⟨nodes, root, entries, tidy⟩
  · exact tidyNow.isTidy

/--
Along the session no more blocks are used than the data area has, and no more
than `2 ^ 32` inodes.
-/
def WithinLimits (g : Geometry) (device : BlockDevice) (ops : List Op) :
    Prop :=
  ∀ first rest outcome state, ops = first ++ rest →
    (newSession g.totalBlocks g.inodeBitmapBlocks first).run
        (CacheState.start device) = .ok (outcome, state) →
      g.efs.dataBitmap.used state.view ≤ g.dataAreaBlocks ∧
        g.efs.inodeBitmap.used state.view ≤ 2 ^ 32

section Reached

variable {device : BlockDevice} {ops : List Op}
  {outcome : EasyFileSystem × List (Option Event) × List Inode}
  {state : CacheState}

/-- What the steps of sessions within the limits that write to files keep. -/
theorem session_keeps {Invariant : List Inode × Disk → Prop}
    (initially :
      ∀ fresh, g.Fresh fresh → Invariant ([g.efs.rootInode], fresh))
    (keep :
      ∀ {state after : List Inode × Disk} {op : Op} {event : Option Event},
        op ∈ ops → Invariant state →
          op.onDisk g.efs state = .ok (after, event) →
            g.KeepsTidy after event → Invariant after)
    (reached :
      (newSession g.totalBlocks g.inodeBitmapBlocks ops).run
          (CacheState.start device) =
        .ok (outcome, state))
    (within : g.WithinLimits device ops)
    (toFiles :
      ∀ event offset buf, some event ∈ outcome.2.1 →
        event.call = .writeAt offset buf → event.inode ≠ g.efs.rootInode) :
    Invariant (outcome.2.2, state.view) := by
  obtain ⟨fresh, isFresh, onCache⟩ := g.run_newSession device
  obtain ⟨_, ran⟩ := (onCache ops outcome state.view).mp ⟨state, reached, rfl⟩
  have keeps :
      ∀ first op rest, ops = first ++ op :: rest →
        ∀ next earlier event later,
          FallibleRuns.run (Op.onDisk g.efs) ([g.efs.rootInode], fresh)
              (first ++ [op]) =
              .ok (next, earlier ++ [event]) →
            outcome.2.1 = earlier ++ event :: later →
              op ∈ ops ∧ g.KeepsTidy next event := by
    intro first op rest split next earlier event later firstRan shown
    obtain ⟨between, firstReached, viewEq⟩ :=
      (onCache (first ++ [op]) (g.efs, earlier ++ [event], next.1)
        next.2).mpr ⟨rfl, firstRan⟩
    obtain ⟨blocks, inodes⟩ :=
      within (first ++ [op]) rest _ between (by rw [split]; simp)
        firstReached
    rw [viewEq] at blocks inodes
    refine ⟨by rw [split]; simp, blocks, inodes, ?_⟩
    rintro made offset buf rfl
    exact toFiles made offset buf (by rw [shown]; simp)
  exact run_invariant_along
    (fun {_ after op event} holds stepEq
        (fine : op ∈ ops ∧ g.KeepsTidy after event) =>
      keep fine.1 holds stepEq fine.2)
    keeps (initially fresh isFresh) ran

/-- A session within the limits that writes to files leaves a tidy file
system. -/
theorem isTidy_of_session
    (reached :
      (newSession g.totalBlocks g.inodeBitmapBlocks ops).run
          (CacheState.start device) =
        .ok (outcome, state))
    (within : g.WithinLimits device ops)
    (toFiles :
      ∀ event offset buf, some event ∈ outcome.2.1 →
        event.call = .writeAt offset buf → event.inode ≠ g.efs.rootInode) :
    g.IsTidy (outcome.2.2, state.view) :=
  session_keeps (fun _ isFresh => isFresh.tidyWith.isTidy)
    (fun _ holds stepEq fine => IsTidy.step holds stepEq fine)
    reached within toFiles

end Reached

/--
Every used block has one owner, after every session that stays within the
limits and in which `write_at` is not called on the root directory.
-/
theorem blocks_have_one_owner
    (g : Geometry) (device : BlockDevice) (ops : List Op)
    (outcome : EasyFileSystem × List (Option Event) × List Inode)
    (state : CacheState)
    (reached :
      (newSession g.totalBlocks g.inodeBitmapBlocks ops).run
          (CacheState.start device) =
        .ok (outcome, state))
    (within : g.WithinLimits device ops)
    (toFiles :
      ∀ event offset buf, some event ∈ outcome.2.1 →
        event.call = .writeAt offset buf → event.inode ≠ g.efs.rootInode) :
    g.BlocksOwned state.view := by
  obtain ⟨nodes, root, entries, tidy⟩ :=
    isTidy_of_session reached within toFiles
  exact tidy.consistent.blocksOwned

variable {ops : List Op}

/-- The calls of an allowed session leave enough room. -/
theorem AllowedSession.fits
    (allowed : g.AllowedSession ops) : (g.reference ops).1.Fits g := by
  cases ops using List.reverseRecOn with
  | nil =>
    have empty : FileTable.initial.blocks = 0 := by decide
    refine ⟨?_, Nat.le_trans (Nat.le_of_eq empty) (Nat.zero_le _)⟩
    have positive := g.positive
    show 1 ≤ g.inodeBitmapBlocks * 4096
    omega
  | append_singleton ops last =>
    have lastAllowed := allowed.split
    rw [reference, totalRun_concat]
    exact lastAllowed.2

/-- An allowed session within the capacity of the root directory stays within
the limits. -/
theorem AllowedSession.withinLimits (device : BlockDevice)
    (allowed : g.AllowedSession ops)
    (capacity : (g.reference ops).1.files.length ≤ 264640) :
    g.WithinLimits device ops := by
  intro first rest outcome state split reached
  rw [split] at allowed capacity
  have firstAllowed : g.AllowedSession first := allowed.first
  obtain ⟨state', reached', nodes, shows_⟩ :=
    newSession_returns device firstAllowed
      (Nat.le_trans (g.reference_files_mono first rest) capacity)
  rw [reached'] at reached
  obtain ⟨_, rfl⟩ := Prod.mk.inj (Except.ok.inj reached)
  refine ⟨?_, ?_⟩
  · rw [shows_.used_eq]
    exact firstAllowed.fits.2
  · rw [shows_.consistent.inodeBits.used_eq shows_.consistent.slots,
      shows_.length_nodes]
    have few := shows_.files_le
    omega

theorem blocks_have_one_owner_small :
    ∃ outcome state,
      (newSession 1037 1 smallOps).run
            (CacheState.start ⟨fun _ => Lib.Bytes.zeros⟩) =
          .ok (outcome, state) ∧
        small.BlocksOwned state.view := by
  have allowed : small.AllowedSession smallOps := by decide +kernel
  have capacity : (small.reference smallOps).1.files.length ≤ 264640 := by
    decide +kernel
  obtain ⟨state, returned, _⟩ :=
    newSession_returns ⟨fun _ => Lib.Bytes.zeros⟩ allowed capacity
  refine ⟨_, state, returned,
    blocks_have_one_owner small ⟨fun _ => Lib.Bytes.zeros⟩ smallOps _ state
      returned (allowed.withinLimits _ capacity) ?_⟩
  have events :
      ∀ event ∈ (small.outcome smallOps).2.1,
        ∀ made, event = some made → made.inode = small.efs.rootInode →
          made.call = .create "a" ∨ made.call = .create "b" := by
    decide +kernel
  intro event offset buf member isWrite isRoot
  rcases events _ member event rfl isRoot with create | create <;>
    · rw [create] at isWrite
      cases isWrite

/-! ## A forged directory entry -/

/-- The first block of an empty node is written. -/
theorem Represents.write_first_block
    (represents : g.Represents disk nodes) {id : Nat} {node : Node}
    (present : nodes[id]? = some node) (empty : node.content = [])
    {buf : List UInt8} (positive : 0 < buf.length) (small : buf.length ≤ 512)
    (room :
      g.efs.dataBitmap.used disk + 1 ≤ g.efs.dataBitmap.maximum) :
    ∃ v last,
      (Inode.writeAt g.efs (g.efs.inode id) 0 buf).onDisk [] disk =
          .ok (buf.length, last) ∧
        g.Wrote disk nodes id node 0 buf v last ∧ v.length = 1 := by
  have stop : node.writeStop 0 buf = buf.length := by
    rw [Node.writeStop, empty, length_nil]
    omega
  have one : dataCount buf.length = 1 := by
    rw [dataCount]
    omega
  have noBlocks : node.blocks = [] := by
    have length :=
      (represents.holding.represented id node present).length_blocks
    rw [empty] at length
    exact length_eq_zero_iff.mp length
  have enough : g.Enough disk node ((0 + buf.length) % 2 ^ 32) := by
    rw [Nat.zero_add, Nat.mod_eq_of_lt (by omega)]
    refine ⟨by omega, ?_⟩
    rw [one, empty]
    exact room
  obtain ⟨written, last, ran⟩ :=
    represents.writeAt_returns present enough (by rw [stop]; exact positive)
  obtain ⟨_, _, writtenEq, v, wrote⟩ := represents.writeAt_returned present ran
  rw [writtenEq, stop, Nat.sub_zero] at ran
  refine ⟨v, last, ran, wrote, ?_⟩
  have inside := (List.getElem?_eq_some_iff.mp present).1
  have length :=
    (wrote.represents.holding.represented id _
      (getElem?_set_self inside)).length_blocks
  have blocks : (node.write 0 buf v).blocks = v := by
    rw [Node.write, noBlocks, nil_append]
  have content : (node.write 0 buf v).content.length = buf.length := by
    obtain ⟨_, shape⟩ := @Node.shape_write node 0 buf v (by omega)
    obtain ⟨_, contentEq⟩ := Prod.mk.inj shape
    have padded := Segments.length_rightpad node.content (0 + buf.length) 0
    rw [empty, length_nil] at padded
    rw [contentEq, empty, Segments.length_overwrite (by omega), padded]
    omega
  rw [blocks, content, one] at length
  exact length

/-- An entry for the inode with id 1. -/
def forgedEntry : DirEntry := DirEntry.of "a" 1

/-- A write to the root makes `find` return an inode that nobody allocated,
and a write to that inode takes a block. -/
def forgedOps : List Op :=
  [⟨0, .writeAt 0 forgedEntry.asBytes⟩, ⟨0, .find "a"⟩, ⟨1, .writeAt 0 [1]⟩]

/-- In a new file system the inode with id 1 is an empty file, but is not
allocated. -/
theorem Fresh.phantom (fresh : g.Fresh disk)
    (more : 1 < g.efs.inodeBitmap.maximum) :
    g.Represents disk [Node.empty .directory, Node.empty .file] := by
  have placed := fresh.represents.initialized more (Nat.le_refl 1) .file
  rw [← fresh.inodes 1 Nat.one_pos more, storeInode, inodeAt,
    store_load, Function.update_eq_self] at placed
  exact placed

/-- No block of a new file system is used. -/
theorem Fresh.used_eq (fresh : g.Fresh disk) :
    g.efs.dataBitmap.used disk = 0 :=
  fresh.consistent.used_eq

/-- A used block that belongs to an inode without its bit. -/
theorem Represents.not_blocksOwned {first second : Node} {block : Nat}
    (represents : g.Represents disk [first, second])
    (bits : g.InodeBits disk 1) (owns : block ∈ second.blocks) :
    ¬ g.BlocksOwned disk := by
  intro owned
  have holding := represents.holding
  obtain ⟨lower, upper⟩ := holding.inArea second (by simp) block owns
  have isSet := holding.owned second (by simp) block owns
  have member := (owned.used (block - g.dataStart) (by omega)).mp isSet
  have one : 1 ≤ g.efs.inodeBitmap.maximum :=
    Nat.le_trans (Nat.le_add_left 1 1) represents.slots
  rw [allOwnedBlocks, bits.allocatedInodes_eq one,
    Nat.add_sub_cancel' lower] at member
  obtain ⟨id, idMember, inFirst⟩ := mem_flatMap.mp member
  have isRoot : id = 0 := Nat.lt_one_iff.mp (mem_range.mp idMember)
  subst isRoot
  have rep := holding.represented 0 first rfl
  rw [(ownedBlocks_perm rep.largest).mem_iff, rep.blocks] at inFirst
  exact holding.apart 0 1 first second (by decide) rfl rfl block inFirst owns

/-- What the three calls do to a new file system. -/
theorem Fresh.forged (fresh : g.Fresh disk)
    (more : 1 < g.efs.inodeBitmap.maximum) (room : 2 ≤ g.dataAreaBlocks) :
    ∃ between last wrote found again,
      (Op.onDisk g.efs ([g.efs.rootInode], disk)
            ⟨0, .writeAt 0 forgedEntry.asBytes⟩ =
          .ok (([g.efs.rootInode], between), wrote)) ∧
        (Op.onDisk g.efs ([g.efs.rootInode], between) ⟨0, .find "a"⟩ =
          .ok (([g.efs.rootInode, g.efs.inode 1], between), found)) ∧
        (Op.onDisk g.efs ([g.efs.rootInode, g.efs.inode 1], between)
            ⟨1, .writeAt 0 [1]⟩ =
          .ok (([g.efs.rootInode, g.efs.inode 1], last), again)) ∧
        g.efs.dataBitmap.used between = 1 ∧
        g.efs.dataBitmap.used last = 2 ∧
        g.InodeBits between 1 ∧ g.InodeBits last 1 ∧
        ¬ g.BlocksOwned last := by
  obtain ⟨_, _, _, _, enough, _⟩ := g.regions
  have unused := fresh.used_eq
  have phantom := fresh.phantom more
  have entryLength : forgedEntry.asBytes.length = 32 :=
    DirEntry.length_asBytes forgedEntry
  obtain ⟨v, between, wroteRan, wrote, one⟩ :=
    phantom.write_first_block
      (rfl : [Node.empty .directory, Node.empty .file][0]? = some _) rfl
      (by rw [entryLength]; decide) (by rw [entryLength]; decide)
      (by rw [unused, dataBitmap_maximum]; omega)
  have usedBetween : g.efs.dataBitmap.used between = 1 := by
    rw [wrote.taken.used, unused, one]
  have bitsBetween := fresh.inodeBits.congr wrote.inodeBitmap
  obtain ⟨root, rootEq⟩ :
      ∃ root, (Node.empty .directory).write 0 forgedEntry.asBytes v = root :=
    ⟨_, rfl⟩
  have represents : g.Represents between [root, Node.empty .file] := by
    rw [← rootEq]
    exact wrote.represents
  have directory : g.Directory root [forgedEntry] := by
    have empty : g.Directory (Node.empty .directory) [] :=
      ⟨rfl, rfl, by simp [Node.empty]⟩
    rw [← rootEq]
    exact empty.append forgedEntry (by decide)
      (wrote.taken.onDevice (by rw [usedBetween]; omega))
  have searched : lookup "a" [forgedEntry] = .ok (some 1) :=
    lookup_entriesFrom "a" 1 ["a"] (by decide +kernel)
  have findRan :=
    represents.onDisk_find (rfl : [root, _][0]? = _) directory "a"
  rw [searched] at findRan
  obtain ⟨w, last, againRan, again, oneMore⟩ :=
    represents.write_first_block
      (rfl : [root, Node.empty .file][1]? = some (Node.empty .file)) rfl
      (by decide : 0 < [(1 : UInt8)].length) (by decide)
      (by rw [usedBetween, dataBitmap_maximum]; omega)
  refine ⟨between, last, _, _, _,
    Op.onDisk_eq_ok.mpr (.inr ⟨_, .wrote 32, rfl, ?_, rfl, rfl⟩),
    Op.onDisk_eq_ok.mpr
      (.inr ⟨_, .inode (some (g.efs.inode 1)), rfl, ?_, rfl, rfl⟩),
    Op.onDisk_eq_ok.mpr (.inr ⟨_, .wrote 1, rfl, ?_, rfl, rfl⟩),
    usedBetween, ?_, bitsBetween, ?_, ?_⟩
  · rw [entryLength] at wroteRan
    exact onDisk_bind_ok wroteRan _
  · exact onDisk_bind_ok findRan _
  · exact onDisk_bind_ok againRan _
  · rw [again.taken.used, usedBetween, oneMore]
  · exact bitsBetween.congr again.inodeBitmap
  · obtain ⟨block, blockEq⟩ := length_eq_one_iff.mp oneMore
    refine again.represents.not_blocksOwned
      (bitsBetween.congr again.inodeBitmap) (?_ : block ∈ _)
    rw [blockEq]
    exact mem_singleton.mpr rfl

/--
The session with the forged entry returns and stays within the limits, but in
the end a block is used that no allocated inode owns.
-/
theorem forged_entry_takes_block :
    ∃ outcome state,
      (newSession 1037 1 forgedOps).run
            (CacheState.start ⟨fun _ => Lib.Bytes.zeros⟩) =
          .ok (outcome, state) ∧
        small.WithinLimits ⟨fun _ => Lib.Bytes.zeros⟩ forgedOps ∧
        ¬ small.BlocksOwned state.view := by
  obtain ⟨fresh, isFresh, onCache⟩ :=
    small.run_newSession ⟨fun _ => Lib.Bytes.zeros⟩
  obtain ⟨between, last, wrote, found, again, wroteRan, findRan, againRan,
    usedBetween, usedLast, bitsBetween, bitsLast, notOwned⟩ :=
    isFresh.forged (by decide) (by decide)
  have runEnd :=
    run_cons_eq_ok.mpr
      ⟨_, _, [], againRan, (rfl : FallibleRuns.run _ _ [] = _), rfl⟩
  have runAll :
      FallibleRuns.run (Op.onDisk small.efs) ([small.efs.rootInode], fresh)
          forgedOps =
        .ok (([small.efs.rootInode, small.efs.inode 1], last),
          [wrote, found, again]) :=
    run_cons_eq_ok.mpr
      ⟨_, _, _, wroteRan,
        run_cons_eq_ok.mpr ⟨_, _, _, findRan, runEnd, rfl⟩, rfl⟩
  obtain ⟨state, reached, viewEq⟩ :=
    (onCache forgedOps (small.efs, _, _) last).mpr ⟨rfl, runAll⟩
  refine ⟨_, state, reached, ?_, by rw [viewEq]; exact notOwned⟩
  have limits {disk : Disk} {blocks : Nat}
      (used : small.efs.dataBitmap.used disk = blocks) (few : blocks ≤ 2)
      (bits : small.InodeBits disk 1) :
      small.efs.dataBitmap.used disk ≤ small.dataAreaBlocks ∧
        small.efs.inodeBitmap.used disk ≤ 2 ^ 32 := by
    have area : 2 ≤ small.dataAreaBlocks := by decide
    rw [used, bits.used_eq (by decide)]
    exact ⟨by omega, by decide⟩
  intro first rest outcome view split firstReached
  obtain ⟨_, firstRan⟩ :=
    (onCache first outcome view.view).mp ⟨_, firstReached, rfl⟩
  rw [forgedOps] at split
  rcases first with _ | ⟨firstOp, first⟩
  · have diskEq : fresh = view.view :=
      congrArg (fun result => result.1.2) (Except.ok.inj firstRan)
    rw [← diskEq]
    exact limits isFresh.used_eq (by decide) isFresh.inodeBits
  obtain ⟨rfl, secondSplit⟩ := List.cons.inj split
  obtain ⟨_, _, _, stepEq, firstRan, _⟩ := run_cons_eq_ok.mp firstRan
  rw [wroteRan] at stepEq
  cases stepEq
  rcases first with _ | ⟨secondOp, first⟩
  · have diskEq : between = view.view :=
      congrArg (fun result => result.1.2) (Except.ok.inj firstRan)
    rw [← diskEq]
    exact limits usedBetween (by decide) bitsBetween
  obtain ⟨rfl, thirdSplit⟩ := List.cons.inj secondSplit
  obtain ⟨_, _, _, stepEq, firstRan, _⟩ := run_cons_eq_ok.mp firstRan
  rw [findRan] at stepEq
  cases stepEq
  rcases first with _ | ⟨thirdOp, first⟩
  · have diskEq : between = view.view :=
      congrArg (fun result => result.1.2) (Except.ok.inj firstRan)
    rw [← diskEq]
    exact limits usedBetween (by decide) bitsBetween
  obtain ⟨rfl, noMore⟩ := List.cons.inj thirdSplit
  obtain ⟨_, _, _, stepEq, firstRan, _⟩ := run_cons_eq_ok.mp firstRan
  rw [againRan] at stepEq
  cases stepEq
  rw [(append_eq_nil_iff.mp noMore.symm).1] at firstRan
  have diskEq : last = view.view :=
    congrArg (fun result => result.1.2) (Except.ok.inj firstRan)
  rw [← diskEq]
  exact limits usedLast (by decide) bitsLast

end Geometry

end RCoreOS.EasyFs
