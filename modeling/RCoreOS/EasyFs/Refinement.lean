import RCoreOS.EasyFs.FileTable

/-!
# The file system refines the file table

A disk shows a file table when it is consistent and its nodes have the kinds
and bytes of the root directory and the files of the table.  Every call that
the table allows and that returns on the disk gives the response of the table
and leads to a disk that shows the table afterwards.

Every such call does return, a `create` under the condition that the root
directory stays within the largest file: `(28 + 128 + 128 * 128) * 512` bytes
are `264640` entries.
-/

namespace RCoreOS.EasyFs

open Lib FileTable BlockProg List Lib.Segments Slot

/-- The kind and the bytes of a node. -/
def Node.shape (node : Node) : DiskInodeType × List UInt8 :=
  (node.kind, node.content)

/-- A write within the largest file is complete. -/
theorem Node.shape_write {node : Node} {offset : Nat} {buf : List UInt8}
    {v : List Nat} (small : offset + buf.length ≤ 512 * 16540) :
    node.writeStop offset buf = offset + buf.length ∧
      (node.write offset buf v).shape =
        (node.kind,
          overwrite (node.content.rightpad (offset + buf.length) 0) offset
            buf) := by
  have stop : node.writeStop offset buf = offset + buf.length := by
    rw [Node.writeStop, Nat.mod_eq_of_lt (by omega),
      Nat.mod_eq_of_lt (by omega)]
    omega
  refine ⟨stop, ?_⟩
  rw [Node.shape, Node.write, stop, Nat.mod_eq_of_lt (by omega),
    Nat.add_sub_cancel_left, take_length]

/-- Writing behind the last byte appends. -/
theorem overwrite_rightpad_end (xs ys : List UInt8) :
    overwrite (xs.rightpad (xs.length + ys.length) 0) xs.length ys =
      xs ++ ys := by
  rw [overwrite, List.rightpad, Nat.add_sub_cancel_left, take_left,
    drop_eq_nil_of_le (by simp), append_nil]

namespace Geometry

variable {g : Geometry} {disk after : Disk} {nodes : List Node}
  {table : FileTable} {id : Nat}

/-- The disk shows the files of the table. -/
structure Shows
    (g : Geometry) (disk : Disk) (nodes : List Node) (table : FileTable) :
    Prop where
  consistent : g.Consistent disk nodes
  shapes : nodes.map Node.shape = table.shapes
  valid : ∀ name ∈ table.names, DirEntry.ValidName name

namespace Shows

/-! ## The nodes of the table -/

section

variable (shows_ : g.Shows disk nodes table)

include shows_

theorem node {shape : DiskInodeType × List UInt8}
    (at_ : table.shapes[id]? = some shape) :
    ∃ node, nodes[id]? = some node ∧ node.shape = shape := by
  rw [← shows_.shapes, getElem?_map, Option.map_eq_some_iff] at at_
  exact at_

theorem root :
    ∃ root, nodes[0]? = some root ∧ g.Directory root table.entries := by
  obtain ⟨root, present, shape⟩ :=
    shows_.node (rfl : table.shapes[0]? = some _)
  obtain ⟨kind, content⟩ := Prod.mk.inj shape
  exact ⟨root, present, kind, content,
    shows_.consistent.onDevice root (mem_of_getElem? present)⟩

theorem file (notRoot : id ≠ 0) (inside : id ≤ table.files.length) :
    ∃ node, nodes[id]? = some node ∧ node.kind = .file ∧
      node.content = table.content id := by
  obtain ⟨node, present, shape⟩ := shows_.node (shapes_file notRoot inside)
  exact ⟨node, present, Prod.mk.inj shape⟩

theorem length_nodes :
    nodes.length = table.files.length + 1 := by
  rw [← length_shapes, ← shows_.shapes, length_map]

/-- The root directory is a file, so it has at most 264640 entries. -/
theorem files_le :
    table.files.length ≤ 264640 := by
  obtain ⟨root, present, directory⟩ := shows_.root
  have small := (shows_.consistent.holding.represented 0 root present).small
  rw [directory.content, length_directoryBytes, length_entries]
    at small
  omega

end

end Shows

/-- What the client has obtained is not on the disk. -/
theorem Shows.obtain_ (shows_ : g.Shows disk nodes table) (id : Nat) :
    g.Shows disk nodes (table.obtain_ id) :=
  ⟨shows_.consistent, shows_.shapes, shows_.valid⟩

/-! ## Counting blocks -/

/-- The nodes own as many blocks as their bytes need. -/
theorem Represents.sum_blocks (represents : g.Represents disk nodes) :
    (nodes.map fun node => node.blocks.length).sum =
      ((nodes.map Node.shape).map fun shape =>
        blockCount (dataCount shape.2.length)).sum := by
  rw [map_map]
  congr 1
  apply map_congr_left
  intro node member
  obtain ⟨id, present⟩ := getElem?_of_mem member
  exact (represents.holding.represented id node present).length_blocks

theorem Shows.used_eq (shows_ : g.Shows disk nodes table) :
    g.efs.dataBitmap.used disk = table.blocks := by
  rw [shows_.consistent.used_eq, shows_.consistent.toRepresents.sum_blocks,
    shows_.shapes, sum_shapes]

variable {v : List Nat} {offset : Nat} {buf : List UInt8} {root : Node}
  {name : String}

/-- The blocks that were taken are those of the grown node. -/
theorem Consistent.used_taken (consistent : g.Consistent disk nodes)
    {node : Node} (present : nodes[id]? = some node) (new : Node)
    (blocks : new.blocks = node.blocks ++ v) (taken : g.Taken disk v after) :
    g.efs.dataBitmap.used after =
      ((nodes.set id new).map fun node => node.blocks.length).sum := by
  have sum := sum_set present (fun node => node.blocks.length) new
  rw [blocks, length_append] at sum
  rw [taken.used, consistent.used_eq]
  omega

/-! ## Writing -/

section

variable (shows_ : g.Shows disk nodes table) (notRoot : id ≠ 0)
  (inside : id ≤ table.files.length)

include shows_ notRoot inside

/-- A write of a file that returned wrote the file of the table. -/
theorem Shows.write {written : Nat} {content : List UInt8}
    (small : offset + buf.length ≤ 512 * 16540)
    (contentEq :
      content =
        overwrite ((table.content id).rightpad (offset + buf.length) 0)
          offset buf)
    (fits : (table.setContent id content).blocks ≤ g.dataAreaBlocks)
    (returned :
      (Inode.writeAt g.efs (g.efs.inode id) offset buf).onDisk [] disk =
        .ok (written, after)) :
    written = buf.length ∧
      ∃ nodes', g.Shows after nodes' (table.setContent id content) := by
  obtain ⟨node, present, kind, nodeContent⟩ := shows_.file notRoot inside
  obtain ⟨_, _, writtenEq, v, wrote⟩ :=
    shows_.consistent.toRepresents.writeAt_returned present returned
  obtain ⟨stop, shape⟩ := @Node.shape_write node offset buf v small
  rw [kind, nodeContent, ← contentEq] at shape
  have shapes :
      (nodes.set id (node.write offset buf v)).map Node.shape =
        (table.setContent id content).shapes := by
    rw [map_set, shape, shows_.shapes, shapes_setContent notRoot]
  have used : g.efs.dataBitmap.used after ≤ g.dataAreaBlocks := by
    rw [shows_.consistent.used_taken present (node.write offset buf v) rfl
        wrote.taken,
      wrote.represents.sum_blocks, shapes, sum_shapes]
    exact fits
  refine ⟨by rw [writtenEq, stop, Nat.add_sub_cancel_left], _,
    shows_.consistent.wrote present wrote used, shapes, ?_⟩
  rw [names_setContent]
  exact shows_.valid

/-- A write within the largest file returns when there are enough blocks. -/
theorem Shows.write_returns {content : List UInt8} (nonempty : buf ≠ [])
    (small : offset + buf.length ≤ 512 * 16540)
    (contentEq :
      content =
        overwrite ((table.content id).rightpad (offset + buf.length) 0)
          offset buf)
    (fits : (table.setContent id content).blocks ≤ g.dataAreaBlocks) :
    ∃ written after,
      (Inode.writeAt g.efs (g.efs.inode id) offset buf).onDisk [] disk =
        .ok (written, after) := by
  obtain ⟨node, present, kind, nodeContent⟩ := shows_.file notRoot inside
  obtain ⟨stop, _⟩ := @Node.shape_write node offset buf [] small
  have positive : 0 < buf.length := length_pos_iff.mpr nonempty
  apply shows_.consistent.toRepresents.writeAt_returns present
  · obtain ⟨_, _, _, _, most, _⟩ := g.regions
    have newLength :
        content.length = max (offset + buf.length) node.content.length := by
      have padded := length_rightpad (table.content id) (offset + buf.length) 0
      rw [contentEq, length_overwrite (by rw [padded]; omega), padded,
        nodeContent]
    have sum :=
      sum_set (shapes_file notRoot inside)
        (fun shape => blockCount (dataCount shape.2.length))
        ((.file, content) : DiskInodeType × List UInt8)
    dsimp only at sum
    rw [← shapes_setContent notRoot, sum_shapes,
      sum_shapes, ← nodeContent, newLength] at sum
    have more :
        blockCount (dataCount (offset + buf.length)) ≤
          blockCount
            (dataCount (max (offset + buf.length) node.content.length)) := by
      apply blockCount_mono
      rw [dataCount, dataCount]
      omega
    have usedLe := g.efs.dataBitmap.used_le disk
    rw [shows_.used_eq, dataBitmap_maximum] at usedLe
    rw [Nat.mod_eq_of_lt (by omega)]
    refine ⟨small, ?_⟩
    rw [shows_.used_eq, dataBitmap_maximum]
    omega
  · rw [stop]
    omega

end

/-! ## Creating -/

theorem Shows.findInodeId (shows_ : g.Shows disk nodes table)
    (name : String) :
    (Inode.findInodeId name (g.inodeAt disk 0)).onDisk [g.inodeBlock 0]
        disk =
      .ok ((table.idOf name).map (BitVec.ofNat 32), disk) := by
  obtain ⟨root, present, directory⟩ := shows_.root
  have inside := shows_.consistent.inside present
  rw [shows_.consistent.holding.onDisk_findInodeId present
    (inodeBlock_lt inside) directory, FileTable.entries,
    lookup_entriesFrom _ _ _ shows_.valid, FileTable.idOf, Option.map_map]
  show Except.ok _ = Except.ok _
  congr 3
  funext index
  show BitVec.ofNat 32 (1 + index) = BitVec.ofNat 32 (index + 1)
  rw [Nat.add_comm]

/-- A directory after an entry was written behind the others. -/
theorem Directory.append {entries : List DirEntry}
    (directory : g.Directory root entries) (entry : DirEntry)
    (limit : root.content.length / 32 * 32 + 32 ≤ 512 * 16540)
    (onDevice : ∀ block ∈ v, block < g.totalBlocks) :
    g.Directory
      (root.write (root.content.length / 32 * 32) entry.asBytes v)
      (entries ++ [entry]) := by
  have offset : root.content.length / 32 * 32 = root.content.length := by
    rw [directory.content, length_directoryBytes]
    omega
  rw [offset] at limit ⊢
  have written :=
    @Node.shape_write root root.content.length entry.asBytes v
      (by rw [DirEntry.length_asBytes]; exact limit)
  obtain ⟨kind, content⟩ := Prod.mk.inj written.2
  refine ⟨kind.trans directory.kind, ?_, ?_⟩
  · rw [content, overwrite_rightpad_end, directory.content,
      directoryBytes_append, directoryBytes_singleton]
  · intro block member
    rcases mem_append.mp member with old | new
    · exact directory.onDevice block old
    · exact onDevice block new

section

variable (shows_ : g.Shows disk nodes table)

include shows_

/-- The root directory after one more entry. -/
theorem Shows.created (valid : DirEntry.ValidName name)
    (fits : (table.add name).blocks ≤ g.dataAreaBlocks)
    (present : nodes[0]? = some root)
    (created :
      g.Created disk nodes nodes.length 0 root
        (DirEntry.of name (table.files.length + 1)) v after) :
    ∃ nodes', g.Shows after nodes' (table.add name) := by
  obtain ⟨_, present', directory⟩ := shows_.root
  rw [present] at present'
  cases present'
  have length := shows_.length_nodes
  have filesLe := shows_.files_le
  have inside := (List.getElem?_eq_some_iff.mp present).1
  have rootLength : root.content.length = 32 * table.files.length := by
    rw [directory.content, length_directoryBytes, length_entries]
  have offset : root.content.length / 32 * 32 = root.content.length := by
    omega
  have limit := created.limit
  rw [offset] at limit
  have shape :
      (root.write root.content.length
          (DirEntry.of name (table.files.length + 1)).asBytes v).shape =
        (.directory,
          directoryBytes table.entries ++
            (DirEntry.of name (table.files.length + 1)).asBytes) := by
    have written :=
      @Node.shape_write root root.content.length
        (DirEntry.of name (table.files.length + 1)).asBytes v
        (by rw [DirEntry.length_asBytes]; exact limit)
    rw [written.2, overwrite_rightpad_end, directory.kind, directory.content]
  have represents := created.represents
  rw [Nat.mod_eq_of_lt (by omega), place_length,
    set_append_left _ _ inside, offset] at represents
  have shapes :
      (nodes.set 0
            (root.write root.content.length
              (DirEntry.of name (table.files.length + 1)).asBytes v) ++
          [Node.empty .file]).map Node.shape =
        (table.add name).shapes := by
    rw [map_append, map_set, shape, shows_.shapes, shapes_add,
      directoryBytes_append, directoryBytes_singleton, FileTable.shapes,
      set_cons_zero, map_singleton]
    rfl
  have used : g.efs.dataBitmap.used after ≤ g.dataAreaBlocks := by
    have sum :=
      shows_.consistent.used_taken present
        (root.write root.content.length
          (DirEntry.of name (table.files.length + 1)).asBytes v)
        rfl created.taken
    have total := represents.sum_blocks
    rw [shapes, sum_shapes, map_append, sum_append, ← sum] at total
    omega
  have consistent := shows_.consistent.created present (by omega) created used
  rw [offset] at consistent
  refine ⟨_, consistent, shapes, ?_⟩
  intro other member
  rw [FileTable.names, FileTable.add, map_append, mem_append]
    at member
  rcases member with old | new
  · exact shows_.valid other old
  · rw [mem_singleton.mp new]
    exact valid

/-- The new file of a table gets the next inode. -/
theorem Shows.placed (present : nodes[0]? = some root) :
    nodes.length % 2 ^ 32 = table.files.length + 1 ∧
      (place nodes (nodes.length % 2 ^ 32) .file)[0]? = some root := by
  have length := shows_.length_nodes
  have filesLe := shows_.files_le
  have inside := (List.getElem?_eq_some_iff.mp present).1
  have same : nodes.length % 2 ^ 32 = nodes.length :=
    Nat.mod_eq_of_lt (by omega)
  rw [same, place_length, getElem?_append_left inside]
  exact ⟨length, present⟩

/-- A `create` of a new name that returned added the file. -/
theorem Shows.createFile (valid : DirEntry.ValidName name)
    (fits : (table.add name).blocks ≤ g.dataAreaBlocks) {newInode : Inode}
    (returned :
      (Inode.createFile g.efs (g.efs.inode 0) name).onDisk [] disk =
        .ok (newInode, after)) :
    newInode = g.efs.inode (table.files.length + 1) ∧
      ∃ nodes', g.Shows after nodes' (table.add name) := by
  obtain ⟨root, present, _⟩ := shows_.root
  obtain ⟨newId, placed⟩ := shows_.placed present
  obtain ⟨newEq, entry, v, made, created⟩ :=
    shows_.consistent.toRepresents.createFile_returned
      shows_.consistent.inodeBits (Nat.mod_le _ _) placed returned
  rw [newId, DirEntry.new_eq_of valid] at made
  rw [← Except.ok.inj made] at created
  refine ⟨by rw [newEq, newId], shows_.created valid fits present created⟩

/-- A `create` of a new name returns when the directory can hold it. -/
theorem Shows.createFile_returns (valid : DirEntry.ValidName name)
    (fits : (table.add name).Fits g)
    (capacity : (table.add name).files.length ≤ 264640) :
    ∃ newInode after,
      (Inode.createFile g.efs (g.efs.inode 0) name).onDisk [] disk =
        .ok (newInode, after) := by
  obtain ⟨root, present, directory⟩ := shows_.root
  obtain ⟨newId, placed⟩ := shows_.placed present
  have length := shows_.length_nodes
  have rootLength : root.content.length = 32 * table.files.length := by
    rw [directory.content, length_directoryBytes, length_entries]
  have newSize :
      root.content.length / 32 * 32 + 32 =
        32 * (table.files.length + 1) := by
    omega
  obtain ⟨inodes, blocks⟩ := fits
  rw [files_length_add] at inodes capacity
  refine shows_.consistent.toRepresents.createFile_returns
    shows_.consistent.inodeBits (Nat.mod_le _ _) placed (by omega)
    (by rw [newId]; exact DirEntry.new_eq_of valid _) ?_
  obtain ⟨_, _, _, _, most, _⟩ := g.regions
  have added := table.blocks_add name
  have grows :
      blockCount (dataCount (32 * table.files.length)) ≤
        blockCount (dataCount (32 * (table.files.length + 1))) := by
    apply blockCount_mono
    rw [dataCount, dataCount]
    omega
  rw [Enough, newSize, rootLength, shows_.used_eq, dataBitmap_maximum]
  constructor
  · omega
  · omega

/-! ## The other operations -/

/-- `find` gives the inode of the file with the name. -/
theorem Shows.find (name : String) :
    (Inode.find g.efs (g.efs.inode 0) name).onDisk [] disk =
      .ok ((table.idOf name).map g.efs.inode, disk) := by
  obtain ⟨root, present, _⟩ := shows_.root
  have inside := shows_.consistent.inside present
  have filesLe := shows_.files_le
  rw [Inode.find, onDisk_readDiskInode inside,
    onDisk_bind_ok (shows_.findInodeId name)]
  cases found : table.idOf name with
  | none => rfl
  | some id =>
    have small := (idOf_le found).2
    have same : (BitVec.ofNat 32 id).toNat = id := by
      rw [BitVec.toNat_ofNat, Nat.mod_eq_of_lt (by omega)]
    show Except.ok (some (g.efs.inode (BitVec.ofNat 32 id).toNat), disk) = _
    rw [same]
    rfl

/-- `ls` gives the names of the files. -/
theorem Shows.ls :
    (Inode.ls (g.efs.inode 0)).onDisk [] disk = .ok (table.names, disk) := by
  obtain ⟨root, present, directory⟩ := shows_.root
  rw [shows_.consistent.toRepresents.onDisk_ls present directory,
    FileTable.entries, listing_entriesFrom _ _ shows_.valid]
  rfl

/-- `read_at` gives the bytes of the file. -/
theorem Shows.read (notRoot : id ≠ 0) (inside : id ≤ table.files.length)
    (bufSmall : buf.length < 2 ^ 63) :
    (Inode.readAt (g.efs.inode id) offset buf).onDisk [] disk =
      .ok ((min (offset + buf.length) (table.content id).length - offset,
        overwrite buf 0
          (portion (table.content id) offset
            (min (offset + buf.length) (table.content id).length))),
        disk) := by
  obtain ⟨node, present, _, content⟩ := shows_.file notRoot inside
  have small := (shows_.consistent.holding.represented id node present).small
  rw [← content]
  apply shows_.consistent.toRepresents.onDisk_readAt present
    (shows_.consistent.onDevice node (mem_of_getElem? present))
  omega

/-- `clear` empties the file. -/
theorem Shows.clear (notRoot : id ≠ 0) (inside : id ≤ table.files.length) :
    ∃ after,
      (Inode.clear g.efs (g.efs.inode id)).onDisk [] disk = .ok ((), after) ∧
        ∃ nodes', g.Shows after nodes' (table.setContent id []) := by
  obtain ⟨node, present, kind, _⟩ := shows_.file notRoot inside
  obtain ⟨after, ran, consistent⟩ := shows_.consistent.onDisk_clear present
  refine ⟨after, ran, _, consistent, ?_, ?_⟩
  · rw [map_set, shows_.shapes, shapes_setContent notRoot, kind]
    rfl
  · rw [names_setContent]
    exact shows_.valid

/-! ## Calls -/

/-- A call that returned gave the response of the table. -/
theorem Shows.call (inside : id ≤ table.files.length) {call : Call}
    (sensible : FileTable.Sensible id call)
    (fits : (table.call g id call).1.Fits g) {response : Response}
    (returned :
      (call.perform g.efs (g.efs.inode id)).onDisk [] disk =
        .ok (response, after)) :
    response = (table.call g id call).2 ∧
      ∃ nodes', g.Shows after nodes' (table.call g id call).1 := by
  have represents := shows_.consistent.toRepresents
  cases call with
  | create name =>
    obtain ⟨rfl, valid⟩ := sensible
    obtain ⟨root, present, _⟩ := shows_.root
    obtain ⟨result, _, created, returned⟩ := onDisk_bind_eq_ok.mp returned
    cases returned
    obtain ⟨found, search, outcome⟩ :=
      (onDisk_create (represents.inside present)).mp created
    rw [shows_.findInodeId name] at search
    cases search
    rw [FileTable.call] at fits ⊢
    rcases outcome with ⟨isSome, rfl, rfl⟩ | ⟨isNone, newInode, rfl, made⟩
    · have known : name ∈ table.names := by
        by_contra absent
        rw [idOf_eq_none.mpr absent] at isSome
        cases isSome
      rw [if_pos known]
      exact ⟨rfl, nodes, shows_⟩
    · have new : name ∉ table.names :=
        idOf_eq_none.mp (Option.map_eq_none_iff.mp isNone)
      rw [if_neg new] at fits ⊢
      obtain ⟨newEq, nodes', after'⟩ := shows_.createFile valid fits.2 made
      exact ⟨by rw [newEq], nodes', after'.obtain_ _⟩
  | find name =>
    cases sensible
    rw [Call.perform, onDisk_bind_ok (shows_.find name)]
      at returned
    cases returned
    rw [FileTable.call]
    cases table.idOf name with
    | none => exact ⟨rfl, nodes, shows_⟩
    | some found => exact ⟨rfl, nodes, shows_.obtain_ found⟩
  | ls =>
    cases sensible
    rw [Call.perform, onDisk_bind_ok shows_.ls] at returned
    cases returned
    exact ⟨rfl, nodes, shows_⟩
  | readAt offset buf =>
    obtain ⟨notRoot, bufSmall⟩ := sensible
    rw [Call.perform, onDisk_bind_ok (shows_.read notRoot inside bufSmall)]
      at returned
    cases returned
    exact ⟨rfl, nodes, shows_⟩
  | writeAt offset buf =>
    obtain ⟨notRoot, _, small⟩ := sensible
    obtain ⟨written, _, wrote, returned⟩ := onDisk_bind_eq_ok.mp returned
    cases returned
    obtain ⟨writtenEq, nodes', after'⟩ :=
      shows_.write notRoot inside small rfl fits.2 wrote
    exact ⟨by rw [writtenEq]; rfl, nodes', after'⟩
  | clear =>
    obtain ⟨cleared, ran, after'⟩ := shows_.clear sensible inside
    rw [Call.perform, onDisk_bind_ok ran] at returned
    cases returned
    exact ⟨rfl, after'⟩

/-- A sensible call returns when there is room for what it adds. -/
theorem Shows.call_returns (inside : id ≤ table.files.length) {call : Call}
    (sensible : FileTable.Sensible id call)
    (fits : (table.call g id call).1.Fits g)
    (capacity : (table.call g id call).1.files.length ≤ 264640) :
    ∃ response after,
      (call.perform g.efs (g.efs.inode id)).onDisk [] disk =
        .ok (response, after) := by
  have represents := shows_.consistent.toRepresents
  cases call with
  | create name =>
    obtain ⟨rfl, valid⟩ := sensible
    obtain ⟨root, present, _⟩ := shows_.root
    have created :
        ∃ result after,
          (Inode.create g.efs (g.efs.inode 0) name).onDisk [] disk =
            .ok (result, after) := by
      have search := shows_.findInodeId name
      rw [FileTable.call] at fits capacity
      by_cases known : name ∈ table.names
      · obtain ⟨found, foundEq⟩ :=
          Option.ne_none_iff_exists'.mp
            (mt idOf_eq_none.mp (not_not_intro known))
        rw [foundEq] at search
        exact ⟨none, disk, (onDisk_create (represents.inside present)).mpr
          ⟨_, search, .inl ⟨rfl, rfl, rfl⟩⟩⟩
      · rw [if_neg known] at fits capacity
        rw [idOf_eq_none.mpr known] at search
        obtain ⟨newInode, after, made⟩ :=
          shows_.createFile_returns valid fits capacity
        exact ⟨some newInode, after,
          (onDisk_create (represents.inside present)).mpr
            ⟨_, search, .inr ⟨rfl, newInode, rfl, made⟩⟩⟩
    obtain ⟨result, after, created⟩ := created
    exact ⟨.inode result, after, onDisk_bind_ok created _⟩
  | find name =>
    cases sensible
    exact ⟨_, _, onDisk_bind_ok (shows_.find name) _⟩
  | ls =>
    cases sensible
    exact ⟨_, _, onDisk_bind_ok shows_.ls _⟩
  | readAt offset buf =>
    obtain ⟨notRoot, bufSmall⟩ := sensible
    exact ⟨_, _, onDisk_bind_ok
      (shows_.read notRoot inside bufSmall) _⟩
  | writeAt offset buf =>
    obtain ⟨notRoot, nonempty, small⟩ := sensible
    obtain ⟨written, after, wrote⟩ :=
      shows_.write_returns notRoot inside nonempty small rfl fits.2
    exact ⟨.wrote written, after, onDisk_bind_ok wrote _⟩
  | clear =>
    obtain ⟨after, ran, _⟩ := shows_.clear sensible inside
    exact ⟨.cleared, after, onDisk_bind_ok ran _⟩

end

end Geometry

end RCoreOS.EasyFs
