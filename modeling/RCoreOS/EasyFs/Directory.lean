import RCoreOS.EasyFs.Representation

/-!
# Directories

A directory is a file whose bytes are a list of entries of 32 bytes each.
`lookup` and `listing` are the searches of `find` and `ls` on such a list; the
operations on the disk are shown to compute them.

An entry made from a name of at most 27 bytes without a NUL gives that name
back.  A name of 28 bytes fills the field, and `name()` then runs off its end.
-/

namespace RCoreOS.EasyFs

open Lib.Bytes BlockProg DirEntry Inode
open List hiding Vector
open Lib.Segments

/-! ## One entry -/

namespace DirEntry

@[simp]
theorem length_asBytes (entry : DirEntry) : entry.asBytes.length = 32 := by
  simp [asBytes]

/-- An entry that was written is read back. -/
theorem ofBytes_asBytes (entry : DirEntry) : ofBytes entry.asBytes = entry := by
  have nameLength : entry.name.toList.length = 28 := by simp
  have nameEq :
      (Lib.Bytes.ofBytes fun index => entry.asBytes.getD index 0) =
        entry.name := by
    apply Vector.ext
    intro index inside
    have inName : index < entry.name.toList.length := by omega
    rw [Lib.Bytes.ofBytes, Vector.getElem_ofFn, asBytes,
      getD_append _ _ _ _ inName, getD_eq_getElem _ _ inName,
      Vector.getElem_toList]
  have idEq :
      (leWord 32 fun index => entry.asBytes.getD (28 + index) 0) =
        entry.inodeId := by
    refine Eq.trans (leWord_congr fun index inside => ?_)
      (leWord_leByte entry.inodeId)
    have short : index < 4 := by omega
    rw [asBytes, getD_append_right _ _ _ _ (by omega), nameLength,
      Nat.add_sub_cancel_left]
    simp [short]
  cases entry with
  | mk name inodeId => simp only [ofBytes, nameEq, idEq]

/-- A name that an entry can give back: at most 27 bytes and no NUL. -/
def ValidName (name : String) : Prop :=
  (nameBytes name).length ≤ 27 ∧ 0 ∉ nameBytes name

instance (name : String) : Decidable (ValidName name) :=
  inferInstanceAs (Decidable (_ ∧ _))

variable {name : String}

theorem inodeId_of_new {inodeId : BitVec 32} {entry : DirEntry}
    (made : new name inodeId = .ok entry) : entry.inodeId = inodeId := by
  rw [new] at made
  split at made
  · rw [← Except.ok.inj made]
  · cases made

theorem fromUTF8?_nameBytes (name : String) :
    String.fromUTF8? (nameBytes name).toByteArray = some name := by
  have bytes : (nameBytes name).toByteArray = name.toByteArray := by
    apply ByteArray.ext
    rw [data_toByteArray, nameBytes, Array.toArray_toList]
  rw [bytes, String.fromUTF8?, dif_pos name.isValidUTF8]
  rfl

/-- The name field of an entry: the bytes of the name, then zeros. -/
theorem toList_splice_zeros {bytes : List UInt8} (short : bytes.length ≤ 28) :
    (splice (zeros : Buffer 28) 0 bytes).toList =
      bytes ++ List.replicate (28 - bytes.length) 0 := by
  apply list_ext_getD (0 : UInt8)
  · simp
    omega
  · intro index inside
    have small : index < 28 := by simpa using inside
    have byteEq :
        (splice (zeros : Buffer 28) 0 bytes).toList.getD index 0 =
          byteAt (splice (zeros : Buffer 28) 0 bytes) index := by
      rw [getD_eq_getElem _ _ inside, Vector.getElem_toList, byteAt,
        dif_pos small]
    rw [byteEq, byteAt_splice _ _ _ small]
    by_cases within : index < bytes.length
    · rw [if_pos (by omega), getD_append _ _ _ _ within, Nat.sub_zero]
    · rw [if_neg (by omega), byteAt_zeros,
        getD_append_right _ _ _ _ (Nat.not_lt.mp within)]
      simp

/-- The entry of a valid name gives the name and the inode id back. -/
theorem nameOf_new (valid : ValidName name)
    (inodeId : BitVec 32) :
    ∃ entry,
      new name inodeId = .ok entry ∧ entry.nameOf = .ok name ∧
        entry.inodeId = inodeId := by
  have short : (nameBytes name).length ≤ 28 := Nat.le_succ_of_le valid.1
  refine ⟨⟨splice zeros 0 (nameBytes name), inodeId⟩, if_pos short, ?_, rfl⟩
  have field := toList_splice_zeros short
  have firstZero :
      (splice (zeros : Buffer 28) 0 (nameBytes name)).toList.findIdx?
          (· == 0) =
        some (nameBytes name).length := by
    have positive : 28 - (nameBytes name).length ≠ 0 := by
      have limit := valid.1
      omega
    rw [field, findIdx?_append]
    have notInName : (nameBytes name).findIdx? (· == 0) = none := by
      rw [findIdx?_eq_none_iff]
      intro byte member
      rw [beq_eq_false_iff_ne]
      rintro rfl
      exact valid.2 member
    rw [notInName]
    obtain ⟨more, moreEq⟩ := Nat.exists_eq_succ_of_ne_zero positive
    rw [moreEq, replicate_succ, findIdx?_cons]
    simp
  have front :
      (splice (zeros : Buffer 28) 0 (nameBytes name)).toList.take
          (nameBytes name).length =
        nameBytes name := by
    rw [field, take_left]
  simp only [nameOf, firstZero, front, fromUTF8?_nameBytes]

end DirEntry

/-! ## Lists of entries -/

/-- The bytes of a directory. -/
def directoryBytes (entries : List DirEntry) : List UInt8 :=
  entries.flatMap DirEntry.asBytes

theorem length_directoryBytes (entries : List DirEntry) :
    (directoryBytes entries).length = 32 * entries.length := by
  induction entries with
  | nil => rfl
  | cons entry rest ih =>
    have split :
        directoryBytes (entry :: rest) =
          entry.asBytes ++ directoryBytes rest :=
      rfl
    rw [split, length_append, length_asBytes, ih, length_cons]
    omega

theorem directoryBytes_append (first second : List DirEntry) :
    directoryBytes (first ++ second) =
      directoryBytes first ++ directoryBytes second :=
  flatMap_append

theorem directoryBytes_singleton (entry : DirEntry) :
    directoryBytes [entry] = entry.asBytes := by
  rw [directoryBytes, flatMap_singleton]

/-- The bytes of the entry behind the first entries. -/
theorem portion_directoryBytes
    (earlier : List DirEntry) (entry : DirEntry) (rest : List DirEntry) :
    portion (directoryBytes (earlier ++ entry :: rest))
        (32 * earlier.length) (32 * earlier.length + 32) =
      entry.asBytes := by
  have split :
      directoryBytes (entry :: rest) = entry.asBytes ++ directoryBytes rest :=
    rfl
  rw [directoryBytes_append, split, portion, ← length_directoryBytes,
    drop_left, Nat.add_sub_cancel_left, take_left' (length_asBytes entry)]

/-- `find_inode_id` on the entries of a directory. -/
def lookup (name : String) :
    List DirEntry → Except Fault (Option (BitVec 32))
  | [] => .ok none
  | entry :: rest => do
      let entryName ← entry.nameOf
      if entryName = name then
        .ok (some entry.inodeId)
      else
        lookup name rest

/-- `ls` on the entries of a directory. -/
def listing : List DirEntry → Except Fault (List String)
  | [] => .ok []
  | entry :: rest => do
      let name ← entry.nameOf
      let names ← listing rest
      .ok (name :: names)

/-- What was found is the inode id of an entry. -/
theorem mem_of_lookup {name : String} {inodeId : BitVec 32}
    {entries : List DirEntry}
    (found : lookup name entries = .ok (some inodeId)) :
    ∃ entry ∈ entries, entry.inodeId = inodeId := by
  induction entries with
  | nil => cases found
  | cons entry rest ih =>
    rw [lookup] at found
    obtain ⟨entryName, _, found⟩ := Lib.FallibleRuns.bind_eq_ok.mp found
    split at found
    · cases found
      exact ⟨entry, mem_cons_self, rfl⟩
    · obtain ⟨other, member, equal⟩ := ih found
      exact ⟨other, mem_cons_of_mem entry member, equal⟩

/-! ## Searching on the disk -/

theorem overwrite_all {α : Type} {xs ys : List α}
    (sameLength : ys.length = xs.length) : overwrite xs 0 ys = ys := by
  simp [overwrite, sameLength]

namespace Geometry

variable {g : Geometry} {inodes : Nat → DiskInode} {disk after : Disk}
  {nodes : List Node} {id : Nat} {node : Node} {locked : Nat}
  {entries : List DirEntry}

/-- The node is a directory with the given entries, all on the device. -/
structure Directory
    (g : Geometry) (node : Node) (entries : List DirEntry) : Prop where
  kind : node.kind = .directory
  content : node.content = directoryBytes entries
  onDevice : ∀ block ∈ node.blocks, block < g.totalBlocks

section

variable (holding : g.Holding inodes disk nodes)
  (present : nodes[id]? = some node)

include holding present

section

variable (below : locked < g.efs.dataBitmap.startBlockId)

include below

/-- Reading the entry behind the first entries. -/
theorem Holding.onDisk_readDirEntry
    {earlier rest : List DirEntry} {entry : DirEntry}
    (directory : g.Directory node (earlier ++ entry :: rest))
    (dirent : DirEntry) :
    (readDirEntry (inodes id) earlier.length dirent).onDisk [locked]
        disk =
      .ok (entry, disk) := by
  have small := (holding.represented id node present).small
  have length := length_directoryBytes (earlier ++ entry :: rest)
  rw [← directory.content] at length
  rw [length_append, length_cons] at length
  have stop :
      min (32 * earlier.length + dirent.asBytes.length)
          node.content.length =
        32 * earlier.length + 32 := by
    rw [length_asBytes]
    omega
  have ran :=
    holding.onDisk_readAt present below directory.onDevice
      (.inl (by rw [length_asBytes]; omega) :
        32 * earlier.length + dirent.asBytes.length < 2 ^ 64 ∨ _)
  rw [stop, directory.content, portion_directoryBytes,
    overwrite_all (by simp), Nat.add_sub_cancel_left] at ran
  rw [readDirEntry, onDisk_bind_ok ran]
  show Except.ok (DirEntry.ofBytes entry.asBytes, disk) = _
  rw [ofBytes_asBytes]

theorem Holding.onDisk_findLoop (name : String)
    (earlier rest : List DirEntry)
    (directory : g.Directory node (earlier ++ rest)) (dirent : DirEntry) :
    (Inode.findLoop name (inodes id)
        (List.range' earlier.length rest.length) dirent).onDisk [locked]
        disk =
      (lookup name rest).map fun found => (found, disk) := by
  induction rest generalizing earlier dirent with
  | nil => rfl
  | cons entry rest ih =>
    have ran := holding.onDisk_readDirEntry present below directory dirent
    rw [length_cons, List.range'_succ, Inode.findLoop,
      onDisk_bind_ok ran, lookup]
    cases entry.nameOf with
    | error fault => rfl
    | ok entryName =>
      show BlockProg.onDisk (if entryName = name then _ else _) _ _ =
        Except.map _ (if entryName = name then _ else _)
      by_cases same : entryName = name
      · rw [if_pos same, if_pos same]
        rfl
      · rw [if_neg same, if_neg same]
        have later := ih (earlier ++ [entry])
          (by rw [append_assoc]; exact directory) entry
        rw [length_append, length_singleton] at later
        exact later

/-- `find_inode_id` on a directory. -/
theorem Holding.onDisk_findInodeId
    (directory : g.Directory node entries) (name : String) :
    (Inode.findInodeId name (inodes id)).onDisk [locked] disk =
      (lookup name entries).map fun found => (found, disk) := by
  have rep := holding.represented id node present
  have isDir : (inodes id).isDir = true := by
    rw [DiskInode.isDir, rep.kind, directory.kind]
    rfl
  have count : (inodes id).size.toNat / 32 = entries.length := by
    rw [rep.size, directory.content, length_directoryBytes]
    omega
  have loop :=
    holding.onDisk_findLoop present below name [] entries directory
      DirEntry.empty
  rw [Inode.findInodeId, isDir]
  show (Inode.findLoop name (inodes id)
    (List.range ((inodes id).size.toNat / 32)) DirEntry.empty).onDisk _ _ = _
  rw [count, range_eq_range']
  exact loop

end

/-- `find_inode_id` panics on anything else. -/
theorem Holding.findInodeId_returned {held : List Nat} {name : String}
    {found : Option (BitVec 32)}
    (returned :
      (Inode.findInodeId name (inodes id)).onDisk held disk =
        .ok (found, after)) :
    node.kind = .directory := by
  obtain ⟨_, _, asserted, _⟩ := onDisk_bind_eq_ok.mp returned
  obtain ⟨isDir, _⟩ := onDisk_assert_eq_ok asserted
  rw [DiskInode.isDir, (holding.represented id node present).kind] at isDir
  exact eq_of_beq isDir

theorem Holding.onDisk_lsLoop (below : locked < g.efs.dataBitmap.startBlockId)
    (earlier rest : List DirEntry)
    (directory : g.Directory node (earlier ++ rest)) :
    (Inode.lsLoop (inodes id)
        (List.range' earlier.length rest.length)).onDisk [locked] disk =
      (listing rest).map fun names => (names, disk) := by
  induction rest generalizing earlier with
  | nil => rfl
  | cons entry rest ih =>
    have ran :=
      holding.onDisk_readDirEntry present below directory DirEntry.empty
    have later := ih (earlier ++ [entry])
      (by rw [append_assoc]; exact directory)
    rw [length_append, length_singleton] at later
    rw [length_cons, List.range'_succ, Inode.lsLoop,
      onDisk_bind_ok ran, listing]
    cases entry.nameOf with
    | error fault => rfl
    | ok entryName =>
      show (Inode.lsLoop (inodes id)
          (List.range' (earlier.length + 1) rest.length) >>= _).onDisk
            _ _ = _
      rw [onDisk_bind, later]
      cases listing rest <;> rfl

end

/-! ## Programs that only read -/

theorem readOnly_readDirEntry (inode : DiskInode) (i : Nat)
    (dirent : DirEntry) : (readDirEntry inode i dirent).ReadOnly :=
  (DiskInode.readOnly_readAt inode _ _).bind fun _ =>
    (readOnly_assert _).bind fun _ => trivial

theorem readOnly_findLoop (name : String) (inode : DiskInode)
    (indices : List Nat) (dirent : DirEntry) :
    (Inode.findLoop name inode indices dirent).ReadOnly := by
  induction indices generalizing dirent with
  | nil => trivial
  | cons i rest ih =>
    refine (readOnly_readDirEntry inode i dirent).bind fun dirent => ?_
    refine (readOnly_ofExcept _).bind fun entryName => ?_
    split
    · trivial
    · exact ih dirent

theorem readOnly_findInodeId (name : String) (inode : DiskInode) :
    (Inode.findInodeId name inode).ReadOnly :=
  (readOnly_assert _).bind fun _ => readOnly_findLoop _ _ _ _

theorem readOnly_lsLoop (inode : DiskInode) (indices : List Nat) :
    (Inode.lsLoop inode indices).ReadOnly := by
  induction indices with
  | nil => trivial
  | cons i rest ih =>
    refine (readOnly_readDirEntry inode i _).bind fun dirent => ?_
    refine (readOnly_ofExcept _).bind fun name => ?_
    exact ih.bind fun _ => trivial

theorem readOnly_find (efs : EasyFileSystem) (inode : Inode)
    (name : String) : (inode.find efs name).ReadOnly := by
  unfold Inode.find readDiskInode
  apply BlockProg.readOnly_readAt
  intro diskInode
  exact (readOnly_findInodeId name diskInode).bind fun _ => trivial

theorem readOnly_ls (inode : Inode) : inode.ls.ReadOnly := by
  unfold Inode.ls readDiskInode
  apply BlockProg.readOnly_readAt
  intro diskInode
  exact readOnly_lsLoop diskInode _

theorem readOnly_readAt (inode : Inode) (offset : Nat) (buf : List UInt8) :
    (inode.readAt offset buf).ReadOnly :=
  BlockProg.readOnly_readAt fun diskInode =>
    DiskInode.readOnly_readAt diskInode offset buf

/-! ## `find` and `ls` -/

section

variable (represents : g.Represents disk nodes)
  (present : nodes[id]? = some node)

include represents present

/-- `Inode::find` on a directory. -/
theorem Represents.onDisk_find (directory : g.Directory node entries)
    (name : String) :
    (Inode.find g.efs (g.efs.inode id) name).onDisk [] disk =
      (lookup name entries).map fun found =>
        (found.map fun inodeId => g.efs.inode inodeId.toNat, disk) := by
  have inside := represents.inside present
  have search :=
    represents.holding.onDisk_findInodeId present (inodeBlock_lt inside)
      directory name
  rw [Inode.find, onDisk_readDiskInode inside, onDisk_bind, search]
  cases lookup name entries <;> rfl

/-- `Inode::find` returns on directories only. -/
theorem Represents.find_returned {name : String} {found : Option Inode}
    (returned :
      (Inode.find g.efs (g.efs.inode id) name).onDisk [] disk =
        .ok (found, after)) :
    node.kind = .directory := by
  rw [Inode.find, onDisk_readDiskInode (represents.inside present)]
    at returned
  obtain ⟨_, _, searched, _⟩ := onDisk_bind_eq_ok.mp returned
  exact represents.holding.findInodeId_returned present searched

/-- `Inode::ls` on a directory. -/
theorem Represents.onDisk_ls (directory : g.Directory node entries) :
    (Inode.ls (g.efs.inode id)).onDisk [] disk =
      (listing entries).map fun names => (names, disk) := by
  have inside := represents.inside present
  have rep := represents.holding.represented id node present
  have count : (g.inodeAt disk id).size.toNat / 32 = entries.length := by
    rw [rep.size, directory.content, length_directoryBytes]
    omega
  have loop :=
    represents.holding.onDisk_lsLoop present (inodeBlock_lt inside) []
      entries directory
  rw [Inode.ls, onDisk_readDiskInode inside, count, range_eq_range']
  exact loop

end

end Geometry

end RCoreOS.EasyFs
