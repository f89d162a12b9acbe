import RCoreOS.EasyFs.Session

/-!
# What a file system is for

`FileTable` is the abstract model of a session with a file system: a list of
files, each a name with a list of bytes, in the order of their creation, and
the inode ids that the client has obtained.  The root directory has inode id
zero and file `k` has inode id `k + 1`.

A call changes the bytes of its own file or adds a file at the end; nothing
else changes.  `FileTable.Allowed` is the set of calls that the model speaks
about: valid names, non-empty writes within the largest file, and enough free
inodes and blocks.
-/

namespace RCoreOS.EasyFs

open Lib.Segments List Slot

/-- The files of a file system and the inode ids obtained by the client. -/
structure FileTable where
  files : List (String × List UInt8)
  handles : List Nat
deriving DecidableEq

namespace FileTable

/-- A new file system. -/
def initial : FileTable := ⟨[], [0]⟩

/-- The names of the files. -/
def names (table : FileTable) : List String := table.files.map Prod.fst

/-- The bytes of the file with an inode id. -/
def content (table : FileTable) (id : Nat) : List UInt8 :=
  match table.files[id - 1]? with
  | some file => file.2
  | none => []

/-- Give the file with an inode id other bytes. -/
def setContent (table : FileTable) (id : Nat) (content : List UInt8) :
    FileTable :=
  { table with
    files := table.files.modify (id - 1) fun file => (file.1, content) }

/-- The inode id of the file with a name. -/
def idOf (table : FileTable) (name : String) : Option Nat :=
  (table.names.findIdx? (· == name)).map (· + 1)

/-- One more inode id for the client. -/
def obtain_ (table : FileTable) (id : Nat) : FileTable :=
  { table with handles := table.handles ++ [id] }

/-- One more file, without bytes. -/
def add (table : FileTable) (name : String) : FileTable :=
  { table with files := table.files ++ [(name, [])] }

/-- What a call on the inode `id` does and returns. -/
def call (g : Geometry) (table : FileTable) (id : Nat) :
    Call → FileTable × Response
  | .create name =>
    if name ∈ table.names then
      (table, .inode none)
    else
      let newId := table.files.length + 1
      ((table.add name).obtain_ newId, .inode (some (g.efs.inode newId)))
  | .find name =>
    match table.idOf name with
    | none => (table, .inode none)
    | some found => (table.obtain_ found, .inode (some (g.efs.inode found)))
  | .ls => (table, .names table.names)
  | .readAt offset buf =>
    let content := table.content id
    let stop := min (offset + buf.length) content.length
    (table,
      .read (stop - offset) (overwrite buf 0 (portion content offset stop)))
  | .writeAt offset buf =>
    let content := (table.content id).rightpad (offset + buf.length) 0
    (table.setContent id (overwrite content offset buf), .wrote buf.length)
  | .clear => (table.setContent id [], .cleared)

/-- One step of a client. -/
def step (g : Geometry) (table : FileTable) (op : Op) :
    FileTable × Option Event :=
  match table.handles[op.handle]? with
  | none => (table, none)
  | some id =>
    let (after, response) := table.call g id op.call
    (after, some ⟨g.efs.inode id, op.call, response⟩)

/-- The number of blocks that the root directory and the files need. -/
def blocks (table : FileTable) : Nat :=
  blockCount (dataCount (32 * table.files.length)) +
    (table.files.map fun file => blockCount (dataCount file.2.length)).sum

/-- There are enough inodes for the files and enough blocks in the data area. -/
def Fits (g : Geometry) (table : FileTable) : Prop :=
  table.files.length + 1 ≤ g.efs.inodeBitmap.maximum ∧
    table.blocks ≤ g.dataAreaBlocks

/-- The calls that the model speaks about, on the inode `id`. -/
def Sensible (id : Nat) : Call → Prop
  | .create name => id = 0 ∧ DirEntry.ValidName name
  | .find _ => id = 0
  | .ls => id = 0
  | .readAt _ buf => id ≠ 0 ∧ buf.length < 2 ^ 63
  | .writeAt offset buf =>
    id ≠ 0 ∧ buf ≠ [] ∧ offset + buf.length ≤ (28 + 128 + 128 * 128) * 512
  | .clear => id ≠ 0

/-- A sensible call on an inode that the client has, with enough space. -/
def Allowed (g : Geometry) (table : FileTable) (op : Op) : Prop :=
  (∃ id, table.handles[op.handle]? = some id ∧ Sensible id op.call) ∧
    (table.step g op).1.Fits g

instance (g : Geometry) (table : FileTable) : Decidable (table.Fits g) :=
  inferInstanceAs (Decidable (_ ∧ _))

instance (id : Nat) : (call : Call) → Decidable (Sensible id call)
  | .create _ => inferInstanceAs (Decidable (_ ∧ _))
  | .find _ => inferInstanceAs (Decidable (id = 0))
  | .ls => inferInstanceAs (Decidable (id = 0))
  | .readAt _ _ => inferInstanceAs (Decidable (_ ∧ _))
  | .writeAt _ _ => inferInstanceAs (Decidable (_ ∧ _ ∧ _))
  | .clear => inferInstanceAs (Decidable (id ≠ 0))

theorem allowed_iff {g : Geometry} {table : FileTable} {op : Op} :
    table.Allowed g op ↔
      (match table.handles[op.handle]? with
        | some id => Sensible id op.call
        | none => False) ∧
        (table.step g op).1.Fits g := by
  rw [Allowed]
  cases table.handles[op.handle]? <;> simp

instance (g : Geometry) (table : FileTable) (op : Op) :
    Decidable (table.Allowed g op) :=
  have : Decidable
      (match table.handles[op.handle]? with
        | some id => Sensible id op.call
        | none => False) :=
    match table.handles[op.handle]? with
    | some _ => inferInstance
    | none => inferInstanceAs (Decidable False)
  decidable_of_iff _ allowed_iff.symm

/-! ## The directory entries of the files -/

end FileTable

/-- The entry that `DirEntry::new` makes of a short name. -/
def DirEntry.of (name : String) (inodeId : Nat) : DirEntry :=
  ⟨Lib.Bytes.splice Lib.Bytes.zeros 0 (nameBytes name),
    BitVec.ofNat 32 inodeId⟩

variable {name : String}

theorem DirEntry.new_eq_of (valid : ValidName name)
    (inodeId : Nat) :
    new name (BitVec.ofNat 32 inodeId) = .ok (of name inodeId) :=
  if_pos (Nat.le_succ_of_le valid.1)

theorem DirEntry.nameOf_of (valid : ValidName name)
    (inodeId : Nat) : (of name inodeId).nameOf = .ok name := by
  obtain ⟨entry, made, nameEq, _⟩ := nameOf_new valid (BitVec.ofNat 32 inodeId)
  rw [new_eq_of valid] at made
  rw [Except.ok.inj made, nameEq]

/-- The entries of files with consecutive inode ids. -/
def entriesFrom (start : Nat) : List String → List DirEntry
  | [] => []
  | name :: rest => DirEntry.of name start :: entriesFrom (start + 1) rest

theorem length_entriesFrom (start : Nat) (names : List String) :
    (entriesFrom start names).length = names.length := by
  induction names generalizing start with
  | nil => rfl
  | cons name rest ih => rw [entriesFrom, length_cons, ih, length_cons]

theorem entriesFrom_concat (start : Nat) (names : List String)
    (name : String) :
    entriesFrom start (names ++ [name]) =
      entriesFrom start names ++ [DirEntry.of name (start + names.length)] := by
  induction names generalizing start with
  | nil => rfl
  | cons first rest ih =>
    have shifted : start + 1 + rest.length = start + (rest.length + 1) := by
      omega
    rw [cons_append, entriesFrom, ih, shifted]
    rfl

/-- A search of the entries finds the first file with the name. -/
theorem lookup_entriesFrom (name : String) (start : Nat)
    (names : List String) (valid : ∀ other ∈ names, DirEntry.ValidName other) :
    lookup name (entriesFrom start names) =
      .ok ((names.findIdx? (· == name)).map fun index =>
        BitVec.ofNat 32 (start + index)) := by
  induction names generalizing start with
  | nil => rfl
  | cons first rest ih =>
    rw [entriesFrom, lookup, DirEntry.nameOf_of (valid first mem_cons_self),
      findIdx?_cons]
    show (if first = name then _ else _) = _
    by_cases same : first = name
    · rw [if_pos same, if_pos (by simpa using same)]
      rfl
    · have differ : ¬ (first == name) = true := by simpa using same
      rw [if_neg same, if_neg differ,
        ih _ fun other member => valid other (mem_cons_of_mem _ member),
        Option.map_map]
      congr 2
      funext index
      show BitVec.ofNat 32 (start + 1 + index) =
        BitVec.ofNat 32 (start + (index + 1))
      rw [Nat.add_assoc, Nat.add_comm 1]

/-- The names of the entries are the names of the files. -/
theorem listing_entriesFrom (start : Nat) (names : List String)
    (valid : ∀ other ∈ names, DirEntry.ValidName other) :
    listing (entriesFrom start names) = .ok names := by
  induction names generalizing start with
  | nil => rfl
  | cons first rest ih =>
    rw [entriesFrom, listing, DirEntry.nameOf_of (valid first mem_cons_self),
      ih _ fun other member => valid other (mem_cons_of_mem _ member)]
    rfl

namespace FileTable

/-- The entries of the root directory. -/
def entries (table : FileTable) : List DirEntry := entriesFrom 1 table.names

theorem length_entries (table : FileTable) :
    table.entries.length = table.files.length := by
  rw [entries, length_entriesFrom, names, length_map]

variable {table : FileTable}

variable {name : String}

theorem idOf_le {id : Nat} (found : table.idOf name = some id) :
    id ≠ 0 ∧ id ≤ table.files.length := by
  rw [idOf, Option.map_eq_some_iff] at found
  obtain ⟨index, foundIndex, rfl⟩ := found
  have inside := (findIdx?_eq_some_iff_findIdx_eq.mp foundIndex).1
  rw [names, length_map] at inside
  omega

theorem idOf_eq_none :
    table.idOf name = none ↔ name ∉ table.names := by
  rw [idOf, Option.map_eq_none_iff, findIdx?_eq_none_iff]
  constructor
  · intro all member
    have differ := all name member
    simp at differ
  · intro absent other member
    rw [beq_eq_false_iff_ne]
    rintro rfl
    exact absent member

/-! ## Kinds and bytes of the nodes -/

/-- The kinds and bytes of the nodes that hold the files. -/
def shapes (table : FileTable) : List (DiskInodeType × List UInt8) :=
  (.directory, directoryBytes table.entries) ::
    table.files.map fun file => (.file, file.2)

@[simp]
theorem length_shapes (table : FileTable) :
    table.shapes.length = table.files.length + 1 := by
  rw [shapes, length_cons, length_map]

theorem shapes_file {id : Nat} (notRoot : id ≠ 0)
    (inside : id ≤ table.files.length) :
    table.shapes[id]? = some (.file, table.content id) := by
  obtain ⟨index, rfl⟩ := Nat.exists_eq_succ_of_ne_zero notRoot
  have within : index < table.files.length := inside
  rw [shapes, content, Nat.succ_sub_one, getElem?_cons_succ,
    getElem?_map, getElem?_eq_getElem within]
  rfl

theorem names_setContent (table : FileTable) (id : Nat)
    (content : List UInt8) : (table.setContent id content).names = table.names := by
  apply ext_getElem?
  intro index
  rw [names, names, getElem?_map, getElem?_map, setContent, getElem?_modify]
  split
  · cases table.files[index]? <;> rfl
  · simp

theorem files_length_setContent (table : FileTable) (id : Nat)
    (content : List UInt8) :
    (table.setContent id content).files.length = table.files.length := by
  rw [setContent, length_modify]

theorem shapes_setContent {id : Nat} (notRoot : id ≠ 0) (content : List UInt8) :
    (table.setContent id content).shapes =
      table.shapes.set id (.file, content) := by
  obtain ⟨index, rfl⟩ := Nat.exists_eq_succ_of_ne_zero notRoot
  rw [shapes, entries, names_setContent, shapes, set_cons_succ, entries]
  congr 1
  apply ext_getElem?
  intro other
  rw [setContent, Nat.succ_sub_one, getElem?_map, getElem?_modify,
    getElem?_set, getElem?_map]
  by_cases same : index = other
  · subst same
    by_cases inside : index < table.files.length
    · simp [inside]
    · simp [inside]
  · simp [same]

theorem names_add (table : FileTable) (name : String) :
    (table.add name).names = table.names ++ [name] := by
  rw [names, add, map_append]
  rfl

theorem length_names (table : FileTable) :
    table.names.length = table.files.length :=
  length_map _

theorem shapes_add (table : FileTable) (name : String) :
    (table.add name).shapes =
      (.directory,
          directoryBytes
            (table.entries ++ [DirEntry.of name (table.files.length + 1)])) ::
        (table.files.map fun file => (.file, file.2)) ++ [(.file, [])] := by
  rw [shapes, entries, names_add, entriesFrom_concat, length_names,
    Nat.add_comm 1, add, map_append]
  rfl

theorem files_length_add (table : FileTable) (name : String) :
    (table.add name).files.length = table.files.length + 1 := by
  rw [add, length_append, length_singleton]

/-- A new file needs blocks only for its entry. -/
theorem blocks_add (table : FileTable) (name : String) :
    (table.add name).blocks +
        blockCount (dataCount (32 * table.files.length)) =
      table.blocks +
        blockCount (dataCount (32 * (table.files.length + 1))) := by
  have empty : blockCount (dataCount ([] : List UInt8).length) = 0 := rfl
  rw [blocks, blocks, files_length_add, add, map_append,
    sum_append, map_singleton, sum_singleton, empty]
  omega

/-- The blocks that the shapes need. -/
theorem sum_shapes (table : FileTable) :
    (table.shapes.map fun shape => blockCount (dataCount shape.2.length)).sum =
      table.blocks := by
  rw [shapes, map_cons, sum_cons, map_map,
    length_directoryBytes, length_entries]
  rfl

end FileTable

end RCoreOS.EasyFs
