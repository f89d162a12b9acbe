import RCoreOS.EasyFs.LargestFile

/-!
# File names

A directory entry has 28 bytes for a name, and `DirEntry::name` looks for the
NUL behind it.  `DirEntry::new` takes names of 28 bytes too, and the entry of
one of them, without a NUL, makes every later walk through the directory
panic.  Names that give a name back are harmless.
-/

namespace RCoreOS.EasyFs

open Lib List Lib.Bytes Lib.Segments Slot

/-! ## Entries that give a name back -/

namespace DirEntry

/-- `DirEntry::name` does not panic on what `DirEntry::new` makes. -/
def GivesName (name : String) : Prop :=
  ∃ entry text, new name 0 = .ok entry ∧ entry.nameOf = .ok text

variable {name : String} {inodeId : BitVec 32} {entry : DirEntry}

/-- `DirEntry::new` copies the bytes of the name, if there is room. -/
theorem name_of_new (made : new name inodeId = .ok entry) :
    (nameBytes name).length ≤ 28 ∧
      entry.name = splice zeros 0 (nameBytes name) := by
  by_cases short : (nameBytes name).length ≤ 28
  · rw [new, if_pos short] at made
    rw [← Except.ok.inj made]
    exact ⟨short, rfl⟩
  · rw [new, if_neg short] at made
    cases made

/-- The name that an entry gives does not depend on the inode id. -/
theorem nameOf_congr {first second : DirEntry}
    (same : first.name = second.name) : first.nameOf = second.nameOf := by
  rw [nameOf, nameOf, same]

theorem GivesName.of_new (gives : GivesName name)
    (made : new name inodeId = .ok entry) :
    ∃ text, entry.nameOf = .ok text := by
  obtain ⟨other, text, otherMade, textEq⟩ := gives
  have same : entry.name = other.name := by
    rw [(name_of_new made).2, (name_of_new otherMade).2]
  exact ⟨text, by rw [nameOf_congr same, textEq]⟩

theorem GivesName.of_nameOf (made : new name inodeId = .ok entry)
    {text : String} (textEq : entry.nameOf = .ok text) : GivesName name := by
  obtain ⟨short, nameEq⟩ := name_of_new made
  refine ⟨⟨entry.name, 0⟩, text, ?_, ?_⟩
  · rw [new, if_pos short, nameEq]
  · rw [← textEq]
    exact nameOf_congr rfl

/-- Without a NUL of its own the name has to leave room for one. -/
theorem givesName_iff (noNul : 0 ∉ nameBytes name) :
    GivesName name ↔ (nameBytes name).length ≤ 27 := by
  constructor
  · rintro ⟨entry, text, made, textEq⟩
    obtain ⟨short, nameEq⟩ := name_of_new made
    by_contra long
    have full : entry.name.toList = nameBytes name := by
      have exactly : 28 - (nameBytes name).length = 0 := by omega
      rw [nameEq, toList_splice_zeros short, exactly, replicate_zero,
        append_nil]
    have noEnd : entry.name.toList.findIdx? (· == 0) = none := by
      rw [full, findIdx?_eq_none_iff]
      intro byte member
      rw [beq_eq_false_iff_ne]
      rintro rfl
      exact noNul member
    rw [nameOf, noEnd] at textEq
    cases textEq
  · intro short
    obtain ⟨entry, made, textEq, _⟩ := nameOf_new ⟨short, noNul⟩ 0
    exact ⟨entry, name, made, textEq⟩

end DirEntry

/-! ## Directories that can be walked -/

/-- Every entry gives a name. -/
def Legible (entries : List DirEntry) : Prop :=
  ∀ entry ∈ entries, ∃ text, entry.nameOf = .ok text

variable {entries : List DirEntry} {name : String}

variable {entry : DirEntry} {inodeId : BitVec 32}

theorem Legible.append (legible : Legible entries)
    {text : String} (textEq : entry.nameOf = .ok text) :
    Legible (entries ++ [entry]) := by
  intro other member
  rcases mem_append.mp member with old | new
  · exact legible other old
  · rw [mem_singleton.mp new]
    exact ⟨text, textEq⟩

theorem Legible.lookup (legible : Legible entries) (name : String) :
    ∃ found, EasyFs.lookup name entries = .ok found := by
  induction entries with
  | nil => exact ⟨none, rfl⟩
  | cons entry rest ih =>
    obtain ⟨text, textEq⟩ := legible entry mem_cons_self
    obtain ⟨found, restEq⟩ :=
      ih fun other member => legible other (mem_cons_of_mem _ member)
    by_cases same : text = name
    · exact ⟨some entry.inodeId, by
        simp [EasyFs.lookup, textEq, bind, Except.bind, same]⟩
    · exact ⟨found, by
        simp [EasyFs.lookup, textEq, bind, Except.bind, same, restEq]⟩

/-- A walk through a directory lists the names of its entries. -/
theorem legible_iff_listing :
    Legible entries ↔ ∃ names, listing entries = .ok names := by
  induction entries with
  | nil => exact ⟨fun _ => ⟨[], rfl⟩, fun _ _ member => nomatch member⟩
  | cons entry rest ih =>
    constructor
    · intro legible
      obtain ⟨text, textEq⟩ := legible entry mem_cons_self
      obtain ⟨names, restEq⟩ :=
        ih.mp fun other member => legible other (mem_cons_of_mem _ member)
      exact ⟨text :: names, by
        simp [listing, textEq, restEq, bind, Except.bind]⟩
    · rintro ⟨names, listed⟩
      rw [listing] at listed
      cases textEq : entry.nameOf with
      | error fault =>
        rw [textEq] at listed
        cases listed
      | ok text =>
        rw [textEq] at listed
        cases restEq : listing rest with
        | error fault => simp [restEq, bind, Except.bind] at listed
        | ok names =>
          intro other member
          rcases mem_cons.mp member with rfl | later
          · exact ⟨text, textEq⟩
          · exact ih.mpr ⟨names, restEq⟩ other later

/-- A name that was found is found again with one more entry. -/
theorem lookup_append_some
    (found : lookup name entries = .ok (some inodeId)) (entry : DirEntry) :
    lookup name (entries ++ [entry]) = .ok (some inodeId) := by
  induction entries with
  | nil => cases found
  | cons head rest ih =>
    rw [lookup] at found
    rw [cons_append, lookup]
    cases textEq : head.nameOf with
    | error fault =>
      rw [textEq] at found
      cases found
    | ok text =>
      rw [textEq] at found
      by_cases same : text = name
      · simp only [bind, Except.bind, if_pos same] at found ⊢
        exact found
      · simp only [bind, Except.bind, if_neg same] at found ⊢
        exact ih found

/-- A name that was not found is found in the entry behind the others. -/
theorem lookup_append_none (absent : lookup name entries = .ok none)
    (textEq : entry.nameOf = .ok name) :
    lookup name (entries ++ [entry]) = .ok (some entry.inodeId) := by
  induction entries with
  | nil => simp [lookup, textEq, bind, Except.bind]
  | cons head rest ih =>
    rw [lookup] at absent
    rw [cons_append, lookup]
    cases headText : head.nameOf with
    | error fault =>
      rw [headText] at absent
      cases absent
    | ok text =>
      rw [headText] at absent
      by_cases same : text = name
      · simp [bind, Except.bind, same] at absent
      · simp only [bind, Except.bind, if_neg same] at absent ⊢
        exact ih absent

/-- What is found is listed. -/
theorem mem_listing_of_lookup
    (found : lookup name entries = .ok (some inodeId)) {names : List String}
    (listed : listing entries = .ok names) :
    name ∈ names := by
  induction entries generalizing names with
  | nil => cases found
  | cons entry rest ih =>
    rw [lookup] at found
    rw [listing] at listed
    cases textEq : entry.nameOf with
    | error fault =>
      rw [textEq] at found
      cases found
    | ok text =>
      rw [textEq] at found listed
      cases restEq : listing rest with
      | error fault => simp [restEq, bind, Except.bind] at listed
      | ok restNames =>
        simp only [restEq, bind, Except.bind, Except.ok.injEq]
          at listed
        rw [← listed]
        by_cases same : text = name
        · rw [same]
          exact mem_cons_self
        · simp only [bind, Except.bind, if_neg same] at found
          exact mem_cons_of_mem _ (ih found restEq)

namespace Geometry

variable {g : Geometry} {disk last : Disk} {nodes : List Node}
  {entries : List DirEntry} {handles : List Inode} {root : Node}
  {name : String}

/-! ## Making room for an entry -/

/-- There is an inode for one more file, and blocks for one more entry. -/
structure Available (g : Geometry) (disk : Disk) : Prop where
  inodes :
    g.efs.inodeBitmap.used disk < min g.efs.inodeBitmap.maximum (2 ^ 32)
  blocks :
    ∀ needed,
      (g.inodeAt disk 0).blocksNumNeeded
          ((g.inodeAt disk 0).size.toNat + 32) = .ok needed →
        needed ≤ g.freeBlocks disk

/-- One more entry fits in the largest directory. -/
def NotFull (g : Geometry) (disk : Disk) : Prop :=
  (g.inodeAt disk 0).size.toNat + 32 ≤ (28 + 128 + 128 * 128) * 512

section

variable (tidy : g.Tidy handles disk nodes root entries)

include tidy

theorem Tidy.size :
    (g.inodeAt disk 0).size.toNat = root.content.length ∧
      root.content.length / 32 * 32 = root.content.length := by
  have rep := tidy.consistent.holding.represented 0 root tidy.rootAt
  refine ⟨rep.size, ?_⟩
  rw [tidy.directory.content, length_directoryBytes]
  omega

/-- The new file gets the next inode. -/
theorem Tidy.placed (available : g.Available disk) :
    nodes.length < g.efs.inodeBitmap.maximum ∧
      nodes.length % 2 ^ 32 = nodes.length ∧
      (place nodes (nodes.length % 2 ^ 32) .file)[0]? = some root := by
  have rootInside := (List.getElem?_eq_some_iff.mp tidy.rootAt).1
  have inodes := available.inodes
  rw [tidy.consistent.inodeBits.used_eq tidy.consistent.slots] at inodes
  have ordered : nodes.length % 2 ^ 32 = nodes.length :=
    Nat.mod_eq_of_lt (by omega)
  refine ⟨by omega, ordered, ?_⟩
  rw [ordered, place_length, getElem?_append_left rootInside, tidy.rootAt]

/-- With room for it, a new file keeps the file system within its limits. -/
theorem Tidy.createFile_within (available : g.Available disk)
    {newInode : Inode}
    (created :
      (Inode.createFile g.efs (g.efs.inode 0) name).onDisk [] disk =
        .ok (newInode, last)) :
    g.NotFull disk ∧ g.efs.dataBitmap.used last ≤ g.dataAreaBlocks ∧
      g.efs.inodeBitmap.used last ≤ 2 ^ 32 := by
  have consistent := tidy.consistent
  obtain ⟨sizeEq, aligned⟩ := tidy.size
  obtain ⟨_, ordered, placed⟩ := tidy.placed available
  obtain ⟨_, entry, v, _, done⟩ :=
    consistent.toRepresents.createFile_returned consistent.inodeBits
      (Nat.le_of_eq ordered) placed created
  have limit := done.limit
  have inodes := available.inodes
  rw [consistent.inodeBits.used_eq consistent.slots] at inodes
  rw [aligned] at limit
  refine ⟨by rw [NotFull, sizeEq]; omega, ?_, ?_⟩
  · have blocks := available.blocks
    rw [sizeEq] at blocks
    have room := consistent.enough_of_free tidy.rootAt limit blocks
    have rep := consistent.holding.represented 0 root tidy.rootAt
    have placedInside := (List.getElem?_eq_some_iff.mp placed).1
    have repNow :=
      done.represents.holding.represented 0 _
        (getElem?_set_self placedInside)
    have length := rep.length_blocks
    have lengthNow := repNow.length_blocks
    have sizeNow :
        (root.write root.content.length entry.asBytes v).content.length =
          root.content.length + 32 := by
      obtain ⟨_, shape⟩ :=
        @Node.shape_write root root.content.length entry.asBytes v
          (by rw [DirEntry.length_asBytes]; exact limit)
      obtain ⟨_, contentEq⟩ := Prod.mk.inj shape
      rw [contentEq, overwrite_rightpad_end, length_append,
        DirEntry.length_asBytes]
    have blocksNow :
        (root.write root.content.length entry.asBytes v).blocks =
          root.blocks ++ v :=
      rfl
    rw [aligned, sizeNow, blocksNow, length_append] at lengthNow
    rw [done.taken.used]
    omega
  · rw [done.inodeBits.used_eq done.room]
    omega

/-- With room for it, a name that gives a name back gets an entry. -/
theorem Tidy.createFile_returns (available : g.Available disk)
    (notFull : g.NotFull disk) (short : (DirEntry.nameBytes name).length ≤ 28) :
    ∃ newInode last,
      (Inode.createFile g.efs (g.efs.inode 0) name).onDisk [] disk =
        .ok (newInode, last) := by
  have consistent := tidy.consistent
  obtain ⟨sizeEq, aligned⟩ := tidy.size
  obtain ⟨inside, ordered, placed⟩ := tidy.placed available
  obtain ⟨_, _, _, _, most, _⟩ := g.regions
  have blocks := available.blocks
  rw [sizeEq] at blocks
  rw [NotFull, sizeEq] at notFull
  have room := consistent.enough_of_free tidy.rootAt notFull blocks
  have made :
      ∃ entry,
        DirEntry.new name (BitVec.ofNat 32 (nodes.length % 2 ^ 32)) =
          .ok entry := by
    rw [DirEntry.new, if_pos short]
    exact ⟨_, rfl⟩
  obtain ⟨entry, made⟩ := made
  apply consistent.toRepresents.createFile_returns consistent.inodeBits
    (Nat.le_of_eq ordered) placed inside made
  rw [aligned]
  refine ⟨notFull, ?_⟩
  rw [dataBitmap_maximum]
  omega

/-! ## Walks through the root directory -/

theorem Tidy.onDisk_find (name : String) :
    (Inode.find g.efs g.efs.rootInode name).onDisk [] disk =
      (lookup name entries).map fun found =>
        (found.map fun inodeId => g.efs.inode inodeId.toNat, disk) :=
  tidy.consistent.toRepresents.onDisk_find tidy.rootAt tidy.directory name

theorem Tidy.onDisk_ls :
    (Inode.ls g.efs.rootInode).onDisk [] disk =
      (listing entries).map fun names => (names, disk) :=
  tidy.consistent.toRepresents.onDisk_ls tidy.rootAt tidy.directory

end

/-- An `ls` that returned has read the name of the last entry. -/
theorem Tidy.givesName_of_ls {entry : DirEntry} {inodeId : BitVec 32}
    (tidy : g.Tidy handles disk nodes root (entries ++ [entry]))
    (made : DirEntry.new name inodeId = .ok entry) {names : List String}
    (listed :
      (Inode.ls g.efs.rootInode).onDisk [] disk = .ok (names, last)) :
    DirEntry.GivesName name := by
  rw [tidy.onDisk_ls] at listed
  cases listEq : listing (entries ++ [entry]) with
  | error fault =>
    rw [listEq] at listed
    cases listed
  | ok names =>
    obtain ⟨text, textEq⟩ :=
      legible_iff_listing.mpr ⟨names, listEq⟩ entry (by simp)
    exact .of_nameOf made textEq

/-- `create` returns `None` for a name that is found, and makes an entry for
one that is not. -/
theorem Tidy.onDisk_create (tidy : g.Tidy handles disk nodes root entries)
    {found : Option (BitVec 32)}
    (searched : lookup name entries = .ok found) {result : Option Inode} :
    (Inode.create g.efs g.efs.rootInode name).onDisk [] disk =
        .ok (result, last) ↔
      found.isSome ∧ result = none ∧ last = disk ∨
        found = none ∧
          ∃ newInode, result = some newInode ∧
            (Inode.createFile g.efs (g.efs.inode 0) name).onDisk [] disk =
              .ok (newInode, last) := by
  have consistent := tidy.consistent
  have inside := consistent.inside tidy.rootAt
  have walked :=
    consistent.holding.onDisk_findInodeId tidy.rootAt (inodeBlock_lt inside)
      tidy.directory name
  rw [searched] at walked
  have split := @Geometry.onDisk_create g disk last 0 name inside result
  constructor
  · intro returned
    obtain ⟨other, otherWalked, cases_⟩ := split.mp returned
    rw [walked] at otherWalked
    obtain ⟨rfl, _⟩ := Prod.mk.inj (Except.ok.inj otherWalked)
    exact cases_
  · intro cases_
    exact split.mpr ⟨found, walked, cases_⟩

/-! ## Sessions with names that give a name back -/

/-- Every name that the session passes to `create` gives a name back. -/
def NamesGiven (ops : List Op) : Prop :=
  ∀ op ∈ ops, ∀ name, op.call = .create name → DirEntry.GivesName name

section Steps

variable {state after : List Inode × Disk} {op : Op} {event : Option Event}

/-- A tidy file system whose root directory can be walked. -/
def IsLegible (g : Geometry) (state : List Inode × Disk) : Prop :=
  ∃ entries, g.TidyWith state entries ∧ Legible entries

theorem EntriesAfter.legible {entriesNow : List DirEntry} {id : Nat}
    {call : Call} (changed : EntriesAfter entries id call entriesNow)
    (gives : ∀ name, call = .create name → DirEntry.GivesName name)
    (legible : Legible entries) : Legible entriesNow := by
  cases changed with
  | kept => exact legible
  | cleared => exact fun _ member => nomatch member
  | created made =>
    obtain ⟨text, textEq⟩ := (gives _ rfl).of_new made
    exact legible.append textEq

theorem IsLegible.step (isLegible : g.IsLegible state)
    (gives : ∀ name, op.call = .create name → DirEntry.GivesName name)
    (returned : op.onDisk g.efs state = .ok (after, event))
    (keeps : g.KeepsTidy after event) :
    g.IsLegible after := by
  obtain ⟨entries, tidyWith, legible⟩ := isLegible
  rcases tidyWith.step returned keeps with
    ⟨_, rfl⟩ | ⟨_, _, entriesNow, _, _, _, changed, tidyNow⟩
  · exact ⟨entries, tidyWith, legible⟩
  · exact ⟨entriesNow, tidyNow, changed.legible gives legible⟩

/-- The root directory can be walked, and has the inode under the name. -/
def Finds (g : Geometry) (name : String) (inode : Inode)
    (state : List Inode × Disk) : Prop :=
  ∃ entries inodeId,
    g.TidyWith state entries ∧ Legible entries ∧
      lookup name entries = .ok (some inodeId) ∧
      inode = g.efs.inode inodeId.toNat

/-- The call is no write to the root directory and does not clear it. -/
def SparesRoot (g : Geometry) (event : Option Event) : Prop :=
  ∀ made, event = some made → made.inode = g.efs.rootInode →
    made.call ≠ .clear ∧ ∀ offset buf, made.call ≠ .writeAt offset buf

/-- The steps that leave what was found in place. -/
def KeepsFound (g : Geometry) (op : Op) (after : List Inode × Disk)
    (event : Option Event) : Prop :=
  (∀ name, op.call = .create name → DirEntry.GivesName name) ∧
    g.KeepsTidy after event ∧ g.SparesRoot event

theorem Finds.step {inode : Inode}
    (finds : g.Finds name inode state)
    (returned : op.onDisk g.efs state = .ok (after, event))
    (fine : g.KeepsFound op after event) :
    g.Finds name inode after := by
  obtain ⟨gives, keeps, spares⟩ := fine
  obtain ⟨entries, inodeId, tidyWith, legible, found, inodeEq⟩ := finds
  rcases tidyWith.step returned keeps with
    ⟨_, rfl⟩ |
      ⟨id, made, entriesNow, eventEq, madeInode, madeCall, changed, tidyNow⟩
  · exact ⟨entries, inodeId, tidyWith, legible, found, inodeEq⟩
  · refine ⟨entriesNow, inodeId, tidyNow, changed.legible gives legible, ?_,
      inodeEq⟩
    generalize callEq : op.call = call at changed madeCall
    cases changed with
    | kept => exact found
    | cleared => exact absurd madeCall (spares made eventEq madeInode).1
    | created => exact lookup_append_some found _

end Steps

/--
A session that goes on from a state on the root directory and leaves the
directory in place: it returned, stayed within the limits, passed names that
give a name back to `create`, and did not write to the root or clear it.
-/
structure Continues (g : Geometry) (start : CacheState) (later : List Op)
    (last : CacheState) : Prop where
  returned :
    ∃ events handles,
      (session g.efs [g.efs.rootInode] later).run start =
          .ok ((events, handles), last) ∧
        ∀ event ∈ events, g.SparesRoot event
  names : NamesGiven later
  within :
    ∀ first rest outcome between, later = first ++ rest →
      (session g.efs [g.efs.rootInode] first).run start =
          .ok (outcome, between) →
        g.efs.dataBitmap.used between.view ≤ g.dataAreaBlocks ∧
          g.efs.inodeBitmap.used between.view ≤ 2 ^ 32

variable {final : CacheState} {inode : Inode}

/-- What was found stays found. -/
theorem Continues.finds {start : CacheState} {later : List Op}
    (coherent : start.Coherent [] [])
    (continues : g.Continues start later final)
    (finds : g.Finds name inode ([g.efs.rootInode], start.view)) :
    ∃ handles, g.Finds name inode (handles, final.view) := by
  obtain ⟨events, handles, returned, spares⟩ := continues.returned
  have onDisk (ops : List Op) :=
    onDisk_session g.efs [g.efs.rootInode] ops start.view
  obtain ⟨_, ran⟩ := BlockProg.onDisk_of_run coherent returned
  rw [onDisk] at ran
  cases runEq :
      FallibleRuns.run (Op.onDisk g.efs) ([g.efs.rootInode], start.view)
        later with
  | error fault =>
    rw [runEq] at ran
    cases ran
  | ok result =>
    rw [runEq] at ran
    obtain ⟨⟨handlesNow, diskNow⟩, shown⟩ := result
    cases ran
    refine ⟨handlesNow, ?_⟩
    refine FallibleRuns.run_invariant_along
      (fun {_ after op event} holds stepEq
          (fine : g.KeepsFound op after event) =>
        Finds.step holds stepEq fine)
      ?_ finds runEq
    intro first op rest split next earlier event later' firstRan shownEq
    have spared : g.SparesRoot event := spares event (by rw [shownEq]; simp)
    have firstOnDisk := onDisk (first ++ [op])
    rw [firstRan] at firstOnDisk
    obtain ⟨between, firstRun, viewEq⟩ :=
      BlockProg.run_of_onDisk coherent firstOnDisk
    obtain ⟨blocks, inodes⟩ :=
      continues.within (first ++ [op]) rest _ between
        (by rw [split]; simp) firstRun
    rw [viewEq] at blocks inodes
    refine ⟨continues.names op (by rw [split]; simp),
      ⟨blocks, inodes, ?_⟩, spared⟩
    intro made offset buf eventEq isWrite isRoot
    exact (spared made eventEq isRoot).2 offset buf isWrite

/--
A `create` that does no harm: it returns `None` and changes nothing, or it
returns an inode, and however a session goes on, `find` and `ls` return and
find the new file, and `create` returns.
-/
def Harmless (g : Geometry) (state : CacheState) (name : String) : Prop :=
  ∃ result after,
    (Inode.create g.efs g.efs.rootInode name).run state = .ok (result, after) ∧
      match result with
      | none => after.view = state.view
      | some inode =>
        ∀ later final, g.Continues after later final →
          (∀ other, ∃ found between,
            (Inode.find g.efs g.efs.rootInode other).run final =
                .ok (found, between) ∧
              (other = name → found = some inode)) ∧
          (∃ names between,
            (Inode.ls g.efs.rootInode).run final = .ok (names, between) ∧
              name ∈ names) ∧
          ∀ other, DirEntry.GivesName other →
            g.Available final.view → g.NotFull final.view →
              ∃ created between,
                (Inode.create g.efs g.efs.rootInode other).run final =
                  .ok (created, between)

/-- Where the root directory can be walked, `find` returns. -/
theorem find_returns {state : CacheState} (coherent : state.Coherent [] [])
    (tidyWith : g.TidyWith (handles, state.view) entries)
    {found : Option (BitVec 32)} (searched : lookup name entries = .ok found) :
    ∃ between,
      (Inode.find g.efs g.efs.rootInode name).run state =
        .ok (found.map fun inodeId => g.efs.inode inodeId.toNat,
          between) := by
  obtain ⟨nodes, root, tidy⟩ := tidyWith
  have onDisk := tidy.onDisk_find name
  rw [searched] at onDisk
  obtain ⟨between, ran, _⟩ := BlockProg.run_of_onDisk coherent onDisk
  exact ⟨between, ran⟩

/-- Where the new file is found, later calls return and find it. -/
theorem Finds.later (coherent : final.Coherent [] [])
    (finds : g.Finds name inode (handles, final.view)) :
    (∀ other, ∃ found between,
      (Inode.find g.efs g.efs.rootInode other).run final =
          .ok (found, between) ∧
        (other = name → found = some inode)) ∧
    (∃ names between,
      (Inode.ls g.efs.rootInode).run final = .ok (names, between) ∧
        name ∈ names) ∧
    ∀ other, DirEntry.GivesName other →
      g.Available final.view → g.NotFull final.view →
        ∃ created between,
          (Inode.create g.efs g.efs.rootInode other).run final =
            .ok (created, between) := by
  obtain ⟨entries, inodeId, tidyWith, legible, foundEq, inodeEq⟩ := finds
  refine ⟨?_, ?_, ?_⟩
  · intro other
    obtain ⟨found, searched⟩ := legible.lookup other
    obtain ⟨between, ran⟩ := find_returns coherent tidyWith searched
    refine ⟨_, between, ran, ?_⟩
    rintro rfl
    rw [foundEq] at searched
    rw [← Except.ok.inj searched, inodeEq]
    rfl
  · obtain ⟨names, listed⟩ := legible_iff_listing.mp legible
    obtain ⟨nodes, root, tidy⟩ := tidyWith
    have onDisk := tidy.onDisk_ls
    rw [listed] at onDisk
    obtain ⟨between, ran, _⟩ := BlockProg.run_of_onDisk coherent onDisk
    exact ⟨names, between, ran, mem_listing_of_lookup foundEq listed⟩
  · rintro other ⟨entry, _, made, _⟩ available notFull
    obtain ⟨nodes, root, tidy⟩ := tidyWith
    obtain ⟨found, searched⟩ := legible.lookup other
    have returns :
        ∃ created last,
          (Inode.create g.efs g.efs.rootInode other).onDisk [] final.view =
            .ok (created, last) := by
      cases found with
      | some inodeId =>
        exact ⟨none, final.view,
          (tidy.onDisk_create searched).mpr (.inl ⟨rfl, rfl, rfl⟩)⟩
      | none =>
        obtain ⟨newInode, last, created⟩ :=
          tidy.createFile_returns available notFull
            (DirEntry.name_of_new made).1
        exact ⟨some newInode, last,
          (tidy.onDisk_create searched).mpr
            (.inr ⟨rfl, newInode, rfl, created⟩)⟩
    obtain ⟨created, last, onDisk⟩ := returns
    obtain ⟨between, ran, _⟩ := BlockProg.run_of_onDisk coherent onDisk
    exact ⟨created, between, ran⟩

/-- The root directory is all that a session on it needs to have. -/
theorem Tidy.fromRoot (tidy : g.Tidy handles disk nodes root entries) :
    g.Tidy [g.efs.rootInode] disk nodes root entries := by
  refine ⟨tidy.consistent, tidy.rootAt, tidy.directory, tidy.pointers,
    tidy.files, ?_⟩
  intro inode member
  exact ⟨0, (List.getElem?_eq_some_iff.mp tidy.rootAt).1,
    mem_singleton.mp member⟩

section NotFound

variable {state : CacheState} (coherent : state.Coherent [] [])
  (tidy : g.Tidy handles state.view nodes root entries)
  (noNul : 0 ∉ DirEntry.nameBytes name)
  (available : g.Available state.view)
  (absent : lookup name entries = .ok none)

include coherent tidy noNul available absent

/-- A new name that does no harm is short, and there is room for it. -/
theorem Harmless.short (harmless : g.Harmless state name) :
    (DirEntry.nameBytes name).length ≤ 27 ∧ g.NotFull state.view := by
  obtain ⟨result, after, ran, safe⟩ := harmless
  obtain ⟨afterCoherent, onDisk⟩ := BlockProg.onDisk_of_run coherent ran
  rcases (tidy.onDisk_create absent).mp onDisk with
    ⟨isFound, _⟩ | ⟨_, newInode, rfl, created⟩
  · cases isFound
  · obtain ⟨notFull, within, few⟩ := tidy.createFile_within available created
    obtain ⟨entry, made, _, _, _, tidyNow⟩ :=
      tidy.createFile created within few
    have going : g.Continues after [] after := by
      refine ⟨⟨[], [g.efs.rootInode], rfl, ?_⟩, ?_, ?_⟩
      · exact fun _ member => nomatch member
      · exact fun _ member => nomatch member
      · intro first rest outcome between split returned
        obtain ⟨rfl, _⟩ := append_eq_nil_iff.mp split.symm
        cases returned
        exact ⟨within, few⟩
    obtain ⟨_, ⟨names, between, listRan, _⟩, _⟩ := safe [] after going
    obtain ⟨_, listed⟩ := BlockProg.onDisk_of_run afterCoherent listRan
    have gives := tidyNow.givesName_of_ls made listed
    exact ⟨(DirEntry.givesName_iff noNul).mp gives, notFull⟩

/-- A short new name does no harm where there is room for it. -/
theorem harmless_of_short (legible : Legible entries)
    (short : (DirEntry.nameBytes name).length ≤ 27)
    (notFull : g.NotFull state.view) : g.Harmless state name := by
  obtain ⟨newInode, last, created⟩ :=
    tidy.createFile_returns available notFull (Nat.le_succ_of_le short)
  obtain ⟨_, within, few⟩ := tidy.createFile_within available created
  obtain ⟨entry, made, inodeEq, nodesNow, rootNow, tidyNow⟩ :=
    tidy.createFile created within few
  have onDisk :=
    (tidy.onDisk_create absent).mpr (.inr ⟨rfl, newInode, rfl, created⟩)
  obtain ⟨after, ran, rfl⟩ := BlockProg.run_of_onDisk coherent onDisk
  obtain ⟨afterCoherent, _⟩ := BlockProg.onDisk_of_run coherent ran
  have textEq : entry.nameOf = .ok name := by
    obtain ⟨other, otherMade, otherText, _⟩ :=
      DirEntry.nameOf_new ⟨short, noNul⟩ (BitVec.ofNat 32 nodes.length)
    rw [made] at otherMade
    cases otherMade
    exact otherText
  have finds :
      g.Finds name newInode ([g.efs.rootInode], after.view) :=
    ⟨_, entry.inodeId, ⟨nodesNow, rootNow, tidyNow.fromRoot⟩,
      legible.append textEq, lookup_append_none absent textEq, inodeEq⟩
  refine ⟨some newInode, after, ran, ?_⟩
  intro later final continues
  obtain ⟨events, handlesNow, returned, _⟩ := continues.returned
  obtain ⟨finalCoherent, _⟩ := BlockProg.onDisk_of_run afterCoherent returned
  obtain ⟨_, findsNow⟩ := continues.finds afterCoherent finds
  exact findsNow.later finalCoherent

end NotFound

section Reached

variable (g) (device : BlockDevice) (ops : List Op)
  (outcome : EasyFileSystem × List (Option Event) × List Inode)
  (state : CacheState)
  (reached :
    (newSession g.totalBlocks g.inodeBitmapBlocks ops).run
        (CacheState.start device) =
      .ok (outcome, state))
  (within : g.WithinLimits device ops)
  (toFiles :
    ∀ event offset buf, some event ∈ outcome.2.1 →
      event.call = .writeAt offset buf → event.inode ≠ g.efs.rootInode)
  (names : NamesGiven ops)

include reached within toFiles names

/--
In every session within the limits that writes to files and passes names to
`create` that give a name back, a name without NUL does no harm exactly when
it is there already, or is at most 27 bytes long and the directory is not
full.
-/
theorem create_harmless_iff
    (name : String) (noNul : 0 ∉ DirEntry.nameBytes name)
    (available : g.Available state.view) :
    g.Harmless state name ↔
      (∃ inode after,
        (Inode.find g.efs g.efs.rootInode name).run state =
          .ok (some inode, after)) ∨
        ((DirEntry.nameBytes name).length ≤ 27 ∧ g.NotFull state.view) := by
  have coherent :=
    (run_newSession_settled (CacheState.start_coherent device) reached).1
  obtain ⟨entries, ⟨nodes, root, tidy⟩, legible⟩ :=
    session_keeps
      (fun _ isFresh => ⟨[], isFresh.tidyWith, fun _ member => nomatch member⟩)
      (fun isOp holds stepEq fine =>
        IsLegible.step holds (names _ isOp) stepEq fine)
      reached within toFiles
  obtain ⟨found, searched⟩ := legible.lookup name
  obtain ⟨between, findRan⟩ :=
    find_returns coherent ⟨nodes, root, tidy⟩ searched
  cases found with
  | some inodeId =>
    refine ⟨fun _ => .inl ⟨_, between, findRan⟩, fun _ => ?_⟩
    have onDisk := (tidy.onDisk_create searched).mpr (.inl ⟨rfl, rfl, rfl⟩)
    obtain ⟨after, ran, viewEq⟩ := BlockProg.run_of_onDisk coherent onDisk
    exact ⟨none, after, ran, viewEq⟩
  | none =>
    constructor
    · intro harmless
      exact .inr (harmless.short coherent tidy noNul available searched)
    · rintro (⟨inode, after, otherRan⟩ | ⟨short, notFull⟩)
      · rw [findRan] at otherRan
        cases otherRan
      · exact harmless_of_short coherent tidy noNul available searched
          legible short notFull

end Reached

/-- A new file system has room for a file, unless it is tiny. -/
theorem Fresh.available (fresh : g.Fresh disk)
    (inodes : 1 < g.efs.inodeBitmap.maximum) (blocks : 1 ≤ g.dataAreaBlocks) :
    g.Available disk ∧ g.NotFull disk := by
  have consistent := fresh.consistent
  have rep := consistent.holding.represented 0 _ rfl
  have size : (g.inodeAt disk 0).size.toNat = 0 := rep.size
  refine ⟨⟨?_, ?_⟩, ?_⟩
  · rw [consistent.inodeBits.used_eq consistent.slots]
    exact Nat.lt_min.mpr ⟨inodes, by decide⟩
  · intro needed isNeeded
    have all := consistent.used_add_free
    have used : g.efs.dataBitmap.used disk = 0 := consistent.used_eq
    have total :=
      DiskInode.blocksNumNeeded_eq (Nat.le_add_right _ _)
        (by rw [size]; decide) isNeeded
    rw [size] at total
    have one : 0 + needed = 1 := total
    omega
  · rw [NotFull, size]
    decide

theorem create_harmless_iff_small :
    ∃ outcome state,
      (newSession 1037 1 []).run (CacheState.start ⟨fun _ => zeros⟩) =
          .ok (outcome, state) ∧
        small.Harmless state "a" := by
  obtain ⟨fresh, isFresh, onCache⟩ := small.run_newSession ⟨fun _ => zeros⟩
  obtain ⟨state, returned, rfl⟩ :=
    (onCache [] (small.efs, [], [small.efs.rootInode]) fresh).mpr
      ⟨rfl, rfl⟩
  obtain ⟨available, notFull⟩ := isFresh.available (by decide) (by decide)
  have allowed : small.AllowedSession [] := by decide +kernel
  refine ⟨_, state, returned, ?_⟩
  apply (create_harmless_iff small ⟨fun _ => zeros⟩ [] _ state returned
    (allowed.withinLimits _ (by decide +kernel))
    (fun _ _ _ member => nomatch member) (fun _ member => nomatch member)
    "a" (by decide +kernel) available).mpr
  exact .inr ⟨by decide +kernel, notFull⟩

/-- A name of 28 bytes. -/
def longName : String := "aaaaaaaaaaaaaaaaaaaaaaaaaaaa"

/-- A name of 28 bytes is created, and then the directory cannot be listed. -/
theorem create_long_name_poisons :
    0 ∉ DirEntry.nameBytes longName ∧
      ∃ outcome state inode after,
        (newSession 1037 1 []).run (CacheState.start ⟨fun _ => zeros⟩) =
            .ok (outcome, state) ∧
          small.Available state.view ∧
          (Inode.create small.efs small.efs.rootInode longName).run state =
            .ok (some inode, after) ∧
          (∀ names last,
            (Inode.ls small.efs.rootInode).run after ≠ .ok (names, last)) ∧
          ¬ small.Harmless state longName := by
  have noNul : 0 ∉ DirEntry.nameBytes longName := by decide +kernel
  have long : (DirEntry.nameBytes longName).length = 28 := by decide +kernel
  obtain ⟨fresh, isFresh, onCache⟩ := small.run_newSession ⟨fun _ => zeros⟩
  obtain ⟨state, returned, rfl⟩ :=
    (onCache [] (small.efs, [], [small.efs.rootInode]) fresh).mpr
      ⟨rfl, rfl⟩
  have coherent :=
    (run_newSession_settled (CacheState.start_coherent _) returned).1
  obtain ⟨available, notFull⟩ := isFresh.available (by decide) (by decide)
  obtain ⟨nodes, root, tidy⟩ := isFresh.tidyWith
  obtain ⟨newInode, last, created⟩ :=
    tidy.createFile_returns available notFull (Nat.le_of_eq long)
  obtain ⟨_, within, few⟩ := tidy.createFile_within available created
  obtain ⟨entry, made, _, _, _, tidyNow⟩ := tidy.createFile created within few
  have onDisk :=
    (tidy.onDisk_create rfl).mpr (.inr ⟨rfl, newInode, rfl, created⟩)
  obtain ⟨after, ran, rfl⟩ := BlockProg.run_of_onDisk coherent onDisk
  obtain ⟨afterCoherent, _⟩ := BlockProg.onDisk_of_run coherent ran
  refine ⟨noNul, _, state, newInode, after, returned, available, ran, ?_, ?_⟩
  · intro names last listRan
    obtain ⟨_, listed⟩ := BlockProg.onDisk_of_run afterCoherent listRan
    have short :=
      (DirEntry.givesName_iff noNul).mp
        (tidyNow.givesName_of_ls made listed)
    omega
  · intro harmless
    obtain ⟨short, _⟩ := harmless.short coherent tidy noNul available rfl
    omega

end Geometry

end RCoreOS.EasyFs
