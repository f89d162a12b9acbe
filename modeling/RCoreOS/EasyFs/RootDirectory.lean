import RCoreOS.EasyFs.FileContents

/-!
# The root directory is a finite map

What `create`, `find` and `ls` return, in terms of the files that the session
has created before.  All calls return as long as the root directory stays
within the largest file, which gives room for 264640 entries.

The bound is not implied by enough free inodes and blocks: with 65 blocks of
inode bitmap there are inodes for one more file, and its `create` panics.
-/

namespace RCoreOS.EasyFs

open Lib.FallibleRuns DirEntry List FileTable Slot

/-! ## The files that a session has created -/

/-- The file that an event created: its name, and the inode returned. -/
def Event.created (event : Event) : Option (String × Inode) :=
  match event.call, event.response with
  | .create name, .inode (some inode) => some (name, inode)
  | _, _ => none

/-- The files that were created, in order. -/
def createdBy (events : List (Option Event)) : List (String × Inode) :=
  events.filterMap fun event => event.bind Event.created

/-- The response of a call on the root, given the files created before. -/
def Event.Proper
    (root : Inode) (created : List (String × Inode)) (event : Event) : Prop :=
  match event.call with
  | .create name =>
    if name ∈ created.map Prod.fst then
      event.response = .inode none
    else
      ∃ inode,
        event.response = .inode (some inode) ∧
          inode ≠ root ∧ inode ∉ created.map Prod.snd
  | .find name => event.response = .inode (created.lookup name)
  | .ls => event.response = .names (created.map Prod.fst)
  | _ => True

/-- Names with the positions of consecutive inode ids. -/
def positionsFrom (g : Geometry) (start : Nat) :
    List String → List (String × Inode)
  | [] => []
  | name :: rest =>
    (name, g.efs.inode start) :: positionsFrom g (start + 1) rest

section Positions

variable (g : Geometry) (start : Nat) (names : List String)

theorem map_fst_positionsFrom :
    (positionsFrom g start names).map Prod.fst = names := by
  induction names generalizing start with
  | nil => rfl
  | cons name rest ih => rw [positionsFrom, map_cons, ih]

theorem positionsFrom_concat (name : String) :
    positionsFrom g start (names ++ [name]) =
      positionsFrom g start names ++
        [(name, g.efs.inode (start + names.length))] := by
  induction names generalizing start with
  | nil => rfl
  | cons first rest ih =>
    have shifted : start + 1 + rest.length = start + (rest.length + 1) := by
      omega
    rw [cons_append, positionsFrom, ih, shifted]
    rfl

theorem lookup_positionsFrom (name : String) :
    (positionsFrom g start names).lookup name =
      (names.findIdx? (· == name)).map fun index =>
        g.efs.inode (start + index) := by
  induction names generalizing start with
  | nil => rfl
  | cons first rest ih =>
    rw [positionsFrom, lookup_cons, findIdx?_cons]
    by_cases same : first = name
    · subst same
      simp
    · have differ : (name == first) = false := by
        simpa using fun equal : name = first => same equal.symm
      rw [differ, if_neg (by simpa using same), Option.map_map]
      show (positionsFrom g (start + 1) rest).lookup name = _
      rw [ih]
      congr 1
      funext index
      show g.efs.inode (start + 1 + index) = g.efs.inode (start + (index + 1))
      rw [Nat.add_assoc, Nat.add_comm 1]

theorem mem_positionsFrom {inode : Inode}
    (member : inode ∈ (positionsFrom g start names).map Prod.snd) :
    ∃ id, start ≤ id ∧ id < start + names.length ∧
      inode = g.efs.inode id := by
  induction names generalizing start with
  | nil => cases member
  | cons name rest ih =>
    rw [positionsFrom, map_cons, mem_cons] at member
    rcases member with rfl | later
    · exact ⟨start, Nat.le_refl start, by simp, rfl⟩
    · obtain ⟨id, lower, upper, equal⟩ := ih (start + 1) later
      refine ⟨id, by omega, ?_, equal⟩
      rw [length_cons]
      omega

end Positions

namespace FileTable

variable {g : Geometry} {table : FileTable} {op : Op}

/-- The names of the files with the positions of their inodes. -/
def positions (g : Geometry) (table : FileTable) : List (String × Inode) :=
  positionsFrom g 1 table.names

theorem map_fst_positions (g : Geometry) (table : FileTable) :
    (table.positions g).map Prod.fst = table.names :=
  map_fst_positionsFrom g 1 table.names

theorem lookup_positions (g : Geometry) (table : FileTable)
    (name : String) :
    (table.positions g).lookup name = (table.idOf name).map g.efs.inode := by
  rw [positions, lookup_positionsFrom, idOf, Option.map_map]
  congr 1
  funext index
  show g.efs.inode (1 + index) = g.efs.inode (index + 1)
  rw [Nat.add_comm]

theorem positions_add (g : Geometry) (table : FileTable) (name : String) :
    (table.add name).positions g =
      table.positions g ++
        [(name, g.efs.inode (table.files.length + 1))] := by
  rw [positions, names_add, positionsFrom_concat, length_names, Nat.add_comm 1]
  rfl

/-- A step adds to the positions what its event created. -/
theorem positions_step (g : Geometry) (table : FileTable) (op : Op) :
    (table.step g op).1.positions g =
      table.positions g ++ createdBy [(table.step g op).2] := by
  cases present : table.handles[op.handle]? with
  | none =>
    rw [step, present]
    exact (append_nil _).symm
  | some id =>
    rw [step_some present]
    cases op.call with
    | create name =>
      rw [FileTable.call]
      split
      · exact (append_nil _).symm
      · exact positions_add g table name
    | find name =>
      rw [FileTable.call]
      cases table.idOf name <;> exact (append_nil _).symm
    | ls => exact (append_nil _).symm
    | readAt offset buf => exact (append_nil _).symm
    | writeAt offset buf
    | clear =>
      show positionsFrom g 1 (table.setContent _ _).names = _
      rw [names_setContent]
      exact (append_nil _).symm

variable {event : Event}

/-- The event of an allowed step is proper. -/
theorem proper_step (allowed : table.Allowed g op)
    (shown : (table.step g op).2 = some event) :
    event.Proper g.efs.rootInode (table.positions g) := by
  obtain ⟨⟨id, present, sensible⟩, fits⟩ := allowed
  rw [step_some present] at shown fits
  cases shown
  rw [Event.Proper]
  cases calls : op.call with
  | create name =>
    rw [calls] at fits
    dsimp only
    rw [map_fst_positions, FileTable.call]
    rw [FileTable.call] at fits
    by_cases known : name ∈ table.names
    · rw [if_pos known, if_pos known]
    · rw [if_neg known] at fits
      rw [if_neg known, if_neg known]
      have inodes : (table.add name).files.length + 1 ≤
          g.efs.inodeBitmap.maximum := fits.1
      rw [files_length_add] at inodes
      refine ⟨_, rfl, ?_, ?_⟩
      · intro equal
        have same := Geometry.efs_inode_inj (by omega) (by omega) equal
        omega
      · intro member
        obtain ⟨other, _, upper, equal⟩ :=
          mem_positionsFrom g 1 table.names member
        rw [names, length_map] at upper
        have same := Geometry.efs_inode_inj (by omega) (by omega) equal
        omega
  | find name =>
    dsimp only
    rw [lookup_positions, FileTable.call]
    cases table.idOf name <;> rfl
  | ls =>
    dsimp only
    rw [map_fst_positions]
    rfl
  | readAt offset buf => trivial
  | writeAt offset buf => trivial
  | clear => trivial

theorem nodup_step (distinct : table.names.Nodup) :
    (table.step g op).1.names.Nodup := by
  cases present : table.handles[op.handle]? with
  | none =>
    rw [step, present]
    exact distinct
  | some id =>
    rw [step_some present]
    cases op.call with
    | create name =>
      rw [FileTable.call]
      split
      · exact distinct
      · next new =>
          show ((table.files ++ [(name, [])]).map Prod.fst).Nodup
          rw [map_append]
          exact distinct.append (nodup_singleton name)
            (disjoint_singleton.mpr new)
    | find name =>
      rw [FileTable.call]
      cases table.idOf name <;> exact distinct
    | ls => exact distinct
    | readAt offset buf => exact distinct
    | writeAt offset buf
    | clear =>
      show (table.setContent _ _).names.Nodup
      rw [names_setContent]
      exact distinct

/-- A `create` that returns `None` changes nothing. -/
theorem step_duplicate {name : String}
    (shown : (table.step g op).2 = some event)
    (isCreate : event.call = .create name)
    (duplicate : event.response = .inode none) :
    (table.step g op).1 = table := by
  cases present : table.handles[op.handle]? with
  | none => rw [step, present]
  | some id =>
    rw [step_some present] at shown ⊢
    cases shown
    dsimp only at isCreate duplicate ⊢
    rw [isCreate, FileTable.call] at duplicate ⊢
    split
    · rfl
    · next new =>
        rw [if_neg new] at duplicate
        cases duplicate

end FileTable

namespace Geometry

variable {g : Geometry}

/-! ## Sessions -/

theorem createdBy_append (first rest : List (Option Event)) :
    createdBy (first ++ rest) = createdBy first ++ createdBy rest :=
  filterMap_append

/-- The files of the table are those that the session has created. -/
theorem createdBy_reference (g : Geometry) (ops : List Op) :
    createdBy (g.reference ops).2 = (g.reference ops).1.positions g := by
  induction ops using List.reverseRecOn with
  | nil => rfl
  | append_singleton ops last ih =>
    rw [reference, totalRun_concat, createdBy_append,
      positions_step, ← reference, ih]

variable {ops : List Op} {event : Event}

/-- The events of allowed calls are proper. -/
theorem proper_reference (allowed : g.AllowedSession ops)
    {earlier later : List (Option Event)}
    (shown : (g.reference ops).2 = earlier ++ some event :: later) :
    event.Proper g.efs.rootInode (createdBy earlier) := by
  obtain ⟨first, op, rest, rfl, earlierEq, eventEq, _⟩ := totalRun_output shown
  have created := g.createdBy_reference first
  rw [reference, earlierEq] at created
  rw [created]
  exact proper_step allowed.split eventEq

/-- Without a `create` that returns `None` a session is the same. -/
theorem reference_duplicate (allowed : g.AllowedSession ops)
    {index : Nat} {name : String}
    (shown : (g.reference ops).2[index]? = some (some event))
    (isCreate : event.call = .create name)
    (duplicate : event.response = .inode none) :
    g.AllowedSession (ops.eraseIdx index) ∧
      g.reference (ops.eraseIdx index) =
        ((g.reference ops).1, (g.reference ops).2.eraseIdx index) := by
  obtain ⟨inside, eventAt⟩ := List.getElem?_eq_some_iff.mp shown
  have split := take_append_drop index (g.reference ops).2
  rw [drop_eq_getElem_cons inside, eventAt] at split
  obtain ⟨first, op, rest, rfl, earlierEq, eventEq, laterEq⟩ :=
    totalRun_output split.symm
  have unchanged := step_duplicate eventEq isCreate duplicate
  have length : first.length = index := by
    have counted := congrArg List.length earlierEq
    rw [length_totalRun, length_take] at counted
    omega
  have opsEq : (first ++ op :: rest).eraseIdx index = first ++ rest := by
    rw [← length, eraseIdx_append_of_length_le (Nat.le_refl _), Nat.sub_self]
    rfl
  obtain ⟨firstAllowed, _, restAllowed⟩ := allowedRun_append.mp allowed
  rw [unchanged] at restAllowed
  rw [opsEq]
  refine ⟨allowedRun_append.mpr ⟨firstAllowed, restAllowed⟩, ?_⟩
  rw [reference, reference, totalRun_append, totalRun_append, totalRun]
  dsimp only
  rw [unchanged, ← length, eraseIdx_append_of_length_le
    (Nat.le_of_eq (length_totalRun _ _ _)), length_totalRun, Nat.sub_self]
  rfl

/-- No two files of the table have one name. -/
theorem nodup_reference (g : Geometry) (ops : List Op) :
    (g.reference ops).1.names.Nodup := by
  induction ops using List.reverseRecOn with
  | nil => exact nodup_nil
  | append_singleton ops last ih =>
    rw [reference, totalRun_concat]
    exact nodup_step ih

/--
The root directory is a finite map.  In every session of allowed calls within
the capacity of the directory all calls return, `create`, `find` and `ls`
return what the files created before say, and a `create` that returns `None`
could have been left out.
-/
theorem root_directory_is_map
    (g : Geometry) (device : BlockDevice) (ops : List Op)
    (allowed : g.AllowedSession ops)
    (capacity : (g.reference ops).1.files.length ≤ 264640) :
    ∃ events handles state,
      (newSession g.totalBlocks g.inodeBitmapBlocks ops).run
            (CacheState.start device) =
          .ok ((g.efs, events, handles), state) ∧
        ((createdBy events).map Prod.fst).Nodup ∧
        (∀ earlier event later, events = earlier ++ some event :: later →
          event.Proper g.efs.rootInode (createdBy earlier)) ∧
        ∀ index event name, events[index]? = some (some event) →
          event.call = .create name → event.response = .inode none →
            ∃ after,
              (newSession g.totalBlocks g.inodeBitmapBlocks
                    (ops.eraseIdx index)).run (CacheState.start device) =
                .ok ((g.efs, events.eraseIdx index, handles), after) := by
  obtain ⟨state, returned, _⟩ := newSession_returns device allowed capacity
  refine ⟨_, _, state, returned, ?_, ?_, ?_⟩
  · rw [createdBy_reference, map_fst_positions]
    exact g.nodup_reference ops
  · intro earlier event later split
    exact proper_reference allowed split
  · intro index event name shown isCreate duplicate
    obtain ⟨stillAllowed, sameRun⟩ :=
      reference_duplicate allowed shown isCreate duplicate
    have room : (g.reference (ops.eraseIdx index)).1.files.length ≤ 264640 := by
      rw [sameRun]
      exact capacity
    obtain ⟨after, again, _⟩ := newSession_returns device stillAllowed room
    rw [outcome, sameRun] at again
    exact ⟨after, again⟩

/-- Two files, a repeated name, and a look at the directory. -/
def directoryOps : List Op :=
  [⟨0, .create "a"⟩, ⟨0, .create "b"⟩, ⟨0, .create "a"⟩, ⟨0, .find "b"⟩,
    ⟨1, .writeAt 0 [7]⟩, ⟨0, .find "c"⟩, ⟨0, .ls⟩]

theorem root_directory_is_map_small :
    ∃ events handles state,
      (newSession 1037 1 directoryOps).run
            (CacheState.start ⟨fun _ => Lib.Bytes.zeros⟩) =
          .ok ((small.efs, events, handles), state) ∧
        ((createdBy events).map Prod.fst).Nodup ∧
        (∀ earlier event later, events = earlier ++ some event :: later →
          event.Proper small.efs.rootInode (createdBy earlier)) ∧
        ∀ index event name, events[index]? = some (some event) →
          event.call = .create name → event.response = .inode none →
            ∃ after,
              (newSession 1037 1 (directoryOps.eraseIdx index)).run
                  (CacheState.start ⟨fun _ => Lib.Bytes.zeros⟩) =
                .ok ((small.efs, events.eraseIdx index, handles), after) :=
  root_directory_is_map small ⟨fun _ => Lib.Bytes.zeros⟩ directoryOps
    (by decide +kernel) (by decide +kernel)

/-! ## A full root directory -/

/-- Sessions that only create files. -/
def creates (names : List String) : List Op :=
  names.map fun name => ⟨0, .create name⟩

theorem creates_concat (names : List String) (name : String) :
    creates (names ++ [name]) = creates names ++ [⟨0, .create name⟩] :=
  map_append

variable {names : List String}

theorem reference_creates (g : Geometry) (distinct : names.Nodup) :
    (g.reference (creates names)).1 =
      ⟨names.map (·, []), List.range (names.length + 1)⟩ := by
  induction names using List.reverseRecOn with
  | nil => rfl
  | append_singleton names name ih =>
    obtain ⟨front, _, apart⟩ := nodup_append.mp distinct
    have new : name ∉ names := by
      intro member
      exact apart name member name (mem_singleton.mpr rfl) rfl
    have table := ih front
    rw [creates_concat, reference, totalRun_concat]
    rw [reference] at table
    dsimp only
    rw [table]
    have newName :
        name ∉ FileTable.names
          ⟨names.map (·, []), List.range (names.length + 1)⟩ := by
      rw [FileTable.names, map_map]
      simpa using new
    have root :
        (List.range (names.length + 1))[0]? = some 0 := by
      simp
    rw [step_some root, FileTable.call, if_neg newName]
    simp [FileTable.add, FileTable.obtain_, range_succ]

/-- The blocks of a file system with empty files. -/
theorem blocks_empty (names : List String) (handles : List Nat) :
    FileTable.blocks ⟨names.map (·, []), handles⟩ =
      blockCount (dataCount (32 * names.length)) := by
  have none : blockCount (dataCount 0) = 0 := rfl
  rw [FileTable.blocks, map_map, length_map]
  simp [Function.comp_def, none]

theorem allowed_creates (g : Geometry) (distinct : names.Nodup)
    (valid : ∀ name ∈ names, DirEntry.ValidName name)
    (inodes : names.length + 1 ≤ g.efs.inodeBitmap.maximum)
    (blocks :
      blockCount (dataCount (32 * names.length)) ≤ g.dataAreaBlocks) :
    g.AllowedSession (creates names) := by
  induction names using List.reverseRecOn with
  | nil => trivial
  | append_singleton names name ih =>
    have table := g.reference_creates distinct
    rw [length_append, length_singleton] at inodes blocks
    have fewer :
        blockCount (dataCount (32 * names.length)) ≤
          g.dataAreaBlocks := by
      refine Nat.le_trans (blockCount_mono ?_) blocks
      rw [dataCount, dataCount]
      omega
    rw [creates_concat] at table ⊢
    refine allowedRun_append.mpr ⟨?_, ⟨⟨0, ?_, rfl, ?_⟩, ?_⟩, trivial⟩
    · refine ih distinct.of_append_left ?_ (by omega) fewer
      intro other member
      exact valid other (mem_append_left _ member)
    · show (g.reference (creates names)).1.handles[0]? = some 0
      rw [g.reference_creates distinct.of_append_left]
      simp
    · exact valid name (by simp)
    · rw [reference, totalRun_concat] at table
      dsimp only at table
      rw [table, FileTable.Fits, blocks_empty]
      simp only [length_map, length_append, length_singleton]
      exact ⟨inodes, blocks⟩

/-- The `k` low bits of a number, as text. -/
def bitName : Nat → Nat → String
  | 0, _ => ""
  | k + 1, n => bitName k (n / 2) ++ if n % 2 = 0 then "0" else "1"

theorem nameBytes_append (first second : String) :
    nameBytes (first ++ second) =
      nameBytes first ++ nameBytes second := by
  simp [nameBytes]

theorem nameBytes_bitName_succ (k n : Nat) :
    nameBytes (bitName (k + 1) n) =
      nameBytes (bitName k (n / 2)) ++
        [if n % 2 = 0 then 48 else 49] := by
  rw [bitName, nameBytes_append]
  split <;> rfl

theorem length_bitName (k n : Nat) :
    (nameBytes (bitName k n)).length = k := by
  induction k generalizing n with
  | zero => rfl
  | succ k ih =>
    rw [nameBytes_bitName_succ, length_append, ih, length_singleton]

theorem zero_notMem_bitName (k n : Nat) :
    0 ∉ nameBytes (bitName k n) := by
  induction k generalizing n with
  | zero => exact not_mem_nil
  | succ k ih =>
    rw [nameBytes_bitName_succ, mem_append, mem_singleton]
    rintro (front | last)
    · exact ih (n / 2) front
    · split at last <;> cases last

theorem bitName_inj {k n other : Nat}
    (below : n < 2 ^ k) (otherBelow : other < 2 ^ k)
    (equal : bitName k n = bitName k other) : n = other := by
  induction k generalizing n other with
  | zero => omega
  | succ k ih =>
    have bytes := congrArg nameBytes equal
    rw [nameBytes_bitName_succ, nameBytes_bitName_succ] at bytes
    obtain ⟨front, last⟩ := append_inj' bytes rfl
    have halves : n / 2 = other / 2 := by
      refine ih (by omega) (by omega) ?_
      have texts := congrArg (String.fromUTF8? ·.toByteArray) front
      simpa only [DirEntry.fromUTF8?_nameBytes, Option.some.injEq]
        using texts
    have parity : n % 2 = other % 2 := by
      have bytes := singleton_inj.mp last
      split at bytes <;> split at bytes <;>
        first | omega | exact absurd bytes (by decide)
    omega

/-- 65 blocks of inode bitmap, with room for 266240 inodes. -/
def crowded : Geometry := ⟨90000, 65, by decide, by decide, by decide⟩

/-- As many files as asked for, with names of 20 binary digits. -/
@[irreducible]
def manyNames (count : Nat) : List String :=
  (List.range count).map (bitName 20)

theorem length_manyNames (count : Nat) : (manyNames count).length = count := by
  rw [manyNames, length_map, length_range]

variable {count : Nat}

theorem nodup_manyNames (few : count ≤ 2 ^ 20) :
    (manyNames count).Nodup := by
  rw [manyNames]
  refine List.Nodup.map_on ?_ nodup_range
  intro n below other otherBelow equal
  rw [mem_range] at below otherBelow
  exact bitName_inj (by omega) (by omega) equal

theorem valid_manyNames {name : String}
    (member : name ∈ manyNames count) : DirEntry.ValidName name := by
  rw [manyNames] at member
  obtain ⟨n, _, rfl⟩ := mem_map.mp member
  refine ⟨?_, zero_notMem_bitName 20 n⟩
  rw [length_bitName]
  decide

/-- A directory has no room for more than 264640 files. -/
theorem newSession_creates_fails (g : Geometry) (device : BlockDevice)
    (distinct : names.Nodup) (allowed : g.AllowedSession (creates names))
    (many : 264640 < names.length)
    (result :
      (EasyFileSystem × List (Option Event) × List Inode) × CacheState) :
    (newSession g.totalBlocks g.inodeBitmapBlocks (creates names)).run
        (CacheState.start device) ≠
      .ok result := by
  intro returned
  have returns :
      ∀ first op rest, creates names = first ++ op :: rest →
        ∃ result,
          (newSession g.totalBlocks g.inodeBitmapBlocks
              (first ++ [op])).run (CacheState.start device) =
            .ok result := by
    intro first op rest split
    rw [split, ← singleton_append, ← append_assoc] at returned
    exact g.newSession_first returned
  obtain ⟨_, _, nodes, shows_⟩ :=
    newSession_matches device allowed fun first op rest split _ =>
      .inr (returns first op rest split)
  have capacity := shows_.files_le
  rw [g.reference_creates distinct, length_map] at capacity
  omega

theorem crowded_fails (distinct : names.Nodup)
    (valid : ∀ name ∈ names, DirEntry.ValidName name)
    (length : names.length = 264641) :
    crowded.AllowedSession (creates names) ∧
      ∀ result,
        (newSession 90000 65 (creates names)).run
            (CacheState.start ⟨fun _ => Lib.Bytes.zeros⟩) ≠
          .ok result := by
  have allowed : crowded.AllowedSession (creates names) := by
    refine allowed_creates crowded distinct valid ?_ ?_
    · rw [length]
      decide
    · rw [length]
      decide
  exact ⟨allowed,
    newSession_creates_fails crowded _ distinct allowed (by omega)⟩

/-- There are inodes and blocks for one more file, but its `create` panics. -/
theorem create_panics_in_full_directory :
    crowded.AllowedSession (creates (manyNames 264641)) ∧
      ∀ result,
        (newSession 90000 65 (creates (manyNames 264641))).run
            (CacheState.start ⟨fun _ => Lib.Bytes.zeros⟩) ≠
          .ok result :=
  crowded_fails (nodup_manyNames (by decide)) (fun _ => valid_manyNames)
    (length_manyNames 264641)

end Geometry

end RCoreOS.EasyFs
