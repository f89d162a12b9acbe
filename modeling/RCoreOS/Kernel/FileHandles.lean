import RCoreOS.EasyFs.LargestFile

/-!
# Open files

An open file (`OSInode`) is an inode with an offset.  A user buffer comes as
the list of its slices, one for each page, and `read` and `write` go through
the slices with one `read_at` or `write_at` for each.  Here this is compared
with one `read_at` or `write_at` for the whole buffer.
-/

namespace RCoreOS.Kernel

open EasyFs EasyFs.BlockProg List EasyFs.Slot Lib.Bytes Lib.Segments

/-- `OSInodeInner` -/
structure OSInodeInner where
  offset : Nat
  inode : Inode
deriving DecidableEq

namespace OSInode

/-- The loop of `OSInode::read`; the slices come back filled. -/
def readLoop (inner : OSInodeInner) (totalReadSize : Nat) :
    List (List UInt8) → BlockProg (Nat × OSInodeInner × List (List UInt8))
  | [] => return (totalReadSize, inner, [])
  | slice :: rest => do
      let (readSize, slice) ← inner.inode.readAt inner.offset slice
      if readSize = 0 then
        return (totalReadSize, inner, slice :: rest)
      else do
        let (totalReadSize, inner, rest) ←
          readLoop
            { inner with offset := (inner.offset + readSize) % 2 ^ 64 }
            ((totalReadSize + readSize) % 2 ^ 64) rest
        return (totalReadSize, inner, slice :: rest)

/-- `OSInode::read` -/
def read (inner : OSInodeInner) (buffers : List (List UInt8)) :
    BlockProg (Nat × OSInodeInner × List (List UInt8)) :=
  readLoop inner 0 buffers

/-- The loop of `OSInode::write`. -/
def writeLoop (efs : EasyFileSystem) (inner : OSInodeInner)
    (totalWriteSize : Nat) :
    List (List UInt8) → BlockProg (Nat × OSInodeInner)
  | [] => return (totalWriteSize, inner)
  | slice :: rest => do
      let writeSize ← Inode.writeAt efs inner.inode inner.offset slice
      BlockProg.assert (writeSize = slice.length)
      writeLoop efs
        { inner with offset := (inner.offset + writeSize) % 2 ^ 64 }
        ((totalWriteSize + writeSize) % 2 ^ 64) rest

/-- `OSInode::write` -/
def write (efs : EasyFileSystem) (inner : OSInodeInner)
    (buffers : List (List UInt8)) : BlockProg (Nat × OSInodeInner) :=
  writeLoop efs inner 0 buffers

/-- The loop of `OSInode::read_all`; `none` when the fuel is used up. -/
def readAllLoop (inner : OSInodeInner) (buffer v : List UInt8) :
    Nat → BlockProg (Option (List UInt8 × OSInodeInner))
  | 0 => return none
  | fuel + 1 => do
      let (len, buffer) ← inner.inode.readAt inner.offset buffer
      if len = 0 then
        return some (v, inner)
      else
        readAllLoop { inner with offset := (inner.offset + len) % 2 ^ 64 }
          buffer (v ++ buffer.take len) fuel

/-- `OSInode::read_all` -/
def readAll (inner : OSInodeInner) (fuel : Nat) :
    BlockProg (Option (List UInt8 × OSInodeInner)) :=
  readAllLoop inner (List.replicate 512 0) [] fuel

/-- One read after the other, with the bytes that each returned. -/
def reads (inner : OSInodeInner) :
    List (List (List UInt8)) → BlockProg (List (List UInt8) × OSInodeInner)
  | [] => return ([], inner)
  | buffers :: rest => do
      let (count, inner, filled) ← read inner buffers
      let (returned, inner) ← reads inner rest
      return (filled.flatten.take count :: returned, inner)

section OnDisk

variable {g : Geometry} {disk : Disk} {nodes : List Node} {id : Nat}
  {node : Node} {offset : Nat}

/-! ## Reading -/

section

variable (consistent : g.Consistent disk nodes)
  (present : nodes[id]? = some node)

include consistent present

/-- `read_at` copies what is left of the file to the front of the buffer. -/
theorem onDisk_readAt (offset : Nat) {buf : List UInt8}
    (bufSmall : buf.length < 2 ^ 63) :
    (Inode.readAt (g.efs.inode id) offset buf).onDisk [] disk =
      .ok ((((node.content.drop offset).take buf.length).length,
        fill buf (node.content.drop offset)), disk) := by
  have small := (consistent.holding.represented id node present).small
  have onDevice := consistent.onDevice node (mem_of_getElem? present)
  have addressable :
      offset + buf.length < 2 ^ 64 ∨ node.content.length ≤ offset := by
    omega
  have count :
      min (offset + buf.length) node.content.length - offset =
        ((node.content.drop offset).take buf.length).length := by
    rw [length_take, length_drop]
    omega
  rw [consistent.toRepresents.onDisk_readAt present onDevice addressable,
    count, overwrite_portion]

/-- A read of at least one byte leaves the offset within the file. -/
theorem offset_add_lt {count : Nat}
    (some_ : ((node.content.drop offset).take count).length ≠ 0) :
    offset + ((node.content.drop offset).take count).length < 2 ^ 64 := by
  have small := (consistent.holding.represented id node present).small
  rw [length_take, length_drop] at some_ ⊢
  omega

/-- Reading through the slices fills one after the other. -/
theorem onDisk_readLoop {buffers : List (List UInt8)}
    (nonempty : ∀ slice ∈ buffers, slice ≠ []) {total : Nat}
    (small : total + buffers.flatten.length < 2 ^ 63) :
    (readLoop ⟨offset, g.efs.inode id⟩ total buffers).onDisk [] disk =
      .ok ((total +
          ((node.content.drop offset).take buffers.flatten.length).length,
        ⟨offset +
          ((node.content.drop offset).take buffers.flatten.length).length,
          g.efs.inode id⟩,
        fillEach buffers (node.content.drop offset)), disk) := by
  induction buffers generalizing offset total with
  | nil => simp [readLoop, fillEach]
  | cons slice rest ih =>
    rw [flatten_cons, length_append] at small ⊢
    have isSlice : slice.length ≠ 0 :=
      fun empty => nonempty slice mem_cons_self (length_eq_zero_iff.mp empty)
    rw [readLoop,
      onDisk_bind_ok
        (onDisk_readAt consistent present offset (by omega))]
    by_cases nothing :
        ((node.content.drop offset).take slice.length).length = 0
    · -- at the end of the file the loop stops with slices left
      have atEnd : node.content.drop offset = [] := by
        rw [length_eq_zero_iff, take_eq_nil_iff] at nothing
        exact nothing.resolve_left isSlice
      simp [atEnd]
    · have word := offset_add_lt consistent present nothing
      have advanced :
          node.content.drop
              (offset +
                ((node.content.drop offset).take slice.length).length) =
            (node.content.drop offset).drop slice.length := by
        rw [← drop_drop, drop_length_take]
      have most :
          ((node.content.drop offset).take slice.length).length ≤
            slice.length :=
        length_take_le _ _
      have later :=
        @ih
          (offset + ((node.content.drop offset).take slice.length).length)
          (fun other member => nonempty other (mem_cons_of_mem _ member))
          (total + ((node.content.drop offset).take slice.length).length)
          (by omega)
      simp only [if_neg nothing, Nat.mod_eq_of_lt word]
      rw [Nat.mod_eq_of_lt (by omega), onDisk_bind_ok later,
        advanced, Nat.add_assoc, Nat.add_assoc, length_take_append]
      rfl

/-- Reads one after the other cut what is left of the file into parts. -/
theorem onDisk_reads {requests : List (List (List UInt8))}
    (nonempty : ∀ buffers ∈ requests, ∀ slice ∈ buffers, slice ≠ [])
    (small : ∀ buffers ∈ requests, buffers.flatten.length < 2 ^ 63) :
    ∃ last,
      (reads ⟨offset, g.efs.inode id⟩ requests).onDisk [] disk =
        .ok (((requests.map fun buffers => buffers.flatten.length).splitLengths
            (node.content.drop offset), last), disk) := by
  induction requests generalizing offset with
  | nil => exact ⟨_, rfl⟩
  | cons buffers rest ih =>
    obtain ⟨last, later⟩ :=
      @ih
        (offset +
          ((node.content.drop offset).take buffers.flatten.length).length)
        (fun other member => nonempty other (mem_cons_of_mem _ member))
        (fun other member => small other (mem_cons_of_mem _ member))
    have first :=
      @onDisk_readLoop _ _ _ _ _ offset consistent present buffers
        (nonempty buffers mem_cons_self) 0
        (by rw [Nat.zero_add]; exact small buffers mem_cons_self)
    refine ⟨last, ?_⟩
    rw [reads, read, onDisk_bind_ok first, onDisk_bind_ok later, Nat.zero_add,
      flatten_fillEach, take_fill, ← drop_drop, drop_length_take, map_cons,
      splitLengths_cons]
    rfl

/-- The loop of `read_all` ends when it has read what is left. -/
theorem onDisk_readAllLoop {buffer v : List UInt8}
    (isBlock : buffer.length = 512) {fuel : Nat}
    (enough : (node.content.drop offset).length < fuel) :
    (readAllLoop ⟨offset, g.efs.inode id⟩ buffer v fuel).onDisk [] disk =
      .ok (some (v ++ node.content.drop offset,
        ⟨offset + (node.content.drop offset).length, g.efs.inode id⟩),
        disk) := by
  induction fuel generalizing offset buffer v with
  | zero => exact absurd enough (Nat.not_lt_zero _)
  | succ fuel ih =>
    rw [readAllLoop,
      onDisk_bind_ok
        (onDisk_readAt consistent present offset (by omega))]
    by_cases nothing :
        ((node.content.drop offset).take buffer.length).length = 0
    · have atEnd : node.content.drop offset = [] := by
        rw [length_eq_zero_iff, take_eq_nil_iff] at nothing
        exact nothing.resolve_left (by omega)
      simp [atEnd]
    · have word := offset_add_lt consistent present nothing
      have advanced :
          node.content.drop
              (offset +
                ((node.content.drop offset).take buffer.length).length) =
            (node.content.drop offset).drop buffer.length := by
        rw [← drop_drop, drop_length_take]
      have less :
          ((node.content.drop offset).drop buffer.length).length < fuel := by
        rw [length_take] at nothing
        rw [length_drop]
        omega
      have whole :
          ((node.content.drop offset).take buffer.length).length +
              ((node.content.drop offset).drop buffer.length).length =
            (node.content.drop offset).length := by
        rw [← length_append, take_append_drop]
      simp only [if_neg nothing, Nat.mod_eq_of_lt word, take_fill]
      rw [ih (by rw [length_fill, isBlock]) (by rw [advanced]; exact less),
        advanced, append_assoc, take_append_drop, Nat.add_assoc,
        whole]

/-! ## Writing -/

/-- The blocks in use after one node was replaced. -/
theorem used_set {after : Disk} {new : Node}
    (consistentNow : g.Consistent after (nodes.set id new)) :
    g.efs.dataBitmap.used after + blockCount (dataCount node.content.length) =
      g.efs.dataBitmap.used disk +
        blockCount (dataCount new.content.length) := by
  have inside := (List.getElem?_eq_some_iff.mp present).1
  have rep := consistent.holding.represented id node present
  have repNow :=
    consistentNow.holding.represented id new (getElem?_set_self inside)
  rw [consistentNow.used_eq, consistent.used_eq, ← rep.length_blocks,
    ← repNow.length_blocks]
  exact sum_set present (fun node => node.blocks.length) new

/--
Writing through the slices writes their bytes one behind the other.  A write
without slices does not pad the file.
-/
theorem onDisk_writeLoop {buffers : List (List UInt8)}
    (nonempty : ∀ slice ∈ buffers, slice ≠ [])
    (limit : offset + buffers.flatten.length ≤ 512 * 16540)
    (room :
      g.efs.dataBitmap.used disk +
          (blockCount (dataCount (offset + buffers.flatten.length)) -
            blockCount (dataCount node.content.length)) ≤
        g.dataAreaBlocks)
    (reaches : buffers = [] → offset ≤ node.content.length) {total : Nat}
    (small : total + buffers.flatten.length < 2 ^ 64) :
    ∃ after written,
      (writeLoop g.efs ⟨offset, g.efs.inode id⟩ total buffers).onDisk []
            disk =
          .ok ((total + buffers.flatten.length,
            ⟨offset + buffers.flatten.length, g.efs.inode id⟩), after) ∧
        g.Consistent after (nodes.set id written) ∧
        written.shape =
          (node.kind,
            overwrite
              (node.content.rightpad (offset + buffers.flatten.length) 0)
              offset buffers.flatten) := by
  induction buffers generalizing offset total disk nodes node with
  | nil =>
    have same : nodes.set id node = nodes := by
      obtain ⟨inside, rfl⟩ := List.getElem?_eq_some_iff.mp present
      exact set_getElem_self inside
    have unpadded : node.content.rightpad offset 0 = node.content := by
      rw [List.rightpad, Nat.sub_eq_zero_of_le (reaches rfl)]
      simp
    refine ⟨disk, node, rfl, ?_, ?_⟩
    · rw [same]
      exact consistent
    · rw [flatten_nil, length_nil, Nat.add_zero, unpadded, overwrite_nil]
      rfl
  | cons slice rest ih =>
    rw [flatten_cons, length_append] at limit room small ⊢
    rw [← Nat.add_assoc] at limit room
    have inside := (List.getElem?_eq_some_iff.mp present).1
    have isSlice := nonempty slice mem_cons_self
    have firstMono :
        blockCount (dataCount (offset + slice.length)) ≤
          blockCount
            (dataCount (offset + slice.length + rest.flatten.length)) :=
      blockCount_mono (by rw [dataCount, dataCount]; omega)
    have firstLimit : offset + slice.length ≤ 512 * 16540 := by omega
    obtain ⟨between, first, ran, consistentNow, shape⟩ :=
      consistent.writeAt_within present firstLimit (by omega)
        (fun atEnd => isSlice atEnd.1)
    obtain ⟨kindEq, contentEq⟩ := Prod.mk.inj shape
    have firstLength :
        first.content.length =
          max (offset + slice.length) node.content.length := by
      have padded := length_rightpad node.content (offset + slice.length) 0
      rw [contentEq, length_overwrite (by omega), padded]
    have usedNow := used_set consistent present consistentNow
    have roomNow :
        g.efs.dataBitmap.used between +
            (blockCount
                (dataCount
                  (offset + slice.length + rest.flatten.length)) -
              blockCount (dataCount first.content.length)) ≤
          g.dataAreaBlocks := by
      rw [firstLength] at usedNow ⊢
      rcases Nat.le_total (offset + slice.length) node.content.length with
        within | grows
      · rw [Nat.max_eq_right within] at usedNow ⊢
        omega
      · have mono :
            blockCount (dataCount node.content.length) ≤
              blockCount (dataCount (offset + slice.length)) :=
          blockCount_mono (by rw [dataCount, dataCount]; omega)
        rw [Nat.max_eq_left grows] at usedNow ⊢
        omega
    obtain ⟨after, written, rest_, consistentLast, lastShape⟩ :=
      @ih between (nodes.set id first) first (offset + slice.length)
        consistentNow (getElem?_set_self inside)
        (fun other member => nonempty other (mem_cons_of_mem _ member))
        limit roomNow (fun _ => by omega) (total + slice.length) (by omega)
    refine ⟨after, written, ?_, ?_, ?_⟩
    · rw [writeLoop, onDisk_bind_ok ran, decide_eq_true rfl]
      show (writeLoop g.efs ⟨(offset + slice.length) % 2 ^ 64, _⟩ _
        rest).onDisk [] between = _
      rw [Nat.mod_eq_of_lt (by omega), Nat.mod_eq_of_lt (by omega), rest_,
        Nat.add_assoc, Nat.add_assoc]
    · rw [set_set] at consistentLast
      exact consistentLast
    · rw [lastShape, kindEq, contentEq, overwrite_rightpad_overwrite,
        length_append]

end

end OnDisk

end OSInode

/-! ## Slices and whole buffers -/

/-- The kinds and the contents of all inodes in use. -/
def HasFiles (g : Geometry) (disk : Disk)
    (files : List (DiskInodeType × List UInt8)) : Prop :=
  ∃ nodes, g.Consistent disk nodes ∧ nodes.map Node.shape = files

theorem HasFiles.set {g : Geometry} {after : Disk} {nodes : List Node}
    {id : Nat} {written : Node}
    (consistent : g.Consistent after (nodes.set id written)) :
    HasFiles g after ((nodes.map Node.shape).set id written.shape) :=
  ⟨_, consistent, map_set⟩

section Handle

variable (g : Geometry) (state : CacheState)
  (coherent : state.Coherent [] [])
  (files : List (DiskInodeType × List UInt8))
  (hasFiles : HasFiles g state.view files)
  (id : Nat) (content : List UInt8)
  (isFile : files[id]? = some (.file, content)) (offset : Nat)

include coherent hasFiles isFile

/--
Whether a user buffer comes in one slice or in many makes no difference to a
file: writing and reading through the slices is one `write_at` and one
`read_at` of the whole, reads one after the other return the file in parts
until its end, and `read_all` returns what is left.
-/
theorem slices_are_one_buffer :
    let inner : OSInodeInner := ⟨offset, g.efs.inode id⟩
    (∀ slices : List (List UInt8),
      slices ≠ [] → (∀ slice ∈ slices, slice ≠ []) →
      offset + slices.flatten.length ≤ (28 + 128 + 128 * 128) * 512 →
      (∀ needed,
        (g.inodeAt state.view id).blocksNumNeeded
            (offset + slices.flatten.length) = .ok needed →
          needed ≤ g.freeBlocks state.view) →
      ∃ count split once filesNow,
        (OSInode.write g.efs inner slices).run state =
            .ok ((count, ⟨offset + count, g.efs.inode id⟩), split) ∧
          (Inode.writeAt g.efs (g.efs.inode id) offset slices.flatten).run
              state = .ok (count, once) ∧
          HasFiles g split.view filesNow ∧ HasFiles g once.view filesNow) ∧
    (∀ slices : List (List UInt8),
      (∀ slice ∈ slices, slice ≠ []) → slices.flatten.length < 2 ^ 63 →
      ∃ count filled split once,
        (OSInode.read inner slices).run state =
            .ok ((count, ⟨offset + count, g.efs.inode id⟩, filled), split) ∧
          ((g.efs.inode id).readAt offset slices.flatten).run state =
            .ok ((count, filled.flatten), once) ∧
          filled.map List.length = slices.map List.length ∧
          split.view = state.view ∧ once.view = state.view) ∧
    (∀ requests : List (List (List UInt8)),
      (∀ slices ∈ requests, slices ≠ []) →
      (∀ slices ∈ requests, ∀ slice ∈ slices, slice ≠ []) →
      (∀ slices ∈ requests, slices.flatten.length < 2 ^ 63) →
      ∃ returned last after,
        (OSInode.reads inner requests).run state =
            .ok ((returned, last), after) ∧
          after.view = state.view ∧
          returned.length = requests.length ∧
          returned.flatten =
            (content.drop offset).take
              (requests.map fun slices => slices.flatten.length).sum ∧
          ∀ index bytes, returned[index]? = some bytes →
            (bytes = [] ↔
              content.length ≤
                offset + (returned.take index).flatten.length)) ∧
    ∃ enough, ∀ fuel, enough ≤ fuel → ∃ after,
      (OSInode.readAll inner fuel).run state =
          .ok (some (content.drop offset,
            ⟨offset + (content.drop offset).length, g.efs.inode id⟩),
            after) ∧
        after.view = state.view := by
  obtain ⟨nodes, consistent, rfl⟩ := hasFiles
  rw [getElem?_map, Option.map_eq_some_iff] at isFile
  obtain ⟨node, present, shape⟩ := isFile
  obtain ⟨_, rfl⟩ := Prod.mk.inj shape
  refine ⟨?_, ?_, ?_, ?_⟩
  · intro slices some_ nonempty limit free
    have room := consistent.enough_of_free present limit free
    have notEmpty : slices.flatten ≠ [] := by
      rw [flatten_ne_nil_iff]
      obtain ⟨slice, member⟩ := exists_mem_of_ne_nil slices some_
      exact ⟨slice, member, nonempty slice member⟩
    obtain ⟨splitDisk, written, ran, consistentSplit, splitShape⟩ :=
      @OSInode.onDisk_writeLoop _ _ _ _ _ offset consistent present slices
        nonempty limit room (fun none => absurd none some_) 0 (by omega)
    obtain ⟨onceDisk, writtenOnce, ranOnce, consistentOnce, onceShape⟩ :=
      consistent.writeAt_within present limit room
        (fun atEnd => notEmpty atEnd.1)
    obtain ⟨split, splitRan, rfl⟩ := run_of_onDisk coherent ran
    obtain ⟨once, onceRan, rfl⟩ := run_of_onDisk coherent ranOnce
    have splitFiles := HasFiles.set consistentSplit
    have onceFiles := HasFiles.set consistentOnce
    rw [onceShape, ← splitShape] at onceFiles
    rw [Nat.zero_add] at splitRan
    exact ⟨_, split, once, _, splitRan, onceRan, splitFiles, onceFiles⟩
  · intro slices nonempty small
    obtain ⟨split, splitRan, splitView⟩ :=
      run_of_onDisk coherent
        (@OSInode.onDisk_readLoop _ _ _ _ _ offset consistent present slices
          nonempty 0 (by rw [Nat.zero_add]; exact small))
    obtain ⟨once, onceRan, onceView⟩ :=
      run_of_onDisk coherent
        (OSInode.onDisk_readAt consistent present offset small)
    rw [Nat.zero_add] at splitRan
    rw [← flatten_fillEach] at onceRan
    exact ⟨_, _, split, once, splitRan, onceRan, map_length_fillEach _ _,
      splitView, onceView⟩
  · intro requests some_ nonempty small
    obtain ⟨last, ran⟩ :=
      @OSInode.onDisk_reads _ _ _ _ _ offset consistent present requests
        nonempty small
    obtain ⟨after, onCache, viewEq⟩ := run_of_onDisk coherent ran
    have positive :
        ∀ count ∈ requests.map fun slices => slices.flatten.length,
          0 < count := by
      intro count member
      obtain ⟨slices, isRequest, rfl⟩ := mem_map.mp member
      rw [length_pos_iff, flatten_ne_nil_iff]
      obtain ⟨slice, isSlice⟩ :=
        exists_mem_of_ne_nil slices (some_ slices isRequest)
      exact ⟨slice, isSlice, nonempty slices isRequest slice isSlice⟩
    refine ⟨_, last, after, onCache, viewEq, ?_, ?_, ?_⟩
    · rw [length_splitLengths, length_map]
    · exact flatten_splitLengths_take _ _
    · intro index bytes isPart
      rw [splitLengths_eq_nil positive _ isPart, length_drop]
      omega
  · refine ⟨(node.content.drop offset).length + 1, ?_⟩
    intro fuel enough
    exact run_of_onDisk coherent
      (OSInode.onDisk_readAllLoop consistent present length_replicate
        enough)

end Handle

theorem slices_are_one_buffer_small :
    ∃ outcome state count split once fuel after,
      (newSession 1037 1 Geometry.oneByte).run
            (CacheState.start ⟨fun _ => zeros⟩) =
          .ok (outcome, state) ∧
        (OSInode.write Geometry.small.efs
            ⟨0, Geometry.small.efs.inode 1⟩ [[8], [9]]).run state =
          .ok ((count, ⟨0 + count, Geometry.small.efs.inode 1⟩), split) ∧
        (Inode.writeAt Geometry.small.efs (Geometry.small.efs.inode 1) 0
            [8, 9]).run state = .ok (count, once) ∧
        (OSInode.readAll ⟨0, Geometry.small.efs.inode 1⟩ fuel).run state =
          .ok (some ([7], ⟨1, Geometry.small.efs.inode 1⟩), after) := by
  obtain ⟨state, nodes, returned, _, _, shows_, _⟩ := Geometry.oneByte_returns
  have consistent := shows_.consistent
  have coherent :=
    (run_newSession_settled (CacheState.start_coherent _) returned).1
  have isFile :
      (Geometry.small.reference Geometry.oneByte).1.shapes[1]? =
        some (.file, [7]) := by
    decide +kernel
  obtain ⟨writes, _, _, enough, all⟩ :=
    slices_are_one_buffer Geometry.small state coherent _
      ⟨nodes, consistent, shows_.shapes⟩ 1 [7] isFile 0
  obtain ⟨count, split, once, _, splitRan, onceRan, _⟩ :=
    writes [[8], [9]] (by decide) (by decide) (by decide) fun _ =>
      Geometry.oneByte_needs_nothing shows_ (by decide) (by decide)
  obtain ⟨after, ran, _⟩ := all enough (Nat.le_refl _)
  exact ⟨_, state, count, split, once, enough, after, returned, splitRan,
    onceRan, ran⟩

end RCoreOS.Kernel
