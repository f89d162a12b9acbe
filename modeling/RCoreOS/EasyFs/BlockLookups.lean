import RCoreOS.EasyFs.BlockTree

/-!
# The blocks that reading and writing look up

The loops of `read_at` and `write_at` find their blocks with `get_block_id`.
Here the loops take the function that looks a block up as an argument: what
they look up is then what they depend on.

The loop of `write_at` looks a block up before it tests whether there is
anything to write.  An empty write at the end of the file, where that is the
end of a block, looks up the block behind the last one.
-/

namespace RCoreOS.EasyFs

open Lib.Bytes List Lib.Segments Slot DiskInode

namespace DiskInode

variable {self grown : DiskInode} {offset : Nat} {buf : List UInt8}

/-! ## The loops, with any function that looks blocks up -/

/-- The loop of `DiskInode::read_at`. -/
def readLoopVia (lookup : Nat → BlockProg (BitVec 32))
    (stop start startBlock readSize : Nat) (buf : List UInt8) :
    BlockProg (Nat × List UInt8) := do
  let endCurrentBlock := min ((start / 512 + 1) * 512) stop
  let blockReadSize := endCurrentBlock - start
  if readSize + blockReadSize ≤ buf.length then do
    let blockId ← lookup (startBlock % 2 ^ 32)
    let src ←
      BlockProg.readAt blockId.toNat 0 fun dataBlock : DataBlock =>
        return slice dataBlock (start % 512) blockReadSize
    let buf := overwrite buf readSize src
    let readSize := readSize + blockReadSize
    if last : endCurrentBlock = stop then
      return (readSize, buf)
    else
      readLoopVia lookup stop endCurrentBlock (startBlock + 1) readSize buf
  else
    BlockProg.fail .indexOutOfRange
termination_by stop - start
decreasing_by
  omega

/-- `DiskInode::read_at` -/
def readAtVia (self : DiskInode) (lookup : Nat → BlockProg (BitVec 32))
    (offset : Nat) (buf : List UInt8) : BlockProg (Nat × List UInt8) :=
  let stop := min ((offset + buf.length) % 2 ^ 64) self.size.toNat
  if offset ≥ stop then
    return (0, buf)
  else
    readLoopVia lookup stop offset (offset / 512) 0 buf

/-- The loop of `DiskInode::write_at`. -/
def writeLoopVia (lookup : Nat → BlockProg (BitVec 32))
    (stop start startBlock writeSize : Nat) (buf : List UInt8) :
    BlockProg Nat := do
  let endCurrentBlock := min ((start / 512 + 1) * 512) stop
  let blockWriteSize := endCurrentBlock - start
  if writeSize + blockWriteSize ≤ buf.length then do
    let blockId ← lookup (startBlock % 2 ^ 32)
    BlockProg.modifyAt blockId.toNat 0 fun dataBlock : DataBlock =>
      let src := portion buf writeSize (writeSize + blockWriteSize)
      return ((), splice dataBlock (start % 512) src)
    let writeSize := writeSize + blockWriteSize
    if last : endCurrentBlock = stop then
      return writeSize
    else
      writeLoopVia lookup stop endCurrentBlock (startBlock + 1) writeSize buf
  else
    BlockProg.fail .indexOutOfRange
termination_by stop - start
decreasing_by
  omega

/-- `DiskInode::write_at` -/
def writeAtVia (self : DiskInode) (lookup : Nat → BlockProg (BitVec 32))
    (offset : Nat) (buf : List UInt8) : BlockProg Nat := do
  let stop := min ((offset + buf.length) % 2 ^ 64) self.size.toNat
  BlockProg.assert (offset ≤ stop)
  writeLoopVia lookup stop offset (offset / 512) 0 buf

theorem readLoop_eq (self : DiskInode)
    (stop start startBlock readSize : Nat) (buf : List UInt8) :
    self.readLoop stop start startBlock readSize buf =
      readLoopVia self.getBlockId stop start startBlock readSize buf := by
  induction left : stop - start using Nat.strongRecOn
    generalizing start startBlock readSize buf with
  | ind measure ih =>
    rw [readLoop, readLoopVia]
    split
    · congr 1
      funext blockId
      congr 1
      funext src
      split
      · rfl
      · next more => exact ih _ (by omega) _ _ _ _ rfl
    · rfl

/-- The source looks blocks up with `get_block_id`. -/
theorem readAt_eq (self : DiskInode) (offset : Nat) (buf : List UInt8) :
    self.readAt offset buf = self.readAtVia self.getBlockId offset buf := by
  rw [readAt, readAtVia]
  split
  · rfl
  · exact self.readLoop_eq _ _ _ _ _

theorem writeLoop_eq (self : DiskInode)
    (stop start startBlock writeSize : Nat) (buf : List UInt8) :
    self.writeLoop stop start startBlock writeSize buf =
      writeLoopVia self.getBlockId stop start startBlock writeSize buf := by
  induction left : stop - start using Nat.strongRecOn
    generalizing start startBlock writeSize with
  | ind measure ih =>
    rw [writeLoop, writeLoopVia]
    split
    · congr 1
      funext blockId
      congr 1
      funext _
      split
      · rfl
      · next more => exact ih _ (by omega) _ _ _ rfl
    · rfl

theorem writeAt_eq (self : DiskInode) (offset : Nat) (buf : List UInt8) :
    self.writeAt offset buf = self.writeAtVia self.getBlockId offset buf := by
  rw [writeAt, writeAtVia]
  congr 1
  funext _
  exact self.writeLoop_eq _ _ _ _ _

/-! ## What is looked up -/

/--
The program looks up blocks below the bound only: another function that finds
the same blocks there makes no difference.
-/
def LooksUpBelow {β : Type} (bound : Nat)
    (program : (Nat → BlockProg (BitVec 32)) → BlockProg β) : Prop :=
  ∀ first second, (∀ index, index < bound → first index = second index) →
    program first = program second

variable {bound stop start startBlock : Nat}

section

variable (small : bound < 2 ^ 32) (isBlock : startBlock = start / 512)
  (more : start < stop) (within : stop ≤ 512 * bound)

include small isBlock more within

theorem readLoopVia_below {readSize : Nat} :
    LooksUpBelow bound fun lookup =>
      readLoopVia lookup stop start startBlock readSize buf := by
  intro first second agree
  induction left : stop - start using Nat.strongRecOn
    generalizing start startBlock readSize buf with
  | ind measure ih =>
    have inside : startBlock % 2 ^ 32 < bound := by omega
    dsimp only at ih ⊢
    rw [readLoopVia, readLoopVia, agree _ inside]
    split
    · congr 1
      funext blockId
      congr 1
      funext src
      split
      · rfl
      · next notLast =>
          have next :
              startBlock + 1 =
                min ((start / 512 + 1) * 512) stop / 512 := by
            omega
          have smaller :
              stop - min ((start / 512 + 1) * 512) stop < measure := by
            omega
          have again : min ((start / 512 + 1) * 512) stop < stop := by
            omega
          exact ih _ smaller next again rfl
    · rfl

theorem writeLoopVia_below {writeSize : Nat} :
    LooksUpBelow bound fun lookup =>
      writeLoopVia lookup stop start startBlock writeSize buf := by
  intro first second agree
  induction left : stop - start using Nat.strongRecOn
    generalizing start startBlock writeSize with
  | ind measure ih =>
    have inside : startBlock % 2 ^ 32 < bound := by omega
    dsimp only at ih ⊢
    rw [writeLoopVia, writeLoopVia, agree _ inside]
    split
    · congr 1
      funext blockId
      congr 1
      funext _
      split
      · rfl
      · next notLast =>
          have next :
              startBlock + 1 =
                min ((start / 512 + 1) * 512) stop / 512 := by
            omega
          have smaller :
              stop - min ((start / 512 + 1) * 512) stop < measure := by
            omega
          have again : min ((start / 512 + 1) * 512) stop < stop := by
            omega
          exact ih _ smaller next again rfl
    · rfl

end

/-- `read_at` looks up blocks of the file only. -/
theorem readAtVia_below (limit : self.size.toNat ≤ 512 * 16540) (offset : Nat)
    (buf : List UInt8) :
    LooksUpBelow self.dataBlocks fun lookup =>
      self.readAtVia lookup offset buf := by
  have count : self.dataBlocks = dataCount self.size.toNat :=
    dataBlocksOf_eq limit
  rw [dataCount] at count
  intro first second agree
  dsimp only
  rw [readAtVia, readAtVia]
  split
  · rfl
  · next more =>
      exact readLoopVia_below (by omega) rfl (Nat.not_le.mp more) (by omega)
        first second agree

/-- An empty write looks its block up. -/
theorem writeLoopVia_nothing (bound stop : Nat) (behind : bound ≤ stop / 512)
    (small : stop / 512 < 2 ^ 32) :
    ¬ LooksUpBelow bound fun lookup =>
      writeLoopVia lookup stop stop (stop / 512) 0 [] := by
  intro below
  have differ :=
    below (fun _ => BlockProg.fail .assertFailed)
      (fun index =>
        if index < bound then BlockProg.fail .assertFailed
        else BlockProg.fail .unwrapFailed)
      (fun index inside => (if_pos inside).symm)
  have here : min ((stop / 512 + 1) * 512) stop - stop = 0 := by omega
  have outside : ¬ stop / 512 % 2 ^ 32 < bound := by omega
  dsimp only at differ
  rw [writeLoopVia, writeLoopVia] at differ
  simp only [here, Nat.add_zero, length_nil, Nat.le_refl, if_true,
    if_neg outside] at differ
  cases differ

/--
`write_at` inside a file of the given size looks up blocks of the file only,
unless it is an empty write at the end of the last block.
-/
theorem writeAtVia_below_iff (limit : self.size.toNat ≤ 512 * 16540)
    (inside : offset + buf.length ≤ self.size.toNat) :
    (LooksUpBelow self.dataBlocks fun lookup =>
        self.writeAtVia lookup offset buf) ↔
      ¬ (buf = [] ∧ offset = self.size.toNat ∧ 512 ∣ offset) := by
  have count : self.dataBlocks = dataCount self.size.toNat :=
    dataBlocksOf_eq limit
  rw [dataCount] at count
  have stopEq :
      min ((offset + buf.length) % 2 ^ 64) self.size.toNat =
        offset + buf.length := by
    omega
  have asserted : decide (offset ≤ offset + buf.length) = true :=
    decide_eq_true (Nat.le_add_right _ _)
  have program (lookup : Nat → BlockProg (BitVec 32)) :
      self.writeAtVia lookup offset buf =
        writeLoopVia lookup (offset + buf.length) offset (offset / 512) 0
          buf := by
    rw [writeAtVia]
    simp only [stopEq, asserted]
    rfl
  simp only [program]
  cases buf with
  | nil =>
    rw [length_nil, Nat.add_zero] at inside ⊢
    constructor
    · rintro below ⟨_, atEnd, aligned⟩
      exact writeLoopVia_nothing self.dataBlocks offset (by omega)
        (by omega) below
    · intro notAtEnd first second agree
      have found : offset / 512 % 2 ^ 32 < self.dataBlocks := by
        have notBoth : ¬ (offset = self.size.toNat ∧ 512 ∣ offset) :=
          fun both => notAtEnd ⟨rfl, both⟩
        omega
      have last : min ((offset / 512 + 1) * 512) offset = offset := by
        omega
      dsimp only
      rw [writeLoopVia, writeLoopVia, agree _ found]
      simp only [last, dite_true]
  | cons byte rest =>
    refine iff_of_true ?_ fun empty => cons_ne_nil _ _ empty.1
    rw [length_cons] at inside ⊢
    exact writeLoopVia_below (by omega) rfl (by omega) (by omega)

end DiskInode

namespace Geometry

variable {g : Geometry} {disk : Disk} {nodes : List Node} {id : Nat}
  {node : Node} {offset : Nat} {buf : List UInt8}

/-! ## In a file system -/

/--
The program looks up blocks of the file only, and each of them is found in the
data area.
-/
structure LooksUpOwn {β : Type} (g : Geometry) (inode : DiskInode)
    (disk : Disk)
    (program : (Nat → BlockProg (BitVec 32)) → BlockProg β) : Prop where
  below : DiskInode.LooksUpBelow inode.dataBlocks program
  own :
    ∀ index, index < inode.dataBlocks →
      ∃ block,
        (inode.getBlockId index).onDisk [] disk = .ok (block, disk) ∧
          block.toNat ∈ inode.ownedBlocks disk ∧ g.InArea block.toNat

/-- An allocated inode is a node. -/
theorem Consistent.node_of_allocated (consistent : g.Consistent disk nodes)
    (allocated : id ∈ g.allocatedInodes disk) :
    ∃ node, nodes[id]? = some node := by
  rw [consistent.inodeBits.allocatedInodes_eq consistent.slots,
    mem_range] at allocated
  exact ⟨nodes[id], getElem?_eq_getElem allocated⟩

/-- Every data block of a node is found, and belongs to it. -/
theorem Holding.finds_own {inodes : Nat → DiskInode}
    (holding : g.Holding inodes disk nodes)
    (present : nodes[id]? = some node) :
    ∀ index, index < (inodes id).dataBlocks →
      ∃ block,
        ((inodes id).getBlockId index).onDisk [] disk = .ok (block, disk) ∧
          block.toNat ∈ (inodes id).ownedBlocks disk ∧
          g.InArea block.toNat := by
  intro index inside
  have rep := holding.represented id node present
  obtain ⟨block, found, blockEq⟩ := getBlockId_tree rep.largest inside
  have member : block.toNat ∈ node.blocks := by
    rw [blockEq]
    exact rep.slot_mem (data_mem_slots.mpr inside)
  refine ⟨block, found, ?_, ?_⟩
  · rw [(ownedBlocks_perm rep.largest).mem_iff, rep.blocks]
    exact member
  · exact holding.inArea node (mem_of_getElem? present) _ member

/-- What `read_at` and `write_at` look up in a consistent file system. -/
theorem Consistent.lookups (consistent : g.Consistent disk nodes)
    (present : nodes[id]? = some node)
    (limit : offset + buf.length ≤ 512 * 16540) :
    g.LooksUpOwn (g.inodeAt disk id) disk
        (fun lookup => (g.inodeAt disk id).readAtVia lookup offset buf) ∧
      ∀ grown after,
        (Inode.increaseSize g.efs (offset + buf.length)
              (g.inodeAt disk id)).onDisk [g.inodeBlock id] disk =
            .ok (grown, after) →
          (g.LooksUpOwn grown after
              (fun lookup => grown.writeAtVia lookup offset buf) ↔
            ¬ (buf = [] ∧ (g.inodeAt disk id).size.toNat ≤ offset ∧
                512 ∣ offset)) := by
  have holding := consistent.holding
  have rep := holding.represented id node present
  have sizeLe : (g.inodeAt disk id).size.toNat ≤ 512 * 16540 := by
    rw [rep.size]
    exact rep.small
  refine ⟨⟨readAtVia_below sizeLe offset buf, holding.finds_own present⟩, ?_⟩
  intro grown after grew
  have inside := (List.getElem?_eq_some_iff.mp present).1
  have below := inodeBlock_lt (Nat.lt_of_lt_of_le inside consistent.slots)
  rcases holding.increaseSize_returned present below (by omega) grew with
    enough | tooLarge
  · obtain ⟨grown', after', v, ran, holding', _, _⟩ :=
      holding.onDisk_increaseSize present below enough.1 enough.2
    rw [grew] at ran
    cases ran
    have presentNow :
        (nodes.set id (node.grow (offset + buf.length) v))[id]? =
          some (node.grow (offset + buf.length) v) :=
      getElem?_set_self inside
    have rep' := holding'.represented id _ presentNow
    have finds := holding'.finds_own presentNow
    rw [Function.update_self] at rep' finds
    have grownSize :
        grown.size.toNat =
          max (g.inodeAt disk id).size.toNat (offset + buf.length) := by
      rw [rep'.size, rep.size]
      simp only [Node.grow, List.rightpad, length_append, length_replicate]
      omega
    have iff :=
      @writeAtVia_below_iff grown offset buf
        (by rw [rep'.size]; exact rep'.small) (by rw [grownSize]; omega)
    have same :
        (buf = [] ∧ offset = grown.size.toNat ∧ 512 ∣ offset) ↔
          (buf = [] ∧ (g.inodeAt disk id).size.toNat ≤ offset ∧
            512 ∣ offset) := by
      rw [grownSize]
      constructor
      · rintro ⟨rfl, atEnd, aligned⟩
        exact ⟨rfl, by omega, aligned⟩
      · rintro ⟨rfl, behind, aligned⟩
        rw [length_nil]
        exact ⟨rfl, by omega, aligned⟩
    rw [← same, ← iff]
    exact ⟨LooksUpOwn.below, fun below => ⟨below, finds⟩⟩
  · omega

section Reached

variable (g) (device : BlockDevice) (ops : List Op)
  (outcome : EasyFileSystem × List (Option Event) × List Inode)
  (state : CacheState)
  (reached :
    (newSession g.totalBlocks g.inodeBitmapBlocks ops).run
        (CacheState.start device) =
      .ok (outcome, state))
  (within : g.WithinLimits device ops)
  (toFiles :
    ∀ event offset buf, some event ∈ outcome.2.1 →
      event.call = .writeAt offset buf → event.inode ≠ g.efs.rootInode)

include reached within toFiles

/--
In every session within the limits that writes to files, `read_at` looks up
blocks of its file only, and so does `write_at` exactly when it does not write
nothing at the end of the last block.
-/
theorem own_blocks_looked_up_iff
    (id : Nat) (allocated : id ∈ g.allocatedInodes state.view)
    (offset : Nat) (buf : List UInt8)
    (limit : offset + buf.length ≤ (28 + 128 + 128 * 128) * 512) :
    let inode := g.inodeAt state.view id
    g.LooksUpOwn inode state.view
        (fun lookup => inode.readAtVia lookup offset buf) ∧
      ∀ grown after,
        (Inode.increaseSize g.efs (offset + buf.length) inode).onDisk
              [g.inodeBlock id] state.view = .ok (grown, after) →
          (g.LooksUpOwn grown after
              (fun lookup => grown.writeAtVia lookup offset buf) ↔
            ¬ (buf = [] ∧ inode.size.toNat ≤ offset ∧ 512 ∣ offset)) := by
  obtain ⟨nodes, root, entries, tidy⟩ :=
    isTidy_of_session reached within toFiles
  obtain ⟨node, present⟩ := tidy.consistent.node_of_allocated allocated
  exact tidy.consistent.lookups present (by omega)

end Reached

/-- A file with one byte. -/
def oneByte : List Op := [⟨0, .create "a"⟩, ⟨1, .writeAt 0 [7]⟩]

theorem oneByte_returns :
    ∃ state nodes,
      (newSession 1037 1 oneByte).run (CacheState.start ⟨fun _ => zeros⟩) =
          .ok (small.outcome oneByte, state) ∧
        small.WithinLimits ⟨fun _ => zeros⟩ oneByte ∧
        (∀ event offset buf, some event ∈ (small.outcome oneByte).2.1 →
          event.call = .writeAt offset buf →
            event.inode ≠ small.efs.rootInode) ∧
        small.Shows state.view nodes (small.reference oneByte).1 ∧
        1 ∈ small.allocatedInodes state.view := by
  have allowed : small.AllowedSession oneByte := by decide +kernel
  have capacity : (small.reference oneByte).1.files.length ≤ 264640 := by
    decide +kernel
  obtain ⟨state, returned, nodes, shows_⟩ :=
    newSession_returns ⟨fun _ => zeros⟩ allowed capacity
  have events :
      ∀ event ∈ (small.outcome oneByte).2.1,
        ∀ made, event = some made → made.inode = small.efs.rootInode →
          made.call = .create "a" := by
    decide +kernel
  refine ⟨state, nodes, returned, allowed.withinLimits _ capacity, ?_,
    shows_, ?_⟩
  · intro event offset buf member isWrite isRoot
    rw [events _ member event rfl isRoot] at isWrite
    cases isWrite
  · have consistent := shows_.consistent
    rw [consistent.inodeBits.allocatedInodes_eq consistent.slots,
      shows_.length_nodes]
    decide +kernel

theorem own_blocks_looked_up_iff_small :
    ∃ outcome state,
      (newSession 1037 1 oneByte).run
            (CacheState.start ⟨fun _ => zeros⟩) =
          .ok (outcome, state) ∧
        small.LooksUpOwn (small.inodeAt state.view 1) state.view
          fun lookup =>
            (small.inodeAt state.view 1).readAtVia lookup 0 [0, 0] := by
  obtain ⟨state, nodes, returned, within, toFiles, _, allocated⟩ :=
    oneByte_returns
  exact ⟨_, state, returned,
    (own_blocks_looked_up_iff small ⟨fun _ => zeros⟩ oneByte _ state returned
      within toFiles 1 allocated 0 [0, 0] (by decide)).1⟩

/-- An empty write to a new file looks up a block that the file does not
have. -/
theorem empty_write_looks_up_foreign_block :
    ∃ outcome state grown after,
      (newSession 1037 1 [⟨0, .create "a"⟩]).run
            (CacheState.start ⟨fun _ => zeros⟩) =
          .ok (outcome, state) ∧
        (Inode.increaseSize small.efs 0 (small.inodeAt state.view 1)).onDisk
            [small.inodeBlock 1] state.view = .ok (grown, after) ∧
        ¬ DiskInode.LooksUpBelow grown.dataBlocks
          fun lookup => grown.writeAtVia lookup 0 [] := by
  obtain ⟨state, returned, nodes, shows_⟩ :=
    @newSession_returns small ⟨fun _ => zeros⟩ [⟨0, .create "a"⟩]
      (by decide +kernel) (by decide +kernel)
  obtain ⟨node, present, _, content⟩ :=
    @Shows.file _ _ _ _ 1 shows_ (by decide) (by decide +kernel)
  have consistent := shows_.consistent
  have inside := (List.getElem?_eq_some_iff.mp present).1
  have below := inodeBlock_lt (Nat.lt_of_lt_of_le inside consistent.slots)
  have isEmpty : node.content.length = 0 := by
    rw [content]
    decide +kernel
  have room : small.Enough state.view node 0 := by
    refine ⟨by decide, ?_⟩
    rw [isEmpty, Nat.sub_self, Nat.add_zero]
    exact Bitmap.used_le _ _
  obtain ⟨grown, after, v, ran, holding, _, _⟩ :=
    consistent.holding.onDisk_increaseSize present below room.1 room.2
  have rep := holding.represented 1 _ (getElem?_set_self inside)
  rw [Function.update_self] at rep
  have grownSize : grown.size.toNat = 0 := by
    rw [rep.size, Node.grow, List.rightpad, length_append, isEmpty]
    rfl
  have notBelow :=
    (not_congr
      (@writeAtVia_below_iff grown 0 []
        (by rw [grownSize]; exact Nat.zero_le _)
        (by rw [grownSize]; exact Nat.le_refl 0))).mpr
      (not_not.mpr ⟨rfl, grownSize.symm, Nat.dvd_zero 512⟩)
  exact ⟨_, state, grown, after, returned, ran, notBelow⟩

end Geometry

end RCoreOS.EasyFs
