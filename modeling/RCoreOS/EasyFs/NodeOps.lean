import RCoreOS.EasyFs.Ownership

/-!
# Operations on one node

The closures that `write_at`, `create` and `clear` run on a disk inode, as
changes to one node: allocating blocks, growing with zeros, overwriting bytes
and giving all blocks back.  They run while the block of the inode is locked,
and touch only the data bitmap and the data area.
-/

namespace RCoreOS.EasyFs

open Lib.Bytes Inode BlockProg DiskInode List Function Lib.Segments Slot

namespace Geometry

variable {g : Geometry} {inodes : Nat → DiskInode} {disk after : Disk}
  {nodes : List Node} {id : Nat} {node : Node} {locked : Nat}

variable {block newSize offset : Nat} {v : List Nat} {between : Disk}
  {buf : List UInt8}

/-- A block of the data bitmap or behind it can be locked. -/
theorem canLock (below : locked < g.efs.dataBitmap.startBlockId)
    (behind : g.efs.dataBitmap.startBlockId ≤ block) :
    BlockProg.CanLock [locked] block := by
  constructor
  · rw [mem_singleton]
    omega
  · rw [length_singleton, blockCacheSize]
    decide

theorem InArea.behind (inArea : g.InArea block) :
    g.efs.dataBitmap.startBlockId ≤ block := by
  obtain ⟨_, _, start, _, _, _⟩ := g.regions
  exact Nat.le_trans (by omega) inArea.1

theorem InArea.not_covers (inArea : g.InArea block) :
    ¬ g.efs.dataBitmap.Covers block := by
  obtain ⟨_, _, start, _, _, _⟩ := g.regions
  rintro ⟨_, upper⟩
  have lower := inArea.1
  have size : g.efs.dataBitmap.blocks = g.dataBitmapBlocks := rfl
  omega

/-- The superblock is not in the data area. -/
theorem InArea.ne_zero : ¬ g.InArea 0 := by
  intro inArea
  have behind := inArea.behind
  obtain ⟨_, start, _, _, _, _⟩ := g.regions
  omega

variable {n : Nat}

theorem inArea_add (inside : n < g.efs.dataBitmap.maximum) :
    g.InArea (g.dataStart + n) :=
  ⟨Nat.le_add_right _ _, Nat.add_lt_add_left inside _⟩

/-- Disks that agree on the data bitmap have the same bits. -/
theorem dataBit_congr
    (agree :
      ∀ block, g.efs.dataBitmap.Covers block → after block = disk block)
    (inArea : g.InArea block) :
    g.dataBit after block = g.dataBit disk block := by
  apply Bitmap.bit_congr agree
  have upper := inArea.2
  have lower := inArea.1
  omega

/-! ## Allocating -/

/-- The bits of the blocks `v` were clear, lowest first, and are now set. -/
structure Taken
    (g : Geometry) (disk : Disk) (v : List Nat) (after : Disk) : Prop where
  distinct : v.Nodup
  inArea : ∀ block ∈ v, g.InArea block
  clear : ∀ block ∈ v, g.dataBit disk block = false
  bits :
    ∀ block, g.InArea block →
      g.dataBit after block = (g.dataBit disk block || decide (block ∈ v))
  lowest :
    ∀ block ∈ v, ∀ lower, g.InArea lower → lower < block →
      g.dataBit after lower = true
  used :
    g.efs.dataBitmap.used after = g.efs.dataBitmap.used disk + v.length

/-- What allocating the blocks `v` changes: their bits and nothing else. -/
structure AllocatedMany
    (g : Geometry) (disk : Disk) (v : List Nat) (after : Disk) : Prop
    extends g.Taken disk v after where
  frame :
    ∀ block, ¬ g.efs.dataBitmap.Covers block → after block = disk block

/-- Bits are read off the data bitmap only. -/
theorem Taken.congr (taken : g.Taken disk v between)
    (agree :
      ∀ block, g.efs.dataBitmap.Covers block → after block = between block) :
    g.Taken disk v after := by
  have bits (block : Nat) (inArea : g.InArea block) :
      g.dataBit after block = g.dataBit between block :=
    dataBit_congr agree inArea
  refine { taken with bits := ?_, lowest := ?_, used := ?_ }
  · intro block inArea
    rw [bits block inArea, taken.bits block inArea]
  · intro block member lower inArea less
    rw [bits lower inArea]
    exact taken.lowest block member lower inArea less
  · rw [← taken.used, Bitmap.used_congr agree]

/-- The same for the disk before. -/
theorem Taken.congr_before (taken : g.Taken between v after)
    (agree :
      ∀ block, g.efs.dataBitmap.Covers block → between block = disk block) :
    g.Taken disk v after := by
  have bits (block : Nat) (inArea : g.InArea block) :
      g.dataBit between block = g.dataBit disk block :=
    dataBit_congr agree inArea
  refine { taken with clear := ?_, bits := ?_, used := ?_ }
  · intro block member
    rw [← bits block (taken.inArea block member)]
    exact taken.clear block member
  · intro block inArea
    rw [taken.bits block inArea, bits block inArea]
  · rw [taken.used, Bitmap.used_congr agree]

theorem allocatedMany_nil (g : Geometry) (disk : Disk) :
    g.AllocatedMany disk [] disk where
  distinct := nodup_nil
  inArea := by simp
  clear := by simp
  bits := by simp
  lowest := by simp
  used := rfl
  frame := fun _ _ => rfl

/-- One block, then the others. -/
theorem AllocatedMany.cons (first : g.efs.dataBitmap.Allocated disk n between)
    (rest : g.AllocatedMany between v after) :
    g.AllocatedMany disk ((g.dataStart + n) :: v) after := by
  have bitFirst (block : Nat) (inArea : g.InArea block) :
      g.dataBit between block =
        (g.dataBit disk block || decide (block = g.dataStart + n)) := by
    have lower := inArea.1
    have same :
        decide (block - g.dataStart = n) = decide (block = g.dataStart + n) := by
      rw [decide_eq_decide]
      omega
    rw [dataBit, first.bits, same]
  have here := inArea_add first.inside
  have bits (block : Nat) (inArea : g.InArea block) :
      g.dataBit after block =
        (g.dataBit disk block ||
          decide (block ∈ (g.dataStart + n) :: v)) := by
    rw [rest.bits block inArea, bitFirst block inArea, Bool.or_assoc,
      ← Bool.decide_or]
    simp only [mem_cons]
  have isSet : g.dataBit between (g.dataStart + n) = true := by
    rw [bitFirst _ here]
    simp
  refine
    { distinct := ?_
      inArea := ?_
      clear := ?_
      bits := bits
      lowest := ?_
      used := ?_
      frame := ?_ }
  · refine nodup_cons.mpr ⟨?_, rest.distinct⟩
    intro member
    rw [rest.clear _ member] at isSet
    cases isSet
  · intro block member
    rcases mem_cons.mp member with rfl | later
    · exact here
    · exact rest.inArea block later
  · intro block member
    rcases mem_cons.mp member with rfl | later
    · rw [dataBit, Nat.add_sub_cancel_left]
      exact first.clear
    · have clear := rest.clear block later
      rw [bitFirst block (rest.inArea block later), Bool.or_eq_false_iff]
        at clear
      exact clear.1
  · intro block member lower inArea below
    rcases mem_cons.mp member with rfl | later
    · have start := inArea.1
      rw [bits lower inArea, dataBit, first.lowest _ (by omega)]
      rfl
    · exact rest.lowest block later lower inArea below
  · rw [rest.used, first.used_eq, length_cons]
    omega
  · intro block outside
    rw [rest.frame block outside, first.frame block outside]

/-- The allocation loop, when the bitmap has enough zero bits. -/
theorem onDisk_allocBlocks (below : locked < g.efs.dataBitmap.startBlockId)
    (count : Nat) (disk : Disk)
    (enough :
      g.efs.dataBitmap.used disk + count ≤ g.efs.dataBitmap.maximum) :
    ∃ v after,
      (allocBlocks g.efs count).onDisk [locked] disk = .ok (v, after) ∧
        v.length = count ∧
        g.AllocatedMany disk (v.map BitVec.toNat) after := by
  induction count generalizing disk with
  | zero => exact ⟨[], disk, rfl, rfl, allocatedMany_nil g disk⟩
  | succ count ih =>
    obtain ⟨n, between, block, ran, allocated, blockEq⟩ :=
      onDisk_allocData (fun _ covers => canLock below covers.1)
        (by omega : g.efs.dataBitmap.used disk < g.efs.dataBitmap.maximum)
    have more := allocated.used_eq
    obtain ⟨v, after, ranRest, length, many⟩ := ih between (by omega)
    refine ⟨block :: v, after, ?_, by rw [length_cons, length], ?_⟩
    · rw [allocBlocks, onDisk_bind_ok ran, onDisk_bind_ok ranRest]
      rfl
    · rw [map_cons, blockEq]
      exact AllocatedMany.cons allocated many

/-- An allocation loop that returned had enough zero bits. -/
theorem allocBlocks_enough (below : locked < g.efs.dataBitmap.startBlockId)
    {count : Nat} {v : List (BitVec 32)}
    (returned :
      (allocBlocks g.efs count).onDisk [locked] disk = .ok (v, after)) :
    g.efs.dataBitmap.used disk + count ≤ g.efs.dataBitmap.maximum := by
  induction count generalizing disk after v with
  | zero => exact g.efs.dataBitmap.used_le disk
  | succ count ih =>
    rw [allocBlocks] at returned
    obtain ⟨block, between, first, returned⟩ := onDisk_bind_eq_ok.mp returned
    obtain ⟨rest, last, ranRest, _⟩ := onDisk_bind_eq_ok.mp returned
    have lockable (covered : Nat)
        (covers : g.efs.dataBitmap.Covers covered) :
        BlockProg.CanLock [locked] covered :=
      canLock below covers.1
    by_cases notFull :
        g.efs.dataBitmap.used disk < g.efs.dataBitmap.maximum
    · obtain ⟨n, between', block', ran, allocated, _⟩ :=
        onDisk_allocData lockable notFull
      rw [ran] at first
      cases first
      have later := ih ranRest
      have more := allocated.used_eq
      omega
    · rw [onDisk_allocData_full lockable (Nat.not_lt.mp notFull)] at first
      cases first

section

variable (holding : g.Holding inodes disk nodes)

include holding

/-- Allocating changes no node. -/
theorem Holding.allocate (many : g.AllocatedMany disk v after) :
    g.Holding inodes after nodes := by
  obtain ⟨_, _, start, _, _, _⟩ := g.regions
  have superOutside : ¬ g.efs.dataBitmap.Covers 0 := by
    rintro ⟨lower, _⟩
    omega
  refine
    { superBlock := ?_
      represented := ?_
      distinct := holding.distinct
      apart := holding.apart
      inArea := holding.inArea
      owned := ?_
      freeZero := ?_ }
  · rw [many.frame 0 superOutside, holding.superBlock]
  · intro id node present
    apply (holding.represented id node present).congr
    intro block owns
    have inArea := holding.inArea node (mem_of_getElem? present) block owns
    exact many.frame block inArea.not_covers
  · intro node member block owns
    rw [many.bits block (holding.inArea node member block owns),
      holding.owned node member block owns]
    rfl
  · intro block inArea onDevice clear
    rw [many.bits block inArea, Bool.or_eq_false_iff] at clear
    rw [many.frame block inArea.not_covers]
    exact holding.freeZero block inArea onDevice clear.1

/-! ## Growing -/

section

variable (present : nodes[id]? = some node)

include present

/-- The old and the new blocks of a growing node are all different. -/
theorem Holding.distinct_new (many : g.Taken disk v after) :
    (node.blocks ++ v).Nodup := by
  refine nodup_append.mpr
    ⟨holding.distinct id node present, many.distinct, ?_⟩
  rintro block owns other new rfl
  have isSet := holding.owned node (mem_of_getElem? present) block owns
  rw [many.clear block new] at isSet
  cases isSet

section

variable (below : locked < g.efs.dataBitmap.startBlockId)

include below

/-- `increase_size` of a node, once its new blocks are allocated. -/
theorem Holding.increase {v : List (BitVec 32)}
    {allocated : Disk}
    (many : g.AllocatedMany disk (v.map BitVec.toNat) allocated)
    (grows : node.content.length ≤ newSize) (limit : newSize ≤ 512 * 16540)
    (enough :
      blockCount (dataCount node.content.length) + v.length =
        blockCount (dataCount newSize)) :
    ∃ grown after,
      ((inodes id).increaseSize newSize v).onDisk [locked] allocated =
          .ok (grown, after) ∧
        g.Holding (Function.update inodes id grown) after
          (nodes.set id (node.grow newSize (v.map BitVec.toNat))) ∧
        g.Taken disk (v.map BitVec.toNat) after ∧
        ∀ block, block < g.efs.dataBitmap.startBlockId →
          after block = disk block := by
  have member := mem_of_getElem? present
  have holding1 := holding.allocate many
  have rep := holding1.represented id node present
  have distinct := holding.distinct_new present many.toTaken
  have inArea :
      ∀ block ∈ node.blocks ++ v.map BitVec.toNat, g.InArea block := by
    intro block belongs
    rcases mem_append.mp belongs with old | new
    · exact holding.inArea node member block old
    · exact many.inArea block new
  have isSet :
      ∀ block ∈ node.blocks ++ v.map BitVec.toNat,
        g.dataBit allocated block = true := by
    intro block belongs
    rw [many.bits block (inArea block belongs)]
    rcases mem_append.mp belongs with old | new
    · rw [holding.owned node member block old]
      rfl
    · rw [decide_eq_true new, Bool.or_true]
  obtain ⟨grown, after, ran, facts⟩ :=
    DiskInode.onDisk_increaseSize (by omega : newSize < 2 ^ 32)
      (by
        rw [rep.dataBlocks_eq, dataBlocksOf_eq limit, dataCount, dataCount]
        omega)
      (by
        rw [dataBlocksOf_eq limit, dataCount]
        omega)
      (by
        rw [rep.blocks, length_append, length_map,
          rep.length_blocks, dataBlocksOf_eq limit, enough])
      (by rw [rep.blocks]; exact distinct)
      (by
        intro block belongs
        rw [rep.blocks] at belongs
        exact (canLock below (inArea block belongs).behind).1)
      (by rw [length_singleton]; omega)
  rw [rep.blocks] at facts
  -- Index blocks are among the old and new blocks, so all else is kept.
  have kept (block : Nat)
      (outside : block ∉ node.blocks ++ v.map BitVec.toNat) :
      after block = allocated block := by
    apply facts.frame
    rintro slot used _ rfl
    apply outside
    rw [← facts.blocks]
    exact mem_map_of_mem used
  have keptBelow (block : Nat) (notInArea : ¬ g.InArea block) :
      after block = allocated block :=
    kept block fun belongs => notInArea (inArea block belongs)
  have bits (block : Nat) (inside : g.InArea block) :
      g.dataBit after block = g.dataBit allocated block :=
    dataBit_congr
      (fun covered covers =>
        keptBelow covered fun wrong => wrong.not_covers covers)
      inside
  refine ⟨grown, after, ran, ?_, ?_, ?_⟩
  · apply holding1.replaceNode (getElem?_set_present present)
      (fun _ different => getElem?_set_ne (Ne.symm different))
    · exact keptBelow 0 InArea.ne_zero
    · apply rep.grown facts distinct ?_ grows limit
      intro block new onDevice
      have inside := many.inArea block new
      rw [many.frame block inside.not_covers]
      exact holding.freeZero block inside onDevice (many.clear block new)
    · exact distinct
    · intro block belongs other otherNode different otherAt
      rcases mem_append.mp belongs with old | new
      · exact holding.apart id other node otherNode (Ne.symm different)
          present otherAt block old
      · intro otherOwns
        have wasSet :=
          holding.owned otherNode (mem_of_getElem? otherAt) block
            otherOwns
        rw [many.clear block new] at wasSet
        cases wasSet
    · exact inArea
    · intro block belongs
      rw [bits block (inArea block belongs)]
      exact isSet block belongs
    · intro other otherNode different otherAt block otherOwns
      have otherMember := mem_of_getElem? otherAt
      constructor
      · apply kept
        intro belongs
        rcases mem_append.mp belongs with old | new
        · exact holding.apart id other node otherNode (Ne.symm different)
            present otherAt block old otherOwns
        · have wasSet := holding.owned otherNode otherMember block otherOwns
          rw [many.clear block new] at wasSet
          cases wasSet
      · rw [bits block (holding.inArea otherNode otherMember block otherOwns)]
        exact holding1.owned otherNode otherMember block otherOwns
    · intro block inside onDevice clear
      rw [bits block inside] at clear
      rw [kept block]
      · exact holding1.freeZero block inside onDevice clear
      · intro belongs
        rw [isSet block belongs] at clear
        cases clear
  · apply many.toTaken.congr
    intro block covers
    exact keptBelow block fun wrong => wrong.not_covers covers
  · intro block under
    rw [keptBelow block fun wrong => by
        have behind := wrong.behind
        omega,
      many.frame block fun covers => by
        have lower := covers.1
        omega]

/-- `Inode::increase_size` on a node, with enough zero bits in the bitmap. -/
theorem Holding.onDisk_increaseSize (limit : newSize ≤ 512 * 16540)
    (enough :
      g.efs.dataBitmap.used disk +
          (blockCount (dataCount newSize) -
            blockCount (dataCount node.content.length)) ≤
        g.efs.dataBitmap.maximum) :
    ∃ grown after v,
      (Inode.increaseSize g.efs newSize (inodes id)).onDisk [locked] disk =
          .ok (grown, after) ∧
        g.Holding (Function.update inodes id grown) after
          (nodes.set id (node.grow newSize v)) ∧
        g.Taken disk v after ∧
        ∀ block, block < g.efs.dataBitmap.startBlockId →
          after block = disk block := by
  have rep := holding.represented id node present
  by_cases shorter : newSize < node.content.length
  · refine ⟨inodes id, disk, [], ?_, ?_, (allocatedMany_nil g disk).toTaken,
      fun _ _ => rfl⟩
    · rw [Inode.increaseSize, if_pos (by rw [rep.size]; exact shorter)]
      rfl
    · obtain ⟨inside, atId⟩ := List.getElem?_eq_some_iff.mp present
      rw [update_eq_self, Node.grow_nil (by omega), ← atId, set_getElem_self]
      exact holding
  · have grows : node.content.length ≤ newSize := Nat.not_lt.mp shorter
    have more := blockCount_dataCount_mono grows
    have needed := blocksNumNeeded_returns (rep.size ▸ grows) limit
    rw [rep.size] at needed
    obtain ⟨v, allocated, ran, length, many⟩ :=
      onDisk_allocBlocks below _ disk enough
    obtain ⟨grown, after, ranGrow, holding', taken, frame⟩ :=
      holding.increase present below many grows limit (by omega)
    refine ⟨grown, after, v.map BitVec.toNat, ?_, holding', taken, frame⟩
    rw [Inode.increaseSize, if_neg (by rw [rep.size]; exact shorter), needed]
    show (allocBlocks g.efs _ >>= _).onDisk [locked] disk = _
    rw [onDisk_bind_ok ran, ranGrow]

/-! ## Writing -/

/-- `DiskInode::write_at` of at least one byte of a node. -/
theorem Holding.write {stop : Nat}
    (stopEq :
      min ((offset + buf.length) % 2 ^ 64) node.content.length = stop)
    (more : offset < stop) :
    ∃ after,
      ((inodes id).writeAt offset buf).onDisk [locked] disk =
          .ok (stop - offset, after) ∧
        g.Holding inodes after
          (nodes.set id
            { node with
              content :=
                overwrite node.content offset (buf.take (stop - offset)) }) ∧
        (∀ block, g.efs.dataBitmap.Covers block → after block = disk block) ∧
        ∀ block, block < g.efs.dataBitmap.startBlockId →
          after block = disk block := by
  have member := mem_of_getElem? present
  have rep := holding.represented id node present
  have distinct := holding.distinct id node present
  have inArea := holding.inArea node member
  obtain ⟨after, ran, facts⟩ :=
    onDisk_writeAt (fun _ _ => rfl)
      (fun slot used => canLock below (inArea _ (rep.slot_mem used)).behind)
      (by
        rw [← rep.blocks] at distinct
        exact distinct)
      rep.largest rep.holds rep.size rep.content_le stopEq more
  have takeLength : (buf.take (stop - offset)).length = stop - offset := by
    have wrapped := Nat.mod_le (offset + buf.length) (2 ^ 64)
    rw [length_take]
    omega
  have sameLength :
      (overwrite node.content offset (buf.take (stop - offset))).length =
        node.content.length := by
    apply length_overwrite
    omega
  -- Only data blocks of this node are written.
  have kept (block : Nat) (outside : block ∉ node.blocks) :
      after block = disk block := by
    apply facts.frame
    rintro index inside rfl
    exact outside (rep.slot_mem (data_mem_slots.mpr inside))
  have keptBelow (block : Nat) (notInArea : ¬ g.InArea block) :
      after block = disk block :=
    kept block fun owns => notInArea (inArea block owns)
  have keptBitmap (block : Nat) (covers : g.efs.dataBitmap.Covers block) :
      after block = disk block :=
    keptBelow block fun wrong => wrong.not_covers covers
  have bits (block : Nat) (inside : g.InArea block) :
      g.dataBit after block = g.dataBit disk block :=
    dataBit_congr keptBitmap inside
  refine ⟨after, ran, ?_, keptBitmap, ?_⟩
  · rw [← update_eq_self id inodes]
    apply holding.replaceNode (getElem?_set_present present)
      (fun _ different => getElem?_set_ne (Ne.symm different))
    · exact keptBelow 0 InArea.ne_zero
    · exact rep.written distinct sameLength facts
    · exact distinct
    · intro block owns other otherNode different otherAt
      exact holding.apart id other node otherNode (Ne.symm different) present
        otherAt block owns
    · exact inArea
    · intro block owns
      rw [bits block (inArea block owns)]
      exact holding.owned node member block owns
    · intro other otherNode different otherAt block otherOwns
      have otherMember := mem_of_getElem? otherAt
      refine ⟨kept block ?_, ?_⟩
      · exact fun owns =>
          holding.apart id other node otherNode (Ne.symm different) present
            otherAt block owns otherOwns
      · rw [bits block (holding.inArea otherNode otherMember block otherOwns)]
        exact holding.owned otherNode otherMember block otherOwns
    · intro block inside onDevice clear
      rw [bits block inside] at clear
      rw [kept block]
      · exact holding.freeZero block inside onDevice clear
      · intro owns
        rw [holding.owned node member block owns] at clear
        cases clear
  · intro block under
    exact keptBelow block fun wrong => by
      have behind := wrong.behind
      omega

end

end

end

/-- The state after a write to node `id`, while its inode is in memory. -/
structure WroteNode (g : Geometry) (inodes : Nat → DiskInode) (disk : Disk)
    (nodes : List Node) (id : Nat) (node : Node) (offset : Nat)
    (buf : List UInt8) (v : List Nat) (inode : DiskInode) (after : Disk) :
    Prop where
  holding :
    g.Holding (Function.update inodes id inode) after
      (nodes.set id (node.write offset buf v))
  taken : g.Taken disk v after
  frame :
    ∀ block, block < g.efs.dataBitmap.startBlockId → after block = disk block

/-- The condition under which `increase_size` does not panic. -/
def Enough (g : Geometry) (disk : Disk) (node : Node) (newSize : Nat) : Prop :=
  newSize ≤ 512 * 16540 ∧
    g.efs.dataBitmap.used disk +
        (blockCount (dataCount newSize) -
          blockCount (dataCount node.content.length)) ≤
      g.efs.dataBitmap.maximum

section

variable (holding : g.Holding inodes disk nodes)
  (present : nodes[id]? = some node)
  (below : locked < g.efs.dataBitmap.startBlockId)

include holding present below

/-- The closure of `write_at`, when there is something to write. -/
theorem Holding.onDisk_growAndWrite
    (enough : g.Enough disk node ((offset + buf.length) % 2 ^ 32))
    (more : offset < node.writeStop offset buf) :
    ∃ inode after v,
      (growAndWrite g.efs offset buf (inodes id)).onDisk [locked]
          disk =
        .ok ((node.writeStop offset buf - offset, inode), after) ∧
        g.WroteNode inodes disk nodes id node offset buf v inode after := by
  obtain ⟨grown, between, v, ran, holding1, taken, frame1⟩ :=
    holding.onDisk_increaseSize present below enough.1 enough.2
  have inside := (List.getElem?_eq_some_iff.mp present).1
  have stopEq :
      min ((offset + buf.length) % 2 ^ 64)
          (node.grow ((offset + buf.length) % 2 ^ 32) v).content.length =
        node.writeStop offset buf := by
    simp only [Node.grow, Node.writeStop, List.rightpad, length_append,
      length_replicate]
    omega
  obtain ⟨after, ranWrite, holding2, bitmapKept, frame2⟩ :=
    holding1.write (getElem?_set_self inside) below stopEq more
  rw [update_self] at ranWrite
  refine ⟨grown, after, v, ?_, ?_, taken.congr bitmapKept, ?_⟩
  · rw [growAndWrite, onDisk_bind_ok ran, onDisk_bind_ok ranWrite]
    rfl
  · rw [set_set] at holding2
    exact holding2
  · intro block under
    rw [frame2 block under, frame1 block under]

/--
An `increase_size` that returned had enough blocks, or set a size so large
that the number of data blocks wraps to zero.
-/
theorem Holding.increaseSize_returned (small : newSize < 2 ^ 32)
    {grown : DiskInode}
    (returned :
      (Inode.increaseSize g.efs newSize (inodes id)).onDisk [locked] disk =
        .ok (grown, after)) :
    g.Enough disk node newSize ∨
      (512 * 16540 < newSize ∧ grown.size.toNat = newSize) := by
  have rep := holding.represented id node present
  have usedMost := g.efs.dataBitmap.used_le disk
  by_cases shorter : newSize < node.content.length
  · have fewer := blockCount_dataCount_mono (Nat.le_of_lt shorter)
    have size := rep.small
    exact .inl ⟨by omega, by omega⟩
  · rw [Inode.increaseSize, if_neg (by rw [rep.size]; exact shorter)]
      at returned
    obtain ⟨needed, disk1, counted, returned⟩ := onDisk_bind_eq_ok.mp returned
    obtain ⟨counted, same⟩ := onDisk_ofExcept_eq_ok counted
    obtain ⟨v, between, ran, grew⟩ := onDisk_bind_eq_ok.mp returned
    rw [same] at ran
    have alloc := allocBlocks_enough below ran
    rw [blocksNumNeeded, rep.size, if_pos (Nat.not_lt.mp shorter),
      totalBlocks_eq rep.small] at counted
    have neededEq := Except.ok.inj counted
    rw [← neededEq] at alloc
    clear counted neededEq ran returned
    by_cases limit : newSize ≤ 512 * 16540
    · rw [totalBlocks_eq limit] at alloc
      have more := blockCount_dataCount_mono (Nat.not_lt.mp shorter)
      have bounded := blockCount_dataCount_lt limit
      refine .inl ⟨limit, ?_⟩
      omega
    · have within := increaseSize_limit small rep.largest grew
      have wrapped : dataBlocksOf newSize = 0 := by
        rw [dataBlocksOf] at within ⊢
        omega
      have noBlocks : DiskInode.totalBlocks newSize = 0 := by
        simp only [DiskInode.totalBlocks, wrapped]
        rfl
      have few := blockCount_dataCount_lt rep.small
      obtain ⟨_, _, _, total, _, most⟩ := g.regions
      have device := g.bounded
      rw [noBlocks, dataBitmap_maximum] at alloc
      have empty : blockCount (dataCount node.content.length) = 0 := by
        omega
      have noData : (inodes id).dataBlocks = 0 := by
        rw [rep.dataBlocks_eq]
        rw [blockCount] at empty
        omega
      rw [onDisk_increaseSize_empty small noData wrapped] at grew
      cases grew
      refine .inr ⟨Nat.not_le.mp limit, ?_⟩
      show (BitVec.ofNat 32 newSize).toNat = newSize
      rw [BitVec.toNat_ofNat, Nat.mod_eq_of_lt small]

/-- A closure of `write_at` that returned wrote the node. -/
theorem Holding.growAndWrite_returned {written : Nat} {inode : DiskInode}
    (returned :
      (growAndWrite g.efs offset buf (inodes id)).onDisk [locked]
          disk =
        .ok ((written, inode), after)) :
    g.Enough disk node ((offset + buf.length) % 2 ^ 32) ∧
      offset ≤ node.writeStop offset buf ∧
      written = node.writeStop offset buf - offset ∧
      ∃ v, g.WroteNode inodes disk nodes id node offset buf v inode after := by
  have inside := (List.getElem?_eq_some_iff.mp present).1
  rw [growAndWrite] at returned
  obtain ⟨grown, between, grew, returned⟩ := onDisk_bind_eq_ok.mp returned
  obtain ⟨size, last, wrote, returned⟩ := onDisk_bind_eq_ok.mp returned
  cases returned
  have small : (offset + buf.length) % 2 ^ 32 < 2 ^ 32 :=
    Nat.mod_lt _ (by decide)
  have cut :
      (offset + buf.length) % 2 ^ 32 ≤ (offset + buf.length) % 2 ^ 64 := by
    rw [← Nat.mod_mod_of_dvd (offset + buf.length)
      (by decide : 2 ^ 32 ∣ 2 ^ 64)]
    exact Nat.mod_le _ _
  -- A write that returned ended inside the largest file.
  obtain ⟨asserted, looped, ordered⟩ :
      offset ≤ min ((offset + buf.length) % 2 ^ 64) inode.size.toNat ∧
        (inode.writeLoop
            (min ((offset + buf.length) % 2 ^ 64) inode.size.toNat) offset
            (offset / 512) 0 buf).onDisk [locked] between =
          .ok (written, after) ∧
        min ((offset + buf.length) % 2 ^ 64) inode.size.toNat ≤
          512 * 16540 := by
    rw [DiskInode.writeAt] at wrote
    obtain ⟨_, disk1, checked, looped⟩ := onDisk_bind_eq_ok.mp wrote
    obtain ⟨checked, same⟩ := onDisk_assert_eq_ok checked
    rw [same] at looped
    have asserted := of_decide_eq_true checked
    have sizeSmall := inode.size.isLt
    exact ⟨asserted, looped, writeLoop_limit looped asserted (by omega)⟩
  rcases holding.increaseSize_returned present below small grew with
    enough | ⟨tooLarge, sizeEq⟩
  · obtain ⟨grown', between', v, ran, holding1, taken, frame⟩ :=
      holding.onDisk_increaseSize present below enough.1 enough.2
    rw [grew] at ran
    cases ran
    have rep1 := holding1.represented id _ (getElem?_set_self inside)
    rw [update_self] at rep1
    have stopEq :
        min ((offset + buf.length) % 2 ^ 64) inode.size.toNat =
          node.writeStop offset buf := by
      rw [rep1.size]
      simp only [Node.grow, Node.writeStop, List.rightpad,
        length_append, length_replicate]
      omega
    rw [stopEq] at asserted looped
    refine ⟨enough, asserted, ?_⟩
    by_cases more : offset < node.writeStop offset buf
    · obtain ⟨inode', after', v', ran', facts⟩ :=
        holding.onDisk_growAndWrite present below enough more
      rw [growAndWrite, onDisk_bind_ok grew, onDisk_bind_ok wrote] at ran'
      cases ran'
      exact ⟨rfl, v', facts⟩
    · have finished : node.writeStop offset buf = offset := by omega
      rw [finished] at looped
      obtain ⟨nothing, unchanged⟩ := writeLoop_nothing looped
      rw [unchanged]
      refine ⟨by omega, v, ?_, taken, frame⟩
      have sameNode :
          node.write offset buf v =
            node.grow ((offset + buf.length) % 2 ^ 32) v := by
        simp only [Node.write, Node.grow, finished, Nat.sub_self,
          take_zero, overwrite_nil]
      rw [sameNode]
      exact holding1
  · omega

/-! ## Reading -/

/--
`DiskInode::read_at` on a node whose blocks are on the device.  When the end
of the buffer wraps, the offset is behind every file.
-/
theorem Holding.onDisk_readAt
    (onDevice : ∀ block ∈ node.blocks, block < g.totalBlocks)
    (addressable :
      offset + buf.length < 2 ^ 64 ∨ node.content.length ≤ offset) :
    ((inodes id).readAt offset buf).onDisk [locked] disk =
      .ok ((min (offset + buf.length) node.content.length - offset,
        overwrite buf 0
          (portion node.content offset
            (min (offset + buf.length) node.content.length))), disk) := by
  have rep := holding.represented id node present
  rcases addressable with addressable | behind
  · apply DiskInode.onDisk_readAt (fun _ _ => rfl) ?_ rep.largest rep.holds
      ?_ rep.size rep.content_le offset addressable
    · intro slot used
      exact canLock below
        (holding.inArea node (mem_of_getElem? present) _
          (rep.slot_mem used)).behind
    · intro index inside
      exact onDevice _ (rep.slot_mem (data_mem_slots.mpr inside))
  · have nothing :
        min (offset + buf.length) node.content.length - offset = 0 := by
      omega
    have past :
        offset ≥
          min ((offset + buf.length) % 2 ^ 64) (inodes id).size.toNat := by
      rw [rep.size]
      omega
    rw [DiskInode.readAt, if_pos past, portion, nothing, take_zero,
      overwrite_nil]
    rfl

end

/-! ## Clearing -/

/-- What giving back the blocks `v` changes. -/
structure GivenBack
    (g : Geometry) (disk : Disk) (v : List Nat) (after : Disk) : Prop where
  bits :
    ∀ block, g.InArea block →
      g.dataBit after block = (g.dataBit disk block && decide (block ∉ v))
  zero : ∀ block ∈ v, after block = zeros
  frame :
    ∀ block, block ∉ v → ¬ g.efs.dataBitmap.Covers block →
      after block = disk block

/-- The loop of `clear` over blocks whose bits are set. -/
theorem onDisk_deallocBlocks (below : locked < g.efs.dataBitmap.startBlockId)
    (v : List (BitVec 32)) (disk : Disk)
    (distinct : (v.map BitVec.toNat).Nodup)
    (inArea : ∀ block ∈ v.map BitVec.toNat, g.InArea block)
    (isSet : ∀ block ∈ v.map BitVec.toNat, g.dataBit disk block = true) :
    ∃ after,
      (deallocBlocks g.efs v).onDisk [locked] disk = .ok ((), after) ∧
        g.GivenBack disk (v.map BitVec.toNat) after := by
  induction v generalizing disk with
  | nil =>
    refine ⟨disk, rfl, ?_, by simp, fun _ _ _ => rfl⟩
    simp
  | cons block rest ih =>
    rw [map_cons] at distinct inArea isSet ⊢
    obtain ⟨notLater, restDistinct⟩ := nodup_cons.mp distinct
    have here := inArea block.toNat mem_cons_self
    have start := here.1
    have upper := here.2
    obtain ⟨between, ran, deallocated⟩ :=
      onDisk_deallocData (fun _ covers => canLock below covers.1)
        (by omega :
          block.toNat = g.dataStart + (block.toNat - g.dataStart))
        (canLock below here.behind) (by omega)
        (isSet block.toNat mem_cons_self)
    have bits (other : Nat) (inside : g.InArea other) :
        g.dataBit between other =
          (g.dataBit disk other && decide (other ≠ block.toNat)) := by
      have lower := inside.1
      have same :
          decide (other - g.dataStart ≠ block.toNat - g.dataStart) =
            decide (other ≠ block.toNat) := by
        rw [decide_eq_decide]
        omega
      have cleared :
          g.dataBit (Function.update disk block.toNat zeros) other =
            g.dataBit disk other := by
        refine dataBit_congr (fun covered covers => ?_) inside
        apply update_of_ne
        rintro rfl
        exact here.not_covers covers
      rw [dataBit, deallocated.bits, same, ← cleared]
    have kept (other : Nat) (different : other ≠ block.toNat)
        (outside : ¬ g.efs.dataBitmap.Covers other) :
        between other = disk other := by
      rw [deallocated.frame other outside, update_of_ne different]
    obtain ⟨after, ranRest, given⟩ :=
      ih between restDistinct
        (fun other later => inArea other (mem_cons_of_mem _ later))
        (fun other later => by
          have belongs := mem_cons_of_mem block.toNat later
          have different : other ≠ block.toNat := by
            rintro rfl
            exact notLater later
          rw [bits other (inArea other belongs), isSet other belongs,
            decide_eq_true different]
          rfl)
    refine ⟨after, ?_, ?_, ?_, ?_⟩
    · rw [deallocBlocks, onDisk_bind_ok ran, ranRest]
    · intro other inside
      rw [given.bits other inside, bits other inside, Bool.and_assoc,
        ← Bool.decide_and]
      simp only [mem_cons, not_or]
    · intro other belongs
      rcases mem_cons.mp belongs with rfl | later
      · rw [given.frame block.toNat notLater here.not_covers,
          deallocated.frame block.toNat here.not_covers, update_self]
      · exact given.zero other later
    · intro other notMember outside
      rw [mem_cons, not_or] at notMember
      rw [given.frame other notMember.2 outside,
        kept other notMember.1 outside]

/-- The empty node that `clear` leaves. -/
theorem represents_empty
    {inode : DiskInode} {kind : DiskInodeType} (limit : Nat) (disk : Disk)
    (size : inode.size = 0) (type_ : inode.type_ = kind) :
    (Node.empty kind).Represents inode limit disk := by
  have none : inode.dataBlocks = 0 := by
    rw [dataBlocks, size]
    rfl
  refine ⟨by rw [size]; rfl, type_, Nat.zero_le _, ?_, ?_⟩
  · rw [DiskInode.blocks, none]
    rfl
  · intro index inside
    omega

/-- The closure of `clear` empties its node and gives all its blocks back. -/
theorem Holding.onDisk_clearDiskInode (holding : g.Holding inodes disk nodes)
    (present : nodes[id]? = some node)
    (below : locked < g.efs.dataBitmap.startBlockId) :
    ∃ inode after,
      (clearDiskInode g.efs (inodes id)).onDisk [locked] disk =
          .ok (((), inode), after) ∧
        g.Holding (Function.update inodes id inode) after
          (nodes.set id (Node.empty node.kind)) ∧
        g.GivenBack disk node.blocks after ∧
        ∀ block, block < g.efs.dataBitmap.startBlockId →
          after block = disk block := by
  have member := mem_of_getElem? present
  have rep := holding.represented id node present
  have distinct := holding.distinct id node present
  have inArea := holding.inArea node member
  obtain ⟨v, cleared, ran, blocksEq, size, type_⟩ :=
    DiskInode.onDisk_clearSize rep.largest
      (by rw [rep.blocks]; exact distinct)
      (by
        intro block owns
        rw [rep.blocks] at owns
        exact (canLock below (inArea block owns).behind).1)
      (by rw [length_singleton]; omega)
  rw [rep.blocks, DiskInode.ids] at blocksEq
  obtain ⟨after, ranBack, given⟩ :=
    onDisk_deallocBlocks below v disk (by rw [blocksEq]; exact distinct)
      (by rw [blocksEq]; exact inArea)
      (by rw [blocksEq]; exact holding.owned node member)
  rw [blocksEq] at given
  have lengthEq :
      (v.length == DiskInode.totalBlocks (inodes id).size.toNat) = true := by
    have length := congrArg List.length blocksEq
    rw [length_map, rep.length_blocks] at length
    rw [beq_iff_eq, rep.size, totalBlocks_eq rep.small, length]
  have keptBelow (block : Nat) (outside : ¬ g.efs.dataBitmap.Covers block)
      (notInArea : ¬ g.InArea block) : after block = disk block :=
    given.frame block (fun owns => notInArea (inArea block owns)) outside
  refine ⟨cleared, after, ?_, ?_, given, ?_⟩
  · rw [clearDiskInode, onDisk_bind_ok ran]
    dsimp only
    rw [lengthEq]
    show (deallocBlocks g.efs v >>= _).onDisk [locked] disk = _
    rw [onDisk_bind_ok ranBack]
    rfl
  · apply holding.replaceNode (getElem?_set_present present)
      (fun _ different => getElem?_set_ne (Ne.symm different))
    · refine keptBelow 0 ?_ InArea.ne_zero
      rintro ⟨lower, _⟩
      obtain ⟨_, start, _, _, _, _⟩ := g.regions
      omega
    · exact represents_empty _ _ size (type_.trans rep.kind)
    · exact nodup_nil
    · intro block owns
      cases owns
    · intro block owns
      cases owns
    · intro block owns
      cases owns
    · intro other otherNode different otherAt block otherOwns
      have otherMember := mem_of_getElem? otherAt
      have otherInArea := holding.inArea otherNode otherMember block otherOwns
      have notHere : block ∉ node.blocks := fun owns =>
        holding.apart id other node otherNode (Ne.symm different) present
          otherAt block owns otherOwns
      refine ⟨given.frame block notHere otherInArea.not_covers, ?_⟩
      rw [given.bits block otherInArea,
        holding.owned otherNode otherMember block otherOwns,
        decide_eq_true notHere]
      rfl
    · intro block inside onDevice clear
      by_cases here : block ∈ node.blocks
      · exact given.zero block here
      · rw [given.bits block inside, decide_eq_true here, Bool.and_true]
          at clear
        rw [given.frame block here inside.not_covers]
        exact holding.freeZero block inside onDevice clear
  · intro block under
    apply keptBelow
    · rintro ⟨lower, _⟩
      omega
    · intro wrong
      have behind := wrong.behind
      omega

end Geometry

end RCoreOS.EasyFs
