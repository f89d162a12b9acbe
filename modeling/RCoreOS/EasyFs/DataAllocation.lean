import RCoreOS.EasyFs.FileContents

/-!
# Which blocks `alloc_data` hands out

The data bitmap occupies whole blocks, so it can have more bits than the data
area has blocks.  `alloc_data` takes the lowest zero bit of the whole bitmap:
once the data area is full it hands out blocks behind the device, until the
bits run out and it panics.
-/

namespace RCoreOS.EasyFs

open BlockProg List

namespace Geometry

variable {g : Geometry} {disk : Disk}

/-- No zero bit of the data bitmap lies behind the data area, unless there is
one in it. -/
def BlocksLeft (g : Geometry) (disk : Disk) : Prop :=
  (∃ n, n < g.dataAreaBlocks ∧ g.efs.dataBitmap.bit disk n = false) ∨
    ∀ n, n < g.efs.dataBitmap.maximum → g.efs.dataBitmap.bit disk n = true

/-- `alloc_data` takes the lowest zero bit, wherever that is. -/
theorem onDisk_allocData_inside (disk : Disk) :
    (∀ blockId after,
        g.efs.allocData.onDisk [] disk = .ok (blockId, after) →
          g.dataStart ≤ blockId.toNat ∧ blockId.toNat < g.totalBlocks) ↔
      g.BlocksLeft disk := by
  obtain ⟨_, _, _, total, _, _⟩ := g.regions
  have lockable (blockId : Nat) (_ : g.efs.dataBitmap.Covers blockId) :
      BlockProg.CanLock [] blockId := canLock_nil blockId
  by_cases notFull : g.efs.dataBitmap.used disk < g.efs.dataBitmap.maximum
  · obtain ⟨n, after, blockId, ran, allocated, blockEq⟩ :=
      onDisk_allocData lockable notFull
    constructor
    · intro inside
      obtain ⟨_, below⟩ := inside blockId after ran
      exact .inl ⟨n, by omega, allocated.clear⟩
    · intro left other otherAfter returned
      rw [ran] at returned
      cases returned
      refine ⟨by omega, ?_⟩
      rcases left with ⟨clear, below, isClear⟩ | full
      · by_contra behind
        have isSet := allocated.lowest clear (by omega)
        rw [isClear] at isSet
        cases isSet
      · have isSet := full n allocated.inside
        rw [allocated.clear] at isSet
        cases isSet
  · have full := Nat.not_lt.mp notFull
    constructor
    · intro _
      exact .inr fun n inside => Bitmap.bit_of_full full inside
    · intro _ blockId after returned
      rw [onDisk_allocData_full lockable full] at returned
      cases returned

/-- The same for the states that sessions reach. -/
theorem run_allocData_inside {device : BlockDevice} {ops : List Op}
    {outcome : EasyFileSystem × List (Option Event) × List Inode}
    {state : CacheState}
    (reached :
      (newSession g.totalBlocks g.inodeBitmapBlocks ops).run
          (CacheState.start device) =
        .ok (outcome, state)) :
    (∀ blockId after,
        outcome.1.allocData.run state = .ok (blockId, after) →
          outcome.1.dataAreaStartBlock ≤ blockId.toNat ∧
            blockId.toNat < g.totalBlocks) ↔
      g.BlocksLeft state.view := by
  have coherent :=
    (run_newSession_settled (CacheState.start_coherent device) reached).1
  obtain ⟨_, _, onCache⟩ := g.run_newSession device
  obtain ⟨efsEq, _⟩ := (onCache ops outcome state.view).mp ⟨state, reached, rfl⟩
  rw [efsEq, ← onDisk_allocData_inside]
  constructor
  · intro inside blockId after returned
    obtain ⟨last, ran, _⟩ := run_of_onDisk coherent returned
    exact inside blockId last ran
  · intro inside blockId after returned
    obtain ⟨_, ran⟩ := onDisk_of_run coherent returned
    exact inside blockId _ ran

/--
In every state that a session reaches, the blocks that `alloc_data` can return
are in the data area exactly when a bit of the data area is zero, or when no
bit of the bitmap is.
-/
theorem alloc_data_stays_on_disk
    (g : Geometry) (device : BlockDevice) (ops : List Op)
    (outcome : EasyFileSystem × List (Option Event) × List Inode)
    (state : CacheState)
    (reached :
      (newSession g.totalBlocks g.inodeBitmapBlocks ops).run
          (CacheState.start device) =
        .ok (outcome, state)) :
    (∀ blockId after,
        outcome.1.allocData.run state = .ok (blockId, after) →
          outcome.1.dataAreaStartBlock ≤ blockId.toNat ∧
            blockId.toNat < g.totalBlocks) ↔
      g.BlocksLeft state.view :=
  run_allocData_inside reached

theorem alloc_data_stays_on_disk_small :
    ∃ outcome state,
      (newSession 1037 1 []).run
            (CacheState.start ⟨fun _ => Lib.Bytes.zeros⟩) =
          .ok (outcome, state) ∧
        ((∀ blockId after,
            outcome.1.allocData.run state = .ok (blockId, after) →
              outcome.1.dataAreaStartBlock ≤ blockId.toNat ∧
                blockId.toNat < 1037) ↔
          small.BlocksLeft state.view) := by
  obtain ⟨state, returned, _⟩ :=
    @newSession_returns small ⟨fun _ => Lib.Bytes.zeros⟩ [] trivial (by decide)
  exact ⟨_, state, returned,
    alloc_data_stays_on_disk small ⟨fun _ => Lib.Bytes.zeros⟩ [] _ state
      returned⟩

/-! ## A full data area -/

/-- When as many blocks are used as the data area has, all of it is used. -/
theorem Consistent.bit_of_area_full {nodes : List Node}
    (consistent : g.Consistent disk nodes)
    (full : g.efs.dataBitmap.used disk = g.dataAreaBlocks)
    {n : Nat} (inside : n < g.dataAreaBlocks) :
    g.efs.dataBitmap.bit disk n = true := by
  obtain ⟨_, _, _, total, enough, _⟩ := g.regions
  obtain ⟨more, maximumEq⟩ :
      ∃ more, g.efs.dataBitmap.maximum = g.dataAreaBlocks + more := by
    refine Nat.exists_eq_add_of_le ?_
    rw [dataBitmap_maximum]
    omega
  have behind :
      ((List.range more).map (g.dataAreaBlocks + ·)).countP
          (g.efs.dataBitmap.bit disk) = 0 := by
    rw [countP_eq_zero]
    intro other member isSet
    obtain ⟨beyond, below, rfl⟩ := mem_map.mp member
    have small := mem_range.mp below
    have bitEq :
        g.dataBit disk (g.dataStart + (g.dataAreaBlocks + beyond)) = true := by
      rw [dataBit, Nat.add_sub_cancel_left, isSet]
    obtain ⟨node, nodeMember, owns⟩ :=
      consistent.owner _ (inArea_add (by omega)) bitEq
    have onDevice := consistent.onDevice node nodeMember _ owns
    omega
  rw [Bitmap.used, maximumEq, range_add, countP_append, behind,
    Nat.add_zero] at full
  have all :
      (List.range g.dataAreaBlocks).countP (g.efs.dataBitmap.bit disk) =
        (List.range g.dataAreaBlocks).length := by
    rw [full, length_range]
  exact countP_eq_length.mp all n (mem_range.mpr inside)

/-- A device with one block in the data area. -/
def tiny : Geometry := ⟨1028, 1, Nat.one_pos, by decide, by decide⟩

/-- When the only data block is taken, `alloc_data` returns the block behind
the device. -/
theorem alloc_data_leaves_disk :
    ∃ outcome state blockId after,
      (newSession 1028 1 [⟨0, .create "a"⟩]).run
            (CacheState.start ⟨fun _ => Lib.Bytes.zeros⟩) =
          .ok (outcome, state) ∧
        outcome.1.allocData.run state = .ok (blockId, after) ∧
        ¬ (outcome.1.dataAreaStartBlock ≤ blockId.toNat ∧
            blockId.toNat < 1028) := by
  obtain ⟨state, returned, nodes, shows_⟩ :=
    @newSession_returns tiny ⟨fun _ => Lib.Bytes.zeros⟩ [⟨0, .create "a"⟩]
      (by decide +kernel) (by decide +kernel)
  have used : tiny.efs.dataBitmap.used state.view = 1 := by
    rw [shows_.used_eq]
    decide +kernel
  have notLeft : ¬ tiny.BlocksLeft state.view := by
    rintro (⟨n, inside, clear⟩ | full)
    · have isSet := shows_.consistent.bit_of_area_full used inside
      rw [clear] at isSet
      cases isSet
    · have many := Bitmap.le_used (Nat.le_refl _) full
      rw [used] at many
      exact absurd many (by decide)
  rw [← run_allocData_inside returned] at notLeft
  simp only [not_forall] at notLeft
  obtain ⟨blockId, after, allocated, outside⟩ := notLeft
  exact ⟨_, state, blockId, after, returned, allocated, outside⟩

end Geometry

end RCoreOS.EasyFs
