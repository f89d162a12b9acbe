import RCoreOS.Kernel.MemorySetInvariant

/-!
# What the operations on an address space take and touch

Mapping pages takes frames from the allocator and writes to those frames and
to the tables of the page table; every other frame in use keeps its contents.
With that, and a count of the frames that are left, the operations that map
pages return whenever enough frames are left.
-/

namespace RCoreOS.Kernel

open Lib.FallibleRuns Lib.RadixTree PageTable StackFrameAllocator List Function

/-! ## Frames that are left -/

namespace StackFrameAllocator

/-- The number of frames that the allocator can still hand out. -/
def available (self : StackFrameAllocator) : Nat :=
  self.recycled.length + (self.endPpn - self.current)

theorem alloc_available {self after : StackFrameAllocator} {ppn : Nat}
    (allocated : self.alloc = some (ppn, after)) :
    after.available + 1 = self.available := by
  have currentLe := self.current_le
  obtain ⟨endEq, cases⟩ := alloc_cases allocated
  rw [available, available, endEq]
  rcases cases with
    ⟨recycledEq, currentEq⟩ | ⟨recycledEq, afterEq, _, _, currentEq⟩
  · rw [recycledEq, currentEq, length_append, length_singleton]
    omega
  · rw [recycledEq, afterEq, currentEq]
    omega

theorem alloc_returns (self : StackFrameAllocator)
    (enough : 0 < self.available) : ∃ result, self.alloc = some result := by
  cases allocated : self.alloc with
  | none =>
    obtain ⟨nothing, same⟩ := alloc_eq_none.mp allocated
    rw [available, nothing, same, length_nil, Nat.sub_self] at enough
    cases enough
  | some result => exact ⟨result, rfl⟩

end StackFrameAllocator

/-! ## Taking frames -/

/--
The step took at most `count` frames and wrote only to frames that were free
and to the tables.  The tables after it are tables before it or were free.
-/
structure Takes (count : Nat) (tables tablesAfter : List Nat)
    (before after : KernelMemory) : Prop where
  spent : before.allocator.available ≤ after.allocator.available + count
  free : ∀ ppn, after.allocator.Free ppn → before.allocator.Free ppn
  kept :
    ∀ ppn, ¬ before.allocator.Free ppn → ppn ∉ tables →
      after.memory ppn = before.memory ppn
  fresh : ∀ ppn ∈ tablesAfter, ppn ∈ tables ∨ before.allocator.Free ppn

section

variable {table after : PageTable} {phys between afterPhys : KernelMemory}
  {vpn : Nat} {tables tablesBetween tablesAfter : List Nat}

theorem Takes.refl (count : Nat) (tables : List Nat) (phys : KernelMemory) :
    Takes count tables tables phys phys where
  spent := Nat.le_add_right _ _
  free _ := id
  kept _ _ _ := rfl
  fresh _ := .inl

theorem Takes.trans {first second : Nat}
    (earlier : Takes first tables tablesBetween phys between)
    (later : Takes second tablesBetween tablesAfter between afterPhys) :
    Takes (first + second) tables tablesAfter phys afterPhys where
  spent := by
    have earlierSpent := earlier.spent
    have laterSpent := later.spent
    omega
  free ppn isFree := earlier.free ppn (later.free ppn isFree)
  kept ppn inUse outside := by
    have outsideBetween : ppn ∉ tablesBetween := by
      intro member
      rcases earlier.fresh ppn member with member | isFree
      · exact outside member
      · exact inUse isFree
    rw [later.kept ppn (fun isFree => inUse (earlier.free ppn isFree))
      outsideBetween, earlier.kept ppn inUse outside]
  fresh ppn member := by
    rcases later.fresh ppn member with member | isFree
    · exact earlier.fresh ppn member
    · exact .inr (earlier.free ppn isFree)

/-- The frame that is handed out was free, and only it is written. -/
theorem frameAlloc_takes {frame : Nat} (tables : List Nat)
    (returned : phys.frameAlloc = .ok (frame, afterPhys)) :
    Takes 1 tables tables phys afterPhys ∧ phys.allocator.Free frame := by
  obtain ⟨allocated, memoryEq⟩ := Phys.frameAlloc_eq_ok returned
  obtain ⟨_, wasFree, stillFree⟩ := StackFrameAllocator.alloc_spec allocated
  have count := alloc_available allocated
  refine ⟨⟨by omega, fun ppn isFree => (stillFree ppn isFree).1, ?_,
    fun _ => .inl⟩, wasFree⟩
  intro ppn inUse _
  have different : ppn ≠ frame := by
    rintro rfl
    exact inUse wasFree
  rw [memoryEq, update_of_ne different]

theorem frameAlloc_returns (enough : 0 < phys.allocator.available) :
    ∃ result, phys.frameAlloc = .ok result := by
  obtain ⟨result, allocated⟩ := alloc_returns phys.allocator enough
  have allocated : FrameAllocator.alloc phys.allocator = some result :=
    allocated
  rw [Phys.frameAlloc, allocated]
  exact ⟨_, rfl⟩

variable {ppn : Nat}

/-- Writing an entry of a table. -/
theorem setEntry_takes (member : ppn ∈ tables) (idx : Fin 512)
    (entry : PageTableEntry) :
    Takes 0 tables tables phys
      { phys with memory := setEntry phys.memory ppn idx entry } where
  spent := Nat.le_refl _
  free _ := id
  kept other _ outside := by
    have different : other ≠ ppn := by
      rintro rfl
      exact outside member
    exact update_of_ne different _ _
  fresh _ := .inl

theorem descend_takes {next : Nat} {idx : Fin 512}
    (member : ppn ∈ table.frames)
    (returned : table.descend phys ppn idx = .ok (next, after, afterPhys)) :
    Takes 1 table.frames after.frames phys afterPhys := by
  rw [descend] at returned
  split at returned
  · cases returned
    exact .refl 1 _ _
  · obtain ⟨⟨frame, between⟩, frameEq, rest⟩ := bind_eq_ok.mp returned
    cases rest
    obtain ⟨takes, wasFree⟩ := frameAlloc_takes table.frames frameEq
    have written :=
      takes.trans (setEntry_takes member idx (.new frame PTEFlags.v))
    refine ⟨written.spent, written.free, written.kept, ?_⟩
    intro other present
    rcases mem_append.mp present with old | new
    · exact .inl old
    · rw [mem_singleton.mp new]
      exact .inr wasFree

theorem findPteCreate_takes (shaped : table.Shaped phys)
    {found : Option (Nat × Fin 512)}
    (returned :
      table.findPteCreate phys vpn = .ok (found, after, afterPhys)) :
    Takes 2 table.frames after.frames phys afterPhys := by
  rw [findPteCreate, indexes, findPteCreateFrom, if_neg (by decide)]
    at returned
  obtain ⟨⟨middle, second, secondPhys⟩, firstEq, rest⟩ :=
    bind_eq_ok.mp returned
  dsimp only at rest
  rw [findPteCreateFrom, if_neg (by decide)] at rest
  obtain ⟨⟨leaf, third, thirdPhys⟩, secondEq, rest⟩ := bind_eq_ok.mp rest
  dsimp only at rest
  rw [findPteCreateFrom, if_pos rfl] at rest
  cases rest
  have atRoot : table.tableAt phys.memory [] = some table.rootPpn := rfl
  have rootMember : table.rootPpn ∈ table.frames :=
    shaped.tree.mem_tables (by simp) atRoot
  obtain ⟨secondShaped, _, walked⟩ := shaped.descend (by decide) atRoot firstEq
  have middleMember : middle ∈ second.frames :=
    secondShaped.tree.mem_tables (by simp) walked
  exact (descend_takes rootMember firstEq).trans
    (descend_takes middleMember secondEq)

variable {flags : PTEFlags}

theorem map_takes (shaped : table.Shaped phys)
    (returned : table.map phys vpn ppn flags = .ok (after, afterPhys)) :
    Takes 2 table.frames after.frames phys afterPhys := by
  obtain ⟨⟨found, between, betweenPhys⟩, foundEq, rest⟩ :=
    bind_eq_ok.mp returned
  obtain ⟨betweenShaped, _, leaf, rfl, walked⟩ := shaped.findPteCreate foundEq
  have bottom : (upper vpn).length = 2 := rfl
  have leafMember : leaf ∈ between.frames :=
    betweenShaped.tree.mem_tables (by omega) walked
  dsimp only at rest
  split at rest
  · cases rest
  · cases rest
    exact (findPteCreate_takes shaped foundEq).trans
      (setEntry_takes leafMember _ _)

/-- A page that is not mapped can be mapped with two frames. -/
theorem map_returns (shaped : table.Shaped phys)
    (unmapped : table.mapping phys.memory vpn = none)
    (enough : 2 ≤ phys.allocator.available) :
    ∃ result, table.map phys vpn ppn flags = .ok result := by
  obtain ⟨first, firstEq⟩ := alloc_returns phys.allocator (by omega)
  have count := alloc_available firstEq
  obtain ⟨second, secondEq⟩ := alloc_returns first.2 (by omega)
  obtain ⟨⟨found, between, betweenPhys⟩, foundEq⟩ :=
    findPteCreate_returns table vpn ⟨first, second, firstEq, secondEq⟩
  obtain ⟨_, grows, leaf, rfl, walked⟩ := shaped.findPteCreate foundEq
  have invalid :
      (betweenPhys.memory leaf (lower vpn)).isValid = false := by
    rw [mapping, ← (grows.same vpn).filter_eq, ← mapping] at unmapped
    exact mapping_eq_none_iff.mp unmapped _ (translate_of_tableAt walked)
  exact ⟨_, bind_eq_ok.mpr
    ⟨_, foundEq, if_neg (by rw [invalid]; exact Bool.false_ne_true)⟩⟩

end

/-! ## Areas -/

namespace MapArea

variable {area result : MapArea} {table after : PageTable}
  {phys afterPhys : KernelMemory} {pages : Pages} {vpn : Nat}
  {vpns : List Nat}

section

variable (backs : Backs pages table phys)

include backs

section

variable (new : area.NewPages (vpn :: vpns))

include new

/-- The frame of the new page was free, and it is cleared. -/
theorem mapOne_takes
    (returned :
      area.mapOne table phys vpn = .ok (result, after, afterPhys)) :
    Takes 3 table.frames after.frames phys afterPhys ∧
      ∀ frame, result.dataFrames.lookup vpn = some frame →
        phys.allocator.Free frame ∧
          afterPhys.memory frame = fun _ => .empty := by
  rw [mapOne, new.framed, new.absent vpn mem_cons_self] at returned
  obtain ⟨⟨frame, between⟩, frameEq, rest⟩ := bind_eq_ok.mp returned
  obtain ⟨same, sameEq, rest⟩ := bind_eq_ok.mp rest
  cases sameEq
  obtain ⟨⟨mapped, mappedPhys⟩, mapEq, rest⟩ := bind_eq_ok.mp rest
  cases rest
  obtain ⟨takes, wasFree⟩ := frameAlloc_takes table.frames frameEq
  obtain ⟨betweenBacks, _, inUse, noTable, _⟩ := backs.frameAlloc frameEq
  have mapTakes := map_takes betweenBacks.shaped mapEq
  refine ⟨takes.trans mapTakes, ?_⟩
  intro other found
  rw [AList.lookup_insert] at found
  cases found
  obtain ⟨_, memoryEq⟩ := Phys.frameAlloc_eq_ok frameEq
  refine ⟨wasFree, ?_⟩
  rw [mapTakes.kept _ inUse noTable, memoryEq, update_self]

/-- A page that is not mapped can be added with three frames. -/
theorem mapOne_returns (unmapped : pages vpn = none)
    (enough : 3 ≤ phys.allocator.available) :
    ∃ returned, area.mapOne table phys vpn = .ok returned := by
  obtain ⟨⟨frame, between⟩, frameEq⟩ :=
    frameAlloc_returns (Nat.lt_of_lt_of_le (by decide) enough)
  have spent := (frameAlloc_takes [] frameEq).1.spent
  obtain ⟨betweenBacks, _⟩ := backs.frameAlloc frameEq
  have nothing : table.mapping between.memory vpn = none := by
    rw [betweenBacks.mapping_eq vpn (new.small vpn mem_cons_self), unmapped]
    rfl
  obtain ⟨mapped, mapEq⟩ :
      ∃ mapped, table.map between vpn frame area.mapPerm.bits = .ok mapped :=
    map_returns betweenBacks.shaped nothing (by omega)
  rw [mapOne, new.framed, new.absent vpn mem_cons_self]
  exact ⟨_, bind_eq_ok.mpr ⟨_, frameEq,
    bind_eq_ok.mpr ⟨between, rfl, bind_eq_ok.mpr ⟨_, mapEq, rfl⟩⟩⟩⟩

end

variable (new : area.NewPages vpns)

include new

/-- The frames of the new pages were free, and they are cleared. -/
theorem mapPages_takes
    (returned :
      area.mapPages table phys vpns = .ok (result, after, afterPhys)) :
    Takes (3 * vpns.length) table.frames after.frames phys afterPhys ∧
      ∀ vpn ∈ vpns, ∀ frame, result.dataFrames.lookup vpn = some frame →
        phys.allocator.Free frame ∧
          afterPhys.memory frame = fun _ => .empty := by
  induction vpns generalizing area table phys pages with
  | nil =>
    cases returned
    exact ⟨.refl _ _ _, nofun⟩
  | cons vpn rest induction =>
    obtain ⟨⟨between, betweenTable, betweenPhys⟩, oneEq, restEq⟩ :=
      bind_eq_ok.mp returned
    obtain ⟨firstTakes, firstFree⟩ := mapOne_takes backs new oneEq
    obtain ⟨frame, rfl, _, betweenBacks⟩ := mapOne_spec backs new oneEq
    obtain ⟨restTakes, restFree⟩ :=
      induction betweenBacks (new.tail frame) restEq
    obtain ⟨_, adds, _⟩ := mapPages_spec betweenBacks (new.tail frame) restEq
    refine ⟨?_, ?_⟩
    · have takes := firstTakes.trans restTakes
      rw [length_cons, Nat.mul_add, Nat.add_comm]
      exact takes
    · intro other member otherFrame found
      rcases mem_cons.mp member with rfl | member
      · rw [(adds.old other new.not_mem).2] at found
        obtain ⟨wasFree, cleared⟩ := firstFree otherFrame found
        rw [AList.lookup_insert] at found
        cases found
        have mappedHere := update_self other
          (some (frame, area.mapPerm.bits)) pages
        refine ⟨wasFree, ?_⟩
        rw [restTakes.kept frame (betweenBacks.inUse mappedHere)
          (betweenBacks.notTable mappedHere), cleared]
      · obtain ⟨wasFree, cleared⟩ := restFree other member otherFrame found
        exact ⟨firstTakes.free otherFrame wasFree, cleared⟩

/-- Pages that are not mapped can be added with three frames for each. -/
theorem mapPages_returns (unmapped : ∀ vpn ∈ vpns, pages vpn = none)
    (enough : 3 * vpns.length ≤ phys.allocator.available) :
    ∃ returned, area.mapPages table phys vpns = .ok returned := by
  induction vpns generalizing area table phys pages with
  | nil => exact ⟨_, rfl⟩
  | cons vpn rest induction =>
    rw [length_cons] at enough
    obtain ⟨⟨between, betweenTable, betweenPhys⟩, oneEq⟩ :=
      mapOne_returns backs new (unmapped vpn mem_cons_self) (by omega)
    have spent := (mapOne_takes backs new oneEq).1.spent
    obtain ⟨frame, rfl, _, betweenBacks⟩ := mapOne_spec backs new oneEq
    obtain ⟨result, restEq⟩ :=
      induction betweenBacks (new.tail frame)
        (fun other member => by
          rw [update_of_ne (new.ne member)]
          exact unmapped other (mem_cons_of_mem _ member))
        (by omega)
    exact ⟨result, bind_eq_ok.mpr ⟨_, oneEq, restEq⟩⟩

end

end MapArea

/-! ## Address spaces -/

namespace MemorySet

variable {text : Nat} {set : MemorySet} {before phys after : KernelMemory}
  {pages added : Pages} {area result : MapArea} {table : PageTable}

/-- A framed area without frames is mapped behind the others. -/
theorem Represents.map
    (represents : Represents text set.areas set.pageTable phys pages)
    (framed : area.mapType = .framed) (r_le : area.vpnRange.r ≤ 2 ^ 27)
    (empty : ∀ vpn, area.dataFrames.lookup vpn = none)
    (returned : area.map set.pageTable phys = .ok (result, table, after)) :
    ∃ added, area.Adds pages area.vpnRange.toList result added ∧
      Takes (3 * area.vpnRange.toList.length) set.pageTable.frames
        table.frames phys after ∧
      (∀ vpn ∈ area.vpnRange.toList, ∀ frame,
        result.dataFrames.lookup vpn = some frame →
          phys.allocator.Free frame ∧ after.memory frame = fun _ => .empty) ∧
      Represents text (set.areas ++ [result]) table after added := by
  have new := MapArea.NewPages.range framed r_le empty
  obtain ⟨added, adds, addedBacks⟩ :=
    MapArea.mapPages_spec represents.backs new returned
  obtain ⟨takes, wereFree⟩ :=
    MapArea.mapPages_takes represents.backs new returned
  refine ⟨added, adds, takes, wereFree, ?_⟩
  exact (represents.insert adds framed r_le empty addedBacks).perm
    (perm_append_singleton result set.areas)

/-- The frames of the memory set were free when the memory was `before`. -/
structure NewFrames (before : KernelMemory) (set : MemorySet)
    (phys : KernelMemory) : Prop where
  free : ∀ ppn, phys.allocator.Free ppn → before.allocator.Free ppn
  tables : ∀ ppn ∈ set.pageTable.frames, before.allocator.Free ppn
  frames :
    ∀ area ∈ set.areas, ∀ vpn frame,
      area.dataFrames.lookup vpn = some frame → before.allocator.Free frame

/-- An area that was mapped with frames that were free. -/
theorem NewFrames.map (newFrames : NewFrames before set phys) {count : Nat}
    (adds : area.Adds pages area.vpnRange.toList result added)
    (takes : Takes count set.pageTable.frames table.frames phys after)
    (wereFree :
      ∀ vpn ∈ area.vpnRange.toList, ∀ frame,
        result.dataFrames.lookup vpn = some frame →
          phys.allocator.Free frame ∧ after.memory frame = fun _ => .empty)
    (empty : ∀ vpn, area.dataFrames.lookup vpn = none) :
    NewFrames before ⟨table, set.areas ++ [result]⟩ after where
  free ppn isFree := newFrames.free ppn (takes.free ppn isFree)
  tables ppn isTable := by
    rcases takes.fresh ppn isTable with old | isFree
    · exact newFrames.tables ppn old
    · exact newFrames.free ppn isFree
  frames other member vpn frame found := by
    rcases mem_append.mp member with old | last
    · exact newFrames.frames other old vpn frame found
    · rw [mem_singleton.mp last] at found
      by_cases inside : vpn ∈ area.vpnRange.toList
      · exact newFrames.free frame (wereFree vpn inside frame found).1
      · rw [(adds.old vpn inside).2, empty] at found
        cases found

end MemorySet

end RCoreOS.Kernel
