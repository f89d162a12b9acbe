import RCoreOS.Kernel.MemorySetInvariant

/-!
# Buffers in user memory

`translated_byte_buffer` of `os/src/mm/page_table.rs`.  `sys_read` and
`sys_write` hand its slices to the file layer, with the address and the length
that the program gave.

The loop takes the leaf entry of each page as it is.  A loop that has not ended
after `fuel` turns gives `none`: with an address in the middle of the 64-bit
range it can go on for ever.
-/

namespace RCoreOS.Kernel

open PageTable List

/-! ## The loop -/

/-- `VirtAddr::page_offset` -/
def pageOffset (va : Nat) : Nat := va &&& (pageSize - 1)

/--
A slice of a physical page.  `vpn` is the page of the address space through
which the slice was reached.
-/
structure Slice where
  vpn : Nat
  ppn : Nat
  start : Nat
  stop : Nat
deriving DecidableEq, Repr

variable {table : PageTable} {memory : Nat → Fin 512 → PageTableEntry}

/-- One turn of the loop in `translated_byte_buffer`, and the next `start`. -/
def bufferTurn (table : PageTable) (memory : Nat → Fin 512 → PageTableEntry)
    (stop start : Nat) : Except Stop (Slice × Nat) :=
  let startVa := virtAddr start
  let vpn := floor startVa
  match table.translate memory vpn with
  | none => .error .panicked
  | some entry =>
    let endVa := min ((vpn + 1) <<< 12) (virtAddr stop)
    if pageOffset endVa = 0 then
      .ok (⟨vpn, entry.ppn, pageOffset startVa, pageSize⟩,
        usizeOfVirtAddr endVa)
    else if pageOffset startVa ≤ pageOffset endVa then
      .ok (⟨vpn, entry.ppn, pageOffset startVa, pageOffset endVa⟩,
        usizeOfVirtAddr endVa)
    else .error .panicked

/-- The loop in `translated_byte_buffer`. -/
def bufferLoop (table : PageTable) (memory : Nat → Fin 512 → PageTableEntry)
    (stop : Nat) : Nat → Nat → Option (Except Stop (List Slice))
  | 0, _ => none
  | fuel + 1, start =>
    if start < stop then
      match bufferTurn table memory stop start with
      | .error stopped => some (.error stopped)
      | .ok (slice, next) =>
        (bufferLoop table memory stop fuel next).map fun rest =>
          rest.map fun slices => slice :: slices
    else some (.ok [])

/-- `translated_byte_buffer`; the sum of address and length wraps. -/
def translatedByteBuffer (memory : Nat → Fin 512 → PageTableEntry)
    (fuel token ptr len : Nat) : Option (Except Stop (List Slice)) :=
  bufferLoop (fromToken token) memory ((ptr + len) % 2 ^ 64) fuel ptr

/-! ## The pages of a buffer -/

/--
The address below 2 ^ 39 at which the loop ends.  An end between the two halves
of the address space stops the loop where the upper half begins.
-/
def bufferReach (stop start : Nat) : Nat :=
  max (virtAddr start + 1)
    (if stop ≤ 2 ^ 64 - 2 ^ 38 then min stop (2 ^ 38) else virtAddr stop)

/-- The pages that the loop goes through, if it returns. -/
def bufferPages (stop start : Nat) : List Nat :=
  if start < stop then
    List.range' (floor (virtAddr start))
      ((bufferReach stop start + (pageSize - 1)) / pageSize -
        floor (virtAddr start))
  else []

/-- The address at which a turn of the loop ends. -/
def turnEnd (stop start : Nat) : Nat :=
  min ((floor (virtAddr start) + 1) * pageSize) (virtAddr stop)

theorem turnEnd_lt (stop start : Nat) : turnEnd stop start < 2 ^ 39 := by
  have small : virtAddr stop < 2 ^ 39 := by
    rw [virtAddr_eq_mod]
    exact Nat.mod_lt _ (by decide)
  exact Nat.lt_of_le_of_lt (Nat.min_le_right _ _) small

variable {stop start : Nat} {slices : List Slice}

/-- A turn takes one page and goes on where it or the buffer ends. -/
theorem bufferTurn_eq_ok {next : Nat} {slice : Slice}
    (returned : bufferTurn table memory stop start = .ok (slice, next)) :
    slice.vpn = floor (virtAddr start) ∧
      (∃ entry, table.translate memory slice.vpn = some entry ∧
        slice.ppn = entry.ppn) ∧
      next = usizeOfVirtAddr (turnEnd stop start) := by
  have shifted :
      (floor (virtAddr start) + 1) <<< 12 =
        (floor (virtAddr start) + 1) * pageSize :=
    Nat.shiftLeft_eq _ _
  rw [bufferTurn] at returned
  split at returned
  · cases returned
  · next entry translated =>
      rw [shifted, ← turnEnd] at returned
      dsimp only at returned
      split at returned
      · cases returned
        exact ⟨rfl, ⟨entry, translated, rfl⟩, rfl⟩
      · split at returned
        · cases returned
          exact ⟨rfl, ⟨entry, translated, rfl⟩, rfl⟩
        · cases returned

theorem bufferLoop_eq_ok {fuel : Nat} (below : start < stop)
    (returned :
      bufferLoop table memory stop (fuel + 1) start = some (.ok slices)) :
    ∃ slice next rest,
      bufferTurn table memory stop start = .ok (slice, next) ∧
        bufferLoop table memory stop fuel next = some (.ok rest) ∧
        slices = slice :: rest := by
  rw [bufferLoop, if_pos below] at returned
  split at returned
  · cases returned
  · next slice next turned =>
      rw [Option.map_eq_some_iff] at returned
      obtain ⟨later, laterEq, equal⟩ := returned
      cases later with
      | error stopped => cases equal
      | ok rest =>
        cases equal
        exact ⟨slice, next, rest, turned, laterEq, rfl⟩

/--
An end whose low 39 bits are in the lower half, but which is not itself there,
is never reached.
-/
theorem bufferLoop_never_returns (far : 2 ^ 39 ≤ stop)
    (low : virtAddr stop < 2 ^ 38) (fuel : Nat) (below : start < stop) :
    bufferLoop table memory stop fuel start ≠ some (.ok slices) := by
  induction fuel generalizing start slices with
  | zero => exact nofun
  | succ fuel induction =>
    intro returned
    obtain ⟨slice, next, rest, turned, laterEq, _⟩ :=
      bufferLoop_eq_ok below returned
    obtain ⟨_, _, nextEq⟩ := bufferTurn_eq_ok turned
    have endLt : turnEnd stop start < 2 ^ 38 :=
      Nat.lt_of_le_of_lt (Nat.min_le_right _ _) low
    rw [usizeOfVirtAddr_of_lt endLt] at nextEq
    exact induction (by omega) laterEq

section

variable (stopLt : stop < 2 ^ 64)
  (ends : stop < 2 ^ 39 ∨ 2 ^ 38 ≤ virtAddr stop) (below : start < stop)

include stopLt ends below

/--
After a turn the buffer goes on with the next page and the same end, or it has
ended in the page of the turn.
-/
theorem turnEnd_cases :
    let next := usizeOfVirtAddr (turnEnd stop start)
    let behind := (floor (virtAddr start) + 1) * pageSize
    (next < stop ∧ virtAddr next = behind ∧
        bufferReach stop next = bufferReach stop start) ∨
      (stop ≤ next ∧ bufferReach stop start ≤ behind) := by
  have endLt := turnEnd_lt stop start
  rcases Nat.lt_or_ge (turnEnd stop start) (2 ^ 38) with low | high
  · rw [usizeOfVirtAddr_of_lt low]
    simp only [turnEnd, bufferReach, virtAddr_eq_mod, floor, pageSize]
      at low endLt ends ⊢
    split <;> omega
  · rw [usizeOfVirtAddr_of_ge high endLt]
    simp only [turnEnd, bufferReach, virtAddr_eq_mod, floor, pageSize]
      at high endLt ends ⊢
    split <;> omega

/-- The pages of a buffer are the first one and those of the rest. -/
theorem bufferPages_turn :
    bufferPages stop start =
      floor (virtAddr start) ::
        bufferPages stop (usizeOfVirtAddr (turnEnd stop start)) := by
  have inside : floor (virtAddr start) * pageSize < bufferReach stop start :=
    Nat.lt_of_le_of_lt (Nat.div_mul_le_self _ _)
      (Nat.lt_of_lt_of_le (Nat.lt_succ_self _) (Nat.le_max_left _ _))
  have first :
      bufferPages stop start =
        floor (virtAddr start) ::
          List.range' (floor (virtAddr start) + 1)
            ((bufferReach stop start + (pageSize - 1)) / pageSize -
              (floor (virtAddr start) + 1)) := by
    rw [bufferPages, if_pos below, ← List.range'_succ]
    congr 1
    rw [pageSize] at inside ⊢
    omega
  rw [first]
  congr 1
  rcases turnEnd_cases stopLt ends below with
    ⟨goesOn, nextEq, reachEq⟩ | ⟨ended, reachLe⟩
  · have floorEq :
        floor (virtAddr (usizeOfVirtAddr (turnEnd stop start))) =
          floor (virtAddr start) + 1 := by
      rw [nextEq]
      exact Nat.mul_div_cancel _ (by decide)
    rw [bufferPages, if_pos goesOn, floorEq, reachEq]
  · have nothing :
        (bufferReach stop start + (pageSize - 1)) / pageSize -
          (floor (virtAddr start) + 1) = 0 := by
      rw [pageSize] at reachLe ⊢
      omega
    rw [bufferPages, if_neg (Nat.not_lt.mpr ended), nothing]
    rfl

end

/-- A buffer that is returned has one slice in each of its pages. -/
theorem bufferLoop_pages {fuel : Nat} (stopLt : stop < 2 ^ 64)
    (returned :
      bufferLoop table memory stop fuel start = some (.ok slices)) :
    slices.map Slice.vpn = bufferPages stop start ∧
      ∀ slice ∈ slices, ∃ entry,
        table.translate memory slice.vpn = some entry ∧
          slice.ppn = entry.ppn := by
  induction fuel generalizing start slices with
  | zero => cases returned
  | succ fuel induction =>
    rcases Nat.lt_or_ge start stop with below | ended
    · obtain ⟨slice, next, rest, turned, laterEq, rfl⟩ :=
        bufferLoop_eq_ok below returned
      obtain ⟨vpnEq, translated, rfl⟩ := bufferTurn_eq_ok turned
      obtain ⟨restPages, restTranslated⟩ := induction laterEq
      have ends : stop < 2 ^ 39 ∨ 2 ^ 38 ≤ virtAddr stop := by
        by_contra never
        rw [not_or, Nat.not_lt, Nat.not_le] at never
        exact bufferLoop_never_returns never.1 never.2 _ below returned
      refine ⟨?_, ?_⟩
      · rw [map_cons, vpnEq, restPages, bufferPages_turn stopLt ends below]
      · intro other member
        rcases mem_cons.mp member with rfl | member
        · exact translated
        · exact restTranslated other member
    · rw [bufferLoop, if_neg (Nat.not_lt.mpr ended)] at returned
      cases returned
      rw [bufferPages, if_neg (Nat.not_lt.mpr ended)]
      exact ⟨rfl, nofun⟩

/-! ## User memory -/

namespace MemorySet

variable {kernelPage : Nat} {set : MemorySet} {phys : KernelMemory}

/-- The page is in an area that user programs may use. -/
def InUserArea (set : MemorySet) (vpn : Nat) : Prop :=
  ∃ area ∈ set.areas, area.vpnRange.Contains vpn ∧
    area.mapPerm.bits &&& PTEFlags.u ≠ 0

/-- The slice is in a page whose leaf entry is valid and has the flag `U`. -/
def UserSlice (set : MemorySet) (phys : KernelMemory) (slice : Slice) : Prop :=
  ∃ entry, set.pageTable.translate phys.memory slice.vpn = some entry ∧
    slice.ppn = entry.ppn ∧ entry.isValid = true ∧
    entry.flags &&& PTEFlags.u ≠ 0

theorem or_v_and_u : ∀ flags : PTEFlags,
    (flags ||| PTEFlags.v) &&& PTEFlags.u = flags &&& PTEFlags.u := by
  decide

variable {vpn : Nat} {entry : PageTableEntry}

/-- A leaf entry is one of a user page if and only if an area says so. -/
theorem Valid.userEntry_iff (valid : Valid kernelPage set phys)
    (vpnLt : vpn < 2 ^ 27)
    (translated : set.pageTable.translate phys.memory vpn = some entry) :
    (entry.isValid = true ∧ entry.flags &&& PTEFlags.u ≠ 0) ↔
      set.InUserArea vpn := by
  obtain ⟨pages, represents⟩ := valid
  have backs := represents.backs
  have mapped := backs.mapping_eq vpn vpnLt
  constructor
  · rintro ⟨isValid, user⟩
    rw [mapping_eq_some_iff.mpr ⟨translated, isValid⟩, eq_comm,
      Option.map_eq_some_iff] at mapped
    obtain ⟨page, present, rfl⟩ := mapped
    rw [PageTableEntry.flags_new (backs.ppn_lt present), or_v_and_u] at user
    rcases represents.covered vpn page present with rfl | inArea
    · rw [represents.trampoline_page] at present
      cases present
      have hidden : (PTEFlags.r ||| PTEFlags.x) &&& PTEFlags.u = 0 := by
        decide
      exact absurd hidden user
    · obtain ⟨area, member, contains⟩ := inArea
      obtain ⟨frame, _, holds⟩ :=
        (represents.holds area member).page vpn contains
      rw [holds] at present
      cases present
      exact ⟨area, member, contains, user⟩
  · rintro ⟨area, member, contains, user⟩
    obtain ⟨frame, _, present⟩ :=
      (represents.holds area member).page vpn contains
    rw [present] at mapped
    obtain ⟨found, isValid⟩ := mapping_eq_some_iff.mp mapped
    rw [translated] at found
    cases found
    refine ⟨isValid, ?_⟩
    rw [PageTableEntry.flags_new (backs.ppn_lt present), or_v_and_u]
    exact user

/-- The page table that is made from the token has the same translations. -/
theorem Valid.translate_token (valid : Valid kernelPage set phys) (vpn : Nat) :
    (fromToken set.pageTable.token).translate phys.memory vpn =
      set.pageTable.translate phys.memory vpn := by
  obtain ⟨pages, represents⟩ := valid
  rw [translate_eq, translate_eq,
    fromToken_token represents.backs.shaped.root_lt]

theorem mem_bufferPages_lt
    (member : vpn ∈ bufferPages stop start) : vpn < 2 ^ 27 := by
  rw [bufferPages] at member
  split at member
  · have inside := (List.mem_range'_1.mp member).2
    simp only [bufferReach, virtAddr_eq_mod, floor, pageSize] at inside
    split at inside <;> omega
  · cases member

/--
The slices that `sys_read` and `sys_write` hand to the file layer are all in
user pages if and only if every page of the buffer is in an area with the flag
`U`.
-/
theorem user_buffer_in_user_memory_iff (valid : Valid kernelPage set phys)
    {ptr len fuel : Nat} {slices : List Slice}
    (returned :
      translatedByteBuffer phys.memory fuel set.pageTable.token ptr len =
        some (.ok slices)) :
    (∀ slice ∈ slices, set.UserSlice phys slice) ↔
      ∀ vpn ∈ bufferPages ((ptr + len) % 2 ^ 64) ptr, set.InUserArea vpn := by
  obtain ⟨pagesEq, translated⟩ :=
    bufferLoop_pages (Nat.mod_lt _ (by decide)) returned
  have vpnLt : ∀ slice ∈ slices, slice.vpn < 2 ^ 27 := by
    intro slice member
    apply mem_bufferPages_lt
    rw [← pagesEq]
    exact mem_map_of_mem member
  have slice_iff :
      ∀ slice ∈ slices,
        (set.UserSlice phys slice ↔ set.InUserArea slice.vpn) := by
    intro slice member
    obtain ⟨entry, found, ppnEq⟩ := translated slice member
    rw [valid.translate_token] at found
    rw [← valid.userEntry_iff (vpnLt slice member) found, UserSlice]
    constructor
    · rintro ⟨other, otherFound, _, user⟩
      rw [found] at otherFound
      cases otherFound
      exact user
    · intro user
      exact ⟨entry, found, ppnEq, user⟩
  rw [← pagesEq, forall_mem_map]
  exact forall₂_congr slice_iff

/-- The own page of the process is user memory. -/
theorem user_buffer_in_user_memory_own :
    ∃ set phys slice, Valid 0x80201 set phys ∧
      translatedByteBuffer phys.memory 2 set.pageTable.token 0x10010 8 =
        some (.ok [slice]) ∧
      ∀ other ∈ [slice], set.UserSlice phys other := by
  obtain ⟨set, phys, made, ⟨slice, returned⟩, area, member, contains, user⟩ :
      ∃ set phys, oneThreadSpace = .ok (set, phys) ∧
        (∃ slice,
          translatedByteBuffer phys.memory 2 set.pageTable.token 0x10010 8 =
            some (.ok [slice])) ∧
        ∃ area ∈ set.areas, area.vpnRange.Contains 16 ∧
          area.mapPerm.bits &&& PTEFlags.u ≠ 0 :=
    ⟨_, _, rfl, ⟨_, rfl⟩, _, mem_cons_self, by decide, by decide⟩
  have valid := (oneThreadSpace_reached made).valid
  have onePage : bufferPages ((0x10010 + 8) % 2 ^ 64) 0x10010 = [16] := by
    decide
  refine ⟨set, phys, slice, valid, returned,
    (user_buffer_in_user_memory_iff valid returned).mpr ?_⟩
  rw [onePage]
  intro vpn isFirst
  rw [mem_singleton.mp isFirst]
  exact ⟨area, member, contains, user⟩

theorem not_userSlice {slice : Slice}
    (found : set.pageTable.translate phys.memory slice.vpn = some entry)
    (hidden : entry.flags &&& PTEFlags.u = 0) :
    ¬ set.UserSlice phys slice := by
  rintro ⟨other, otherFound, _, _, user⟩
  rw [found] at otherFound
  cases otherFound
  exact user hidden

/--
The buffers at `TRAP_CONTEXT_BASE` and at `TRAMPOLINE` give pages of the
kernel, and the one behind the page of the process gives the physical page 0.
-/
theorem user_buffer_exposes_kernel_pages :
    ∃ set phys, Reached 0x80201 set phys ∧
      ∃ trapContext trampolineSlice pageZero,
        translatedByteBuffer phys.memory 2 set.pageTable.token
            (trampoline - pageSize) 8 = some (.ok [trapContext]) ∧
          ¬ set.UserSlice phys trapContext ∧
          translatedByteBuffer phys.memory 2 set.pageTable.token
            trampoline 8 = some (.ok [trampolineSlice]) ∧
          ¬ set.UserSlice phys trampolineSlice ∧
          translatedByteBuffer phys.memory 2 set.pageTable.token
            0x11000 8 = some (.ok [pageZero]) ∧
          pageZero.ppn = 0 ∧ ¬ set.UserSlice phys pageZero := by
  obtain ⟨set, phys, made, trapContext, trapEq, trampolineSlice,
      trampolineEq, pageZero, zeroEq, isZero, trapHidden, trampolineHidden,
      zeroHidden⟩ :
      ∃ set phys, oneThreadSpace = .ok (set, phys) ∧
        ∃ trapContext,
          translatedByteBuffer phys.memory 2 set.pageTable.token
            (trampoline - pageSize) 8 = some (.ok [trapContext]) ∧
        ∃ trampolineSlice,
          translatedByteBuffer phys.memory 2 set.pageTable.token
            trampoline 8 = some (.ok [trampolineSlice]) ∧
        ∃ pageZero,
          translatedByteBuffer phys.memory 2 set.pageTable.token
            0x11000 8 = some (.ok [pageZero]) ∧
        pageZero.ppn = 0 ∧
        ¬ set.UserSlice phys trapContext ∧
        ¬ set.UserSlice phys trampolineSlice ∧
        ¬ set.UserSlice phys pageZero :=
    ⟨_, _, rfl, _, rfl, _, rfl, _, rfl, rfl, not_userSlice rfl rfl,
      not_userSlice rfl rfl, not_userSlice rfl rfl⟩
  exact ⟨set, phys, oneThreadSpace_reached made, trapContext,
    trampolineSlice, pageZero, trapEq, trapHidden, trampolineEq,
    trampolineHidden, zeroEq, isZero, zeroHidden⟩

end MemorySet

end RCoreOS.Kernel
