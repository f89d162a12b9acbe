import RCoreOS.Kernel.Pipe
import RCoreOS.Kernel.UserBuffers

/-!
# What a translated user buffer is

In the lower half of the address space `translated_byte_buffer` cuts a buffer
at the borders of its pages, and the slices are the bytes that the page table
gives to its addresses.  `UserBuffer` hands them out one by one.

The loop of `translated_byte_buffer` compares an address that is cut to 39 bits
and extended again with an end that is not.  The second part says for which
addresses it ends.
-/

namespace RCoreOS.Kernel

open PageTable List

variable {table : PageTable} {memory : Nat → Fin 512 → PageTableEntry}

/-! ## One turn -/

theorem pageOffset_eq_mod (va : Nat) : pageOffset va = va % 4096 :=
  Nat.and_two_pow_sub_one_eq_mod va 12

/-- The slice that a turn takes from its page. -/
def turnSlice (entry : PageTableEntry) (stop start : Nat) : Slice where
  vpn := floor (virtAddr start)
  ppn := entry.ppn
  start := pageOffset (virtAddr start)
  stop :=
    if pageOffset (turnEnd stop start) = 0 then pageSize
    else pageOffset (turnEnd stop start)

/--
The range of the slice that the turn indexes goes backwards: the end of the
buffer, cut to 39 bits, is before its start.
-/
def Backwards (stop start : Nat) : Prop :=
  virtAddr stop < virtAddr start ∧ pageOffset (virtAddr stop) ≠ 0 ∧
    pageOffset (virtAddr stop) < pageOffset (virtAddr start)

theorem turnEnd_eq (stop start : Nat) :
    turnEnd stop start =
      min ((start % 2 ^ 39 / 4096 + 1) * 4096) (stop % 2 ^ 39) := by
  rw [turnEnd, virtAddr_eq_mod, virtAddr_eq_mod, floor, pageSize]

/-- A turn in a page that is there returns, or its range goes backwards. -/
theorem bufferTurn_mapped {stop start : Nat} {entry : PageTableEntry}
    (found : table.translate memory (floor (virtAddr start)) = some entry) :
    (¬ Backwards stop start ∧
        bufferTurn table memory stop start =
          .ok (turnSlice entry stop start,
            usizeOfVirtAddr (turnEnd stop start))) ∨
      (Backwards stop start ∧
        bufferTurn table memory stop start = .error .panicked) := by
  have shifted :
      (floor (virtAddr start) + 1) <<< 12 =
        (floor (virtAddr start) + 1) * pageSize :=
    Nat.shiftLeft_eq _ _
  have turn :
      bufferTurn table memory stop start =
        if pageOffset (turnEnd stop start) = 0 then
          .ok (⟨floor (virtAddr start), entry.ppn,
            pageOffset (virtAddr start), pageSize⟩,
            usizeOfVirtAddr (turnEnd stop start))
        else if
          pageOffset (virtAddr start) ≤ pageOffset (turnEnd stop start) then
          .ok (⟨floor (virtAddr start), entry.ppn,
            pageOffset (virtAddr start), pageOffset (turnEnd stop start)⟩,
            usizeOfVirtAddr (turnEnd stop start))
        else .error .panicked := by
    rw [bufferTurn]
    simp only [found, shifted]
    rfl
  rw [turn, turnSlice]
  have backwards :
      Backwards stop start ↔
        pageOffset (turnEnd stop start) ≠ 0 ∧
          ¬ pageOffset (virtAddr start) ≤ pageOffset (turnEnd stop start) := by
    rw [Backwards]
    simp only [turnEnd_eq, pageOffset_eq_mod, virtAddr_eq_mod]
    omega
  rw [backwards]
  split
  · next aligned => exact .inl ⟨fun other => other.1 aligned, rfl⟩
  · next unaligned =>
      split
      · next forward => exact .inl ⟨fun other => other.2 forward, rfl⟩
      · next backward => exact .inr ⟨⟨unaligned, backward⟩, rfl⟩

/-! ## The bytes of a buffer -/

/-- `PageTable::translate_va` -/
def PageTable.translateVa (self : PageTable)
    (memory : Nat → Fin 512 → PageTableEntry) (va : Nat) : Option Nat :=
  (self.findPte memory (floor va)).map fun (table, idx) =>
    let alignedPa := (memory table idx).ppn <<< 12
    physAddr (alignedPa + pageOffset va)

namespace Slice

/-- The length of the slice. -/
def len (self : Slice) : Nat := self.stop - self.start

/-- The physical address of an element. -/
def location (self : Slice) (idx : Nat) : Nat :=
  (self.ppn <<< 12) + self.start + idx

/-- The physical addresses of all elements. -/
def bytes (self : Slice) : List Nat := (List.range self.len).map self.location

theorem length_bytes (self : Slice) : self.bytes.length = self.len := by
  rw [bytes, length_map, length_range]

end Slice

variable {va : Nat}

variable {entry : PageTableEntry} {stop start : Nat}

theorem translateVa_eq
    (found : table.translate memory (floor va) = some entry) :
    table.translateVa memory va = some ((entry.ppn <<< 12) + va % 4096) := by
  have ppnLt : entry.ppn < 2 ^ 44 :=
    Nat.lt_of_le_of_lt Nat.and_le_right (by decide)
  obtain ⟨place, placed, rfl⟩ := Option.map_eq_some_iff.mp found
  rw [translateVa, placed, Option.map_some]
  dsimp only at ppnLt ⊢
  rw [pageOffset_eq_mod, physAddr, Nat.and_two_pow_sub_one_eq_mod,
    Nat.mod_eq_of_lt]
  rw [Nat.shiftLeft_eq]
  omega

theorem translateVa_none (unmapped : table.translate memory (floor va) = none) :
    table.translateVa memory va = none := by
  rw [translateVa, Option.map_eq_none_iff.mp unmapped, Option.map_none]

/-- The page of an address that is translated. -/
theorem exists_entry (mapped : table.translateVa memory va ≠ none) :
    ∃ entry, table.translate memory (floor va) = some entry := by
  cases found : table.translate memory (floor va) with
  | none => exact absurd (translateVa_none found) mapped
  | some entry => exact ⟨entry, rfl⟩

/-- The bytes of the slice of one turn in the lower half. -/
theorem turnSlice_bytes (stopLe : stop ≤ 2 ^ 38) (below : start < stop)
    (found : table.translate memory (floor (virtAddr start)) = some entry) :
    let slice := turnSlice entry stop start
    slice.start < slice.stop ∧ slice.stop ≤ pageSize ∧
      slice.bytes.map some =
        (List.range' start (turnEnd stop start - start)).map
          (table.translateVa memory) := by
  intro slice
  have startEq : slice.start = start % 4096 := by
    show pageOffset (virtAddr start) = _
    rw [pageOffset_eq_mod, virtAddr_eq_mod]
    omega
  have stopEq : slice.stop = start % 4096 + (turnEnd stop start - start) := by
    show (if pageOffset (turnEnd stop start) = 0 then pageSize
      else pageOffset (turnEnd stop start)) = _
    rw [pageOffset_eq_mod, turnEnd_eq, pageSize]
    split <;> omega
  have endBounds :
      start < turnEnd stop start ∧
        turnEnd stop start ≤ (start / 4096 + 1) * 4096 := by
    rw [turnEnd_eq]
    omega
  refine ⟨by omega, by rw [pageSize]; omega, ?_⟩
  rw [Slice.bytes, Slice.len, stopEq, startEq, Nat.add_sub_cancel_left,
    List.range'_eq_map_range, map_map, map_map]
  apply map_congr_left
  intro index member
  have inside := mem_range.mp member
  have samePage : floor (start + index) = floor (virtAddr start) := by
    rw [virtAddr_eq_mod, floor, floor, pageSize]
    omega
  have offsetEq : (start + index) % 4096 = start % 4096 + index := by
    omega
  show some (slice.location index) = table.translateVa memory (start + index)
  rw [translateVa_eq (by rw [samePage]; exact found), offsetEq,
    Slice.location, startEq, Nat.add_assoc]
  rfl

/-- The loop on a buffer in the lower half whose pages are all there. -/
theorem bufferLoop_translated (stopLe : stop ≤ 2 ^ 38)
    (turns : Nat) (within : start ≤ stop)
    (pages : (stop + 4095) / 4096 - start / 4096 ≤ turns)
    (mapped :
      ∀ va, start ≤ va → va < stop → table.translateVa memory va ≠ none) :
    ∃ slices,
      bufferLoop table memory stop (turns + 1) start = some (.ok slices) ∧
        (∀ slice ∈ slices, slice.start < slice.stop ∧ slice.stop ≤ pageSize) ∧
        (slices.flatMap Slice.bytes).map some =
          (List.range' start (stop - start)).map
            (table.translateVa memory) := by
  rcases Nat.eq_or_lt_of_le within with rfl | below
  · refine ⟨[], ?_, nofun, ?_⟩
    · rw [bufferLoop, if_neg (Nat.lt_irrefl _)]
    · rw [Nat.sub_self]
      rfl
  · induction turns generalizing start with
    | zero => omega
    | succ turns ih =>
      have virtual : virtAddr start = start := by
        rw [virtAddr_eq_mod]
        omega
      obtain ⟨entry, found⟩ := exists_entry (mapped start (le_refl _) below)
      rw [← virtual] at found
      obtain ⟨nonempty, inPage, bytes⟩ := turnSlice_bytes stopLe below found
      have turned :
          bufferTurn table memory stop start =
            .ok (turnSlice entry stop start,
              usizeOfVirtAddr (turnEnd stop start)) := by
        rcases bufferTurn_mapped found with ⟨_, turned⟩ | ⟨backwards, _⟩
        · exact turned
        · have before := backwards.1
          rw [virtAddr_eq_mod, virtAddr_eq_mod] at before
          omega
      rcases Nat.lt_or_ge (turnEnd stop start) stop with more | last
      · -- the turn ends at the border of its page
        have next :
            start < turnEnd stop start ∧
              turnEnd stop start = (start / 4096 + 1) * 4096 := by
          rw [turnEnd_eq] at more ⊢
          omega
        obtain ⟨rest, looped, shapes, restBytes⟩ :=
          ih (Nat.le_of_lt more) (by omega)
            (fun va lower upper => mapped va (by omega) upper) more
        refine ⟨turnSlice entry stop start :: rest, ?_, ?_, ?_⟩
        · rw [bufferLoop, if_pos below]
          simp only [turned]
          rw [usizeOfVirtAddr_of_lt (by omega), looped]
          rfl
        · intro slice member
          rcases mem_cons.mp member with rfl | member
          · exact ⟨nonempty, inPage⟩
          · exact shapes slice member
        · have split :
              stop - start =
                turnEnd stop start - start +
                  (stop - turnEnd stop start) := by
            omega
          have joined :
              start + (turnEnd stop start - start) = turnEnd stop start := by
            omega
          rw [flatMap_cons, map_append, bytes, restBytes, split,
            ← List.range'_append_1, map_append, joined]
      · -- the buffer ends in this page
        have endEq : turnEnd stop start = stop := by
          rw [turnEnd_eq] at last ⊢
          omega
        have finished : ¬ usizeOfVirtAddr stop < stop := by
          rcases Nat.lt_or_ge stop (2 ^ 38) with low | high
          · rw [usizeOfVirtAddr_of_lt low]
            omega
          · rw [usizeOfVirtAddr_of_ge high (by omega)]
            omega
        refine ⟨[turnSlice entry stop start], ?_, ?_, ?_⟩
        · rw [bufferLoop, if_pos below]
          simp only [turned]
          rw [endEq, bufferLoop, if_neg finished]
          rfl
        · intro slice member
          rw [mem_singleton.mp member]
          exact ⟨nonempty, inPage⟩
        · rw [flatMap_cons, flatMap_nil, append_nil, bytes, endEq]

/-! ## Handing the bytes out -/

section Iterator

variable {α : Type} {before rest : List (List α)} {slice : List α}

/-- `UserBuffer::len` -/
def UserBuffer.len (buffers : List (List α)) : Nat :=
  buffers.foldl (fun total b => (total + b.length) % 2 ^ 64) 0

theorem UserBuffer.foldl_len (buffers : List (List α)) {total : Nat}
    (small : total + buffers.flatten.length < 2 ^ 64) :
    buffers.foldl (fun total b => (total + b.length) % 2 ^ 64) total =
      total + buffers.flatten.length := by
  induction buffers generalizing total with
  | nil => rfl
  | cons slice buffers ih =>
    rw [flatten_cons, length_append] at small ⊢
    rw [foldl_cons, Nat.mod_eq_of_lt (by omega), ih (by omega), Nat.add_assoc]

namespace UserBufferIterator

/-- The results of the next `count` calls of `next`, up to a `None`. -/
def take : Nat → UserBufferIterator α →
    Except Stop (List α × UserBufferIterator α)
  | 0, self => .ok ([], self)
  | count + 1, self => do
      let (item, self) ← self.next
      match item with
      | none => .ok ([], self)
      | some address => do
          let (rest, self) ← take count self
          return (address :: rest, self)

/-- The rest of the current buffer, then the next buffers. -/
theorem take_buffer {idx count : Nat} {later : List α}
    {last : UserBufferIterator α} (inside : idx < slice.length)
    (taken :
      take count ⟨before ++ slice :: rest, before.length + 1, 0⟩ =
        .ok (later, last)) :
    take (slice.length - idx + count)
        ⟨before ++ slice :: rest, before.length, idx⟩ =
      .ok (slice.drop idx ++ later, last) := by
  have current :
      (before ++ slice :: rest)[before.length]? = some slice := by
    rw [getElem?_append_right (Nat.le_refl _), Nat.sub_self]
    rfl
  have here := getElem?_eq_getElem inside
  induction left : slice.length - idx - 1 generalizing idx with
  | zero =>
    have lastOne : idx + 1 = slice.length := by omega
    have one : slice.length - idx + count = count + 1 := by omega
    rw [one, take, next, drop_eq_getElem_cons inside,
      drop_eq_nil_of_le (Nat.le_of_eq lastOne.symm)]
    simp only [current, here, if_pos lastOne]
    show (take count _ >>= _) = _
    rw [taken]
    rfl
  | succ left ih =>
    have more :
        slice.length - idx + count =
          slice.length - (idx + 1) + count + 1 := by
      omega
    have following : idx + 1 < slice.length := by omega
    have again := ih following (getElem?_eq_getElem following) (by omega)
    rw [more, take, next, drop_eq_getElem_cons inside]
    simp only [current, here, if_neg (Nat.ne_of_lt following)]
    show (take _ _ >>= _) = _
    rw [again]
    rfl

/-- The iterator hands out all its slices when none is empty. -/
theorem take_all (before rest : List (List α))
    (nonempty : ∀ slice ∈ rest, 0 < slice.length) :
    take rest.flatten.length ⟨before ++ rest, before.length, 0⟩ =
      .ok (rest.flatten, ⟨before ++ rest, (before ++ rest).length, 0⟩) := by
  induction rest generalizing before with
  | nil =>
    rw [append_nil]
    rfl
  | cons slice rest ih =>
    have later :=
      ih (before ++ [slice])
        (fun other member => nonempty other (mem_cons_of_mem _ member))
    rw [append_assoc, singleton_append, length_append,
      length_singleton] at later
    have all := take_buffer (nonempty slice mem_cons_self) later
    rw [drop_zero, Nat.sub_zero] at all
    rw [flatten_cons, length_append]
    exact all

/-- Behind the last buffer there is nothing. -/
theorem next_end (buffers : List (List α)) :
    next ⟨buffers, buffers.length, 0⟩ =
      .ok (none, ⟨buffers, buffers.length, 0⟩) := by
  rw [next]
  simp only [List.getElem?_eq_none_iff.mpr (Nat.le_refl buffers.length)]

end UserBufferIterator

end Iterator

theorem oneThreadSpace_page :
    ∃ set phys, MemorySet.oneThreadSpace = .ok (set, phys) ∧
      ∃ entry,
        (fromToken set.pageTable.token).translate phys.memory 16 =
          some entry :=
  ⟨_, _, rfl, _, rfl⟩

/--
A buffer of the lower half whose pages are all there: the slices are the bytes
that the page table gives to its addresses, and the iterator hands out exactly
these.
-/
theorem user_buffer_translated_exactly
    (memory : Nat → Fin 512 → PageTableEntry) (token ptr len : Nat)
    (limit : ptr + len ≤ 2 ^ 38)
    (mapped :
      ∀ va, ptr ≤ va → va < ptr + len →
        (fromToken token).translateVa memory va ≠ none)
    (fuel : Nat) (enough : len / pageSize + 3 ≤ fuel) :
    ∃ slices,
      translatedByteBuffer memory fuel token ptr len = some (.ok slices) ∧
        (∀ slice ∈ slices, slice.start < slice.stop ∧ slice.stop ≤ pageSize) ∧
        (slices.flatMap Slice.bytes).map some =
          (List.range' ptr len).map ((fromToken token).translateVa memory) ∧
        UserBuffer.len (slices.map Slice.bytes) = len ∧
        ∃ last,
          (UserBufferIterator.new (slices.map Slice.bytes)).take len =
              .ok (slices.flatMap Slice.bytes, last) ∧
            last.next = .ok (none, last) := by
  have noWrap : (ptr + len) % 2 ^ 64 = ptr + len := Nat.mod_eq_of_lt (by omega)
  rw [pageSize] at enough
  obtain ⟨turns, rfl⟩ : ∃ turns, fuel = turns + 1 := ⟨fuel - 1, by omega⟩
  obtain ⟨slices, looped, shapes, bytes⟩ :=
    bufferLoop_translated limit turns (Nat.le_add_right ptr len) (by omega)
      mapped
  rw [Nat.add_sub_cancel_left] at bytes
  have total : (slices.flatMap Slice.bytes).length = len := by
    have lengths := congrArg List.length bytes
    rw [length_map, length_map, length_range'] at lengths
    exact lengths
  have nonempty : ∀ slice ∈ slices.map Slice.bytes, 0 < slice.length := by
    intro slice member
    obtain ⟨cut, isCut, rfl⟩ := mem_map.mp member
    rw [Slice.length_bytes]
    exact Nat.sub_pos_of_lt (shapes cut isCut).1
  have taken := UserBufferIterator.take_all [] _ nonempty
  rw [← flatMap_def, total] at taken
  refine ⟨slices, ?_, shapes, bytes, ?_, _, taken,
    UserBufferIterator.next_end _⟩
  · rw [translatedByteBuffer, noWrap]
    exact looped
  · have small : 0 + (slices.map Slice.bytes).flatten.length < 2 ^ 64 := by
      rw [← flatMap_def, total]
      omega
    have sum := UserBuffer.foldl_len _ small
    rw [← flatMap_def, total, Nat.zero_add] at sum
    exact sum

/-- The eight bytes in the page of the process. -/
theorem user_buffer_translated_exactly_own :
    ∃ set phys slices, MemorySet.Reached 0x80201 set phys ∧
      translatedByteBuffer phys.memory 3 set.pageTable.token 0x10010 8 =
          some (.ok slices) ∧
        UserBuffer.len (slices.map Slice.bytes) = 8 := by
  obtain ⟨set, phys, made, entry, found⟩ := oneThreadSpace_page
  have mapped :
      ∀ va, 0x10010 ≤ va → va < 0x10010 + 8 →
        (fromToken set.pageTable.token).translateVa phys.memory va ≠
          none := by
    intro va lower upper
    have page : floor va = 16 := by
      rw [floor, pageSize]
      omega
    rw [translateVa_eq (by rw [page]; exact found)]
    exact Option.some_ne_none _
  obtain ⟨slices, returned, _, _, length, _⟩ :=
    user_buffer_translated_exactly phys.memory set.pageTable.token 0x10010 8
      (by decide) mapped 3 (by decide)
  exact ⟨set, phys, slices, MemorySet.oneThreadSpace_reached made, returned,
    length⟩

/-! ## When the loop ends -/

/--
The loop ends after at most `turns` turns, because the buffer is translated or
because a page is not there.
-/
def loopEnds (table : PageTable) (memory : Nat → Fin 512 → PageTableEntry)
    (stop : Nat) : Nat → Nat → Bool
  | 0, start => stop ≤ start
  | turns + 1, start =>
    if start < stop then
      match table.translate memory (floor (virtAddr start)) with
      | none => true
      | some _ =>
        match bufferTurn table memory stop start with
        | .error _ => false
        | .ok (_, next) => loopEnds table memory stop turns next
    else true

variable {stop turns start : Nat}

/-- A turn in a page that is there and with a range that goes forward. -/
theorem loopEnds_turn (below : start < stop) {entry : PageTableEntry}
    (found : table.translate memory (floor (virtAddr start)) = some entry) :
    loopEnds table memory stop (turns + 1) start = true ↔
      ¬ Backwards stop start ∧
        loopEnds table memory stop turns
          (usizeOfVirtAddr (turnEnd stop start)) = true := by
  rw [loopEnds, if_pos below]
  rcases @bufferTurn_mapped table memory stop start entry found with
    ⟨forward, turned⟩ | ⟨backwards, turned⟩
  · simp only [found, turned, forward, not_false_iff, true_and]
  · simp only [found, turned, backwards, not_true, false_and,
      Bool.false_eq_true]

theorem loopEnds_of_none (below : start < stop)
    (found : table.translate memory (floor (virtAddr start)) = none) :
    loopEnds table memory stop (turns + 1) start = true := by
  rw [loopEnds, if_pos below]
  simp only [found]

theorem loopEnds_of_ge (ended : stop ≤ start) :
    loopEnds table memory stop turns start = true := by
  cases turns with
  | zero => exact decide_eq_true ended
  | succ turns => rw [loopEnds, if_neg (Nat.not_lt.mpr ended)]

/-! ### An end that is reached -/

section

variable (stopLt : stop < 2 ^ 64)
  (ends : stop < 2 ^ 39 ∨ 2 ^ 38 ≤ virtAddr stop)

include stopLt ends

/-- One turn for each page of the buffer. -/
theorem loopEnds_of_pages (forward : ¬ Backwards stop start)
    (pages : (bufferPages stop start).length ≤ turns) :
    loopEnds table memory stop turns start = true := by
  induction turns generalizing start with
  | zero =>
    rcases Nat.lt_or_ge start stop with below | ended
    · rw [bufferPages_turn stopLt ends below] at pages
      cases pages
    · exact loopEnds_of_ge ended
  | succ turns ih =>
    rcases Nat.lt_or_ge start stop with below | ended
    · cases found : table.translate memory (floor (virtAddr start)) with
      | none => exact loopEnds_of_none below found
      | some entry =>
        rw [loopEnds_turn below found]
        refine ⟨forward, ?_⟩
        rw [bufferPages_turn stopLt ends below] at pages
        rcases turnEnd_cases stopLt ends below with
          ⟨_, nextEq, _⟩ | ⟨ended, _⟩
        · -- the next turn starts at the border of a page
          apply ih _ (Nat.le_of_succ_le_succ pages)
          rintro ⟨_, _, offset⟩
          rw [nextEq, pageOffset_eq_mod, pageOffset_eq_mod, pageSize]
            at offset
          omega
        · exact loopEnds_of_ge ended
    · exact loopEnds_of_ge ended

/-- A buffer has at most two pages more than its length fills. -/
theorem length_bufferPages_le (below : start < stop) :
    (bufferPages stop start).length ≤ (stop - start) / pageSize + 2 := by
  rw [bufferPages, if_pos below, length_range', bufferReach]
  simp only [virtAddr_eq_mod, floor, pageSize] at ends ⊢
  split <;> omega

end

/-! ### An end that is missed -/

/--
The pages that the loop visits when it misses its end: those from its start up
to the page in which the end, cut to 39 bits, lies.
-/
def OnPath (stop start vpn : Nat) : Prop :=
  vpn = floor (virtAddr start) ∨ vpn = floor (virtAddr stop) ∨
    (floor (virtAddr start) < vpn ∧ vpn < floor (virtAddr stop))

/-- The loop misses its end: it stays at an address of the lower half. -/
def MissesEnd (stop : Nat) : Prop := 2 ^ 39 ≤ stop ∧ virtAddr stop < 2 ^ 38

variable {stop start turns : Nat}

/-- While the end is missed, a turn goes on below it. -/
theorem MissesEnd.next (misses : MissesEnd stop) :
    usizeOfVirtAddr (turnEnd stop start) = turnEnd stop start ∧
      turnEnd stop start < stop := by
  obtain ⟨far, low⟩ := misses
  have endLt : turnEnd stop start < 2 ^ 38 :=
    Nat.lt_of_le_of_lt (Nat.min_le_right _ _) low
  exact ⟨usizeOfVirtAddr_of_lt endLt, by omega⟩

variable {vpn : Nat}

theorem MissesEnd.path (misses : MissesEnd stop)
    (later : OnPath stop (turnEnd stop start) vpn) :
    OnPath stop start vpn := by
  obtain ⟨far, low⟩ := misses
  rw [virtAddr_eq_mod] at low
  simp only [OnPath, turnEnd_eq, virtAddr_eq_mod, floor, pageSize] at later ⊢
  omega

/-- With all pages there, the loop does not end. -/
theorem MissesEnd.endless (misses : MissesEnd stop) (below : start < stop)
    (mapped :
      ∀ vpn, OnPath stop start vpn → table.translate memory vpn ≠ none) :
    loopEnds table memory stop turns start = false := by
  induction turns generalizing start with
  | zero => exact decide_eq_false (Nat.not_le.mpr below)
  | succ turns ih =>
    obtain ⟨entry, found⟩ := Option.ne_none_iff_exists'.mp
      (mapped (floor (virtAddr start)) (.inl rfl))
    obtain ⟨nextEq, nextBelow⟩ := @MissesEnd.next stop start misses
    rw [← Bool.not_eq_true, loopEnds_turn below found, nextEq,
      ih nextBelow fun vpn later => mapped vpn (misses.path later)]
    exact fun both => Bool.false_ne_true both.2

/-- The turns until the loop has seen all pages that it visits. -/
def pathTurns (stop start : Nat) : Nat :=
  if floor (virtAddr start) ≤ floor (virtAddr stop) then
    floor (virtAddr stop) - floor (virtAddr start) + 1
  else 2

/-- A page that is not there ends the loop. -/
theorem MissesEnd.unmapped (misses : MissesEnd stop)
    (forward : ¬ Backwards stop start) (visited : OnPath stop start vpn)
    (unmapped : table.translate memory vpn = none)
    (enough : pathTurns stop start ≤ turns) :
    loopEnds table memory stop turns start = true := by
  induction turns generalizing start with
  | zero =>
    rw [pathTurns] at enough
    split at enough <;> omega
  | succ turns ih =>
    rcases Nat.lt_or_ge start stop with below | ended
    · cases found : table.translate memory (floor (virtAddr start)) with
      | none => exact loopEnds_of_none below found
      | some entry =>
        have notFirst : vpn ≠ floor (virtAddr start) := by
          rintro rfl
          rw [found] at unmapped
          cases unmapped
        rw [loopEnds_turn below found, misses.next.1]
        refine ⟨forward, ih ?_ ?_ ?_⟩
        · obtain ⟨far, low⟩ := misses
          rw [Backwards]
          simp only [turnEnd_eq, virtAddr_eq_mod, pageOffset_eq_mod]
          omega
        · obtain ⟨far, low⟩ := misses
          rw [virtAddr_eq_mod] at low
          simp only [OnPath, turnEnd_eq, virtAddr_eq_mod, floor, pageSize]
            at visited notFirst ⊢
          omega
        · obtain ⟨far, low⟩ := misses
          rw [virtAddr_eq_mod] at low
          simp only [pathTurns, OnPath, turnEnd_eq, virtAddr_eq_mod, floor,
            pageSize] at enough visited notFirst ⊢
          split at enough <;> split <;> omega
    · exact loopEnds_of_ge ended

/-! ### All addresses -/

/--
The loop ends in time, with a result or at a page that is not there, if and
only if its first range goes forward and it does not miss its end with all the
pages there.
-/
theorem user_buffer_loop_ends_iff
    (memory : Nat → Fin 512 → PageTableEntry) (token ptr len : Nat) :
    let table := fromToken token
    let stop := (ptr + len) % 2 ^ 64
    loopEnds table memory stop (len / pageSize + 2) ptr = true ↔
      (ptr < stop →
        ¬ (table.translate memory (floor (virtAddr ptr)) ≠ none ∧
            Backwards stop ptr) ∧
          ¬ (MissesEnd stop ∧
            ∀ vpn, OnPath stop ptr vpn →
              table.translate memory vpn ≠ none)) := by
  intro table stop
  have stopLt : stop < 2 ^ 64 := Nat.mod_lt _ (by decide)
  rcases Nat.lt_or_ge ptr stop with below | ended
  · have lenLe : stop - ptr ≤ len := by
      have stopLe : stop ≤ ptr + len := Nat.mod_le _ _
      omega
    have turnsLe :
        (stop - ptr) / pageSize + 2 ≤ len / pageSize + 2 :=
      Nat.add_le_add_right (Nat.div_le_div_right lenLe) 2
    rw [forall_prop_of_true below]
    cases found : table.translate memory (floor (virtAddr ptr)) with
    | none =>
      have endsHere :
          loopEnds table memory stop (len / pageSize + 2) ptr = true := by
        exact loopEnds_of_none below found
      refine iff_of_true endsHere ⟨fun both => both.1 rfl, fun both => ?_⟩
      exact both.2 _ (.inl rfl) found
    | some entry =>
      by_cases backwards : Backwards stop ptr
      · refine iff_of_false ?_ fun both => both.1 ⟨nofun, backwards⟩
        rw [loopEnds_turn below found]
        exact fun both => both.1 backwards
      · by_cases misses : MissesEnd stop
        · constructor
          · intro endsHere
            refine ⟨fun both => backwards both.2, fun both => ?_⟩
            rw [misses.endless below both.2] at endsHere
            cases endsHere
          · rintro ⟨_, notAll⟩
            obtain ⟨vpn, visited, unmapped⟩ :
                ∃ vpn, OnPath stop ptr vpn ∧
                  table.translate memory vpn = none := by
              by_contra none
              exact notAll ⟨misses, fun vpn visited unmapped =>
                none ⟨vpn, visited, unmapped⟩⟩
            apply misses.unmapped backwards visited unmapped
            apply Nat.le_trans _ turnsLe
            obtain ⟨far, low⟩ := misses
            simp only [pathTurns, virtAddr_eq_mod, floor, pageSize]
            split <;> omega
        · have ends : stop < 2 ^ 39 ∨ 2 ^ 38 ≤ virtAddr stop := by
            rw [MissesEnd] at misses
            omega
          refine iff_of_true ?_
            ⟨fun both => backwards both.2, fun both => misses both.1⟩
          exact loopEnds_of_pages stopLt ends backwards
            (Nat.le_trans (length_bufferPages_le stopLt ends below) turnsLe)
  · exact iff_of_true (loopEnds_of_ge ended)
      fun below => absurd below (Nat.not_lt.mpr ended)

/--
A program whose page is mapped passes its address and the length `2 ^ 39`: the
loop never ends.
-/
theorem user_buffer_loop_endless :
    ∃ set phys, MemorySet.Reached 0x80201 set phys ∧
      loopEnds (fromToken set.pageTable.token) phys.memory
          ((0x10010 + 2 ^ 39) % 2 ^ 64) (2 ^ 39 / pageSize + 2) 0x10010 =
        false ∧
      ∀ turns,
        loopEnds (fromToken set.pageTable.token) phys.memory
          ((0x10010 + 2 ^ 39) % 2 ^ 64) turns 0x10010 = false := by
  obtain ⟨set, phys, made, entry, found⟩ := oneThreadSpace_page
  have misses : MissesEnd ((0x10010 + 2 ^ 39) % 2 ^ 64) := by
    rw [MissesEnd, virtAddr_eq_mod]
    omega
  have endless (turns : Nat) :
      loopEnds (fromToken set.pageTable.token) phys.memory
        ((0x10010 + 2 ^ 39) % 2 ^ 64) turns 0x10010 = false := by
    apply misses.endless (by omega)
    intro vpn visited
    have page : vpn = 16 := by
      simp only [OnPath, virtAddr_eq_mod, floor, pageSize] at visited
      omega
    rw [page, found]
    exact Option.some_ne_none entry
  exact ⟨set, phys, MemorySet.oneThreadSpace_reached made, endless _, endless⟩

end RCoreOS.Kernel
