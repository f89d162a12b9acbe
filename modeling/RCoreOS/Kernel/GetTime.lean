import RCoreOS.Kernel.PhysicalBytes

/-!
# The time that `sys_get_time` writes

`sys_get_time` translates the address of the program's `TimeVal` once and
stores its sixteen bytes from that physical address on.  Where the structure
lies on two pages, its second half belongs to the frame of the second page,
and the store goes to the frame that follows the first one in physical memory.
-/

namespace RCoreOS.Kernel

open Lib.FallibleRuns PageTable Option

/-! ## The call -/

/-- The bytes of `TimeVal { sec: us / 1_000_000, usec: us % 1_000_000 }`. -/
def timeVal (us : Nat) : List UInt8 :=
  leBytes 8 (us / 1000000) ++ leBytes 8 (us % 1000000)

/--
`vir_to_phy`.  Its address was not cut to 39 bits.  The page 0 of an entry that
is not valid is not mapped in the kernel, and the store to it faults.
-/
def virToPhy (memory : Nat → Page) (token virtualAddr : Nat) :
    Except Stop Nat :=
  match (fromToken token).translate memory (floor virtualAddr) with
  | none => .error .panicked
  | some entry =>
    if entry.isValid then
      .ok ((entry.ppn <<< 12) + pageOffset virtualAddr)
    else
      .error .panicked

/-- `sys_get_time`; `us` is what `get_time_us` returned. -/
def sysGetTime (phys : KernelMemory) (text token ts us : Nat) :
    Except Stop (Int × KernelMemory) := do
  let physicalAddr ← virToPhy phys.memory token ts
  let phys ← phys.put text physicalAddr (timeVal us)
  return (0, phys)

/-! ## What the program sees -/

namespace MemorySet

/-- The physical address of a byte of the program. -/
def userByte (set : MemorySet) (memory : Nat → Page) (va : Nat) :
    Option Nat :=
  (set.pageTable.mapping memory (floor (virtAddr va))).map fun entry =>
    entry.ppn * pageSize + va % pageSize

/--
The program sees the time at `ts`, and no byte of physical memory has changed
but those sixteen.
-/
structure TimeWritten (set : MemorySet) (before after : KernelMemory)
    (ts us : Nat) : Prop where
  seen :
    ∀ k < 16,
      set.byteAt after (virtAddr (ts + k)) = some ((timeVal us).getD k 0)
  others :
    ∀ pa, (∀ k < 16, set.userByte before.memory (ts + k) ≠ some pa) →
      physByte after.memory pa = physByte before.memory pa

/--
The structure does not lie on the trampoline, and it lies on one page or on
two pages whose frames follow each other.
-/
def FramesAdjacent (set : MemorySet) (phys : KernelMemory) (ts : Nat) :
    Prop :=
  floor (virtAddr ts) ≠ trampolineVpn ∧
    (ts % pageSize + 16 ≤ pageSize ∨
      floor (virtAddr (ts + 8)) ≠ trampolineVpn ∧
        ∃ first second,
          set.pageTable.mapping phys.memory (floor (virtAddr ts)) =
              some first ∧
            set.pageTable.mapping phys.memory (floor (virtAddr (ts + 8))) =
              some second ∧
            second.ppn = first.ppn + 1)

variable {kernelPage : Nat} {set : MemorySet} {phys after : KernelMemory}
  {pages : Pages} {page : Nat × PTEFlags} {va : Nat}

theorem Represents.userByte
    (represents : Represents kernelPage set.areas set.pageTable phys pages)
    (present : pages (floor (virtAddr va)) = some page) :
    set.userByte phys.memory va =
      some (page.1 * pageSize + va % pageSize) := by
  have backs := represents.backs
  rw [MemorySet.userByte, backs.mapping_eq _ (backs.vpn_lt present), present]
  simp [PageTableEntry.ppn_new (backs.ppn_lt present)]

theorem virtAddr_mod_pageSize (va : Nat) :
    virtAddr va % pageSize = va % pageSize := by
  rw [virtAddr_eq_mod, pageSize]
  omega

section

variable
  (represents : Represents kernelPage set.areas set.pageTable phys pages)

include represents

theorem Represents.byteAt (present : pages (floor (virtAddr va)) = some page) :
    set.byteAt phys (virtAddr va) =
      some (physByte phys.memory (page.1 * pageSize + va % pageSize)) := by
  have backs := represents.backs
  have offsetLt : va % pageSize < pageSize := Nat.mod_lt _ (by decide)
  rw [MemorySet.byteAt, seen_eq backs (backs.vpn_lt present), present,
    virtAddr_mod_pageSize, physByte_page _ _ offsetLt]
  rfl

/-- A page that is translated is a page of the map. -/
theorem Represents.page_of_mapping
    (mapped :
      set.pageTable.mapping phys.memory (floor (virtAddr va)) ≠ none) :
    ∃ page, pages (floor (virtAddr va)) = some page := by
  have small : floor (virtAddr va) < 2 ^ 27 := pageOf_lt va
  rw [represents.backs.mapping_eq _ small] at mapped
  cases present : pages (floor (virtAddr va)) with
  | none =>
    rw [present] at mapped
    exact absurd rfl mapped
  | some page => exact ⟨page, rfl⟩

end

/-- The high bits of an address do not matter for its translation. -/
theorem indexes_floor (va : Nat) :
    indexes (floor va) = indexes (floor (virtAddr va)) := by
  have cut : floor (virtAddr va) = floor va % 2 ^ 27 := by
    rw [virtAddr_eq_mod, floor, floor, pageSize]
    omega
  rw [cut]
  generalize floor va = vpn
  have low (n : Nat) : n &&& 511 = n % 2 ^ 9 :=
    Nat.and_two_pow_sub_one_eq_mod n 9
  have first :
      (vpn >>> 9 >>> 9) % 2 ^ 9 = ((vpn % 2 ^ 27) >>> 9 >>> 9) % 2 ^ 9 := by
    simp only [Nat.shiftRight_eq_div_pow]
    omega
  have second : (vpn >>> 9) % 2 ^ 9 = ((vpn % 2 ^ 27) >>> 9) % 2 ^ 9 := by
    simp only [Nat.shiftRight_eq_div_pow]
    omega
  have third : vpn % 2 ^ 9 = vpn % 2 ^ 27 % 2 ^ 9 := by omega
  rw [indexes, indexes, low, low, low, low, low, low, first, second, third]

theorem translate_floor (table : PageTable) (memory : Nat → Page)
    (va : Nat) :
    table.translate memory (floor va) =
      table.translate memory (floor (virtAddr va)) := by
  rw [PageTable.translate, PageTable.translate, PageTable.findPte,
    PageTable.findPte, indexes_floor]

theorem Represents.virToPhy
    (represents : Represents kernelPage set.areas set.pageTable phys pages)
    (present : pages (floor (virtAddr va)) = some page) :
    Kernel.virToPhy phys.memory set.pageTable.token va =
      .ok (page.1 * pageSize + va % pageSize) := by
  obtain ⟨entry, translated, valid, ppnEq, _⟩ :=
    represents.backs.translate present
  have offsetEq : pageOffset va = va % pageSize :=
    Nat.and_two_pow_sub_one_eq_mod va 12
  have sizeEq : pageSize = 2 ^ 12 := rfl
  rw [Kernel.virToPhy, represents.translate_token, translate_floor, translated]
  dsimp only
  rw [if_pos valid, ppnEq, offsetEq, Nat.shiftLeft_eq, sizeEq]

/-! ## The store -/

theorem length_timeVal (us : Nat) : (timeVal us).length = 16 := by
  simp [timeVal]

variable {ts us : Nat}

section

variable
  (represents : Represents kernelPage set.areas set.pageTable phys pages)
  (present : pages (floor (virtAddr ts)) = some page)

include represents present

/-- The call on a page that is mapped. -/
theorem Represents.sysGetTime_eq :
    sysGetTime phys kernelPage set.pageTable.token ts us =
      (do
        let phys ← phys.put kernelPage
          (page.1 * pageSize + ts % pageSize) (timeVal us)
        return (0, phys)) := by
  rw [sysGetTime, represents.virToPhy present]
  rfl

/--
Where the bytes of the structure follow each other in physical memory, and
none of them is on the page of the trampoline, the call writes them.
-/
theorem Represents.time_written
    (follows :
      ∀ k < 16, ∃ own, pages (floor (virtAddr (ts + k))) = some own ∧
        own.1 ≠ kernelPage ∧
        own.1 * pageSize + (ts + k) % pageSize =
          page.1 * pageSize + ts % pageSize + k) :
    ∃ after,
      sysGetTime phys kernelPage set.pageTable.token ts us = .ok (0, after) ∧
        TimeWritten set phys after ts us := by
  have backs := represents.backs
  have frameOf (k : Nat) (own : Nat × PTEFlags)
      (placed :
        own.1 * pageSize + (ts + k) % pageSize =
          page.1 * pageSize + ts % pageSize + k) :
      (page.1 * pageSize + ts % pageSize + k) / pageSize = own.1 := by
    rw [← placed, pageSize]
    omega
  obtain ⟨after, returned, stored⟩ :
      ∃ after,
        phys.put kernelPage (page.1 * pageSize + ts % pageSize)
            (timeVal us) = .ok after ∧
          Phys.Stored phys (page.1 * pageSize + ts % pageSize) (timeVal us)
            after := by
    apply phys.put_returns
    intro k kLt
    rw [length_timeVal] at kLt
    obtain ⟨own, _, notText, placed⟩ := follows k kLt
    rw [frameOf k own placed]
    exact notText
  have tablesKept (ppn : Nat) (member : ppn ∈ set.pageTable.frames) :
      after.memory ppn = phys.memory ppn := by
    apply stored.pages_kept
    intro k kLt
    rw [length_timeVal] at kLt
    obtain ⟨own, ownPresent, _, placed⟩ := follows k kLt
    rw [frameOf k own placed]
    rintro rfl
    exact backs.notTable ownPresent member
  have representsAfter :
      Represents kernelPage set.areas set.pageTable after pages :=
    { represents with
      backs := backs.others tablesKept (by
        rw [stored.allocator_eq]
        exact fun _ => id) }
  refine ⟨after, ?_, ?_, ?_⟩
  · rw [represents.sysGetTime_eq present, returned]
    rfl
  · intro k kLt
    obtain ⟨own, ownPresent, _, placed⟩ := follows k kLt
    rw [representsAfter.byteAt ownPresent, placed, stored.byte_eq,
      if_pos (by rw [length_timeVal]; omega), Nat.add_sub_cancel_left]
  · intro pa elsewhere
    rw [stored.byte_eq, if_neg]
    rintro ⟨above, below⟩
    rw [length_timeVal] at below
    have kLt : pa - (page.1 * pageSize + ts % pageSize) < 16 := by omega
    obtain ⟨own, ownPresent, _, placed⟩ := follows _ kLt
    apply elsewhere _ kLt
    rw [represents.userByte ownPresent, placed, Nat.add_sub_cancel' above]

end

/-- The eighth byte of the structure is the lowest of the microseconds. -/
theorem timeVal_eight (us : Nat) :
    (timeVal us).getD 8 0 = UInt8.ofNat (us % 1000000) := by
  rw [timeVal, List.getD_append_right _ _ _ _ (by simp)]
  simp [leBytes]

section

variable
  (represents : Represents kernelPage set.areas set.pageTable phys pages)

include represents

variable {next : Nat × PTEFlags}

section

variable (present : pages (floor (virtAddr ts)) = some page)
  (nextPresent : pages (floor (virtAddr (ts + 8))) = some next)
  (straddles : ts % pageSize = 4088)

include present nextPresent straddles

/--
If the second half of the structure is on another page, whose frame does not
follow the first one, a byte of the following frame is overwritten.
-/
theorem Represents.frame_overwritten (apart : next.1 ≠ page.1 + 1)
    (returned :
      sysGetTime phys kernelPage set.pageTable.token ts us = .ok (0, after)) :
    (∀ k < 16,
      set.userByte phys.memory (ts + k) ≠
        some ((page.1 + 1) * pageSize)) ∧
      physByte after.memory ((page.1 + 1) * pageSize) =
        UInt8.ofNat (us % 1000000) := by
  have sizeEq : pageSize = 4096 := rfl
  constructor
  · intro k kLt
    by_cases first : k < 8
    · have samePage : floor (virtAddr (ts + k)) = floor (virtAddr ts) := by
        rw [virtAddr_eq_mod, virtAddr_eq_mod, floor, floor, sizeEq]
        rw [sizeEq] at straddles
        omega
      rw [← samePage] at present
      rw [represents.userByte present]
      intro same
      have equal := Option.some.inj same
      rw [sizeEq] at straddles equal
      omega
    · have samePage :
          floor (virtAddr (ts + k)) = floor (virtAddr (ts + 8)) := by
        rw [virtAddr_eq_mod, virtAddr_eq_mod, floor, floor, sizeEq]
        rw [sizeEq] at straddles
        omega
      rw [← samePage] at nextPresent
      rw [represents.userByte nextPresent]
      intro same
      have equal := Option.some.inj same
      rw [sizeEq] at straddles equal
      omega
  · rw [represents.sysGetTime_eq present] at returned
    obtain ⟨stored, putEq, rest⟩ := bind_eq_ok.mp returned
    cases rest
    have writable (k : Nat) (kLt : k < (timeVal us).length) :
        (page.1 * pageSize + ts % pageSize + k) / pageSize ≠ kernelPage := by
      intro onText
      rw [Phys.put_faults kLt onText] at putEq
      cases putEq
    obtain ⟨other, otherEq, facts⟩ := phys.put_returns writable
    rw [putEq] at otherEq
    cases otherEq
    have place :
        (page.1 + 1) * pageSize =
          page.1 * pageSize + ts % pageSize + 8 := by
      rw [straddles, sizeEq]
      omega
    rw [place, facts.byte_eq, if_pos (by rw [length_timeVal]; omega),
      Nat.add_sub_cancel_left, timeVal_eight]

/-- If the call writes the structure at all times, the frames follow. -/
theorem Represents.frames_adjacent
    (written :
      ∀ us < 2 ^ 64, ∃ after,
        sysGetTime phys kernelPage set.pageTable.token ts us = .ok (0, after) ∧
          TimeWritten set phys after ts us) :
    next.1 = page.1 + 1 := by
  by_contra apart
  obtain ⟨zeroAfter, zeroReturned, zeroWritten⟩ := written 0 (by decide)
  obtain ⟨oneAfter, oneReturned, oneWritten⟩ := written 1 (by decide)
  obtain ⟨elsewhere, zeroByte⟩ :=
    represents.frame_overwritten present nextPresent straddles apart
      zeroReturned
  obtain ⟨_, oneByte⟩ :=
    represents.frame_overwritten present nextPresent straddles apart
      oneReturned
  -- the byte of the following frame would be both the old one and the time
  rw [zeroWritten.others _ elsewhere] at zeroByte
  rw [oneWritten.others _ elsewhere, zeroByte] at oneByte
  exact absurd oneByte (by decide)

end

/-- The entry of a page of the map. -/
theorem Represents.mapping_ppn
    (present : pages (floor (virtAddr va)) = some page) :
    ∃ entry,
      set.pageTable.mapping phys.memory (floor (virtAddr va)) = some entry ∧
        entry.ppn = page.1 := by
  have backs := represents.backs
  refine ⟨.new page.1 (page.2 ||| PTEFlags.v), ?_,
    PageTableEntry.ppn_new (backs.ppn_lt present)⟩
  rw [backs.mapping_eq _ (backs.vpn_lt present), present]
  rfl

end

/--
`sys_get_time` writes exactly the structure of the program, whatever the time,
exactly when the structure does not lie on the trampoline and its bytes follow
each other in physical memory.
-/
theorem get_time_exact_iff
    (kernelPage : Nat) (set : MemorySet) (phys : KernelMemory)
    (valid : Valid kernelPage set phys) (ts : Nat) (aligned : ts % 8 = 0)
    (mapped :
      ∀ k < 16,
        set.pageTable.mapping phys.memory (floor (virtAddr (ts + k))) ≠
          none) :
    (∀ us < 2 ^ 64, ∃ after,
      sysGetTime phys kernelPage set.pageTable.token ts us = .ok (0, after) ∧
        TimeWritten set phys after ts us) ↔
      FramesAdjacent set phys ts := by
  obtain ⟨pages, represents⟩ := valid
  have sizeEq : pageSize = 4096 := rfl
  obtain ⟨page, present⟩ :
      ∃ page, pages (floor (virtAddr ts)) = some page :=
    represents.page_of_mapping (mapped 0 (by decide))
  obtain ⟨next, nextPresent⟩ :=
    represents.page_of_mapping (mapped 8 (by decide))
  constructor
  · intro written
    have notFaulting (us : Nat) (usLt : us < 2 ^ 64) (k : Nat)
        (kLt : k < 16) :
        (page.1 * pageSize + ts % pageSize + k) / pageSize ≠
          kernelPage := by
      intro onText
      obtain ⟨after, returned, _⟩ := written us usLt
      rw [represents.sysGetTime_eq present,
        Phys.put_faults (by rw [length_timeVal]; exact kLt) onText]
        at returned
      cases returned
    have firstFrame : page.1 ≠ kernelPage := by
      have offsetLt : ts % pageSize < pageSize := Nat.mod_lt _ (by decide)
      have here := notFaulting 0 (by decide) 0 (by decide)
      have pageEq :
          (page.1 * pageSize + ts % pageSize + 0) / pageSize = page.1 := by
        rw [sizeEq] at offsetLt ⊢
        omega
      rw [pageEq] at here
      exact here
    constructor
    · intro onTrampoline
      rw [onTrampoline, represents.trampoline_page] at present
      exact firstFrame (congrArg Prod.fst (Option.some.inj present)).symm
    · by_cases onePage : ts % pageSize + 16 ≤ pageSize
      · exact .inl onePage
      · right
        have straddles : ts % pageSize = 4088 := by
          have offsetLt : ts % pageSize < pageSize := Nat.mod_lt _ (by decide)
          rw [sizeEq] at onePage offsetLt ⊢
          omega
        have adjacent : next.1 = page.1 + 1 :=
          represents.frames_adjacent present nextPresent straddles written
        constructor
        · intro onTrampoline
          rw [onTrampoline, represents.trampoline_page] at nextPresent
          have nextFrame : kernelPage = next.1 :=
            congrArg Prod.fst (Option.some.inj nextPresent)
          apply notFaulting 0 (by decide) 8 (by decide)
          rw [nextFrame, adjacent, straddles, sizeEq]
          omega
        · obtain ⟨first, firstMapped, firstPpn⟩ :=
            represents.mapping_ppn present
          obtain ⟨second, secondMapped, secondPpn⟩ :=
            represents.mapping_ppn nextPresent
          refine ⟨first, second, firstMapped, secondMapped, ?_⟩
          rw [firstPpn, secondPpn, adjacent]
  · rintro ⟨notTrampoline, place⟩ us _
    apply represents.time_written present
    intro k kLt
    obtain ⟨own, ownPresent⟩ := represents.page_of_mapping (mapped k kLt)
    by_cases samePage : ts % pageSize + k < pageSize
    · have pageEq : floor (virtAddr (ts + k)) = floor (virtAddr ts) := by
        rw [virtAddr_eq_mod, virtAddr_eq_mod, floor, floor, sizeEq]
        rw [sizeEq] at samePage
        omega
      rw [pageEq] at ownPresent ⊢
      rw [present] at ownPresent
      refine ⟨page, present,
        represents.frame_ne_text present notTrampoline, ?_⟩
      rw [sizeEq] at samePage ⊢
      omega
    · rcases place with onePage | ⟨nextNot, first, second, firstMapped,
        secondMapped, adjacent⟩
      · omega
      · have straddles : ts % pageSize = 4088 ∧ 8 ≤ k := by
          rw [sizeEq] at samePage ⊢
          omega
        have pageEq :
            floor (virtAddr (ts + k)) = floor (virtAddr (ts + 8)) := by
          rw [virtAddr_eq_mod, virtAddr_eq_mod, floor, floor, sizeEq]
          rw [sizeEq] at straddles
          omega
        obtain ⟨firstEntry, firstIs, firstPpn⟩ :=
          represents.mapping_ppn present
        obtain ⟨secondEntry, secondIs, secondPpn⟩ :=
          represents.mapping_ppn nextPresent
        rw [firstIs] at firstMapped
        rw [secondIs] at secondMapped
        cases firstMapped
        cases secondMapped
        refine ⟨next, pageEq ▸ nextPresent,
          represents.frame_ne_text nextPresent nextNot, ?_⟩
        rw [firstPpn, secondPpn] at adjacent
        rw [adjacent, sizeEq]
        rw [sizeEq] at straddles
        omega

/-! ## A process of two pages -/

/-- A process with the two pages at `0x10000`. -/
def twoPageSpace : Except Stop (MemorySet × KernelMemory) := do
  let (bare, phys) ← newBare clearedMemory
  let (set, phys) ← bare.mapTrampoline phys 0x80201000
  set.insertFramedArea phys 0x10000 0x12000
    ⟨PTEFlags.r ||| PTEFlags.w ||| PTEFlags.u, MapPermission.named_rwu⟩

theorem twoPageSpace_reached (made : twoPageSpace = .ok (set, phys)) :
    Reached 0x80201 set phys := by
  obtain ⟨⟨bare, barePhys⟩, bareEq, rest⟩ := bind_eq_ok.mp made
  obtain ⟨⟨first, firstPhys⟩, firstEq, lastEq⟩ := bind_eq_ok.mp rest
  exact .insertFramedArea
    (.new (by rfl) clearedMemory_kernel bareEq firstEq) (by decide)
    (by decide) lastEq

/-- The time at the start of the first page. -/
theorem get_time_exact_iff_start :
    ∃ set phys, Reached 0x80201 set phys ∧
      ∀ us < 2 ^ 64, ∃ after,
        sysGetTime phys 0x80201 set.pageTable.token 0x10000 us =
            .ok (0, after) ∧
          TimeWritten set phys after 0x10000 us := by
  obtain ⟨set, phys, made, entry, mapped⟩ :
      ∃ set phys, twoPageSpace = .ok (set, phys) ∧
        ∃ entry, set.pageTable.mapping phys.memory 0x10 = some entry :=
    ⟨_, _, rfl, _, rfl⟩
  have reached := twoPageSpace_reached made
  refine ⟨set, phys, reached, ?_⟩
  apply (get_time_exact_iff 0x80201 set phys reached.valid 0x10000 rfl
    ?_).mpr
  · exact ⟨by decide, .inl (by decide)⟩
  · intro k kLt
    have page : floor (virtAddr (0x10000 + k)) = 0x10 := by
      rw [virtAddr_eq_mod, floor, pageSize]
      omega
    rw [page, mapped]
    exact some_ne_none _

/--
The structure at `0x10ff8` lies on the two pages of the process, which have
the frames `0x80303` and `0x80306`.  The microseconds go to `0x80304`, a table
of the process.
-/
theorem get_time_overwrites_table :
    ∃ set phys, Reached 0x80201 set phys ∧
      (∀ k < 16,
        set.pageTable.mapping phys.memory
          (floor (virtAddr (0x10ff8 + k))) ≠ none) ∧
      0x80304 ∈ set.pageTable.frames ∧
      ¬ ∀ us < 2 ^ 64, ∃ after,
        sysGetTime phys 0x80201 set.pageTable.token 0x10ff8 us =
            .ok (0, after) ∧
          TimeWritten set phys after 0x10ff8 us := by
  obtain ⟨set, phys, made, first, second, firstMapped, secondMapped,
      firstPpn, secondPpn, isTable⟩ :
      ∃ set phys, twoPageSpace = .ok (set, phys) ∧
        ∃ first second,
          set.pageTable.mapping phys.memory 0x10 = some first ∧
            set.pageTable.mapping phys.memory 0x11 = some second ∧
            first.ppn = 0x80303 ∧ second.ppn = 0x80306 ∧
            0x80304 ∈ set.pageTable.frames :=
    ⟨_, _, rfl, _, _, rfl, rfl, rfl, rfl, by decide⟩
  have reached := twoPageSpace_reached made
  refine ⟨set, phys, reached, ?_, isTable, ?_⟩
  · intro k kLt
    by_cases low : k < 8
    · have page : floor (virtAddr (0x10ff8 + k)) = 0x10 := by
        rw [virtAddr_eq_mod, floor, pageSize]
        omega
      rw [page, firstMapped]
      exact some_ne_none _
    · have page : floor (virtAddr (0x10ff8 + k)) = 0x11 := by
        rw [virtAddr_eq_mod, floor, pageSize]
        omega
      rw [page, secondMapped]
      exact some_ne_none _
  · intro written
    obtain ⟨pages, represents⟩ := reached.valid
    have firstPage : floor (virtAddr 0x10ff8) = 0x10 := by decide
    have secondPage : floor (virtAddr (0x10ff8 + 8)) = 0x11 := by decide
    obtain ⟨page, present⟩ :
        ∃ page, pages (floor (virtAddr 0x10ff8)) = some page := by
      apply represents.page_of_mapping
      rw [firstPage, firstMapped]
      exact some_ne_none _
    obtain ⟨next, nextPresent⟩ :
        ∃ page, pages (floor (virtAddr (0x10ff8 + 8))) = some page := by
      apply represents.page_of_mapping
      rw [secondPage, secondMapped]
      exact some_ne_none _
    obtain ⟨entry, entryMapped, entryPpn⟩ := represents.mapping_ppn present
    obtain ⟨other, otherMapped, otherPpn⟩ := represents.mapping_ppn nextPresent
    rw [firstPage, firstMapped] at entryMapped
    rw [secondPage, secondMapped] at otherMapped
    cases entryMapped
    cases otherMapped
    have adjacent :=
      represents.frames_adjacent present nextPresent (by decide) written
    rw [← entryPpn, ← otherPpn, firstPpn, secondPpn] at adjacent
    exact absurd adjacent (by decide)

end MemorySet

end RCoreOS.Kernel
