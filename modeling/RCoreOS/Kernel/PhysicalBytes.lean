import RCoreOS.Kernel.AreaShapes
import RCoreOS.Kernel.ElfSegments
import RCoreOS.Kernel.UserBuffers

/-!
# Stores to physical memory

The kernel reaches the memory of a program through physical addresses:
`translated_refmut` of `os/src/mm/page_table.rs` translates a pointer of the
program, and the kernel, whose own address space maps the physical memory to
itself, stores to the address that it gets.
-/

namespace RCoreOS.Kernel

open Lib.FallibleRuns PageTable PageTable List

/-! ## Bytes of physical memory -/

/-- The bytes of a word in memory, the lowest first. -/
def leBytes (width value : Nat) : List UInt8 :=
  (List.range width).map fun k => UInt8.ofNat (value / 256 ^ k)

@[simp]
theorem length_leBytes (width value : Nat) :
    (leBytes width value).length = width := by
  simp [leBytes]

/-- The byte at a physical address. -/
def physByte (memory : Nat → Page) (pa : Nat) : UInt8 :=
  (memory (pa / pageSize)).byte (pa % pageSize)

variable {offset : Nat}

theorem physByte_page (memory : Nat → Page) (ppn : Nat)
    (inside : offset < pageSize) :
    physByte memory (ppn * pageSize + offset) =
      (memory ppn).byte offset := by
  rw [pageSize] at inside
  have pageEq : (ppn * pageSize + offset) / pageSize = ppn := by
    rw [pageSize]
    omega
  have offsetEq : (ppn * pageSize + offset) % pageSize = offset := by
    rw [pageSize]
    omega
  rw [physByte, pageEq, offsetEq]

/-- The page after a store of one byte. -/
def Page.setByte (page : Page) (offset : Nat) (byte : UInt8) : Page :=
  fun entry =>
    if entry.val = offset / 8 then
      wordOf fun k =>
        if k = offset % 8 then byte else page.byte (8 * entry.val + k)
    else
      page entry

theorem Page.byte_setByte (page : Page) (byte : UInt8) {index : Nat}
    (inside : index < 4096) :
    (page.setByte offset byte).byte index =
      if index = offset then byte else page.byte index := by
  have entry : (Fin.ofNat 512 (index / 8)).val = index / 8 :=
    Nat.mod_eq_of_lt (by omega)
  have place : 8 * (index / 8) + index % 8 = index := by omega
  rw [Page.byte, Page.setByte, entry]
  by_cases sameEntry : index / 8 = offset / 8
  · rw [if_pos sameEntry, byte_wordOf _ (Nat.mod_lt _ (by decide)), place]
    by_cases same : index = offset
    · rw [if_pos (by rw [same]), if_pos same]
    · rw [if_neg (by omega), if_neg same]
  · rw [if_neg sameEntry, if_neg (by rintro rfl; exact sameEntry rfl)]
    rfl

namespace Phys

/-- A store of one byte. -/
def putByte (phys : KernelMemory) (pa : Nat) (byte : UInt8) : KernelMemory :=
  phys.writePage (pa / pageSize)
    (Page.setByte (phys.memory (pa / pageSize)) (pa % pageSize) byte)

/--
A store of bytes to a physical address.  The page `text` of the trampoline is
not writable in the kernel's address space, and a store to it faults.
-/
def put (phys : KernelMemory) (text pa : Nat) :
    List UInt8 → Except Stop KernelMemory
  | [] => .ok phys
  | byte :: rest =>
    if pa / pageSize = text then
      .error .panicked
    else
      (phys.putByte pa byte).put text (pa + 1) rest

/-- The bytes from an address on were stored, and nothing else changed. -/
structure Stored (phys : KernelMemory) (pa : Nat) (bytes : List UInt8)
    (after : KernelMemory) : Prop where
  allocator_eq : after.allocator = phys.allocator
  byte_eq :
    ∀ other,
      physByte after.memory other =
        if pa ≤ other ∧ other < pa + bytes.length then
          bytes.getD (other - pa) 0
        else
          physByte phys.memory other
  pages_kept :
    ∀ ppn, (∀ k < bytes.length, (pa + k) / pageSize ≠ ppn) →
      after.memory ppn = phys.memory ppn

variable {phys after : KernelMemory} {text pa : Nat} {bytes : List UInt8}

theorem physByte_putByte (phys : KernelMemory) (pa : Nat) (byte : UInt8)
    (other : Nat) :
    physByte (phys.putByte pa byte).memory other =
      if other = pa then byte else physByte phys.memory other := by
  have offsetLt : other % pageSize < 4096 := Nat.mod_lt _ (by decide)
  by_cases samePage : other / pageSize = pa / pageSize
  · rw [physByte, samePage, putByte, writePage_self, Page.byte_setByte _ _ offsetLt]
    by_cases same : other = pa
    · rw [if_pos (by rw [same]), if_pos same]
    · have different : other % pageSize ≠ pa % pageSize := by
        intro sameOffset
        rw [← Nat.div_add_mod other pageSize, samePage, sameOffset,
          Nat.div_add_mod] at same
        exact same rfl
      rw [if_neg different, if_neg same, physByte, samePage]
  · rw [physByte, putByte, writePage_of_ne samePage,
      if_neg (by rintro rfl; exact samePage rfl), physByte]

/-- A store that touches no page of the trampoline. -/
theorem put_returns (phys : KernelMemory)
    (writable : ∀ k < bytes.length, (pa + k) / pageSize ≠ text) :
    ∃ after, phys.put text pa bytes = .ok after ∧
      Stored phys pa bytes after := by
  induction bytes generalizing phys pa with
  | nil =>
    refine ⟨phys, rfl, rfl, ?_, fun _ _ => rfl⟩
    intro other
    rw [if_neg (by rw [length_nil]; omega)]
  | cons byte rest ih =>
    have here : pa / pageSize ≠ text := writable 0 (Nat.succ_pos _)
    obtain ⟨after, returned, stored⟩ :
        ∃ after,
          (phys.putByte pa byte).put text (pa + 1) rest = .ok after ∧
            Stored (phys.putByte pa byte) (pa + 1) rest after := by
      apply ih
      intro k kLt
      rw [Nat.add_assoc, Nat.add_comm 1 k]
      exact writable (k + 1) (Nat.succ_lt_succ kLt)
    refine ⟨after, ?_, stored.allocator_eq, ?_, ?_⟩
    · rw [put, if_neg here]
      exact returned
    · intro other
      rw [stored.byte_eq, physByte_putByte, length_cons]
      rcases Nat.lt_trichotomy other pa with below | same | above
      · rw [if_neg (by omega), if_neg (by omega), if_neg (by omega)]
      · rw [if_neg (by omega), if_pos same, if_pos (by omega), same,
          Nat.sub_self, getD_cons_zero]
      · have shift : other - pa = other - (pa + 1) + 1 := by omega
        rw [if_neg (Nat.ne_of_gt above), shift, getD_cons_succ]
        exact if_congr (by omega) rfl rfl
    · intro ppn outside
      rw [stored.pages_kept ppn fun k kLt => by
        rw [Nat.add_assoc, Nat.add_comm 1 k]
        exact outside (k + 1) (Nat.succ_lt_succ kLt)]
      exact writePage_of_ne (Ne.symm (outside 0 (Nat.succ_pos _)))

/-- A store to the page of the trampoline faults. -/
theorem put_faults {k : Nat} (inside : k < bytes.length)
    (onText : (pa + k) / pageSize = text) :
    phys.put text pa bytes = .error .panicked := by
  induction bytes generalizing phys pa k with
  | nil => cases inside
  | cons byte rest ih =>
    rw [put]
    by_cases here : pa / pageSize = text
    · rw [if_pos here]
    · rw [if_neg here]
      cases k with
      | zero => exact absurd onText here
      | succ k =>
        apply ih (Nat.lt_of_succ_lt_succ inside)
        rw [Nat.add_assoc, Nat.add_comm 1 k]
        exact onText

end Phys

/-! ## Pointers of a program -/

/--
The physical address of `translated_refmut`.  An entry that is not valid has
the page 0; it is not mapped in the kernel's address space, and the access to
it faults.
-/
def translatedRefmut (memory : Nat → Page) (token va : Nat) :
    Except Stop Nat :=
  match (fromToken token).translate memory (floor (virtAddr va)) with
  | none => .error .panicked
  | some entry =>
    if entry.isValid then
      .ok (physAddr ((entry.ppn <<< 12) + pageOffset (virtAddr va)))
    else
      .error .panicked

namespace MemorySet

variable {text : Nat} {set : MemorySet} {phys : KernelMemory}
  {pages : Pages} {content : Nat → UInt8} {page : Nat × PTEFlags}

/-- The token of a memory set stands for its page table. -/
theorem Represents.translate_token
    (represents : Represents text set.areas set.pageTable phys pages)
    (vpn : Nat) :
    (PageTable.fromToken set.pageTable.token).translate phys.memory vpn =
      set.pageTable.translate phys.memory vpn := by
  rw [translate_eq, translate_eq,
    fromToken_token represents.backs.shaped.root_lt]

variable {va vpn : Nat}

/-- The address of a byte in a page. -/
theorem physAddr_page {ppn : Nat} (ppnLt : ppn < 2 ^ 44) :
    physAddr ((ppn <<< 12) + pageOffset va) =
      ppn * pageSize + va % pageSize := by
  have offsetEq : pageOffset va = va % pageSize :=
    Nat.and_two_pow_sub_one_eq_mod va 12
  have offsetLt : va % pageSize < pageSize := Nat.mod_lt _ (by decide)
  have sizeEq : pageSize = 2 ^ 12 := rfl
  rw [physAddr, Nat.and_two_pow_sub_one_eq_mod, offsetEq, Nat.shiftLeft_eq,
    sizeEq]
  rw [sizeEq] at offsetLt
  apply Nat.mod_eq_of_lt
  omega

section

variable (represents : Represents text set.areas set.pageTable phys pages)

include represents

/-- The pointer to an address of a page that is mapped. -/
theorem Represents.translatedRefmut
    (present : pages (floor (virtAddr va)) = some page) :
    Kernel.translatedRefmut phys.memory set.pageTable.token va =
      .ok (page.1 * pageSize + virtAddr va % pageSize) := by
  obtain ⟨entry, translated, valid, ppnEq, _⟩ :=
    represents.backs.translate present
  rw [Kernel.translatedRefmut, represents.translate_token, translated]
  dsimp only
  rw [if_pos valid, ppnEq, physAddr_page (represents.backs.ppn_lt present)]

/-- Only the trampoline has the page of the trampoline. -/
theorem Represents.frame_ne_text (present : pages vpn = some page)
    (notTrampoline : vpn ≠ trampolineVpn) : page.1 ≠ text := by
  intro same
  exact notTrampoline
    (represents.backs.injective present represents.trampoline_page same)

end

/-- A store to bytes of a page of the memory set. -/
theorem Image.put (image : Image text set phys pages content)
    (present : pages vpn = some page) (notTrampoline : vpn ≠ trampolineVpn)
    {offset : Nat} {bytes : List UInt8}
    (fits : offset + bytes.length ≤ pageSize) :
    ∃ after,
      phys.put text (page.1 * pageSize + offset) bytes = .ok after ∧
        Image text set after pages
          (copiedOver content (4096 * vpn + offset) bytes) := by
  have backs := image.represents.backs
  have sizeEq : pageSize = 4096 := rfl
  have pageEq (k : Nat) (kLt : k < bytes.length) :
      (page.1 * pageSize + offset + k) / pageSize = page.1 := by
    rw [sizeEq] at fits ⊢
    omega
  obtain ⟨after, returned, stored⟩ :=
    phys.put_returns fun k kLt => by
      rw [pageEq k kLt]
      exact image.represents.frame_ne_text present notTrampoline
  have kept (ppn : Nat) (different : page.1 ≠ ppn) :
      after.memory ppn = phys.memory ppn := by
    apply stored.pages_kept
    intro k kLt
    rw [pageEq k kLt]
    exact different
  have tablesKept (ppn : Nat) (member : ppn ∈ set.pageTable.frames) :
      after.memory ppn = phys.memory ppn := by
    apply kept
    rintro rfl
    exact backs.notTable present member
  have represents :
      Represents text set.areas set.pageTable after pages :=
    { image.represents with
      backs := backs.others tablesKept (by
        rw [stored.allocator_eq]
        exact fun _ => id) }
  refine ⟨after, returned, represents, ?_, ?_⟩
  · intro other otherPage otherPresent otherNot index inside
    rw [← physByte_page _ _ (show index < pageSize from inside),
      stored.byte_eq, physByte_page _ _ (show index < pageSize from inside),
      image.bytes other otherPage otherPresent otherNot index inside,
      copiedOver]
    by_cases same : other = vpn
    · subst same
      rw [present] at otherPresent
      cases otherPresent
      have shift :
          page.1 * pageSize + index - (page.1 * pageSize + offset) =
            4096 * other + index - (4096 * other + offset) := by
        omega
      rw [shift]
      exact if_congr (by omega) rfl rfl
    · have different : otherPage.1 ≠ page.1 := fun equal =>
        same (backs.injective otherPresent present equal)
      rw [sizeEq] at fits ⊢
      rw [if_neg (by omega), if_neg (by omega)]
  · intro other absent index inside
    have different : other ≠ vpn := by
      rintro rfl
      rw [present] at absent
      cases absent
    rw [sizeEq] at fits
    rw [copiedOver, if_neg (by omega)]
    exact image.unmapped other absent index inside

end MemorySet

end RCoreOS.Kernel
