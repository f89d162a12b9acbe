import RCoreOS.Kernel.ForkMemory

/-!
# Loading the segments of a program

`MemorySet::from_elf` maps an area for each program header of type `Load` and
copies the bytes of the file to it.  The area starts at the page of the
virtual address, and `copy_data` copies from the start of that page on, so the
bytes are where they belong only if the virtual address is the start of a
page.
-/

namespace RCoreOS.Kernel

open Lib.FallibleRuns List

/-! ## Bytes of pages -/

/-- One byte of a page; the entries are little-endian. -/
def Page.byte (page : Page) (index : Nat) : UInt8 :=
  UInt8.ofNat ((page (Fin.ofNat 512 (index / 8))).bits / 256 ^ (index % 8))

/-- The entry with these eight bytes. -/
def wordOf (byte : Nat → UInt8) : PageTableEntry :=
  ⟨Nat.ofDigits 256 ((List.range 8).map fun k => (byte k).toNat)⟩

/-- The page after bytes were copied to its start. -/
def Page.overlay (page : Page) (src : List UInt8) : Page := fun entry =>
  wordOf fun k =>
    if 8 * entry.val + k < src.length then src.getD (8 * entry.val + k) 0
    else page.byte (8 * entry.val + k)

theorem byte_wordOf (byte : Nat → UInt8) {k : Nat} (inside : k < 8) :
    UInt8.ofNat ((wordOf byte).bits / 256 ^ k) = byte k := by
  have digits :
      ∀ digit ∈ (List.range 8).map fun k => (byte k).toNat, digit < 256 := by
    intro digit member
    obtain ⟨_, _, rfl⟩ := mem_map.mp member
    exact (byte _).toNat_lt
  have here :
      ((List.range 8).map fun k => (byte k).toNat).drop k =
        (byte k).toNat ::
          ((List.range 8).map fun k => (byte k).toNat).drop (k + 1) := by
    rw [drop_eq_getElem_cons (by simpa using inside)]
    simp
  apply UInt8.toNat_inj.mp
  rw [wordOf, Nat.ofDigits_div_pow_eq_ofDigits_drop k (by decide) _ digits,
    here, Nat.ofDigits_cons, UInt8.toNat_ofNat']
  show ((byte k).toNat + 256 * _) % 256 = _
  rw [Nat.add_mul_mod_self_left, Nat.mod_eq_of_lt (byte k).toNat_lt]

/-- The bytes of the copy come first, then those that were there. -/
theorem Page.byte_overlay (page : Page) (src : List UInt8) {index : Nat}
    (inside : index < 4096) :
    (page.overlay src).byte index =
      if index < src.length then src.getD index 0 else page.byte index := by
  have entry : (Fin.ofNat 512 (index / 8)).val = index / 8 :=
    Nat.mod_eq_of_lt (by omega)
  have place : 8 * (index / 8) + index % 8 = index := by omega
  rw [Page.byte, Page.overlay, byte_wordOf _ (Nat.mod_lt _ (by decide)),
    entry, place]

/-- A page of empty entries is a page of zeros. -/
theorem Page.byte_empty (index : Nat) :
    Page.byte (fun _ => .empty) index = 0 := by
  show UInt8.ofNat (0 / 256 ^ (index % 8)) = 0
  rw [Nat.zero_div]
  rfl

/-! ## The call -/

/--
A store through the kernel's own address space to the page of an entry.  Page
0, which an entry that is not valid stands for, is not mapped there, and
`text`, the page of the trampoline, is not writable; a store to them faults.
-/
def Phys.store (phys : KernelMemory) (text : Nat) (entry : PageTableEntry)
    (src : List UInt8) : Except Stop KernelMemory :=
  if src = [] then
    .ok phys
  else if entry.isValid ∧ entry.ppn ≠ text then
    .ok (phys.writePage entry.ppn
      (Page.overlay (phys.memory entry.ppn) src))
  else
    .error .panicked

/-- The loop of `copy_data` for the data that is left. -/
def copyLoop (pageTable : PageTable) (phys : KernelMemory) (text : Nat)
    (currentVpn : Nat) (data : List UInt8) : Except Stop KernelMemory :=
  match pageTable.translate phys.memory currentVpn with
  | none => .error .panicked
  | some entry => do
      let phys ← phys.store text entry (data.take pageSize)
      if more : pageSize < data.length then
        copyLoop pageTable phys text (currentVpn + 1) (data.drop pageSize)
      else
        return phys
termination_by data.length
decreasing_by
  rw [length_drop]
  have positive : 0 < pageSize := by decide
  omega

/-- `MapArea::copy_data` -/
def MapArea.copyData (self : MapArea) (pageTable : PageTable)
    (phys : KernelMemory) (text : Nat) (data : List UInt8) :
    Except Stop KernelMemory :=
  if self.mapType = .framed then
    copyLoop pageTable phys text self.vpnRange.l data
  else
    .error .panicked

/-- `MemorySet::push` with data -/
def MemorySet.pushData (self : MemorySet) (phys : KernelMemory)
    (mapArea : MapArea) (text : Nat) (data : List UInt8) :
    Except Stop (MemorySet × KernelMemory) := do
  let (mapArea, pageTable, phys) ← mapArea.map self.pageTable phys
  let phys ← mapArea.copyData pageTable phys text data
  return (⟨pageTable, self.areas ++ [mapArea]⟩, phys)

/-- The types of program headers that `from_elf` tells apart. -/
inductive ProgramType where
  | load
  | other
deriving DecidableEq, Repr

/-- A program header; `type` is `none` where `get_type` gives an error. -/
structure ProgramHeader where
  type : Option ProgramType
  isRead : Bool
  isWrite : Bool
  isExecute : Bool
  offset : BitVec 64
  virtualAddr : BitVec 64
  fileSize : BitVec 64
  memSize : BitVec 64

/-- What `xmas_elf` reads from the image `input`. -/
structure ElfFile where
  input : List UInt8
  magic : List UInt8
  entryPoint : BitVec 64
  programHeaders : List ProgramHeader

namespace ProgramHeader

/-- `map_perm` -/
def mapPerm (ph : ProgramHeader) : MapPermission where
  bits :=
    PTEFlags.u ||| (if ph.isRead then PTEFlags.r else 0) |||
      (if ph.isWrite then PTEFlags.w else 0) |||
      (if ph.isExecute then PTEFlags.x else 0)
  named := by
    cases ph.isRead <;> cases ph.isWrite <;> cases ph.isExecute <;> decide

/-- `start_va` -/
def startVa (ph : ProgramHeader) : Nat := virtAddr ph.virtualAddr.toNat

/-- `end_va` -/
def endVa (ph : ProgramHeader) : Nat :=
  virtAddr (ph.virtualAddr + ph.memSize).toNat

/-- The slice of the image that is copied. -/
def segment (ph : ProgramHeader) (input : List UInt8) :
    Except Stop (List UInt8) :=
  let start := ph.offset.toNat
  let stop := (ph.offset + ph.fileSize).toNat
  if start ≤ stop ∧ stop ≤ input.length then
    .ok ((input.drop start).take (stop - start))
  else
    .error .panicked

end ProgramHeader

namespace MemorySet

/-- The loop of `from_elf` over the program headers. -/
def loadHeaders (self : MemorySet) (phys : KernelMemory) (text : Nat)
    (input : List UInt8) (maxEndVpn : Nat) :
    List ProgramHeader → Except Stop (MemorySet × KernelMemory × Nat)
  | [] => return (self, phys, maxEndVpn)
  | ph :: rest =>
    match ph.type with
    | none => .error .panicked
    | some .other => self.loadHeaders phys text input maxEndVpn rest
    | some .load => do
        let mapArea ←
          MapArea.new ph.startVa ph.endVa .framed ph.mapPerm
        let data ← ph.segment input
        let (self, phys) ← self.pushData phys mapArea text data
        self.loadHeaders phys text input mapArea.vpnRange.r rest

/-- `MemorySet::from_elf` -/
def fromElf (phys : KernelMemory) (strampoline : Nat) (elf : ElfFile) :
    Except Stop (MemorySet × Nat × Nat × KernelMemory) := do
  let (memorySet, phys) ← newBare phys
  let (memorySet, phys) ← memorySet.mapTrampoline phys strampoline
  if elf.magic = [0x7f, 0x45, 0x4c, 0x46] then do
    let text ← pageNum (physAddr strampoline)
    let (memorySet, phys, maxEndVpn) ←
      memorySet.loadHeaders phys text elf.input 0 elf.programHeaders
    let maxEndVa := maxEndVpn * pageSize % 2 ^ 64
    let userStackBase := (usizeOfVirtAddr maxEndVa + pageSize) % 2 ^ 64
    return (memorySet, userStackBase, elf.entryPoint.toNat, phys)
  else
    .error .panicked

end MemorySet

/-! ## What is in the pages -/

/-- Bytes that were copied over others, from a start address on. -/
def copiedOver (content : Nat → UInt8) (start : Nat) (data : List UInt8) :
    Nat → UInt8 := fun address =>
  if start ≤ address ∧ address < start + data.length then
    data.getD (address - start) 0
  else
    content address

@[simp]
theorem copiedOver_nil (content : Nat → UInt8) (start : Nat) :
    copiedOver content start [] = content := by
  funext address
  rw [copiedOver, if_neg (by rw [length_nil]; omega)]

/-- A copy in two parts. -/
theorem copiedOver_append (content : Nat → UInt8) (start : Nat)
    (first second : List UInt8) :
    copiedOver (copiedOver content start first) (start + first.length)
        second =
      copiedOver content start (first ++ second) := by
  funext address
  simp only [copiedOver, length_append]
  by_cases behind : start + first.length ≤ address
  · by_cases inside : address < start + first.length + second.length
    · rw [if_pos ⟨behind, inside⟩, if_pos (by omega),
        getD_append_right _ _ _ _ (by omega)]
      congr 1
      omega
    · rw [if_neg (by omega), if_neg (by omega), if_neg (by omega)]
  · rw [if_neg (by omega)]
    by_cases inside : start ≤ address
    · rw [if_pos (by omega), if_pos (by omega), getD_append _ _ _ _ (by omega)]
    · rw [if_neg (by omega), if_neg (by omega)]

namespace MemorySet

/--
A memory set with these bytes at its addresses.  `text` is the page of the
trampoline, and addresses that are not mapped have no bytes yet.
-/
structure Image (text : Nat) (set : MemorySet) (phys : KernelMemory)
    (pages : Pages) (content : Nat → UInt8) : Prop where
  represents : Represents text set.areas set.pageTable phys pages
  bytes :
    ∀ vpn page, pages vpn = some page → vpn ≠ trampolineVpn →
      ∀ index < 4096,
        Page.byte (phys.memory page.1) index = content (4096 * vpn + index)
  unmapped :
    ∀ vpn, pages vpn = none → ∀ index < 4096, content (4096 * vpn + index) = 0

variable {text : Nat} {set : MemorySet} {phys after : KernelMemory}
  {pages : Pages} {content : Nat → UInt8} {vpn : Nat}

/-- An entry that is valid maps a page. -/
theorem Represents.page
    (represents : Represents text set.areas set.pageTable phys pages)
    (vpnLt : vpn < 2 ^ 27) {entry : PageTableEntry}
    (translated : set.pageTable.translate phys.memory vpn = some entry)
    (valid : entry.isValid = true) :
    ∃ page, pages vpn = some page ∧ entry.ppn = page.1 := by
  have mapped := represents.backs.mapping_eq vpn vpnLt
  rw [PageTable.mapping_eq_some_iff.mpr ⟨translated, valid⟩] at mapped
  cases pageEq : pages vpn with
  | none =>
    rw [pageEq] at mapped
    cases mapped
  | some page =>
    rw [pageEq] at mapped
    refine ⟨page, rfl, ?_⟩
    rw [Option.some.inj mapped]
    exact PageTableEntry.ppn_new (represents.backs.ppn_lt pageEq)

section

variable (image : Image text set phys pages content)

include image

/-- A store to a page of the memory set. -/
theorem Image.store (vpnLt : vpn < 2 ^ 27) {entry : PageTableEntry}
    (translated : set.pageTable.translate phys.memory vpn = some entry)
    {src : List UInt8} (fits : src.length ≤ 4096)
    (returned : phys.store text entry src = .ok after) :
    Image text set after pages (copiedOver content (4096 * vpn) src) ∧
      (src ≠ [] → vpn ≠ trampolineVpn) := by
  by_cases empty : src = []
  · rw [Phys.store, if_pos empty] at returned
    cases returned
    rw [empty, copiedOver_nil]
    exact ⟨image, fun nonempty => absurd rfl nonempty⟩
  · rw [Phys.store, if_neg empty] at returned
    by_cases writable : entry.isValid ∧ entry.ppn ≠ text
    · rw [if_pos writable] at returned
      cases returned
      obtain ⟨page, present, ppnEq⟩ :=
        image.represents.page vpnLt translated writable.1
      have backs := image.represents.backs
      have notTrampoline : vpn ≠ trampolineVpn := by
        rintro rfl
        rw [image.represents.trampoline_page] at present
        cases present
        exact writable.2 ppnEq
      rw [ppnEq]
      refine ⟨⟨image.represents.writePage (backs.notTable present) _,
        ?_, ?_⟩, fun _ => notTrampoline⟩
      · intro other otherPage otherPresent otherNot index inside
        by_cases same : other = vpn
        · subst same
          rw [present] at otherPresent
          cases otherPresent
          rw [Phys.writePage_self, Page.byte_overlay _ _ inside, copiedOver,
            image.bytes other page present otherNot index inside]
          by_cases covered : index < src.length
          · rw [if_pos covered, if_pos (by omega), Nat.add_sub_cancel_left]
          · rw [if_neg covered, if_neg (by omega)]
        · have different : otherPage.1 ≠ page.1 := fun equal =>
            same (backs.injective otherPresent present equal)
          rw [Phys.writePage_of_ne different, copiedOver, if_neg (by omega)]
          exact image.bytes other otherPage otherPresent otherNot index inside
      · intro other absent index inside
        have different : other ≠ vpn := by
          rintro rfl
          rw [present] at absent
          cases absent
        rw [copiedOver, if_neg (by omega)]
        exact image.unmapped other absent index inside
    · rw [if_neg writable] at returned
      cases returned

variable {data : List UInt8} {area : MapArea}

/-- The loop of `copy_data` copies the data to consecutive addresses. -/
theorem Image.copyLoop (vpnLt : vpn < 2 ^ 27)
    (returned :
      Kernel.copyLoop set.pageTable phys text vpn data = .ok after) :
    Image text set after pages (copiedOver content (4096 * vpn) data) := by
  induction left : data.length using Nat.strongRecOn
    generalizing phys vpn data content with
  | ind length ih =>
    rw [Kernel.copyLoop] at returned
    cases translated : set.pageTable.translate phys.memory vpn with
    | none =>
      rw [translated] at returned
      cases returned
    | some entry =>
      rw [translated] at returned
      obtain ⟨between, storeEq, rest⟩ := bind_eq_ok.mp returned
      have sizeEq : pageSize = 4096 := rfl
      have fits : (data.take pageSize).length ≤ 4096 := length_take_le _ _
      obtain ⟨stored, passed⟩ := image.store vpnLt translated fits storeEq
      by_cases more : pageSize < data.length
      · rw [dif_pos more] at rest
        have full : (data.take pageSize).length = 4096 := by
          rw [length_take]
          omega
        have notTrampoline := passed fun empty => by
          rw [empty] at full
          cases full
        have trampolineEq : trampolineVpn = 2 ^ 27 - 1 := rfl
        have next :=
          ih (data.drop pageSize).length
            (by rw [length_drop]; omega) stored (by omega) rest rfl
        have address :
            4096 * (vpn + 1) =
              4096 * vpn + (data.take pageSize).length := by
          rw [full]
          omega
        rw [address, copiedOver_append, take_append_drop] at next
        exact next
      · rw [dif_neg more] at rest
        cases rest
        rw [take_of_length_le (Nat.le_of_not_lt more)] at stored
        exact stored

/-- New pages are zero, and the others are as they were. -/
theorem Image.map {result : MapArea} {table : PageTable}
    (framed : area.mapType = .framed) (r_le : area.vpnRange.r ≤ 2 ^ 27)
    (empty : ∀ vpn, area.dataFrames.lookup vpn = none)
    (returned : area.map set.pageTable phys = .ok (result, table, after)) :
    result.shape = area.shape ∧
      ∃ added,
        Image text ⟨table, set.areas ++ [result]⟩ after added content := by
  have backs := image.represents.backs
  obtain ⟨added, adds, takes, cleared, represents⟩ :=
    image.represents.map framed r_le empty returned
  refine ⟨adds.shape.shape_eq, added, represents, ?_, ?_⟩
  · intro vpn page present notTrampoline index inside
    by_cases new : vpn ∈ area.vpnRange.toList
    · obtain ⟨wasNone, frame, found, newPage⟩ := adds.new vpn new
      rw [present] at newPage
      cases newPage
      rw [(cleared vpn new frame found).2, Page.byte_empty,
        image.unmapped vpn wasNone index inside]
    · rw [(adds.old vpn new).1] at present
      rw [takes.kept page.1 (backs.inUse present) (backs.notTable present)]
      exact image.bytes vpn page present notTrampoline index inside
  · intro vpn unmapped index inside
    by_cases new : vpn ∈ area.vpnRange.toList
    · obtain ⟨_, frame, _, newPage⟩ := adds.new vpn new
      rw [unmapped] at newPage
      cases newPage
    · rw [(adds.old vpn new).1] at unmapped
      exact image.unmapped vpn unmapped index inside

/-- `push` with data adds an area and copies the data to its first page on. -/
theorem Image.pushData (framed : area.mapType = .framed)
    (lLt : area.vpnRange.l < 2 ^ 27) (r_le : area.vpnRange.r ≤ 2 ^ 27)
    (empty : ∀ vpn, area.dataFrames.lookup vpn = none) {next : MemorySet}
    (returned : set.pushData phys area text data = .ok (next, after)) :
    ∃ result added,
      next.areas = set.areas ++ [result] ∧ result.shape = area.shape ∧
        Image text next after added
          (copiedOver content (4096 * area.vpnRange.l) data) := by
  obtain ⟨⟨result, table, between⟩, mapEq, rest⟩ := bind_eq_ok.mp returned
  obtain ⟨copied, copyEq, rest⟩ := bind_eq_ok.mp rest
  cases rest
  obtain ⟨shapeEq, added, mapped⟩ := image.map framed r_le empty mapEq
  obtain ⟨rangeEq, typeEq⟩ := Prod.mk.inj shapeEq
  have resultFramed : result.mapType = .framed :=
    (Prod.mk.inj typeEq).1.trans framed
  rw [MapArea.copyData, if_pos resultFramed, rangeEq] at copyEq
  exact ⟨result, added, rfl, shapeEq, mapped.copyLoop lLt copyEq⟩

end

end MemorySet

/-! ## The program headers -/

namespace ProgramHeader

/-- The bytes of the file that belong to the header. -/
def bytes (ph : ProgramHeader) (input : List UInt8) : List UInt8 :=
  (input.drop ph.offset.toNat).take ph.fileSize.toNat

/-- The slice of the image has all bytes of the header. -/
theorem segment_eq_ok {ph : ProgramHeader} {input data : List UInt8}
    (returned : ph.segment input = .ok data) :
    data = ph.bytes input ∧
      ph.offset.toNat + ph.fileSize.toNat ≤ input.length := by
  rw [segment] at returned
  split at returned
  · next inside =>
      cases returned
      have size := ph.fileSize.isLt
      have start := ph.offset.isLt
      rw [BitVec.toNat_add] at inside ⊢
      have noWrap :
          (ph.offset.toNat + ph.fileSize.toNat) % 2 ^ 64 =
            ph.offset.toNat + ph.fileSize.toNat := by
        omega
      rw [noWrap] at inside ⊢
      rw [Nat.add_sub_cancel_left]
      exact ⟨rfl, inside.2⟩
  · cases returned

/-- The bytes at the addresses after the header was loaded. -/
def place (input : List UInt8) (content : Nat → UInt8)
    (ph : ProgramHeader) : Nat → UInt8 :=
  if ph.type = some .load then
    copiedOver content (4096 * floor ph.startVa) (ph.bytes input)
  else
    content

theorem startVa_eq (ph : ProgramHeader) :
    ph.startVa = ph.virtualAddr.toNat % 2 ^ 39 :=
  virtAddr_eq_mod _

theorem endVa_eq (ph : ProgramHeader) :
    ph.endVa = (ph.startVa + ph.memSize.toNat) % 2 ^ 39 := by
  rw [endVa, startVa_eq, virtAddr_eq_mod, BitVec.toNat_add]
  omega

theorem ceil_endVa_le (ph : ProgramHeader) : ceil ph.endVa ≤ 2 ^ 27 := by
  apply MemorySet.ceil_le
  rw [ph.endVa_eq]
  exact Nat.mod_lt _ (by decide)

end ProgramHeader

/-- The file bytes of the header, from the start of a page on, reach there. -/
def ProgramHeader.Reaches (ph : ProgramHeader) (address : Nat) : Prop :=
  ph.type = some .load ∧ 4096 * floor ph.startVa ≤ address ∧
    address < 4096 * floor ph.startVa + ph.fileSize.toNat

instance (ph : ProgramHeader) (address : Nat) :
    Decidable (ph.Reaches address) :=
  inferInstanceAs (Decidable (_ ∧ _ ∧ _))

/--
The byte of the last program header that reaches the address; each of them
starts at the start of the page of its virtual address.
-/
def ElfFile.placed (elf : ElfFile) (address : Nat) : UInt8 :=
  match elf.programHeaders.reverse.find? (·.Reaches address) with
  | none => 0
  | some ph =>
    elf.input.getD (ph.offset.toNat + (address - 4096 * floor ph.startVa)) 0

/-- All bytes of the header are in the file. -/
def ProgramHeader.InFile (ph : ProgramHeader) (input : List UInt8) : Prop :=
  ph.type = some .load → ph.offset.toNat + ph.fileSize.toNat ≤ input.length

theorem ProgramHeader.place_eq {ph : ProgramHeader} {input : List UInt8}
    (inFile : ph.InFile input) (content : Nat → UInt8) (address : Nat) :
    place input content ph address =
      if ph.Reaches address then
        input.getD (ph.offset.toNat + (address - 4096 * floor ph.startVa)) 0
      else
        content address := by
  by_cases isLoad : ph.type = some .load
  · have inside := inFile isLoad
    have length : (ph.bytes input).length = ph.fileSize.toNat := by
      rw [bytes, length_take, length_drop]
      omega
    rw [place, if_pos isLoad, copiedOver, length]
    by_cases reached :
        4096 * floor ph.startVa ≤ address ∧
          address < 4096 * floor ph.startVa + ph.fileSize.toNat
    · have within :
          address - 4096 * floor ph.startVa < ph.fileSize.toNat := by
        omega
      have reaches : ph.Reaches address := ⟨isLoad, reached⟩
      rw [if_pos reached, if_pos reaches, bytes, getD_eq_getElem?_getD,
        getElem?_take_of_lt within, getElem?_drop, ← getD_eq_getElem?_getD]
    · rw [if_neg reached, if_neg fun reaches => reached reaches.2]
  · rw [place, if_neg isLoad, if_neg fun reaches => isLoad reaches.1]

/-- The copies of all headers, one after the other. -/
theorem ElfFile.foldl_place {elf : ElfFile}
    (inFile : ∀ ph ∈ elf.programHeaders, ph.InFile elf.input) (address : Nat) :
    elf.programHeaders.foldl (ProgramHeader.place elf.input) (fun _ => 0)
        address =
      elf.placed address := by
  rw [placed, ← foldr_reverse]
  have inReverse : ∀ ph ∈ elf.programHeaders.reverse, ph.InFile elf.input :=
    fun ph member => inFile ph (mem_reverse.mp member)
  generalize elf.programHeaders.reverse = headers at inReverse ⊢
  induction headers with
  | nil => rfl
  | cons ph rest ih =>
    rw [foldr_cons, ProgramHeader.place_eq (inReverse ph mem_cons_self)]
    by_cases reaches : ph.Reaches address
    · rw [if_pos reaches, find?_cons_of_pos (by simpa using reaches)]
    · rw [if_neg reaches, find?_cons_of_neg (by simpa using reaches)]
      exact ih fun other member => inReverse other (mem_cons_of_mem _ member)

namespace MemorySet

variable {text : Nat} {set final : MemorySet} {phys after : KernelMemory}
  {pages : Pages} {content : Nat → UInt8}

/-- The area that was mapped for a header. -/
def HasArea (set : MemorySet) (ph : ProgramHeader) : Prop :=
  ∃ area ∈ set.areas,
    area.vpnRange.l = floor ph.startVa ∧ area.vpnRange.r = ceil ph.endVa ∧
      area.mapPerm = ph.mapPerm

variable {ph : ProgramHeader}

theorem HasArea.mono (has : set.HasArea ph)
    (more : ∀ area ∈ set.areas, area ∈ final.areas) : final.HasArea ph := by
  obtain ⟨area, member, facts⟩ := has
  exact ⟨area, more area member, facts⟩

variable {input : List UInt8} {maxEndVpn : Nat}

/-- One turn of the loop skips the header or pushes an area for it. -/
theorem loadHeaders_cons_eq_ok {rest : List ProgramHeader}
    {result : MemorySet × KernelMemory × Nat}
    (returned :
      set.loadHeaders phys text input maxEndVpn (ph :: rest) = .ok result) :
    (ph.type = some .other ∧
        set.loadHeaders phys text input maxEndVpn rest = .ok result) ∨
      ph.type = some .load ∧
        ph.offset.toNat + ph.fileSize.toNat ≤ input.length ∧
        ∃ range next between,
          range.l = floor ph.startVa ∧ range.r = ceil ph.endVa ∧
          range.l < 2 ^ 27 ∧ range.r ≤ 2 ^ 27 ∧
          set.pushData phys ⟨range, ∅, .framed, ph.mapPerm⟩ text
              (ph.bytes input) = .ok (next, between) ∧
          next.loadHeaders between text input range.r rest = .ok result := by
  rw [MemorySet.loadHeaders] at returned
  cases kind : ph.type with
  | none =>
    rw [kind] at returned
    cases returned
  | some type =>
    rw [kind] at returned
    cases type with
    | other => exact .inl ⟨rfl, returned⟩
    | load =>
      obtain ⟨area, made, withArea⟩ := bind_eq_ok.mp returned
      obtain ⟨data, dataEq, withData⟩ := bind_eq_ok.mp withArea
      obtain ⟨⟨next, between⟩, pushed, looped⟩ := bind_eq_ok.mp withData
      obtain ⟨range, rangeEq, built⟩ := bind_eq_ok.mp made
      cases built
      obtain ⟨_, startEq, endEq⟩ := VPNRange.new_eq_ok rangeEq
      obtain ⟨rfl, inFile⟩ := ProgramHeader.segment_eq_ok dataEq
      refine .inr ⟨rfl, inFile, range, next, between, startEq, endEq,
        ?_, ?_, pushed, looped⟩
      · rw [startEq, ph.startVa_eq, floor]
        exact Nat.div_lt_of_lt_mul (Nat.mod_lt _ (by decide))
      · rw [endEq]
        exact ph.ceil_endVa_le

/-- The loop over the program headers. -/
theorem Image.loadHeaders (image : Image text set phys pages content)
    {headers : List ProgramHeader} {lastEndVpn : Nat}
    (returned :
      set.loadHeaders phys text input maxEndVpn headers =
        .ok (final, after, lastEndVpn)) :
    (∃ pages,
      Image text final after pages
        (headers.foldl (ProgramHeader.place input) content)) ∧
      (∀ area ∈ set.areas, area ∈ final.areas) ∧
      ∀ ph ∈ headers, ph.type = some .load →
        final.HasArea ph ∧
          ph.offset.toNat + ph.fileSize.toNat ≤ input.length := by
  induction headers generalizing set phys pages content maxEndVpn with
  | nil =>
    cases returned
    exact ⟨⟨pages, image⟩, fun _ => id, fun _ member => nomatch member⟩
  | cons ph rest ih =>
    rw [foldl_cons, ProgramHeader.place]
    rcases loadHeaders_cons_eq_ok returned with
      ⟨typeEq, returned⟩ | ⟨typeEq, inFile, range, next, between, lEq, rEq,
        lLt, r_le, pushEq, pushed⟩
    · rw [if_neg (by rw [typeEq]; exact nofun)]
      obtain ⟨imageNow, areas, later⟩ := ih image returned
      refine ⟨imageNow, areas, ?_⟩
      intro other member isLoad
      rcases mem_cons.mp member with rfl | member
      · rw [typeEq] at isLoad
        cases isLoad
      · exact later other member isLoad
    · obtain ⟨result, added, areasEq, shapeEq, imageNow⟩ :=
        image.pushData rfl lLt r_le (fun _ => rfl) pushEq
      dsimp only at imageNow
      rw [lEq] at imageNow
      obtain ⟨imageLast, areas, later⟩ := ih imageNow pushed
      rw [if_pos typeEq]
      refine ⟨imageLast, ?_, ?_⟩
      · intro area member
        exact areas area (by
          rw [areasEq]
          exact mem_append_left _ member)
      · intro other member isLoad
        rcases mem_cons.mp member with rfl | member
        · obtain ⟨resultRange, rest⟩ := Prod.mk.inj shapeEq
          have here : next.HasArea other := by
            refine ⟨result, by rw [areasEq]; simp, ?_, ?_, ?_⟩
            · rw [resultRange]
              exact lEq
            · rw [resultRange]
              exact rEq
            · exact (Prod.mk.inj rest).2
          exact ⟨here.mono areas, inFile⟩
        · exact later other member isLoad

/-! ## Where the segments are -/

/-- The byte at a virtual address. -/
def byteAt (set : MemorySet) (phys : KernelMemory) (va : Nat) :
    Option UInt8 :=
  (set.seen phys (floor va)).map fun page => Page.byte page (va % pageSize)

/--
The segment of a header is where it belongs: its bytes are those of the file,
then zeros, and its pages have the flags of the header and `U`.
-/
structure Loaded (set : MemorySet) (phys : KernelMemory)
    (input : List UInt8) (ph : ProgramHeader) : Prop where
  bytes :
    ∀ i < ph.memSize.toNat,
      set.byteAt phys (virtAddr (ph.virtualAddr.toNat + i)) =
        some (if i < ph.fileSize.toNat then
          input.getD (ph.offset.toNat + i) 0 else 0)
  flags :
    ∀ i < ph.memSize.toNat,
      ∃ entry,
        set.pageTable.mapping phys.memory
            (floor (virtAddr (ph.virtualAddr.toNat + i))) = some entry ∧
          entry.flags = ph.mapPerm.bits ||| PTEFlags.v

section

variable (image : Image text set phys pages content)

include image

variable {page : Nat × PTEFlags}

theorem Image.mapping {vpn : Nat}
    (present : pages vpn = some page) :
    ∃ entry,
      set.pageTable.mapping phys.memory vpn = some entry ∧
        entry.flags = page.2 ||| PTEFlags.v := by
  have backs := image.represents.backs
  refine ⟨.new page.1 (page.2 ||| PTEFlags.v), ?_, ?_⟩
  · rw [backs.mapping_eq vpn (backs.vpn_lt present), present]
    rfl
  · exact PageTableEntry.flags_new (backs.ppn_lt present)

theorem Image.byteAt_eq {va : Nat}
    (present : pages (floor va) = some page)
    (notTrampoline : floor va ≠ trampolineVpn) :
    set.byteAt phys va = some (content va) := by
  have backs := image.represents.backs
  have place : 4096 * floor va + va % pageSize = va := by
    rw [floor, pageSize]
    omega
  have byte :=
    image.bytes _ _ present notTrampoline (va % pageSize)
      (Nat.mod_lt _ (by decide))
  rw [place] at byte
  rw [byteAt, seen_eq backs (backs.vpn_lt present), present]
  exact congrArg some byte

end

variable {before : KernelMemory} {strampoline userStackBase entryPoint : Nat}
  {elf : ElfFile}

/-- The memory set before the loop has no areas and no bytes. -/
theorem Image.start {between : KernelMemory} {bare : MemorySet}
    (textEq : pageNum (physAddr strampoline) = .ok text)
    (kernel : ¬ before.allocator.Free text)
    (bareEq : newBare before = .ok (bare, between))
    (mapped : bare.mapTrampoline between strampoline = .ok (set, phys)) :
    ∃ pages, Image text set phys pages fun _ => 0 := by
  obtain ⟨noAreas, pages, spans⟩ :=
    Spans.new textEq (fun _ => kernel) bareEq mapped
  have represents : Represents text set.areas set.pageTable phys pages := by
    apply spans.represents
    rw [noAreas]
    exact fun _ member => nomatch member
  refine ⟨pages, represents, ?_, fun _ _ _ _ => rfl⟩
  intro vpn page present notTrampoline
  rcases represents.covered vpn page present with
    isTrampoline | ⟨area, member, _⟩
  · exact absurd isTrampoline notTrampoline
  · rw [noAreas] at member
    cases member

/-- The steps of `from_elf`. -/
theorem fromElf_eq_ok
    (returned :
      fromElf before strampoline elf =
        .ok (set, userStackBase, entryPoint, after)) :
    ∃ bare between start startPhys text maxEndVpn,
      newBare before = .ok (bare, between) ∧
        bare.mapTrampoline between strampoline = .ok (start, startPhys) ∧
        pageNum (physAddr strampoline) = .ok text ∧
        start.loadHeaders startPhys text elf.input 0 elf.programHeaders =
          .ok (set, after, maxEndVpn) ∧
        userStackBase =
          (usizeOfVirtAddr (maxEndVpn * pageSize % 2 ^ 64) + pageSize) %
            2 ^ 64 := by
  obtain ⟨⟨bare, between⟩, bareEq, rest⟩ := bind_eq_ok.mp returned
  obtain ⟨⟨start, startPhys⟩, mappedEq, rest⟩ := bind_eq_ok.mp rest
  dsimp only at rest mappedEq
  split at rest
  · obtain ⟨text, textEq, rest⟩ := bind_eq_ok.mp rest
    obtain ⟨⟨final, finalPhys, maxEndVpn⟩, loadEq, rest⟩ := bind_eq_ok.mp rest
    obtain ⟨rfl, sameRest⟩ := Prod.mk.inj (Except.ok.inj rest)
    obtain ⟨baseEq, sameEnd⟩ := Prod.mk.inj sameRest
    obtain ⟨_, rfl⟩ := Prod.mk.inj sameEnd
    exact ⟨bare, between, start, startPhys, text, maxEndVpn, bareEq, mappedEq,
      textEq, loadEq, baseEq.symm⟩
  · cases rest

/-- What `from_elf` makes of an image. -/
theorem Image.fromElf (textEq : pageNum (physAddr strampoline) = .ok text)
    (kernel : ¬ before.allocator.Free text)
    (returned :
      fromElf before strampoline elf =
        .ok (set, userStackBase, entryPoint, after)) :
    (∃ pages, Image text set after pages elf.placed) ∧
      ∀ ph ∈ elf.programHeaders, ph.type = some .load → set.HasArea ph := by
  obtain ⟨bare, between, start, startPhys, page, maxEndVpn, bareEq, mappedEq,
    pageEq, loadEq, _⟩ := fromElf_eq_ok returned
  obtain rfl := Except.ok.inj (textEq.symm.trans pageEq)
  obtain ⟨pages, image⟩ := Image.start textEq kernel bareEq mappedEq
  obtain ⟨⟨pagesNow, imageNow⟩, _, areas⟩ := image.loadHeaders loadEq
  have placed :=
    ElfFile.foldl_place fun ph member isLoad => (areas ph member isLoad).2
  rw [funext placed] at imageNow
  exact ⟨⟨pagesNow, imageNow⟩,
    fun ph member isLoad => (areas ph member isLoad).1⟩

/-! ## A segment of one byte -/

/-- Data for one page is copied in one turn. -/
theorem copyLoop_of_le {table : PageTable} {vpn : Nat} {data : List UInt8}
    (short : data.length ≤ pageSize) {entry : PageTableEntry}
    (translated : table.translate phys.memory vpn = some entry) :
    Kernel.copyLoop table phys text vpn data =
      phys.store text entry data := by
  rw [Kernel.copyLoop, translated]
  dsimp only
  rw [take_of_length_le short]
  cases phys.store text entry data with
  | error stop => rfl
  | ok after =>
    show (if _ : pageSize < data.length then _ else pure after) = _
    rw [dif_neg (Nat.not_lt.mpr short)]
    rfl

/-- The kernel's memory before the first process. -/
def clearedMemory : KernelMemory :=
  ⟨fun _ _ => .empty, .init 0x80300 0x88000 frames_le frames_small⟩

theorem clearedMemory_kernel : ¬ clearedMemory.allocator.Free 0x80201 :=
  StackFrameAllocator.not_free_init (by decide)

def oneByteHeader (virtualAddr : BitVec 64) : ProgramHeader :=
  ⟨some .load, true, false, false, 0, virtualAddr, 1, 1⟩

/-- An image with one segment, the byte 7. -/
def oneByteElf (virtualAddr : BitVec 64) : ElfFile :=
  ⟨[7], [0x7f, 0x45, 0x4c, 0x46], virtualAddr, [oneByteHeader virtualAddr]⟩

theorem oneByteElf_returns (virtualAddr : BitVec 64)
    (inPage :
      MapArea.new (oneByteHeader virtualAddr).startVa
          (oneByteHeader virtualAddr).endVa .framed
          (oneByteHeader virtualAddr).mapPerm =
        .ok ⟨⟨1, 2, by decide⟩, ∅, .framed, (oneByteHeader 0).mapPerm⟩) :
    ∃ set userStackBase entryPoint after,
      fromElf clearedMemory 0x80201000 (oneByteElf virtualAddr) =
        .ok (set, userStackBase, entryPoint, after) := by
  obtain ⟨bare, between, child, phys, bareEq, trampolineEq, area, table,
      mapped, mapEq, framed, lEq, entry, translated, valid, notText⟩ :
      ∃ bare between child phys,
        newBare clearedMemory = .ok (bare, between) ∧
          bare.mapTrampoline between 0x80201000 = .ok (child, phys) ∧
          ∃ area table mapped,
            MapArea.map
                ⟨⟨1, 2, by decide⟩, ∅, .framed, (oneByteHeader 0).mapPerm⟩
                child.pageTable phys =
              .ok (area, table, mapped) ∧
            area.mapType = .framed ∧ area.vpnRange.l = 1 ∧
            ∃ entry,
              table.translate mapped.memory 1 = some entry ∧
                entry.isValid = true ∧ entry.ppn ≠ 0x80201 :=
    ⟨_, _, _, _, rfl, rfl, _, _, _, rfl, rfl, rfl, _, rfl, rfl, by decide⟩
  have stored :
      mapped.store 0x80201 entry [7] =
        .ok (mapped.writePage entry.ppn
          (Page.overlay (mapped.memory entry.ppn) [7])) := by
    rw [Phys.store, if_neg (cons_ne_nil _ _), if_pos ⟨valid, notText⟩]
  obtain ⟨last, copied⟩ :
      ∃ last, area.copyData table mapped 0x80201 [7] = .ok last := by
    rw [MapArea.copyData, if_pos framed, lEq,
      copyLoop_of_le (by decide) translated]
    exact ⟨_, stored⟩
  exact ⟨_, _, _, _, bind_eq_ok.mpr ⟨_, bareEq,
    bind_eq_ok.mpr ⟨_, trampolineEq, bind_eq_ok.mpr ⟨0x80201, rfl,
      bind_eq_ok.mpr ⟨_,
        bind_eq_ok.mpr ⟨_, inPage, bind_eq_ok.mpr ⟨[7], rfl,
          bind_eq_ok.mpr ⟨_, bind_eq_ok.mpr ⟨_, mapEq,
            bind_eq_ok.mpr ⟨_, copied, rfl⟩⟩, rfl⟩⟩⟩,
        rfl⟩⟩⟩⟩⟩

end MemorySet

end RCoreOS.Kernel
