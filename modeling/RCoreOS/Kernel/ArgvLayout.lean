import RCoreOS.Kernel.Exec

/-!
# The address space of an executed program

The first half of `exec` makes the new address space before it drops the old
one.  The frames of the new one were free when the call began, so none of them
is a frame that the drop gives back.
-/

namespace RCoreOS.Kernel

open Lib.FallibleRuns List

/-! ## Frames of the new address space -/

/-- A loop that keeps a property in every turn. -/
theorem foldlM_keeps {α σ ε : Type} {step : σ → α → Except ε σ}
    {Holds : σ → Prop} {items : List α} {start final : σ}
    (keeps :
      ∀ item ∈ items, ∀ {state next}, Holds state →
        step state item = .ok next → Holds next)
    (holds : Holds start) (returned : items.foldlM step start = .ok final) :
    Holds final := by
  induction items generalizing start with
  | nil =>
    cases returned
    exact holds
  | cons item rest ih =>
    rw [foldlM_cons] at returned
    obtain ⟨next, stepped, looped⟩ := bind_eq_ok.mp returned
    exact ih (fun other member => keeps other (mem_cons_of_mem _ member))
      (keeps item mem_cons_self holds stepped) looped

theorem copyLoop_allocator {table : PageTable} {phys after : KernelMemory}
    {text vpn : Nat} {data : List UInt8}
    (returned : copyLoop table phys text vpn data = .ok after) :
    after.allocator = phys.allocator := by
  induction left : data.length using Nat.strongRecOn
    generalizing phys vpn data with
  | ind length ih =>
    rw [copyLoop] at returned
    cases translated : table.translate phys.memory vpn with
    | none =>
      rw [translated] at returned
      cases returned
    | some entry =>
      rw [translated] at returned
      obtain ⟨between, stored, rest⟩ := bind_eq_ok.mp returned
      have kept : between.allocator = phys.allocator := by
        rw [Phys.store] at stored
        split at stored
        · cases stored
          rfl
        · split at stored
          · cases stored
            rfl
          · cases stored
      by_cases more : pageSize < data.length
      · rw [dif_pos more] at rest
        have positive : 0 < pageSize := by decide
        have later :=
          ih (data.drop pageSize).length
            (by rw [length_drop]; omega) rest rfl
        rw [later, kept]
      · rw [dif_neg more] at rest
        cases rest
        exact kept

namespace MemorySet

variable {text : Nat} {set next final : MemorySet}
  {before phys after : KernelMemory} {pages : Pages}
  {content : Nat → UInt8}

section

variable (new : NewFrames before set phys)
  (image : Image text set phys pages content)

include new image

theorem NewFrames.pushData {area : MapArea}
    (framed : area.mapType = .framed) (r_le : area.vpnRange.r ≤ 2 ^ 27)
    (empty : ∀ vpn, area.dataFrames.lookup vpn = none) {data : List UInt8}
    (returned : set.pushData phys area text data = .ok (next, after)) :
    NewFrames before next after := by
  obtain ⟨⟨result, table, between⟩, mapEq, rest⟩ := bind_eq_ok.mp returned
  obtain ⟨copied, copyEq, rest⟩ := bind_eq_ok.mp rest
  cases rest
  obtain ⟨added, adds, takes, wereFree, _⟩ :=
    image.represents.map framed r_le empty mapEq
  have mapped := new.map adds takes wereFree empty
  have allocatorEq : after.allocator = between.allocator := by
    rw [MapArea.copyData] at copyEq
    split at copyEq
    · exact copyLoop_allocator copyEq
    · cases copyEq
  refine ⟨?_, mapped.tables, mapped.frames⟩
  intro ppn isFree
  rw [allocatorEq] at isFree
  exact mapped.free ppn isFree

/-- The loop over the program headers takes free frames only. -/
theorem NewFrames.loadHeaders {input : List UInt8}
    {headers : List ProgramHeader} {maxEndVpn lastEndVpn : Nat}
    (returned :
      set.loadHeaders phys text input maxEndVpn headers =
        .ok (final, after, lastEndVpn)) :
    NewFrames before final after := by
  induction headers generalizing set phys pages content maxEndVpn with
  | nil =>
    cases returned
    exact new
  | cons ph rest ih =>
    rcases loadHeaders_cons_eq_ok returned with
      ⟨_, returned⟩ | ⟨_, _, range, next, between, _, _, lLt, r_le, pushed,
        looped⟩
    · exact ih new image returned
    · obtain ⟨_, _, _, _, imageNow⟩ :=
        image.pushData rfl lLt r_le (fun _ => rfl) pushed
      exact ih (new.pushData image rfl r_le (fun _ => rfl) pushed) imageNow
        looped

end

/-- `from_elf` takes free frames only. -/
theorem NewFrames.fromElf {strampoline : Nat}
    (textEq : pageNum (physAddr strampoline) = .ok text)
    (kernel : ¬ before.allocator.Free text) {elf : ElfFile}
    {userStackBase entryPoint : Nat}
    (returned :
      fromElf before strampoline elf =
        .ok (set, userStackBase, entryPoint, after)) :
    NewFrames before set after := by
  obtain ⟨bare, between, mapped, mappedPhys, page, maxEndVpn, bareEq,
    mappedEq, pageEq, loadEq, _⟩ := fromElf_eq_ok returned
  obtain rfl := Except.ok.inj (textEq.symm.trans pageEq)
  obtain ⟨⟨_, copied⟩, _⟩ :=
    Copied.start (fun _ => none) textEq kernel bareEq mappedEq
  obtain ⟨pages, image⟩ := Image.start textEq kernel bareEq mappedEq
  have new : NewFrames before mapped mappedPhys :=
    ⟨copied.free, copied.tables, copied.frames⟩
  exact new.loadHeaders image loadEq

/-! ## The drop of the old address space -/

/-- Frames were given back, and all of them are frames of the memory set. -/
structure GaveBack (set : MemorySet) (phys after : KernelMemory) :
    Prop where
  memory_eq : after.memory = phys.memory
  free :
    ∀ ppn, after.allocator.Free ppn → phys.allocator.Free ppn ∨ set.Owns ppn

variable {ppn : Nat}

theorem GaveBack.frameDealloc (gave : GaveBack set phys after)
    (owns : set.Owns ppn) {last : KernelMemory}
    (returned : after.frameDealloc ppn = .ok last) :
    GaveBack set phys last := by
  obtain ⟨allocator, given, rest⟩ := bind_eq_ok.mp returned
  cases rest
  obtain ⟨_, _, _, freeIff⟩ := StackFrameAllocator.dealloc_spec given
  refine ⟨gave.memory_eq, ?_⟩
  intro other isFree
  rcases (freeIff other).mp isFree with wasFree | rfl
  · exact gave.free other wasFree
  · exact .inr owns

/-- The drop gives back frames of the memory set only. -/
theorem drop_gaveBack (returned : set.drop phys = .ok after) :
    GaveBack set phys after := by
  obtain ⟨between, tablesEq, areasEq⟩ := bind_eq_ok.mp returned
  have tables : GaveBack set phys between := by
    apply foldlM_keeps _ _ tablesEq
    · intro frame member state next gave stepped
      exact gave.frameDealloc (.inl member) stepped
    · exact ⟨rfl, fun _ => .inl⟩
  apply foldlM_keeps _ tables areasEq
  intro area member state next gave dropped
  apply foldlM_keeps _ gave dropped
  intro entry entryMember state next gave stepped
  apply gave.frameDealloc _ stepped
  exact .inr ⟨area, member, entry.1, AList.mem_lookup_iff.mpr entryMember⟩

section

variable (represents : Represents text set.areas set.pageTable phys pages)

include represents

/-- The page of a frame of an area. -/
theorem Represents.area_page {area : MapArea} (member : area ∈ set.areas)
    {vpn : Nat} (found : area.dataFrames.lookup vpn = some ppn) :
    area.vpnRange.Contains vpn ∧
      pages vpn = some (ppn, area.mapPerm.bits) := by
  have holds := represents.holds area member
  by_cases contains : area.vpnRange.Contains vpn
  · obtain ⟨frame, frameFound, present⟩ := holds.page vpn contains
    rw [found] at frameFound
    cases frameFound
    exact ⟨contains, present⟩
  · rw [holds.lookup_none vpn contains] at found
    cases found

theorem Represents.owns_inUse (owns : set.Owns ppn) :
    ¬ phys.allocator.Free ppn := by
  rcases owns with isTable | ⟨area, member, vpn, found⟩
  · exact represents.backs.shaped.inUse ppn isTable
  · exact represents.backs.inUse (represents.area_page member found).2

/-- The page of the trampoline is not a frame of the memory set. -/
theorem Represents.not_owns_text :
    ¬ set.Owns text := by
  have backs := represents.backs
  rintro (isTable | ⟨area, member, vpn, found⟩)
  · exact backs.notTable represents.trampoline_page isTable
  · obtain ⟨contains, present⟩ := represents.area_page member found
    rw [backs.injective present represents.trampoline_page rfl] at contains
    exact represents.noTrampoline area member contains

end

/-- An address space of new frames does not notice the drop of an old one. -/
theorem Image.drop_old (image : Image text set phys pages content)
    (new : NewFrames before set phys) {old : MemorySet}
    (valid : Valid text old before) (returned : old.drop phys = .ok after) :
    Image text set after pages content := by
  have gave := drop_gaveBack returned
  obtain ⟨oldPages, oldRepresents⟩ := valid
  have newOwns (ppn : Nat) (owns : set.Owns ppn) :
      before.allocator.Free ppn := by
    rcases owns with isTable | ⟨area, member, vpn, found⟩
    · exact new.tables ppn isTable
    · exact new.frames area member vpn ppn found
  have represents :
      Represents text set.areas set.pageTable after pages := by
    apply image.represents.others
    · intro ppn _
      rw [gave.memory_eq]
    · intro ppn uses isFree
      have split : set.Owns ppn ∨ ppn = text := by
        rcases uses with isTable | isText | inArea
        · exact .inl (.inl isTable)
        · exact .inr isText
        · exact .inl (.inr inArea)
      rcases split with owns | rfl
      · rcases gave.free ppn isFree with wasFree | oldOwns
        · exact image.represents.owns_inUse owns wasFree
        · exact oldRepresents.owns_inUse oldOwns (newOwns ppn owns)
      · rcases gave.free ppn isFree with wasFree | oldOwns
        · exact image.represents.backs.inUse
            image.represents.trampoline_page wasFree
        · exact oldRepresents.not_owns_text oldOwns
  refine ⟨represents, ?_, image.unmapped⟩
  intro vpn page present notTrampoline index inside
  rw [gave.memory_eq]
  exact image.bytes vpn page present notTrampoline index inside

/-! ## The areas of the main thread -/

/-- A framed area is added behind the others, and its bytes are zero. -/
theorem Image.insertFramedArea (image : Image text set phys pages content)
    {startVa endVa : Nat} {permission : MapPermission} (endLt : endVa < 2 ^ 39)
    (returned :
      set.insertFramedArea phys startVa endVa permission = .ok (next, after)) :
    ∃ result added,
      next.areas = set.areas ++ [result] ∧
        result.vpnRange.l = floor startVa ∧
        result.vpnRange.r = ceil endVa ∧
        floor startVa ≤ ceil endVa ∧
        Image text next after added content := by
  obtain ⟨area, made, pushed⟩ := bind_eq_ok.mp returned
  obtain ⟨⟨result, table, mapped⟩, mapEq, rest⟩ := bind_eq_ok.mp pushed
  cases rest
  obtain ⟨range, rangeEq, built⟩ := bind_eq_ok.mp made
  cases built
  obtain ⟨le, startEq, endEq⟩ := VPNRange.new_eq_ok rangeEq
  have r_le : range.r ≤ 2 ^ 27 := by
    rw [endEq]
    exact ceil_le endLt
  obtain ⟨shapeEq, added, imageNow⟩ := image.map rfl r_le (fun _ => rfl) mapEq
  have rangeIs : result.vpnRange = range := (Prod.mk.inj shapeEq).1
  refine ⟨result, added, rfl, ?_, ?_, le, imageNow⟩
  · rw [rangeIs, startEq]
  · rw [rangeIs, endEq]

end MemorySet

/-- The stack of a process that `alloc_user_res` could map. -/
theorem ustack_range {bottom : Nat} (aligned : bottom % pageSize = 0)
    (small : bottom < 2 ^ 64)
    (le :
      floor (virtAddr bottom) ≤
        ceil (virtAddr ((bottom + userStackSize) % 2 ^ 64))) :
    bottom + userStackSize < 2 ^ 64 ∧
      virtAddr bottom + userStackSize < 2 ^ 39 ∧
      ceil (virtAddr ((bottom + userStackSize) % 2 ^ 64)) =
        floor (virtAddr bottom) + 2 := by
  have sizeEq : userStackSize = 8192 := rfl
  have pageEq : pageSize = 4096 := rfl
  have topEq :
      virtAddr ((bottom + userStackSize) % 2 ^ 64) =
        (virtAddr bottom + userStackSize) % 2 ^ 39 := by
    rw [virtAddr_eq_mod, virtAddr_eq_mod]
    omega
  have bottomLt := virtAddr_lt bottom
  have bottomAligned : virtAddr bottom % 4096 = 0 := by
    rw [pageEq] at aligned
    rw [virtAddr_eq_mod]
    omega
  have inside : virtAddr bottom + userStackSize < 2 ^ 39 := by
    by_contra outside
    rw [topEq, ceil, floor, pageEq] at le
    omega
  refine ⟨?_, inside, ?_⟩
  · rw [virtAddr_eq_mod] at inside
    omega
  · rw [topEq, Nat.mod_eq_of_lt inside, ceil, floor, pageEq]
    omega

namespace ThreadAreas

open MemorySet

variable {text : Nat} {state after : ThreadAreas} {pages : Pages}
  {content : Nat → UInt8}

variable {trapCxPpn : Nat}

/-- `alloc_user_res` for the main thread of a program. -/
theorem allocUserRes_ready
    (image : Image text state.memorySet state.phys pages content)
    (aligned : state.ustackBase % pageSize = 0)
    (small : state.ustackBase < 2 ^ 64)
    (returned : state.allocUserRes 0 = .ok after)
    (found : after.trapCxPpn 0 = .ok trapCxPpn) :
    ∃ added, after.Ready text trapCxPpn added content := by
  have bottomEq :
      ustackBottomFromTid state.ustackBase 0 = state.ustackBase := by
    rw [ustackBottomFromTid, Nat.zero_mul, Nat.add_zero,
      Nat.mod_eq_of_lt small]
  rw [allocUserRes, bottomEq] at returned
  obtain ⟨⟨withStack, stackPhys⟩, stackEq, rest⟩ := bind_eq_ok.mp returned
  obtain ⟨⟨withTrap, trapPhys⟩, trapEq, rest⟩ := bind_eq_ok.mp rest
  cases rest
  obtain ⟨stackArea, stackPages, stackAreas, stackStart, stackEnd, le,
      imageStack⟩ :=
    image.insertFramedArea (virtAddr_lt _) stackEq
  obtain ⟨trapArea, trapPages, trapAreas, trapStart, trapEnd, _, imageTrap⟩ :=
    imageStack.insertFramedArea (virtAddr_lt _) trapEq
  obtain ⟨topLt, insideLt, topEq⟩ := ustack_range aligned small le
  obtain ⟨trapFirst, trapLast, trapNum⟩ :=
    ThreadAreas.trapCx_pages (Nat.two_pow_pos 15 : 0 < 2 ^ 15)
  have represents := imageTrap.represents
  have sizeEq : userStackSize = 8192 := rfl
  have pageEq : pageSize = 4096 := rfl
  have stackMember : stackArea ∈ withTrap.areas := by
    rw [trapAreas, stackAreas]
    simp
  have trapMember : trapArea ∈ withTrap.areas := by
    rw [trapAreas]
    simp
  have apart : MapArea.Apart stackArea trapArea := by
    have pairwise := represents.apart
    rw [trapAreas] at pairwise
    apply (pairwise_append.mp pairwise).2.2
    · rw [stackAreas]
      simp
    · simp
  have trapContains : trapArea.vpnRange.Contains (2 ^ 27 - 2) := by
    rw [VPNRange.Contains, trapStart, trapEnd, trapFirst, trapLast]
    decide
  have address (offset : Nat) (inside : offset < userStackSize) :
      virtAddr (state.ustackBase + offset) =
        virtAddr state.ustackBase + offset := by
    rw [virtAddr_eq_mod, virtAddr_eq_mod]
    rw [virtAddr_eq_mod] at insideLt
    omega
  have stackContains (offset : Nat) (inside : offset < userStackSize) :
      stackArea.vpnRange.Contains
        (floor (virtAddr (state.ustackBase + offset))) := by
    have bottomAligned : virtAddr state.ustackBase % 4096 = 0 := by
      rw [pageEq] at aligned
      rw [virtAddr_eq_mod]
      omega
    rw [VPNRange.Contains, stackStart, stackEnd, topEq, address offset inside,
      floor, floor, pageEq]
    omega
  refine ⟨trapPages, imageTrap, ⟨aligned, topLt, address, ?_⟩, ?_, ?_⟩
  · intro offset inside
    have contains := stackContains offset inside
    obtain ⟨frame, _, present⟩ :=
      (represents.holds stackArea stackMember).page _ contains
    refine ⟨_, present, ?_⟩
    intro isTrampoline
    rw [isTrampoline] at contains
    exact represents.noTrampoline stackArea stackMember contains
  · obtain ⟨frame, _, present⟩ :=
      (represents.holds trapArea trapMember).page _ trapContains
    obtain ⟨entry, translated, _, ppnEq, _⟩ :=
      represents.backs.translate present
    obtain ⟨vpn, vpnEq, translatedEq⟩ := bind_eq_ok.mp found
    have vpnIs : vpn = 2 ^ 27 - 2 := by
      rw [trapNum] at vpnEq
      exact (Except.ok.inj vpnEq).symm
    rw [vpnIs, translated] at translatedEq
    have framePpn : entry.ppn = trapCxPpn := Except.ok.inj translatedEq
    rw [← framePpn, ppnEq]
    exact ⟨_, present⟩
  · intro offset inside isTrap
    have contains := stackContains offset inside
    rw [isTrap] at contains
    exact apart _ ⟨contains, trapContains⟩

/-- The first half of `exec` makes an address space for the arguments. -/
theorem execLoad_ready {strampoline : Nat} {elf : ElfFile}
    (valid : Valid text state.memorySet state.phys)
    (textEq : pageNum (physAddr strampoline) = .ok text) {entryPoint : Nat}
    (returned :
      state.execLoad 1 strampoline elf = .ok (after, entryPoint, trapCxPpn)) :
    ∃ pages content, after.Ready text trapCxPpn pages content := by
  rw [execLoad, if_pos rfl] at returned
  obtain ⟨⟨set, base, entry, phys⟩, elfEq, rest⟩ := bind_eq_ok.mp returned
  obtain ⟨dropped, dropEq, rest⟩ := bind_eq_ok.mp rest
  obtain ⟨ready, allocEq, rest⟩ := bind_eq_ok.mp rest
  obtain ⟨ppn, ppnEq, rest⟩ := bind_eq_ok.mp rest
  cases rest
  have kernel : ¬ state.phys.allocator.Free text := by
    obtain ⟨pages, represents⟩ := valid
    exact represents.backs.inUse represents.trampoline_page
  obtain ⟨⟨pages, image⟩, _⟩ := Image.fromElf textEq kernel elfEq
  have new := NewFrames.fromElf textEq kernel elfEq
  have imageDropped := image.drop_old new valid dropEq
  obtain ⟨aligned, small, _⟩ :=
    stackBase_page elf.lastEnd_le (fromElf_ends elfEq).2
  obtain ⟨added, isReady⟩ :=
    allocUserRes_ready imageDropped aligned small allocEq ppnEq
  exact ⟨added, elf.placed, isReady⟩

/--
Arguments that fit on the stack are laid out: once the new address space is
made, `exec` returns, and the new program finds `argv` and all its strings.
-/
theorem exec_lays_out_argv
    (state loaded : ThreadAreas) (strampoline text : Nat)
    (textEq : pageNum (physAddr strampoline) = .ok text)
    (valid : Valid text state.memorySet state.phys)
    (elf : ElfFile) (entryPoint trapCxPpn : Nat)
    (loadedEq :
      state.execLoad 1 strampoline elf = .ok (loaded, entryPoint, trapCxPpn))
    (kernel : KernelContext) (args : List (List UInt8))
    (fits :
      (args.length + 1) * 8 + (args.map fun arg => arg.length + 1).sum ≤
        userStackSize) :
    ∃ after argvBase sp pointer,
      state.exec 1 strampoline kernel elf args = .ok after ∧
        after.ArgvLayout args argvBase sp pointer := by
  obtain ⟨pages, content, ready⟩ := execLoad_ready valid textEq loadedEq
  obtain ⟨after, argvBase, sp, pointer, returned, _, layout⟩ :=
    ready.execArgs entryPoint kernel fits
  refine ⟨after, argvBase, sp, pointer, ?_, layout⟩
  apply bind_eq_ok.mpr
  refine ⟨_, loadedEq, bind_eq_ok.mpr ⟨text, textEq, ?_⟩⟩
  exact returned

/-- A program without segments. -/
def bareElf : ElfFile := ⟨[], [0x7f, 0x45, 0x4c, 0x46], 0x1000, []⟩

/-- The arguments `sh` and `-c`. -/
theorem exec_lays_out_argv_two :
    ∃ (state after : ThreadAreas) (argvBase sp : Nat) (pointer : Nat → Nat),
      state.exec 1 0x80201000 ⟨0, 0, 0, 0⟩ bareElf
          [[0x73, 0x68], [0x2d, 0x63]] = .ok after ∧
        after.ArgvLayout [[0x73, 0x68], [0x2d, 0x63]] argvBase sp
          pointer := by
  obtain ⟨set, phys, made, loaded, entryPoint, trapCxPpn, loadedEq⟩ :
      ∃ set phys, oneThreadSpace = .ok (set, phys) ∧
        ∃ loaded entryPoint trapCxPpn,
          ThreadAreas.execLoad ⟨set, phys, .new, 0x13000, [0]⟩ 1 0x80201000
              bareElf =
            .ok (loaded, entryPoint, trapCxPpn) :=
    ⟨_, _, rfl, _, _, _, rfl⟩
  have valid := (oneThreadSpace_reached made).valid
  exact ⟨_, exec_lays_out_argv _ loaded 0x80201000 0x80201 rfl valid bareElf
    entryPoint trapCxPpn loadedEq ⟨0, 0, 0, 0⟩
    [[0x73, 0x68], [0x2d, 0x63]] (by decide)⟩

end ThreadAreas

end RCoreOS.Kernel
