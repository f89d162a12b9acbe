import RCoreOS.Kernel.PageTable

/-!
# A page table is a finite map

`map` and `unmap` change the translation of one page and of no other.  The
tables stay a tree: a table that `find_pte_create` adds is a frame that was
free, hence not a table yet.

A run is any sequence of calls.  Between two calls the rest of the kernel may
use the allocator and write to any frame that is not a table.
-/

namespace RCoreOS.Kernel

open Lib.FallibleRuns Lib.RadixTree FrameAllocator PageTableEntry

/-- The indices of the two inner tables. -/
def upper (vpn : Nat) : List (Fin 512) :=
  [Fin.ofNat 512 ((vpn >>> 9 >>> 9) &&& 511),
    Fin.ofNat 512 ((vpn >>> 9) &&& 511)]

/-- The index in the last table. -/
def lower (vpn : Nat) : Fin 512 := Fin.ofNat 512 (vpn &&& 511)

theorem indexes_eq (vpn : Nat) : indexes vpn = upper vpn ++ [lower vpn] := rfl

/-- Page numbers of 27 bits are given by their indices. -/
theorem indexes_injective {first second : Nat}
    (firstLt : first < 2 ^ 27) (secondLt : second < 2 ^ 27)
    (sameUpper : upper first = upper second)
    (sameLower : lower first = lower second) : first = second := by
  obtain ⟨top, rest⟩ := List.cons.inj sameUpper
  obtain ⟨middle, _⟩ := List.cons.inj rest
  have topEq := congrArg Fin.val top
  have middleEq := congrArg Fin.val middle
  have lowerEq := congrArg Fin.val sameLower
  simp only [lower, Fin.ofNat, Nat.shiftRight_eq_div_pow,
    show (511 : Nat) = 2 ^ 9 - 1 from rfl,
    Nat.and_two_pow_sub_one_eq_mod] at topEq middleEq lowerEq
  omega

namespace PageTable

/-! ## Calls -/

inductive Call where
  | map (vpn ppn : Nat) (flags : PTEFlags)
  | unmap (vpn : Nat)

/-- The page that a call is about. -/
def Call.vpn : Call → Nat
  | .map vpn _ _ => vpn
  | .unmap vpn => vpn

/-- The last call that was about a page. -/
def lastCall (calls : List Call) (vpn : Nat) : Option Call :=
  (calls.filter fun call => call.vpn = vpn).getLast?

/-- What a call leaves at its page. -/
def Call.entry : Call → Option PageTableEntry
  | .map _ ppn flags => some (.new ppn (flags ||| PTEFlags.v))
  | .unmap _ => none

variable {calls : List Call} {call : Call} {vpn : Nat}

theorem lastCall_concat_self (same : call.vpn = vpn) :
    lastCall (calls ++ [call]) vpn = some call := by
  simp [lastCall, same]

theorem lastCall_concat_of_ne (different : vpn ≠ call.vpn) :
    lastCall (calls ++ [call]) vpn = lastCall calls vpn := by
  simp [lastCall, Ne.symm different]

theorem lastCall_vpn (last : lastCall calls vpn = some call) :
    call.vpn = vpn := by
  have member := List.mem_of_getLast? last
  simpa using (List.mem_filter.mp member).2

/-! ## Translations -/

/-- The table walk of this page table. -/
abbrev tableAt (self : PageTable) (memory : Nat → Fin 512 → PageTableEntry)
    (path : List (Fin 512)) : Option Nat :=
  walk PageTableEntry.child memory self.rootPpn path

/-- A turn of the loop of `find_pte` before the last one. -/
theorem findPteFrom_cons {memory : Nat → Fin 512 → PageTableEntry}
    {i ppn : Nat} {idx : Fin 512} {rest : List (Fin 512)} (inner : i ≠ 2) :
    findPteFrom memory i ppn (idx :: rest) =
      (memory ppn idx).child.bind fun next =>
        findPteFrom memory (i + 1) next rest := by
  rw [findPteFrom, if_neg inner, PageTableEntry.child]
  split <;> rfl

theorem findPte_eq (self : PageTable)
    (memory : Nat → Fin 512 → PageTableEntry) (vpn : Nat) :
    self.findPte memory vpn =
      (self.tableAt memory (upper vpn)).map fun table =>
        (table, lower vpn) := by
  rw [findPte, indexes, findPteFrom_cons (by decide), tableAt, upper, walk,
    Option.map_bind]
  congr 1
  funext middle
  rw [findPteFrom_cons (by decide), Function.comp_apply, walk, Option.map_bind]
  congr 1

theorem translate_eq (self : PageTable)
    (memory : Nat → Fin 512 → PageTableEntry) (vpn : Nat) :
    self.translate memory vpn =
      lookup PageTableEntry.child memory self.rootPpn (upper vpn)
        (lower vpn) := by
  rw [translate, findPte_eq, lookup, Option.map_map]
  rfl

/-- The entry that maps the page, if there is a valid one. -/
def mapping (self : PageTable) (memory : Nat → Fin 512 → PageTableEntry)
    (vpn : Nat) : Option PageTableEntry :=
  (self.translate memory vpn).filter PageTableEntry.isValid

/-- A translation is kept, or there is now an entry that is empty. -/
def SameTranslation (before after : Option PageTableEntry) : Prop :=
  after = before ∨ (before = none ∧ after = some .empty)

variable {before after : Option PageTableEntry}

theorem SameTranslation.filter_eq (same : SameTranslation before after) :
    after.filter PageTableEntry.isValid =
      before.filter PageTableEntry.isValid := by
  rcases same with rfl | ⟨rfl, rfl⟩
  · rfl
  · rfl

theorem SameTranslation.trans {between : Option PageTableEntry}
    (first : SameTranslation before between)
    (second : SameTranslation between after) :
    SameTranslation before after := by
  rcases second with rfl | ⟨rfl, rfl⟩
  · exact first
  · rcases first with rfl | ⟨_, impossible⟩
    · exact .inr ⟨rfl, rfl⟩
    · cases impossible

variable {σ : Type} [FrameAllocator σ]

/-- The tables are a tree and none of them is free. -/
structure Shaped (table : PageTable) (phys : Phys σ) : Prop where
  tree :
    Tree PageTableEntry.child phys.memory table.rootPpn 2
      {ppn | ppn ∈ table.frames}
  inUse : ∀ ppn ∈ table.frames, ¬ Free phys.allocator ppn
  root_lt : table.rootPpn < 2 ^ 44

/-- A page table after tables were added to it. -/
structure Extends (before : PageTable) (beforePhys : Phys σ)
    (table : PageTable) (phys : Phys σ) : Prop where
  root_eq : table.rootPpn = before.rootPpn
  frames_eq :
    ∃ added, table.frames = before.frames ++ added ∧
      ∀ ppn ∈ added, Free beforePhys.allocator ppn
  free :
    ∀ ppn, Free phys.allocator ppn → Free beforePhys.allocator ppn
  same :
    ∀ vpn,
      SameTranslation (before.translate beforePhys.memory vpn)
        (table.translate phys.memory vpn)

variable {table after : PageTable} {phys afterPhys : Phys σ} {vpn : Nat}

theorem Extends.refl (table : PageTable) (phys : Phys σ) :
    Extends table phys table phys where
  root_eq := rfl
  frames_eq := ⟨[], (List.append_nil _).symm, List.forall_mem_nil _⟩
  free _ := id
  same _ := .inl rfl

theorem Extends.trans {last : PageTable} {lastPhys : Phys σ}
    (first : Extends table phys after afterPhys)
    (second : Extends after afterPhys last lastPhys) :
    Extends table phys last lastPhys where
  root_eq := second.root_eq.trans first.root_eq
  frames_eq := by
    obtain ⟨firstAdded, firstEq, firstFree⟩ := first.frames_eq
    obtain ⟨secondAdded, secondEq, secondFree⟩ := second.frames_eq
    refine ⟨firstAdded ++ secondAdded, ?_, ?_⟩
    · rw [secondEq, firstEq, List.append_assoc]
    · intro ppn member
      rcases List.mem_append.mp member with member | member
      · exact firstFree ppn member
      · exact first.free ppn (secondFree ppn member)
  free ppn isFree := first.free ppn (second.free ppn isFree)
  same vpn := (first.same vpn).trans (second.same vpn)

variable {ppn : Nat} {memory : Nat → Fin 512 → PageTableEntry}

/-- The loop body of `find_pte_create` steps down one level of the tree. -/
theorem Shaped.descend (shaped : table.Shaped phys) {here : List (Fin 512)}
    {next : Nat} {idx : Fin 512} (above : here.length < 2)
    (walked : table.tableAt phys.memory here = some ppn)
    (returned :
      table.descend phys ppn idx = .ok (next, after, afterPhys)) :
    after.Shaped afterPhys ∧ Extends table phys after afterPhys ∧
      after.tableAt afterPhys.memory (here ++ [idx]) = some next := by
  rw [PageTable.descend] at returned
  split at returned
  · next valid =>
      cases returned
      refine ⟨shaped, .refl table phys, ?_⟩
      unfold tableAt at walked ⊢
      rw [walk_append, walked, Option.bind_some, walk, child_of_valid valid]
      rfl
  · next invalid =>
      have missing : (phys.memory ppn idx).child = none :=
        child_of_invalid (by simpa using invalid)
      obtain ⟨⟨frame, between⟩, frameEq, rest⟩ := bind_eq_ok.mp returned
      cases rest
      obtain ⟨allocated, memoryEq⟩ := Phys.frameAlloc_eq_ok frameEq
      obtain ⟨frameLt, wasFree, stillFree⟩ := alloc_free allocated
      have outside : frame ∉ {ppn | ppn ∈ table.frames} :=
        fun member => shaped.inUse frame member wasFree
      -- clearing the new frame changes no table
      have cleared :
          ∀ page ∈ {ppn | ppn ∈ table.frames},
            between.memory page = phys.memory page := by
        intro page member
        have different : page ≠ frame := by
          rintro rfl
          exact outside member
        rw [memoryEq, Function.update_of_ne different]
      have tree := shaped.tree.congr cleared
      have walkedThere :
          walk PageTableEntry.child between.memory table.rootPpn here =
            some ppn := by
        rw [shaped.tree.walk_congr cleared (by omega)]
        exact walked
      have missingThere : (between.memory ppn idx).child = none := by
        rw [cleared ppn (shaped.tree.mem_tables (by omega) walked)]
        exact missing
      have blankPage : ∀ index, between.memory frame index = .empty := by
        intro index
        rw [memoryEq, Function.update_self]
      have points := child_new frameLt
      refine ⟨⟨?_, ?_, shaped.root_lt⟩, ⟨rfl, ?_, ?_, ?_⟩, ?_⟩
      · refine (tree.link above walkedThere outside blankPage
          child_empty points).of_walk (fun _ _ => rfl) ?_
        rintro page (rfl | member)
        · exact List.mem_append_right _ (List.mem_singleton_self _)
        · exact List.mem_append_left _ member
      · intro page member isFree
        obtain ⟨freeBefore, different⟩ := stillFree page isFree
        rcases List.mem_append.mp member with member | member
        · exact shaped.inUse page member freeBefore
        · exact different (List.mem_singleton.mp member)
      · refine ⟨[frame], rfl, fun page member => ?_⟩
        rw [List.mem_singleton.mp member]
        exact wasFree
      · exact fun page isFree => (stillFree page isFree).1
      · intro vpn
        have bottom : (upper vpn).length = 2 := rfl
        rw [SameTranslation, translate_eq, translate_eq,
          ← shaped.tree.lookup_congr cleared (by omega)]
        exact tree.lookup_link above walkedThere missingThere outside
          blankPage child_empty points bottom
      · rw [setEntry_self, ppn_new frameLt]
        exact (tree.walk_link above walkedThere outside blankPage
          child_empty points []).trans (if_pos rfl)

/-- `find_pte_create` gives the place of the entry of the page. -/
theorem Shaped.findPteCreate (shaped : table.Shaped phys)
    {found : Option (Nat × Fin 512)}
    (returned :
      table.findPteCreate phys vpn = .ok (found, after, afterPhys)) :
    after.Shaped afterPhys ∧ Extends table phys after afterPhys ∧
      ∃ leaf, found = some (leaf, lower vpn) ∧
        after.tableAt afterPhys.memory (upper vpn) = some leaf := by
  rw [PageTable.findPteCreate, indexes, findPteCreateFrom,
    if_neg (by decide)] at returned
  obtain ⟨⟨middle, second, secondPhys⟩, firstEq, rest⟩ :=
    bind_eq_ok.mp returned
  dsimp only at rest
  rw [findPteCreateFrom, if_neg (by decide)] at rest
  obtain ⟨⟨leaf, third, thirdPhys⟩, secondEq, rest⟩ := bind_eq_ok.mp rest
  dsimp only at rest
  rw [findPteCreateFrom, if_pos rfl] at rest
  cases rest
  obtain ⟨secondShaped, firstExtends, firstWalk⟩ :=
    shaped.descend (by decide)
      (show table.tableAt phys.memory [] = some table.rootPpn from rfl)
      firstEq
  obtain ⟨thirdShaped, secondExtends, secondWalk⟩ :=
    secondShaped.descend (by simp) firstWalk secondEq
  exact ⟨thirdShaped, firstExtends.trans secondExtends, leaf, rfl, secondWalk⟩

/-! ## Specifications of the calls -/

theorem mapping_eq_none_iff :
    table.mapping memory vpn = none ↔
      ∀ entry, table.translate memory vpn = some entry →
        entry.isValid = false := by
  rw [mapping, Option.filter_eq_none_iff]
  simp

theorem mapping_eq_some_iff {entry : PageTableEntry} :
    table.mapping memory vpn = some entry ↔
      table.translate memory vpn = some entry ∧ entry.isValid = true := by
  rw [mapping, Option.filter_eq_some_iff]

variable {leaf : Nat} {flags : PTEFlags}

/-- A translation found at the leaf table is the entry there. -/
theorem translate_of_tableAt
    (walked : table.tableAt memory (upper vpn) = some leaf) :
    table.translate memory vpn = some (memory leaf (lower vpn)) := by
  rw [translate_eq, lookup]
  unfold tableAt at walked
  rw [walked]
  rfl

/-- Changing the leaf entry of a page changes the translation of that page. -/
theorem Shaped.setLeaf (shaped : table.Shaped phys)
    (entry : PageTableEntry)
    (walked : table.tableAt phys.memory (upper vpn) = some leaf) :
    let after := { phys with
      memory := setEntry phys.memory leaf (lower vpn) entry }
    table.Shaped after ∧
      table.translate after.memory vpn = some entry ∧
      (vpn < 2 ^ 27 → ∀ other < 2 ^ 27, other ≠ vpn →
        table.translate after.memory other =
          table.translate phys.memory other) := by
  refine ⟨⟨shaped.tree.setLeaf rfl walked, shaped.inUse, shaped.root_lt⟩,
    ?_, ?_⟩
  · rw [translate_eq]
    exact shaped.tree.lookup_setLeaf_self rfl walked
  · intro vpnLt other otherLt different
    rw [translate_eq, translate_eq]
    refine shaped.tree.lookup_setLeaf_of_ne rfl walked (Nat.le_refl 2) ?_
    by_cases sameUpper : upper other = upper vpn
    · right
      intro sameLower
      exact different (indexes_injective otherLt vpnLt sameUpper sameLower)
    · exact .inl sameUpper

/-- What a page table is after `map` returns. -/
structure Mapped (before : PageTable) (beforePhys : Phys σ)
    (table : PageTable) (phys : Phys σ) (vpn ppn : Nat) (flags : PTEFlags) :
    Prop where
  shaped : table.Shaped phys
  unmapped : before.mapping beforePhys.memory vpn = none
  frames_eq :
    ∃ added, table.frames = before.frames ++ added ∧
      ∀ ppn ∈ added, Free beforePhys.allocator ppn
  free :
    ∀ ppn, Free phys.allocator ppn → Free beforePhys.allocator ppn
  translate_self :
    table.translate phys.memory vpn = some (.new ppn (flags ||| PTEFlags.v))
  translate_other :
    ∀ other < 2 ^ 27, other ≠ vpn →
      SameTranslation (before.translate beforePhys.memory other)
        (table.translate phys.memory other)

theorem Shaped.map (shaped : table.Shaped phys)
    (vpnLt : vpn < 2 ^ 27)
    (returned : table.map phys vpn ppn flags = .ok (after, afterPhys)) :
    Mapped table phys after afterPhys vpn ppn flags := by
  obtain ⟨⟨found, between, betweenPhys⟩, foundEq, rest⟩ :=
    bind_eq_ok.mp returned
  obtain ⟨betweenShaped, grows, leaf, rfl, walked⟩ :=
    shaped.findPteCreate foundEq
  dsimp only at rest
  split at rest
  · cases rest
  · next invalid =>
      cases rest
      obtain ⟨afterShaped, self, others⟩ :=
        betweenShaped.setLeaf (.new ppn (flags ||| PTEFlags.v)) walked
      refine ⟨afterShaped, ?_, grows.frames_eq, grows.free, self, ?_⟩
      · rw [mapping, ← (grows.same vpn).filter_eq, ← mapping,
          mapping_eq_none_iff]
        intro entry entryEq
        rw [translate_of_tableAt walked] at entryEq
        cases entryEq
        simpa using invalid
      · intro other otherLt different
        rw [others vpnLt other otherLt different]
        exact grows.same other

/-- What a page table is after `unmap` returns. -/
structure Unmapped (table : PageTable) (before phys : Phys σ) (vpn : Nat) :
    Prop where
  shaped : table.Shaped phys
  mapped : table.mapping before.memory vpn ≠ none
  allocator_eq : phys.allocator = before.allocator
  translate_self : table.translate phys.memory vpn = some .empty
  translate_other :
    ∀ other < 2 ^ 27, other ≠ vpn →
      table.translate phys.memory other = table.translate before.memory other

theorem Shaped.unmap (shaped : table.Shaped phys) (vpnLt : vpn < 2 ^ 27)
    (returned : table.unmap phys vpn = .ok afterPhys) :
    Unmapped table phys afterPhys vpn := by
  rw [PageTable.unmap, findPte_eq] at returned
  cases walked : table.tableAt phys.memory (upper vpn) with
  | none =>
    rw [walked] at returned
    cases returned
  | some leaf =>
    rw [walked] at returned
    dsimp only [Option.map_some] at returned
    split at returned
    · next valid =>
        cases returned
        obtain ⟨afterShaped, self, others⟩ := shaped.setLeaf .empty walked
        refine ⟨afterShaped, ?_, rfl, self, others vpnLt⟩
        intro unmapped
        rw [mapping_eq_none_iff.mp unmapped _ (translate_of_tableAt walked)] at valid
        cases valid
    · cases returned

/-- The allocator has the two frames that one `map` can need. -/
def Enough (allocator : σ) : Prop :=
  ∃ first second, alloc allocator = some first ∧ alloc first.2 = some second

/-- With a free frame the loop body returns, and takes at most that frame. -/
theorem descend_returns (table : PageTable) (ppn : Nat) (idx : Fin 512)
    {result : Nat × σ} (allocated : alloc phys.allocator = some result) :
    ∃ next after afterPhys,
      table.descend phys ppn idx = .ok (next, after, afterPhys) ∧
        (afterPhys.allocator = phys.allocator ∨
          afterPhys.allocator = result.2) := by
  rw [descend]
  split
  · exact ⟨_, _, _, rfl, .inl rfl⟩
  · rw [Phys.frameAlloc, allocated]
    exact ⟨_, _, _, rfl, .inr rfl⟩

theorem findPteCreate_returns (table : PageTable) (vpn : Nat)
    (enough : Enough phys.allocator) :
    ∃ result, table.findPteCreate phys vpn = .ok result := by
  obtain ⟨first, second, firstEq, secondEq⟩ := enough
  rw [findPteCreate, indexes, findPteCreateFrom, if_neg (by decide)]
  obtain ⟨middle, between, betweenPhys, descendEq, allocatorEq⟩ :=
    descend_returns table table.rootPpn
      (Fin.ofNat 512 ((vpn >>> 9 >>> 9) &&& 511)) firstEq
  have more : ∃ result, alloc betweenPhys.allocator = some result := by
    rcases allocatorEq with same | taken
    · exact ⟨first, same ▸ firstEq⟩
    · exact ⟨second, taken ▸ secondEq⟩
  obtain ⟨result, resultEq⟩ := more
  obtain ⟨leaf, last, lastPhys, lastEq, _⟩ :=
    descend_returns between middle
      (Fin.ofNat 512 ((vpn >>> 9) &&& 511)) resultEq
  refine ⟨(some (leaf, lower vpn), last, lastPhys), ?_⟩
  refine bind_eq_ok.mpr ⟨_, descendEq, ?_⟩
  dsimp only
  rw [findPteCreateFrom, if_neg (by decide)]
  refine bind_eq_ok.mpr ⟨_, lastEq, ?_⟩
  rfl

/-- With enough frames `map` panics exactly when the page is mapped. -/
theorem Shaped.map_panics_iff (shaped : table.Shaped phys)
    (enough : Enough phys.allocator) :
    table.map phys vpn ppn flags = .error .panicked ↔
      table.mapping phys.memory vpn ≠ none := by
  obtain ⟨⟨found, between, betweenPhys⟩, foundEq⟩ :=
    findPteCreate_returns table vpn enough
  obtain ⟨_, grows, leaf, rfl, walked⟩ := shaped.findPteCreate foundEq
  have same :
      table.mapping phys.memory vpn = between.mapping betweenPhys.memory vpn :=
    (grows.same vpn).filter_eq.symm
  rw [PageTable.map, foundEq, same, mapping, translate_of_tableAt walked]
  change (if _ then _ else _) = _ ↔ _
  by_cases valid : (betweenPhys.memory leaf (lower vpn)).isValid = true
  · rw [if_pos valid, Option.filter_some, if_pos valid]
    exact ⟨fun _ => nofun, fun _ => rfl⟩
  · rw [if_neg valid, Option.filter_some, if_neg valid]
    exact ⟨nofun, fun mapped => absurd rfl mapped⟩

omit [FrameAllocator σ] in
theorem unmap_panics_iff :
    table.unmap phys vpn = .error .panicked ↔
      table.mapping phys.memory vpn = none := by
  rw [unmap, mapping, translate, findPte_eq]
  cases table.tableAt phys.memory (upper vpn) with
  | none => exact ⟨fun _ => rfl, fun _ => rfl⟩
  | some leaf =>
    rw [Option.map_some, Option.map_some, Option.filter_some]
    change (if _ then _ else _) = _ ↔ _
    split
    · constructor
      · intro panics
        cases panics
      · intro unmapped
        cases unmapped
    · exact ⟨fun _ => rfl, fun _ => rfl⟩

theorem Shaped.new {before : Phys σ}
    (returned : PageTable.new before = .ok (table, phys)) :
    table.Shaped phys ∧ ∀ vpn, table.mapping phys.memory vpn = none := by
  obtain ⟨⟨frame, between⟩, frameEq, rest⟩ := bind_eq_ok.mp returned
  cases rest
  obtain ⟨allocated, memoryEq⟩ := Phys.frameAlloc_eq_ok frameEq
  obtain ⟨frameLt, _, stillFree⟩ := alloc_free allocated
  have childless : ∀ index, (phys.memory frame index).child = none := by
    intro index
    rw [memoryEq, Function.update_self]
    exact child_empty
  refine ⟨⟨?_, ?_, frameLt⟩, fun vpn => ?_⟩
  · refine (Tree.single childless).of_walk (fun _ _ => rfl) ?_
    rintro page rfl
    exact List.mem_singleton_self _
  · intro ppn member isFree
    exact (stillFree ppn isFree).2 (List.mem_singleton.mp member)
  · rw [mapping, translate_eq, lookup, upper, walk, childless]
    rfl

/-- Frames that are not tables may change, and the allocator may be used. -/
theorem Shaped.others (shaped : table.Shaped phys)
    (kept :
      ∀ ppn ∈ table.frames, afterPhys.memory ppn = phys.memory ppn)
    (inUse : ∀ ppn ∈ table.frames, ¬ Free afterPhys.allocator ppn) :
    table.Shaped afterPhys ∧
      ∀ vpn, table.translate afterPhys.memory vpn =
        table.translate phys.memory vpn := by
  refine ⟨⟨shaped.tree.congr kept, inUse, shaped.root_lt⟩, fun vpn => ?_⟩
  rw [translate_eq, translate_eq]
  exact shaped.tree.lookup_congr kept (Nat.le_refl 2)

theorem fromToken_token (rootLt : table.rootPpn < 2 ^ 44) :
    (fromToken table.token).rootPpn = table.rootPpn := by
  change ((8 <<< 60) ||| table.rootPpn) &&& (2 ^ 44 - 1) = _
  rw [Nat.and_two_pow_sub_one_eq_mod,
    ← Nat.shiftLeft_add_eq_or_of_lt (by omega)]
  omega

/-! ## Runs -/

/--
The page tables that a sequence of calls can lead to.  Between the calls other
parts of the kernel use the allocator and the frames that are not tables.
-/
inductive Reached : List Call → PageTable → Phys σ → Prop where
  | new {before phys : Phys σ} {table : PageTable}
      (returned : PageTable.new before = .ok (table, phys)) :
      Reached [] table phys
  | map {calls : List Call} {table after : PageTable}
      {phys afterPhys : Phys σ} {vpn ppn : Nat} {flags : PTEFlags}
      (reached : Reached calls table phys)
      (vpnLt : vpn < 2 ^ 27) (ppnLt : ppn < 2 ^ 44)
      (returned : table.map phys vpn ppn flags = .ok (after, afterPhys)) :
      Reached (calls ++ [.map vpn ppn flags]) after afterPhys
  | unmap {calls : List Call} {table : PageTable} {phys afterPhys : Phys σ}
      {vpn : Nat}
      (reached : Reached calls table phys) (vpnLt : vpn < 2 ^ 27)
      (returned : table.unmap phys vpn = .ok afterPhys) :
      Reached (calls ++ [.unmap vpn]) table afterPhys
  | others {calls : List Call} {table : PageTable} {phys afterPhys : Phys σ}
      (reached : Reached calls table phys)
      (kept :
        ∀ ppn ∈ table.frames, afterPhys.memory ppn = phys.memory ppn)
      (inUse : ∀ ppn ∈ table.frames, ¬ Free afterPhys.allocator ppn) :
      Reached calls table afterPhys

variable {calls : List Call}

theorem Reached.mapping_eq (reached : Reached calls table phys) :
    table.Shaped phys ∧
      ∀ vpn < 2 ^ 27,
        table.mapping phys.memory vpn =
          (lastCall calls vpn).bind Call.entry := by
  induction reached with
  | new returned =>
    obtain ⟨shaped, nothing⟩ := Shaped.new returned
    exact ⟨shaped, fun vpn _ => nothing vpn⟩
  | @map calls _ after _ afterPhys vpn ppn flags _ vpnLt ppnLt returned
      induction =>
      obtain ⟨shaped, mappings⟩ := induction
      have mapped := shaped.map vpnLt returned
      refine ⟨mapped.shaped, fun other otherLt => ?_⟩
      by_cases same : other = vpn
      · subst same
        have last :
            lastCall (calls ++ [.map other ppn flags]) other =
              some (.map other ppn flags) :=
          lastCall_concat_self rfl
        rw [last]
        exact mapping_eq_some_iff.mpr
          ⟨mapped.translate_self, isValid_new ppnLt⟩
      · rw [lastCall_concat_of_ne same, ← mappings other otherLt]
        exact (mapped.translate_other other otherLt same).filter_eq
  | @unmap calls table _ afterPhys vpn _ vpnLt returned induction =>
    obtain ⟨shaped, mappings⟩ := induction
    have unmapped := shaped.unmap vpnLt returned
    refine ⟨unmapped.shaped, fun other otherLt => ?_⟩
    by_cases same : other = vpn
    · subst same
      have last :
          lastCall (calls ++ [.unmap other]) other = some (.unmap other) :=
        lastCall_concat_self rfl
      rw [last, mapping, unmapped.translate_self]
      rfl
    · rw [lastCall_concat_of_ne same, ← mappings other otherLt, mapping,
        unmapped.translate_other other otherLt same, ← mapping]
  | others _ kept inUse induction =>
    obtain ⟨shaped, mappings⟩ := induction
    obtain ⟨stillShaped, same⟩ := shaped.others kept inUse
    refine ⟨stillShaped, fun vpn vpnLt => ?_⟩
    rw [mapping, same, ← mapping, mappings vpn vpnLt]

theorem Reached.ppn_lt (reached : Reached calls table phys)
    {flags : PTEFlags}
    (last : lastCall calls vpn = some (.map vpn ppn flags)) :
    ppn < 2 ^ 44 := by
  have member : .map vpn ppn flags ∈ calls :=
    List.mem_of_mem_filter (List.mem_of_getLast? last)
  clear last
  induction reached with
  | new _ => cases member
  | map _ _ ppnLt _ induction =>
    rcases List.mem_append.mp member with earlier | last
    · exact induction earlier
    · cases List.mem_singleton.mp last
      exact ppnLt
  | unmap _ _ _ induction =>
    rcases List.mem_append.mp member with earlier | last
    · exact induction earlier
    · cases List.mem_singleton.mp last
  | others _ _ _ induction => exact induction member

/-- The page table is the finite map that the calls describe. -/
structure FiniteMap (calls : List Call) (table : PageTable) (phys : Phys σ) :
    Prop where
  valid_iff :
    ∀ vpn < 2 ^ 27,
      (∃ entry, table.translate phys.memory vpn = some entry ∧
          entry.isValid = true) ↔
        ∃ ppn flags, lastCall calls vpn = some (.map vpn ppn flags)
  entry_eq :
    ∀ vpn < 2 ^ 27, ∀ ppn flags,
      lastCall calls vpn = some (.map vpn ppn flags) →
        ∃ entry, table.translate phys.memory vpn = some entry ∧
          entry.ppn = ppn ∧ entry.flags = flags ||| PTEFlags.v
  map_panics :
    ∀ vpn < 2 ^ 27, ∀ ppn < 2 ^ 44, ∀ flags, Enough phys.allocator →
      (table.map phys vpn ppn flags = .error .panicked ↔
        ∃ entry, table.translate phys.memory vpn = some entry ∧
          entry.isValid = true)
  unmap_panics :
    ∀ vpn < 2 ^ 27,
      (table.unmap phys vpn = .error .panicked ↔
        ¬ ∃ entry, table.translate phys.memory vpn = some entry ∧
          entry.isValid = true)
  -- where there was no entry, a new table may bring an empty one
  map_other :
    ∀ vpn < 2 ^ 27, ∀ ppn < 2 ^ 44, ∀ flags after afterPhys,
      table.map phys vpn ppn flags = .ok (after, afterPhys) →
        ∀ other < 2 ^ 27, other ≠ vpn →
          after.mapping afterPhys.memory other =
              table.mapping phys.memory other ∧
            SameTranslation (table.translate phys.memory other)
              (after.translate afterPhys.memory other)
  unmap_other :
    ∀ vpn < 2 ^ 27, ∀ afterPhys,
      table.unmap phys vpn = .ok afterPhys →
        ∀ other < 2 ^ 27, other ≠ vpn →
          table.translate afterPhys.memory other =
            table.translate phys.memory other
  from_token :
    ∀ vpn, (fromToken table.token).translate phys.memory vpn =
      table.translate phys.memory vpn

/-- A valid translation, as a mapping. -/
theorem mapping_ne_none_iff :
    table.mapping memory vpn ≠ none ↔
      ∃ entry, table.translate memory vpn = some entry ∧
        entry.isValid = true := by
  rw [Option.ne_none_iff_exists']
  simp only [mapping_eq_some_iff]

/--
For every sequence of calls the page table is the finite map that the calls
describe.
-/
theorem page_table_is_finite_map (reached : Reached calls table phys) :
    FiniteMap calls table phys := by
  obtain ⟨shaped, mappings⟩ := reached.mapping_eq
  constructor
  · intro vpn vpnLt
    rw [← mapping_ne_none_iff, mappings vpn vpnLt]
    cases last : lastCall calls vpn with
    | none => simp
    | some call =>
      have sameVpn := lastCall_vpn last
      cases call with
      | map callVpn ppn flags =>
        cases sameVpn
        exact ⟨fun _ => ⟨ppn, flags, rfl⟩, fun _ => nofun⟩
      | unmap callVpn => simp [Call.entry]
  · intro vpn vpnLt ppn flags last
    have mapped := mappings vpn vpnLt
    rw [last] at mapped
    obtain ⟨translated, _⟩ := mapping_eq_some_iff.mp mapped
    have ppnLt := reached.ppn_lt last
    exact ⟨_, translated, ppn_new ppnLt, flags_new ppnLt⟩
  · intro vpn _ ppn _ flags enough
    rw [shaped.map_panics_iff enough, mapping_ne_none_iff]
  · intro vpn _
    rw [unmap_panics_iff, ← mapping_ne_none_iff, not_not]
  · intro vpn vpnLt ppn _ flags after afterPhys returned other otherLt
      different
    have same := (shaped.map vpnLt returned).translate_other other otherLt
      different
    exact ⟨same.filter_eq, same⟩
  · intro vpn vpnLt afterPhys returned
    exact (shaped.unmap vpnLt returned).translate_other
  · intro vpn
    rw [translate_eq, translate_eq, fromToken_token shaped.root_lt]

/-- Two pages are mapped and one of them is unmapped. -/
theorem page_table_is_finite_map_two :
    ∃ (table : PageTable) (phys : Phys StackFrameAllocator),
      Reached [.map 5 7 PTEFlags.r, .map 600 8 PTEFlags.w, .unmap 5]
          table phys ∧
        FiniteMap [.map 5 7 PTEFlags.r, .map 600 8 PTEFlags.w, .unmap 5]
          table phys := by
  obtain ⟨table, phys, reached⟩ :
      ∃ (table : PageTable) (phys : Phys StackFrameAllocator),
        Reached [.map 5 7 PTEFlags.r, .map 600 8 PTEFlags.w, .unmap 5]
          table phys := by
    have made := @Reached.new StackFrameAllocator _
      ⟨fun _ _ => .empty, .init 1 10 (by decide) (by decide)⟩ _ _ rfl
    have one := @Reached.map _ _ _ _ _ _ _ 5 7 PTEFlags.r made (by decide)
      (by decide) rfl
    have two := @Reached.map _ _ _ _ _ _ _ 600 8 PTEFlags.w one (by decide)
      (by decide) rfl
    exact ⟨_, _, @Reached.unmap _ _ _ _ _ _ 5 two (by decide) rfl⟩
  exact ⟨table, phys, reached, page_table_is_finite_map reached⟩

end PageTable

end RCoreOS.Kernel
