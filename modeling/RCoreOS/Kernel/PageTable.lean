import RCoreOS.Kernel.FrameAllocator
import RCoreOS.Lib.RadixTree

/-!
# SV39 page tables

`PageTable` of `os/src/mm/page_table.rs` over physical memory as pages of 512
entries.  `frame_alloc` is a parameter: it hands out a frame that is free, and
`FrameTracker::new` clears it.  Page numbers are natural numbers.

The tables of a page table form a radix tree of depth two.  The loops of
`find_pte` and `find_pte_create` are walks in it.
-/

namespace RCoreOS.Kernel

open Lib.FallibleRuns Lib.RadixTree

/-! ## Entries -/

/-- `PTEFlags`: all eight bits of the byte have a name. -/
abbrev PTEFlags := BitVec 8

namespace PTEFlags

def v : PTEFlags := 1
def r : PTEFlags := 2
def w : PTEFlags := 4
def x : PTEFlags := 8
def u : PTEFlags := 16

end PTEFlags

/-- `PageTableEntry` -/
structure PageTableEntry where
  bits : Nat
deriving DecidableEq, Repr

namespace PageTableEntry

/-- `PageTableEntry::new` -/
def new (ppn : Nat) (flags : PTEFlags) : PageTableEntry :=
  ⟨(ppn <<< 10) % 2 ^ 64 ||| flags.toNat⟩

/-- `PageTableEntry::empty` -/
def empty : PageTableEntry := ⟨0⟩

/-- `PageTableEntry::ppn` -/
def ppn (self : PageTableEntry) : Nat := (self.bits >>> 10) &&& (2 ^ 44 - 1)

/-- `PageTableEntry::flags` -/
def flags (self : PageTableEntry) : PTEFlags := BitVec.ofNat 8 self.bits

/-- `PageTableEntry::is_valid` -/
def isValid (self : PageTableEntry) : Bool := self.flags &&& PTEFlags.v != 0

variable {ppn : Nat} {flags : PTEFlags}

theorem new_bits (small : ppn < 2 ^ 44) :
    (new ppn flags).bits = ppn * 2 ^ 10 + flags.toNat := by
  have fits : ppn <<< 10 < 2 ^ 64 := by
    rw [Nat.shiftLeft_eq]
    omega
  have low : flags.toNat < 2 ^ 10 := Nat.lt_of_lt_of_le flags.isLt (by decide)
  change (ppn <<< 10) % 2 ^ 64 ||| flags.toNat = _
  rw [Nat.mod_eq_of_lt fits, ← Nat.shiftLeft_add_eq_or_of_lt low,
    Nat.shiftLeft_eq]

@[simp]
theorem ppn_new (small : ppn < 2 ^ 44) :
    (new ppn flags).ppn = ppn := by
  have low := flags.isLt
  rw [PageTableEntry.ppn, new_bits small, Nat.and_two_pow_sub_one_eq_mod,
    Nat.shiftRight_eq_div_pow]
  omega

@[simp]
theorem flags_new (small : ppn < 2 ^ 44) :
    (new ppn flags).flags = flags := by
  have low := flags.isLt
  rw [PageTableEntry.flags, new_bits small]
  apply BitVec.eq_of_toNat_eq
  rw [BitVec.toNat_ofNat]
  omega

theorem v_or_set : ∀ flags : PTEFlags,
    ((flags ||| PTEFlags.v) &&& PTEFlags.v != 0) = true := by
  decide

/-- An entry that was made with the flag `V` is valid. -/
theorem isValid_new (small : ppn < 2 ^ 44) :
    (new ppn (flags ||| PTEFlags.v)).isValid = true := by
  rw [isValid, flags_new small]
  exact v_or_set flags

@[simp]
theorem isValid_empty : empty.isValid = false := by decide

/-- The table that an entry of an inner table points to. -/
def child (self : PageTableEntry) : Option Nat :=
  if self.isValid then some self.ppn else none

theorem child_empty : empty.child = none := by decide

variable {self : PageTableEntry}

theorem child_of_valid (valid : self.isValid = true) :
    self.child = some self.ppn :=
  if_pos valid

theorem child_of_invalid
    (invalid : self.isValid = false) : self.child = none :=
  if_neg (by rw [invalid]; exact nofun)

/-- The entry that `find_pte_create` makes for a new table. -/
theorem child_new (small : ppn < 2 ^ 44) :
    (new ppn PTEFlags.v).child = some ppn := by
  have valid : (new ppn PTEFlags.v).isValid = true := by
    rw [isValid, flags_new small]
    decide
  rw [child_of_valid valid, ppn_new small]

end PageTableEntry

/-! ## Physical memory and its allocator -/

/-- Physical memory and the state of its allocator. -/
structure Phys (σ : Type) where
  memory : Nat → Fin 512 → PageTableEntry
  allocator : σ

variable {σ : Type} [FrameAllocator σ]

open FrameAllocator

namespace Phys

/-- `frame_alloc().unwrap()`; `FrameTracker::new` clears the page. -/
def frameAlloc (phys : Phys σ) : Except Stop (Nat × Phys σ) :=
  match alloc phys.allocator with
  | none => .error .panicked
  | some (ppn, allocator) =>
    .ok (ppn, {
      memory := Function.update phys.memory ppn fun _ => .empty
      allocator })

theorem frameAlloc_eq_ok {phys after : Phys σ} {ppn : Nat}
    (returned : phys.frameAlloc = .ok (ppn, after)) :
    alloc phys.allocator = some (ppn, after.allocator) ∧
      after.memory = Function.update phys.memory ppn fun _ => .empty := by
  rw [frameAlloc] at returned
  split at returned
  · cases returned
  · next allocated =>
      cases returned
      exact ⟨allocated, rfl⟩

end Phys

/-! ## Page tables -/

instance neZero_entries : NeZero 512 := ⟨by decide⟩

/-- `VirtPageNum::indexes` -/
def indexes (vpn : Nat) : List (Fin 512) :=
  [Fin.ofNat 512 ((vpn >>> 9 >>> 9) &&& 511),
    Fin.ofNat 512 ((vpn >>> 9) &&& 511), Fin.ofNat 512 (vpn &&& 511)]

/-- `PageTable` -/
structure PageTable where
  rootPpn : Nat
  frames : List Nat

namespace PageTable

/-- `PageTable::new` -/
def new (phys : Phys σ) : Except Stop (PageTable × Phys σ) := do
  let (frame, phys) ← phys.frameAlloc
  return (⟨frame, [frame]⟩, phys)

/-- `PageTable::token` -/
def token (self : PageTable) : Nat := (8 <<< 60) ||| self.rootPpn

/-- `PageTable::from_token` -/
def fromToken (satp : Nat) : PageTable := ⟨satp &&& (2 ^ 44 - 1), []⟩

/--
The body of the loop in `find_pte_create`: a missing table is added, and
`ppn` becomes the next table.
-/
def descend (self : PageTable) (phys : Phys σ) (ppn : Nat)
    (idx : Fin 512) : Except Stop (Nat × PageTable × Phys σ) :=
  if (phys.memory ppn idx).isValid then
    return ((phys.memory ppn idx).ppn, self, phys)
  else do
    let (frame, phys) ← phys.frameAlloc
    let memory := setEntry phys.memory ppn idx (.new frame PTEFlags.v)
    return ((memory ppn idx).ppn,
      { self with frames := self.frames ++ [frame] }, { phys with memory })

/-- The loop of `find_pte_create` from its turn `i` on. -/
def findPteCreateFrom (i ppn : Nat) (self : PageTable) (phys : Phys σ) :
    List (Fin 512) → Except Stop (Option (Nat × Fin 512) × PageTable × Phys σ)
  | [] => return (none, self, phys)
  | idx :: rest =>
    if i = 2 then
      return (some (ppn, idx), self, phys)
    else do
      let (ppn, self, phys) ← self.descend phys ppn idx
      findPteCreateFrom (i + 1) ppn self phys rest

/-- `PageTable::find_pte_create`; a reference to an entry is its place. -/
def findPteCreate (self : PageTable) (phys : Phys σ) (vpn : Nat) :
    Except Stop (Option (Nat × Fin 512) × PageTable × Phys σ) :=
  findPteCreateFrom 0 self.rootPpn self phys (indexes vpn)

/-- The loop of `find_pte` from its turn `i` on. -/
def findPteFrom (memory : Nat → Fin 512 → PageTableEntry) (i ppn : Nat) :
    List (Fin 512) → Option (Nat × Fin 512)
  | [] => none
  | idx :: rest =>
    if i = 2 then some (ppn, idx)
    else if (memory ppn idx).isValid then
      findPteFrom memory (i + 1) (memory ppn idx).ppn rest
    else none

/-- `PageTable::find_pte` -/
def findPte (self : PageTable) (memory : Nat → Fin 512 → PageTableEntry)
    (vpn : Nat) : Option (Nat × Fin 512) :=
  findPteFrom memory 0 self.rootPpn (indexes vpn)

/-- `PageTable::map` -/
def map (self : PageTable) (phys : Phys σ) (vpn ppn : Nat)
    (flags : PTEFlags) : Except Stop (PageTable × Phys σ) := do
  let (found, self, phys) ← self.findPteCreate phys vpn
  match found with
  | none => .error .panicked
  | some (table, idx) =>
    if (phys.memory table idx).isValid then .error .panicked
    else
      return (self, { phys with
        memory := setEntry phys.memory table idx
          (.new ppn (flags ||| PTEFlags.v)) })

/-- `PageTable::unmap` -/
def unmap (self : PageTable) (phys : Phys σ) (vpn : Nat) :
    Except Stop (Phys σ) :=
  match self.findPte phys.memory vpn with
  | none => .error .panicked
  | some (table, idx) =>
    if (phys.memory table idx).isValid then
      return { phys with
        memory := setEntry phys.memory table idx .empty }
    else .error .panicked

/-- `PageTable::translate` -/
def translate (self : PageTable) (memory : Nat → Fin 512 → PageTableEntry)
    (vpn : Nat) : Option PageTableEntry :=
  (self.findPte memory vpn).map fun (table, idx) => memory table idx

end PageTable

end RCoreOS.Kernel
