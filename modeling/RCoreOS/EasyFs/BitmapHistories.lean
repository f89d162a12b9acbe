import RCoreOS.EasyFs.QuietProgram
import RCoreOS.EasyFs.Bitmap
import RCoreOS.Lib.Handouts

/-!
# The bitmap allocator as a set of indices

`Bitmap::alloc` and `Bitmap::dealloc` of `easy-fs/src/bitmap.rs` on the block
cache, for a bitmap of any size with any contents.  What is allocated after
some calls is read off the bits before the first call and the replies since.
-/

namespace RCoreOS.EasyFs

open Lib.FallibleRuns BlockProg Lib.Handouts Lib.Bytes Lib.WordBits List

namespace Bitmap

/-! ## A disk is given by the bits of a bitmap and the other blocks -/

theorem block_eq_of_bits {left right : Block}
    (same :
      ∀ index, index < 4096 →
        blockBit (bitmapBlock left) index =
          blockBit (bitmapBlock right) index) :
    left = right := by
  have wordsEq : bitmapBlock left = bitmapBlock right := by
    apply Vector.ext
    intro position inBlock
    apply BitVec.eq_of_getLsbD_eq
    intro bit inWord
    rw [← blockBit_mul_add _ inBlock inWord, same _ (by omega),
      blockBit_mul_add _ inBlock inWord]
  rw [← storeWords_bitmapBlock left, ← storeWords_bitmapBlock right, wordsEq]
  apply buffer_ext
  intro index inside
  have split : index = 0 + 64 / 8 * (index / 8) + index % 8 := by omega
  have inWords : index / 8 < 64 := by omega
  have inWord : index % 8 < 64 / 8 := by omega
  rw [split, byteAt_storeWords_inside inWords inWord (Nat.le_refl 512),
    byteAt_storeWords_inside inWords inWord (Nat.le_refl 512)]

variable {self : Bitmap} {disk after : Disk}

theorem disk_eq_of_bits (bits : ∀ n, self.bit after n = self.bit disk n)
    (frame :
      ∀ blockId, ¬ self.Covers blockId → after blockId = disk blockId) :
    after = disk := by
  funext blockId
  by_cases covered : self.Covers blockId
  · apply block_eq_of_bits
    intro index inside
    have same := bits ((blockId - self.startBlockId) * 4096 + index)
    rw [bit_block _ _ _ inside, bit_block _ _ _ inside,
      Nat.sub_add_cancel covered.1] at same
    exact same
  · exact frame blockId covered

variable {n : Nat}

/-- `dealloc` right after `alloc` leaves the disk as it was. -/
theorem Allocated.deallocated {between : Disk}
    (allocated : self.Allocated disk n between)
    (deallocated : self.Deallocated between n after) :
    after = disk := by
  apply disk_eq_of_bits
  · intro other
    rw [deallocated.bits, allocated.bits]
    by_cases same : other = n
    · rw [same, allocated.clear]
      simp
    · simp [same]
  · intro blockId outside
    rw [deallocated.frame blockId outside, allocated.frame blockId outside]

/-! ## The calls on the cache -/

/-- `dealloc` of a zero bit panics. -/
theorem onDisk_dealloc_clear (clear : self.bit disk n = false) :
    (self.dealloc n).onDisk [] disk = .error .assertFailed := by
  have wordInside : n % 4096 / 64 < 64 := by omega
  rw [bit, blockBit, dif_pos wordInside] at clear
  rw [dealloc, decomposition]
  apply onDisk_modifyAt_error (canLock_nil _) (Nat.le_refl 512)
  have loaded :
      BlockView.load (disk (n / 4096 + self.startBlockId)) 0 =
        bitmapBlock (disk (n / 4096 + self.startBlockId)) := rfl
  rw [loaded, dif_pos wordInside, if_neg]
  · rfl
  · intro isSet
    rw [and_oneAt_pos _ (Nat.mod_lt _ (by decide)), clear] at isSet
    cases isSet

variable {state last : CacheState}

/-- The two ways of `alloc`. -/
theorem run_alloc (self : Bitmap) (coherent : state.Coherent [] []) :
    (∃ n last,
        self.alloc.run state = .ok (some n, last) ∧
          self.Allocated state.view n last.view) ∨
      (∀ n, n < self.maximum → self.bit state.view n = true) ∧
        ∃ last,
          self.alloc.run state = .ok (none, last) ∧
            last.view = state.view := by
  rcases self.onDisk_alloc (fun blockId _ => canLock_nil blockId) state.view
    with ⟨full, returned⟩ | ⟨n, disk, returned, allocated⟩
  · exact .inr ⟨full, run_of_onDisk coherent returned⟩
  · obtain ⟨last, ran, rfl⟩ := run_of_onDisk coherent returned
    exact .inl ⟨n, last, ran, allocated⟩

variable {n : Nat}

section

variable (coherent : state.Coherent [] [])

include coherent

theorem run_alloc_eq_some
    (returned : self.alloc.run state = .ok (some n, last)) :
    self.Allocated state.view n last.view := by
  rcases self.run_alloc coherent with ⟨_, _, ran, allocated⟩ | ⟨_, _, ran, _⟩
  · rw [returned] at ran
    cases ran
    exact allocated
  · rw [returned] at ran
    cases ran

theorem run_alloc_eq_none
    (returned : self.alloc.run state = .ok (none, last)) :
    last.view = state.view := by
  rcases self.run_alloc coherent with ⟨_, _, ran, _⟩ | ⟨_, _, ran, shown⟩
  · rw [returned] at ran
    cases ran
  · rw [returned] at ran
    cases ran
    exact shown

theorem run_dealloc
    (inside : n < self.maximum) (isSet : self.bit state.view n = true) :
    ∃ last,
      (self.dealloc n).run state = .ok ((), last) ∧
        self.Deallocated state.view n last.view := by
  obtain ⟨disk, returned, deallocated⟩ :=
    onDisk_dealloc (fun blockId _ => canLock_nil blockId) inside isSet
  obtain ⟨last, ran, rfl⟩ := run_of_onDisk coherent returned
  exact ⟨last, ran, deallocated⟩

end

/-! ## Sequences of calls -/

/-- A call of `alloc` or of `dealloc`. -/
def call (self : Bitmap) (state : CacheState) :
    Call Nat → Except Fault (CacheState × Reply Nat)
  | .alloc => do
      let (found, state) ← self.alloc.run state
      match found with
      | some n => return (state, .handedOut n)
      | none => return (state, .exhausted)
  | .dealloc n => do
      let ((), state) ← (self.dealloc n).run state
      return (state, .takenBack n)

/-- The indices whose bits are set. -/
def allocated (self : Bitmap) (disk : Disk) : List Nat :=
  (List.range self.maximum).filter (self.bit disk)

/-- Only what is allocated is given back. -/
def FreesAllocated (start : List Nat) (_ : CacheState)
    (replies : List (Reply Nat)) (request : Call Nat) : Prop :=
  ∀ n, request = .dealloc n → n ∈ out start replies

/-- The set bits are those of the allocated indices. -/
structure Records (bitmap : Bitmap) (start : List Nat) (state : CacheState)
    (replies : List (Reply Nat)) : Prop where
  coherent : state.Coherent [] []
  nodup : (out start replies).Nodup
  mem_iff :
    ∀ n, n ∈ out start replies ↔
      n < bitmap.maximum ∧ bitmap.bit state.view n = true

namespace Records

variable {start : List Nat} {replies : List (Reply Nat)} {n : Nat}

theorem of_allocated (coherent : state.Coherent [] []) :
    Records self (self.allocated state.view) state [] where
  coherent := coherent
  nodup := nodup_range.filter _
  mem_iff n := by
    rw [out_nil, allocated, mem_filter, mem_range]

section

variable (records : Records self start state replies)

include records

theorem alloc_fresh (returned : self.alloc.run state = .ok (some n, last)) :
    n ∉ out start replies := by
  intro member
  have isSet := ((records.mem_iff n).mp member).2
  rw [(run_alloc_eq_some records.coherent returned).clear] at isSet
  cases isSet

theorem alloc (returned : self.alloc.run state = .ok (some n, last)) :
    Records self start last (replies ++ [.handedOut n]) := by
  have allocated := run_alloc_eq_some records.coherent returned
  constructor
  · exact (onDisk_of_run records.coherent returned).1
  · rw [out_concat, Reply.apply]
    apply records.nodup.append (nodup_singleton n)
    exact disjoint_singleton.mpr (records.alloc_fresh returned)
  · intro other
    rw [out_concat, Reply.apply, mem_append, mem_singleton,
      records.mem_iff, allocated.bits]
    have inside := allocated.inside
    by_cases same : other = n
    · simp [same, inside]
    · simp [same]

theorem dealloc (member : n ∈ out start replies)
    (returned : (self.dealloc n).run state = .ok ((), last)) :
    Records self start last (replies ++ [.takenBack n]) := by
  obtain ⟨inside, isSet⟩ := (records.mem_iff n).mp member
  obtain ⟨_, ran, deallocated⟩ := run_dealloc records.coherent inside isSet
  rw [returned] at ran
  cases ran
  constructor
  · exact (onDisk_of_run records.coherent returned).1
  · rw [out_concat, Reply.apply]
    exact records.nodup.erase n
  · intro other
    rw [out_concat, Reply.apply, records.nodup.mem_erase_iff,
      records.mem_iff, deallocated.bits]
    by_cases same : other = n
    · simp [same]
    · simp [same]

theorem call {request : Call Nat} {reply : Reply Nat}
    (frees : FreesAllocated start state replies request)
    (returned : self.call state request = .ok (last, reply)) :
    Records self start last (replies ++ [reply]) := by
  cases request with
  | alloc =>
    obtain ⟨⟨found, between⟩, ran, rest⟩ := bind_eq_ok.mp returned
    cases found with
    | some n =>
      cases rest
      exact records.alloc ran
    | none =>
      cases rest
      have shown := run_alloc_eq_none records.coherent ran
      constructor
      · exact (onDisk_of_run records.coherent ran).1
      · rw [out_concat, Reply.apply]
        exact records.nodup
      · intro n
        rw [out_concat, Reply.apply, shown]
        exact records.mem_iff n
  | dealloc n =>
    obtain ⟨⟨⟨⟩, between⟩, ran, rest⟩ := bind_eq_ok.mp returned
    cases rest
    exact records.dealloc (frees n rfl) ran

end

theorem of_trace (coherent : state.Coherent [] [])
    (trace :
      Trace self.call (FreesAllocated (self.allocated state.view)) state last
        replies) :
    Records self (self.allocated state.view) last replies := by
  apply trace.keeps (Records self (self.allocated state.view))
  · exact of_allocated coherent
  · intro _ _ _ _ _ records frees returned
    exact records.call frees returned

end Records

/--
`alloc` takes the lowest zero bit and sets no other, or finds all bits set and
changes nothing.  `dealloc` clears the bit of its index and no other, or panics
if it is zero.  After an `alloc` it restores the disk, and no sequence of such
calls makes `alloc` return what is allocated.
-/
theorem lowest_free_index_set (self : Bitmap)
    (state : CacheState) (coherent : state.Coherent [] []) :
    ((∃ n last,
          self.alloc.run state = .ok (some n, last) ∧
            self.Allocated state.view n last.view) ∨
        (∀ n, n < self.maximum → self.bit state.view n = true) ∧
          ∃ last,
            self.alloc.run state = .ok (none, last) ∧ last.view = state.view) ∧
      (∀ n, n < self.maximum → self.bit state.view n = true →
        ∃ last,
          (self.dealloc n).run state = .ok ((), last) ∧
            self.Deallocated state.view n last.view) ∧
      (∀ n, n < self.maximum → self.bit state.view n = false →
        (self.dealloc n).run state = .error .assertFailed) ∧
      (∀ n between, self.alloc.run state = .ok (some n, between) →
        ∃ last,
          (self.dealloc n).run between = .ok ((), last) ∧
            last.view = state.view) ∧
      ∀ last replies,
        Trace self.call (FreesAllocated (self.allocated state.view)) state
            last replies →
          (∀ n after, self.alloc.run last = .ok (some n, after) →
            n ∉ out (self.allocated state.view) replies) ∧
          ∀ n, n ∈ out (self.allocated state.view) replies →
            ∃ after, (self.dealloc n).run last = .ok ((), after) := by
  refine ⟨self.run_alloc coherent, fun n => run_dealloc coherent, ?_, ?_, ?_⟩
  · intro n _ clear
    exact run_of_onDisk_error coherent (onDisk_dealloc_clear clear)
  · intro n between returned
    have allocated := run_alloc_eq_some coherent returned
    have isSet : self.bit between.view n = true := by
      rw [allocated.bits]
      simp
    obtain ⟨last, ran, deallocated⟩ :=
      run_dealloc (onDisk_of_run coherent returned).1
        allocated.inside isSet
    exact ⟨last, ran, allocated.deallocated deallocated⟩
  · intro last replies trace
    have records := Records.of_trace coherent trace
    constructor
    · intro n after returned
      exact records.alloc_fresh returned
    · intro n member
      obtain ⟨inside, isSet⟩ := (records.mem_iff n).mp member
      obtain ⟨after, ran, _⟩ := run_dealloc records.coherent inside isSet
      exact ⟨after, ran⟩

/-- Two bitmap blocks of zeros, from block 1 on. -/
theorem lowest_free_index_set_zeros :
    ∃ last,
      (Bitmap.new 1 2).alloc.run (CacheState.start ⟨fun _ => zeros⟩) =
          .ok (some 0, last) ∧
        (Bitmap.new 1 2).Allocated (fun _ => zeros) 0 last.view := by
  have zeroBit : (Bitmap.new 1 2).bit (fun _ => zeros) 0 = false := by
    decide +kernel
  have shown : (CacheState.start ⟨fun _ => zeros⟩).view = fun _ => zeros :=
    CacheState.view_start _
  obtain ⟨⟨n, last, ran, allocated⟩ | ⟨full, _⟩, _⟩ :=
    lowest_free_index_set (.new 1 2) (CacheState.start ⟨fun _ => zeros⟩)
      (CacheState.start_coherent _)
  · rw [shown] at allocated
    have first : n = 0 := by
      by_contra later
      have isSet := allocated.lowest 0 (Nat.pos_of_ne_zero later)
      rw [zeroBit] at isSet
      cases isSet
    subst first
    exact ⟨last, ran, allocated⟩
  · have isSet := full 0 (by decide)
    rw [shown, zeroBit] at isSet
    cases isSet

end Bitmap

end RCoreOS.EasyFs
