import RCoreOS.Kernel.FrameAllocator
import RCoreOS.Kernel.Process
import RCoreOS.Lib.Handouts

/-!
# Histories of the allocators

`RecycleAllocator` of `os/src/task/id.rs` and `StackFrameAllocator` of
`os/src/mm/frame_allocator.rs` under any sequence of calls.  What is allocated
at some time is read off the replies, not off the fields of the allocator.

The recycling allocator accepts exactly the identifiers that are out.  The
frame allocator does not keep the lower end of its range: a frame below the
range passes the check of `dealloc`, and is handed out by the next `alloc`.
-/

namespace RCoreOS.Kernel

open Lib.FallibleRuns List Lib.Handouts

/-! ## Identifiers -/

namespace RecycleAllocator

/-- A call of `alloc` or of `dealloc`. -/
def call (self : RecycleAllocator) :
    Call Nat → Except Stop (RecycleAllocator × Reply Nat)
  | .alloc => return (self.alloc.2, .handedOut self.alloc.1)
  | .dealloc id => do
      let after ← self.dealloc id
      return (after, .takenBack id)

/-- What the fields of the allocator have to do with the replies so far. -/
structure Records (allocator : RecycleAllocator)
    (replies : List (Reply Nat)) : Prop where
  serves : allocator.Serves (out [] replies)
  isPeak : IsPeak [] replies allocator.current
  handedOut_lt :
    ∀ {id : Nat}, .handedOut id ∈ replies → id < allocator.current

namespace Records

variable {self after : RecycleAllocator} {replies : List (Reply Nat)}
  {reply : Reply Nat}

theorem new : Records .new [] where
  serves := Serves.new
  isPeak := isPeak_nil []
  handedOut_lt := nofun

section

variable (records : Records self replies)

include records

/-- `dealloc` accepts exactly what is out. -/
theorem dealloc_returns_iff (id : Nat) :
    (∃ after, self.dealloc id = .ok after) ↔ id ∈ out [] replies := by
  constructor
  · rintro ⟨after, returned⟩
    obtain ⟨below, notRecycled⟩ := (dealloc_spec returned).1
    have member : id ∈ out [] replies ++ self.recycled :=
      records.serves.mem_iff.mpr (mem_range.mpr below)
    exact (mem_append.mp member).resolve_right notRecycled
  · intro member
    apply dealloc_returns
    constructor
    · exact records.serves.lt member
    · intro recycled
      have nodup : (out [] replies ++ self.recycled).Nodup :=
        records.serves.nodup_iff.mpr nodup_range
      exact (nodup_append.mp nodup).2.2 id member id recycled rfl

theorem alloc :
    Records self.alloc.2 (replies ++ [.handedOut self.alloc.1]) := by
  have allocated : self.alloc = (self.alloc.1, self.alloc.2) := rfl
  obtain ⟨serves, _, currentLe⟩ := records.serves.alloc allocated
  have currentEq :
      self.alloc.2.current =
        max self.current (out [] replies ++ [self.alloc.1]).length := by
    have lengthEq := List.Perm.length_eq serves
    have grows : self.current ≤ self.alloc.2.current := by
      obtain ⟨_, _, taken | fresh⟩ := alloc_spec allocated
      · exact Nat.le_of_eq taken.2.1.symm
      · exact Nat.le_of_lt (by rw [fresh.2.2.1]; exact Nat.lt_succ_self _)
    simp only [length_append, length_singleton, length_range] at lengthEq ⊢
    omega
  constructor
  · rw [out_concat]
    exact serves
  · rw [currentEq]
    exact records.isPeak.concat _
  · intro id member
    rcases mem_append.mp member with earlier | last
    · have := records.handedOut_lt earlier
      omega
    · cases mem_singleton.mp last
      exact serves.lt (mem_append_right _ (mem_singleton_self _))

theorem dealloc {id : Nat}
    (returned : self.dealloc id = .ok after) :
    Records after (replies ++ [.takenBack id]) := by
  have member := (records.dealloc_returns_iff id).mp ⟨after, returned⟩
  obtain ⟨serves, currentEq⟩ := records.serves.dealloc member returned
  constructor
  · rw [out_concat]
    exact serves
  · have fewer : ((out [] replies).erase id).length ≤ self.current :=
      length_erase_le.trans
        (records.isPeak.2 ⟨replies, prefix_rfl, rfl⟩)
    have isPeak := records.isPeak.concat (.takenBack id)
    rw [Reply.apply, Nat.max_eq_left fewer] at isPeak
    rw [currentEq]
    exact isPeak
  · intro other member
    rw [currentEq]
    rcases mem_append.mp member with earlier | last
    · exact records.handedOut_lt earlier
    · cases mem_singleton.mp last

theorem call {request : Call Nat}
    (returned : self.call request = .ok (after, reply)) :
    Records after (replies ++ [reply]) := by
  cases request with
  | alloc =>
    cases returned
    exact records.alloc
  | dealloc id =>
    obtain ⟨between, freed, rest⟩ := bind_eq_ok.mp returned
    cases rest
    exact records.dealloc freed

end

theorem run {calls : List (Call Nat)}
    (returned :
      Lib.FallibleRuns.run RecycleAllocator.call .new calls =
        .ok (self, replies)) :
    Records self replies :=
  run_history Records (fun records returned => records.call returned) new
    returned

end Records

/--
After any calls, those that are allocated and those that are recycled are the
identifiers below `current`, each of them once.  `alloc` returns one that is
not allocated, `dealloc` accepts exactly the allocated ones, and `current` is
the largest number that were allocated at the same time.
-/
theorem recycled_ids_exact {calls : List (Call Nat)}
    {self : RecycleAllocator} {replies : List (Reply Nat)}
    (returned : run call .new calls = .ok (self, replies)) :
    self.alloc.1 ∉ out [] replies ∧
      (∀ id, (∃ after, self.dealloc id = .ok after) ↔ id ∈ out [] replies) ∧
      (∀ id, id ∉ out [] replies → self.dealloc id = .error .panicked) ∧
      (out [] replies ++ self.recycled).Perm (List.range self.current) ∧
      IsPeak [] replies self.current ∧
      ∀ id, .handedOut id ∈ replies → id < self.current := by
  have records := Records.run returned
  have accepts := records.dealloc_returns_iff
  refine ⟨(records.serves.alloc rfl).2.1, accepts, ?_, records.serves,
    records.isPeak, fun id => records.handedOut_lt⟩
  intro id absent
  rw [dealloc, dif_neg]
  intro live
  exact absent ((accepts id).mp (dealloc_returns live))

/-- Three are allocated and the middle one is given back. -/
theorem recycled_ids_exact_three :
    ∃ self replies,
      run call .new [.alloc, .alloc, .alloc, .dealloc 1] =
          .ok (self, replies) ∧
        self.alloc.1 ∉ out [] replies ∧
        (∀ id, (∃ after, self.dealloc id = .ok after) ↔ id ∈ out [] replies) ∧
        (∀ id, id ∉ out [] replies → self.dealloc id = .error .panicked) ∧
        (out [] replies ++ self.recycled).Perm (List.range self.current) ∧
        IsPeak [] replies self.current ∧
        ∀ id, .handedOut id ∈ replies → id < self.current :=
  ⟨_, _, rfl, @recycled_ids_exact [.alloc, .alloc, .alloc, .dealloc 1] _ _ rfl⟩

end RecycleAllocator

/-! ## Frames -/

namespace StackFrameAllocator

/-- A call of `alloc` or of `dealloc`. -/
def call (self : StackFrameAllocator) :
    Call Nat → Except Stop (StackFrameAllocator × Reply Nat)
  | .alloc =>
    match self.alloc with
    | some (ppn, after) => return (after, .handedOut ppn)
    | none => return (self, .exhausted)
  | .dealloc ppn => do
      let after ← self.dealloc ppn
      return (after, .takenBack ppn)

section Operations

variable {self after : StackFrameAllocator} {ppn : Nat}

theorem dealloc_returns_iff :
    (∃ after, self.dealloc ppn = .ok after) ↔
      ppn < self.current ∧ ppn ∉ self.recycled := by
  rw [dealloc]
  split
  · next taken => simp [taken]
  · next free => simp only [reduceCtorEq, exists_false, free]

theorem dealloc_panics_iff :
    self.dealloc ppn = .error .panicked ↔
      ¬ (ppn < self.current ∧ ppn ∉ self.recycled) := by
  rw [← dealloc_returns_iff, dealloc]
  split
  · simp
  · simp

theorem dealloc_endPpn (returned : self.dealloc ppn = .ok after) :
    after.endPpn = self.endPpn := by
  rw [dealloc] at returned
  split at returned
  · cases returned
    rfl
  · cases returned

end Operations

/-- The state after the calls on an allocator with the given range. -/
def runFrom (l r : Nat) (le : l ≤ r) (small : r ≤ 2 ^ 44)
    (calls : List (Call Nat)) :
    Except Stop (StackFrameAllocator × List (Reply Nat)) :=
  run call (init l r le small) calls

/-- What the fields of the allocator have to do with the replies so far. -/
structure Records (l r : Nat) (allocator : StackFrameAllocator)
    (replies : List (Reply Nat)) : Prop where
  end_eq : allocator.endPpn = r
  -- the frames that have been handed out at some time
  perm :
    (out [] replies ++ allocator.recycled).Perm
      (List.range' l (allocator.current - l))
  le_current : l ≤ allocator.current
  handedOut :
    ∀ {ppn : Nat}, .handedOut ppn ∈ replies → l ≤ ppn ∧ ppn < allocator.current

namespace Records

variable {self after : StackFrameAllocator} {replies : List (Reply Nat)}
  {reply : Reply Nat} {l r ppn : Nat}

theorem init (le : l ≤ r) (small : r ≤ 2 ^ 44) :
    Records l r (.init l r le small) [] where
  end_eq := rfl
  perm := by
    rw [StackFrameAllocator.init, Nat.sub_self]
    exact List.Perm.refl []
  le_current := Nat.le_refl l
  handedOut := nofun

section

variable (records : Records l r self replies)

include records

theorem mem_or_recycled_iff :
    ppn ∈ out [] replies ∨ ppn ∈ self.recycled ↔
      l ≤ ppn ∧ ppn < self.current := by
  have bound := records.le_current
  rw [← mem_append, records.perm.mem_iff, List.mem_range'_1]
  omega

theorem not_recycled (member : ppn ∈ out [] replies) :
    ppn ∉ self.recycled := by
  intro recycled
  have nodup : (out [] replies ++ self.recycled).Nodup :=
    records.perm.nodup_iff.mpr nodup_range'
  exact (nodup_append.mp nodup).2.2 ppn member ppn recycled rfl

theorem alloc (allocated : self.alloc = some (ppn, after)) :
    Records l r after (replies ++ [.handedOut ppn]) := by
  have bound := records.le_current
  obtain ⟨endEq, cases⟩ := alloc_cases allocated
  rcases cases with
    ⟨recycledEq, currentEq⟩ | ⟨recycledEq, afterEq, rfl, _, currentEq⟩
  · have member : ppn ∈ self.recycled := by
      rw [recycledEq]
      exact mem_append_right _ (mem_singleton_self ppn)
    obtain ⟨above, below⟩ := records.mem_or_recycled_iff.mp (.inr member)
    constructor
    · exact endEq.trans records.end_eq
    · have perm := records.perm
      rw [recycledEq] at perm
      rw [out_concat, Reply.apply, currentEq, append_assoc]
      exact (perm_append_comm.append_left _).trans perm
    · rw [currentEq]
      exact bound
    · intro other handedOut
      rw [currentEq]
      rcases mem_append.mp handedOut with earlier | last
      · exact records.handedOut earlier
      · cases mem_singleton.mp last
        exact ⟨above, below⟩
  · constructor
    · exact endEq.trans records.end_eq
    · have perm := records.perm
      rw [recycledEq, append_nil] at perm
      have grown : self.current + 1 - l = self.current - l + 1 := by omega
      have last : l + 1 * (self.current - l) = self.current := by omega
      rw [out_concat, Reply.apply, afterEq, append_nil, currentEq, grown,
        List.range'_concat, last]
      exact perm.append_right _
    · omega
    · intro other handedOut
      rcases mem_append.mp handedOut with earlier | last
      · have := records.handedOut earlier
        omega
      · cases mem_singleton.mp last
        omega

theorem dealloc (above : l ≤ ppn) (returned : self.dealloc ppn = .ok after) :
    Records l r after (replies ++ [.takenBack ppn]) := by
  obtain ⟨below, notRecycled⟩ := dealloc_returns_iff.mp ⟨after, returned⟩
  obtain ⟨_, recycledEq, currentEq, _⟩ := dealloc_spec returned
  have member : ppn ∈ out [] replies :=
    (records.mem_or_recycled_iff.mpr ⟨above, below⟩).resolve_right notRecycled
  constructor
  · rw [dealloc_endPpn returned]
    exact records.end_eq
  · rw [out_concat, Reply.apply, recycledEq, currentEq, ← append_assoc]
    refine List.Perm.trans ?_ records.perm
    refine perm_append_comm.trans ?_
    exact (perm_cons_erase member).symm.append_right _
  · rw [currentEq]
    exact records.le_current
  · intro other handedOut
    rw [currentEq]
    rcases mem_append.mp handedOut with earlier | last
    · exact records.handedOut earlier
    · cases mem_singleton.mp last

/-- A call keeps the records if it does not free a frame below the range. -/
theorem call {request : Call Nat}
    (above : ∀ {ppn : Nat}, request = .dealloc ppn → l ≤ ppn)
    (returned : self.call request = .ok (after, reply)) :
    Records l r after (replies ++ [reply]) := by
  cases request with
  | alloc =>
    rw [StackFrameAllocator.call] at returned
    cases allocated : self.alloc with
    | none =>
      rw [allocated] at returned
      cases returned
      constructor
      · exact records.end_eq
      · rw [out_concat, Reply.apply]
        exact records.perm
      · exact records.le_current
      · intro ppn handedOut
        rcases mem_append.mp handedOut with earlier | last
        · exact records.handedOut earlier
        · cases mem_singleton.mp last
    | some result =>
      rw [allocated] at returned
      cases returned
      exact records.alloc allocated
  | dealloc ppn =>
    obtain ⟨between, freed, rest⟩ := bind_eq_ok.mp returned
    cases rest
    exact records.dealloc (above rfl) freed

end

theorem run {calls : List (Call Nat)} {earlier : List (Reply Nat)}
    (above : ∀ {ppn : Nat}, .dealloc ppn ∈ calls → l ≤ ppn)
    (records : Records l r self earlier)
    (returned :
      Lib.FallibleRuns.run StackFrameAllocator.call self calls =
        .ok (after, replies)) :
    Records l r after (earlier ++ replies) := by
  induction calls generalizing self earlier replies with
  | nil =>
    cases returned
    rw [append_nil]
    exact records
  | cons first rest step =>
    obtain ⟨between, head, tail, called, continued, rfl⟩ :=
      run_cons_eq_ok.mp returned
    have kept := records.call
      (fun same => above (mem_cons.mpr (.inl same.symm))) called
    rw [append_cons]
    exact step (fun member => above (mem_cons_of_mem _ member)) kept
      continued

/-- The check of `dealloc` is exact for the frames from `l` on. -/
theorem panics_iff (records : Records l r self replies) (above : l ≤ ppn) :
    self.dealloc ppn = .error .panicked ↔ ppn ∉ out [] replies := by
  rw [dealloc_panics_iff, not_iff_not]
  constructor
  · rintro ⟨below, notRecycled⟩
    exact (records.mem_or_recycled_iff.mpr ⟨above, below⟩).resolve_right
      notRecycled
  · intro member
    exact ⟨(records.mem_or_recycled_iff.mp (.inl member)).2,
      records.not_recycled member⟩

/-- The check of `dealloc` is not exact for any frame below `l`. -/
theorem le_of_panics_iff (records : Records l r self replies)
    (exact : self.dealloc ppn = .error .panicked ↔ ppn ∉ out [] replies) :
    l ≤ ppn := by
  by_contra below
  have outside : ∀ {held : Prop}, (held → l ≤ ppn ∧ ppn < self.current) →
      ¬ held := fun inside held => below (inside held).1
  have notOut : ppn ∉ out [] replies :=
    outside fun member => records.mem_or_recycled_iff.mp (.inl member)
  have notRecycled : ppn ∉ self.recycled :=
    outside fun member => records.mem_or_recycled_iff.mp (.inr member)
  have bound := records.le_current
  exact dealloc_panics_iff.mp (exact.mpr notOut) ⟨by omega, notRecycled⟩

end Records

/--
Along the calls, `dealloc` panics exactly for what is not allocated, and
`alloc` hands out frames of the range only.
-/
structure FreesChecked (l r : Nat) (le : l ≤ r) (small : r ≤ 2 ^ 44)
    (calls : List (Call Nat)) : Prop where
  panics_iff :
    ∀ first ppn rest self replies, calls = first ++ .dealloc ppn :: rest →
      runFrom l r le small first = .ok (self, replies) →
        (self.dealloc ppn = .error .panicked ↔ ppn ∉ out [] replies)
  inside :
    ∀ first rest self replies, calls = first ++ rest →
      runFrom l r le small first = .ok (self, replies) →
        ∀ ppn, .handedOut ppn ∈ replies → l ≤ ppn ∧ ppn < r

variable {l r : Nat} {le : l ≤ r} {small : r ≤ 2 ^ 44}
  {calls : List (Call Nat)}

variable {first rest : List (Call Nat)} {self : StackFrameAllocator}
  {replies : List (Reply Nat)} {ppn : Nat}

/-- A run that returned has reached every one of its calls. -/
theorem le_of_reached
    (above :
      ∀ first ppn rest self replies, calls = first ++ .dealloc ppn :: rest →
        runFrom l r le small first = .ok (self, replies) → l ≤ ppn)
    (callsEq : calls = first ++ rest)
    (returned : runFrom l r le small first = .ok (self, replies))
    (member : .dealloc ppn ∈ first) : l ≤ ppn := by
  obtain ⟨earlier, later, rfl⟩ := append_of_mem member
  obtain ⟨between, shown, _, reached, _⟩ := run_append_eq_ok.mp returned
  apply above earlier ppn (later ++ rest) between shown
  · rw [callsEq, append_assoc, cons_append]
  · exact reached

/-- In checked calls no frame below the range is freed. -/
theorem FreesChecked.above (checked : FreesChecked l r le small calls)
    (callsEq : calls = first ++ rest)
    (returned : runFrom l r le small first = .ok (self, replies))
    (member : .dealloc ppn ∈ first) : l ≤ ppn := by
  induction first using List.reverseRecOn
      generalizing rest self replies ppn with
  | nil => cases member
  | append_singleton first last step =>
    obtain ⟨between, earlier, _, reached, _⟩ := run_append_eq_ok.mp returned
    rw [append_assoc, singleton_append] at callsEq
    rcases mem_append.mp member with member | same
    · exact step callsEq reached member
    · rw [← mem_singleton.mp same] at callsEq
      have records := (Records.init le small).run
        (fun member => step callsEq reached member) reached
      exact records.le_of_panics_iff
        (checked.panics_iff first ppn rest between earlier callsEq reached)

/--
Frees are checked exactly along all calls that free no frame below the range.
-/
theorem freesChecked_iff (le : l ≤ r)
    (small : r ≤ 2 ^ 44) (calls : List (Call Nat)) :
    FreesChecked l r le small calls ↔
      ∀ first ppn rest self replies, calls = first ++ .dealloc ppn :: rest →
        runFrom l r le small first = .ok (self, replies) → l ≤ ppn := by
  constructor
  · intro checked first ppn rest self replies callsEq returned
    have records := (Records.init le small).run
      (fun member => checked.above callsEq returned member) returned
    exact records.le_of_panics_iff
      (checked.panics_iff first ppn rest self replies callsEq returned)
  · intro above
    have recorded :
        ∀ {first rest self replies}, calls = first ++ rest →
          runFrom l r le small first = .ok (self, replies) →
            Records l r self replies := by
      intro first rest self replies callsEq returned
      exact (Records.init le small).run
        (fun member => le_of_reached above callsEq returned member) returned
    constructor
    · intro first ppn rest self replies callsEq returned
      exact (recorded callsEq returned).panics_iff
        (above first ppn rest self replies callsEq returned)
    · intro first rest self replies callsEq returned ppn handedOut
      have records := recorded callsEq returned
      obtain ⟨aboveEnd, below⟩ := records.handedOut handedOut
      have currentLe := self.current_le
      rw [records.end_eq] at currentLe
      exact ⟨aboveEnd, Nat.lt_of_lt_of_le below currentLe⟩

/-- A frame of the range is allocated and freed, and then freed again. -/
theorem freesChecked_iff_twice :
    FreesChecked 0x80400 0x88000 (by decide) (by decide)
      [.alloc, .dealloc 0x80400, .dealloc 0x80400] := by
  apply (freesChecked_iff (by decide) (by decide) _).mpr
  intro first ppn rest self replies callsEq _
  have member :
      Call.dealloc ppn ∈
        [Call.alloc, .dealloc 0x80400, .dealloc 0x80400] := by
    rw [callsEq]
    exact mem_append_right _ mem_cons_self
  simp at member
  omega

/-- A frame of the kernel is freed, and the next `alloc` hands it out. -/
theorem kernel_frame_handed_out :
    ¬ FreesChecked 0x80400 0x88000 (by decide) (by decide)
      [.dealloc 0x80200, .alloc] := by
  intro checked
  have inside := checked.inside [.dealloc 0x80200, .alloc] [] _ _ rfl rfl
  exact absurd (inside 0x80200 (by decide)).1 (by decide)

end StackFrameAllocator

end RCoreOS.Kernel
