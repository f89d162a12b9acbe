import RCoreOS.Kernel.Primitives

/-!
# The ring buffer of a pipe

`PipeRingBuffer` of `os/src/fs/pipe.rs`.  Its meaning is a queue of at most 32
bytes: the bytes from `head` on, as many as `available_read` says.  The two
byte operations are `push` and `pop` on that queue.
-/

namespace RCoreOS.Kernel

open List hiding Vector

/-- `RING_BUFFER_SIZE` -/
def ringBufferSize : Nat := 32

/-- `RingBufferStatus` -/
inductive RingBufferStatus where
  | full
  | empty
  | normal
deriving DecidableEq, Repr

/--
`PipeRingBuffer`.  `writeEnd` is the weak reference to the write end; the
number of strong ones is kept with the pipe.
-/
structure PipeRingBuffer where
  arr : Vector UInt8 ringBufferSize
  head : Nat
  tail : Nat
  status : RingBufferStatus
  writeEnd : Option Unit

namespace PipeRingBuffer

/-- `PipeRingBuffer::new` -/
def new : PipeRingBuffer where
  arr := Vector.replicate ringBufferSize 0
  head := 0
  tail := 0
  status := .empty
  writeEnd := none

/-- `PipeRingBuffer::set_write_end` -/
def setWriteEnd (self : PipeRingBuffer) : PipeRingBuffer :=
  { self with writeEnd := some () }

/-- `PipeRingBuffer::write_byte` -/
def writeByte (self : PipeRingBuffer) (byte : UInt8) :
    Except Stop PipeRingBuffer :=
  if inside : self.tail < ringBufferSize then
    let tail := (self.tail + 1) % ringBufferSize
    .ok { self with
      arr := self.arr.set self.tail byte inside
      tail
      status := if tail = self.head then .full else .normal }
  else
    .error .panicked

/-- `PipeRingBuffer::read_byte` -/
def readByte (self : PipeRingBuffer) : Except Stop (UInt8 × PipeRingBuffer) :=
  if inside : self.head < ringBufferSize then
    let head := (self.head + 1) % ringBufferSize
    .ok (self.arr.get ⟨self.head, inside⟩, { self with
      head
      status := if head = self.tail then .empty else .normal })
  else
    .error .panicked

/-- `PipeRingBuffer::available_read` -/
def availableRead (self : PipeRingBuffer) : Nat :=
  if self.status = .empty then 0
  else if self.head < self.tail then self.tail - self.head
  else self.tail + ringBufferSize - self.head

/-- `PipeRingBuffer::available_write` -/
def availableWrite (self : PipeRingBuffer) : Nat :=
  if self.status = .full then 0 else ringBufferSize - self.availableRead

/--
`PipeRingBuffer::all_write_ends_closed`: a weak reference cannot be upgraded
when there is no strong one.
-/
def allWriteEndsClosed (self : PipeRingBuffer) (strongCount : Nat) :
    Except Stop Bool :=
  match self.writeEnd with
  | some () => .ok (strongCount = 0)
  | none => .error .panicked

/-- The buffer holds these bytes, the oldest first. -/
structure Holds (ring : PipeRingBuffer) (bytes : List UInt8) : Prop where
  head_lt : ring.head < ringBufferSize
  length_le : bytes.length ≤ ringBufferSize
  tail_eq : ring.tail = (ring.head + bytes.length) % ringBufferSize
  empty_iff : ring.status = .empty ↔ bytes.length = 0
  full_iff : ring.status = .full ↔ bytes.length = ringBufferSize
  cell :
    ∀ (index : Nat) (inside : index < bytes.length),
      ring.arr[(ring.head + index) % ringBufferSize]? = some bytes[index]

variable {ring after : PipeRingBuffer} {bytes : List UInt8} {byte : UInt8}

theorem holds_new : new.setWriteEnd.Holds [] where
  head_lt := by decide
  length_le := by decide
  tail_eq := rfl
  empty_iff := by decide
  full_iff := by decide
  cell _ inside := absurd inside (Nat.not_lt_zero _)

theorem Holds.tail_lt (holds : ring.Holds bytes) :
    ring.tail < ringBufferSize := by
  rw [holds.tail_eq]
  exact Nat.mod_lt _ (by decide)

theorem Holds.availableRead_eq (holds : ring.Holds bytes) :
    ring.availableRead = bytes.length := by
  have headLt := holds.head_lt
  have lengthLe := holds.length_le
  have tailEq := holds.tail_eq
  have empty := holds.empty_iff
  rw [availableRead]
  simp only [ringBufferSize] at *
  split
  · next isEmpty => exact (empty.mp isEmpty).symm
  · next notEmpty =>
      have positive : bytes.length ≠ 0 := fun zero => notEmpty (empty.mpr zero)
      split <;> omega

theorem Holds.availableWrite_eq (holds : ring.Holds bytes) :
    ring.availableWrite = ringBufferSize - bytes.length := by
  rw [availableWrite, holds.availableRead_eq]
  split
  · next isFull => rw [holds.full_iff.mp isFull, Nat.sub_self]
  · rfl

/-- Two different offsets below the size are two different cells. -/
theorem cell_injective {head first second : Nat}
    (firstLt : first < ringBufferSize) (secondLt : second < ringBufferSize)
    (different : first ≠ second) :
    (head + first) % ringBufferSize ≠ (head + second) % ringBufferSize := by
  simp only [ringBufferSize] at *
  omega

/-- `write_byte` adds a byte at the end, if there is room. -/
theorem Holds.writeByte (holds : ring.Holds bytes)
    (room : bytes.length < ringBufferSize)
    (returned : ring.writeByte byte = .ok after) :
    after.Holds (bytes ++ [byte]) ∧ after.writeEnd = ring.writeEnd := by
  have headLt := holds.head_lt
  have tailEq := holds.tail_eq
  -- the tail meets the head exactly when the last cell is filled
  have wraps :
      (ring.tail + 1) % ringBufferSize = ring.head ↔
        bytes.length + 1 = ringBufferSize := by
    simp only [ringBufferSize] at *
    omega
  rw [PipeRingBuffer.writeByte, dif_pos holds.tail_lt] at returned
  cases returned
  refine ⟨⟨headLt, ?_, ?_, ?_, ?_, ?_⟩, rfl⟩
  · rw [length_append, length_singleton]
    exact room
  · change (ring.tail + 1) % ringBufferSize =
      (ring.head + (bytes ++ [byte]).length) % ringBufferSize
    rw [tailEq, length_append, length_singleton, Nat.mod_add_mod,
      Nat.add_assoc]
  · change (if (ring.tail + 1) % ringBufferSize = ring.head then _ else _) =
      RingBufferStatus.empty ↔ _
    rw [length_append, length_singleton]
    split <;> simp
  · change (if (ring.tail + 1) % ringBufferSize = ring.head then _ else _) =
      RingBufferStatus.full ↔ _
    rw [length_append, length_singleton, ← wraps]
    split <;> simp_all
  · intro index inside
    change (ring.arr.set ring.tail byte holds.tail_lt)[
      (ring.head + index) % ringBufferSize]? = _
    rw [length_append, length_singleton] at inside
    rw [Vector.getElem?_set]
    by_cases last : index = bytes.length
    · subst last
      rw [if_pos tailEq, getElem_concat_length rfl]
    · have earlier : index < bytes.length := by omega
      have other :
          ring.tail ≠ (ring.head + index) % ringBufferSize := by
        rw [tailEq]
        exact cell_injective room (by omega) (Ne.symm last)
      rw [if_neg other, getElem_append_left earlier]
      exact holds.cell index earlier

/-- `read_byte` takes out the oldest byte, if there is one. -/
theorem Holds.readByte {taken : UInt8}
    (holds : ring.Holds (byte :: bytes))
    (returned : ring.readByte = .ok (taken, after)) :
    taken = byte ∧ after.Holds bytes ∧ after.writeEnd = ring.writeEnd := by
  have headLt := holds.head_lt
  have tailEq := holds.tail_eq
  have lengthLe := holds.length_le
  rw [length_cons] at tailEq lengthLe
  have drains :
      (ring.head + 1) % ringBufferSize = ring.tail ↔ bytes.length = 0 := by
    simp only [ringBufferSize] at *
    omega
  rw [PipeRingBuffer.readByte, dif_pos headLt] at returned
  cases returned
  refine ⟨?_, ⟨?_, ?_, ?_, ?_, ?_, ?_⟩, rfl⟩
  · have first := holds.cell 0 (by simp)
    rw [Nat.add_zero, Nat.mod_eq_of_lt headLt,
      Vector.getElem?_eq_getElem headLt] at first
    exact Option.some.inj first
  · exact Nat.mod_lt _ (by decide)
  · omega
  · change ring.tail = ((ring.head + 1) % ringBufferSize + _) % ringBufferSize
    rw [tailEq, Nat.mod_add_mod]
    congr 1
    omega
  · change (if (ring.head + 1) % ringBufferSize = ring.tail then _ else _) =
      RingBufferStatus.empty ↔ _
    rw [← drains]
    split <;> simp_all
  · change (if (ring.head + 1) % ringBufferSize = ring.tail then _ else _) =
      RingBufferStatus.full ↔ _
    have short : bytes.length ≠ ringBufferSize := by omega
    split <;> simp [short]
  · intro index inside
    change ring.arr[((ring.head + 1) % ringBufferSize + index) %
      ringBufferSize]? = _
    have next := holds.cell (index + 1)
      (by rw [length_cons]; exact Nat.succ_lt_succ inside)
    rw [getElem_cons_succ] at next
    rw [← next, Nat.mod_add_mod]
    congr 2
    omega

end PipeRingBuffer

end RCoreOS.Kernel
