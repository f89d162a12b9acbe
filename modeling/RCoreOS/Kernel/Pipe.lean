import RCoreOS.Kernel.PipeRing

/-!
# Pipes

`Pipe::read` and `Pipe::write` of `os/src/fs/pipe.rs`, with any number of calls
in progress.  A step is one turn of the loop of one call, or something that
happens outside of the calls: a write end is duplicated or closed, or a user
program stores into its memory.  In the kernel a call is switched out only at
`suspend_current_and_run_next`; the machine lets other steps come between any
two turns.

The history of a run records every byte that `write_byte` put in and every
byte that `read_byte` took out, with the call and the address.
-/

namespace RCoreOS.Kernel

open Lib.FallibleRuns List

variable {α : Type}

/-! ## User buffers -/

/-- `UserBufferIterator`; a slice is the list of the addresses of its bytes. -/
structure UserBufferIterator (α : Type) where
  buffers : List (List α)
  currentBuffer : Nat
  currentIdx : Nat

namespace UserBufferIterator

/-- `UserBuffer::into_iter` -/
def new (buffers : List (List α)) : UserBufferIterator α := ⟨buffers, 0, 0⟩

/-- `UserBufferIterator::next` -/
def next (self : UserBufferIterator α) :
    Except Stop (Option α × UserBufferIterator α) :=
  match self.buffers[self.currentBuffer]? with
  | none => .ok (none, self)
  | some buffer =>
    match buffer[self.currentIdx]? with
    | none => .error .panicked
    | some address =>
      if self.currentIdx + 1 = buffer.length then
        .ok (some address, { self with
          currentIdx := 0
          currentBuffer := self.currentBuffer + 1 })
      else
        .ok (some address, { self with
          currentIdx := self.currentIdx + 1 })

/-- The addresses that are still to come. -/
def remaining (self : UserBufferIterator α) : List α :=
  (self.buffers.drop self.currentBuffer).flatten.drop self.currentIdx

theorem next_none {self after : UserBufferIterator α}
    (returned : self.next = .ok (none, after)) :
    self.remaining = [] ∧ after = self := by
  rw [next] at returned
  split at returned
  · next outside =>
      cases returned
      have beyond := List.getElem?_eq_none_iff.mp outside
      rw [remaining, drop_eq_nil_of_le beyond]
      exact ⟨drop_nil, rfl⟩
  · split at returned
    · cases returned
    · split at returned <;> cases returned

theorem next_some {self after : UserBufferIterator α} {address : α}
    (returned : self.next = .ok (some address, after)) :
    self.remaining = address :: after.remaining := by
  rw [next] at returned
  split at returned
  · cases returned
  · next buffer here =>
      obtain ⟨insideBuffers, bufferEq⟩ := List.getElem?_eq_some_iff.mp here
      have current :
          self.buffers.drop self.currentBuffer =
            buffer :: self.buffers.drop (self.currentBuffer + 1) := by
        rw [← bufferEq]
        exact drop_eq_getElem_cons insideBuffers
      split at returned
      · cases returned
      · next found atIdx =>
          obtain ⟨inside, foundEq⟩ := List.getElem?_eq_some_iff.mp atIdx
          have tail :
              self.remaining =
                found ::
                  (buffer.drop (self.currentIdx + 1) ++
                    (self.buffers.drop (self.currentBuffer + 1)).flatten) := by
            rw [remaining, current, flatten_cons,
              drop_append_of_le_length (Nat.le_of_lt inside),
              drop_eq_getElem_cons inside, foundEq, cons_append]
          split at returned
          · next last =>
              cases returned
              rw [tail, last, drop_length, nil_append]
              rfl
          · next notLast =>
              cases returned
              rw [tail, remaining, current, flatten_cons,
                drop_append_of_le_length inside]

end UserBufferIterator

/-! ## The loops -/

/-- The locals of `Pipe::read` and of `Pipe::write`. -/
structure Transfer (α : Type) where
  want : Nat
  already : Nat
  bufIter : UserBufferIterator α

/-- `want_to_read = buf.len()` and the iterator, before the loop starts. -/
def Transfer.new (buf : List (List α)) : Transfer α where
  want := (buf.map List.length).sum
  already := 0
  bufIter := .new buf

/-- What one turn of a loop did to a call, and the bytes that it moved. -/
structure Turn (α : Type) where
  ring : PipeRingBuffer
  transfer : Transfer α
  moved : List (α × UInt8)
  result : Option Nat

/-- Store bytes at addresses, one after the other. -/
def storeAll [DecidableEq α] (memory : α → UInt8)
    (moved : List (α × UInt8)) : α → UInt8 :=
  moved.foldl (fun memory (address, byte) =>
    Function.update memory address byte) memory

namespace Transfer

/-- `for _ in 0..loop_read` -/
def readBytes :
    Nat → PipeRingBuffer → Transfer α → Except Stop (Turn α)
  | 0, ring, transfer => return ⟨ring, transfer, [], none⟩
  | count + 1, ring, transfer => do
      let (found, bufIter) ← transfer.bufIter.next
      match found with
      | none => return ⟨ring, transfer, [], some transfer.already⟩
      | some address => do
          let (byte, ring) ← ring.readByte
          let transfer :=
            { transfer with bufIter, already := transfer.already + 1 }
          if transfer.already = transfer.want then
            return ⟨ring, transfer, [(address, byte)], some transfer.want⟩
          else do
            let turn ← readBytes count ring transfer
            return { turn with moved := (address, byte) :: turn.moved }

/-- `for _ in 0..loop_write`; the bytes are fetched from the user's memory. -/
def writeBytes (memory : α → UInt8) :
    Nat → PipeRingBuffer → Transfer α → Except Stop (Turn α)
  | 0, ring, transfer => return ⟨ring, transfer, [], none⟩
  | count + 1, ring, transfer => do
      let (found, bufIter) ← transfer.bufIter.next
      match found with
      | none => return ⟨ring, transfer, [], some transfer.already⟩
      | some address => do
          let ring ← ring.writeByte (memory address)
          let transfer :=
            { transfer with bufIter, already := transfer.already + 1 }
          if transfer.already = transfer.want then
            return ⟨ring, transfer, [(address, memory address)],
              some transfer.want⟩
          else do
            let turn ← writeBytes memory count ring transfer
            return { turn with
              moved := (address, memory address) :: turn.moved }

/-- One turn of the loop of `Pipe::read`. -/
def readTurn (transfer : Transfer α) (ring : PipeRingBuffer)
    (strongCount : Nat) : Except Stop (Turn α) :=
  if ring.availableRead = 0 then do
    let closed ← ring.allWriteEndsClosed strongCount
    return ⟨ring, transfer, [], if closed then some transfer.already else none⟩
  else
    readBytes ring.availableRead ring transfer

/-- One turn of the loop of `Pipe::write`. -/
def writeTurn (transfer : Transfer α) (memory : α → UInt8)
    (ring : PipeRingBuffer) : Except Stop (Turn α) :=
  if ring.availableWrite = 0 then
    return ⟨ring, transfer, [], none⟩
  else
    writeBytes memory ring.availableWrite ring transfer

/-- The call moved these bytes, to or from the next addresses of its buffer. -/
structure Moves (transfer : Transfer α) (turn : Turn α) : Prop where
  remaining_eq :
    transfer.bufIter.remaining =
      turn.moved.map Prod.fst ++ turn.transfer.bufIter.remaining
  want_eq : turn.transfer.want = transfer.want
  already_eq :
    turn.transfer.already = transfer.already + turn.moved.length
  returned :
    ∀ count, turn.result = some count → count = turn.transfer.already

variable {transfer : Transfer α} {ring : PipeRingBuffer} {turn : Turn α}
  {bytes : List UInt8}

variable {byte : UInt8}

theorem Moves.cons {address : α}
    {bufIter : UserBufferIterator α} {rest : Turn α}
    (found : transfer.bufIter.remaining = address :: bufIter.remaining)
    (moves :
      Moves { transfer with bufIter, already := transfer.already + 1 }
        rest) :
    Moves transfer { rest with moved := (address, byte) :: rest.moved } where
  remaining_eq := by
    rw [found]
    exact congrArg (address :: ·) moves.remaining_eq
  want_eq := moves.want_eq
  already_eq := by
    have already := moves.already_eq
    rw [length_cons]
    change rest.transfer.already = _
    rw [already]
    change transfer.already + 1 + _ = _
    omega
  returned := moves.returned

/-- The byte that completes a call. -/
theorem Moves.last {address : α}
    {bufIter : UserBufferIterator α}
    (found : transfer.bufIter.remaining = address :: bufIter.remaining)
    (last : transfer.already + 1 = transfer.want) :
    Moves transfer ⟨ring,
      { transfer with bufIter, already := transfer.already + 1 },
      [(address, byte)], some transfer.want⟩ where
  remaining_eq := found
  want_eq := rfl
  already_eq := rfl
  returned _ equal := (Option.some.inj equal).symm.trans last.symm

theorem Moves.none (ring : PipeRingBuffer) (transfer : Transfer α) :
    Moves transfer ⟨ring, transfer, [], none⟩ :=
  ⟨rfl, rfl, rfl, nofun⟩

/-- A call that ends with `already` bytes at the end of its buffer. -/
def Finishes (transfer : Transfer α) (turn : Turn α) : Prop :=
  ∀ count, turn.result = some count →
    turn.transfer.bufIter.remaining = [] ∨ count = transfer.want

section

variable (holds : ring.Holds bytes)

include holds

variable {count : Nat}

/-- The inner loop of `read` takes bytes out in the order they are held. -/
theorem readBytes_spec (enough : count ≤ bytes.length)
    (returned : readBytes count ring transfer = .ok turn) :
    Moves transfer turn ∧ Finishes transfer turn ∧
      turn.ring.writeEnd = ring.writeEnd ∧
      ∃ rest,
        bytes = turn.moved.map Prod.snd ++ rest ∧ turn.ring.Holds rest := by
  induction count generalizing ring transfer turn bytes with
  | zero =>
    cases returned
    exact ⟨.none ring transfer, nofun, rfl, bytes, rfl, holds⟩
  | succ count induction =>
    obtain ⟨⟨found, bufIter⟩, nextEq, rest⟩ := bind_eq_ok.mp returned
    cases found with
    | none =>
      cases rest
      obtain ⟨done, _⟩ := UserBufferIterator.next_none nextEq
      refine ⟨⟨rfl, rfl, rfl, ?_⟩, fun _ _ => .inl done, rfl, bytes, rfl,
        holds⟩
      intro result equal
      exact (Option.some.inj equal).symm
    | some address =>
      have more := UserBufferIterator.next_some nextEq
      obtain ⟨⟨byte, between⟩, readEq, rest⟩ := bind_eq_ok.mp rest
      cases bytes with
      | nil => exact absurd enough (Nat.not_succ_le_zero count)
      | cons first bytes =>
        obtain ⟨rfl, betweenHolds, sameEnd⟩ := holds.readByte readEq
        rw [length_cons] at enough
        dsimp only at rest
        split at rest
        · next last =>
            cases rest
            exact ⟨.last more last,
              fun _ equal => .inr (Option.some.inj equal).symm,
              sameEnd, bytes, rfl, betweenHolds⟩
        · obtain ⟨after, afterEq, rest⟩ := bind_eq_ok.mp rest
          cases rest
          obtain ⟨moves, finishes, stillEnd, left, split, leftHolds⟩ :=
            induction betweenHolds (by omega) afterEq
          exact ⟨moves.cons more, finishes, stillEnd.trans sameEnd,
            left, congrArg (byte :: ·) split, leftHolds⟩

/-- The inner loop of `write` adds the bytes at the end. -/
theorem writeBytes_spec {memory : α → UInt8}
    (room : bytes.length + count ≤ ringBufferSize)
    (returned : writeBytes memory count ring transfer = .ok turn) :
    Moves transfer turn ∧ Finishes transfer turn ∧
      turn.ring.writeEnd = ring.writeEnd ∧
      turn.ring.Holds (bytes ++ turn.moved.map Prod.snd) ∧
      ∀ address byte, (address, byte) ∈ turn.moved →
        byte = memory address := by
  induction count generalizing ring transfer turn bytes with
  | zero =>
    cases returned
    refine ⟨.none ring transfer, nofun, rfl, ?_, nofun⟩
    rw [map_nil, append_nil]
    exact holds
  | succ count induction =>
    obtain ⟨⟨found, bufIter⟩, nextEq, rest⟩ := bind_eq_ok.mp returned
    cases found with
    | none =>
      cases rest
      obtain ⟨done, _⟩ := UserBufferIterator.next_none nextEq
      refine ⟨⟨rfl, rfl, rfl, ?_⟩, fun _ _ => .inl done, rfl, ?_, nofun⟩
      · intro result equal
        exact (Option.some.inj equal).symm
      · rw [map_nil, append_nil]
        exact holds
    | some address =>
      have more := UserBufferIterator.next_some nextEq
      obtain ⟨between, writeEq, rest⟩ := bind_eq_ok.mp rest
      obtain ⟨betweenHolds, sameEnd⟩ := holds.writeByte (by omega) writeEq
      dsimp only at rest
      split at rest
      · next last =>
          cases rest
          refine ⟨.last more last,
            fun _ equal => .inr (Option.some.inj equal).symm, sameEnd,
            betweenHolds, ?_⟩
          intro other byte member
          cases mem_singleton.mp member
          rfl
      · obtain ⟨after, afterEq, rest⟩ := bind_eq_ok.mp rest
        cases rest
        obtain ⟨moves, finishes, stillEnd, afterHolds, fetched⟩ :=
          induction betweenHolds
            (by rw [length_append, length_singleton]; omega)
            afterEq
        refine ⟨moves.cons more, finishes, stillEnd.trans sameEnd, ?_, ?_⟩
        · rw [append_assoc] at afterHolds
          exact afterHolds
        · intro other byte member
          rcases mem_cons.mp member with equal | member
          · cases equal
            rfl
          · exact fetched other byte member

/--
A turn of `read` takes bytes out.  It ends the call early only when there are
no bytes and no write end.
-/
theorem readTurn_spec {strongCount : Nat}
    (hasEnd : ring.writeEnd = some ())
    (returned : transfer.readTurn ring strongCount = .ok turn) :
    Moves transfer turn ∧ turn.ring.writeEnd = some () ∧
      (∃ rest,
        bytes = turn.moved.map Prod.snd ++ rest ∧ turn.ring.Holds rest) ∧
      (Finishes transfer turn ∨
        (bytes = [] ∧ turn.moved = [] ∧ strongCount = 0)) := by
  rw [readTurn] at returned
  split at returned
  · next empty =>
      rw [holds.availableRead_eq] at empty
      have noBytes := eq_nil_of_length_eq_zero empty
      subst noBytes
      rw [PipeRingBuffer.allWriteEndsClosed, hasEnd] at returned
      cases returned
      by_cases closed : strongCount = 0
      · refine ⟨⟨rfl, rfl, rfl, ?_⟩, hasEnd, ⟨[], rfl, holds⟩,
          .inr ⟨rfl, rfl, closed⟩⟩
        simp [closed]
      · refine ⟨⟨rfl, rfl, rfl, ?_⟩, hasEnd, ⟨[], rfl, holds⟩, .inl ?_⟩
        · simp [closed]
        · simp [Finishes, closed]
  · rw [holds.availableRead_eq] at returned
    obtain ⟨moves, finishes, sameEnd, taken⟩ :=
      readBytes_spec holds (Nat.le_refl _) returned
    exact ⟨moves, sameEnd.trans hasEnd, taken, .inl finishes⟩

theorem writeTurn_spec {memory : α → UInt8}
    (returned : transfer.writeTurn memory ring = .ok turn) :
    Moves transfer turn ∧ Finishes transfer turn ∧
      turn.ring.writeEnd = ring.writeEnd ∧
      turn.ring.Holds (bytes ++ turn.moved.map Prod.snd) ∧
      ∀ address byte, (address, byte) ∈ turn.moved →
        byte = memory address := by
  rw [writeTurn] at returned
  split at returned
  · cases returned
    refine ⟨.none ring transfer, nofun, rfl, ?_, nofun⟩
    rw [map_nil, append_nil]
    exact holds
  · rw [holds.availableWrite_eq] at returned
    have lengthLe := holds.length_le
    exact writeBytes_spec holds (by omega) returned

end

end Transfer

/-! ## Pipes with calls in progress -/

inductive CallKind where
  | reading
  | writing
deriving DecidableEq, Repr

structure PipeCall (α : Type) where
  kind : CallKind
  transfer : Transfer α

/--
A pipe, the memory of its users and the calls that were made; a call that has
returned is `none`.  `handles` counts the entries of descriptor tables that
are the write end.
-/
structure PipeState (α : Type) where
  ring : PipeRingBuffer
  memory : α → UInt8
  handles : Nat
  calls : List (Option (PipeCall α))

inductive PipeOp (α : Type) where
  | call (kind : CallKind) (buf : List (List α))
  | turn (call : Nat)
  | dup
  | close
  | store (address : α) (byte : UInt8)

inductive PipeEvent (α : Type) where
  | called (kind : CallKind) (buf : List (List α))
  | turned (kind : CallKind) (call : Nat) (moved : List (α × UInt8))
      (result : Option Nat)
  | duplicated
  | closed
  | stored (address : α) (byte : UInt8)

namespace PipeState

/-- `make_pipe` -/
def makePipe (memory : α → UInt8) : PipeState α where
  ring := PipeRingBuffer.new.setWriteEnd
  memory
  handles := 1
  calls := []

def isWriting : Option (PipeCall α) → Bool
  | some ⟨.writing, _⟩ => true
  | _ => false

/--
`Arc::strong_count` of the write end: `sys_write` has a clone of its own while
its call runs.
-/
def strongCount (state : PipeState α) : Nat :=
  state.handles + state.calls.countP isWriting

/-- The call goes on, or has returned. -/
def afterTurn (kind : CallKind) (turn : Turn α) : Option (PipeCall α) :=
  match turn.result with
  | none => some ⟨kind, turn.transfer⟩
  | some _ => none

/-- A call writes through a handle that was not closed. -/
def MayCall (state : PipeState α) : CallKind → Prop
  | .reading => True
  | .writing => 0 < state.handles

instance (state : PipeState α) (kind : CallKind) :
    Decidable (state.MayCall kind) :=
  match kind with
  | .reading => isTrue trivial
  | .writing => inferInstanceAs (Decidable (0 < state.handles))

variable [DecidableEq α]

/-- One turn of one call, or what happens outside of the calls. -/
def step (state : PipeState α) :
    PipeOp α → Except Stop (PipeState α × PipeEvent α)
  | .call kind buf =>
    if state.MayCall kind then
      return ({ state with
          calls := state.calls ++ [some ⟨kind, .new buf⟩] },
        .called kind buf)
    else .error .notRunnable
  | .turn call =>
    match state.calls[call]? with
    | some (some ⟨.reading, transfer⟩) => do
        let turn ← transfer.readTurn state.ring state.strongCount
        return ({ state with
            ring := turn.ring
            memory := storeAll state.memory turn.moved
            calls := state.calls.set call (afterTurn .reading turn) },
          .turned .reading call turn.moved turn.result)
    | some (some ⟨.writing, transfer⟩) => do
        let turn ← transfer.writeTurn state.memory state.ring
        return ({ state with
            ring := turn.ring
            calls := state.calls.set call (afterTurn .writing turn) },
          .turned .writing call turn.moved turn.result)
    | _ => .error .notRunnable
  | .dup =>
    if 0 < state.handles then
      return ({ state with handles := state.handles + 1 }, .duplicated)
    else .error .notRunnable
  | .close =>
    if 0 < state.handles then
      return ({ state with handles := state.handles - 1 }, .closed)
    else .error .notRunnable
  | .store address byte =>
    return ({ state with
        memory := Function.update state.memory address byte },
      .stored address byte)

end PipeState

end RCoreOS.Kernel
