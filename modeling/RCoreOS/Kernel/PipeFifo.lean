import RCoreOS.Kernel.Pipe

/-!
# Pipes lose and reorder nothing

The history of a run of a pipe gives the bytes that were put in and the bytes
that were taken out.  The bytes in the ring buffer are the difference.  A call
in progress has moved the bytes of a first part of its buffer and has the rest
in its iterator.
-/

namespace RCoreOS.Kernel.PipeState

open Lib.FallibleRuns List

variable {α : Type}

/-! ## What the history says -/

section

variable (events : List (PipeEvent α))

/-- The calls that were made; the position is the number of the call. -/
def begun : List (CallKind × List (List α)) :=
  events.filterMap fun
    | .called kind buf => some (kind, buf)
    | _ => none

/-- The bytes that calls of one kind moved. -/
def movedIn (kind : CallKind) : List (α × UInt8) :=
  events.flatMap fun
    | .turned other _ moved _ => if other = kind then moved else []
    | _ => []

/-- The bytes that one call moved. -/
def movedBy (kind : CallKind) (call : Nat) : List (α × UInt8) :=
  events.flatMap fun
    | .turned otherKind other moved _ =>
      if otherKind = kind ∧ other = call then moved else []
    | _ => []

/-- The bytes put in by `write_byte`. -/
def putBytes : List UInt8 := (movedIn events .writing).map Prod.snd

/-- The bytes taken out by `read_byte`. -/
def takenBytes : List UInt8 := (movedIn events .reading).map Prod.snd

end

variable {first second : List (PipeEvent α)} {kind : CallKind} {call : Nat}

theorem begun_append : begun (first ++ second) = begun first ++ begun second :=
  filterMap_append

theorem movedBy_append :
    movedBy (first ++ second) kind call =
      movedBy first kind call ++ movedBy second kind call :=
  flatMap_append

/-- The bytes of one call appear in their order among those of its kind. -/
theorem movedBy_sublist (events : List (PipeEvent α)) :
    (movedBy events kind call).Sublist (movedIn events kind) := by
  induction events with
  | nil => exact List.Sublist.refl []
  | cons event rest induction =>
    refine List.Sublist.append ?_ induction
    cases event with
    | turned otherKind other moved result =>
      dsimp only
      by_cases same : otherKind = kind
      · rw [if_pos same]
        split
        · exact List.Sublist.refl moved
        · exact nil_sublist moved
      · rw [if_neg same, if_neg fun both => same both.1]
    | _ => exact List.Sublist.refl []

theorem putBytes_append :
    putBytes (first ++ second) = putBytes first ++ putBytes second := by
  rw [putBytes, movedIn, flatMap_append, map_append]
  rfl

theorem takenBytes_append :
    takenBytes (first ++ second) = takenBytes first ++ takenBytes second := by
  rw [takenBytes, movedIn, flatMap_append, map_append]
  rfl

/-! ## Calls in progress -/

/-- A call in progress has moved a first part of its buffer. -/
structure Follows (buf : List (List α)) (moved : List (α × UInt8))
    (transfer : Transfer α) : Prop where
  flatten_eq :
    buf.flatten = moved.map Prod.fst ++ transfer.bufIter.remaining
  want_eq : transfer.want = buf.flatten.length
  already_eq : transfer.already = moved.length

theorem Follows.new (buf : List (List α)) :
    Follows buf [] (Transfer.new buf) where
  flatten_eq := rfl
  want_eq := length_flatten.symm
  already_eq := rfl

theorem Follows.turn {buf : List (List α)} {moved : List (α × UInt8)}
    {transfer : Transfer α} {turn : Turn α}
    (follows : Follows buf moved transfer) (moves : transfer.Moves turn) :
    Follows buf (moved ++ turn.moved) turn.transfer where
  flatten_eq := by
    rw [follows.flatten_eq, moves.remaining_eq, map_append, append_assoc]
  want_eq := moves.want_eq.trans follows.want_eq
  already_eq := by
    rw [moves.already_eq, follows.already_eq, length_append]

/-- A call that finishes has moved its whole buffer. -/
theorem Follows.finished {buf : List (List α)} {moved : List (α × UInt8)}
    {transfer : Transfer α} {turn : Turn α} {count : Nat}
    (follows : Follows buf moved transfer) (moves : transfer.Moves turn)
    (finishes : transfer.Finishes turn) (result : turn.result = some count) :
    count = buf.flatten.length := by
  have later := follows.turn moves
  rcases finishes count result with done | full
  · rw [moves.returned count result, later.already_eq, later.flatten_eq,
      done, append_nil, length_map]
  · rw [full, follows.want_eq]

/-- No call that writes is in progress when there is no strong reference. -/
theorem strongCount_eq_zero {state : PipeState α} :
    state.strongCount = 0 ↔
      state.handles = 0 ∧
        ∀ call ∈ state.calls, isWriting call = false := by
  rw [strongCount, Nat.add_eq_zero_iff, countP_eq_zero]
  simp

variable [DecidableEq α]

/-- What an event does to the memory of the users. -/
def remember (memory : α → UInt8) : PipeEvent α → α → UInt8
  | .stored address byte => Function.update memory address byte
  | .turned .reading _ moved _ => storeAll memory moved
  | _ => memory

def memoryAfter (memory : α → UInt8) (events : List (PipeEvent α)) :
    α → UInt8 :=
  events.foldl remember memory

theorem memoryAfter_concat (memory : α → UInt8)
    (events : List (PipeEvent α)) (event : PipeEvent α) :
    memoryAfter memory (events ++ [event]) =
      remember (memoryAfter memory events) event := by
  rw [memoryAfter, foldl_append]
  rfl

/-! ## What a step can do -/

/-- The steps of a pipe that holds `bytes`. -/
inductive Steps (state : PipeState α) (bytes : List UInt8) :
    PipeState α → PipeEvent α → Prop where
  | called {kind : CallKind} {buf : List (List α)}
      (may : state.MayCall kind) :
      Steps state bytes
        { state with calls := state.calls ++ [some ⟨kind, .new buf⟩] }
        (.called kind buf)
  | turned {kind : CallKind} {call : Nat} {transfer : Transfer α}
      {turn : Turn α} {rest : List UInt8}
      (active : state.calls[call]? = some (some ⟨kind, transfer⟩))
      (moves : transfer.Moves turn)
      (hasEnd : turn.ring.writeEnd = some ())
      (holds : turn.ring.Holds rest)
      (queue :
        bytes ++ putBytes [.turned kind call turn.moved turn.result] =
          takenBytes [.turned kind call turn.moved turn.result] ++ rest)
      (fetched :
        kind = .writing → ∀ address byte, (address, byte) ∈ turn.moved →
          byte = state.memory address)
      (finishes :
        transfer.Finishes turn ∨
          (kind = .reading ∧ bytes = [] ∧ turn.moved = [] ∧
            state.strongCount = 0)) :
      Steps state bytes
        { state with
          ring := turn.ring
          memory := remember state.memory
            (.turned kind call turn.moved turn.result)
          calls := state.calls.set call (afterTurn kind turn) }
        (.turned kind call turn.moved turn.result)
  | duplicated (live : 0 < state.handles) :
      Steps state bytes { state with handles := state.handles + 1 }
        .duplicated
  | closed (live : 0 < state.handles) :
      Steps state bytes { state with handles := state.handles - 1 } .closed
  | stored {address : α} {byte : UInt8} :
      Steps state bytes
        { state with memory := Function.update state.memory address byte }
        (.stored address byte)

variable {state after : PipeState α} {bytes : List UInt8}
  {event : PipeEvent α}

theorem step_steps {operation : PipeOp α}
    (hasEnd : state.ring.writeEnd = some ()) (holds : state.ring.Holds bytes)
    (returned : state.step operation = .ok (after, event)) :
    Steps state bytes after event := by
  cases operation with
  | call kind buf =>
    rw [step] at returned
    split at returned
    · next may =>
        cases returned
        exact .called may
    · cases returned
  | turn call =>
    rw [step] at returned
    split at returned
    · next transfer active =>
        obtain ⟨turn, turnEq, rest⟩ := bind_eq_ok.mp returned
        cases rest
        obtain ⟨moves, stillEnd, ⟨rest, split, restHolds⟩, finishes⟩ :=
          Transfer.readTurn_spec holds hasEnd turnEq
        refine .turned active moves stillEnd restHolds ?_ nofun ?_
        · simpa [putBytes, takenBytes, movedIn] using split
        · exact finishes.imp_right fun ⟨empty, idle, closed⟩ =>
            ⟨rfl, empty, idle, closed⟩
    · next transfer active =>
        obtain ⟨turn, turnEq, rest⟩ := bind_eq_ok.mp returned
        cases rest
        obtain ⟨moves, finishes, sameEnd, turnHolds, fetched⟩ :=
          Transfer.writeTurn_spec holds turnEq
        refine .turned active moves (sameEnd.trans hasEnd) turnHolds ?_
          (fun _ => fetched) (.inl finishes)
        simp [putBytes, takenBytes, movedIn]
    · cases returned
  | dup =>
    rw [step] at returned
    split at returned
    · next live =>
        cases returned
        exact .duplicated live
    · cases returned
  | close =>
    rw [step] at returned
    split at returned
    · next live =>
        cases returned
        exact .closed live
    · cases returned
  | store address byte =>
    cases returned
    exact .stored

/-! ## Closed pipes -/

/-- A pipe without write ends stays so, and nothing more is put in. -/
theorem Steps.closed_stays (steps : Steps state bytes after event)
    (none : state.strongCount = 0) :
    after.strongCount = 0 ∧ putBytes [event] = [] := by
  obtain ⟨noHandles, noWriters⟩ := strongCount_eq_zero.mp none
  cases steps with
  | @called kind buf may =>
    cases kind with
    | reading =>
      refine ⟨strongCount_eq_zero.mpr ⟨noHandles, ?_⟩, rfl⟩
      intro call member
      rcases mem_append.mp member with member | member
      · exact noWriters call member
      · cases mem_singleton.mp member
        rfl
    | writing => exact absurd noHandles (Nat.ne_of_gt may)
  | @turned kind call transfer turn rest active _ _ _ _ _ _ =>
    cases kind with
    | reading =>
      refine ⟨strongCount_eq_zero.mpr ⟨noHandles, ?_⟩, rfl⟩
      intro other member
      rcases mem_or_eq_of_mem_set member with member | rfl
      · exact noWriters other member
      · rw [afterTurn]
        split <;> rfl
    | writing => cases noWriters _ (mem_of_getElem? active)
  | duplicated live => exact absurd noHandles (Nat.ne_of_gt live)
  | closed live => exact absurd noHandles (Nat.ne_of_gt live)
  | stored => exact ⟨none, rfl⟩

/-! ## The invariant -/

structure Traced (memory : α → UInt8) (state : PipeState α)
    (events : List (PipeEvent α)) (bytes : List UInt8) : Prop where
  hasEnd : state.ring.writeEnd = some ()
  holds : state.ring.Holds bytes
  put_eq : putBytes events = takenBytes events ++ bytes
  memory_eq : state.memory = memoryAfter memory events
  begun_length : (begun events).length = state.calls.length
  fresh :
    ∀ kind call, state.calls.length ≤ call → movedBy events kind call = []
  active :
    ∀ call kind transfer,
      state.calls[call]? = some (some ⟨kind, transfer⟩) →
        ∃ buf, (begun events)[call]? = some (kind, buf) ∧
          Follows buf (movedBy events kind call) transfer

variable {memory : α → UInt8} {events : List (PipeEvent α)}

theorem Traced.new (memory : α → UInt8) :
    Traced memory (makePipe memory) [] [] where
  hasEnd := rfl
  holds := PipeRingBuffer.holds_new
  put_eq := rfl
  memory_eq := rfl
  begun_length := rfl
  fresh _ _ _ := rfl
  active _ _ _ present := by cases present

/-- An event that moves no bytes and begins no call. -/
theorem Traced.still (traced : Traced memory state events bytes)
    (putNone : putBytes [event] = []) (takenNone : takenBytes [event] = [])
    (begunNone : begun [event] = [])
    (movedNone : ∀ kind call, movedBy [event] kind call = [])
    (remembered : after.memory = remember state.memory event)
    (sameRing : after.ring = state.ring)
    (sameCalls : after.calls = state.calls) :
    Traced memory after (events ++ [event]) bytes where
  hasEnd := sameRing ▸ traced.hasEnd
  holds := sameRing ▸ traced.holds
  put_eq := by
    rw [putBytes_append, takenBytes_append, putNone, takenNone,
      append_nil, append_nil]
    exact traced.put_eq
  memory_eq := by
    rw [memoryAfter_concat, ← traced.memory_eq]
    exact remembered
  begun_length := by
    rw [begun_append, begunNone, append_nil, sameCalls]
    exact traced.begun_length
  fresh kind call beyond := by
    rw [movedBy_append, movedNone, append_nil]
    rw [sameCalls] at beyond
    exact traced.fresh kind call beyond
  active call kind transfer present := by
    rw [sameCalls] at present
    rw [begun_append, begunNone, movedBy_append, movedNone, append_nil,
      append_nil]
    exact traced.active call kind transfer present

theorem Traced.called (traced : Traced memory state events bytes)
    (kind : CallKind) (buf : List (List α)) :
    Traced memory
      { state with calls := state.calls ++ [some ⟨kind, .new buf⟩] }
      (events ++ [.called kind buf]) bytes where
  hasEnd := traced.hasEnd
  holds := traced.holds
  put_eq := by
    rw [putBytes_append, takenBytes_append]
    exact (append_nil _).trans
      (traced.put_eq.trans (by rw [append_assoc]; rfl))
  memory_eq := by
    rw [memoryAfter_concat, ← traced.memory_eq]
    rfl
  begun_length := by
    rw [begun_append, length_append, length_append, traced.begun_length]
    rfl
  fresh kind call beyond := by
    rw [length_append] at beyond
    rw [movedBy_append,
      traced.fresh kind call (Nat.le_trans (Nat.le_add_right _ _) beyond)]
    rfl
  active call otherKind transfer present := by
    rw [begun_append, movedBy_append]
    change ∃ other, (begun events ++ [(kind, buf)])[call]? = _ ∧
      Follows other (movedBy events otherKind call ++ []) transfer
    rw [append_nil]
    rcases Nat.lt_trichotomy call state.calls.length with
      old | rfl | beyond
    · rw [getElem?_append_left old] at present
      rw [getElem?_append_left (by rw [traced.begun_length]; exact old)]
      exact traced.active call otherKind transfer present
    · rw [getElem?_concat_length] at present
      cases present
      refine ⟨buf, ?_, ?_⟩
      · rw [← traced.begun_length, getElem?_concat_length]
      · rw [traced.fresh kind _ (Nat.le_refl _)]
        exact Follows.new buf
    · rw [getElem?_eq_none] at present
      · cases present
      · rw [length_append, length_singleton]
        exact beyond

omit [DecidableEq α] in
theorem movedBy_turned {other : CallKind} {otherCall : Nat}
    {moved : List (α × UInt8)} {result : Option Nat} :
    movedBy [.turned kind call moved result] other otherCall =
      if kind = other ∧ call = otherCall then moved else [] :=
  append_nil _

theorem Traced.turned (traced : Traced memory state events bytes)
    {transfer : Transfer α} {turn : Turn α} {rest : List UInt8}
    (active : state.calls[call]? = some (some ⟨kind, transfer⟩))
    (moves : transfer.Moves turn) (hasEnd : turn.ring.writeEnd = some ())
    (holds : turn.ring.Holds rest)
    (queue :
      bytes ++ putBytes [.turned kind call turn.moved turn.result] =
        takenBytes [.turned kind call turn.moved turn.result] ++ rest) :
    Traced memory
      { state with
        ring := turn.ring
        memory := remember state.memory
          (.turned kind call turn.moved turn.result)
        calls := state.calls.set call (afterTurn kind turn) }
      (events ++ [.turned kind call turn.moved turn.result]) rest where
  hasEnd := hasEnd
  holds := holds
  put_eq := by
    rw [putBytes_append, takenBytes_append, traced.put_eq, append_assoc,
      queue, append_assoc]
  memory_eq := by rw [memoryAfter_concat, ← traced.memory_eq]
  begun_length := by
    rw [begun_append, length_set, ← traced.begun_length, length_append]
    rfl
  fresh otherKind other beyond := by
    rw [length_set] at beyond
    have inside := (List.getElem?_eq_some_iff.mp active).1
    rw [movedBy_append, traced.fresh otherKind other beyond, movedBy_turned,
      if_neg (by omega)]
    rfl
  active other otherKind otherTransfer present := by
    rw [begun_append, movedBy_append, movedBy_turned]
    change ∃ buf, (begun events ++ [])[other]? = _ ∧ _
    rw [append_nil]
    by_cases same : call = other
    · subst same
      rw [getElem?_set_self (List.getElem?_eq_some_iff.mp active).1,
        afterTurn] at present
      split at present
      · cases present
        obtain ⟨buf, isBegun, follows⟩ := traced.active call kind transfer active
        rw [if_pos ⟨rfl, rfl⟩]
        exact ⟨buf, isBegun, follows.turn moves⟩
      · cases present
    · rw [getElem?_set_ne same] at present
      rw [if_neg (fun both => same both.2), append_nil]
      exact traced.active other otherKind otherTransfer present

theorem Traced.step (traced : Traced memory state events bytes)
    (steps : Steps state bytes after event) :
    ∃ rest, Traced memory after (events ++ [event]) rest := by
  cases steps with
  | @called kind buf _ => exact ⟨bytes, traced.called kind buf⟩
  | turned active moves hasEnd holds queue _ _ =>
    exact ⟨_, traced.turned active moves hasEnd holds queue⟩
  | duplicated _
  | closed _
  | stored =>
    exact ⟨bytes, traced.still rfl rfl rfl (fun _ _ => rfl) rfl rfl rfl⟩

/-! ## First in, first out -/

/-- What is known about single calls after a run. -/
structure CallsTraced (memory : α → UInt8) (state : PipeState α)
    (events : List (PipeEvent α)) : Prop where
  order :
    ∀ call kind buf, (begun events)[call]? = some (kind, buf) →
      (movedBy events kind call).map Prod.fst <+: buf.flatten
  -- a byte that is put in is the one in memory at that time
  fetched :
    ∀ earlier call moved result later,
      events = earlier ++ .turned .writing call moved result :: later →
        ∀ address byte, (address, byte) ∈ moved →
          byte = memoryAfter memory earlier address
  returned :
    ∀ earlier kind call moved count later,
      events = earlier ++ .turned kind call moved (some count) :: later →
        ∃ buf, (begun earlier)[call]? = some (kind, buf) ∧
          count =
            (movedBy (earlier ++ [.turned kind call moved (some count)])
              kind call).length ∧
          (count < buf.flatten.length →
            kind = .reading ∧ state.strongCount = 0 ∧
              putBytes events =
                takenBytes
                  (earlier ++ [.turned kind call moved (some count)]))

/-- What is known after a run that started with the users' `memory`. -/
structure Fifo (memory : α → UInt8) (state : PipeState α)
    (events : List (PipeEvent α)) : Prop
    extends CallsTraced memory state events where
  taken_first : takenBytes events <+: putBytes events
  difference :
    (putBytes events).length =
      (takenBytes events).length + state.ring.availableRead
  difference_le : state.ring.availableRead ≤ 32
  head_lt : state.ring.head < 32
  tail_lt : state.ring.tail < 32
  empty_iff : state.ring.status = .empty ↔ state.ring.availableRead = 0
  full_iff : state.ring.status = .full ↔ state.ring.availableRead = 32
  available_sum :
    state.ring.availableRead + state.ring.availableWrite = 32
  call_sublist :
    ∀ kind call, (movedBy events kind call).Sublist (movedIn events kind)

section

variable (traced : Traced memory state events bytes)

include traced

theorem Traced.order_step
    (order :
      ∀ call kind buf, (begun events)[call]? = some (kind, buf) →
        (movedBy events kind call).map Prod.fst <+: buf.flatten)
    (steps : Steps state bytes after event) {buf : List (List α)}
    (isBegun : (begun (events ++ [event]))[call]? = some (kind, buf)) :
    (movedBy (events ++ [event]) kind call).map Prod.fst <+:
      buf.flatten := by
  rw [begun_append] at isBegun
  rw [movedBy_append]
  cases steps with
  | @called otherKind otherBuf _ =>
    change (begun events ++ [(otherKind, otherBuf)])[call]? = _ at isBegun
    change (movedBy events kind call ++ []).map Prod.fst <+: _
    rw [append_nil]
    by_cases old : call < (begun events).length
    · rw [getElem?_append_left old] at isBegun
      exact order call kind buf isBegun
    · rw [traced.fresh kind call
        (by rw [← traced.begun_length]; exact Nat.le_of_not_lt old)]
      exact nil_prefix
  | @turned otherKind other transfer turn _ active moves _ _ _ _ _ =>
    change (begun events ++ [])[call]? = _ at isBegun
    rw [append_nil] at isBegun
    rw [movedBy_turned]
    split
    · next same =>
        obtain ⟨rfl, rfl⟩ := same
        obtain ⟨otherBuf, otherBegun, follows⟩ :=
          traced.active other otherKind transfer active
        rw [isBegun] at otherBegun
        cases otherBegun
        rw [(follows.turn moves).flatten_eq]
        exact prefix_append _ _
    · rw [append_nil]
      exact order call kind buf isBegun
  | duplicated _ | closed _ | stored =>
    change (begun events ++ [])[call]? = _ at isBegun
    change (movedBy events kind call ++ []).map Prod.fst <+: _
    rw [append_nil] at isBegun ⊢
    exact order call kind buf isBegun

/-- A call that returns in this step has moved all of its buffer or is a read
from a pipe that is empty and has no write end. -/
theorem Traced.result_step {moved : List (α × UInt8)} {count : Nat}
    (steps :
      Steps state bytes after (.turned kind call moved (some count))) :
    ∃ buf, (begun events)[call]? = some (kind, buf) ∧
      count =
        (movedBy (events ++ [.turned kind call moved (some count)])
          kind call).length ∧
      (count < buf.flatten.length →
        kind = .reading ∧ state.strongCount = 0 ∧
          putBytes (events ++ [.turned kind call moved (some count)]) =
            takenBytes
              (events ++ [.turned kind call moved (some count)])) := by
  generalize shown :
    PipeEvent.turned kind call moved (some count) = event at steps
  cases steps with
  | @turned otherKind other transfer turn rest active moves _ _ queue _
      finishes =>
      injection shown with sameKind sameCall sameMoved sameResult
      subst sameKind sameCall sameMoved
      obtain ⟨buf, isBegun, follows⟩ := traced.active call kind transfer active
      refine ⟨buf, isBegun, ?_, ?_⟩
      · rw [movedBy_append, movedBy_turned, if_pos ⟨rfl, rfl⟩,
          ← (follows.turn moves).already_eq,
          moves.returned count sameResult.symm]
      · intro short
        rcases finishes with finishes | ⟨reading, empty, idle, closed⟩
        · have full := follows.finished moves finishes sameResult.symm
          omega
        · refine ⟨reading, closed, ?_⟩
          rw [putBytes_append, takenBytes_append, traced.put_eq, empty, idle,
            append_nil]
          simp [putBytes, takenBytes, movedIn]
  | _ => cases shown

theorem CallsTraced.step (calls : CallsTraced memory state events)
    (steps : Steps state bytes after event) :
    CallsTraced memory after (events ++ [event]) where
  order _ _ _ := traced.order_step calls.order steps
  fetched earlier call moved result later split := by
    rcases concat_eq_split.mp split with
      ⟨_, rfl, rfl⟩ | ⟨between, _, earlierSplit⟩
    · rw [← traced.memory_eq]
      generalize shown :
        PipeEvent.turned .writing call moved result = event at steps
      cases steps with
      | turned _ _ _ _ _ fetched _ =>
        injection shown with sameKind _ sameMoved _
        subst sameMoved
        exact fetched sameKind.symm
      | _ => cases shown
    · exact calls.fetched earlier call moved result between earlierSplit
  returned earlier kind call moved count later split := by
    rcases concat_eq_split.mp split with
      ⟨_, rfl, rfl⟩ | ⟨between, _, earlierSplit⟩
    · obtain ⟨buf, isBegun, counted, early⟩ := traced.result_step steps
      refine ⟨buf, isBegun, counted, fun short => ?_⟩
      obtain ⟨reading, closed, drained⟩ := early short
      exact ⟨reading, (steps.closed_stays closed).1, drained⟩
    · obtain ⟨buf, isBegun, counted, early⟩ :=
        calls.returned earlier kind call moved count between earlierSplit
      refine ⟨buf, isBegun, counted, fun short => ?_⟩
      obtain ⟨reading, closed, drained⟩ := early short
      obtain ⟨stays, nothing⟩ := steps.closed_stays closed
      refine ⟨reading, stays, ?_⟩
      rw [putBytes_append, nothing, append_nil]
      exact drained

theorem Traced.fifo (calls : CallsTraced memory state events) :
    Fifo memory state events where
  toCallsTraced := calls
  taken_first := by
    rw [traced.put_eq]
    exact prefix_append _ _
  difference := by
    rw [traced.put_eq, length_append, traced.holds.availableRead_eq]
  difference_le := by
    rw [traced.holds.availableRead_eq]
    exact traced.holds.length_le
  head_lt := traced.holds.head_lt
  tail_lt := traced.holds.tail_lt
  empty_iff := by
    rw [traced.holds.availableRead_eq]
    exact traced.holds.empty_iff
  full_iff := by
    rw [traced.holds.availableRead_eq]
    exact traced.holds.full_iff
  available_sum := by
    rw [traced.holds.availableRead_eq, traced.holds.availableWrite_eq]
    exact Nat.add_sub_of_le traced.holds.length_le
  call_sublist _ _ := movedBy_sublist events

end

/--
Pipes are first in, first out and lose nothing, after every sequence of steps
of any number of calls with any buffers.
-/
theorem pipe_is_fifo (memory : α → UInt8) {ops : List (PipeOp α)}
    (ran : run step (makePipe memory) ops = .ok (after, events)) :
    Fifo memory after events := by
  have history :
      (∃ bytes, Traced memory after ([] ++ events) bytes) ∧
        CallsTraced memory after ([] ++ events) :=
    run_history
      (fun state events =>
        (∃ bytes, Traced memory state events bytes) ∧
          CallsTraced memory state events)
      (by
        rintro state after operation earlier shown
          ⟨⟨bytes, traced⟩, calls⟩ stepEq
        have steps := step_steps traced.hasEnd traced.holds stepEq
        exact ⟨traced.step steps, calls.step traced steps⟩)
      ⟨⟨[], Traced.new memory⟩, ⟨nofun, by simp, by simp⟩⟩ ran
  obtain ⟨⟨bytes, traced⟩, calls⟩ := history
  exact traced.fifo calls

/-- A read of four bytes from a pipe that is closed after three. -/
def closedEarly : List (PipeOp Nat) :=
  [.call .writing [[0, 1], [2]], .turn 0, .call .reading [[10, 11, 12, 13]],
    .turn 1, .close, .turn 1]

theorem pipe_is_fifo_closedEarly :
    ∃ after,
      run step (makePipe UInt8.ofNat) closedEarly =
          .ok (after,
            [.called .writing [[0, 1], [2]],
              .turned .writing 0 [(0, 0), (1, 1), (2, 2)] (some 3),
              .called .reading [[10, 11, 12, 13]],
              .turned .reading 1 [(10, 0), (11, 1), (12, 2)] none,
              .closed, .turned .reading 1 [] (some 3)]) ∧
        Fifo UInt8.ofNat after
          [.called .writing [[0, 1], [2]],
            .turned .writing 0 [(0, 0), (1, 1), (2, 2)] (some 3),
            .called .reading [[10, 11, 12, 13]],
            .turned .reading 1 [(10, 0), (11, 1), (12, 2)] none,
            .closed, .turned .reading 1 [] (some 3)] := by
  obtain ⟨after, ran⟩ :
      ∃ after,
        run step (makePipe UInt8.ofNat) closedEarly =
          .ok (after,
            [.called .writing [[0, 1], [2]],
              .turned .writing 0 [(0, 0), (1, 1), (2, 2)] (some 3),
              .called .reading [[10, 11, 12, 13]],
              .turned .reading 1 [(10, 0), (11, 1), (12, 2)] none,
              .closed, .turned .reading 1 [] (some 3)]) :=
    ⟨_, rfl⟩
  exact ⟨after, ran, pipe_is_fifo _ ran⟩

end RCoreOS.Kernel.PipeState
