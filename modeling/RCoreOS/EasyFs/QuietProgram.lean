import RCoreOS.EasyFs.BlockView

/-!
# Programs that leave the device up to date

The device is up to date, or settled, when it holds what the cache shows.
After `block_cache_sync_all` it is.  A program that modifies blocks may leave
it behind, but not one that is quiet: each of its modifications stores what
the block already holds, so that a later write-back changes nothing.
-/

namespace RCoreOS.EasyFs

open List

namespace CacheState

variable {before after : CacheState}

theorem Settled.of_same
    (settled : before.Settled) (view : after.view = before.view)
    (device : after.device = before.device) : after.Settled := by
  intro blockId
  rw [view, device]
  exact settled blockId

end CacheState

namespace BlockProg

open Lib.FallibleRuns (bind_eq_ok)

variable {α β : Type} {state after : CacheState} {value : α}

/-! ## Running on the cache -/

theorem run_bind
    (program : BlockProg α) (rest : α → BlockProg β) (state : CacheState) :
    (program >>= rest).run state =
      (program.run state).bind fun outcome =>
        (rest outcome.1).run outcome.2 := by
  show (program.bind rest).run state = _
  induction program generalizing state with
  | done value => rfl
  | fail fault => rfl
  | read blockId body next _ ih =>
    simp only [bind, run]
    cases state.acquire blockId with
    | error fault => rfl
    | ok acquired =>
      obtain ⟨arc, locked⟩ := acquired
      show ((body (locked.heap arc).inner.cache).run locked >>= _) =
        Except.bind
          ((body (locked.heap arc).inner.cache).run locked >>= _) _
      cases (body (locked.heap arc).inner.cache).run locked with
      | error fault => rfl
      | ok outcome => exact ih outcome.1 rest _
  | modify blockId body next _ ih =>
    simp only [bind, run]
    cases state.acquire blockId with
    | error fault => rfl
    | ok acquired =>
      obtain ⟨arc, locked⟩ := acquired
      show ((body ((locked.markModified arc).heap arc).inner.cache).run
            (locked.markModified arc) >>= _) =
        Except.bind
          ((body ((locked.markModified arc).heap arc).inner.cache).run
            (locked.markModified arc) >>= _) _
      cases (body ((locked.markModified arc).heap arc).inner.cache).run
          (locked.markModified arc) with
      | error fault => rfl
      | ok outcome => exact ih outcome.1.1 rest _
  | syncAll next ih =>
    simp only [bind, run]
    cases state.blockCacheSyncAll with
    | error fault => rfl
    | ok synced => exact ih rest synced

theorem run_bind_eq_ok
    {program : BlockProg α} {rest : α → BlockProg β} {result : β} :
    (program >>= rest).run state = .ok (result, after) ↔
      ∃ value between,
        program.run state = .ok (value, between) ∧
          (rest value).run between = .ok (result, after) := by
  rw [run_bind]
  cases program.run state with
  | error fault => simp [Except.bind]
  | ok outcome =>
    constructor
    · intro returned
      exact ⟨outcome.1, outcome.2, rfl, returned⟩
    · rintro ⟨value, between, equal, returned⟩
      cases equal
      exact returned

variable {held : List Entry} {disk : Disk}

/-- A run that returned is a run on the disk that the cache shows. -/
theorem run_eq_ok {program : BlockProg α}
    (coherent : state.Coherent held held) (distinct : held.Nodup)
    (returned : program.run state = .ok (value, after)) :
    after.Coherent held held ∧
      CacheState.SameInner state after held ∧
      program.onDisk (held.map Prod.fst) state.view =
        .ok (value, after.view) := by
  have agrees := run_agrees program coherent distinct
  rw [returned] at agrees
  generalize program.onDisk (held.map Prod.fst) state.view = onDisk at agrees
  cases agrees with
  | returned afterCoherent sameInner => exact ⟨afterCoherent, sameInner, rfl⟩

section

variable (coherent : state.Coherent [] [])

include coherent

theorem onDisk_of_run {program : BlockProg α}
    (returned : program.run state = .ok (value, after)) :
    after.Coherent [] [] ∧
      program.onDisk [] state.view = .ok (value, after.view) := by
  obtain ⟨afterCoherent, _, ran⟩ := run_eq_ok coherent nodup_nil returned
  exact ⟨afterCoherent, ran⟩

/-- A run on the disk that the cache shows is a run on the cache. -/
theorem run_of_onDisk {program : BlockProg α}
    (returned : program.onDisk [] state.view = .ok (value, disk)) :
    ∃ after, program.run state = .ok (value, after) ∧ after.view = disk := by
  have agrees := run_agrees program coherent nodup_nil
  rw [map_nil, returned] at agrees
  generalize program.run state = onCache at agrees
  cases agrees with
  | @returned _ after _ _ => exact ⟨after, rfl, rfl⟩

/-- A program that stops on the disk that the cache shows stops on the cache. -/
theorem run_of_onDisk_error {program : BlockProg α} {fault : Fault}
    (stopped : program.onDisk [] state.view = .error fault) :
    program.run state = .error fault := by
  have agrees := run_agrees program coherent nodup_nil
  rw [map_nil, stopped] at agrees
  generalize program.run state = onCache at agrees
  cases agrees with
  | stopped => rfl

end

/-- What a program returns, or why it stops, depends only on what is shown. -/
theorem run_map_fst (program : BlockProg α) (coherent : state.Coherent [] []) :
    (program.run state).map Prod.fst =
      (program.onDisk [] state.view).map Prod.fst := by
  have agrees := run_agrees program coherent nodup_nil
  rw [map_nil] at agrees
  generalize program.run state = onCache at agrees ⊢
  generalize program.onDisk [] state.view = onDisk at agrees ⊢
  cases agrees with
  | returned _ _ => rfl
  | stopped _ => rfl

/-! ## Quiet programs -/

/-- On `disk`, every modification stores what the block already holds. -/
def Quiet : {α : Type} → BlockProg α → Disk → Prop
  | _, .done _, _ => True
  | _, .fail _, _ => True
  | _, .read blockId body next, disk =>
    (body (disk blockId)).Quiet disk ∧ ∀ result, (next result).Quiet disk
  | _, .modify blockId body next, disk =>
    (body (disk blockId)).Quiet disk ∧
      (∀ held result contents after,
        (body (disk blockId)).onDisk held disk =
            .ok ((result, contents), after) →
          after = disk ∧ contents = disk blockId) ∧
      ∀ result, (next result).Quiet disk
  | _, .syncAll next, disk => next.Quiet disk

theorem ReadOnly.quiet {program : BlockProg α} (readOnly : program.ReadOnly)
    (disk : Disk) : program.Quiet disk := by
  induction program with
  | done value => trivial
  | fail fault => trivial
  | read blockId body next bodyIH nextIH =>
    exact ⟨bodyIH _ (readOnly.1 _),
      fun result => nextIH result (readOnly.2 result)⟩
  | modify blockId body next _ _ => exact readOnly.elim
  | syncAll next _ => exact readOnly.elim

theorem Quiet.bind {program : BlockProg α} {rest : α → BlockProg β}
    (first : program.Quiet disk) (second : ∀ value, (rest value).Quiet disk) :
    (program >>= rest).Quiet disk := by
  show (program.bind rest).Quiet disk
  induction program with
  | done value => exact second value
  | fail fault => trivial
  | read blockId body next _ ih =>
    exact ⟨first.1, fun result => ih result (first.2 result) second⟩
  | modify blockId body next _ ih =>
    exact ⟨first.1, first.2.1,
      fun result => ih result (first.2.2 result) second⟩
  | syncAll next ih => exact ih first second

/-- A quiet program keeps the device up to date, and what the cache shows. -/
theorem Quiet.run_settled {program : BlockProg α}
    (quiet : program.Quiet state.view)
    (coherent : state.Coherent held held) (distinct : held.Nodup)
    (settled : state.Settled)
    (returned : program.run state = .ok (value, after)) :
    after.Settled ∧ after.view = state.view := by
  induction program generalizing state held after with
  | done _ =>
    cases returned
    exact ⟨settled, rfl⟩
  | fail fault => cases returned
  | read blockId body next bodyIH nextIH =>
    simp only [run] at returned
    obtain ⟨⟨arc, locked⟩, acquireEq, returned⟩ := bind_eq_ok.mp returned
    obtain ⟨⟨result, between⟩, bodyReturned, nextReturned⟩ :=
      bind_eq_ok.mp returned
    have acquired := coherent.acquire_eq_ok distinct acquireEq
    have nowDistinct := nodup_cons.mpr ⟨acquired.fresh, distinct⟩
    simp only [acquired.shown] at bodyReturned
    obtain ⟨betweenSettled, betweenView⟩ :=
      bodyIH _ (by rw [acquired.view]; exact quiet.1) acquired.coherent
        nowDistinct (acquired.settled settled) bodyReturned
    obtain ⟨betweenCoherent, _, _⟩ :=
      run_eq_ok acquired.coherent nowDistinct bodyReturned
    have released := betweenCoherent.release acquired.fresh
    have finalView : (between.release arc).view = state.view :=
      released.view.trans (betweenView.trans acquired.view)
    have last :=
      nextIH result (by rw [finalView]; exact quiet.2 result)
        released.coherent distinct
        (betweenSettled.of_same released.view released.device)
        nextReturned
    exact ⟨last.1, last.2.trans finalView⟩
  | modify blockId body next bodyIH nextIH =>
    simp only [run] at returned
    obtain ⟨⟨arc, locked⟩, acquireEq, returned⟩ := bind_eq_ok.mp returned
    obtain ⟨⟨⟨result, contents⟩, between⟩, bodyReturned, nextReturned⟩ :=
      bind_eq_ok.mp returned
    have acquired := coherent.acquire_eq_ok distinct acquireEq
    have opened := acquired.opened
    have nowDistinct := nodup_cons.mpr ⟨acquired.fresh, distinct⟩
    simp only [opened.shown] at bodyReturned
    obtain ⟨betweenSettled, betweenView⟩ :=
      bodyIH _ (by rw [opened.view]; exact quiet.1) opened.coherent
        nowDistinct (opened.settled settled) bodyReturned
    obtain ⟨betweenCoherent, sameInner, onDisk⟩ :=
      run_eq_ok opened.coherent nowDistinct bodyReturned
    rw [opened.view] at onDisk
    -- the contents that are stored are those that were there
    obtain ⟨_, rfl⟩ := quiet.2.1 _ _ _ _ onDisk
    have stillFlagged : (between.heap arc).inner.modified = true := by
      rw [sameInner (blockId, arc) mem_cons_self]
      exact opened.flagged
    have closed :=
      betweenCoherent.close acquired.fresh stillFlagged
        (state.view blockId)
    have same : between.view = state.view := betweenView.trans opened.view
    have closedView := closed.view
    rw [same, Function.update_eq_self] at closedView
    have last :=
      nextIH result (by rw [closedView]; exact quiet.2.2 result)
        closed.coherent distinct
        (betweenSettled.of_same (closedView.trans same.symm)
          closed.device)
        nextReturned
    exact ⟨last.1, last.2.trans closedView⟩
  | syncAll next ih =>
    simp only [run] at returned
    obtain ⟨synced, syncedEq, returned⟩ := bind_eq_ok.mp returned
    cases held with
    | nil =>
      obtain ⟨_, equal, syncedCoherent, view, syncedSettled⟩ :=
        coherent.blockCacheSyncAll
      rw [equal] at syncedEq
      cases syncedEq
      have last :=
        ih (by rw [view]; exact quiet) syncedCoherent distinct
          syncedSettled returned
      exact ⟨last.1, last.2.trans view⟩
    | cons entry rest =>
      rw [coherent.blockCacheSyncAll_locked (fun _ member => member)
        (cons_ne_nil entry rest)] at syncedEq
      cases syncedEq

/-- A program that ends with a sync leaves the device up to date. -/
theorem run_sync_settled {program : BlockProg α} {result : α → β} {shown : β}
    (coherent : state.Coherent [] [])
    (returned :
      (do
        let value ← program
        blockCacheSyncAll
        return result value).run state = .ok (shown, after)) :
    after.Settled := by
  obtain ⟨value, between, ran, returned⟩ := run_bind_eq_ok.mp returned
  obtain ⟨betweenCoherent, _⟩ := onDisk_of_run coherent ran
  obtain ⟨synced, syncedEq, _, _, settled⟩ := betweenCoherent.blockCacheSyncAll
  obtain ⟨_, _, ranSync, returned⟩ := run_bind_eq_ok.mp returned
  cases returned
  rw [blockCacheSyncAll, run, syncedEq] at ranSync
  cases ranSync
  exact settled

end BlockProg

end RCoreOS.EasyFs
