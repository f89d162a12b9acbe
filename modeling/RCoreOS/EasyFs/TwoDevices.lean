import RCoreOS.EasyFs.CacheTrace

/-!
# Two devices and one cache

All block devices of a program share the queue of `BLOCK_CACHE_MANAGER`.  An
entry of the queue is for one block of one device, but `get_block_cache` looks
for an entry by the block id alone.

The blocks of two devices are numbered as those of one: block `blockId` of a
device has the place `2 * blockId` or `2 * blockId + 1`.  On places the other
operations are those of the cache of one device, and a plain memory of places
is two plain memories, one for each device.
-/

namespace RCoreOS.EasyFs

open Lib.Bytes Lib.FallibleRuns List

namespace CacheTrace

/-- Block `blockId` of the first or the second device. -/
def place (second : Bool) (blockId : Nat) : Nat := 2 * blockId + second.toNat

/-- Two devices, by places. -/
def joined (devices : Bool → BlockDevice) : BlockDevice :=
  ⟨fun place => (devices (place % 2 == 1)).readBlock (place / 2)⟩

/-- `get_block_cache(block_id, block_device)`, which compares block ids. -/
def getShared (state : CacheState) (wanted : Nat) :
    Except Fault (Entry × CacheState) :=
  match state.queue.find? fun entry => entry.1 / 2 == wanted / 2 with
  | some entry => .ok (entry, state.arcClone entry.2)
  | none => do
      let state ← state.makeRoom
      let (arc, state) := state.load wanted
      return ((wanted, arc), state)

/-- One step of the callers of both devices. -/
def sharedStep (client : Client) :
    CacheOp → Except Fault (Client × Observed)
  | .get wanted => do
      let (entry, state) ← getShared client.state wanted
      return (⟨state, client.handles ++ [entry]⟩, none)
  | op => client.step op

/-- A `get` finds no block of the other device in the queue. -/
def Apart (client : Client) : CacheOp → Prop
  | .get wanted =>
    ∀ entry ∈ client.state.queue, entry.1 / 2 = wanted / 2 → entry.1 = wanted
  | _ => True

/-- The steps of a run are `Apart`, each in the state before it. -/
def ApartRun (client : Client) : List CacheOp → Prop
  | [] => True
  | first :: rest =>
    Apart client first ∧
      match sharedStep client first with
      | .ok (after, _) => ApartRun after rest
      | .error _ => True

instance (client : Client) : (op : CacheOp) → Decidable (Apart client op)
  | .get wanted =>
    inferInstanceAs
      (Decidable (∀ entry ∈ client.state.queue,
        entry.1 / 2 = wanted / 2 → entry.1 = wanted))
  | .read .. | .modify .. | .drop _ | .syncAll => isTrue trivial

instance instDecidableApartRun (client : Client) :
    (ops : List CacheOp) → Decidable (ApartRun client ops)
  | [] => isTrue trivial
  | first :: rest =>
    have : Decidable
        (match sharedStep client first with
          | .ok (after, _) => ApartRun after rest
          | .error _ => True) :=
      match sharedStep client first with
      | .ok (after, _) => instDecidableApartRun after rest
      | .error _ => isTrue trivial
    inferInstanceAs (Decidable (_ ∧ _))

variable {client after : Client} {seen : List Observed}

/-- A `get` that is apart is a `get` of the cache of one device. -/
theorem sharedStep_eq {op : CacheOp} (apart : Apart client op) :
    sharedStep client op = client.step op := by
  cases op with
  | get wanted =>
    have same :
        client.state.queue.find? (fun entry => entry.1 / 2 == wanted / 2) =
          client.state.queue.find? fun entry => entry.1 == wanted := by
      apply find?_congr
      intro entry member
      rw [Bool.eq_iff_iff, beq_iff_eq, beq_iff_eq]
      refine ⟨apart entry member, ?_⟩
      rintro rfl
      rfl
    rw [sharedStep, getShared, same, Client.step, CacheState.getBlockCache]
    cases found : client.state.queue.find? fun entry => entry.1 == wanted with
    | none => cases client.state.makeRoom <;> rfl
    | some entry =>
      obtain ⟨place, arc⟩ := entry
      have own : place = wanted := by
        simpa using find?_some found
      rw [← own]
      rfl
  | _ => rfl

theorem ApartRun.run_eq {ops : List CacheOp} (apart : ApartRun client ops) :
    run sharedStep client ops = run Client.step client ops := by
  induction ops generalizing client with
  | nil => rfl
  | cons first rest induction =>
    obtain ⟨here, later⟩ := apart
    have same := sharedStep_eq here
    rw [same] at later
    rw [run, run, same]
    cases stepped : client.step first with
    | error fault => rfl
    | ok pair =>
      rw [stepped] at later
      simp only [bind, Except.bind, induction later]

/--
While no `get` finds a block of the other device in the queue, every read
shows the device's own bytes as they were last modified, and a sync brings
each device up to date with its own blocks.
-/
theorem two_devices_apart (devices : Bool → BlockDevice) (ops : List CacheOp)
    (apart : ApartRun ⟨.start (joined devices), []⟩ ops)
    (returned :
      run sharedStep ⟨.start (joined devices), []⟩ ops = .ok (after, seen)) :
    let memory := totalRun Memory.step ⟨(joined devices).readBlock, []⟩ ops
    seen = memory.2 ∧
      ∃ synced,
        after.state.blockCacheSyncAll = .ok synced ∧
          ∀ second blockId,
            synced.device.readBlock (place second blockId) =
              memory.1.blocks (place second blockId) := by
  rw [apart.run_eq] at returned
  obtain ⟨refines, shown⟩ :=
    run_refines (fun related => related.step)
      (show Refines ⟨.start (joined devices), []⟩
          ⟨(joined devices).readBlock, []⟩ from
        ⟨CacheState.start_coherent _, CacheState.view_start _, rfl⟩)
      returned
  obtain ⟨synced, syncedEq, _, view, settled⟩ :=
    refines.coherent.blockCacheSyncAll
  refine ⟨shown, synced, syncedEq, fun second blockId => ?_⟩
  rw [settled, view, refines.view]

/-- Two devices whose bytes are ones and twos. -/
def onesAndTwos (second : Bool) : BlockDevice :=
  ⟨fun _ => ofBytes fun _ => if second then 2 else 1⟩

/-- Block 0 of the first device and block 1 of the second. -/
def separateOps : List CacheOp :=
  [.get (place false 0), .get (place true 1), .read 1 0 1]

theorem two_devices_apart_separate :
    ∃ after,
      run sharedStep ⟨.start (joined onesAndTwos), []⟩ separateOps =
        .ok (after, [none, none, some [2]]) := by
  have returns :
      (run sharedStep ⟨.start (joined onesAndTwos), []⟩
        separateOps).toBool = true := by
    decide +kernel
  cases outcome :
      run sharedStep ⟨.start (joined onesAndTwos), []⟩ separateOps with
  | error fault =>
    rw [outcome] at returns
    cases returns
  | ok pair =>
    obtain ⟨shown, _⟩ :=
      two_devices_apart onesAndTwos separateOps (by decide +kernel) outcome
    have twos : pair.2 = [none, none, some [2]] := by
      rw [shown]
      decide +kernel
    exact ⟨pair.1, by rw [← twos]⟩

/--
After block 0 of the first device, a `get` of block 0 of the second gives the
first device's block: a read shows its bytes, and what is written through the
handle goes to the first device.
-/
theorem two_devices_mixed_up :
    (run sharedStep ⟨.start (joined onesAndTwos), []⟩
          [.get (place false 0), .get (place true 0), .read 1 0 1,
            .modify 1 0 1 fun _ => #v[7], .syncAll]).toOption.map
        (fun (after, seen) =>
          (seen, byteAt (after.state.device.readBlock (place false 0)) 0,
            byteAt (after.state.device.readBlock (place true 0)) 0)) =
      some ([none, none, some [1], none, none], 7, 2) := by
  decide +kernel

end CacheTrace

end RCoreOS.EasyFs
