import BcDuplicate.Grouping
import BcDuplicate.Ring
import BcDuplicate.Base.Updates

/-!
# BcDuplicate.Worker

The two hashing passes (`src/worker`).  Both flatten the groups they are given
into candidate positions of the entries array, order these by size, and run
one iteration for each candidate (`workerFastPass`) or for each 32 of them
(`workerFullPass`).

The iterations run under a `Schedule`: in some order, each on some worker.
An iteration of the full pass keeps its ring, its hash states and its batch
arrays in the slot of its worker, and finds there what the worker's earlier
iterations left.

The hash functions are those of a `HashLibrary`.
-/

namespace BcDuplicate

open Sorting
open Updates

/-! ## the hash library -/

/-- The hash functions the passes call: XXH3 one-shot and streaming, and the
streaming SHA-256 of the core library, whose calls report success. -/
structure HashLibrary where
  Xxh3State : Type
  Sha256Context : Type
  xxh3 : Bytes → UInt64
  createState : Xxh3State
  reset64 : Xxh3State → Xxh3State
  update64 : Xxh3State → Bytes → Xxh3State
  digest64 : Xxh3State → UInt64
  reset128 : Xxh3State → Xxh3State
  update128 : Xxh3State → Bytes → Xxh3State
  digest128 : Xxh3State → UInt64 × UInt64
  blankContext : Sha256Context
  sha256Init : Sha256Context → Sha256Context × Bool
  sha256Update : Sha256Context → Bytes → Sha256Context × Bool
  sha256Finalize : Sha256Context → Bytes × Bool

/-- The eight bytes of a `uint64_t` in memory, least significant first. -/
def uint64Bytes (value : UInt64) : Bytes :=
  (List.range 8).map fun i => (value.toNat / 256 ^ i).toUInt8

@[simp] theorem length_uint64Bytes (value : UInt64) : (uint64Bytes value).length = 8 := by
  rw [uint64Bytes, List.length_map, List.length_range]

/-! ## candidates -/

/-- `total_candidates` -/
def totalCandidates (groups : List Group) : Nat := (groups.map Group.entryCount).sum

/-- The filling of `candidate_indices`. -/
def candidateIndices (groups : List Group) : List Nat :=
  groups.flatMap fun group => (List.range group.entryCount).map (group.startIndex + ·)

/-- `entries[index].file_size` -/
def fileSizeAt (entries : List FileEntry) (index : Nat) : Nat :=
  ((entries[index]?).map FileEntry.fileSize).getD 0

/-- `bc_duplicate_worker_sort_indices_by_size_desc` -/
def workerSortIndicesBySizeDesc (sort : SortFn) (entries : List FileEntry) (indices : List Nat) :
    List Nat :=
  sort.run (fun left right => decide (fileSizeAt entries left > fileSizeAt entries right)) indices

/-- How `bc_concurrency_for` runs its iterations: each exactly once, in some
order, each on some worker. -/
structure Schedule where
  run : Nat → List (Nat × Nat)
  perm : ∀ count, ((run count).map Prod.fst).Perm (List.range count)

/-- One iteration after the other on worker 0. -/
def Schedule.sequential : Schedule where
  run count := (List.range count).map fun i => (i, 0)
  perm count := by
    rw [List.map_map]
    exact .of_eq (List.map_id _)

/-- How a pass ends: with the array and `*out_files_hashed`, by returning
`false`, or never. -/
inductive PassResult
  | done (entries : List FileEntry) (filesHashed : Nat)
  | failed
  | blocked
deriving DecidableEq, Repr

/-! ## the fast pass -/

/-- How one `pread` of the fast pass ends: with an error, or with some bytes.
Other than the reads of `BcDuplicate.Reader`, it may return nothing before the
end of the file. -/
inductive PreadOutcome
  | error (errno : Errno)
  | upTo (most : Nat)
deriving DecidableEq, Repr

/-- The result of asking for `size` bytes when `available` is what the file
holds from the offset on. -/
def PreadOutcome.perform (outcome : PreadOutcome) (available : Bytes) (size : Nat) :
    Except Errno Bytes :=
  match outcome with
  | .error errno => .error errno
  | .upTo most => .ok (available.take (min size most))

/-- A read that returns all it was asked for, as far as the file reaches. -/
def PreadOutcome.whole (size : Nat) : PreadOutcome := .upTo size

/-- What the system does with one file in the fast pass. -/
structure FastView where
  content : Bytes
  openError : Option Errno
  reopenError : Option Errno
  prefixRead : PreadOutcome
  suffixRead : PreadOutcome
deriving DecidableEq, Repr

/-- `BC_DUPLICATE_FAST_DUAL_MIN_FILE_SIZE` -/
def fastDualMinFileSize : Nat := fastHashBlockSize * 2

/-- The three assignments that end an iteration. -/
def FileEntry.setFast (entry : FileEntry) (fastHash : UInt64) (errno : Nat) : FileEntry :=
  { entry with fastHash, fastHashComputed := true, fastHashErrno := errno }

/-- `bc_duplicate_worker_fast_iteration`, on the entry it works on. -/
def workerFastIteration (lib : HashLibrary) (view : FastView) (entry : FileEntry) : FileEntry :=
  match openReadOnly view.openError view.reopenError with
  | .error errno => entry.setFast 0 errno.value
  | .ok () =>
      match view.prefixRead.perform view.content fastHashBlockSize with
      | .error errno => entry.setFast 0 errno.value
      | .ok prefixBytes =>
          if entry.fileSize ≥ fastDualMinFileSize then
            match view.suffixRead.perform (view.content.drop (entry.fileSize - fastHashBlockSize))
                fastHashBlockSize with
            | .error _ => entry.setFast (lib.xxh3 prefixBytes) 0
            | .ok suffixBytes =>
                if suffixBytes.length > 0 then
                  entry.setFast (lib.xxh3 prefixBytes ^^^ lib.xxh3 suffixBytes) 0
                else entry.setFast (lib.xxh3 prefixBytes) 0
          else entry.setFast (lib.xxh3 prefixBytes) 0

/-- What the fast pass depends on besides its arguments.  `view` answers for
the entry at a position with its path, and `shouldStop` for the poll of the
iteration that runs as the `n`-th. -/
structure FastEnvironment where
  view : Nat → Bytes → FastView
  shouldStop : Nat → Bool
  schedule : Schedule
  allocatesIndices : Bool
  dispatchOk : Bool

/-- One iteration: skipped once the flag is set. -/
def workerFastIter (lib : HashLibrary) (env : FastEnvironment) (indices : List Nat) (turn : Nat)
    (iterationIndex : Nat) (entries : List FileEntry) : List FileEntry :=
  if env.shouldStop turn then entries
  else
    match indices[iterationIndex]? with
    | none => entries
    | some index =>
        entries.modify index fun entry =>
          workerFastIteration lib (env.view index entry.absolutePath) entry

/-- Run iterations in their order, the first of them as the `turn`-th. -/
def workerFastRun (lib : HashLibrary) (env : FastEnvironment) (indices : List Nat) :
    Nat → List (Nat × Nat) → List FileEntry → List FileEntry
  | _, [], entries => entries
  | turn, (iterationIndex, _) :: rest, entries =>
      workerFastRun lib env indices (turn + 1) rest
        (workerFastIter lib env indices turn iterationIndex entries)

/-- `bc_duplicate_worker_fast_pass` -/
def workerFastPass (lib : HashLibrary) (sort : SortFn) (env : FastEnvironment)
    (entries : List FileEntry) (sizeGroups : List Group) : PassResult :=
  if totalCandidates sizeGroups = 0 then .done entries 0
  else if env.allocatesIndices = false then .failed
  else
    let indices := workerSortIndicesBySizeDesc sort entries (candidateIndices sizeGroups)
    let entries := workerFastRun lib env indices 0
      (env.schedule.run (totalCandidates sizeGroups)) entries
    if env.dispatchOk then .done entries (totalCandidates sizeGroups) else .failed

/-! ## the consumer of the full pass -/

/-- `bc_duplicate_worker_full_consumer_state_t` -/
structure ConsumerState (lib : HashLibrary) where
  algorithm : Algorithm
  xxhState : lib.Xxh3State
  sha256Context : lib.Sha256Context
  failed : Bool

section Consumer

variable {lib : HashLibrary}

/-- `bc_duplicate_worker_full_consumer_reset`.  Its caller ignores the result
of the initialisation. -/
def fullConsumerReset (state : ConsumerState lib) (xxhState : lib.Xxh3State)
    (algorithm : Algorithm) : ConsumerState lib :=
  match algorithm with
  | .xxh3 => ⟨algorithm, lib.reset64 xxhState, state.sha256Context, false⟩
  | .xxh128 => ⟨algorithm, lib.reset128 xxhState, state.sha256Context, false⟩
  | .sha256 => ⟨algorithm, xxhState, (lib.sha256Init state.sha256Context).1, false⟩

/-- `bc_duplicate_worker_full_consumer_callback` -/
def fullConsumerCallback : Consumer (ConsumerState lib) := fun state chunk =>
  match state.algorithm with
  | .xxh3 => ({ state with xxhState := lib.update64 state.xxhState chunk }, true)
  | .xxh128 => ({ state with xxhState := lib.update128 state.xxhState chunk }, true)
  | .sha256 =>
      let (context, ok) := lib.sha256Update state.sha256Context chunk
      if ok then ({ state with sha256Context := context }, true)
      else ({ state with sha256Context := context, failed := true }, false)

/-- Copy bytes into a digest of 32 zeros. -/
def digestBuffer (bytes : Bytes) : Bytes :=
  bytes.take maxDigestSize ++ List.replicate (maxDigestSize - bytes.length) 0

/-- `bc_duplicate_worker_full_consumer_finalize`: the digest it writes, and
`state->failed` after it. -/
def fullConsumerFinalize (state : ConsumerState lib) : Bytes × Bool :=
  match state.algorithm with
  | .xxh3 => (digestBuffer (uint64Bytes (lib.digest64 state.xxhState)), state.failed)
  | .xxh128 =>
      let (high, low) := lib.digest128 state.xxhState
      (digestBuffer (uint64Bytes high ++ uint64Bytes low), state.failed)
  | .sha256 =>
      let (bytes, ok) := lib.sha256Finalize state.sha256Context
      (digestBuffer bytes, state.failed || !ok)

end Consumer

/-! ## the slot of a worker -/

/-- `BC_DUPLICATE_FULL_BATCH_ITEM_CAPACITY` -/
def fullBatchItemCapacity : Nat := readerRingSlotCount

/-- `bc_duplicate_worker_full_slot_t`.  The item at an offset of `batch_items`
points to the consumer state at that offset; every batch writes the items it
uses before it uses them. -/
structure FullSlot (lib : HashLibrary) where
  ring : Ring
  xxhStates : List lib.Xxh3State
  ringInitialised : Bool
  xxhStatesReady : Bool
  consumerStates : List (ConsumerState lib)

/-- A slot as `bc_concurrency_register_slot` provides it: zeroed memory. -/
def FullSlot.zeroed (lib : HashLibrary) : FullSlot lib where
  ring := Ring.init
  xxhStates := []
  ringInitialised := false
  xxhStatesReady := false
  consumerStates := List.replicate fullBatchItemCapacity
    ⟨.xxh3, lib.createState, lib.blankContext, false⟩

/-- What an attempt to make a slot ready meets: whether the slot exists, its
ring can be allocated and initialised, and its hash states created. -/
structure SlotAttempt where
  slotExists : Bool
  ringAllocated : Bool
  ringInitialised : Bool
  statesCreated : Bool
deriving DecidableEq, Repr

/-- `bc_duplicate_worker_full_ensure_slot` -/
def fullEnsureSlot {lib : HashLibrary} (attempt : SlotAttempt) (slot : FullSlot lib) :
    FullSlot lib × Bool :=
  if attempt.slotExists = false then (slot, false)
  else if slot.ringInitialised = false ∧
      (attempt.ringAllocated = false ∨ attempt.ringInitialised = false) then (slot, false)
  else
    let slot := if slot.ringInitialised then slot
      else { slot with ring := Ring.init, ringInitialised := true }
    if slot.xxhStatesReady then (slot, true)
    else if attempt.statesCreated = false then (slot, false)
    else
      ({ slot with
        xxhStates := List.replicate fullBatchItemCapacity lib.createState
        xxhStatesReady := true }, true)

/-! ## the full pass -/

/-- What the full pass depends on besides its arguments.  Each worker drives
its ring by its own `scripts`, and `attempt` answers for the iteration that
runs as the `n`-th; `shouldStop` answers its poll, and `loopShouldStop` that
of the single-thread loop before it. -/
structure FullEnvironment where
  view : Nat → Bytes → FileView
  scripts : Nat → Nat → ChunkScript
  attempt : Nat → SlotAttempt
  shouldStop : Nat → Bool
  loopShouldStop : Nat → Bool
  schedule : Schedule
  allocatesIndices : Bool
  registersSlot : Bool
  dispatchOk : Bool

section FullPass

variable {lib : HashLibrary}

/-- The batch item of one candidate, and its consumer state reset. -/
def fullBatchItem (env : FullEnvironment) (algorithm : Algorithm) (slot : FullSlot lib)
    (offset index : Nat) (entry : FileEntry) : BatchItem (ConsumerState lib) :=
  let state := slot.consumerStates.getD offset ⟨.xxh3, lib.createState, lib.blankContext, false⟩
  { absolutePath := entry.absolutePath
    fileSize := entry.fileSize
    feed := ⟨fullConsumerReset state (slot.xxhStates.getD offset lib.createState) algorithm, []⟩
    success := false
    errnoValue := 0
    view := env.view index entry.absolutePath
    fallback := false }

/-- What the last loop of `bc_duplicate_worker_full_process_batch` writes to
the entry of an item. -/
def fullStoreResult (item : BatchItem (ConsumerState lib)) (entry : FileEntry) : FileEntry :=
  let entry := { entry with fullHashComputed := true }
  if item.success = false ∨ item.feed.context.failed = true then
    { entry with
      fullHashErrno := if item.errnoValue ≠ 0 then item.errnoValue else Errno.EIO.value }
  else
    let (fullHash, failed) := fullConsumerFinalize item.feed.context
    { entry with fullHash, fullHashErrno := if failed then Errno.EIO.value else 0 }

/-- Store the results of a batch, in order. -/
def fullStoreResults (indices : List Nat) (items : List (BatchItem (ConsumerState lib)))
    (entries : List FileEntry) : List FileEntry :=
  (indices.zip items).foldl (fun entries pair => entries.modify pair.1 (fullStoreResult pair.2))
    entries

/-- `bc_duplicate_worker_full_process_batch` on the candidates `indices`: the
array, the slot, and whether the batch returns. -/
def fullProcessBatch (env : FullEnvironment) (algorithm : Algorithm) (scripts : Nat → ChunkScript)
    (slot : FullSlot lib) (indices : List Nat) (entries : List FileEntry) :
    List FileEntry × FullSlot lib × Bool :=
  let items := (indices.zipIdx).filterMap fun (index, offset) =>
    (entries[index]?).map (fullBatchItem env algorithm slot offset index)
  let batch := readerConsumeBatch fullConsumerCallback scripts slot.ring items
  let states := batch.items.map fun item => item.feed.context
  (fullStoreResults indices batch.items entries,
    { slot with
      ring := batch.ring
      xxhStates := (states.map ConsumerState.xxhState) ++ slot.xxhStates.drop states.length
      consumerStates := states ++ slot.consumerStates.drop states.length },
    batch.returned)

/-- The entries array and the slots of all workers. -/
structure FullState (lib : HashLibrary) where
  entries : List FileEntry
  slots : Nat → FullSlot lib

/-- `bc_duplicate_worker_full_iter`, run as the `turn`-th on `worker`: the
state, and whether the iteration returns. -/
def workerFullIter (env : FullEnvironment) (algorithm : Algorithm) (indices : List Nat)
    (turn iterationIndex worker : Nat) (state : FullState lib) : FullState lib × Bool :=
  if env.shouldStop turn then (state, true)
  else
    match fullEnsureSlot (env.attempt turn) (state.slots worker) with
    | (slot, false) => ({ state with slots := Function.update state.slots worker slot }, true)
    | (slot, true) =>
        if iterationIndex * fullBatchItemCapacity ≥ indices.length then
          ({ state with slots := Function.update state.slots worker slot }, true)
        else
          let (entries, slot, returned) := fullProcessBatch env algorithm (env.scripts worker) slot
            (piece fullBatchItemCapacity indices iterationIndex) state.entries
          (⟨entries, Function.update state.slots worker slot⟩, returned)

/-- Run iterations in their order.  `none`: one of them never returns. -/
def workerFullRun (env : FullEnvironment) (algorithm : Algorithm) (indices : List Nat) :
    Nat → List (Nat × Nat) → FullState lib → Option (FullState lib)
  | _, [], state => some state
  | turn, (iterationIndex, worker) :: rest, state =>
      match workerFullIter env algorithm indices turn iterationIndex worker state with
      | (_, false) => none
      | (state, true) => workerFullRun env algorithm indices (turn + 1) rest state

/-- The single-thread loop: one more poll before each batch, which ends the
loop. -/
def workerFullLoop (env : FullEnvironment) (algorithm : Algorithm) (indices : List Nat) :
    Nat → List Nat → FullState lib → Option (FullState lib)
  | _, [], state => some state
  | turn, batchIndex :: rest, state =>
      if env.loopShouldStop turn then some state
      else
        match workerFullIter env algorithm indices turn batchIndex 0 state with
        | (_, false) => none
        | (state, true) => workerFullLoop env algorithm indices (turn + 1) rest state

/-- `bc_duplicate_worker_full_pass` -/
def workerFullPass (lib : HashLibrary) (sort : SortFn) (env : FullEnvironment)
    (algorithm : Algorithm) (entries : List FileEntry) (groups : List Group)
    (forceSingleThread : Bool) : PassResult :=
  if totalCandidates groups = 0 then .done entries 0
  else if env.allocatesIndices = false then .failed
  else
    let indices := workerSortIndicesBySizeDesc sort entries (candidateIndices groups)
    if env.registersSlot = false then .failed
    else
      let batchCount := pieceCount fullBatchItemCapacity indices
      let state : FullState lib := ⟨entries, fun _ => .zeroed lib⟩
      if forceSingleThread then
        match workerFullLoop env algorithm indices 0 (List.range batchCount) state with
        | none => .blocked
        | some state => .done state.entries (totalCandidates groups)
      else
        match workerFullRun env algorithm indices 0 (env.schedule.run batchCount) state with
        | none => .blocked
        | some state =>
            if env.dispatchOk then .done state.entries (totalCandidates groups) else .failed

end FullPass

end BcDuplicate
