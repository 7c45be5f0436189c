import BcDuplicate.Reader

/-!
# BcDuplicate.Ring

The batch reader over an io_uring ring
(`src/worker/bc_duplicate_worker_batch_uring.c`).

The ring outlives a call: its submission queue, the chains the kernel works
on, the completions not yet reaped, the fixed files and the slot buffers all
stay.  `slotToItem` and `slotBytesRead` belong to one `ringDriveChunk`.

What the kernel does is data, as in `BcDuplicate.Reader`.  A `ChunkScript`
says how the submit ends and, for each wait, which chains advance before it
and how it returns.  A chain runs one operation at a time and cancels the
rest once one of them fails or is short (`IOSQE_IO_LINK`); different chains
advance in any order.

Every submission entry carries a `tag`, which no operation reads: the chunk
that prepared it and the item it was prepared for.
-/

namespace BcDuplicate

/-- `BC_DUPLICATE_READER_RING_SLOT_COUNT` -/
def readerRingSlotCount : Nat := 32

/-- `BC_DUPLICATE_READER_RING_SLOT_BUFFER_BYTES` -/
def readerRingSlotBufferBytes : Nat := 256 * 1024

/-- The entries of the submission queue: `BC_DUPLICATE_RING_QUEUE_DEPTH` is
160, which `io_uring_queue_init` rounds up to a power of two. -/
def ringSubmissionEntries : Nat := 256

/-! ## submission entries -/

inductive Operation
  | openat
  | read
  | probe
  | close
deriving DecidableEq, Repr

/-- `BC_DUPLICATE_RING_OP_OPENAT` … `BC_DUPLICATE_RING_OP_CLOSE` -/
def Operation.code : Operation → Nat
  | .openat => 0
  | .read => 1
  | .probe => 2
  | .close => 3

/-- `bc_duplicate_ring_encode_user_data` -/
def ringEncodeUserData (slotIndex operationCode : Nat) : Nat := slotIndex <<< 8 ||| operationCode

/-- `bc_duplicate_ring_decode_slot` -/
def ringDecodeSlot (userData : Nat) : Nat := userData >>> 8

/-- `bc_duplicate_ring_decode_operation` -/
def ringDecodeOperation (userData : Nat) : Nat := userData % 256

/-- Which chunk prepared an entry, and for which of its items. -/
structure Tag where
  chunk : Nat
  item : Nat
deriving DecidableEq, Repr

/-- A submission queue entry.  `slot` is the fixed file it works on; `view`
stands for the file behind the path of an `openat`. -/
structure Sqe where
  operation : Operation
  slot : Nat
  length : Nat
  offset : Nat
  link : Bool
  userData : Nat
  view : FileView
  tag : Tag
deriving DecidableEq, Repr

/-- A completion queue entry, with the entry it completes. -/
structure Cqe where
  userData : Nat
  res : Int
  sqe : Sqe
deriving DecidableEq, Repr

/-! ## executing operations -/

/-- One fixed-file slot of the ring: the file installed in it, and its buffer. -/
structure Slot where
  file : Option FileView
  buffer : Bytes
deriving DecidableEq, Repr

/-- Execute one operation on its slot: the slot after it, its result, and
whether the chain goes on. -/
def Slot.execute (slot : Slot) (sqe : Sqe) : Slot × Int × Bool :=
  match sqe.operation with
  | .openat =>
      match sqe.view.ringOpenError with
      | some errno => (slot, -errno.value, false)
      | none => ({ slot with file := some sqe.view }, 0, true)
  | .read =>
      match slot.file with
      | none => (slot, -Errno.EBADF.value, false)
      | some view =>
          match view.ringRead.perform (view.content.drop sqe.offset) sqe.length with
          | .error errno => (slot, -errno.value, false)
          | .ok bytes =>
              ({ slot with buffer := bytes ++ slot.buffer.drop bytes.length }, bytes.length,
                decide (bytes.length = sqe.length))
  | .probe =>
      match slot.file with
      | none => (slot, -Errno.EBADF.value, false)
      | some view =>
          match view.ringProbe.perform (view.content.drop sqe.offset) sqe.length with
          | .error errno => (slot, -errno.value, false)
          | .ok bytes => (slot, bytes.length, decide (bytes.length = sqe.length))
  | .close =>
      match slot.file with
      | none => (slot, -Errno.EBADF.value, false)
      | some _ => ({ slot with file := none }, 0, true)

/-- What the next operation of a chain finds: its slot, and whether an earlier
operation of the chain failed or was short. -/
structure Progress where
  slot : Slot
  cancelled : Bool
deriving DecidableEq, Repr

/-- Execute the next operation of a chain, or cancel it. -/
def Progress.step (progress : Progress) (sqe : Sqe) : Progress × Int :=
  if progress.cancelled then (progress, -Errno.ECANCELED.value)
  else
    let (slot, res, continues) := progress.slot.execute sqe
    (⟨slot, !continues⟩, res)

/-! ## the ring -/

/-- A submitted chain: the operations not yet executed, and whether they are
cancelled. -/
structure Chain where
  operations : List Sqe
  cancelled : Bool
deriving DecidableEq, Repr

/-- `bc_duplicate_reader_ring_t` with the kernel's side of it.  `driven`
counts the chunks driven so far. -/
structure Ring where
  submissionQueue : List Sqe
  inFlight : List Chain
  completionQueue : List Cqe
  slots : Nat → Slot
  driven : Nat

namespace Ring

/-- `bc_duplicate_reader_ring_init` -/
def init : Ring := ⟨[], [], [], fun _ => ⟨none, []⟩, 0⟩

/-- Nothing is queued, in flight or waiting to be reaped. -/
structure Quiescent (ring : Ring) : Prop where
  submissionQueue : ring.submissionQueue = []
  inFlight : ∀ chain ∈ ring.inFlight, chain.operations = []
  completionQueue : ring.completionQueue = []

theorem quiescent_init : init.Quiescent := ⟨rfl, by simp [init], rfl⟩

/-- What was counted does not matter. -/
theorem Quiescent.counted {ring : Ring} (h : ring.Quiescent) (driven : Nat) :
    ({ ring with driven } : Ring).Quiescent :=
  ⟨h.submissionQueue, h.inFlight, h.completionQueue⟩

/-- Execute the next operation of a chain and post its completion. -/
def advance (ring : Ring) (index : Nat) : Ring :=
  match ring.inFlight[index]? with
  | some ⟨sqe :: operations, cancelled⟩ =>
      let (progress, res) := Progress.step ⟨ring.slots sqe.slot, cancelled⟩ sqe
      { ring with
        slots := Function.update ring.slots sqe.slot progress.slot
        inFlight := ring.inFlight.set index ⟨operations, progress.cancelled⟩
        completionQueue := ring.completionQueue ++ [⟨sqe.userData, res, sqe⟩] }
  | _ => ring

/-- The chains that linked entries form.  The last entry of a submission ends
its chain. -/
def chainsOf : List Sqe → List Chain
  | [] => []
  | sqe :: entries =>
      if sqe.link then
        match chainsOf entries with
        | [] => [⟨[sqe], false⟩]
        | chain :: chains => ⟨sqe :: chain.operations, false⟩ :: chains
      else ⟨[sqe], false⟩ :: chainsOf entries

/-- `io_uring_submit` when the kernel takes the first `accepted` queued
entries.  What it does not take stays queued. -/
def submit (ring : Ring) (accepted : Nat) : Ring :=
  { ring with
    submissionQueue := ring.submissionQueue.drop accepted
    inFlight := ring.inFlight.filter (fun chain => !chain.operations.isEmpty) ++
      chainsOf (ring.submissionQueue.take accepted) }

end Ring

/-! ## driving a chunk -/

/-- One `io_uring_wait_cqe`: the chains that advance before it returns, in
this order, and its status. -/
structure Wait where
  advances : List Nat
  status : Except Errno Unit

/-- What the kernel and liburing do during one chunk.  `stale` is what the
entries hold that `io_uring_get_sqe` hands out and nothing fills in. -/
structure ChunkScript where
  submitStatus : Except Errno Nat
  waits : List Wait
  stale : Nat → Sqe

/-- How driving a chunk ends.  `blocked`: a wait never returns. -/
inductive Driven
  | completed
  | failed
  | blocked
deriving DecidableEq, Repr

/-- `bc_duplicate_ring_fits_in_slot` -/
def ringFitsInSlot {κ : Type} (item : BatchItem κ) : Bool :=
  decide (item.fileSize > 0) && decide (item.fileSize ≤ readerRingSlotBufferBytes)

/-- The four linked entries `bc_duplicate_ring_submit_slot` prepares. -/
def slotEntries {κ : Type} (tag : Tag) (slotIndex : Nat) (item : BatchItem κ) : List Sqe :=
  let entry (operation : Operation) (length offset : Nat) (link : Bool) : Sqe :=
    { operation, slot := slotIndex, length, offset, link
      userData := ringEncodeUserData slotIndex operation.code
      view := item.view, tag }
  [entry .openat 0 0 true, entry .read item.fileSize 0 true, entry .probe 1 item.fileSize true,
    entry .close 0 0 false]

/-- `bc_duplicate_ring_submit_slot`: the ring, and whether the entries could
be prepared.  When the queue has no room for four, the ones it had room for
are taken and left as they are. -/
def ringSubmitSlot {κ : Type} (script : ChunkScript) (ring : Ring) (slotIndex itemIndex : Nat)
    (item : BatchItem κ) : Ring × Bool :=
  let queue := ring.submissionQueue
  if queue.length + 4 ≤ ringSubmissionEntries then
    ({ ring with
      submissionQueue := queue ++ slotEntries ⟨ring.driven, itemIndex⟩ slotIndex item }, true)
  else
    ({ ring with
      submissionQueue :=
        queue ++ (List.range (ringSubmissionEntries - queue.length)).map script.stale }, false)

/-- The preparing loop of `bc_duplicate_ring_drive_chunk`.  `slotToItem` has
one element for each submitted slot. -/
def ringPrepareChunk {κ : Type} (script : ChunkScript) :
    Ring → List Nat → Nat → List (BatchItem κ) → Ring × List Nat × Bool
  | ring, slotToItem, _, [] => (ring, slotToItem, true)
  | ring, slotToItem, itemIndex, item :: items =>
      if ringFitsInSlot item = false then
        ringPrepareChunk script ring slotToItem (itemIndex + 1) items
      else
        match ringSubmitSlot script ring slotToItem.length itemIndex item with
        | (ring, false) => (ring, slotToItem, false)
        | (ring, true) =>
            ringPrepareChunk script ring (slotToItem ++ [itemIndex]) (itemIndex + 1) items

/-- What changes while completions are handled.  `handled` records them. -/
structure DriveState (κ : Type) where
  ring : Ring
  items : List (BatchItem κ)
  slotBytesRead : Nat → Nat
  handled : List Cqe

section Handle

variable {κ : Type} (consumer : Consumer κ)

/-- The item after a completion of its slot, and the new `slot_bytes_read`. -/
def ringHandleItem (buffer : Bytes) (bytesRead : Nat) (operationCode : Nat) (res : Int)
    (item : BatchItem κ) : BatchItem κ × Nat :=
  if operationCode = Operation.openat.code then
    if res < 0 then ({ item with success := false, errnoValue := res.natAbs }, bytesRead)
    else (item, bytesRead)
  else if operationCode = Operation.read.code then
    if res < 0 then
      if item.errnoValue = 0 then
        let errno := if res = -Errno.ECANCELED.value then Errno.EIO.value else res.natAbs
        ({ item with success := false, errnoValue := errno }, bytesRead)
      else (item, bytesRead)
    else if res ≠ item.fileSize then (item.fail Errno.EIO, bytesRead)
    else (item, res.natAbs)
  else if operationCode = Operation.probe.code then
    if item.errnoValue ≠ 0 then (item, bytesRead)
    else if res < 0 then
      let errno := if res = -Errno.ECANCELED.value then Errno.EIO.value else res.natAbs
      ({ item with success := false, errnoValue := errno }, bytesRead)
    else if res > 0 then (item.fail Errno.EIO, bytesRead)
    else if bytesRead = 0 then (item.fail Errno.EIO, bytesRead)
    else
      let (feed, accepted) := item.feed.consume consumer (buffer.take bytesRead)
      let item := { item with feed }
      if accepted = false then (item.fail Errno.EIO, bytesRead) else (item.succeed, bytesRead)
  else (item, bytesRead)

/-- `bc_duplicate_ring_handle_cqe`.  A slot without an element in
`slotToItem` is read uninitialised in C; here its completion changes no
item. -/
def ringHandleCqe (slotToItem : List Nat) (state : DriveState κ) (cqe : Cqe) : DriveState κ :=
  let slotIndex := ringDecodeSlot cqe.userData
  let state := { state with handled := state.handled ++ [cqe] }
  match slotToItem[slotIndex]? with
  | none => state
  | some itemIndex =>
      match state.items[itemIndex]? with
      | none => state
      | some item =>
          let (item, bytesRead) := ringHandleItem consumer (state.ring.slots slotIndex).buffer
            (state.slotBytesRead slotIndex) (ringDecodeOperation cqe.userData) cqe.res item
          { state with
            items := state.items.set itemIndex item
            slotBytesRead := Function.update state.slotBytesRead slotIndex bytesRead }

/-- The waiting loop of `bc_duplicate_ring_drive_chunk`; `remaining`
completions are still expected. -/
def ringWaitLoop (slotToItem : List Nat) :
    List Wait → Nat → DriveState κ → DriveState κ × Driven
  | _, 0, state => (state, .completed)
  | [], _ + 1, state => (state, .blocked)
  | wait :: waits, remaining + 1, state =>
      let state := { state with ring := wait.advances.foldl Ring.advance state.ring }
      match wait.status with
      | .error errno =>
          if errno = Errno.EINTR then ringWaitLoop slotToItem waits (remaining + 1) state
          else (state, .failed)
      | .ok () =>
          match state.ring.completionQueue with
          | [] => ringWaitLoop slotToItem waits (remaining + 1) state
          | cqe :: queue =>
              let state := ringHandleCqe consumer slotToItem state cqe
              ringWaitLoop slotToItem waits remaining
                { state with ring := { state.ring with completionQueue := queue } }

/-- What one `bc_duplicate_ring_drive_chunk` leaves. -/
structure DriveResult (κ : Type) where
  state : DriveState κ
  slotToItem : List Nat
  driven : Driven

/-- `bc_duplicate_ring_drive_chunk` on the items of one chunk; positions are
relative to the chunk. -/
def ringDriveChunk (script : ChunkScript) (ring : Ring) (items : List (BatchItem κ)) :
    DriveResult κ :=
  let (ring, slotToItem, prepared) := ringPrepareChunk script ring [] 0 items
  let state : DriveState κ := ⟨ring, items, fun _ => 0, []⟩
  if prepared = false then ⟨state, slotToItem, .failed⟩
  else if slotToItem.length = 0 then ⟨state, slotToItem, .completed⟩
  else
    match script.submitStatus with
    | .error _ => ⟨state, slotToItem, .failed⟩
    | .ok accepted =>
        let (state, driven) := ringWaitLoop consumer slotToItem script.waits
          (4 * slotToItem.length) { state with ring := state.ring.submit accepted }
        ⟨state, slotToItem, driven⟩

end Handle

/-! ## a batch -/

section Batch

variable {κ : Type} (consumer : Consumer κ)

/-- What is done with an item of a chunk whose driving failed. -/
def ringFallbackAfterFailure (item : BatchItem κ) : BatchItem κ :=
  if item.success = false ∧ item.errnoValue = 0 then ringFallbackSync consumer item else item

/-- What is done with an item of a chunk that was driven to its end. -/
def ringFallbackAfterChunk (item : BatchItem κ) : BatchItem κ :=
  if item.success then item
  else if ringFitsInSlot item ∧ item.errnoValue ≠ 0 then item
  else ringFallbackSync consumer item

/-- What a chunk leaves: the ring, its items, and what was handled in it. -/
structure ChunkResult (κ : Type) where
  ring : Ring
  items : List (BatchItem κ)
  drive : DriveResult κ

/-- One round of the loop of `bc_duplicate_reader_consume_batch`. -/
def readerServeChunk (script : ChunkScript) (ring : Ring) (items : List (BatchItem κ)) :
    ChunkResult κ :=
  let drive := ringDriveChunk consumer script { ring with driven := ring.driven + 1 } items
  let items :=
    match drive.driven with
    | .completed => drive.state.items.map (ringFallbackAfterChunk consumer)
    | .failed => drive.state.items.map (ringFallbackAfterFailure consumer)
    | .blocked => drive.state.items
  ⟨drive.state.ring, items, drive⟩

/-- What a batch leaves.  `returned` is false when a wait of its last chunk
never returns. -/
structure BatchResult (κ : Type) where
  ring : Ring
  items : List (BatchItem κ)
  drives : List (DriveResult κ)
  returned : Bool

/-- The loop over the chunks of a batch.  `scripts` gives each chunk the ring
drives its script. -/
def readerConsumeLoop (scripts : Nat → ChunkScript) (ring : Ring) (items : List (BatchItem κ)) :
    BatchResult κ :=
  match items with
  | [] => ⟨ring, [], [], true⟩
  | item :: rest =>
      let chunk := (item :: rest).take readerRingSlotCount
      let result := readerServeChunk consumer (scripts ring.driven) ring chunk
      if result.drive.driven = .blocked then
        ⟨result.ring, result.items ++ (item :: rest).drop readerRingSlotCount, [result.drive],
          false⟩
      else
        let next := readerConsumeLoop scripts result.ring
          ((item :: rest).drop readerRingSlotCount)
        ⟨next.ring, result.items ++ next.items, result.drive :: next.drives, next.returned⟩
termination_by items.length
decreasing_by simp only [List.length_drop, List.length_cons, readerRingSlotCount]; omega

/-- `bc_duplicate_reader_consume_batch` -/
def readerConsumeBatch (scripts : Nat → ChunkScript) (ring : Ring) (items : List (BatchItem κ)) :
    BatchResult κ :=
  readerConsumeLoop consumer scripts ring (items.map BatchItem.reset)

end Batch

end BcDuplicate
