import BcDuplicate.Ring.Acceptance
import BcDuplicate.Ring.Served
import BcDuplicate.Worker.Candidates
import Mathlib.Data.UInt

/-!
# BcDuplicate.Worker.Batch

One batch of the full pass.  It finds in its slot a ring and hash states some
earlier batch used.  A reset hash state hashes like a new one
(`HashLibrary.Resets`), and a ring that no failed batch has used serves the
items of this batch alone (`ReadyFor`), so the batch updates each of its
candidates as a slot that was never used would (`fullProcessBatch_eq`).

A batch that fails leaves files to the synchronous reader that the ring would
have served.  It does not matter when both routes store the same
(`StoresAlike`).
-/

namespace BcDuplicate

open Sorting
open Updates

/-! ## reset hash states -/

/-- `sha256Update` chunk after chunk, until one fails. -/
def HashLibrary.sha256Feed (lib : HashLibrary) :
    lib.Sha256Context → List Bytes → lib.Sha256Context × Bool
  | context, [] => (context, true)
  | context, chunk :: chunks =>
      if (lib.sha256Update context chunk).2 then
        lib.sha256Feed (lib.sha256Update context chunk).1 chunks
      else ((lib.sha256Update context chunk).1, false)

/-- What a state was used for before its reset does not matter. -/
structure HashLibrary.Resets (lib : HashLibrary) : Prop where
  xxh3 : ∀ (state state' : lib.Xxh3State) (chunks : List Bytes),
    lib.digest64 (chunks.foldl lib.update64 (lib.reset64 state)) =
      lib.digest64 (chunks.foldl lib.update64 (lib.reset64 state'))
  xxh128 : ∀ (state state' : lib.Xxh3State) (chunks : List Bytes),
    lib.digest128 (chunks.foldl lib.update128 (lib.reset128 state)) =
      lib.digest128 (chunks.foldl lib.update128 (lib.reset128 state'))
  sha256Update : ∀ (context context' : lib.Sha256Context) (chunks : List Bytes),
    (lib.sha256Feed (lib.sha256Init context).1 chunks).2 =
      (lib.sha256Feed (lib.sha256Init context').1 chunks).2
  sha256Finalize : ∀ (context context' : lib.Sha256Context) (chunks : List Bytes),
    lib.sha256Finalize (lib.sha256Feed (lib.sha256Init context).1 chunks).1 =
      lib.sha256Finalize (lib.sha256Feed (lib.sha256Init context').1 chunks).1

section Consumed

variable {lib : HashLibrary}

/-- Both XXH3 variants only update their state, and accept every chunk. -/
theorem consumeAll_xxh {algorithm : Algorithm} {update : lib.Xxh3State → Bytes → lib.Xxh3State}
    (hcallback : ∀ (state : ConsumerState lib) (chunk : Bytes), state.algorithm = algorithm →
      fullConsumerCallback state chunk =
        ({ state with xxhState := update state.xxhState chunk }, true))
    (feed : Feed (ConsumerState lib)) (h : feed.context.algorithm = algorithm)
    (chunks : List Bytes) :
    (feed.consumeAll fullConsumerCallback chunks).1.context =
        { feed.context with xxhState := chunks.foldl update feed.context.xxhState } ∧
      (feed.consumeAll fullConsumerCallback chunks).2 = true := by
  induction chunks generalizing feed with
  | nil => exact ⟨rfl, rfl⟩
  | cons chunk chunks ih =>
      have hstep : feed.consume fullConsumerCallback chunk =
          (⟨{ feed.context with xxhState := update feed.context.xxhState chunk },
            feed.chunks ++ [chunk]⟩, true) := by
        rw [Feed.consume, hcallback feed.context chunk h]
      rw [Feed.consumeAll, hstep, if_pos rfl]
      exact ih _ h

theorem callback_xxh3 (state : ConsumerState lib) (chunk : Bytes) (h : state.algorithm = .xxh3) :
    fullConsumerCallback state chunk =
      ({ state with xxhState := lib.update64 state.xxhState chunk }, true) := by
  rw [fullConsumerCallback, h]

theorem callback_xxh128 (state : ConsumerState lib) (chunk : Bytes)
    (h : state.algorithm = .xxh128) : fullConsumerCallback state chunk =
      ({ state with xxhState := lib.update128 state.xxhState chunk }, true) := by
  rw [fullConsumerCallback, h]

theorem consumeAll_sha256 (feed : Feed (ConsumerState lib))
    (h : feed.context.algorithm = .sha256) (chunks : List Bytes) :
    (feed.consumeAll fullConsumerCallback chunks).2 =
        (lib.sha256Feed feed.context.sha256Context chunks).2 ∧
      ((lib.sha256Feed feed.context.sha256Context chunks).2 = true →
        (feed.consumeAll fullConsumerCallback chunks).1.context =
          { feed.context with
            sha256Context := (lib.sha256Feed feed.context.sha256Context chunks).1 }) := by
  induction chunks generalizing feed with
  | nil => exact ⟨rfl, fun _ => rfl⟩
  | cons chunk chunks ih =>
      rw [Feed.consumeAll, HashLibrary.sha256Feed]
      cases hok : (lib.sha256Update feed.context.sha256Context chunk).2 with
      | true =>
          have hstep : feed.consume fullConsumerCallback chunk =
              (⟨{ feed.context with sha256Context :=
                  (lib.sha256Update feed.context.sha256Context chunk).1 },
                feed.chunks ++ [chunk]⟩, true) := by
            simp only [Feed.consume, fullConsumerCallback, h, hok, if_true]
          rw [hstep, if_pos rfl, if_pos rfl]
          exact ih _ h
      | false =>
          have hstep : (feed.consume fullConsumerCallback chunk).2 = false := by
            simp only [Feed.consume, fullConsumerCallback, h, hok, Bool.false_eq_true, if_false]
          rw [hstep, if_neg Bool.false_ne_true, if_neg Bool.false_ne_true]
          exact ⟨rfl, fun hfed => absurd hfed Bool.false_ne_true⟩

/-- A reset state and the chunks fed to it. -/
def fedState (state : ConsumerState lib) (xxhState : lib.Xxh3State) (algorithm : Algorithm)
    (chunks : List Bytes) : Feed (ConsumerState lib) × Bool :=
  Feed.consumeAll fullConsumerCallback ⟨fullConsumerReset state xxhState algorithm, []⟩ chunks

/-- **Reset states hash alike**: they accept the same chunks, and end with the
same digest. -/
theorem HashLibrary.Resets.fedState_eq (hlib : lib.Resets) (algorithm : Algorithm)
    (state state' : ConsumerState lib) (xxhState xxhState' : lib.Xxh3State) (chunks : List Bytes) :
    (fedState state xxhState algorithm chunks).2 =
        (fedState state' xxhState' algorithm chunks).2 ∧
      ((fedState state xxhState algorithm chunks).2 = true →
        (fedState state xxhState algorithm chunks).1.context.failed = false ∧
        (fedState state' xxhState' algorithm chunks).1.context.failed = false ∧
        fullConsumerFinalize (fedState state xxhState algorithm chunks).1.context =
          fullConsumerFinalize (fedState state' xxhState' algorithm chunks).1.context) := by
  unfold fedState
  cases algorithm with
  | xxh3 =>
      obtain ⟨hcontext, haccept⟩ := consumeAll_xxh callback_xxh3
        (⟨fullConsumerReset state xxhState .xxh3, []⟩ : Feed (ConsumerState lib)) rfl chunks
      obtain ⟨hcontext', haccept'⟩ := consumeAll_xxh callback_xxh3
        (⟨fullConsumerReset state' xxhState' .xxh3, []⟩ : Feed (ConsumerState lib)) rfl chunks
      rw [haccept, haccept', hcontext, hcontext']
      refine ⟨rfl, fun _ => ⟨rfl, rfl, ?_⟩⟩
      simp only [fullConsumerFinalize, fullConsumerReset, hlib.xxh3 xxhState xxhState' chunks]
  | xxh128 =>
      obtain ⟨hcontext, haccept⟩ := consumeAll_xxh callback_xxh128
        (⟨fullConsumerReset state xxhState .xxh128, []⟩ : Feed (ConsumerState lib)) rfl chunks
      obtain ⟨hcontext', haccept'⟩ := consumeAll_xxh callback_xxh128
        (⟨fullConsumerReset state' xxhState' .xxh128, []⟩ : Feed (ConsumerState lib)) rfl chunks
      rw [haccept, haccept', hcontext, hcontext']
      refine ⟨rfl, fun _ => ⟨rfl, rfl, ?_⟩⟩
      simp only [fullConsumerFinalize, fullConsumerReset, hlib.xxh128 xxhState xxhState' chunks]
  | sha256 =>
      obtain ⟨haccept, hcontext⟩ := consumeAll_sha256
        (⟨fullConsumerReset state xxhState .sha256, []⟩ : Feed (ConsumerState lib)) rfl chunks
      obtain ⟨haccept', hcontext'⟩ := consumeAll_sha256
        (⟨fullConsumerReset state' xxhState' .sha256, []⟩ : Feed (ConsumerState lib)) rfl chunks
      have hflags := hlib.sha256Update state.sha256Context state'.sha256Context chunks
      have hdigest := hlib.sha256Finalize state.sha256Context state'.sha256Context chunks
      rw [haccept, haccept']
      refine ⟨hflags, fun hok => ?_⟩
      rw [hcontext hok, hcontext' (hflags.symm.trans hok)]
      refine ⟨rfl, rfl, ?_⟩
      simp only [fullConsumerFinalize, fullConsumerReset, hdigest]

end Consumed

/-! ## one batch -/

section Batch

variable {lib : HashLibrary} {env : FullEnvironment} {algorithm : Algorithm}

/-- What the pass does to the entry at a position: its batch item, in a slot
nothing used before, is served alone. -/
def fullUpdate (lib : HashLibrary) (env : FullEnvironment) (algorithm : Algorithm) (index : Nat)
    (entry : FileEntry) : FileEntry :=
  fullStoreResult (servedItem fullConsumerCallback
    (fullBatchItem env algorithm (FullSlot.zeroed lib) 0 index entry)) entry

/-- What is stored for an item, from what its consumer was fed and how the
reading ended. -/
def fullStored (fed : Feed (ConsumerState lib) × Bool) (result : Except Errno Unit)
    (entry : FileEntry) : FileEntry :=
  match if fed.2 then result else .error Errno.EIO with
  | .error errno => { entry with fullHashComputed := true, fullHashErrno := errno.value }
  | .ok () =>
      if fed.1.context.failed then
        { entry with fullHashComputed := true, fullHashErrno := Errno.EIO.value }
      else
        { entry with
          fullHash := (fullConsumerFinalize fed.1.context).1
          fullHashComputed := true
          fullHashErrno := if (fullConsumerFinalize fed.1.context).2 then Errno.EIO.value else 0 }

theorem fullStoreResult_serve (item : BatchItem (ConsumerState lib))
    (chunks : List Bytes × Except Errno Unit) (entry : FileEntry) :
    fullStoreResult (item.serve fullConsumerCallback chunks) entry =
      fullStored (item.feed.consumeAll fullConsumerCallback chunks.1) chunks.2 entry := by
  unfold BatchItem.serve fullStored
  dsimp only
  cases hresult : (if (item.feed.consumeAll fullConsumerCallback chunks.1).2 = true then chunks.2
      else .error Errno.EIO) with
  | error errno => simp [BatchItem.fail, fullStoreResult, errno.value_ne_zero]
  | ok done =>
      cases hfailed : (item.feed.consumeAll fullConsumerCallback chunks.1).1.context.failed with
      | true => simp [BatchItem.succeed, fullStoreResult, hfailed]
      | false =>
          simp only [BatchItem.succeed, fullStoreResult, hfailed, Bool.true_eq_false,
            Bool.false_eq_true, or_self, if_false]
          rfl

/-- What a slot that was never used stores for the chunks read of a file. -/
def freshStored (lib : HashLibrary) (algorithm : Algorithm)
    (chunks : List Bytes × Except Errno Unit) (entry : FileEntry) : FileEntry :=
  fullStored (fedState (⟨.xxh3, lib.createState, lib.blankContext, false⟩ : ConsumerState lib)
    lib.createState algorithm chunks.1) chunks.2 entry

/-- **No state of an earlier batch influences a later one.** -/
theorem fullStored_eq_freshStored (hlib : lib.Resets) (state : ConsumerState lib)
    (xxhState : lib.Xxh3State) (chunks : List Bytes × Except Errno Unit) (entry : FileEntry) :
    fullStored (fedState state xxhState algorithm chunks.1) chunks.2 entry =
      freshStored lib algorithm chunks entry := by
  obtain ⟨haccept, hdigest⟩ := hlib.fedState_eq algorithm state
    ⟨.xxh3, lib.createState, lib.blankContext, false⟩ xxhState lib.createState chunks.1
  unfold freshStored fullStored
  rw [← haccept]
  cases hok : (fedState state xxhState algorithm chunks.1).2 with
  | false => rfl
  | true =>
      obtain ⟨hfailed, hfailed', hfinalize⟩ := hdigest hok
      rw [hfailed, hfailed', hfinalize]

/-- What is stored for an item served as its size says. -/
theorem fullStoreResult_servedItem (hlib : lib.Resets) (slot : FullSlot lib)
    (offset index : Nat) (entry : FileEntry) :
    fullStoreResult (servedItem fullConsumerCallback
        (fullBatchItem env algorithm slot offset index entry)) entry =
      freshStored lib algorithm
        (itemChunks (env.view index entry.absolutePath) entry.fileSize) entry := by
  rw [servedItem_eq _ _ ⟨rfl, rfl, rfl⟩, fullStoreResult_serve]
  exact fullStored_eq_freshStored hlib _ _ _ entry

/-- What is stored for an item left to the synchronous reader. -/
theorem fullStoreResult_ringFallbackSync (hlib : lib.Resets) (slot : FullSlot lib)
    (offset index : Nat) (entry : FileEntry) :
    fullStoreResult (ringFallbackSync fullConsumerCallback
        (fullBatchItem env algorithm slot offset index entry)) entry =
      freshStored lib algorithm (fileChunks (env.view index entry.absolutePath)) entry := by
  rw [ringFallbackSync_eq, fullStoreResult_serve]
  exact fullStored_eq_freshStored hlib _ _ _ entry

/-- The pass stores the same for a file whether the synchronous reader reads it
or the route that its size says. -/
def StoresAlike (lib : HashLibrary) (algorithm : Algorithm) (view : FileView) (fileSize : Nat) :
    Prop :=
  ∀ entry : FileEntry, freshStored lib algorithm (fileChunks view) entry =
    freshStored lib algorithm (itemChunks view fileSize) entry

/-- A file that fits no slot has one route. -/
theorem storesAlike_of_not_fits {view : FileView} {fileSize : Nat}
    (hfits : fitsInSlot fileSize = false) : StoresAlike lib algorithm view fileSize := by
  intro entry
  rw [itemChunks, hfits]
  rfl

/-- A slot that was never used. -/
theorem fullUpdate_eq (lib : HashLibrary) (env : FullEnvironment) (algorithm : Algorithm)
    (index : Nat) (entry : FileEntry) :
    fullUpdate lib env algorithm index entry = freshStored lib algorithm
      (itemChunks (env.view index entry.absolutePath) entry.fileSize) entry := by
  rw [fullUpdate, servedItem_eq _ _ ⟨rfl, rfl, rfl⟩, fullStoreResult_serve]
  rfl

/-! ## the items of a batch -/

/-- The items of a batch, in the order of its candidates. -/
def batchItems (env : FullEnvironment) (algorithm : Algorithm) (slot : FullSlot lib)
    (entries : List FileEntry) (indices : List Nat) : List (BatchItem (ConsumerState lib)) :=
  (indices.zipIdx).filterMap fun (index, offset) =>
    (entries[index]?).map (fullBatchItem env algorithm slot offset index)

/-- There is an item for each candidate that is an entry. -/
theorem batchItems_eq_map (slot : FullSlot lib) {indices : List Nat} {entries : List FileEntry}
    (hbounds : ∀ i ∈ indices, i < entries.length) :
    batchItems env algorithm slot entries indices = indices.zipIdx.map fun (index, offset) =>
      fullBatchItem env algorithm slot offset index
        (entries.getD index (.discovered [] 0 0 0)) := by
  rw [batchItems, ← List.filterMap_eq_map]
  refine List.filterMap_congr fun pair hpair => ?_
  have hlt := hbounds pair.1 (List.fst_mem_of_mem_zipIdx hpair)
  simp [List.getElem?_eq_getElem hlt]

theorem length_batchItems (slot : FullSlot lib) {indices : List Nat} {entries : List FileEntry}
    (hbounds : ∀ i ∈ indices, i < entries.length) :
    (batchItems env algorithm slot entries indices).length = indices.length := by
  rw [batchItems_eq_map slot hbounds, List.length_map, List.length_zipIdx]

/-- The item of a candidate stands at its position. -/
theorem getElem?_batchItems (slot : FullSlot lib) {indices : List Nat} {entries : List FileEntry}
    (hbounds : ∀ i ∈ indices, i < entries.length) {k index : Nat} {entry : FileEntry}
    (hindex : indices[k]? = some index) (hentry : entries[index]? = some entry) :
    (batchItems env algorithm slot entries indices)[k]? =
      some (fullBatchItem env algorithm slot k index entry) := by
  rw [batchItems_eq_map slot hbounds, List.getElem?_map, List.getElem?_zipIdx, hindex]
  simp [hentry]

/-- A batch reads the entries of its candidates only. -/
theorem batchItems_congr (slot : FullSlot lib) {indices : List Nat}
    {entries entries' : List FileEntry} (hsame : ∀ i ∈ indices, entries[i]? = entries'[i]?) :
    batchItems env algorithm slot entries indices =
      batchItems env algorithm slot entries' indices := by
  refine List.filterMap_congr fun pair hpair => ?_
  obtain ⟨index, offset⟩ := pair
  dsimp only
  rw [hsame index (List.fst_mem_of_mem_zipIdx hpair)]

/-- Which slots a batch needs depends on the recorded sizes alone. -/
theorem fittingItems_batchItems (slot slot' : FullSlot lib) (entries : List FileEntry)
    (indices : List Nat) :
    fittingItems 0 (batchItems env algorithm slot entries indices) =
      fittingItems 0 (batchItems env algorithm slot' entries indices) := by
  suffices hstart : ∀ start itemIndex : Nat, fittingItems itemIndex
      ((indices.zipIdx start).filterMap fun (index, offset) =>
        (entries[index]?).map (fullBatchItem env algorithm slot offset index)) =
      fittingItems itemIndex ((indices.zipIdx start).filterMap fun (index, offset) =>
        (entries[index]?).map (fullBatchItem env algorithm slot' offset index)) from hstart 0 0
  induction indices with
  | nil => exact fun _ _ => rfl
  | cons index indices hrest =>
      intro start itemIndex
      rw [List.zipIdx_cons, List.filterMap_cons, List.filterMap_cons]
      dsimp only
      cases entries[index]? with
      | none => exact hrest _ _
      | some entry =>
          have hfits : ringFitsInSlot (fullBatchItem env algorithm slot start index entry) =
              ringFitsInSlot (fullBatchItem env algorithm slot' start index entry) := rfl
          dsimp only [Option.map_some]
          rw [fittingItems, fittingItems, hfits, hrest]

/-- A batch item is as the batch loop resets it. -/
theorem map_reset_batchItems (slot : FullSlot lib) (entries : List FileEntry)
    (indices : List Nat) :
    (batchItems env algorithm slot entries indices).map BatchItem.reset =
      batchItems env algorithm slot entries indices := by
  rw [batchItems, List.map_filterMap]
  refine List.filterMap_congr fun pair _ => ?_
  obtain ⟨index, offset⟩ := pair
  dsimp only
  cases entries[index]? <;> rfl

/-! ## one batch -/

/-- What a batch leaves to the synchronous reader is stored as by its own
route; `items` are those of its candidates `indices`. -/
def LeftAlike (lib : HashLibrary) (env : FullEnvironment) (algorithm : Algorithm)
    (script : ChunkScript) (entries : List FileEntry) (indices : List Nat) : Prop :=
  ∀ (k index : Nat) (entry : FileEntry), indices[k]? = some index →
    entries[index]? = some entry →
      LeftToSync script (batchItems env algorithm (FullSlot.zeroed lib) entries indices) k
        (fullBatchItem env algorithm (FullSlot.zeroed lib) k index entry) →
        StoresAlike lib algorithm (env.view index entry.absolutePath) entry.fileSize

theorem LeftAlike.congr {script : ChunkScript} {indices : List Nat}
    {entries entries' : List FileEntry} (hsame : ∀ i ∈ indices, entries[i]? = entries'[i]?)
    (h : LeftAlike lib env algorithm script entries indices) :
    LeftAlike lib env algorithm script entries' indices := by
  intro k index entry hindex hentry hleft
  rw [← hsame index (List.mem_of_getElem? hindex)] at hentry
  rw [← batchItems_congr _ hsame] at hleft
  exact h k index entry hindex hentry hleft

/-- **A batch updates its candidates**, on a ring that is ready for it, and
leaves the ring ready for the batches behind it. -/
theorem fullProcessBatch_eq (hlib : lib.Resets) {scripts : Nat → ChunkScript} {slot : FullSlot lib}
    {indices : List Nat} (hsome : indices ≠ []) (hlen : indices.length ≤ fullBatchItemCapacity)
    (hnodup : indices.Nodup) {entries : List FileEntry}
    (hbounds : ∀ i ∈ indices, i < entries.length)
    {later : List (List (BatchItem (ConsumerState lib)))}
    (hready : ReadyFor scripts slot.ring
      (batchItems env algorithm (FullSlot.zeroed lib) entries indices :: later))
    (hwaits : ((scripts slot.ring.driven).reaps (fittingItems 0
      (batchItems env algorithm (FullSlot.zeroed lib) entries indices)).length).2 ≠ .blocked)
    (halike : LeftAlike lib env algorithm (scripts slot.ring.driven) entries indices) :
    ∃ slot' : FullSlot lib, slot'.ringInitialised = slot.ringInitialised ∧
      slot'.ring.driven = slot.ring.driven + 1 ∧ ReadyFor scripts slot'.ring later ∧
      fullProcessBatch env algorithm scripts slot indices entries =
        (updateAt (fullUpdate lib env algorithm) indices entries, slot', true) := by
  have hslots := @fittingItems_batchItems lib env algorithm (FullSlot.zeroed lib) slot entries
    indices
  have hready' : ReadyFor scripts slot.ring
      (batchItems env algorithm slot entries indices :: later) :=
    hready.congr (by rw [List.map_cons, List.map_cons, hslots])
  rw [hslots] at hwaits
  have hcount := (@length_batchItems lib env algorithm slot indices entries hbounds).symm
  have hfresh : ∀ item ∈ batchItems env algorithm slot entries indices, Fresh item := by
    intro item hitem
    rw [← map_reset_batchItems] at hitem
    obtain ⟨source, _, rfl⟩ := List.mem_map.mp hitem
    exact ⟨rfl, rfl, rfl⟩
  have hchunk : (batchItems env algorithm slot entries indices).length ≤ readerRingSlotCount :=
    hcount ▸ hlen
  have hne : batchItems env algorithm slot entries indices ≠ [] := by
    intro hnil
    rw [hnil, List.length_nil] at hcount
    exact hsome (List.length_eq_zero_iff.mp hcount)
  have hreturned := @ReadyFor.returns _ fullConsumerCallback scripts slot.ring _ _ hready' hchunk
    hwaits
  obtain ⟨_, hdriven, hnext⟩ := @chunkDriven_of_readyFor _ fullConsumerCallback scripts slot.ring
    _ _ hready' hchunk hfresh
  have hserved := fun i item final => @ReadyFor.servedBy _ fullConsumerCallback scripts slot.ring
    _ _ hready' hchunk hfresh hreturned i item final
  have hitems := @length_items_readerServeChunk _ fullConsumerCallback (scripts slot.ring.driven)
    slot.ring (batchItems env algorithm slot entries indices)
  have hbatch : readerConsumeBatch fullConsumerCallback scripts slot.ring
      (batchItems env algorithm slot entries indices) =
        readerConsumeLoop fullConsumerCallback scripts slot.ring
          (batchItems env algorithm slot entries indices) := by
    rw [readerConsumeBatch, map_reset_batchItems]
  unfold fullProcessBatch
  dsimp only
  rw [show (indices.zipIdx).filterMap (fun x =>
    (entries[x.1]?).map (fullBatchItem env algorithm slot x.2 x.1)) =
      batchItems env algorithm slot entries indices from rfl, hbatch,
    readerConsumeLoop_one scripts slot.ring hne hchunk]
  refine ⟨_, ?_, ?_, ?_, Prod.ext ?_ (Prod.ext rfl (by simpa using hreturned))⟩
  · rfl
  · exact hdriven
  · exact hnext hreturned
  dsimp only
  generalize (readerServeChunk fullConsumerCallback (scripts slot.ring.driven) slot.ring
    (batchItems env algorithm slot entries indices)).items = finals at hserved hitems
  have hpairs : (indices.zip finals).map Prod.fst = indices := by
    rw [List.map_fst_zip]
    rw [hitems, ← hcount]
  conv_rhs => rw [← hpairs]
  refine foldl_modify_eq_updateAt _ _ (hpairs.symm ▸ hnodup) ?_
  intro pair hpair entry hentry
  obtain ⟨k, hk⟩ := List.mem_iff_getElem?.mp hpair
  obtain ⟨index, final⟩ := pair
  obtain ⟨hindex, hfinal⟩ := List.getElem?_zip_eq_some.mp hk
  have hroute := hserved k _ final (getElem?_batchItems slot hbounds hindex hentry) hfinal
  rw [fullUpdate_eq]
  cases hroute with
  | inl hsync =>
      rw [hsync.2, fullStoreResult_ringFallbackSync hlib]
      refine halike k index entry hindex hentry ?_ entry
      have hleft := hsync.1
      unfold LeftToSync ChunkScript.FailsOn at hleft ⊢
      rw [hslots]
      exact hleft
  | inr hring =>
      have hfits : ringFitsInSlot (fullBatchItem env algorithm slot k index entry) = true := by
        by_contra hnot
        exact hring.1 (Or.inl (Bool.eq_false_of_not_eq_true hnot))
      rw [← fullStoreResult_servedItem hlib slot k, servedItem, if_pos hfits, hring.2]

end Batch

end BcDuplicate
