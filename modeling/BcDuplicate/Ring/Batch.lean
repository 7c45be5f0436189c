import BcDuplicate.Ring.Tally

/-!
# BcDuplicate.Ring.Batch

Batches on one ring.  A worker slot makes a sequence of calls of
`readerConsumeBatch` on one ring; chunk after chunk they are `serveChunks`
(`drives_consumeCalls`).

Whether a chunk starts on a quiescent ring depends on the chunks before it.
A chunk that completes leaves the ring quiescent; one that fails does not, and
then it matters whether a later chunk uses the ring.  `NoReuse` excludes that
on the inputs, and under it every chunk of a run behaves (`chunkDriven_run`).
-/

namespace BcDuplicate

section Batch

variable {κ : Type} (consumer : Consumer κ)

/-! ## one chunk -/

/-- What a batch item becomes when nothing disturbs the ring. -/
def servedItem (item : BatchItem κ) : BatchItem κ :=
  if ringFitsInSlot item then ringServed consumer item else ringFallbackSync consumer item

variable {consumer}

/-- A served item keeps its result: it succeeded, or its errno is set. -/
theorem ringFallbackAfterChunk_ringServed {item : BatchItem κ}
    (hfits : ringFitsInSlot item = true) :
    ringFallbackAfterChunk consumer (ringServed consumer item) = ringServed consumer item := by
  rw [ringFallbackAfterChunk]
  cases ringServed_errno consumer item with
  | inl hserved => rw [if_pos hserved.1]
  | inr hserved =>
      have hfits' : ringFitsInSlot (ringServed consumer item) = true := by
        rw [ringFitsInSlot, (ringServed_data consumer item).1]
        exact hfits
      rw [hserved.1, if_neg Bool.false_ne_true, if_pos ⟨hfits', hserved.2⟩]

theorem ringFallbackAfterFailure_ringServed (item : BatchItem κ) :
    ringFallbackAfterFailure consumer (ringServed consumer item) = ringServed consumer item := by
  rw [ringFallbackAfterFailure]
  cases ringServed_errno consumer item with
  | inl hserved => rw [hserved.1, if_neg (fun h => by cases h.1)]
  | inr hserved => rw [if_neg (fun h => hserved.2 h.2)]

/-- **What serving a chunk leaves of an item**: it was served by the ring, or
by the synchronous fallback starting from the untouched item. -/
theorem items_readerServeChunk {script : ChunkScript} {ring : Ring} {items : List (BatchItem κ)}
    (hfresh : ∀ item ∈ items, Fresh item)
    (hdriven : ChunkDriven consumer { ring with driven := ring.driven + 1 } items
      (readerServeChunk consumer script ring items).drive)
    (hreturned : (readerServeChunk consumer script ring items).drive.driven ≠ .blocked)
    {i : Nat} {item : BatchItem κ} (hitem : items[i]? = some item) :
    ((readerServeChunk consumer script ring items).items[i]? = some (ringServed consumer item) ∧
        ringFitsInSlot item = true) ∨
      ((readerServeChunk consumer script ring items).items[i]? =
          some (ringFallbackSync consumer item) ∧
        (ringFitsInSlot item = false ∨
          (readerServeChunk consumer script ring items).drive.driven = .failed)) := by
  have hitemFresh := hfresh item (List.mem_of_getElem? hitem)
  unfold readerServeChunk at hdriven hreturned ⊢
  dsimp only at hdriven hreturned ⊢
  generalize ringDriveChunk consumer script { ring with driven := ring.driven + 1 } items = drive
    at hdriven hreturned ⊢
  cases hend : drive.driven with
  | blocked => exact absurd hend hreturned
  | completed =>
      dsimp only
      rw [List.getElem?_map]
      cases hfits : ringFitsInSlot item with
      | true =>
          left
          rw [hdriven.completed hend i item hitem hfits, Option.map_some,
            ringFallbackAfterChunk_ringServed hfits]
          exact ⟨rfl, rfl⟩
      | false =>
          right
          rw [hdriven.other i item hitem hfits, Option.map_some, ringFallbackAfterChunk,
            hitemFresh.success, if_neg Bool.false_ne_true, hfits]
          exact ⟨by rw [if_neg (fun h => Bool.false_ne_true h.1)], Or.inl rfl⟩
  | failed =>
      dsimp only
      rw [List.getElem?_map]
      have hfallback : ringFallbackAfterFailure consumer item = ringFallbackSync consumer item :=
        if_pos ⟨hitemFresh.success, hitemFresh.errnoValue⟩
      cases hfits : ringFitsInSlot item with
      | true =>
          cases hdriven.fitting i item hitem hfits with
          | inl huntouched =>
              right
              rw [huntouched, Option.map_some, hfallback]
              exact ⟨rfl, Or.inr rfl⟩
          | inr hserved =>
              left
              rw [hserved, Option.map_some, ringFallbackAfterFailure_ringServed]
              exact ⟨rfl, rfl⟩
      | false =>
          rw [hdriven.other i item hitem hfits, Option.map_some, hfallback]
          exact Or.inr ⟨rfl, Or.inl rfl⟩

/-! ## the length of a batch -/

section Length

variable (consumer)

@[simp] theorem length_items_ringHandleCqe (slotToItem : List Nat) (state : DriveState κ)
    (cqe : Cqe) :
    (ringHandleCqe consumer slotToItem state cqe).items.length = state.items.length := by
  unfold ringHandleCqe
  dsimp only
  split
  · rfl
  · split
    · rfl
    · exact List.length_set

@[simp] theorem length_items_ringWaitLoop (slotToItem : List Nat) (waits : List Wait)
    (remaining : Nat) (state : DriveState κ) :
    (ringWaitLoop consumer slotToItem waits remaining state).1.items.length =
      state.items.length := by
  fun_induction ringWaitLoop consumer slotToItem waits remaining state with
  | case1 | case2 => rfl
  | case3 wait waits remaining state advanced _ ih => exact ih
  | case4 => rfl
  | case5 wait waits remaining state advanced _ _ ih => exact ih
  | case6 wait waits remaining state advanced _ cqe queue _ handled ih =>
      rw [ih]
      exact length_items_ringHandleCqe consumer slotToItem advanced cqe

@[simp] theorem length_items_ringDriveChunk (script : ChunkScript) (ring : Ring)
    (items : List (BatchItem κ)) :
    (ringDriveChunk consumer script ring items).state.items.length = items.length := by
  unfold ringDriveChunk
  dsimp only
  split
  · rfl
  · split
    · rfl
    · cases script.submitStatus with
      | error errno => rfl
      | ok accepted => exact length_items_ringWaitLoop consumer _ _ _ _

@[simp] theorem length_items_readerServeChunk (script : ChunkScript) (ring : Ring)
    (items : List (BatchItem κ)) :
    (readerServeChunk consumer script ring items).items.length = items.length := by
  unfold readerServeChunk
  dsimp only
  split <;> simp only [List.length_map, length_items_ringDriveChunk]

/-- **A batch gives back as many items as it got**, whatever its rings do. -/
@[simp] theorem length_items_readerConsumeBatch (scripts : Nat → ChunkScript) (ring : Ring)
    (items : List (BatchItem κ)) :
    (readerConsumeBatch consumer scripts ring items).items.length = items.length := by
  have hloop : ∀ (ring : Ring) (items : List (BatchItem κ)),
      (readerConsumeLoop consumer scripts ring items).items.length = items.length := by
    intro ring items
    fun_induction readerConsumeLoop consumer scripts ring items with
    | case1 => rfl
    | case2 ring item rest chunk result _ =>
        rw [List.length_append, length_items_readerServeChunk, ← List.length_append,
          List.take_append_drop]
    | case3 ring item rest chunk result _ next ih =>
        rw [List.length_append, ih, length_items_readerServeChunk, ← List.length_append,
          List.take_append_drop]
  rw [readerConsumeBatch, hloop, List.length_map]

end Length

/-- A call of at most one chunk. -/
theorem readerConsumeLoop_one (scripts : Nat → ChunkScript) (ring : Ring)
    {items : List (BatchItem κ)} (hsome : items ≠ []) (hlen : items.length ≤ readerRingSlotCount) :
    readerConsumeLoop consumer scripts ring items =
      ⟨(readerServeChunk consumer (scripts ring.driven) ring items).ring,
        (readerServeChunk consumer (scripts ring.driven) ring items).items,
        [(readerServeChunk consumer (scripts ring.driven) ring items).drive],
        decide ((readerServeChunk consumer (scripts ring.driven) ring items).drive.driven ≠
          .blocked)⟩ := by
  cases items with
  | nil => exact absurd rfl hsome
  | cons item rest =>
      rw [readerConsumeLoop]
      dsimp only
      rw [List.take_of_length_le hlen, List.drop_of_length_le hlen]
      split
      · next hblocked => simp [hblocked]
      · next hreturned => simp [readerConsumeLoop, hreturned]

/-! ## runs of chunks -/

variable (consumer)

/-- Serve chunks one after the other, until one never returns. -/
def serveChunks (scripts : Nat → ChunkScript) :
    Ring → List (List (BatchItem κ)) → List (ChunkResult κ)
  | _, [] => []
  | ring, chunk :: chunks =>
      let result := readerServeChunk consumer (scripts ring.driven) ring chunk
      if result.drive.driven = .blocked then [result]
      else result :: serveChunks scripts result.ring chunks

/-- The chunks of a batch: 32 items at a time. -/
def batchChunks (items : List (BatchItem κ)) : List (List (BatchItem κ)) :=
  match items with
  | [] => []
  | item :: rest =>
      (item :: rest).take readerRingSlotCount ::
        batchChunks ((item :: rest).drop readerRingSlotCount)
termination_by items.length
decreasing_by simp only [List.length_drop, List.length_cons, readerRingSlotCount]; omega

/-- One call after the other on one ring. -/
def consumeCalls (scripts : Nat → ChunkScript) :
    Ring → List (List (BatchItem κ)) → List (BatchResult κ)
  | _, [] => []
  | ring, items :: calls =>
      let result := readerConsumeBatch consumer scripts ring items
      if result.returned then result :: consumeCalls scripts result.ring calls else [result]

/-- The chunks a sequence of calls serves. -/
def callChunks (calls : List (List (BatchItem κ))) : List (List (BatchItem κ)) :=
  calls.flatMap fun items => batchChunks (items.map BatchItem.reset)

/-- The chunks of a batch are its drives, and the ring goes on where the last
one left it. -/
theorem readerConsumeLoop_eq (scripts : Nat → ChunkScript) (ring : Ring)
    (items : List (BatchItem κ)) (more : List (List (BatchItem κ))) :
    (serveChunks consumer scripts ring (batchChunks items ++ more)).map ChunkResult.drive =
      (readerConsumeLoop consumer scripts ring items).drives ++
        if (readerConsumeLoop consumer scripts ring items).returned then
          (serveChunks consumer scripts (readerConsumeLoop consumer scripts ring items).ring
            more).map ChunkResult.drive
        else [] := by
  fun_induction readerConsumeLoop consumer scripts ring items with
  | case1 ring =>
      rw [batchChunks, List.nil_append, List.nil_append, if_pos rfl]
  | case2 ring item rest chunk result hblocked =>
      rw [batchChunks, List.cons_append, serveChunks]
      dsimp only
      rw [if_pos hblocked, if_neg Bool.false_ne_true, List.append_nil]
      rfl
  | case3 ring item rest chunk result hreturned next ih =>
      rw [batchChunks, List.cons_append, serveChunks]
      dsimp only
      rw [if_neg hreturned, List.map_cons, ih]
      rfl

/-- **A sequence of calls drives its chunks in order.** -/
theorem drives_consumeCalls (scripts : Nat → ChunkScript) (ring : Ring)
    (calls : List (List (BatchItem κ))) :
    (consumeCalls consumer scripts ring calls).flatMap BatchResult.drives =
      (serveChunks consumer scripts ring (callChunks calls)).map ChunkResult.drive := by
  induction calls generalizing ring with
  | nil => rfl
  | cons items calls ih =>
      rw [callChunks, List.flatMap_cons, readerConsumeLoop_eq, consumeCalls, readerConsumeBatch]
      split
      · rw [List.flatMap_cons, ih]
        rfl
      · rw [List.flatMap_singleton, List.append_nil]

theorem length_le_of_mem_batchChunks {items chunk : List (BatchItem κ)}
    (h : chunk ∈ batchChunks items) : chunk.length ≤ readerRingSlotCount := by
  fun_induction batchChunks items with
  | case1 => cases h
  | case2 item rest ih =>
      cases List.mem_cons.mp h with
      | inl h => rw [h]; exact List.length_take_le _ _
      | inr h => exact ih h

theorem mem_of_mem_batchChunks {items chunk : List (BatchItem κ)} (h : chunk ∈ batchChunks items)
    {item : BatchItem κ} (hitem : item ∈ chunk) : item ∈ items := by
  fun_induction batchChunks items with
  | case1 => cases h
  | case2 first rest ih =>
      cases List.mem_cons.mp h with
      | inl h => rw [h] at hitem; exact List.mem_of_mem_take hitem
      | inr h => exact List.mem_of_mem_drop (ih h)

/-- The chunks of a sequence of calls are short and their items are reset. -/
theorem of_mem_callChunks {calls : List (List (BatchItem κ))} {chunk : List (BatchItem κ)}
    (h : chunk ∈ callChunks calls) :
    chunk.length ≤ readerRingSlotCount ∧ ∀ item ∈ chunk, Fresh item := by
  obtain ⟨items, _, hchunk⟩ := List.mem_flatMap.mp h
  refine ⟨length_le_of_mem_batchChunks hchunk, fun item hitem => ?_⟩
  obtain ⟨source, _, rfl⟩ := List.mem_map.mp (mem_of_mem_batchChunks hchunk hitem)
  exact ⟨rfl, rfl, rfl⟩

end Batch

end BcDuplicate
