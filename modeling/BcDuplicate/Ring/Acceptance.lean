import BcDuplicate.Ring.Calls

/-!
# BcDuplicate.Ring.Acceptance

Which files a batch accepts.  Every item of a call that returns was served by
the ring (`ringServed`) or by the synchronous fallback (`ringFallbackSync`),
and its recorded size and the script of its chunk decide by which
(`servedBy_consumeCalls`), as long as it does not need a ring that a failed
chunk has used.

The ring accepts a file only when its length is the recorded size.  The
synchronous reader does not look at the recorded size, and takes a short read
for the end of the file, so it accepts files the ring rejects
(`success_exact_iff`).
-/

namespace BcDuplicate

section Acceptance

variable {κ : Type}

/-! ## the synchronous route -/

/-- The synchronous reader fails on the item: the open does, a read it comes
to does, or the consumer refuses one of the chunks that are read. -/
def SyncRejects (consumer : Consumer κ) (item : BatchItem κ) : Prop :=
  (∃ errno, readerOpenReadOnly item.view = .error errno) ∨
    (∃ errno, streamError item.view.reads item.view.content.length = some errno) ∨
      (item.feed.consumeAll consumer (streamChunks item.view.reads item.view.content).1).2 = false

/-- A consumer that accepts every chunk was fed all of them. -/
theorem chunks_consumeAll {consumer : Consumer κ} {feed : Feed κ} {chunks : List Bytes}
    (h : (feed.consumeAll consumer chunks).2 = true) :
    (feed.consumeAll consumer chunks).1 =
      ⟨chunks.foldl (fun context chunk => (consumer context chunk).1) feed.context,
        feed.chunks ++ chunks⟩ := by
  induction chunks generalizing feed with
  | nil =>
      rw [Feed.consumeAll, List.append_nil]
      rfl
  | cons chunk chunks ih =>
      unfold Feed.consumeAll at h ⊢
      split at h
      · next haccepted =>
        rw [if_pos haccepted, ih h, Feed.consume, List.append_assoc]
        rfl
      · cases h

/-- **What the fallback leaves**: it succeeds when neither the open nor a read
nor the consumer fails, and the consumer was then fed what the stream read. -/
theorem ringFallbackSync_cases (consumer : Consumer κ) (item : BatchItem κ) :
    (SyncRejects consumer item ∧ (ringFallbackSync consumer item).success = false) ∨
      (¬SyncRejects consumer item ∧ (ringFallbackSync consumer item).success = true ∧
        (streamChunks item.view.reads item.view.content).2 = .ok () ∧
        (ringFallbackSync consumer item).feed =
          ⟨(streamChunks item.view.reads item.view.content).1.foldl
              (fun context chunk => (consumer context chunk).1) item.feed.context,
            item.feed.chunks ++ (streamChunks item.view.reads item.view.content).1⟩) := by
  unfold ringFallbackSync readerConsumeFile SyncRejects
  cases hopen : readerOpenReadOnly item.view with
  | error errno => exact Or.inl ⟨Or.inl ⟨errno, rfl⟩, rfl⟩
  | ok =>
      dsimp only
      rw [readerStreamLoop_eq]
      cases haccepted : (item.feed.consumeAll consumer
          (streamChunks item.view.reads item.view.content).1).2 with
      | false =>
          rw [if_neg Bool.false_ne_true]
          exact Or.inl ⟨Or.inr (Or.inr rfl), rfl⟩
      | true =>
          rw [if_pos rfl]
          rw [streamChunks_result]
          cases hstream : streamError item.view.reads item.view.content.length with
          | some errno => exact Or.inl ⟨Or.inr (Or.inl ⟨errno, rfl⟩), rfl⟩
          | none =>
              right
              refine ⟨?_, rfl, rfl, chunks_consumeAll haccepted⟩
              rintro (⟨_, h⟩ | ⟨_, h⟩ | h) <;> cases h

/-! ## items of a call -/

/-- A batch item was served by one of the two routes. -/
def ServedAs (consumer : Consumer κ) (item final : BatchItem κ) : Prop :=
  final = ringServed consumer item ∨ final = ringFallbackSync consumer item

variable {consumer : Consumer κ}

theorem servedAs_chunk {script : ChunkScript} {ring : Ring} {chunk : List (BatchItem κ)}
    (hfresh : ∀ item ∈ chunk, Fresh item)
    (hdriven : ChunkDriven consumer { ring with driven := ring.driven + 1 } chunk
      (readerServeChunk consumer script ring chunk).drive)
    (hreturned : (readerServeChunk consumer script ring chunk).drive.driven ≠ .blocked) :
    List.Forall₂ (ServedAs consumer) chunk (readerServeChunk consumer script ring chunk).items := by
  rw [List.forall₂_iff_get]
  have hlen : (readerServeChunk consumer script ring chunk).items.length = chunk.length := by
    rw [← hdriven.length_items]
    unfold readerServeChunk
    dsimp only
    split <;> simp
  refine ⟨hlen.symm, fun i hi hi' => ?_⟩
  have hitem := List.getElem?_eq_getElem hi
  have hfinal := List.getElem?_eq_getElem hi'
  cases items_readerServeChunk hfresh hdriven hreturned hitem with
  | inl hring => exact Or.inl (Option.some.inj (hfinal.symm.trans hring.1))
  | inr hsync => exact Or.inr (Option.some.inj (hfinal.symm.trans hsync.1))

/-! ## the route of an item -/

/-- The chunk leaves its `i`-th item to the synchronous reader: the item fits no
slot, or the chunk fails before it reaps the completion that decides it. -/
def LeftToSync (script : ChunkScript) (chunk : List (BatchItem κ)) (i : Nat)
    (item : BatchItem κ) : Prop :=
  ringFitsInSlot item = false ∨
    script.FailsOn chunk ∧
      (script.reaps (fittingItems 0 chunk).length).1.count ((fittingItems 0 chunk).idxOf i) ≤
        (ringVerdict item.view item.fileSize).code

/-- What serving the `i`-th item of a chunk leaves. -/
def ServedBy (consumer : Consumer κ) (script : ChunkScript) (chunk : List (BatchItem κ)) (i : Nat)
    (item final : BatchItem κ) : Prop :=
  (LeftToSync script chunk i item ∧ final = ringFallbackSync consumer item) ∨
    (¬LeftToSync script chunk i item ∧ final = ringServed consumer item)

/-- An item that fits no slot is left to the synchronous reader on any ring. -/
theorem servedBy_of_not_fits {script : ChunkScript} {ring : Ring} {chunk : List (BatchItem κ)}
    (hreturned : (readerServeChunk consumer script ring chunk).drive.driven ≠ .blocked) {i : Nat}
    {item final : BatchItem κ} (hfresh : Fresh item) (hitem : chunk[i]? = some item)
    (hfinal : (readerServeChunk consumer script ring chunk).items[i]? = some final)
    (hfits : ringFitsInSlot item = false) : ServedBy consumer script chunk i item final := by
  have hkept := (@ringDriveChunk_any κ consumer script
    { ring with driven := ring.driven + 1 } chunk).2 i item hitem hfits
  refine Or.inl ⟨Or.inl hfits, ?_⟩
  unfold readerServeChunk at hfinal hreturned
  dsimp only at hfinal hreturned
  split at hfinal
  · rw [List.getElem?_map, hkept, Option.map_some, Option.some.injEq, ringFallbackAfterChunk,
      hfresh.success, if_neg Bool.false_ne_true, hfits,
      if_neg fun h => Bool.false_ne_true h.1] at hfinal
    exact hfinal.symm
  · rw [List.getElem?_map, hkept, Option.map_some, Option.some.injEq, ringFallbackAfterFailure,
      if_pos ⟨hfresh.success, hfresh.errnoValue⟩] at hfinal
    exact hfinal.symm
  · next hblocked => exact absurd hblocked hreturned

/-- An item that has a slot of a quiescent ring is left to the synchronous
reader when its completions come too late. -/
theorem servedBy_of_fits {script : ChunkScript} {ring : Ring} (hquiet : ring.Quiescent)
    {chunk : List (BatchItem κ)} (hlen : chunk.length ≤ readerRingSlotCount)
    (hfresh : ∀ item ∈ chunk, Fresh item)
    (hreturned : (readerServeChunk consumer script ring chunk).drive.driven ≠ .blocked) {i : Nat}
    {item final : BatchItem κ} (hitem : chunk[i]? = some item)
    (hfinal : (readerServeChunk consumer script ring chunk).items[i]? = some final)
    (hfits : ringFitsInSlot item = true) : ServedBy consumer script chunk i item final := by
  have hquiet' : ({ ring with driven := ring.driven + 1 } : Ring).Quiescent :=
    hquiet.counted _
  have hitemFresh := hfresh item (List.mem_of_getElem? hitem)
  obtain ⟨j, hj⟩ := exists_slot hitem hfits
  have hjlt := (List.getElem?_eq_some_iff.mp hj).1
  have hslot : (fittingItems 0 chunk).idxOf i = j := by
    rw [← (List.getElem?_eq_some_iff.mp hj).2]
    exact (nodup_fittingItems 0 chunk).idxOf_getElem j hjlt
  have hend := (@ringDriveChunk_reaps κ consumer script _ hquiet' chunk hlen).2
  have hstate := @item_ringDriveChunk κ consumer script _ hquiet' chunk hlen hfresh j i item hj
    hitem hfits
  have hdone := (@chunkDriven_ringDriveChunk κ consumer script _ hquiet' chunk hlen hfresh).1
  unfold ServedBy LeftToSync ChunkScript.FailsOn
  rw [hslot, ← hend]
  unfold readerServeChunk at hfinal hreturned
  dsimp only at hfinal hreturned
  cases hdriven : (ringDriveChunk consumer script { ring with driven := ring.driven + 1 }
      chunk).driven with
  | blocked => exact absurd hdriven hreturned
  | completed =>
      right
      rw [hdriven] at hfinal
      dsimp only at hfinal
      rw [List.getElem?_map, hdone.completed hdriven i item hitem hfits, Option.map_some,
        ringFallbackAfterChunk_ringServed hfits, Option.some.injEq] at hfinal
      refine ⟨?_, hfinal.symm⟩
      rintro (hnot | ⟨hfailed, _⟩)
      · rw [hfits] at hnot
        cases hnot
      · cases hfailed
  | failed =>
      rw [hdriven] at hfinal
      dsimp only at hfinal
      rw [List.getElem?_map, hstate, Option.map_some, Option.some.injEq] at hfinal
      by_cases hlate : (script.reaps (fittingItems 0 chunk).length).1.count j ≤
          (ringVerdict item.view item.fileSize).code
      · left
        rw [if_pos hlate, ringFallbackAfterFailure,
          if_pos ⟨hitemFresh.success, hitemFresh.errnoValue⟩] at hfinal
        exact ⟨Or.inr ⟨rfl, hlate⟩, hfinal.symm⟩
      · right
        rw [if_neg hlate, ringFallbackAfterFailure_ringServed] at hfinal
        refine ⟨?_, hfinal.symm⟩
        rintro (hnot | ⟨_, hreaped⟩)
        · rw [hfits] at hnot
          cases hnot
        · exact hlate hreaped

/-- A chunk on a ring that is ready for it returns when its waits do. -/
theorem ReadyFor.returns {scripts : Nat → ChunkScript} {ring : Ring} {chunk : List (BatchItem κ)}
    {chunks : List (List (BatchItem κ))} (h : ReadyFor scripts ring (chunk :: chunks))
    (hlen : chunk.length ≤ readerRingSlotCount)
    (hwaits : ((scripts ring.driven).reaps (fittingItems 0 chunk).length).2 ≠ .blocked) :
    (readerServeChunk consumer (scripts ring.driven) ring chunk).drive.driven ≠ .blocked := by
  cases h with
  | inl hquiet =>
      have hquiet' : ({ ring with driven := ring.driven + 1 } : Ring).Quiescent :=
        hquiet.1.counted _
      rw [← (@ringDriveChunk_reaps κ consumer _ _ hquiet' chunk hlen).2] at hwaits
      exact hwaits
  | inr hnone =>
      have hcompleted := (@chunkDriven_of_none κ consumer (scripts ring.driven)
        { ring with driven := ring.driven + 1 } chunk (hnone chunk List.mem_cons_self)).2.2
      unfold readerServeChunk
      dsimp only
      rw [hcompleted]
      exact fun hc => (nomatch hc)

/-- The items of a chunk on a ring that is ready for it. -/
theorem ReadyFor.servedBy {scripts : Nat → ChunkScript} {ring : Ring} {chunk : List (BatchItem κ)}
    {chunks : List (List (BatchItem κ))} (h : ReadyFor scripts ring (chunk :: chunks))
    (hlen : chunk.length ≤ readerRingSlotCount) (hfresh : ∀ item ∈ chunk, Fresh item)
    (hreturned : (readerServeChunk consumer (scripts ring.driven) ring chunk).drive.driven ≠
      .blocked) {i : Nat} {item final : BatchItem κ} (hitem : chunk[i]? = some item)
    (hfinal : (readerServeChunk consumer (scripts ring.driven) ring chunk).items[i]? =
      some final) : ServedBy consumer (scripts ring.driven) chunk i item final := by
  cases hfits : ringFitsInSlot item with
  | false =>
      exact servedBy_of_not_fits hreturned (hfresh item (List.mem_of_getElem? hitem)) hitem hfinal
        hfits
  | true =>
      cases h with
      | inl hquiet => exact servedBy_of_fits hquiet.1 hlen hfresh hreturned hitem hfinal hfits
      | inr hnone =>
          have hmem := mem_fittingItems 0 hitem hfits
          rw [hnone chunk List.mem_cons_self] at hmem
          cases hmem

/-! ## items of a call -/

/-- None of these chunks fails. -/
def NoneFails (scripts : Nat → ChunkScript) (first : Nat) (chunks : List (List (BatchItem κ))) :
    Prop :=
  ∀ (a : Nat) (chunk : List (BatchItem κ)), chunks[a]? = some chunk →
    ¬(scripts (first + a)).FailsOn chunk

theorem NoneFails.head {scripts : Nat → ChunkScript} {first : Nat} {chunk : List (BatchItem κ)}
    {chunks : List (List (BatchItem κ))} (h : NoneFails scripts first (chunk :: chunks)) :
    ¬(scripts first).FailsOn chunk := h 0 chunk rfl

theorem NoneFails.tail {scripts : Nat → ChunkScript} {first : Nat} {chunk : List (BatchItem κ)}
    {chunks : List (List (BatchItem κ))} (h : NoneFails scripts first (chunk :: chunks)) :
    NoneFails scripts (first + 1) chunks := by
  intro a later hlater
  rw [Nat.add_assoc, Nat.add_comm 1 a]
  exact h (a + 1) later hlater

theorem NoneFails.of_append {scripts : Nat → ChunkScript} {first : Nat}
    {chunks more : List (List (BatchItem κ))} (h : NoneFails scripts first (chunks ++ more)) :
    NoneFails scripts first chunks ∧ NoneFails scripts (first + chunks.length) more := by
  constructor
  · intro a chunk hchunk
    refine h a chunk ?_
    rw [List.getElem?_append_left (List.getElem?_eq_some_iff.mp hchunk).1]
    exact hchunk
  · intro a chunk hchunk
    rw [Nat.add_assoc]
    refine h (chunks.length + a) chunk ?_
    rw [List.getElem?_append_right (Nat.le_add_right _ _), Nat.add_sub_cancel_left]
    exact hchunk

/-- A chunk on a quiescent ring that neither fails nor blocks leaves it
quiescent, and every chunk is counted. -/
theorem ring_readerServeChunk (script : ChunkScript) (ring : Ring) {chunk : List (BatchItem κ)}
    (hlen : chunk.length ≤ readerRingSlotCount) (hfresh : ∀ item ∈ chunk, Fresh item)
    (hreturned : (readerServeChunk consumer script ring chunk).drive.driven ≠ .blocked) :
    (readerServeChunk consumer script ring chunk).ring.driven = ring.driven + 1 ∧
      (ring.Quiescent → ¬script.FailsOn chunk →
        (readerServeChunk consumer script ring chunk).ring.Quiescent) := by
  refine ⟨(ringDriveChunk_any script _ chunk).1, fun hquiet hfails => ?_⟩
  have hquiet' : ({ ring with driven := ring.driven + 1 } : Ring).Quiescent :=
    hquiet.counted _
  refine (chunkDriven_ringDriveChunk script hquiet' hlen hfresh).2 ?_
  cases hdriven : (ringDriveChunk consumer script { ring with driven := ring.driven + 1 }
      chunk).driven with
  | completed => rfl
  | blocked => exact absurd hdriven hreturned
  | failed =>
      exact absurd ((ringDriveChunk_reaps script hquiet' hlen).2.symm.trans hdriven) hfails

/-- A call counts its chunks, and leaves a quiescent ring quiescent when none
of them fails. -/
theorem ring_readerConsumeLoop {scripts : Nat → ChunkScript} {ring : Ring}
    {items : List (BatchItem κ)} (hfresh : ∀ item ∈ items, Fresh item)
    (hreturned : (readerConsumeLoop consumer scripts ring items).returned = true) :
    (readerConsumeLoop consumer scripts ring items).ring.driven =
        ring.driven + (batchChunks items).length ∧
      (ring.Quiescent → NoneFails scripts ring.driven (batchChunks items) →
        (readerConsumeLoop consumer scripts ring items).ring.Quiescent) := by
  fun_induction readerConsumeLoop consumer scripts ring items with
  | case1 ring =>
      rw [batchChunks]
      exact ⟨rfl, fun hquiet _ => hquiet⟩
  | case2 ring item rest chunk result hblocked => cases hreturned
  | case3 ring item rest chunk result hdone next ih =>
      rw [batchChunks, List.length_cons]
      obtain ⟨hdriven, hquiescent⟩ := @ring_readerServeChunk κ consumer (scripts ring.driven) ring
        chunk (List.length_take_le _ _)
        (fun item hitem => hfresh item (List.mem_of_mem_take hitem)) hdone
      obtain ⟨hcount, hkept⟩ := ih (fun item hitem => hfresh item (List.mem_of_mem_drop hitem))
        hreturned
      rw [show result.ring.driven = ring.driven + 1 from hdriven] at hcount hkept
      exact ⟨hcount.trans (by omega), fun hquiet hnone =>
        hkept (hquiescent hquiet hnone.head) hnone.tail⟩

/-- **Every item of a batch that returns** was served as its size and the script
of its chunk say; one that fits a slot, when the ring was quiescent and no
chunk before it failed. -/
theorem servedBy_readerConsumeLoop {scripts : Nat → ChunkScript} {ring : Ring}
    {items : List (BatchItem κ)} (hfresh : ∀ item ∈ items, Fresh item)
    (hreturned : (readerConsumeLoop consumer scripts ring items).returned = true) {p : Nat}
    {item final : BatchItem κ} (hitem : items[p]? = some item)
    (hfinal : (readerConsumeLoop consumer scripts ring items).items[p]? = some final)
    (hring : ringFitsInSlot item = true → ring.Quiescent ∧
      NoneFails scripts ring.driven ((batchChunks items).take (p / readerRingSlotCount))) :
    ∃ chunk, (batchChunks items)[p / readerRingSlotCount]? = some chunk ∧
      ServedBy consumer (scripts (ring.driven + p / readerRingSlotCount)) chunk
        (p % readerRingSlotCount) item final := by
  fun_induction readerConsumeLoop consumer scripts ring items generalizing p with
  | case1 ring => cases hitem
  | case2 ring first rest chunk result hblocked => cases hreturned
  | case3 ring first rest chunk result hdone next =>
      rename_i ih
      have hlen : chunk.length ≤ readerRingSlotCount := List.length_take_le _ _
      have hchunkFresh : ∀ item ∈ chunk, Fresh item := fun item hitem =>
        hfresh item (List.mem_of_mem_take hitem)
      have hitems : result.items.length = chunk.length := length_items_readerServeChunk _ _ _ _
      rw [batchChunks] at hring ⊢
      by_cases hp : p < readerRingSlotCount
      · -- the item is in the first chunk
        rw [Nat.div_eq_of_lt hp] at hring ⊢
        rw [Nat.mod_eq_of_lt hp]
        have hchunk : chunk[p]? = some item := by
          rw [show chunk = (first :: rest).take readerRingSlotCount from rfl,
            List.getElem?_take_of_lt hp]
          exact hitem
        have hlt : p < result.items.length := by
          rw [hitems]
          exact (List.getElem?_eq_some_iff.mp hchunk).1
        change (result.items ++ next.items)[p]? = some final at hfinal
        rw [List.getElem?_append_left hlt] at hfinal
        refine ⟨chunk, rfl, ?_⟩
        rw [Nat.add_zero]
        cases hfits : ringFitsInSlot item with
        | false =>
            exact servedBy_of_not_fits hdone (hchunkFresh item (List.mem_of_getElem? hchunk)) hchunk
              hfinal hfits
        | true =>
            exact servedBy_of_fits (hring hfits).1 hlen hchunkFresh hdone hchunk hfinal hfits
      · -- the item is in a later chunk, which the rest of the loop serves
        obtain ⟨q, rfl⟩ : ∃ q, p = q + readerRingSlotCount :=
          ⟨p - readerRingSlotCount, (Nat.sub_add_cancel (Nat.not_lt.mp hp)).symm⟩
        rw [Nat.add_div_right q (by decide)] at hring ⊢
        rw [Nat.add_mod_right]
        obtain ⟨hdriven, hquiescent⟩ := @ring_readerServeChunk κ consumer (scripts ring.driven) ring
          chunk hlen hchunkFresh hdone
        have hchunk : ((first :: rest).drop readerRingSlotCount)[q]? = some item := by
          rw [List.getElem?_drop, Nat.add_comm]
          exact hitem
        have hfull : chunk.length = readerRingSlotCount := by
          have hlt := (List.getElem?_eq_some_iff.mp hitem).1
          rw [show chunk = (first :: rest).take readerRingSlotCount from rfl, List.length_take]
          omega
        change (result.items ++ next.items)[q + readerRingSlotCount]? = some final at hfinal
        rw [List.getElem?_append_right (by omega), hitems, hfull, Nat.add_sub_cancel] at hfinal
        obtain ⟨later, hlater, hserved⟩ := ih
          (fun item hitem => hfresh item (List.mem_of_mem_drop hitem)) hreturned hchunk hfinal
          (by
            intro hfits
            obtain ⟨hquiet, hnone⟩ := hring hfits
            rw [List.take_succ_cons] at hnone
            rw [show result.ring.driven = ring.driven + 1 from hdriven]
            exact ⟨hquiescent hquiet hnone.head, hnone.tail⟩)
        refine ⟨later, hlater, ?_⟩
        rwa [show result.ring.driven = ring.driven + 1 from hdriven, Nat.add_assoc,
          Nat.add_comm 1] at hserved

/-- The chunk of item `p` of the `c`-th call, counted from the first chunk of
the first call. -/
def chunkNumber (calls : List (List (BatchItem κ))) (c p : Nat) : Nat :=
  (callChunks (calls.take c)).length + p / readerRingSlotCount

/-- **Every item of every call of a run** was served as its size and the script
of its chunk say; one that fits a slot, when no chunk of the run before it
failed. -/
theorem servedBy_consumeCalls {scripts : Nat → ChunkScript} {ring : Ring}
    {calls : List (List (BatchItem κ))} {c p : Nat} {items : List (BatchItem κ)}
    {result : BatchResult κ} {item final : BatchItem κ} (hitems : calls[c]? = some items)
    (hresult : (consumeCalls consumer scripts ring calls)[c]? = some result)
    (hreturned : result.returned = true) (hitem : items[p]? = some item)
    (hfinal : result.items[p]? = some final)
    (hring : ringFitsInSlot item = true → ring.Quiescent ∧
      NoneFails scripts ring.driven ((callChunks calls).take (chunkNumber calls c p))) :
    ∃ chunk, (callChunks calls)[chunkNumber calls c p]? = some chunk ∧
      ServedBy consumer (scripts (ring.driven + chunkNumber calls c p)) chunk
        (p % readerRingSlotCount) item.reset final := by
  induction calls generalizing ring c with
  | nil => cases hitems
  | cons first calls ih =>
      have hfresh : ∀ item ∈ first.map BatchItem.reset, Fresh item := by
        intro item hitem
        obtain ⟨source, _, rfl⟩ := List.mem_map.mp hitem
        exact ⟨rfl, rfl, rfl⟩
      have hchunks : callChunks (first :: calls) =
          batchChunks (first.map BatchItem.reset) ++ callChunks calls := List.flatMap_cons
      rw [consumeCalls] at hresult
      cases c with
      | zero =>
          cases hitems
          have heq : readerConsumeBatch consumer scripts ring items = result := by
            split at hresult <;> exact Option.some.inj hresult
          subst heq
          have hnumber : chunkNumber (items :: calls) 0 p = p / readerRingSlotCount :=
            Nat.zero_add _
          rw [hnumber, hchunks] at hring ⊢
          obtain ⟨chunk, hchunk, hserved⟩ := @servedBy_readerConsumeLoop κ consumer scripts ring
            (items.map BatchItem.reset) hfresh hreturned p item.reset final
            (by rw [List.getElem?_map, hitem, Option.map_some]) hfinal
            (by
              intro hfits
              obtain ⟨hquiet, hnone⟩ := hring hfits
              rw [List.take_append] at hnone
              exact ⟨hquiet, hnone.of_append.1⟩)
          refine ⟨chunk, ?_, hserved⟩
          rw [List.getElem?_append_left (List.getElem?_eq_some_iff.mp hchunk).1]
          exact hchunk
      | succ c =>
          split at hresult
          · next hfirst =>
            obtain ⟨hdriven, hkept⟩ := @ring_readerConsumeLoop κ consumer scripts ring
              (first.map BatchItem.reset) hfresh hfirst
            have hnumber : chunkNumber (first :: calls) (c + 1) p =
                (batchChunks (first.map BatchItem.reset)).length + chunkNumber calls c p := by
              rw [chunkNumber, chunkNumber, List.take_succ_cons, callChunks, List.flatMap_cons,
                List.length_append, Nat.add_assoc]
              rfl
            rw [hnumber, hchunks] at hring ⊢
            obtain ⟨chunk, hchunk, hserved⟩ := @ih
              (readerConsumeLoop consumer scripts ring (first.map BatchItem.reset)).ring c hitems
              hresult (by
                intro hfits
                obtain ⟨hquiet, hnone⟩ := hring hfits
                rw [List.take_length_add_append] at hnone
                rw [hdriven]
                exact ⟨hkept hquiet hnone.of_append.1, hnone.of_append.2⟩)
            refine ⟨chunk, ?_, ?_⟩
            · rw [List.getElem?_append_right (Nat.le_add_right _ _), Nat.add_sub_cancel_left]
              exact hchunk
            · rwa [hdriven, Nat.add_assoc] at hserved
          · cases hresult

/-! ## exact acceptance -/

/-- A successful item was fed exactly its file, and the file has the recorded size. -/
def Exact (item final : BatchItem κ) : Prop :=
  final.success = true → ∃ chunks : List Bytes,
    final.feed.chunks = item.feed.chunks ++ chunks ∧ chunks.flatten = item.view.content ∧
      chunks.flatten.length = item.fileSize

/-- When the routes agree on an item of a chunk: it is not left to the
synchronous reader, or that reader fails on it, or the file has the recorded
size and no read of it stops short. -/
def RoutesAgree (consumer : Consumer κ) (script : ChunkScript) (chunk : List (BatchItem κ))
    (i : Nat) (item : BatchItem κ) : Prop :=
  LeftToSync script chunk i item → SyncRejects consumer item ∨
    item.view.content.length = item.fileSize ∧
      ReadsToEnd item.view.reads item.view.content.length

theorem exact_ringServed (item : BatchItem κ) : Exact item (ringServed consumer item) := by
  intro hsuccess
  obtain ⟨hlen, hfeed⟩ := ringServed_success hsuccess
  refine ⟨[item.view.content], ?_, List.flatten_singleton, ?_⟩
  · rw [hfeed]
    rfl
  · rw [List.flatten_singleton]
    exact hlen

theorem exact_ringFallbackSync_iff (item : BatchItem κ) :
    Exact item (ringFallbackSync consumer item) ↔
      SyncRejects consumer item ∨ item.view.content.length = item.fileSize ∧
        ReadsToEnd item.view.reads item.view.content.length := by
  cases ringFallbackSync_cases consumer item with
  | inl hfails =>
      refine iff_of_true (fun hsuccess => ?_) (Or.inl hfails.1)
      rw [hfails.2] at hsuccess
      cases hsuccess
  | inr hreads =>
      obtain ⟨haccepts, hsuccess, hstream, hfeed⟩ := hreads
      have hiff := flatten_streamChunks_iff hstream
      unfold Exact
      rw [hsuccess, hfeed, or_iff_right haccepts]
      constructor
      · intro hexact
        obtain ⟨chunks, hchunks, hflatten, hlen⟩ := hexact rfl
        rw [List.append_cancel_left_eq] at hchunks
        subst hchunks
        exact ⟨by rw [← hlen, hflatten], hiff.mp hflatten⟩
      · intro hends _
        refine ⟨_, rfl, hiff.mpr hends.2, ?_⟩
        rw [hiff.mpr hends.2]
        exact hends.1

theorem exact_iff_of_servedBy {script : ChunkScript} {chunk : List (BatchItem κ)} {i : Nat}
    {item final : BatchItem κ} (h : ServedBy consumer script chunk i item final) :
    Exact item final ↔ RoutesAgree consumer script chunk i item := by
  cases h with
  | inl hsync =>
      rw [hsync.2, exact_ringFallbackSync_iff]
      exact ⟨fun hexact _ => hexact, fun hagree => hagree hsync.1⟩
  | inr hring =>
      rw [hring.2]
      exact iff_of_true (exact_ringServed item) fun hleft => absurd hleft hring.1

/-- **The two routes.**  Take an item of a call that returns, in a run of calls
on one ring; if it fits a slot, no chunk of the run before its own has failed.
A successful item was then fed exactly its file, of the recorded size, exactly
when the routes agree on it. -/
theorem success_exact_iff (consumer : Consumer κ) (scripts : Nat → ChunkScript)
    (calls : List (List (BatchItem κ))) (c p : Nat) (items : List (BatchItem κ))
    (result : BatchResult κ) (item final : BatchItem κ) (hitems : calls[c]? = some items)
    (hresult : (consumeCalls consumer scripts Ring.init calls)[c]? = some result)
    (hreturned : result.returned = true) (hitem : items[p]? = some item)
    (hfinal : result.items[p]? = some final)
    (hring : ringFitsInSlot item = true →
      NoneFails scripts 0 ((callChunks calls).take (chunkNumber calls c p))) :
    Exact item final ↔
      RoutesAgree consumer (scripts (chunkNumber calls c p))
        ((callChunks calls).getD (chunkNumber calls c p) []) (p % readerRingSlotCount) item := by
  obtain ⟨chunk, hchunk, hserved⟩ := servedBy_consumeCalls hitems hresult hreturned hitem hfinal
    fun hfits => ⟨Ring.quiescent_init, hring hfits⟩
  rw [show Ring.init.driven = 0 from rfl, Nat.zero_add] at hserved
  have hiff := exact_iff_of_servedBy hserved
  rw [List.getD_eq_getElem?_getD, hchunk, Option.getD_some]
  -- the batch loop resets its items before it serves them
  exact hiff

end Acceptance

/-- One call on a fresh ring, for a file of the recorded size. -/
theorem success_exact_iff_plain :
    ∃ (result : BatchResult Unit) (final : BatchItem Unit),
      (consumeCalls acceptAll (fun _ => oneChainScript 4) Ring.init [[plainItem 1 [65]]])[0]? =
          some result ∧ result.returned = true ∧ result.items[0]? = some final ∧
        (Exact (plainItem 1 [65]) final ↔
          RoutesAgree acceptAll (oneChainScript 4) [plainItem 1 [65]] 0 (plainItem 1 [65])) := by
  have hrun : ((consumeCalls acceptAll (fun _ => oneChainScript 4) Ring.init
      [[plainItem 1 [65]]])[0]?.map fun result => (result.returned, result.items)) =
        some (true, [⟨[], 1, ⟨(), [[65]]⟩, true, 0, .plain [65], false⟩]) := by decide +kernel
  obtain ⟨result, hresult, hpair⟩ := Option.map_eq_some_iff.mp hrun
  rw [Prod.mk.injEq] at hpair
  have hfinal : result.items[0]? = some ⟨[], 1, ⟨(), [[65]]⟩, true, 0, .plain [65], false⟩ := by
    rw [hpair.2]
    rfl
  have hchunks : callChunks [[plainItem 1 [65]]] = [[plainItem 1 [65]]] := by decide +kernel
  have hiff := success_exact_iff acceptAll (fun _ => oneChainScript 4) [[plainItem 1 [65]]] 0 0
    [plainItem 1 [65]] result (plainItem 1 [65]) _ rfl hresult hpair.1 rfl hfinal
    fun _ a chunk hchunk => not_failsOn_oneChainScript 4 chunk
  rw [hchunks] at hiff
  exact ⟨result, _, hresult, hpair.1, hfinal, hiff⟩

/-- **A file that grew from empty.**  Its recorded size is 0, so no slot takes
it, and the synchronous route accepts the byte it finds. -/
theorem grown_file_accepted :
    ¬∀ (scripts : Nat → ChunkScript) (calls : List (List (BatchItem Unit))) (c : Nat)
        (items : List (BatchItem Unit)) (result : BatchResult Unit),
      calls[c]? = some items →
      (consumeCalls acceptAll scripts Ring.init calls)[c]? = some result →
      result.returned = true → List.Forall₂ Exact items result.items := by
  intro h
  have hrun : ((consumeCalls acceptAll (fun _ => oneChainScript 4) Ring.init
      [[plainItem 0 [65]]])[0]?.map fun result => (result.returned, result.items)) =
      some (true, [⟨[], 0, ⟨(), [[65]]⟩, true, 0, .plain [65], true⟩]) := by decide +kernel
  obtain ⟨result, hresult, hpair⟩ := Option.map_eq_some_iff.mp hrun
  rw [Prod.mk.injEq] at hpair
  have hexact := h (fun _ => oneChainScript 4) [[plainItem 0 [65]]] 0 [plainItem 0 [65]] result rfl
    hresult hpair.1
  rw [hpair.2, List.forall₂_cons] at hexact
  obtain ⟨chunks, hchunks, _, hlen⟩ := hexact.1 rfl
  cases (hchunks : [[65]] = chunks)
  cases hlen

end BcDuplicate
