import BcDuplicate.Ring.Acceptance
import Mathlib.Data.List.Infix

/-!
# BcDuplicate.Ring.Once

A hash state is fed once.  A batch as the full pass makes it is one chunk, and
whether an item falls back to the synchronous reader is decided after the
fact.  However driving the chunk ends, the item has then either been decided
by the ring, which fed it at most once, or is untouched, and the fallback
starts from what the consumer was before (`batch_fed_once`).
-/

namespace BcDuplicate

section Once

variable {κ : Type} {consumer : Consumer κ}

/-- The one route by which the consumer of an item was fed, if any. -/
inductive FedBy (consumer : Consumer κ) (item final : BatchItem κ) : Prop
  | none (result : final.success = false) (fallback : final.fallback = false)
      (feed : final.feed = item.feed)
  | ring (fallback : final.fallback = false)
      (feed : final.feed = (item.feed.consume consumer item.view.content).1)
  | sync (fallback : final.fallback = true)
      (feed : final.feed = (readerConsumeFile consumer item.view item.feed).1)

/-- What a batch leaves of an item: one of the two results, from a consumer
that was fed by at most one route and got no byte of its file twice. -/
structure FedOnce (consumer : Consumer κ) (item final : BatchItem κ) : Prop where
  decided : (final.success = true ∧ final.errnoValue = 0) ∨
    (final.success = false ∧ final.errnoValue ≠ 0)
  fedBy : FedBy consumer item final
  once : ∃ chunks : List Bytes, final.feed.chunks = item.feed.chunks ++ chunks ∧
    chunks.flatten <+: item.view.content

/-- A consumer is fed a front of the chunks it is offered. -/
theorem chunks_consumeAll_front (feed : Feed κ) (chunks : List Bytes) :
    ∃ front, front <+: chunks ∧
      (feed.consumeAll consumer chunks).1.chunks = feed.chunks ++ front := by
  induction chunks generalizing feed with
  | nil => exact ⟨[], List.prefix_rfl, (List.append_nil _).symm⟩
  | cons chunk chunks ih =>
      unfold Feed.consumeAll
      split
      · obtain ⟨front, hfront, hchunks⟩ := ih (feed.consume consumer chunk).1
        refine ⟨chunk :: front, List.cons_prefix_cons.mpr ⟨rfl, hfront⟩, ?_⟩
        rw [hchunks, Feed.consume, List.append_assoc, List.singleton_append]
      · exact ⟨[chunk], List.cons_prefix_cons.mpr ⟨rfl, List.nil_prefix⟩, rfl⟩

/-- The synchronous reader offers the content from its start. -/
theorem chunks_readerConsumeFile (view : FileView) (feed : Feed κ) :
    ∃ chunks : List Bytes,
      (readerConsumeFile consumer view feed).1.chunks = feed.chunks ++ chunks ∧
        chunks.flatten <+: view.content := by
  unfold readerConsumeFile
  cases readerOpenReadOnly view with
  | error errno => exact ⟨[], (List.append_nil _).symm, List.nil_prefix⟩
  | ok =>
      dsimp only
      rw [readerStreamLoop_eq]
      obtain ⟨front, hfront, hchunks⟩ := @chunks_consumeAll_front κ consumer feed
        (streamChunks view.reads view.content).1
      exact ⟨front, hchunks, hfront.flatten.trans (flatten_streamChunks_front _ _)⟩

theorem fedOnce_ringServed {item : BatchItem κ} (hfresh : Fresh item) :
    FedOnce consumer item (ringServed consumer item) := by
  have hfallback := (ringServed_data consumer item).2.trans hfresh.fallback
  have hdecided := ringServed_errno consumer item
  rcases ringServed_cases consumer item with ⟨errno, hserved⟩ | ⟨_, hserved⟩
  · have hfeed : (ringServed consumer item).feed = item.feed := by rw [hserved]; rfl
    refine ⟨hdecided, .none (by rw [hserved]; rfl) hfallback hfeed, [], ?_, List.nil_prefix⟩
    rw [hfeed, List.append_nil]
  · have hfeed : (ringServed consumer item).feed =
        (item.feed.consume consumer item.view.content).1 := by
      rw [hserved]
      split <;> rfl
    refine ⟨hdecided, .ring hfallback hfeed, [item.view.content], by rw [hfeed]; rfl, ?_⟩
    rw [List.flatten_singleton]

theorem fedOnce_ringFallbackSync (item : BatchItem κ) :
    FedOnce consumer item (ringFallbackSync consumer item) := by
  obtain ⟨chunks, hchunks, honce⟩ := @chunks_readerConsumeFile κ consumer item.view item.feed
  unfold ringFallbackSync
  cases hread : readerConsumeFile consumer item.view item.feed with
  | mk feed result =>
      rw [hread] at hchunks
      cases result with
      | ok done =>
          exact ⟨Or.inl ⟨rfl, rfl⟩, .sync rfl (by rw [hread]; rfl), chunks, hchunks, honce⟩
      | error errno =>
          exact ⟨Or.inr ⟨rfl, errno.value_ne_zero⟩, .sync rfl (by rw [hread]; rfl), chunks,
            hchunks, honce⟩

/-- The submission entries of a chunk cannot all be obtained. -/
def RunsOutOfEntries (script : ChunkScript) (ring : Ring) (items : List (BatchItem κ)) : Prop :=
  (ringPrepareChunk script { ring with driven := ring.driven + 1 } [] 0
    (items.map BatchItem.reset)).2.2 = false

/-- A chunk whose entries cannot be obtained leaves all its items to the
fallback, whatever the ring. -/
theorem servedAs_of_runsOutOfEntries {script : ChunkScript} {ring : Ring}
    {items : List (BatchItem κ)} (hentries : RunsOutOfEntries script ring items)
    (hfresh : ∀ item ∈ items.map BatchItem.reset, Fresh item) :
    List.Forall₂ (ServedAs consumer) (items.map BatchItem.reset)
      (readerServeChunk consumer script ring (items.map BatchItem.reset)).items := by
  have hdrive : (ringDriveChunk consumer script { ring with driven := ring.driven + 1 }
        (items.map BatchItem.reset)).driven = .failed ∧
      (ringDriveChunk consumer script { ring with driven := ring.driven + 1 }
        (items.map BatchItem.reset)).state.items = items.map BatchItem.reset := by
    unfold ringDriveChunk
    rw [RunsOutOfEntries] at hentries
    simp only [hentries, if_true]
    exact ⟨trivial, trivial⟩
  unfold readerServeChunk
  simp only [hdrive.1, hdrive.2]
  refine List.forall₂_map_right_iff.mpr (List.forall₂_same.mpr fun item hitem => Or.inr ?_)
  exact if_pos ⟨(hfresh item hitem).success, (hfresh item hitem).errnoValue⟩

/-- **The items of a batch that is one chunk**, on a quiescent ring or one
without entries. -/
theorem servedAs_one_chunk {scripts : Nat → ChunkScript} {ring : Ring} {items : List (BatchItem κ)}
    (hstart : ring.Quiescent ∨ RunsOutOfEntries (scripts ring.driven) ring items)
    (hlen : items.length ≤ readerRingSlotCount)
    (hreturned : (readerConsumeBatch consumer scripts ring items).returned = true) :
    List.Forall₂ (ServedAs consumer) (items.map BatchItem.reset)
      (readerConsumeBatch consumer scripts ring items).items := by
  have hfresh : ∀ item ∈ items.map BatchItem.reset, Fresh item := by
    intro item hitem
    obtain ⟨source, _, rfl⟩ := List.mem_map.mp hitem
    exact ⟨rfl, rfl, rfl⟩
  have hlen' : (items.map BatchItem.reset).length ≤ readerRingSlotCount := by
    rwa [List.length_map]
  have hchunk : ∀ hdriven : (readerServeChunk consumer (scripts ring.driven) ring
      (items.map BatchItem.reset)).drive.driven ≠ .blocked,
      List.Forall₂ (ServedAs consumer) (items.map BatchItem.reset)
        (readerServeChunk consumer (scripts ring.driven) ring
          (items.map BatchItem.reset)).items := by
    intro hdriven
    cases hstart with
    | inl hquiet =>
        have hquiet' : ({ ring with driven := ring.driven + 1 } : Ring).Quiescent :=
          hquiet.counted _
        exact servedAs_chunk hfresh (chunkDriven_ringDriveChunk _ hquiet' hlen' hfresh).1 hdriven
    | inr hentries => exact servedAs_of_runsOutOfEntries hentries hfresh
  unfold readerConsumeBatch at hreturned ⊢
  by_cases hsome : items.map BatchItem.reset = []
  · rw [hsome, readerConsumeLoop]
    exact .nil
  · rw [readerConsumeLoop_one scripts ring hsome hlen'] at hreturned ⊢
    exact hchunk (of_decide_eq_true hreturned)

/-- **A consumer is fed by at most one route.**  However the chunk of a batch
ends, when its entries cannot be obtained, its submit fails, a wait fails
after any completions, or all completions are handled: each item that comes
back is decided, and its consumer was fed by the ring once, or by the fallback
from its start, or not at all. -/
theorem batch_fed_once (consumer : Consumer κ) (scripts : Nat → ChunkScript) {ring : Ring}
    {items : List (BatchItem κ)}
    (hstart : ring.Quiescent ∨ RunsOutOfEntries (scripts ring.driven) ring items)
    (hlen : items.length ≤ readerRingSlotCount)
    (hreturned : (readerConsumeBatch consumer scripts ring items).returned = true) :
    List.Forall₂ (FedOnce consumer) items
      (readerConsumeBatch consumer scripts ring items).items := by
  have hserved := @servedAs_one_chunk κ consumer scripts ring items hstart hlen hreturned
  rw [List.forall₂_map_left_iff] at hserved
  refine hserved.imp fun item final hitem => ?_
  -- the reset does not touch what the statement is about
  have hreset : FedOnce consumer item.reset final := by
    rcases hitem with rfl | rfl
    · exact fedOnce_ringServed ⟨rfl, rfl, rfl⟩
    · exact fedOnce_ringFallbackSync item.reset
  obtain ⟨hdecided, hroute, honce⟩ := hreset
  refine ⟨hdecided, ?_, honce⟩
  cases hroute with
  | none result fallback feed => exact .none result fallback feed
  | ring fallback feed => exact .ring fallback feed
  | sync fallback feed => exact .sync fallback feed

end Once

/-! ### a chunk that fails half-way -/

/-- The first of two chains is completed and reaped, then a wait fails. -/
def halfwayScript : ChunkScript where
  submitStatus := .ok (4 * readerRingSlotCount)
  waits := ⟨[0, 0, 0, 0, 1], .ok ()⟩ ::
    (List.replicate 3 ⟨[], .ok ()⟩ ++ [⟨[1], .error Errno.EIO⟩])
  stale := noStale

/-- The first item is served by the ring, the second by the fallback, and both
consumers were fed once. -/
theorem batch_fed_once_halfway : ∃ final : List (BatchItem Unit),
    (readerConsumeBatch acceptAll (fun _ => halfwayScript) Ring.init
      [plainItem 2 [1, 2], plainItem 1 [3]]).items = final ∧
    List.Forall₂ (FedOnce acceptAll) [plainItem 2 [1, 2], plainItem 1 [3]] final ∧
    final.map (fun item => (item.fallback, item.feed.chunks)) =
      [(false, [[1, 2]]), (true, [[3]])] := by
  have hreturned : (readerConsumeBatch acceptAll (fun _ => halfwayScript) Ring.init
      [plainItem 2 [1, 2], plainItem 1 [3]]).returned = true := by decide +kernel
  exact ⟨_, rfl, batch_fed_once acceptAll _ (Or.inl Ring.quiescent_init) (by decide) hreturned,
    by decide +kernel⟩

end BcDuplicate
