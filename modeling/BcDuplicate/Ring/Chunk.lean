import BcDuplicate.Ring.Drive
import Mathlib.Algebra.Order.BigOperators.Group.List
import Mathlib.Algebra.Order.Group.Nat

/-!
# BcDuplicate.Ring.Chunk

What one chunk leaves.  Driven on a quiescent ring (`ChunkDriven`), it
handles completions of its own operations only, each item that has a slot is
untouched or `ringServed`, the others are untouched, and when the chunk is
driven to its end every item that has a slot is served and the ring is
quiescent again.

A chunk that fails leaves the ring with its operations queued or in flight.
-/

namespace BcDuplicate

section Chunk

variable {κ : Type} {consumer : Consumer κ}

/-! ## the start -/

theorem length_flatten_chunkEntries (chunk slotIndex itemIndex : Nat) (items : List (BatchItem κ)) :
    (chunkEntries chunk slotIndex itemIndex items).flatten.length =
      4 * (fittingItems itemIndex items).length := by
  induction items generalizing slotIndex itemIndex with
  | nil => rfl
  | cons item items ih =>
      unfold chunkEntries fittingItems
      split
      · rw [List.flatten_cons, List.length_append, ih, List.length_cons]
        have hfour : (slotEntries ⟨chunk, itemIndex⟩ slotIndex item).length = 4 := rfl
        omega
      · exact ih _ _

/-- Submitting a chunk on a quiescent ring establishes the invariant. -/
theorem driveInv_submit {ring : Ring} (hquiet : ring.Quiescent) (items : List (BatchItem κ))
    (accepted : Nat) :
    DriveInv consumer ⟨ring.driven, items, ring.slots, accepted⟩
      ⟨({ ring with submissionQueue :=
          (chunkEntries ring.driven 0 0 items).flatten } : Ring).submit accepted,
        items, fun _ => 0, []⟩ 0 := by
  have hlinked := linkedFour_chunkEntries ring.driven 0 0 items
  have hfilter : ring.inFlight.filter (fun chain => !chain.operations.isEmpty) = [] := by
    rw [List.filter_eq_nil_iff]
    intro chain hchain
    simp [hquiet.inFlight chain hchain]
  have hchains := getElem?_chainsOf _ hlinked accepted
  refine ⟨?_, ?_, ?_, ?_, fun _ _ => rfl, rfl, rfl, ?_⟩
  · intro j i item hserves
    obtain ⟨item', hitem', _, hentries⟩ :=
      getElem?_fittingItems ring.driven 0 hserves.slot
    rw [Nat.sub_zero, hserves.item, Option.some.injEq] at hitem'
    subst hitem'
    rw [Nat.zero_add] at hentries
    refine ⟨[], (slotEntries ⟨ring.driven, i⟩ j item).take (accepted - 4 * j), [], [], rfl, rfl,
      rfl, ?_, ?_, rfl, hserves.item, rfl⟩
    · simp only [Ring.submit, hfilter, List.nil_append]
      rw [hchains, hentries]
      by_cases haccepted : 4 * j < accepted
      · rw [if_pos haccepted]
        exact Or.inl rfl
      · rw [if_neg haccepted, show accepted - 4 * j = 0 by omega]
        exact Or.inr ⟨rfl, rfl⟩
    · simp [Ring.submit, hquiet.completionQueue]
  · -- there is no chain behind the last group
    simp only [Ring.submit, hfilter, List.nil_append]
    rw [← List.getElem?_eq_none_iff, hchains, List.getElem?_eq_none_iff.mpr]
    · split <;> rfl
    · rw [length_chunkEntries]
      exact Nat.le_refl _
  · simp [Ring.submit, hquiet.completionQueue]
  · simp
  · simp only [Ring.submit, hfilter, List.nil_append]
    rw [sum_length_chainsOf, hquiet.completionQueue, List.length_take, length_flatten_chunkEntries]
    rfl

/-! ## the end -/

/-- The completions reaped in a lane are the first of its own chain. -/
theorem Lane.reaped_eq {plan : Plan κ} {state : DriveState κ} {j i : Nat} {item : BatchItem κ}
    {done todo : List Sqe} {reaped pending : List Cqe}
    (h : Lane consumer plan state j i item done todo reaped pending) :
    reaped = (slotCompletions ⟨plan.chunk, i⟩ j item (plan.slots j)).take reaped.length := by
  obtain ⟨rest, hrest⟩ := h.done_prefix
  rw [slotCompletions, ← hrest, Progress.completions_append, h.completions, List.append_assoc,
    List.take_left]

/-- **What driving a chunk leaves**, when it starts on a quiescent ring or
none of its items has a slot. -/
structure ChunkDriven (consumer : Consumer κ) (ring : Ring) (items : List (BatchItem κ))
    (result : DriveResult κ) : Prop where
  slotToItem : result.slotToItem = fittingItems 0 items
  length_items : result.state.items.length = items.length
  handled : ∀ cqe ∈ result.state.handled,
    result.slotToItem[ringDecodeSlot cqe.userData]? = some cqe.sqe.tag.item ∧
      cqe.sqe.tag.chunk = ring.driven
  fitting : ∀ (i : Nat) (item : BatchItem κ), items[i]? = some item → ringFitsInSlot item = true →
    result.state.items[i]? = some item ∨
      result.state.items[i]? = some (ringServed consumer item)
  other : ∀ (i : Nat) (item : BatchItem κ), items[i]? = some item → ringFitsInSlot item = false →
    result.state.items[i]? = some item
  completed : result.driven = .completed →
    ∀ (i : Nat) (item : BatchItem κ), items[i]? = some item → ringFitsInSlot item = true →
      result.state.items[i]? = some (ringServed consumer item)
  driven : result.state.ring.driven = ring.driven

/-- A chunk item that fits has a slot. -/
theorem exists_slot {items : List (BatchItem κ)} {i : Nat} {item : BatchItem κ}
    (hitem : items[i]? = some item) (hfits : ringFitsInSlot item = true) :
    ∃ j : Nat, (fittingItems 0 items)[j]? = some i := by
  have hmem := mem_fittingItems 0 hitem hfits
  rw [Nat.zero_add] at hmem
  exact List.mem_iff_getElem?.mp hmem

/-- An item that does not fit has none. -/
theorem not_mem_fittingItems {items : List (BatchItem κ)} {i : Nat} {item : BatchItem κ}
    (hitem : items[i]? = some item) (hfits : ringFitsInSlot item = false) :
    i ∉ fittingItems 0 items := by
  intro hmem
  obtain ⟨j, hj⟩ := List.mem_iff_getElem?.mp hmem
  obtain ⟨item', hitem', hfits', _⟩ := getElem?_fittingItems 0 0 hj
  rw [Nat.sub_zero, hitem, Option.some.injEq] at hitem'
  subst hitem'
  rw [hfits] at hfits'
  cases hfits'

/-- At most 32 items fit in a chunk, so on an empty queue there is room. -/
theorem room_of_length_le {ring : Ring} (hempty : ring.submissionQueue = [])
    {items : List (BatchItem κ)} (hlen : items.length ≤ readerRingSlotCount) :
    ring.submissionQueue.length + 4 * (fittingItems 0 items).length ≤ ringSubmissionEntries := by
  have hle := length_fittingItems_le 0 items
  rw [hempty, List.length_nil]
  simp only [readerRingSlotCount, ringSubmissionEntries] at hlen ⊢
  omega

/-- The preparing loop on a quiescent ring. -/
theorem ringPrepareChunk_quiescent (script : ChunkScript) {ring : Ring} (hquiet : ring.Quiescent)
    {items : List (BatchItem κ)} (hlen : items.length ≤ readerRingSlotCount) :
    ringPrepareChunk script ring [] 0 items =
      ({ ring with submissionQueue := (chunkEntries ring.driven 0 0 items).flatten },
        fittingItems 0 items, true) := by
  have hprepare := ringPrepareChunk_eq script ring [] 0 items
    (room_of_length_le hquiet.submissionQueue hlen)
  rwa [hquiet.submissionQueue, List.nil_append, List.length_nil, List.nil_append] at hprepare

/-- When all completions are in, nothing is queued or in flight, so each lane
has reaped all four of its own. -/
theorem DriveInv.length_reaped {plan : Plan κ} {state : DriveState κ} {seen : Nat}
    (h : DriveInv consumer plan state seen) (hseen : seen = 4 * plan.slotToItem.length)
    {j i : Nat} {item : BatchItem κ} (hserves : plan.Serves j i item) {done todo : List Sqe}
    {reaped pending : List Cqe} (lane : Lane consumer plan state j i item done todo reaped pending) :
    reaped.length = 4 := by
  have hjlt : j < plan.slotToItem.length := (List.getElem?_eq_some_iff.mp hserves.slot).1
  have hcount := h.count
  have hpending : pending = [] := by
    rw [← lane.queue_eq, List.length_eq_zero_iff.mp (by omega :
      state.ring.completionQueue.length = 0), List.filter_nil]
  have htodo : todo = [] := by
    cases lane.chain_eq with
    | inr hc => exact hc.2
    | inl hc =>
        have hle := List.le_sum_of_mem (List.mem_map.mpr ⟨_, List.mem_of_getElem? hc, rfl⟩ :
          todo.length ∈ state.ring.inFlight.map fun chain => chain.operations.length)
        exact List.length_eq_zero_iff.mp (by omega)
  have hcompletions := congrArg List.length lane.completions
  have hoperations := congrArg List.length lane.operations
  rw [Progress.length_completions, hpending, List.append_nil] at hcompletions
  rw [htodo, List.append_nil, List.length_take] at hoperations
  have hfour : (slotEntries ⟨plan.chunk, i⟩ j item).length = 4 := rfl
  omega

/-- **An item stands as the completions handled for its slot leave it.** -/
theorem DriveInv.item_eq {plan : Plan κ} {state : DriveState κ} {seen : Nat}
    (h : DriveInv consumer plan state seen) (hfresh : ∀ item ∈ plan.items, Fresh item)
    {j i : Nat} {item : BatchItem κ} (hserves : plan.Serves j i item)
    (hfits : ringFitsInSlot item = true) :
    state.items[i]? = some (if (state.handled.filter fun cqe => cqe.sqe.slot = j).length ≤
      (ringVerdict item.view item.fileSize).code then item else ringServed consumer item) := by
  obtain ⟨done, todo, reaped, pending, lane⟩ := h.lanes j i item hserves
  rw [lane.item_eq, lane.handled_eq, lane.reaped_eq, handleSlot_verdict consumer _ j (plan.slots j)
    (hfresh item (List.mem_of_getElem? hserves.item)) hfits, ← lane.reaped_eq]

/-- The chunk's own plan, and how its invariant reads at the end. -/
theorem DriveInv.fitting {plan : Plan κ} {state : DriveState κ} {seen : Nat}
    (h : DriveInv consumer plan state seen) (hfresh : ∀ item ∈ plan.items, Fresh item)
    {i : Nat} {item : BatchItem κ} (hitem : plan.items[i]? = some item)
    (hfits : ringFitsInSlot item = true) :
    (state.items[i]? = some item ∨ state.items[i]? = some (ringServed consumer item)) ∧
      (seen = 4 * plan.slotToItem.length →
        state.items[i]? = some (ringServed consumer item)) := by
  obtain ⟨j, hj⟩ := exists_slot hitem hfits
  have hserves : plan.Serves j i item := ⟨hj, hitem⟩
  have hverdict := code_ringVerdict_le item.view item.fileSize
  rw [h.item_eq hfresh hserves hfits]
  constructor
  · split
    · exact Or.inl rfl
    · exact Or.inr rfl
  · intro hseen
    obtain ⟨done, todo, reaped, pending, lane⟩ := h.lanes j i item hserves
    rw [lane.handled_eq, h.length_reaped hseen hserves lane, if_neg (by omega)]

/-- When all completions are in, those handled for a slot are its own four, in
their order. -/
theorem DriveInv.handled_slot {plan : Plan κ} {state : DriveState κ} {seen : Nat}
    (h : DriveInv consumer plan state seen) (hseen : seen = 4 * plan.slotToItem.length)
    {j i : Nat} {item : BatchItem κ} (hserves : plan.Serves j i item) :
    state.handled.filter (fun cqe => ringDecodeSlot cqe.userData = j) =
      slotCompletions ⟨plan.chunk, i⟩ j item (plan.slots j) := by
  obtain ⟨done, todo, reaped, pending, lane⟩ := h.lanes j i item hserves
  have hfour : (slotCompletions ⟨plan.chunk, i⟩ j item (plan.slots j)).length ≤ 4 :=
    Nat.le_of_eq (Progress.length_completions _ _)
  have hreaped := lane.reaped_eq
  rw [h.length_reaped hseen hserves lane, List.take_of_length_le hfour] at hreaped
  rw [← hreaped, ← lane.handled_eq]
  refine List.filter_congr fun cqe hcqe => ?_
  obtain ⟨_, _, _, _, _, hslot, hdecode, _⟩ := (h.handled cqe hcqe).decode
  rw [hdecode, hslot]

/-- When all completions are in, the ring is quiescent. -/
theorem DriveInv.quiescent {plan : Plan κ} {state : DriveState κ} {seen : Nat}
    (h : DriveInv consumer plan state seen) (hseen : seen = 4 * plan.slotToItem.length) :
    (∀ chain ∈ state.ring.inFlight, chain.operations = []) ∧
      state.ring.completionQueue = [] ∧ 4 * plan.slotToItem.length ≤ plan.accepted := by
  have hcount := h.count
  refine ⟨fun chain hchain => ?_, List.length_eq_zero_iff.mp (by omega), by omega⟩
  have hle := List.le_sum_of_mem (List.mem_map.mpr ⟨_, hchain, rfl⟩ :
    chain.operations.length ∈ state.ring.inFlight.map fun chain => chain.operations.length)
  exact List.length_eq_zero_iff.mp (by omega)

/-- Handling a completion records it and leaves the ring alone. -/
theorem ringHandleCqe_handled (slotToItem : List Nat) (state : DriveState κ) (cqe : Cqe) :
    (ringHandleCqe consumer slotToItem state cqe).handled = state.handled ++ [cqe] ∧
      (ringHandleCqe consumer slotToItem state cqe).ring = state.ring := by
  unfold ringHandleCqe
  dsimp only
  split
  · exact ⟨rfl, rfl⟩
  · split <;> exact ⟨rfl, rfl⟩

/-- Two rings that queue the same entries and have driven as many chunks. -/
structure Ring.SameQueue (ring ring' : Ring) : Prop where
  submissionQueue : ring.submissionQueue = ring'.submissionQueue
  driven : ring.driven = ring'.driven

theorem sameQueue_advances (advances : List Nat) (ring : Ring) :
    (advances.foldl Ring.advance ring).SameQueue ring := by
  induction advances generalizing ring with
  | nil => exact ⟨rfl, rfl⟩
  | cons index advances ih =>
      have hadvance : (ring.advance index).SameQueue ring := by
        unfold Ring.advance
        split <;> exact ⟨rfl, rfl⟩
      have hrest := ih (ring.advance index)
      exact ⟨hrest.submissionQueue.trans hadvance.submissionQueue,
        hrest.driven.trans hadvance.driven⟩

/-- Advancing chains and handling completions do not touch the queue. -/
theorem sameQueue_ringWaitLoop (slotToItem : List Nat) (waits : List Wait) (remaining : Nat)
    (state : DriveState κ) :
    (ringWaitLoop consumer slotToItem waits remaining state).1.ring.SameQueue state.ring := by
  fun_induction ringWaitLoop consumer slotToItem waits remaining state with
  | case1 | case2 => exact ⟨rfl, rfl⟩
  | case4 => exact sameQueue_advances _ _
  | case3 wait waits remaining state advanced _ ih =>
      have hadvances := sameQueue_advances wait.advances state.ring
      exact ⟨ih.submissionQueue.trans hadvances.submissionQueue, ih.driven.trans hadvances.driven⟩
  | case5 wait waits remaining state advanced _ _ ih =>
      have hadvances := sameQueue_advances wait.advances state.ring
      exact ⟨ih.submissionQueue.trans hadvances.submissionQueue, ih.driven.trans hadvances.driven⟩
  | case6 wait waits remaining state advanced _ cqe queue _ handled ih =>
      have hadvances := sameQueue_advances wait.advances state.ring
      have hring : handled.ring = advanced.ring :=
        (@ringHandleCqe_handled κ consumer slotToItem advanced cqe).2
      refine ⟨ih.submissionQueue.trans ?_, ih.driven.trans ?_⟩
      · exact (congrArg Ring.submissionQueue hring).trans hadvances.submissionQueue
      · exact (congrArg Ring.driven hring).trans hadvances.driven

/-! ## any ring -/

/-- The preparing loop counts no chunk, and gives slots to items that fit. -/
theorem ringPrepareChunk_any (script : ChunkScript) (ring : Ring) (slotToItem : List Nat)
    (itemIndex : Nat) (items : List (BatchItem κ)) :
    (ringPrepareChunk script ring slotToItem itemIndex items).1.driven = ring.driven ∧
      (ringPrepareChunk script ring slotToItem itemIndex items).2.1 ⊆
        slotToItem ++ fittingItems itemIndex items := by
  induction items generalizing ring slotToItem itemIndex with
  | nil => exact ⟨rfl, List.subset_append_left _ _⟩
  | cons item items ih =>
      unfold ringPrepareChunk fittingItems
      cases hfits : ringFitsInSlot item with
      | false =>
          rw [if_pos rfl, if_neg Bool.false_ne_true]
          exact ih ring slotToItem (itemIndex + 1)
      | true =>
          rw [if_neg (by decide), if_pos rfl, ringSubmitSlot]
          by_cases hroom : ring.submissionQueue.length + 4 ≤ ringSubmissionEntries
          · rw [if_pos hroom]
            dsimp only
            refine ⟨(ih _ _ _).1, List.Subset.trans (ih _ _ _).2 ?_⟩
            rw [List.append_assoc, List.singleton_append]
            exact List.Subset.refl _
          · rw [if_neg hroom]
            exact ⟨rfl, List.subset_append_left _ _⟩

/-- No completion changes an item that has no slot. -/
theorem getElem?_ringWaitLoop (slotToItem : List Nat) (waits : List Wait) (remaining : Nat)
    (state : DriveState κ) {i : Nat} (hi : i ∉ slotToItem) :
    (ringWaitLoop consumer slotToItem waits remaining state).1.items[i]? = state.items[i]? := by
  have hhandle : ∀ (state : DriveState κ) (cqe : Cqe),
      (ringHandleCqe consumer slotToItem state cqe).items[i]? = state.items[i]? := by
    intro state cqe
    unfold ringHandleCqe
    dsimp only
    split
    · rfl
    · next itemIndex hslot =>
      split
      · rfl
      · refine List.getElem?_set_ne fun heq => hi ?_
        rw [← heq]
        exact List.mem_of_getElem? hslot
  fun_induction ringWaitLoop consumer slotToItem waits remaining state with
  | case1 | case2 | case4 => rfl
  | case3 wait waits remaining state advanced _ ih => exact ih
  | case5 wait waits remaining state advanced _ _ ih => exact ih
  | case6 wait waits remaining state advanced _ cqe queue _ handled ih =>
      exact ih.trans (hhandle advanced cqe)

/-- **On any ring**, whatever was left on it, driving a chunk counts it and
leaves the items alone that do not fit a slot. -/
theorem ringDriveChunk_any (script : ChunkScript) (ring : Ring) (items : List (BatchItem κ)) :
    (ringDriveChunk consumer script ring items).state.ring.driven = ring.driven ∧
      ∀ (i : Nat) (item : BatchItem κ), items[i]? = some item → ringFitsInSlot item = false →
        (ringDriveChunk consumer script ring items).state.items[i]? = some item := by
  have hprepared := ringPrepareChunk_any script ring [] 0 items
  unfold ringDriveChunk
  dsimp only
  split
  · exact ⟨hprepared.1, fun i item hitem _ => hitem⟩
  · split
    · exact ⟨hprepared.1, fun i item hitem _ => hitem⟩
    · cases script.submitStatus with
      | error errno => exact ⟨hprepared.1, fun i item hitem _ => hitem⟩
      | ok accepted =>
          refine ⟨(sameQueue_ringWaitLoop _ _ _ _).driven.trans hprepared.1,
            fun i item hitem hfits => (getElem?_ringWaitLoop _ _ _ _ fun hmem => ?_).trans hitem⟩
          exact not_mem_fittingItems hitem hfits (hprepared.2 hmem)

/-! ## a quiescent ring -/

/-- Without items that fit, nothing is prepared. -/
theorem ringPrepareChunk_none (script : ChunkScript) (ring : Ring) (slotToItem : List Nat)
    (itemIndex : Nat) (items : List (BatchItem κ)) (hnone : fittingItems itemIndex items = []) :
    ringPrepareChunk script ring slotToItem itemIndex items = (ring, slotToItem, true) := by
  induction items generalizing itemIndex with
  | nil => rfl
  | cons item items ih =>
      unfold fittingItems at hnone
      unfold ringPrepareChunk
      cases hfits : ringFitsInSlot item with
      | true => rw [hfits, if_pos rfl] at hnone; cases hnone
      | false =>
          rw [hfits, if_neg Bool.false_ne_true] at hnone
          rw [if_pos rfl]
          exact ih _ hnone

/-- A chunk without items that fit does nothing, on any ring. -/
theorem chunkDriven_of_none (script : ChunkScript) (ring : Ring) {items : List (BatchItem κ)}
    (hnone : fittingItems 0 items = []) :
    ChunkDriven consumer ring items (ringDriveChunk consumer script ring items) ∧
      (ringDriveChunk consumer script ring items).state.ring = ring ∧
      (ringDriveChunk consumer script ring items).driven = .completed := by
  have hno : ∀ (i : Nat) (item : BatchItem κ), items[i]? = some item →
      ringFitsInSlot item = true → False := by
    intro i item hitem hfits
    have hmem := mem_fittingItems 0 hitem hfits
    rw [hnone] at hmem
    cases hmem
  unfold ringDriveChunk
  rw [ringPrepareChunk_none script ring [] 0 items hnone]
  dsimp only
  rw [if_neg (by decide), if_pos List.length_nil]
  exact ⟨⟨hnone.symm, rfl, by simp, fun i item hitem _ => Or.inl hitem, fun i item hitem _ => hitem,
    fun _ i item hitem hfits => (hno i item hitem hfits).elim, rfl⟩, rfl, rfl⟩

/-- A chunk with items that fit whose submit takes `accepted` entries ends with
the invariant of the waiting loop. -/
theorem driveInv_ringDriveChunk (script : ChunkScript) {ring : Ring} (hquiet : ring.Quiescent)
    {items : List (BatchItem κ)} (hlen : items.length ≤ readerRingSlotCount)
    (hsome : fittingItems 0 items ≠ []) {accepted : Nat}
    (hsubmit : script.submitStatus = .ok accepted) :
    (ringDriveChunk consumer script ring items).slotToItem = fittingItems 0 items ∧
      (ringDriveChunk consumer script ring items).state.ring.submissionQueue =
        (chunkEntries ring.driven 0 0 items).flatten.drop accepted ∧
      ∃ seen, DriveInv consumer ⟨ring.driven, items, ring.slots, accepted⟩
          (ringDriveChunk consumer script ring items).state seen ∧
        ((ringDriveChunk consumer script ring items).driven = .completed →
          seen = 4 * (fittingItems 0 items).length) := by
  unfold ringDriveChunk
  rw [ringPrepareChunk_quiescent script hquiet hlen]
  dsimp only
  rw [if_neg (by decide), if_neg (fun h => hsome (List.length_eq_zero_iff.mp h)), hsubmit]
  dsimp only
  have hstart : DriveInv consumer _ _ 0 := driveInv_submit hquiet items accepted
  obtain ⟨seen, hinv, hseen⟩ := driveInv_ringWaitLoop script.waits
    (4 * (fittingItems 0 items).length) 0 _ hstart
  rw [Nat.zero_add] at hseen
  exact ⟨rfl, (sameQueue_ringWaitLoop _ _ _ _).submissionQueue, seen, hinv, hseen⟩

/-- When the submit fails nothing has happened to the items. -/
theorem ringDriveChunk_submit_error (script : ChunkScript) {ring : Ring} (hquiet : ring.Quiescent)
    {items : List (BatchItem κ)} (hlen : items.length ≤ readerRingSlotCount)
    (hsome : fittingItems 0 items ≠ []) {errno : Errno}
    (hsubmit : script.submitStatus = .error errno) :
    ∃ ring' : Ring, ring'.driven = ring.driven ∧ ringDriveChunk consumer script ring items =
      ⟨⟨ring', items, fun _ => 0, []⟩, fittingItems 0 items, .failed⟩ := by
  unfold ringDriveChunk
  rw [ringPrepareChunk_quiescent script hquiet hlen]
  dsimp only
  rw [if_neg (by decide), if_neg (fun h => hsome (List.length_eq_zero_iff.mp h)), hsubmit]
  exact ⟨{ ring with submissionQueue := (chunkEntries ring.driven 0 0 items).flatten }, rfl, rfl⟩

/-- **Driving a chunk on a quiescent ring.** -/
theorem chunkDriven_ringDriveChunk (script : ChunkScript) {ring : Ring} (hquiet : ring.Quiescent)
    {items : List (BatchItem κ)} (hlen : items.length ≤ readerRingSlotCount)
    (hfresh : ∀ item ∈ items, Fresh item) :
    ChunkDriven consumer ring items (ringDriveChunk consumer script ring items) ∧
      ((ringDriveChunk consumer script ring items).driven = .completed →
        (ringDriveChunk consumer script ring items).state.ring.Quiescent) := by
  by_cases hsome : fittingItems 0 items = []
  · obtain ⟨hdriven, hring, _⟩ := @chunkDriven_of_none κ consumer script ring items hsome
    exact ⟨hdriven, fun _ => by rw [hring]; exact hquiet⟩
  cases hsubmit : script.submitStatus with
  | error errno =>
      obtain ⟨ring', hnumber, hdrive⟩ :=
        @ringDriveChunk_submit_error κ consumer script ring hquiet items hlen hsome errno hsubmit
      rw [hdrive]
      exact ⟨⟨rfl, rfl, by simp, fun i item hitem _ => Or.inl hitem,
        fun i item hitem _ => hitem, fun hc => (nomatch hc), hnumber⟩, fun hc => (nomatch hc)⟩
  | ok accepted =>
      obtain ⟨hslots, hqueue, seen, hinv, hseen⟩ :=
        @driveInv_ringDriveChunk κ consumer script ring hquiet items hlen hsome accepted hsubmit
      refine ⟨⟨hslots, hinv.length_items, ?_, fun i item hitem hfits =>
        (hinv.fitting hfresh hitem hfits).1, fun i item hitem hfits => ?_,
          fun hcompleted i item hitem hfits =>
            (hinv.fitting hfresh hitem hfits).2 (hseen hcompleted), hinv.driven⟩,
        fun hcompleted => ⟨?_, (hinv.quiescent (hseen hcompleted)).1,
          (hinv.quiescent (hseen hcompleted)).2.1⟩⟩
      · intro cqe hcqe
        obtain ⟨j, i, item, hserves, hmem, _, hdecode, _⟩ := (hinv.handled cqe hcqe).decode
        obtain ⟨_, htag, _⟩ := of_mem_slotEntries hmem
        rw [hslots, hdecode, htag]
        exact ⟨hserves.slot, rfl⟩
      · exact (hinv.others i (not_mem_fittingItems hitem hfits)).trans hitem
      · rw [hqueue]
        refine List.drop_of_length_le ?_
        rw [length_flatten_chunkEntries]
        exact (hinv.quiescent (hseen hcompleted)).2.2

/-- **The completions of a chunk driven to its end**, slot by slot: those of
the slot's own chain, in their order. -/
theorem handled_ringDriveChunk (script : ChunkScript) {ring : Ring} (hquiet : ring.Quiescent)
    {items : List (BatchItem κ)} (hlen : items.length ≤ readerRingSlotCount)
    (hcompleted : (ringDriveChunk consumer script ring items).driven = .completed) {j i : Nat}
    {item : BatchItem κ} (hslot : (fittingItems 0 items)[j]? = some i)
    (hitem : items[i]? = some item) :
    (ringDriveChunk consumer script ring items).state.handled.filter
        (fun cqe => ringDecodeSlot cqe.userData = j) =
      slotCompletions ⟨ring.driven, i⟩ j item (ring.slots j) := by
  have hsome : fittingItems 0 items ≠ [] := by
    intro hnone
    rw [hnone] at hslot
    cases hslot
  cases hsubmit : script.submitStatus with
  | error errno =>
      obtain ⟨ring', _, hdrive⟩ :=
        @ringDriveChunk_submit_error κ consumer script ring hquiet items hlen hsome errno hsubmit
      rw [hdrive] at hcompleted
      cases hcompleted
  | ok accepted =>
      obtain ⟨_, _, seen, hinv, hseen⟩ :=
        @driveInv_ringDriveChunk κ consumer script ring hquiet items hlen hsome accepted hsubmit
      exact hinv.handled_slot (hseen hcompleted) ⟨hslot, hitem⟩

end Chunk

end BcDuplicate
