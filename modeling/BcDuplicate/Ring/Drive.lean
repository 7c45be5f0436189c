import BcDuplicate.Ring.Prepare

/-!
# BcDuplicate.Ring.Drive

Driving a chunk from a quiescent ring.  The chains advance in any order and
their completions mix in one queue, but each works on its own slot and item:
`DriveInv` says of every slot that its operations, completions and item stand
as if the slot were alone (`Lane`), and counts the operations in flight, the
completions queued and those already seen.

The invariant holds after the submit, and advancing a chain and handling a
completion keep it, so it holds however the waiting loop ends
(`driveInv_ringWaitLoop`).
-/

namespace BcDuplicate

section Drive

variable {κ : Type} (consumer : Consumer κ)

/-- What is fixed once a chunk is submitted: its number, its items, what the
slots held, and how many entries the kernel took. -/
structure Plan (κ : Type) where
  chunk : Nat
  items : List (BatchItem κ)
  slots : Nat → Slot
  accepted : Nat

/-- `slot_to_item` of the chunk. -/
def Plan.slotToItem (plan : Plan κ) : List Nat := fittingItems 0 plan.items

/-- Slot `j` belongs to `item`, at position `i` of the chunk. -/
structure Plan.Serves (plan : Plan κ) (j i : Nat) (item : BatchItem κ) : Prop where
  slot : plan.slotToItem[j]? = some i
  item : plan.items[i]? = some item

/-- The completion is of an operation this chunk prepared. -/
def Plan.Own (plan : Plan κ) (cqe : Cqe) : Prop :=
  ∃ j i item, plan.Serves j i item ∧ cqe.sqe ∈ slotEntries ⟨plan.chunk, i⟩ j item ∧
    cqe.userData = cqe.sqe.userData

/-- One slot during the chunk.  `done` and `todo` are its submitted
operations, executed and not; `reaped` and `pending` are the completions of
`done`, handled and not. -/
structure Lane (plan : Plan κ) (state : DriveState κ) (j i : Nat) (item : BatchItem κ)
    (done todo : List Sqe) (reaped pending : List Cqe) : Prop where
  operations : (slotEntries ⟨plan.chunk, i⟩ j item).take (plan.accepted - 4 * j) = done ++ todo
  completions : Progress.completions ⟨plan.slots j, false⟩ done = reaped ++ pending
  slot_eq : state.ring.slots j = (Progress.run ⟨plan.slots j, false⟩ done).slot
  chain_eq : state.ring.inFlight[j]? =
      some ⟨todo, (Progress.run ⟨plan.slots j, false⟩ done).cancelled⟩ ∨
    state.ring.inFlight[j]? = none ∧ todo = []
  queue_eq : state.ring.completionQueue.filter (fun cqe => cqe.sqe.slot = j) = pending
  handled_eq : state.handled.filter (fun cqe => cqe.sqe.slot = j) = reaped
  item_eq : state.items[i]? = some (handleSlot consumer
    (slotBuffer ⟨plan.chunk, i⟩ j item (plan.slots j)) reaped (item, 0)).1
  bytesRead_eq : state.slotBytesRead j = (handleSlot consumer
    (slotBuffer ⟨plan.chunk, i⟩ j item (plan.slots j)) reaped (item, 0)).2

/-- **The invariant of the waiting loop**, after `seen` completions. -/
structure DriveInv (plan : Plan κ) (state : DriveState κ) (seen : Nat) : Prop where
  lanes : ∀ j i item, plan.Serves j i item →
    ∃ done todo reaped pending, Lane consumer plan state j i item done todo reaped pending
  length_inFlight : state.ring.inFlight.length ≤ plan.slotToItem.length
  queued : ∀ cqe ∈ state.ring.completionQueue, plan.Own cqe
  handled : ∀ cqe ∈ state.handled, plan.Own cqe
  others : ∀ i, i ∉ plan.slotToItem → state.items[i]? = plan.items[i]?
  length_items : state.items.length = plan.items.length
  driven : state.ring.driven = plan.chunk
  count : (state.ring.inFlight.map fun chain => chain.operations.length).sum +
    state.ring.completionQueue.length + seen = min plan.accepted (4 * plan.slotToItem.length)

/-! ## facts about the plan -/

theorem of_mem_slotEntries {tag : Tag} {j : Nat} {item : BatchItem κ} {sqe : Sqe}
    (h : sqe ∈ slotEntries tag j item) :
    sqe.slot = j ∧ sqe.tag = tag ∧ sqe.userData = ringEncodeUserData j sqe.operation.code := by
  simp only [slotEntries, List.mem_cons, List.not_mem_nil, or_false] at h
  rcases h with rfl | rfl | rfl | rfl <;> exact ⟨rfl, rfl, rfl⟩

variable {consumer} {plan : Plan κ}

/-- A completion decodes to the slot and the operation of its entry. -/
theorem Plan.Own.decode {cqe : Cqe} (h : plan.Own cqe) :
    ∃ j i item, plan.Serves j i item ∧ cqe.sqe ∈ slotEntries ⟨plan.chunk, i⟩ j item ∧
      cqe.sqe.slot = j ∧ ringDecodeSlot cqe.userData = j ∧
      ringDecodeOperation cqe.userData = cqe.sqe.operation.code := by
  obtain ⟨j, i, item, hserves, hmem, huser⟩ := h
  obtain ⟨hslot, _, hdata⟩ := of_mem_slotEntries hmem
  refine ⟨j, i, item, hserves, hmem, hslot, ?_, ?_⟩
  · rw [huser, hdata, ringDecodeSlot_encode]
  · rw [huser, hdata, ringDecodeOperation_encode]

/-- Every slot in use belongs to an item. -/
theorem Plan.exists_serves {j : Nat} (h : j < plan.slotToItem.length) :
    ∃ i item, plan.Serves j i item := by
  have hslot := List.getElem?_eq_getElem h
  obtain ⟨item, hitem, _, _⟩ := getElem?_fittingItems 0 0 hslot
  exact ⟨_, item, hslot, hitem⟩

/-- A slot belongs to one item. -/
theorem Plan.Serves.unique {j i i' : Nat} {item item' : BatchItem κ} (h : plan.Serves j i item)
    (h' : plan.Serves j i' item') : i' = i ∧ item' = item := by
  obtain rfl : i' = i := Option.some.inj (h'.slot.symm.trans h.slot)
  exact ⟨rfl, Option.some.inj (h'.item.symm.trans h.item)⟩

/-- Different slots belong to different items. -/
theorem Plan.Serves.slot_inj {j j' i i' : Nat} {item item' : BatchItem κ}
    (h : plan.Serves j i item) (h' : plan.Serves j' i' item') (hi : i = i') : j = j' := by
  subst hi
  have hj : j < plan.slotToItem.length := (List.getElem?_eq_some_iff.mp h.slot).1
  exact (List.getElem?_inj hj (nodup_fittingItems 0 plan.items)).mp (h.slot.trans h'.slot.symm)

/-! ## advancing a chain -/

theorem sum_operations_set (cancelled' : Bool) {chains : List Chain} {index : Nat} {sqe : Sqe}
    {operations : List Sqe} {cancelled : Bool}
    (h : chains[index]? = some ⟨sqe :: operations, cancelled⟩) :
    ((chains.set index ⟨operations, cancelled'⟩).map fun chain => chain.operations.length).sum + 1 =
      (chains.map fun chain => chain.operations.length).sum := by
  induction chains generalizing index with
  | nil => cases h
  | cons chain chains ih =>
      cases index with
      | zero =>
          cases h
          simp only [List.set_cons_zero, List.map_cons, List.sum_cons, List.length_cons]
          omega
      | succ index =>
          rw [List.getElem?_cons_succ] at h
          have := ih h
          simp only [List.set_cons_succ, List.map_cons, List.sum_cons]
          omega

section Lane

variable {state : DriveState κ} {j i : Nat} {item : BatchItem κ} {done todo : List Sqe}
  {reaped pending : List Cqe}

theorem Lane.mem_entries (h : Lane consumer plan state j i item done todo reaped pending)
    {sqe : Sqe} (hmem : sqe ∈ done ++ todo) : sqe ∈ slotEntries ⟨plan.chunk, i⟩ j item :=
  List.mem_of_mem_take (h.operations ▸ hmem)

theorem Lane.done_prefix (h : Lane consumer plan state j i item done todo reaped pending) :
    done <+: slotEntries ⟨plan.chunk, i⟩ j item :=
  (List.prefix_append done todo).trans (h.operations ▸ List.take_prefix _ _)

/-- What changes nothing of a slot leaves its lane as it is. -/
theorem Lane.frame {state' : DriveState κ}
    (h : Lane consumer plan state j i item done todo reaped pending)
    (hslot : state'.ring.slots j = state.ring.slots j)
    (hchain : state'.ring.inFlight[j]? = state.ring.inFlight[j]?)
    (hqueue : state'.ring.completionQueue.filter (fun cqe => cqe.sqe.slot = j) =
      state.ring.completionQueue.filter (fun cqe => cqe.sqe.slot = j))
    (hhandled : state'.handled.filter (fun cqe => cqe.sqe.slot = j) =
      state.handled.filter (fun cqe => cqe.sqe.slot = j))
    (hitem : state'.items[i]? = state.items[i]?)
    (hbytesRead : state'.slotBytesRead j = state.slotBytesRead j) :
    Lane consumer plan state' j i item done todo reaped pending where
  operations := h.operations
  completions := h.completions
  slot_eq := hslot.trans h.slot_eq
  chain_eq := by rw [hchain]; exact h.chain_eq
  queue_eq := hqueue.trans h.queue_eq
  handled_eq := hhandled.trans h.handled_eq
  item_eq := hitem.trans h.item_eq
  bytesRead_eq := hbytesRead.trans h.bytesRead_eq

/-- A chain that has operations left has those its lane has not executed. -/
theorem Lane.of_chain (h : Lane consumer plan state j i item done todo reaped pending)
    {operations : List Sqe} {cancelled : Bool}
    (hchain : state.ring.inFlight[j]? = some ⟨operations, cancelled⟩) :
    operations = todo ∧ cancelled = (Progress.run ⟨plan.slots j, false⟩ done).cancelled := by
  cases h.chain_eq with
  | inl hc =>
      rw [hchain, Option.some.injEq, Chain.mk.injEq] at hc
      exact hc
  | inr hc =>
      rw [hchain] at hc
      cases hc.1

/-- The chain's own lane: one operation moves from `todo` to `done`, and its
completion is pending. -/
theorem Lane.advance {sqe : Sqe} {operations : List Sqe}
    (h : Lane consumer plan state j i item done (sqe :: operations) reaped pending)
    (hindex : j < state.ring.inFlight.length) {progress : Progress} {result : Int}
    (hstep : (Progress.run ⟨plan.slots j, false⟩ done).step sqe = (progress, result)) :
    Lane consumer plan
      { state with
        ring := { state.ring with
          slots := Function.update state.ring.slots sqe.slot progress.slot
          inFlight := state.ring.inFlight.set j ⟨operations, progress.cancelled⟩
          completionQueue := state.ring.completionQueue ++ [⟨sqe.userData, result, sqe⟩] } }
      j i item (done ++ [sqe]) operations reaped (pending ++ [⟨sqe.userData, result, sqe⟩]) := by
  obtain ⟨hslot, _, _⟩ := of_mem_slotEntries
    (h.mem_entries (List.mem_append_right _ List.mem_cons_self))
  refine ⟨?_, ?_, ?_, ?_, ?_, h.handled_eq, h.item_eq, h.bytesRead_eq⟩
  · rw [h.operations, List.append_assoc, List.singleton_append]
  · rw [Progress.completions_snoc, h.completions, List.append_assoc, hstep]
  · rw [Progress.run_snoc, hstep, hslot]
    exact Function.update_self _ _ _
  · rw [Progress.run_snoc, hstep]
    exact Or.inl (List.getElem?_set_self hindex)
  · rw [List.filter_append, h.queue_eq, List.filter_cons_of_pos (by simpa using hslot),
      List.filter_nil]

end Lane

/-- Advancing a chain keeps the invariant: the chain's own lane moves one
operation from `todo` to `done`, and no other lane sees a change. -/
theorem DriveInv.advance {state : DriveState κ} {seen : Nat}
    (h : DriveInv consumer plan state seen) (index : Nat) :
    DriveInv consumer plan { state with ring := state.ring.advance index } seen := by
  unfold Ring.advance
  split
  · next sqe operations cancelled hchain =>
    have hindex : index < state.ring.inFlight.length := (List.getElem?_eq_some_iff.mp hchain).1
    obtain ⟨i, item, hserves⟩ := Plan.exists_serves (Nat.lt_of_lt_of_le hindex h.length_inFlight)
    obtain ⟨done, todo, reaped, pending, lane⟩ := h.lanes index i item hserves
    obtain ⟨rfl, rfl⟩ := lane.of_chain hchain
    have hmem : sqe ∈ slotEntries ⟨plan.chunk, i⟩ index item := lane.mem_entries (by simp)
    obtain ⟨hslot, _, _⟩ := of_mem_slotEntries hmem
    have hprogress : (⟨state.ring.slots sqe.slot,
        (Progress.run ⟨plan.slots index, false⟩ done).cancelled⟩ : Progress) =
          Progress.run ⟨plan.slots index, false⟩ done := by
      rw [hslot, lane.slot_eq]
    rw [hprogress]
    have hcount := h.count
    refine ⟨?_, ?_, ?_, h.handled, h.others, h.length_items, h.driven, ?_⟩
    · intro j i' item' hserves'
      by_cases hj : j = index
      · subst hj
        obtain ⟨rfl, rfl⟩ := hserves.unique hserves'
        exact ⟨_, _, _, _, lane.advance hindex rfl⟩
      · obtain ⟨done', todo', reaped', pending', lane'⟩ := h.lanes j i' item' hserves'
        refine ⟨done', todo', reaped', pending', lane'.frame ?_ ?_ ?_ rfl rfl rfl⟩
        · exact Function.update_of_ne (hslot ▸ hj) _ _
        · exact List.getElem?_set_ne (Ne.symm hj)
        · rw [List.filter_append, List.filter_cons_of_neg (by simpa [hslot] using Ne.symm hj),
            List.filter_nil, List.append_nil]
    · rw [List.length_set]
      exact h.length_inFlight
    · intro cqe hcqe
      cases List.mem_append.mp hcqe with
      | inl hcqe => exact h.queued cqe hcqe
      | inr hcqe =>
          rw [List.mem_singleton] at hcqe
          subst hcqe
          exact ⟨index, i, item, hserves, hmem, rfl⟩
    · -- the operation leaves its chain and its completion joins the queue
      have hsum := sum_operations_set
        ((Progress.run ⟨plan.slots index, false⟩ done).step sqe).1.cancelled hchain
      change ((state.ring.inFlight.set index ⟨operations, _⟩).map _).sum +
        (state.ring.completionQueue ++ [_]).length + seen = _
      rw [List.length_append, List.length_singleton]
      omega
  · exact h

/-! ## handling a completion -/

/-- Once the probe is executed the buffer no longer changes: the operations
behind it do not read. -/
theorem buffer_of_probe {tag : Tag} {j : Nat} {item : BatchItem κ} {start : Slot} {done : List Sqe}
    (hpre : done <+: slotEntries tag j item) {sqe : Sqe} (hmem : sqe ∈ done)
    (hop : sqe.operation = .probe) :
    (Progress.run ⟨start, false⟩ done).slot.buffer = slotBuffer tag j item start := by
  have hdone := List.prefix_iff_eq_take.mp hpre
  obtain ⟨rest, hrest⟩ := hpre
  rw [slotBuffer, ← hrest, Progress.run_append]
  refine (Progress.buffer_run _ _ fun entry hentry hread => ?_).symm
  have hdrop : rest = (slotEntries tag j item).drop done.length := by
    rw [← hrest, List.drop_left]
  rw [hdone] at hmem
  rw [hdrop] at hentry
  obtain hlen | hlen | hlen | ⟨n, hlen⟩ : done.length = 0 ∨ done.length = 1 ∨ done.length = 2 ∨
      ∃ n, done.length = n + 3 := by
    obtain hlt | hge := Nat.lt_or_ge done.length 3
    · omega
    · exact Or.inr (Or.inr (Or.inr ⟨done.length - 3, by omega⟩))
  · rw [hlen] at hmem
    cases hmem
  · rw [hlen] at hmem
    simp only [slotEntries, List.take_succ_cons, List.take_zero, List.mem_singleton] at hmem
    subst hmem
    cases hop
  · rw [hlen] at hmem
    simp only [slotEntries, List.take_succ_cons, List.take_zero, List.mem_cons,
      List.not_mem_nil, or_false] at hmem
    rcases hmem with rfl | rfl <;> cases hop
  · rw [hlen] at hentry
    have hclose := List.mem_of_mem_drop (l := (slotEntries tag j item).drop 3) (i := n)
      (by rwa [List.drop_drop, Nat.add_comm])
    simp only [slotEntries, List.drop_succ_cons, List.drop_zero, List.mem_singleton] at hclose
    subst hclose
    cases hread

section Handling

variable {state : DriveState κ} {j i : Nat} {item : BatchItem κ} {done todo : List Sqe}
  {reaped pending : List Cqe} {cqe : Cqe}

/-- **A completion is handled as if its slot were alone.** -/
theorem Lane.ringHandleCqe_eq
    (h : Lane consumer plan state j i item done todo reaped (cqe :: pending))
    (hserves : plan.Serves j i item) (hdecode : ringDecodeSlot cqe.userData = j)
    (hoperation : ringDecodeOperation cqe.userData = cqe.sqe.operation.code) :
    ringHandleCqe consumer plan.slotToItem state cqe =
      { state with
        items := state.items.set i (handleSlot consumer
          (slotBuffer ⟨plan.chunk, i⟩ j item (plan.slots j)) (reaped ++ [cqe]) (item, 0)).1
        slotBytesRead := Function.update state.slotBytesRead j (handleSlot consumer
          (slotBuffer ⟨plan.chunk, i⟩ j item (plan.slots j)) (reaped ++ [cqe]) (item, 0)).2
        handled := state.handled ++ [cqe] } := by
  have hcompletion : cqe ∈ Progress.completions ⟨plan.slots j, false⟩ done := by
    rw [h.completions]
    simp
  have hdone := (Progress.sqe_of_mem_completions hcompletion).1
  -- only the probe looks at the buffer, which no later operation changes
  have hhandle : ringHandleItem consumer (state.ring.slots j).buffer (state.slotBytesRead j)
      cqe.sqe.operation.code cqe.res (handleSlot consumer
        (slotBuffer ⟨plan.chunk, i⟩ j item (plan.slots j)) reaped (item, 0)).1 =
      handleSlot consumer (slotBuffer ⟨plan.chunk, i⟩ j item (plan.slots j)) (reaped ++ [cqe])
        (item, 0) := by
    rw [handleSlot_snoc, h.bytesRead_eq, hoperation]
    by_cases hprobe : cqe.sqe.operation = .probe
    · rw [h.slot_eq, buffer_of_probe h.done_prefix hdone hprobe]
    · refine ringHandleItem_buffer consumer _ _ _ _ _ _ ?_
      cases hop : cqe.sqe.operation <;> first | decide | exact absurd hop hprobe
  unfold ringHandleCqe
  dsimp only
  rw [hdecode, hserves.slot]
  dsimp only
  rw [h.item_eq, hoperation]
  dsimp only
  rw [hhandle]

/-- The completion's own lane: it moves from `pending` to `reaped`. -/
theorem Lane.handle (h : Lane consumer plan state j i item done todo reaped (cqe :: pending))
    (hslot : cqe.sqe.slot = j) {queue : List Cqe}
    (hqueue : queue.filter (fun cqe => cqe.sqe.slot = j) = pending) :
    Lane consumer plan
      { ring := { state.ring with completionQueue := queue }
        items := state.items.set i (handleSlot consumer
          (slotBuffer ⟨plan.chunk, i⟩ j item (plan.slots j)) (reaped ++ [cqe]) (item, 0)).1
        slotBytesRead := Function.update state.slotBytesRead j (handleSlot consumer
          (slotBuffer ⟨plan.chunk, i⟩ j item (plan.slots j)) (reaped ++ [cqe]) (item, 0)).2
        handled := state.handled ++ [cqe] }
      j i item done todo (reaped ++ [cqe]) pending where
  operations := h.operations
  completions := by rw [h.completions, List.append_assoc, List.singleton_append]
  slot_eq := h.slot_eq
  chain_eq := h.chain_eq
  queue_eq := hqueue
  handled_eq := by
    rw [List.filter_append, h.handled_eq, List.filter_cons_of_pos (by simpa using hslot),
      List.filter_nil]
  item_eq := List.getElem?_set_self (List.getElem?_eq_some_iff.mp h.item_eq).1
  bytesRead_eq := Function.update_self _ _ _

end Handling

/-- Handling the oldest completion keeps the invariant: it is of some slot of
this chunk, and moves from `pending` to `reaped` there. -/
theorem DriveInv.handle {state : DriveState κ} {seen : Nat} {cqe : Cqe} {queue : List Cqe}
    (h : DriveInv consumer plan state seen)
    (hqueue : state.ring.completionQueue = cqe :: queue) :
    DriveInv consumer plan
      { ringHandleCqe consumer plan.slotToItem state cqe with
        ring := { (ringHandleCqe consumer plan.slotToItem state cqe).ring with
          completionQueue := queue } } (seen + 1) := by
  have hown := h.queued cqe (by rw [hqueue]; exact List.mem_cons_self)
  obtain ⟨j, i, item, hserves, hmem, hslot, hdecode, hoperation⟩ := hown.decode
  obtain ⟨done, todo, reaped, pending, lane⟩ := h.lanes j i item hserves
  obtain rfl : pending = cqe :: queue.filter (fun cqe => cqe.sqe.slot = j) := by
    rw [← lane.queue_eq, hqueue, List.filter_cons_of_pos (by simpa using hslot)]
  rw [lane.ringHandleCqe_eq hserves hdecode hoperation]
  have hcount := h.count
  rw [hqueue, List.length_cons] at hcount
  refine ⟨?_, h.length_inFlight, ?_, ?_, ?_, ?_, h.driven, ?_⟩
  · intro j' i' item' hserves'
    by_cases hj : j' = j
    · subst hj
      obtain ⟨rfl, rfl⟩ := hserves.unique hserves'
      exact ⟨_, _, _, _, lane.handle hslot rfl⟩
    · obtain ⟨done', todo', reaped', pending', lane'⟩ := h.lanes j' i' item' hserves'
      refine ⟨done', todo', reaped', pending', lane'.frame rfl rfl ?_ ?_ ?_ ?_⟩
      · rw [hqueue, List.filter_cons_of_neg (by simpa [hslot] using Ne.symm hj)]
      · rw [List.filter_append, List.filter_cons_of_neg (by simpa [hslot] using Ne.symm hj),
          List.filter_nil, List.append_nil]
      · exact List.getElem?_set_ne fun hi' => hj (hserves'.slot_inj hserves hi'.symm)
      · exact Function.update_of_ne hj _ _
  · intro cqe' hcqe'
    exact h.queued cqe' (by rw [hqueue]; exact List.mem_cons_of_mem _ hcqe')
  · intro cqe' hcqe'
    cases List.mem_append.mp hcqe' with
    | inl hcqe' => exact h.handled cqe' hcqe'
    | inr hcqe' => rw [List.mem_singleton.mp hcqe']; exact hown
  · intro i' hi'
    rw [← h.others i' hi']
    refine List.getElem?_set_ne fun heq => hi' ?_
    rw [← heq]
    exact List.mem_of_getElem? hserves.slot
  · rw [List.length_set]
    exact h.length_items
  · dsimp only
    omega

/-! ## the waiting loop -/

theorem DriveInv.advances {state : DriveState κ} {seen : Nat}
    (h : DriveInv consumer plan state seen) (advances : List Nat) :
    DriveInv consumer plan { state with ring := advances.foldl Ring.advance state.ring } seen := by
  induction advances generalizing state with
  | nil => exact h
  | cons index advances ih => exact ih (h.advance index)

/-- **However the waiting loop ends, the invariant holds**, and it completes
only after all expected completions. -/
theorem driveInv_ringWaitLoop (waits : List Wait) (remaining seen : Nat) (state : DriveState κ)
    (h : DriveInv consumer plan state seen) :
    ∃ seen', DriveInv consumer plan
        (ringWaitLoop consumer plan.slotToItem waits remaining state).1 seen' ∧
      ((ringWaitLoop consumer plan.slotToItem waits remaining state).2 = .completed →
        seen' = seen + remaining) := by
  induction waits generalizing remaining seen state with
  | nil =>
      cases remaining with
      | zero => exact ⟨seen, h, fun _ => rfl⟩
      | succ remaining => exact ⟨seen, h, fun hc => by cases hc⟩
  | cons wait waits ih =>
      cases remaining with
      | zero => exact ⟨seen, h, fun _ => rfl⟩
      | succ remaining =>
          have hadvanced := h.advances wait.advances
          unfold ringWaitLoop
          cases wait.status with
          | error errno =>
              dsimp only
              by_cases hintr : errno = Errno.EINTR
              · rw [if_pos hintr]
                exact ih _ _ _ hadvanced
              · rw [if_neg hintr]
                exact ⟨seen, hadvanced, fun hc => by cases hc⟩
          | ok =>
              dsimp only
              split
              · exact ih _ _ _ hadvanced
              · next cqe queue hqueue =>
                obtain ⟨seen', hinv, hseen⟩ := ih remaining (seen + 1) _ (hadvanced.handle hqueue)
                exact ⟨seen', hinv, fun hc => by rw [hseen hc]; omega⟩

end Drive

end BcDuplicate
