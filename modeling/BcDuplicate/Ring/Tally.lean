import BcDuplicate.Ring.Chunk

/-!
# BcDuplicate.Ring.Tally

How driving a chunk ends depends on the script and on the number of slots, not
on the files: an operation completes whether it succeeds, fails or is
cancelled.  `ChunkScript.reaps` counts operations and completions without
looking at them.  On a quiescent ring it says which chain each handled
completion is of and how the chunk ends (`ringDriveChunk_reaps`).
-/

namespace BcDuplicate

/-! ## counting -/

/-- The operations each chain still has to execute, and the chains of the
completions not yet reaped. -/
structure Tally where
  left : Nat → Nat
  queue : List Nat

/-- A chain executes its next operation, if it has one. -/
def Tally.advance (tally : Tally) (chain : Nat) : Tally :=
  if tally.left chain = 0 then tally
  else ⟨Function.update tally.left chain (tally.left chain - 1), tally.queue ++ [chain]⟩

/-- The chains whose completions are reaped, in order, and how the waits end;
`remaining` completions are still expected. -/
def reapWaits : List Wait → Nat → Tally → List Nat × Driven
  | _, 0, _ => ([], .completed)
  | [], _ + 1, _ => ([], .blocked)
  | wait :: waits, remaining + 1, tally =>
      let tally := wait.advances.foldl Tally.advance tally
      match wait.status with
      | .error errno =>
          if errno = Errno.EINTR then reapWaits waits (remaining + 1) tally else ([], .failed)
      | .ok () =>
          match tally.queue with
          | [] => reapWaits waits (remaining + 1) tally
          | chain :: queue =>
              let rest := reapWaits waits remaining { tally with queue }
              (chain :: rest.1, rest.2)

/-- The completions reaped, by the slot they are of, and how the chunk ends,
when `slots` of its items have one. -/
def ChunkScript.reaps (script : ChunkScript) (slots : Nat) : List Nat × Driven :=
  if slots = 0 then ([], .completed)
  else
    match script.submitStatus with
    | .error _ => ([], .failed)
    | .ok accepted =>
        reapWaits script.waits (4 * slots) ⟨fun j => min 4 (min accepted (4 * slots) - 4 * j), []⟩

/-- The chunk needs a slot and fails: its submit does, or one of its waits
before the last completion; a wait that is interrupted is repeated. -/
def ChunkScript.FailsOn {κ : Type} (script : ChunkScript) (items : List (BatchItem κ)) : Prop :=
  (script.reaps (fittingItems 0 items).length).2 = .failed

/-- Waits that all succeed do not fail a chunk. -/
theorem reapWaits_ne_failed (waits : List Wait) (remaining : Nat) (tally : Tally)
    (h : ∀ wait ∈ waits, wait.status = .ok ()) :
    (reapWaits waits remaining tally).2 ≠ .failed := by
  fun_induction reapWaits waits remaining tally with
  | case1 | case2 => exact fun hc => (nomatch hc)
  | case3 wait waits remaining tally advanced hstatus ih =>
      exact ih fun wait hwait => h wait (List.mem_cons_of_mem _ hwait)
  | case4 wait waits remaining tally errno hstatus hintr =>
      rw [h wait List.mem_cons_self] at hstatus
      cases hstatus
  | case5 wait waits remaining tally advanced _ _ ih =>
      exact ih fun wait hwait => h wait (List.mem_cons_of_mem _ hwait)
  | case6 wait waits remaining tally advanced _ chain queue _ rest ih =>
      exact ih fun wait hwait => h wait (List.mem_cons_of_mem _ hwait)

theorem not_failsOn_of_ok {κ : Type} {script : ChunkScript} (items : List (BatchItem κ))
    {accepted : Nat} (hsubmit : script.submitStatus = .ok accepted)
    (hwaits : ∀ wait ∈ script.waits, wait.status = .ok ()) : ¬script.FailsOn items := by
  unfold ChunkScript.FailsOn ChunkScript.reaps
  rw [hsubmit]
  split
  · exact fun hc => (nomatch hc)
  · exact reapWaits_ne_failed _ _ _ hwaits

/-! ## the ring counts the same -/

/-- The operations a chain of the ring still has to execute. -/
def Ring.operationsLeft (ring : Ring) (index : Nat) : Nat :=
  ((ring.inFlight[index]?).map fun chain => chain.operations.length).getD 0

/-- A chain that `Ring.advance` passes over has none. -/
theorem operationsLeft_eq_zero {ring : Ring} {index : Nat}
    (hnone : ∀ sqe operations cancelled,
      ring.inFlight[index]? ≠ some ⟨sqe :: operations, cancelled⟩) :
    ring.operationsLeft index = 0 := by
  unfold Ring.operationsLeft
  cases hchain : ring.inFlight[index]? with
  | none => rfl
  | some chain =>
      obtain ⟨operations, cancelled⟩ := chain
      cases operations with
      | nil => rfl
      | cons sqe operations => exact absurd hchain (hnone sqe operations cancelled)

theorem operationsLeft_advance (ring : Ring) (index j : Nat) :
    (ring.advance index).operationsLeft j =
      if index = j then ring.operationsLeft j - 1 else ring.operationsLeft j := by
  unfold Ring.advance
  split
  · next sqe operations cancelled hchain =>
    unfold Ring.operationsLeft
    have hindex : index < ring.inFlight.length := (List.getElem?_eq_some_iff.mp hchain).1
    by_cases hj : index = j
    · subst hj
      rw [if_pos rfl, hchain]
      change Option.getD (Option.map _ (List.set _ _ _)[index]?) 0 = _
      rw [List.getElem?_set_self hindex]
      rfl
    · rw [if_neg hj]
      change Option.getD (Option.map _ (List.set _ _ _)[j]?) 0 = _
      rw [List.getElem?_set_ne hj]
  · next hnone =>
    by_cases hj : index = j
    · subst hj
      rw [if_pos rfl]
      rw [operationsLeft_eq_zero hnone]
    · rw [if_neg hj]

/-- The tally of a ring. -/
structure Tally.Of (tally : Tally) (ring : Ring) : Prop where
  left : ∀ j, tally.left j = ring.operationsLeft j
  queue : tally.queue = ring.completionQueue.map fun cqe => cqe.sqe.slot

section Drive

variable {κ : Type} {consumer : Consumer κ} {plan : Plan κ} {tally : Tally} {state : DriveState κ}
  {seen : Nat}

/-- A chain that has an operation left posts one completion, of its own slot. -/
theorem DriveInv.completionQueue_advance (h : DriveInv consumer plan state seen) (index : Nat) :
    (state.ring.advance index).completionQueue.map (fun cqe => cqe.sqe.slot) =
      state.ring.completionQueue.map (fun cqe => cqe.sqe.slot) ++
        if state.ring.operationsLeft index = 0 then [] else [index] := by
  unfold Ring.advance
  split
  · next sqe operations cancelled hchain =>
    have hindex : index < state.ring.inFlight.length := (List.getElem?_eq_some_iff.mp hchain).1
    obtain ⟨i, item, hserves⟩ := Plan.exists_serves (Nat.lt_of_lt_of_le hindex h.length_inFlight)
    obtain ⟨done, todo, reaped, pending, lane⟩ := h.lanes index i item hserves
    obtain ⟨rfl, _⟩ := lane.of_chain hchain
    obtain ⟨hslot, _, _⟩ := of_mem_slotEntries
      (lane.mem_entries (List.mem_append_right _ List.mem_cons_self))
    rw [Ring.operationsLeft, hchain, Option.map_some, Option.getD_some, List.length_cons,
      if_neg (Nat.succ_ne_zero _), List.map_append, List.map_singleton, hslot]
  · next hnone => rw [operationsLeft_eq_zero hnone, if_pos rfl, List.append_nil]

theorem Tally.Of.advance (htally : tally.Of state.ring) (h : DriveInv consumer plan state seen)
    (index : Nat) : (tally.advance index).Of (state.ring.advance index) := by
  have hleft := htally.left index
  unfold Tally.advance
  by_cases hzero : tally.left index = 0
  · rw [if_pos hzero]
    refine ⟨fun j => ?_, ?_⟩
    · rw [operationsLeft_advance, htally.left]
      split
      · next heq =>
        subst heq
        omega
      · rfl
    · rw [h.completionQueue_advance, if_pos (hleft.symm.trans hzero), List.append_nil]
      exact htally.queue
  · rw [if_neg hzero]
    refine ⟨fun j => ?_, ?_⟩
    · rw [operationsLeft_advance]
      split
      · next heq =>
        subst heq
        exact (Function.update_self _ _ _).trans (by rw [hleft])
      · next hne => exact (Function.update_of_ne (Ne.symm hne) _ _).trans (htally.left j)
    · rw [h.completionQueue_advance, if_neg (fun heq => hzero (hleft.trans heq)), htally.queue]

theorem Tally.Of.advances (htally : tally.Of state.ring) (h : DriveInv consumer plan state seen)
    (advances : List Nat) :
    (advances.foldl Tally.advance tally).Of (advances.foldl Ring.advance state.ring) := by
  induction advances generalizing tally state with
  | nil => exact htally
  | cons index advances ih => exact ih (htally.advance h index) (h.advance index)

/-- **The waiting loop reaps what the count says**, and ends the same way. -/
theorem ringWaitLoop_reapWaits (waits : List Wait) (remaining : Nat)
    (h : DriveInv consumer plan state seen) (htally : tally.Of state.ring) :
    (ringWaitLoop consumer plan.slotToItem waits remaining state).1.handled.map
        (fun cqe => cqe.sqe.slot) =
        state.handled.map (fun cqe => cqe.sqe.slot) ++ (reapWaits waits remaining tally).1 ∧
      (ringWaitLoop consumer plan.slotToItem waits remaining state).2 =
        (reapWaits waits remaining tally).2 := by
  induction waits generalizing remaining seen state tally with
  | nil =>
      cases remaining with
      | zero => exact ⟨(List.append_nil _).symm, rfl⟩
      | succ remaining => exact ⟨(List.append_nil _).symm, rfl⟩
  | cons wait waits ih =>
      cases remaining with
      | zero => exact ⟨(List.append_nil _).symm, rfl⟩
      | succ remaining =>
          have hadvanced := h.advances wait.advances
          have htallied := htally.advances h wait.advances
          unfold ringWaitLoop reapWaits
          cases wait.status with
          | error errno =>
              dsimp only
              by_cases hintr : errno = Errno.EINTR
              · rw [if_pos hintr, if_pos hintr]
                exact ih (remaining + 1) hadvanced htallied
              · rw [if_neg hintr, if_neg hintr]
                exact ⟨(List.append_nil _).symm, rfl⟩
          | ok =>
              dsimp only
              have hqueue := htallied.queue
              cases hcompletions : (wait.advances.foldl Ring.advance
                  state.ring).completionQueue with
              | nil =>
                  rw [hcompletions, List.map_nil] at hqueue
                  rw [hqueue]
                  exact ih (remaining + 1) hadvanced htallied
              | cons cqe queue =>
                  rw [hcompletions, List.map_cons] at hqueue
                  rw [hqueue]
                  dsimp only
                  have hhandled := @ringHandleCqe_handled κ consumer plan.slotToItem
                    { state with ring := wait.advances.foldl Ring.advance state.ring } cqe
                  obtain ⟨hreaped, hend⟩ := @ih
                    ⟨(wait.advances.foldl Tally.advance tally).left,
                      queue.map fun cqe => cqe.sqe.slot⟩ _ (seen + 1) remaining
                    (hadvanced.handle hcompletions)
                    ⟨fun j => by
                        rw [hhandled.2]
                        exact htallied.left j, rfl⟩
                  refine ⟨?_, hend⟩
                  rw [hreaped, hhandled.1, List.map_append, List.append_assoc]
                  rfl

theorem Lane.operationsLeft {j i : Nat} {item : BatchItem κ} {done todo : List Sqe}
    {reaped pending : List Cqe}
    (h : Lane consumer plan state j i item done todo reaped pending) :
    state.ring.operationsLeft j = todo.length := by
  unfold Ring.operationsLeft
  cases h.chain_eq with
  | inl hchain => rw [hchain, Option.map_some, Option.getD_some]
  | inr hnone => rw [hnone.1, hnone.2, Option.map_none, Option.getD_none, List.length_nil]

/-- The tally of a chunk just submitted. -/
theorem tally_submit {ring : Ring} (hquiet : ring.Quiescent) (items : List (BatchItem κ))
    (accepted : Nat) :
    Tally.Of
      ⟨fun j => min 4 (min accepted (4 * (fittingItems 0 items).length) - 4 * j), []⟩
      (({ ring with submissionQueue := (chunkEntries ring.driven 0 0 items).flatten } :
        Ring).submit accepted) := by
  let plan : Plan κ := ⟨ring.driven, items, ring.slots, accepted⟩
  have hstart : DriveInv (fun context _ => (context, true)) plan _ 0 :=
    driveInv_submit hquiet items accepted
  have hqueue : ring.completionQueue = [] := hquiet.completionQueue
  refine ⟨fun j => ?_, by rw [Ring.submit, hqueue]; rfl⟩
  by_cases hj : j < (fittingItems 0 items).length
  · obtain ⟨i, item, hserves⟩ := @Plan.exists_serves κ plan j hj
    obtain ⟨done, todo, reaped, pending, lane⟩ := hstart.lanes j i item hserves
    have hleft := lane.operationsLeft
    dsimp only at hleft ⊢
    rw [hleft]
    have hreaped : reaped = [] := lane.handled_eq.symm
    have hpending : pending = [] := by
      rw [← lane.queue_eq]
      simp [Ring.submit, hqueue]
    have hdone := congrArg List.length lane.completions
    rw [hreaped, hpending, Progress.length_completions] at hdone
    have hoperations := congrArg List.length lane.operations
    have hfour : (slotEntries ⟨plan.chunk, i⟩ j item).length = 4 := rfl
    have haccepted : plan.accepted = accepted := rfl
    rw [List.length_take, List.length_append, hdone, hfour, haccepted, List.append_nil,
      List.length_nil, Nat.zero_add] at hoperations
    omega
  · have hnone : (({ ring with submissionQueue :=
        (chunkEntries ring.driven 0 0 items).flatten } : Ring).submit accepted).inFlight[j]? =
          none := by
      have hle := hstart.length_inFlight
      rw [List.getElem?_eq_none_iff]
      exact Nat.le_trans hle (Nat.not_lt.mp hj)
    rw [Ring.operationsLeft, hnone, Option.map_none, Option.getD_none]
    dsimp only
    omega

/-- **Driving a chunk on a quiescent ring** reaps what its script says, and
ends as it says. -/
theorem ringDriveChunk_reaps (script : ChunkScript) {ring : Ring} (hquiet : ring.Quiescent)
    {items : List (BatchItem κ)} (hlen : items.length ≤ readerRingSlotCount) :
    (ringDriveChunk consumer script ring items).state.handled.map (fun cqe => cqe.sqe.slot) =
        (script.reaps (fittingItems 0 items).length).1 ∧
      (ringDriveChunk consumer script ring items).driven =
        (script.reaps (fittingItems 0 items).length).2 := by
  unfold ringDriveChunk ChunkScript.reaps
  rw [ringPrepareChunk_quiescent script hquiet hlen]
  dsimp only
  rw [if_neg (by decide)]
  split
  · exact ⟨rfl, rfl⟩
  · cases script.submitStatus with
    | error errno => exact ⟨rfl, rfl⟩
    | ok accepted =>
        dsimp only
        have hstart : DriveInv consumer _ _ 0 := driveInv_submit hquiet items accepted
        exact ringWaitLoop_reapWaits script.waits _ hstart (tally_submit hquiet items accepted)

/-- **An item that has a slot** is untouched up to the completion that decides
it, which its chunk may not reap. -/
theorem item_ringDriveChunk (script : ChunkScript) {ring : Ring} (hquiet : ring.Quiescent)
    {items : List (BatchItem κ)} (hlen : items.length ≤ readerRingSlotCount)
    (hfresh : ∀ item ∈ items, Fresh item) {j i : Nat} {item : BatchItem κ}
    (hslot : (fittingItems 0 items)[j]? = some i) (hitem : items[i]? = some item)
    (hfits : ringFitsInSlot item = true) :
    (ringDriveChunk consumer script ring items).state.items[i]? =
      some (if (script.reaps (fittingItems 0 items).length).1.count j ≤
        (ringVerdict item.view item.fileSize).code then item else ringServed consumer item) := by
  have hsome : fittingItems 0 items ≠ [] := by
    intro hnone
    rw [hnone] at hslot
    cases hslot
  rw [← (ringDriveChunk_reaps script hquiet hlen).1]
  cases hsubmit : script.submitStatus with
  | error errno =>
      obtain ⟨ring', _, hdrive⟩ :=
        @ringDriveChunk_submit_error κ consumer script ring hquiet items hlen hsome errno hsubmit
      rw [hdrive]
      exact hitem
  | ok accepted =>
      obtain ⟨_, _, seen, hinv, _⟩ :=
        @driveInv_ringDriveChunk κ consumer script ring hquiet items hlen hsome accepted hsubmit
      rw [hinv.item_eq hfresh ⟨hslot, hitem⟩ hfits, List.count_eq_countP, List.countP_map,
        List.countP_eq_length_filter]
      rfl

end Drive

end BcDuplicate
