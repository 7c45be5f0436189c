import BcDuplicate.Worker.Full
import BcDuplicate.Worker.Resources

/-!
# BcDuplicate.Worker.Released

The full pass and what it acquires, from its first call to the end of the workers
(`bc_duplicate_worker_full_pass` in `src/worker/bc_duplicate_worker_full.c`).

The iterations run in the order and on the workers the schedule says; the calls of
one are those of `fullEnsureSlotActs` for the slot of its worker.  The slots are
destroyed afterwards, each once, with the workers they belong to.

* `run_workerFullRunActs` and `run_workerFullLoopActs` — what is held stays in step
  with the slots over any number of iterations;
* `full_pass_releases` — nothing is released twice, and all that is left at the end
  is the memory of one ring for each worker whose slot got one.
-/

namespace BcDuplicate

open Resources
open Sorting
open Updates

/-! ## the pass -/

/-- The pass before its first iteration. -/
def FullHandles.started : FullHandles := ⟨true, fun _ => .zeroed⟩

section Pass

variable (env : FullEnvironment) (answers : Nat → SlotAnswers)

/-- `bc_duplicate_worker_full_iter`, run as the `turn`-th on `worker`. -/
def workerFullIterActs (turn worker : Nat) (handles : FullHandles) :
    FullHandles × List (Act FullResource) :=
  if env.shouldStop turn then (handles, [])
  else
    let (slot, acts) := fullEnsureSlotActs (answers turn) worker turn (handles.slots worker)
    (handles.setSlot worker slot, acts)

/-- The iterations in their order. -/
def workerFullRunActs :
    Nat → List (Nat × Nat) → FullHandles → FullHandles × List (Act FullResource)
  | _, [], handles => (handles, [])
  | turn, (_, worker) :: rest, handles =>
      let (handles, acts) := workerFullIterActs env answers turn worker handles
      let (handles, more) := workerFullRunActs (turn + 1) rest handles
      (handles, acts ++ more)

/-- The single-thread loop. -/
def workerFullLoopActs : Nat → List Nat → FullHandles → FullHandles × List (Act FullResource)
  | _, [], handles => (handles, [])
  | turn, _ :: rest, handles =>
      if env.loopShouldStop turn then (handles, [])
      else
        let (handles, acts) := workerFullIterActs env answers turn 0 handles
        let (handles, more) := workerFullLoopActs (turn + 1) rest handles
        (handles, acts ++ more)

/-- The iterations of a pass of `batchCount` batches. -/
def workerFullIterationsActs (forceSingleThread : Bool) (batchCount : Nat)
    (handles : FullHandles) : FullHandles × List (Act FullResource) :=
  if forceSingleThread then workerFullLoopActs env answers 0 (List.range batchCount) handles
  else workerFullRunActs env answers 0 (env.schedule.run batchCount) handles

/-- `bc_duplicate_worker_full_pass`, where its iterations return. -/
def workerFullPassActs (sort : SortFn) (entries : List FileEntry) (groups : List Group)
    (forceSingleThread : Bool) : FullHandles × List (Act FullResource) :=
  if totalCandidates groups = 0 then (.empty, [])
  else if env.allocatesIndices = false then (.empty, [])
  else
    let indices := workerSortIndicesBySizeDesc sort entries (candidateIndices groups)
    if env.registersSlot = false then
      (.empty, [.acquire .candidateIndices, .release .candidateIndices])
    else
      let (handles, acts) := workerFullIterationsActs env answers forceSingleThread
        (pieceCount fullBatchItemCapacity indices) .started
      ({ handles with candidateIndices := false },
        .acquire .candidateIndices :: (acts ++ [.release .candidateIndices]))

end Pass

/-- The end of workers: the slot of each is destroyed. -/
def fullDestroySlotsActs : List Nat → FullHandles → FullHandles × List (Act FullResource)
  | [], handles => (handles, [])
  | worker :: rest, handles =>
      let (slot, acts) := fullDestroySlotActs worker (handles.slots worker)
      let (handles, more) := fullDestroySlotsActs rest (handles.setSlot worker slot)
      (handles, acts ++ more)

/-- The entries and the slots that `workerFullPass` leaves.  `none`: one of its
iterations never returns. -/
def workerFullPassState (lib : HashLibrary) (sort : SortFn) (env : FullEnvironment)
    (algorithm : Algorithm) (entries : List FileEntry) (groups : List Group)
    (forceSingleThread : Bool) : Option (FullState lib) :=
  let state : FullState lib := ⟨entries, fun _ => .zeroed lib⟩
  if totalCandidates groups = 0 then some state
  else if env.allocatesIndices = false then some state
  else
    let indices := workerSortIndicesBySizeDesc sort entries (candidateIndices groups)
    if env.registersSlot = false then some state
    else
      let batchCount := pieceCount fullBatchItemCapacity indices
      if forceSingleThread then
        workerFullLoop env algorithm indices 0 (List.range batchCount) state
      else workerFullRun env algorithm indices 0 (env.schedule.run batchCount) state

/-! ## one slot among the others -/

section OneSlot

variable (handles : FullHandles) (worker : Nat)

theorem apart_apart : Apart worker (handles.apart worker) := by
  intro r hr
  cases r with
  | candidateIndices => cases hr
  | ring w | queue w | xxhState w =>
    obtain rfl := Option.some.inj hr
    simp [FullHandles.apart]

theorem held_setSlot_eq (slot : SlotHandles) :
    (handles.setSlot worker slot).held = slot.beside worker (handles.apart worker) :=
  funext (held_setSlot handles worker slot)

theorem held_eq_beside :
    handles.held = (handles.slots worker).beside worker (handles.apart worker) := by
  rw [← held_setSlot_eq, FullHandles.setSlot_self]

end OneSlot

/-- The slots are from turns before this one. -/
def FullHandles.Before (turn : Nat) (handles : FullHandles) : Prop :=
  ∀ worker, (handles.slots worker).Before turn

theorem FullHandles.before_zeroed (candidateIndices : Bool) (turn : Nat) :
    FullHandles.Before turn ⟨candidateIndices, fun _ => .zeroed⟩ :=
  fun _ => SlotHandles.before_zeroed turn

theorem FullHandles.Before.setSlot {turn worker : Nat} {handles : FullHandles}
    {slot : SlotHandles} (hhandles : handles.Before turn) (hslot : slot.Before turn) :
    (handles.setSlot worker slot).Before turn := by
  intro other
  by_cases hother : other = worker
  · rw [hother, FullHandles.slots_setSlot_self]
    exact hslot
  · rw [FullHandles.slots_setSlot_of_ne _ _ _ hother]
    exact hhandles other

/-! ## the iterations -/

section Iterations

variable (env : FullEnvironment) (answers : Nat → SlotAnswers)

theorem FullHandles.Before.mono {turn later : Nat} {handles : FullHandles}
    (hhandles : handles.Before turn) (hle : turn ≤ later) : handles.Before later :=
  fun worker => (hhandles worker).mono hle

theorem workerFullIterActs_before (worker : Nat) {turn : Nat} {handles : FullHandles}
    (hhandles : handles.Before turn) :
    (workerFullIterActs env answers turn worker handles).1.Before (turn + 1) := by
  have hlater := hhandles.mono (Nat.le_succ turn)
  unfold workerFullIterActs
  by_cases hstop : env.shouldStop turn = true
  · rw [if_pos hstop]
    exact hlater
  · rw [if_neg hstop]
    exact hlater.setSlot (fullEnsureSlotActs_before (answers turn) (hhandles worker))

/-- **One iteration keeps what is held in step with the slots.** -/
theorem run_workerFullIterActs (worker : Nat) {turn : Nat} {handles : FullHandles}
    (hhandles : handles.Before turn) :
    run (workerFullIterActs env answers turn worker handles).2 handles.held =
      some (workerFullIterActs env answers turn worker handles).1.held := by
  unfold workerFullIterActs
  by_cases hstop : env.shouldStop turn = true
  · rw [if_pos hstop]
    rfl
  · rw [if_neg hstop]
    dsimp only
    rw [held_setSlot_eq, held_eq_beside handles worker]
    exact run_fullEnsureSlotActs (answers turn) (apart_apart handles worker) (hhandles worker)

/-- The iterations in any order, on any workers. -/
theorem run_workerFullRunActs (order : List (Nat × Nat)) {turn : Nat} {handles : FullHandles}
    (hhandles : handles.Before turn) :
    run (workerFullRunActs env answers turn order handles).2 handles.held =
        some (workerFullRunActs env answers turn order handles).1.held ∧
      (workerFullRunActs env answers turn order handles).1.Before (turn + order.length) := by
  induction order generalizing turn handles with
  | nil => exact ⟨rfl, hhandles⟩
  | cons step order ih =>
    obtain ⟨iterationIndex, worker⟩ := step
    obtain ⟨hrest, hbefore⟩ := ih (workerFullIterActs_before env answers worker hhandles)
    refine ⟨run_append_eq (run_workerFullIterActs env answers worker hhandles) hrest, ?_⟩
    rw [List.length_cons, ← Nat.succ_add_eq_add_succ]
    exact hbefore

/-- The iterations of the single-thread loop, as far as it goes. -/
theorem run_workerFullLoopActs (batches : List Nat) {turn : Nat} {handles : FullHandles}
    (hhandles : handles.Before turn) :
    run (workerFullLoopActs env answers turn batches handles).2 handles.held =
        some (workerFullLoopActs env answers turn batches handles).1.held ∧
      (workerFullLoopActs env answers turn batches handles).1.Before (turn + batches.length) := by
  induction batches generalizing turn handles with
  | nil => exact ⟨rfl, hhandles⟩
  | cons batch batches ih =>
    unfold workerFullLoopActs
    by_cases hstop : env.loopShouldStop turn = true
    · rw [if_pos hstop]
      exact ⟨rfl, hhandles.mono (Nat.le_add_right turn _)⟩
    · rw [if_neg hstop]
      obtain ⟨hrest, hbefore⟩ := ih (workerFullIterActs_before env answers 0 hhandles)
      refine ⟨run_append_eq (run_workerFullIterActs env answers 0 hhandles) hrest, ?_⟩
      rw [List.length_cons, ← Nat.succ_add_eq_add_succ]
      exact hbefore

/-! ### what the iterations leave alone -/

theorem candidateIndices_workerFullIterActs (turn worker : Nat) (handles : FullHandles) :
    (workerFullIterActs env answers turn worker handles).1.candidateIndices =
      handles.candidateIndices := by
  unfold workerFullIterActs
  split <;> rfl

theorem slots_workerFullIterActs_of_ne (turn : Nat) {worker other : Nat} (hother : other ≠ worker)
    (handles : FullHandles) :
    (workerFullIterActs env answers turn worker handles).1.slots other = handles.slots other := by
  unfold workerFullIterActs
  by_cases hstop : env.shouldStop turn = true
  · rw [if_pos hstop]
  · rw [if_neg hstop]
    exact handles.slots_setSlot_of_ne _ _ hother

/-- The array of indices is the pass's own, and so are the slots of other workers. -/
theorem workerFullRunActs_frame (order : List (Nat × Nat)) (turn : Nat) (handles : FullHandles) :
    (workerFullRunActs env answers turn order handles).1.candidateIndices =
        handles.candidateIndices ∧
      ∀ other, (∀ step ∈ order, step.2 ≠ other) →
        (workerFullRunActs env answers turn order handles).1.slots other =
          handles.slots other := by
  induction order generalizing turn handles with
  | nil => exact ⟨rfl, fun _ _ => rfl⟩
  | cons step order ih =>
    obtain ⟨iterationIndex, worker⟩ := step
    obtain ⟨hindices, hslots⟩ :=
      ih (turn + 1) (workerFullIterActs env answers turn worker handles).1
    refine ⟨hindices.trans (candidateIndices_workerFullIterActs env answers turn worker handles),
      fun other hother => ?_⟩
    obtain ⟨hne, hrest⟩ := List.forall_mem_cons.mp hother
    exact (hslots other hrest).trans
      (slots_workerFullIterActs_of_ne env answers turn (Ne.symm hne) handles)

theorem workerFullLoopActs_frame (batches : List Nat) (turn : Nat) (handles : FullHandles) :
    (workerFullLoopActs env answers turn batches handles).1.candidateIndices =
        handles.candidateIndices ∧
      ∀ other, other ≠ 0 →
        (workerFullLoopActs env answers turn batches handles).1.slots other =
          handles.slots other := by
  induction batches generalizing turn handles with
  | nil => exact ⟨rfl, fun _ _ => rfl⟩
  | cons batch batches ih =>
    unfold workerFullLoopActs
    by_cases hstop : env.loopShouldStop turn = true
    · rw [if_pos hstop]
      exact ⟨rfl, fun _ _ => rfl⟩
    · rw [if_neg hstop]
      obtain ⟨hindices, hslots⟩ := ih (turn + 1) (workerFullIterActs env answers turn 0 handles).1
      exact ⟨hindices.trans (candidateIndices_workerFullIterActs env answers turn 0 handles),
        fun other hother => (hslots other hother).trans
          (slots_workerFullIterActs_of_ne env answers turn hother handles)⟩

end Iterations

/-! ## the slots of the pass -/

section Agreement

variable {lib : HashLibrary}

/-- The pointers are set where the slot says that they are. -/
structure SlotHandles.Agrees (handles : SlotHandles) (slot : FullSlot lib) : Prop where
  ringInitialised : handles.ringInitialised = slot.ringInitialised
  xxhStatesReady : handles.xxhStates.isSome = slot.xxhStatesReady

section Ensure

variable (answers : SlotAnswers) (worker turn : Nat)

theorem fullEnsureRingActs_fst :
    (fullEnsureRingActs answers worker turn).1 =
      (answers.attempt.ringAllocated && answers.attempt.ringInitialised) := by
  unfold fullEnsureRingActs readerRingInitActs SlotAnswers.attempt
  cases answers.allocatesRing <;> cases answers.initialisesQueue <;>
    cases answers.registersFiles <;> rfl

theorem fullCreateStatesActs_fst (stateIndex remaining : Nat) :
    (fullCreateStatesActs answers worker turn stateIndex remaining).1 =
      (List.range' stateIndex remaining).all answers.createsState := by
  induction remaining generalizing stateIndex with
  | zero => rfl
  | succ remaining ih =>
    rw [fullCreateStatesActs, List.range'_succ, List.all_cons]
    cases hcreates : answers.createsState stateIndex with
    | false => rfl
    | true => exact ih (stateIndex + 1)

/-- The branch that makes the hash states makes all of them or none. -/
theorem fullEnsureStatesActs_fst (handles : SlotHandles) :
    (fullEnsureStatesActs answers worker turn handles).1.ringInitialised =
        handles.ringInitialised ∧
      (fullEnsureStatesActs answers worker turn handles).1.xxhStates.isSome =
        (handles.xxhStates.isSome || answers.attempt.statesCreated) := by
  have hcreated : (fullCreateStatesActs answers worker turn 0 fullBatchItemCapacity).1 =
      answers.attempt.statesCreated := by
    rw [fullCreateStatesActs_fst, ← List.range_eq_range']
    rfl
  obtain ⟨ring, initialised, xxhStates⟩ := handles
  rw [← hcreated]
  cases xxhStates with
  | some made => exact ⟨rfl, rfl⟩
  | none =>
    simp only [fullEnsureStatesActs]
    generalize fullCreateStatesActs answers worker turn 0 fullBatchItemCapacity = created
    obtain ⟨ok, acts⟩ := created
    cases ok <;> exact ⟨rfl, rfl⟩

theorem fullEnsureStatesActs_agrees {handles : SlotHandles} {slot : FullSlot lib}
    (h : handles.Agrees slot) :
    (fullEnsureStatesActs answers worker turn handles).1.Agrees
      (if slot.xxhStatesReady then (slot, true)
      else if answers.attempt.statesCreated = false then (slot, false)
      else
        ({ slot with
          xxhStates := List.replicate fullBatchItemCapacity lib.createState
          xxhStatesReady := true }, true)).1 := by
  obtain ⟨hring, hready⟩ := fullEnsureStatesActs_fst answers worker turn handles
  rw [h.ringInitialised] at hring
  rw [h.xxhStatesReady] at hready
  cases hslot : slot.xxhStatesReady with
  | true => exact ⟨hring, by rw [hready, hslot]; exact hslot.symm⟩
  | false =>
    cases hcreated : answers.attempt.statesCreated with
    | false => exact ⟨hring, by rw [hready, hslot, hcreated]; exact hslot.symm⟩
    | true => exact ⟨hring, by rw [hready, hslot, hcreated]; rfl⟩

/-- **Making a slot ready leaves the pointers as the slot says.** -/
theorem fullEnsureSlotActs_agrees {handles : SlotHandles} {slot : FullSlot lib}
    (h : handles.Agrees slot) :
    (fullEnsureSlotActs answers worker turn handles).1.Agrees
      (fullEnsureSlot answers.attempt slot).1 := by
  have hmade := fullEnsureRingActs_fst answers worker turn
  have hslotExists : answers.attempt.slotExists = answers.slotExists := rfl
  unfold fullEnsureSlotActs fullEnsureSlot
  rw [hslotExists]
  by_cases hexists : answers.slotExists = false
  · rw [if_pos hexists, if_pos hexists]
    exact h
  · rw [if_neg hexists, if_neg hexists, h.ringInitialised]
    cases hinitialised : slot.ringInitialised with
    | true =>
      rw [if_pos rfl, if_neg (fun hnot => Bool.noConfusion hnot.1), if_pos rfl]
      exact fullEnsureStatesActs_agrees answers worker turn h
    | false =>
      rw [if_neg Bool.false_ne_true, if_neg Bool.false_ne_true]
      generalize fullEnsureRingActs answers worker turn = made at hmade
      obtain ⟨ok, acts⟩ := made
      cases ok with
      | false =>
        have hfails : false = false ∧ (answers.attempt.ringAllocated = false ∨
            answers.attempt.ringInitialised = false) := by
          rw [← Bool.and_eq_false_iff, ← hmade]
          exact ⟨rfl, rfl⟩
        rw [if_pos hfails]
        exact ⟨hinitialised.symm, h.xxhStatesReady⟩
      | true =>
        have hworks : ¬(false = false ∧ (answers.attempt.ringAllocated = false ∨
            answers.attempt.ringInitialised = false)) := by
          rw [← Bool.and_eq_false_iff, ← hmade]
          exact fun hnot => Bool.noConfusion hnot.2
        rw [if_neg hworks]
        have hring : SlotHandles.Agrees { handles with ring := some turn, ringInitialised := true }
            { slot with ring := Ring.init, ringInitialised := true } := ⟨rfl, h.xxhStatesReady⟩
        exact fullEnsureStatesActs_agrees answers worker turn hring

end Ensure

/-- The pointers of the pass are those of its slots. -/
def FullHandles.Agrees (handles : FullHandles) (slots : Nat → FullSlot lib) : Prop :=
  ∀ worker, (handles.slots worker).Agrees (slots worker)

theorem FullHandles.Agrees.update {handles : FullHandles} {slots : Nat → FullSlot lib}
    (h : handles.Agrees slots) {worker : Nat} {made : SlotHandles} {slot : FullSlot lib}
    (hslot : made.Agrees slot) :
    (handles.setSlot worker made).Agrees (Function.update slots worker slot) := by
  intro other
  by_cases hother : other = worker
  · rw [hother, FullHandles.slots_setSlot_self, Function.update_self]
    exact hslot
  · rw [FullHandles.slots_setSlot_of_ne _ _ _ hother, Function.update_of_ne hother]
    exact h other

theorem FullHandles.agrees_zeroed (candidateIndices : Bool) :
    FullHandles.Agrees ⟨candidateIndices, fun _ => .zeroed⟩ fun _ => FullSlot.zeroed lib :=
  fun _ => ⟨rfl, rfl⟩

section Iterations

variable {env : FullEnvironment} {answers : Nat → SlotAnswers}
  (hattempt : ∀ turn, env.attempt turn = (answers turn).attempt)
  (algorithm : Algorithm) (indices : List Nat)
include hattempt

theorem workerFullIterActs_agrees (turn iterationIndex worker : Nat) {handles : FullHandles}
    {state : FullState lib} (h : handles.Agrees state.slots) :
    (workerFullIterActs env answers turn worker handles).1.Agrees
      (workerFullIter env algorithm indices turn iterationIndex worker state).1.slots := by
  have hensured := fullEnsureSlotActs_agrees (answers turn) worker turn (h worker)
  rw [← hattempt turn] at hensured
  unfold workerFullIterActs workerFullIter
  by_cases hstop : env.shouldStop turn = true
  · rw [if_pos hstop, if_pos hstop]
    exact h
  · rw [if_neg hstop, if_neg hstop]
    generalize fullEnsureSlot (env.attempt turn) (state.slots worker) = ensured at hensured
    obtain ⟨slot, ready⟩ := ensured
    cases ready with
    | false => exact h.update hensured
    | true =>
      dsimp only
      split
      · exact h.update hensured
      · exact h.update ⟨hensured.ringInitialised, hensured.xxhStatesReady⟩

/-- A run that returns leaves the pointers as its slots say. -/
theorem workerFullRunActs_agrees (order : List (Nat × Nat)) {turn : Nat} {handles : FullHandles}
    {state final : FullState lib} (h : handles.Agrees state.slots)
    (hreturns : workerFullRun env algorithm indices turn order state = some final) :
    (workerFullRunActs env answers turn order handles).1.Agrees final.slots := by
  induction order generalizing turn handles state with
  | nil =>
    obtain rfl := Option.some.inj hreturns
    exact h
  | cons step order ih =>
    obtain ⟨iterationIndex, worker⟩ := step
    have hnext := workerFullIterActs_agrees hattempt algorithm indices turn iterationIndex worker h
    rw [workerFullRun] at hreturns
    generalize workerFullIter env algorithm indices turn iterationIndex worker state = next
      at hnext hreturns
    obtain ⟨next, returned⟩ := next
    cases returned with
    | false => cases hreturns
    | true => exact ih hnext hreturns

theorem workerFullLoopActs_agrees (batches : List Nat) {turn : Nat} {handles : FullHandles}
    {state final : FullState lib} (h : handles.Agrees state.slots)
    (hreturns : workerFullLoop env algorithm indices turn batches state = some final) :
    (workerFullLoopActs env answers turn batches handles).1.Agrees final.slots := by
  induction batches generalizing turn handles state with
  | nil =>
    obtain rfl := Option.some.inj hreturns
    exact h
  | cons batch batches ih =>
    have hnext := workerFullIterActs_agrees hattempt algorithm indices turn batch 0 h
    rw [workerFullLoop] at hreturns
    unfold workerFullLoopActs
    by_cases hstop : env.loopShouldStop turn = true
    · rw [if_pos hstop] at hreturns ⊢
      obtain rfl := Option.some.inj hreturns
      exact h
    · rw [if_neg hstop] at hreturns ⊢
      generalize workerFullIter env algorithm indices turn batch 0 state = next at hnext hreturns
      obtain ⟨next, returned⟩ := next
      cases returned with
      | false => cases hreturns
      | true => exact ih hnext hreturns

end Iterations

end Agreement

/-! ## the end of the workers -/

/-- Destroying slots, each once, keeps what is held in step with them: their rings
are left. -/
theorem run_fullDestroySlotsActs {workers : List Nat} (hnodup : workers.Nodup) {turn : Nat}
    {handles : FullHandles} (hhandles : ∀ worker ∈ workers, (handles.slots worker).Before turn) :
    run (fullDestroySlotsActs workers handles).2 handles.held =
        some (fullDestroySlotsActs workers handles).1.held ∧
      (fullDestroySlotsActs workers handles).1.candidateIndices = handles.candidateIndices ∧
      ∀ worker, (fullDestroySlotsActs workers handles).1.slots worker =
        if worker ∈ workers then ⟨(handles.slots worker).ring, false, none⟩
        else handles.slots worker := by
  induction workers generalizing handles with
  | nil => exact ⟨rfl, rfl, fun _ => (if_neg List.not_mem_nil).symm⟩
  | cons worker workers ih =>
    obtain ⟨hnew, hnodup⟩ := List.nodup_cons.mp hnodup
    obtain ⟨hslot, hothers⟩ := List.forall_mem_cons.mp hhandles
    have hne : ∀ other ∈ workers, other ≠ worker := fun other hother h => hnew (h ▸ hother)
    have hfirst : run (fullDestroySlotActs worker (handles.slots worker)).2 handles.held =
        some (handles.setSlot worker
          (fullDestroySlotActs worker (handles.slots worker)).1).held := by
      rw [held_setSlot_eq, held_eq_beside handles worker]
      exact run_fullDestroySlotActs (apart_apart handles worker) hslot
    have hrest : ∀ other ∈ workers, ((handles.setSlot worker
        (fullDestroySlotActs worker (handles.slots worker)).1).slots other).Before turn := by
      intro other hother
      rw [FullHandles.slots_setSlot_of_ne _ _ _ (hne other hother)]
      exact hothers other hother
    obtain ⟨hrun, hindices, hslots⟩ := ih hnodup hrest
    refine ⟨run_append_eq hfirst hrun, hindices, fun other => (hslots other).trans ?_⟩
    by_cases hother : other = worker
    · subst hother
      rw [if_neg hnew, if_pos List.mem_cons_self, FullHandles.slots_setSlot_self,
        fullDestroySlotActs_eq hslot]
    · rw [FullHandles.slots_setSlot_of_ne _ _ _ hother]
      simp only [List.mem_cons, hother, false_or]

/-! ## the whole pass -/

/-- What a pass leaves to the end of its workers: their slots. -/
structure FullHandles.Left (workerCount : Nat) (handles : FullHandles) : Prop where
  candidateIndices : handles.candidateIndices = false
  before : ∃ turn, handles.Before turn
  beyond : ∀ worker, workerCount ≤ worker → handles.slots worker = .zeroed

theorem FullHandles.left_empty (workerCount : Nat) : FullHandles.empty.Left workerCount :=
  ⟨rfl, ⟨0, before_zeroed false 0⟩, fun _ _ => rfl⟩

theorem held_empty : FullHandles.empty.held = nothing := by
  funext r
  cases r <;> rfl

theorem run_acquire_candidateIndices :
    run [.acquire .candidateIndices] nothing = some FullHandles.started.held := by
  refine run_acquire rfl fun r => ?_
  cases r <;> rfl

theorem run_release_candidateIndices {handles : FullHandles}
    (hindices : handles.candidateIndices = true) :
    run [.release .candidateIndices] handles.held =
      some { handles with candidateIndices := false }.held := by
  refine run_release rfl fun r => ?_
  cases r with
  | candidateIndices => exact hindices
  | _ => rfl

section Whole

variable {env : FullEnvironment} (answers : Nat → SlotAnswers) {workerCount : Nat}
  (hmain : 0 < workerCount)
  (hworkers : ∀ count, ∀ step ∈ env.schedule.run count, step.2 < workerCount)
include hmain hworkers

theorem run_workerFullIterationsActs (forceSingleThread : Bool) (batchCount : Nat) :
    run (workerFullIterationsActs env answers forceSingleThread batchCount .started).2
        FullHandles.started.held =
        some (workerFullIterationsActs env answers forceSingleThread batchCount .started).1.held ∧
      (workerFullIterationsActs env answers forceSingleThread batchCount
        .started).1.candidateIndices = true ∧
      FullHandles.Left workerCount
        { (workerFullIterationsActs env answers forceSingleThread batchCount .started).1 with
          candidateIndices := false } := by
  have hstarted := FullHandles.before_zeroed true 0
  cases forceSingleThread with
  | true =>
    obtain ⟨hrun, hbefore⟩ :=
      run_workerFullLoopActs env answers (List.range batchCount) hstarted
    obtain ⟨hindices, hslots⟩ :=
      workerFullLoopActs_frame env answers (List.range batchCount) 0 .started
    refine ⟨hrun, hindices, rfl, ⟨_, hbefore⟩, fun worker hworker => ?_⟩
    exact hslots worker (hmain.trans_le hworker).ne'
  | false =>
    obtain ⟨hrun, hbefore⟩ :=
      run_workerFullRunActs env answers (env.schedule.run batchCount) hstarted
    obtain ⟨hindices, hslots⟩ :=
      workerFullRunActs_frame env answers (env.schedule.run batchCount) 0 .started
    refine ⟨hrun, hindices, rfl, ⟨_, hbefore⟩, fun worker hworker => ?_⟩
    exact hslots worker fun step hstep => ((hworkers _ step hstep).trans_le hworker).ne

/-- **The calls of the pass are all right**, and the array of indices is released. -/
theorem run_workerFullPassActs (sort : SortFn) (entries : List FileEntry) (groups : List Group)
    (forceSingleThread : Bool) :
    run (workerFullPassActs env answers sort entries groups forceSingleThread).2 nothing =
        some (workerFullPassActs env answers sort entries groups forceSingleThread).1.held ∧
      (workerFullPassActs env answers sort entries groups forceSingleThread).1.Left
        workerCount := by
  have hempty := FullHandles.left_empty workerCount
  unfold workerFullPassActs
  by_cases hcandidates : totalCandidates groups = 0
  · rw [if_pos hcandidates, held_empty]
    exact ⟨rfl, hempty⟩
  · rw [if_neg hcandidates]
    by_cases hallocates : env.allocatesIndices = false
    · rw [if_pos hallocates, held_empty]
      exact ⟨rfl, hempty⟩
    · rw [if_neg hallocates]
      by_cases hregisters : env.registersSlot = false
      · rw [if_pos hregisters]
        exact ⟨run_append_eq run_acquire_candidateIndices (run_release_candidateIndices rfl),
          hempty⟩
      · rw [if_neg hregisters]
        obtain ⟨hrun, hindices, hleft⟩ := run_workerFullIterationsActs answers hmain hworkers
          forceSingleThread (pieceCount fullBatchItemCapacity
            (workerSortIndicesBySizeDesc sort entries (candidateIndices groups)))
        generalize workerFullIterationsActs env answers forceSingleThread _ .started = iterated
          at hrun hindices hleft
        have hcalls := run_append_eq run_acquire_candidateIndices
          (run_append_eq hrun (run_release_candidateIndices hindices))
        exact ⟨hcalls, hleft⟩

end Whole

/-- **All that is left when the slots are destroyed is the rings.** -/
theorem run_destroyed {workerCount : Nat} {handles : FullHandles}
    (hleft : handles.Left workerCount) :
    run (fullDestroySlotsActs (List.range workerCount) handles).2 handles.held =
        some (fullDestroySlotsActs (List.range workerCount) handles).1.held ∧
      ∀ r, (fullDestroySlotsActs (List.range workerCount) handles).1.held r = true ↔
        ∃ worker made, r = .ring worker made ∧ (handles.slots worker).ring = some made := by
  obtain ⟨turn, hbefore⟩ := hleft.before
  obtain ⟨hrun, hindices, hslots⟩ :=
    run_fullDestroySlotsActs List.nodup_range fun worker _ => hbefore worker
  -- a worker beyond the last has the zeroed slot it began with
  have hslot : ∀ worker, (fullDestroySlotsActs (List.range workerCount) handles).1.slots worker =
      ⟨(handles.slots worker).ring, false, none⟩ := by
    intro worker
    by_cases hworker : worker < workerCount
    · rw [hslots, if_pos (List.mem_range.mpr hworker)]
    · rw [hslots, if_neg (mt List.mem_range.mp hworker),
        hleft.beyond worker (Nat.le_of_not_lt hworker)]
      rfl
  refine ⟨hrun, fun r => ?_⟩
  cases r with
  | candidateIndices =>
    rw [FullHandles.held, hindices, hleft.candidateIndices]
    simp
  | ring worker made =>
    rw [FullHandles.held, hslot, decide_eq_true_iff]
    simp
  | queue worker made =>
    rw [FullHandles.held, hslot, Bool.and_false]
    simp
  | xxhState worker made index =>
    rw [FullHandles.held, hslot, decide_eq_false (Option.some_ne_none made).symm]
    simp

section Returns

variable {lib : HashLibrary} {sort : SortFn} {env : FullEnvironment} {algorithm : Algorithm}
  {entries : List FileEntry} {groups : List Group} {forceSingleThread : Bool}

/-- A pass that returns leaves entries and slots. -/
theorem exists_state_of_returns
    (hreturns : workerFullPass lib sort env algorithm entries groups forceSingleThread ≠
      .blocked) :
    ∃ state : FullState lib,
      workerFullPassState lib sort env algorithm entries groups forceSingleThread =
        some state := by
  unfold workerFullPass at hreturns
  unfold workerFullPassState
  by_cases hcandidates : totalCandidates groups = 0
  · rw [if_pos hcandidates]
    exact ⟨_, rfl⟩
  · rw [if_neg hcandidates] at hreturns ⊢
    by_cases hallocates : env.allocatesIndices = false
    · rw [if_pos hallocates]
      exact ⟨_, rfl⟩
    · rw [if_neg hallocates] at hreturns ⊢
      by_cases hregisters : env.registersSlot = false
      · rw [if_pos hregisters]
        exact ⟨_, rfl⟩
      · dsimp only at hreturns ⊢
        rw [if_neg hregisters] at hreturns ⊢
        rw [← Option.ne_none_iff_exists']
        intro hnone
        cases forceSingleThread with
        | true =>
          rw [if_pos rfl] at hreturns hnone
          rw [hnone] at hreturns
          exact hreturns rfl
        | false =>
          rw [if_neg Bool.false_ne_true] at hreturns hnone
          rw [hnone] at hreturns
          exact hreturns rfl

/-- The pointers that a pass leaves are those of its slots. -/
theorem workerFullPassActs_agrees {answers : Nat → SlotAnswers}
    (hattempt : ∀ turn, env.attempt turn = (answers turn).attempt) {state : FullState lib}
    (hstate : workerFullPassState lib sort env algorithm entries groups forceSingleThread =
      some state) :
    (workerFullPassActs env answers sort entries groups forceSingleThread).1.Agrees
      state.slots := by
  have hzeroed : FullHandles.empty.Agrees fun _ => FullSlot.zeroed lib :=
    FullHandles.agrees_zeroed false
  unfold workerFullPassState at hstate
  unfold workerFullPassActs
  by_cases hcandidates : totalCandidates groups = 0
  · rw [if_pos hcandidates] at hstate ⊢
    obtain rfl := Option.some.inj hstate
    exact hzeroed
  · rw [if_neg hcandidates] at hstate ⊢
    by_cases hallocates : env.allocatesIndices = false
    · rw [if_pos hallocates] at hstate ⊢
      obtain rfl := Option.some.inj hstate
      exact hzeroed
    · rw [if_neg hallocates] at hstate ⊢
      by_cases hregisters : env.registersSlot = false
      · dsimp only at hstate ⊢
        rw [if_pos hregisters] at hstate ⊢
        obtain rfl := Option.some.inj hstate
        exact hzeroed
      · dsimp only at hstate ⊢
        rw [if_neg hregisters] at hstate ⊢
        have hstarted : FullHandles.started.Agrees
            (FullState.mk entries fun _ => FullSlot.zeroed lib).slots :=
          FullHandles.agrees_zeroed true
        cases forceSingleThread with
        | true =>
          rw [if_pos rfl] at hstate
          exact workerFullLoopActs_agrees hattempt algorithm _ _ hstarted hstate
        | false =>
          rw [if_neg Bool.false_ne_true] at hstate
          exact workerFullRunActs_agrees hattempt algorithm _ _ hstarted hstate

/-- **A full pass that returns releases what it acquires**, under any schedule and
whatever its calls answer.  With the slots of all workers destroyed behind it,
nothing was released that was not held, and all that is still held is the memory of
one ring for each worker whose slot got one, which goes with the worker's memory. -/
theorem full_pass_releases {answers : Nat → SlotAnswers}
    (hattempt : ∀ turn, env.attempt turn = (answers turn).attempt)
    {workerCount : Nat} (hmain : 0 < workerCount)
    (hworkers : ∀ count, ∀ step ∈ env.schedule.run count, step.2 < workerCount)
    (hreturns : workerFullPass lib sort env algorithm entries groups forceSingleThread ≠
      .blocked) :
    ∃ (state : FullState lib) (held : Held FullResource),
      workerFullPassState lib sort env algorithm entries groups forceSingleThread =
        some state ∧
      run ((workerFullPassActs env answers sort entries groups forceSingleThread).2 ++
        (fullDestroySlotsActs (List.range workerCount)
          (workerFullPassActs env answers sort entries groups forceSingleThread).1).2) nothing =
        some held ∧
      (∀ r, held r = true → ∃ worker made, r = .ring worker made ∧ worker < workerCount ∧
        (state.slots worker).ringInitialised = true) ∧
      ∀ worker, (state.slots worker).ringInitialised = true →
        ∃! made, held (.ring worker made) = true := by
  obtain ⟨state, hstate⟩ := exists_state_of_returns hreturns
  have hagrees := workerFullPassActs_agrees hattempt hstate
  obtain ⟨hrun, hleft⟩ := run_workerFullPassActs answers hmain hworkers sort entries groups
    forceSingleThread
  generalize workerFullPassActs env answers sort entries groups forceSingleThread = pass
    at hrun hleft hagrees ⊢
  obtain ⟨handles, acts⟩ := pass
  obtain ⟨hdestroy, hheld⟩ := run_destroyed hleft
  obtain ⟨turn, hbefore⟩ := hleft.before
  have hready : ∀ worker, (state.slots worker).ringInitialised =
      (handles.slots worker).ring.isSome := fun worker =>
    (hagrees worker).ringInitialised.symm.trans (hbefore worker).initialised
  refine ⟨state, _, hstate, run_append_eq hrun hdestroy, fun r hr => ?_, fun worker hworker => ?_⟩
  · obtain ⟨worker, made, hring, hmade⟩ := (hheld r).mp hr
    have hlt : worker < workerCount := by
      by_contra hworker
      rw [hleft.beyond worker (Nat.le_of_not_lt hworker)] at hmade
      cases hmade
    refine ⟨worker, made, hring, hlt, ?_⟩
    rw [hready, hmade, Option.isSome_some]
  · rw [hready] at hworker
    obtain ⟨made, hmade⟩ := Option.isSome_iff_exists.mp hworker
    refine ⟨made, (hheld _).mpr ⟨worker, made, rfl, hmade⟩, fun other hother => ?_⟩
    obtain ⟨worker', made', hring, hmade'⟩ := (hheld _).mp hother
    cases hring
    exact Option.some.inj (hmade'.symm.trans hmade)

end Returns

/-- Every call of every attempt succeeds. -/
def SlotAnswers.granted : SlotAnswers := ⟨true, true, true, true, fun _ => true⟩

theorem full_pass_releases_backwards :
    ∃ (state : FullState .recording) (held : Held FullResource),
      workerFullPassState .recording insertionSort (.plain .backwards) .sha256 fortyEntries
        [⟨0, 40, 1⟩] false = some state ∧
      run ((workerFullPassActs (.plain .backwards) (fun _ => .granted) insertionSort fortyEntries
          [⟨0, 40, 1⟩] false).2 ++
        (fullDestroySlotsActs (List.range 2)
          (workerFullPassActs (.plain .backwards) (fun _ => .granted) insertionSort fortyEntries
            [⟨0, 40, 1⟩] false).1).2) nothing = some held ∧
      ∀ r, held r = true → ∃ worker made, r = .ring worker made ∧ worker < 2 := by
  have hsep : SeparateGroups [⟨0, 40, 1⟩] fortyEntries.length :=
    ⟨by simp [Group.run, Runs.Run.InBounds, fortyEntries], by simp⟩
  have hreturns : workerFullPass .recording insertionSort (.plain .backwards) .sha256 fortyEntries
      [⟨0, 40, 1⟩] false ≠ .blocked := by
    rw [workerFullPass_eq resets_recording (FullEnvironment.undisturbed_plain .backwards)
      insertionSort fortyEntries hsep false]
    exact PassResult.noConfusion
  have hworkers : ∀ count, ∀ step ∈ (FullEnvironment.plain .backwards).schedule.run count,
      step.2 < 2 := by
    intro count step hstep
    obtain ⟨i, _, rfl⟩ := List.mem_map.mp hstep
    exact Nat.mod_lt i (by decide)
  have hattempt : ∀ turn, (FullEnvironment.plain .backwards).attempt turn =
      SlotAnswers.granted.attempt := fun _ => rfl
  obtain ⟨state, held, hstate, hrun, honly, _⟩ :=
    full_pass_releases hattempt (by decide) hworkers hreturns
  refine ⟨state, held, hstate, hrun, fun r hr => ?_⟩
  obtain ⟨worker, made, hring, hlt, _⟩ := honly r hr
  exact ⟨worker, made, hring, hlt⟩

end BcDuplicate
