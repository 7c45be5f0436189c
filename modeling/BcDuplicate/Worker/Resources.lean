import BcDuplicate.Base.Resources
import BcDuplicate.Worker

/-!
# BcDuplicate.Worker.Resources

What the slots of the full pass acquire and release
(`src/worker/bc_duplicate_worker_full.c`): the memory of a ring, its queue in the
kernel, and the hash states.  The descriptors of the synchronous fallback, each
opened and closed within one call of the reader, are left out.

A slot is made ready by the first iteration that runs on its worker and succeeds,
and a failed attempt releases what it acquired (`run_fullEnsureSlotActs`).
Destroying a slot leaves the memory of its ring to the memory context it came from
(`run_fullDestroySlotActs`).
-/

namespace BcDuplicate

open Resources

/-! ## what the pass acquires -/

/-- What the pass acquires from its pools, the kernel and the hash library.  What
a slot has is named by its worker and the turn of the iteration that acquired it. -/
inductive FullResource
  | candidateIndices
  | ring (worker turn : Nat)
  | queue (worker turn : Nat)
  | xxhState (worker turn index : Nat)
deriving DecidableEq, Repr

/-- What a slot points to: the turn its ring and its hash states are from, and
`ring_initialised`. -/
structure SlotHandles where
  ring : Option Nat
  ringInitialised : Bool
  xxhStates : Option Nat
deriving DecidableEq, Repr

/-- A slot in zeroed memory. -/
def SlotHandles.zeroed : SlotHandles := ⟨none, false, none⟩

/-- What the pass points to: whether it has its array of indices, and the slots. -/
structure FullHandles where
  candidateIndices : Bool
  slots : Nat → SlotHandles

/-- No pointer is set. -/
def FullHandles.empty : FullHandles := ⟨false, fun _ => .zeroed⟩

/-- What is held through the pointers of the pass. -/
def FullHandles.held (handles : FullHandles) : Held FullResource
  | .candidateIndices => handles.candidateIndices
  | .ring worker turn => decide ((handles.slots worker).ring = some turn)
  | .queue worker turn =>
      decide ((handles.slots worker).ring = some turn) && (handles.slots worker).ringInitialised
  | .xxhState worker turn index =>
      decide ((handles.slots worker).xxhStates = some turn) &&
        decide (index < fullBatchItemCapacity)

/-- The pass with another slot for a worker. -/
def FullHandles.setSlot (handles : FullHandles) (worker : Nat) (slot : SlotHandles) : FullHandles :=
  { handles with slots := Function.update handles.slots worker slot }

/-! ## the slot of a worker -/

/-- What an attempt to make a slot ready is answered, call by call. -/
structure SlotAnswers where
  slotExists : Bool
  allocatesRing : Bool
  initialisesQueue : Bool
  registersFiles : Bool
  createsState : Nat → Bool

/-- The answers, as far as the results depend on them. -/
def SlotAnswers.attempt (answers : SlotAnswers) : SlotAttempt where
  slotExists := answers.slotExists
  ringAllocated := answers.allocatesRing
  ringInitialised := answers.initialisesQueue && answers.registersFiles
  statesCreated := (List.range fullBatchItemCapacity).all answers.createsState

section Slot

variable (answers : SlotAnswers) (worker turn : Nat)

/-- `bc_duplicate_reader_ring_init`: its result and its calls. -/
def readerRingInitActs : Bool × List (Act FullResource) :=
  if answers.initialisesQueue = false then (false, [])
  else if answers.registersFiles = false then
    (false, [.acquire (.queue worker turn), .release (.queue worker turn)])
  else (true, [.acquire (.queue worker turn)])

/-- The branch of `bc_duplicate_worker_full_ensure_slot` that makes the ring. -/
def fullEnsureRingActs : Bool × List (Act FullResource) :=
  if answers.allocatesRing = false then (false, [])
  else
    match readerRingInitActs answers worker turn with
    | (false, acts) =>
        (false, .acquire (.ring worker turn) :: (acts ++ [.release (.ring worker turn)]))
    | (true, acts) => (true, .acquire (.ring worker turn) :: acts)

/-- The loop that creates the hash states from `stateIndex` on; the states before
it are released when one cannot be created. -/
def fullCreateStatesActs : Nat → Nat → Bool × List (Act FullResource)
  | _, 0 => (true, [])
  | stateIndex, remaining + 1 =>
      if answers.createsState stateIndex = false then
        (false, (List.range stateIndex).map fun index => .release (.xxhState worker turn index))
      else
        let (ok, acts) := fullCreateStatesActs (stateIndex + 1) remaining
        (ok, .acquire (.xxhState worker turn stateIndex) :: acts)

/-- The branch that makes the hash states. -/
def fullEnsureStatesActs (slot : SlotHandles) : SlotHandles × List (Act FullResource) :=
  match slot.xxhStates with
  | some _ => (slot, [])
  | none =>
      match fullCreateStatesActs answers worker turn 0 fullBatchItemCapacity with
      | (false, acts) => (slot, acts)
      | (true, acts) => ({ slot with xxhStates := some turn }, acts)

/-- `bc_duplicate_worker_full_ensure_slot`: the slot behind it, and its calls. -/
def fullEnsureSlotActs (slot : SlotHandles) : SlotHandles × List (Act FullResource) :=
  if answers.slotExists = false then (slot, [])
  else if slot.ringInitialised then fullEnsureStatesActs answers worker turn slot
  else
    match fullEnsureRingActs answers worker turn with
    | (false, acts) =>
        ({ slot with ring := if answers.allocatesRing then none else slot.ring }, acts)
    | (true, acts) =>
        let (slot, more) := fullEnsureStatesActs answers worker turn
          { slot with ring := some turn, ringInitialised := true }
        (slot, acts ++ more)

/-- `bc_duplicate_reader_ring_destroy`, where the slot has an initialised ring:
`ring_ready` is set in a ring that `bc_duplicate_reader_ring_init` succeeded on. -/
def fullDestroyRingActs (slot : SlotHandles) : SlotHandles × List (Act FullResource) :=
  match slot.ringInitialised, slot.ring with
  | true, some made => ({ slot with ringInitialised := false }, [.release (.queue worker made)])
  | _, _ => (slot, [])

/-- The branch that frees the hash states. -/
def fullDestroyStatesActs (slot : SlotHandles) : SlotHandles × List (Act FullResource) :=
  match slot.xxhStates with
  | some made =>
      ({ slot with xxhStates := none },
        (List.range fullBatchItemCapacity).map fun index => .release (.xxhState worker made index))
  | none => (slot, [])

/-- `bc_duplicate_worker_full_destroy_slot` -/
def fullDestroySlotActs (slot : SlotHandles) : SlotHandles × List (Act FullResource) :=
  let (slot, acts) := fullDestroyRingActs worker slot
  let (slot, more) := fullDestroyStatesActs worker slot
  (slot, acts ++ more)

end Slot

/-! ## what a slot holds -/

section Held

variable (handles : FullHandles) (worker : Nat) (slot : SlotHandles)

theorem FullHandles.setSlot_self : handles.setSlot worker (handles.slots worker) = handles := by
  rw [setSlot, Function.update_eq_self]

@[simp] theorem FullHandles.slots_setSlot_self :
    (handles.setSlot worker slot).slots worker = slot := by
  simp only [setSlot, Function.update_self]

@[simp] theorem FullHandles.slots_setSlot_of_ne {other : Nat} (h : other ≠ worker) :
    (handles.setSlot worker slot).slots other = handles.slots other := by
  simp only [setSlot, Function.update_of_ne h]

/-- What is held through a slot. -/
def SlotHandles.holds (worker : Nat) (slot : SlotHandles) : Held FullResource
  | .ring w turn => decide (w = worker) && decide (slot.ring = some turn)
  | .queue w turn => decide (w = worker) && (decide (slot.ring = some turn) && slot.ringInitialised)
  | .xxhState w turn index =>
      decide (w = worker) &&
        (decide (slot.xxhStates = some turn) && decide (index < fullBatchItemCapacity))
  | _ => false

/-- What is held apart from a slot. -/
def FullHandles.apart (handles : FullHandles) (worker : Nat) : Held FullResource
  | .ring w turn => !decide (w = worker) && handles.held (.ring w turn)
  | .queue w turn => !decide (w = worker) && handles.held (.queue w turn)
  | .xxhState w turn index => !decide (w = worker) && handles.held (.xxhState w turn index)
  | r => handles.held r

/-- What is held is held through the slot of the worker, or apart from it. -/
theorem held_setSlot (r : FullResource) :
    (handles.setSlot worker slot).held r = (slot.holds worker r || handles.apart worker r) := by
  cases r with
  | ring w | queue w | xxhState w =>
    by_cases hw : w = worker
    · subst hw
      simp [FullHandles.held, SlotHandles.holds, FullHandles.apart]
    · simp [FullHandles.held, SlotHandles.holds, FullHandles.apart, hw]
  | _ => rfl

end Held

/-! ## a slot that is made ready -/

/-- The worker whose slot a resource is for. -/
def FullResource.worker : FullResource → Option Nat
  | .ring worker _ => some worker
  | .queue worker _ => some worker
  | .xxhState worker _ _ => some worker
  | _ => none

/-- The hash states of a turn, up to an index. -/
def xxhStatesBelow (worker turn count : Nat) : List FullResource :=
  (List.range count).map (.xxhState worker turn)

theorem nodup_xxhStatesBelow (worker turn count : Nat) :
    (xxhStatesBelow worker turn count).Nodup := by
  refine List.Nodup.map (fun i j hij => ?_) List.nodup_range
  cases hij
  rfl

theorem mem_xxhStatesBelow {worker turn count : Nat} {r : FullResource} :
    r ∈ xxhStatesBelow worker turn count ↔ ∃ index < count, r = .xxhState worker turn index := by
  simp only [xxhStatesBelow, List.mem_map, List.mem_range, eq_comm]

theorem release_xxhStatesBelow (worker turn count : Nat) :
    ((List.range count).map fun index => Act.release (FullResource.xxhState worker turn index)) =
      (xxhStatesBelow worker turn count).map .release := by
  rw [xxhStatesBelow, List.map_map]
  rfl

section Ready

variable (answers : SlotAnswers) {worker turn : Nat} {rest : Held FullResource}

/-- Creating the hash states from an index on gives all of them, or none. -/
theorem run_fullCreateStatesActs (hrest : ∀ index, rest (.xxhState worker turn index) = false)
    (stateIndex remaining : Nat) :
    run (fullCreateStatesActs answers worker turn stateIndex remaining).2
        (fun r => decide (r ∈ xxhStatesBelow worker turn stateIndex) || rest r) =
      some fun r =>
        (decide ((fullCreateStatesActs answers worker turn stateIndex remaining).1 = true) &&
          decide (r ∈ xxhStatesBelow worker turn (stateIndex + remaining))) || rest r := by
  induction remaining generalizing stateIndex with
  | zero => rfl
  | succ remaining ih =>
    unfold fullCreateStatesActs
    by_cases hcreates : answers.createsState stateIndex = false
    · rw [if_pos hcreates, release_xxhStatesBelow]
      refine run_release_all (nodup_xxhStatesBelow worker turn stateIndex) (fun r hr => ?_)
        fun r => rfl
      obtain ⟨index, _, rfl⟩ := mem_xxhStatesBelow.mp hr
      exact hrest index
    · rw [if_neg hcreates]
      have hnew : FullResource.xxhState worker turn stateIndex ∉
          xxhStatesBelow worker turn stateIndex := by
        intro hmem
        obtain ⟨index, hindex, hsame⟩ := mem_xxhStatesBelow.mp hmem
        cases hsame
        exact absurd hindex (Nat.lt_irrefl _)
      have hfirst : run [.acquire (.xxhState worker turn stateIndex)]
          (fun r => decide (r ∈ xxhStatesBelow worker turn stateIndex) || rest r) =
            some fun r => decide (r ∈ xxhStatesBelow worker turn (stateIndex + 1)) || rest r := by
        refine run_acquire ?_ fun r => ?_
        · rw [decide_eq_false hnew, hrest]
          rfl
        · rw [xxhStatesBelow, List.range_succ, List.map_append, List.map_singleton,
            ← xxhStatesBelow]
          simp only [List.mem_append, List.mem_singleton, Bool.decide_or, ← Bool.or_assoc]
          rw [Bool.or_comm (decide (r ∈ _))]
      have hsum : stateIndex + (remaining + 1) = stateIndex + 1 + remaining := by omega
      rw [hsum]
      exact run_append_eq hfirst (ih (stateIndex + 1))

/-- What is held through a slot, beside the rest. -/
def SlotHandles.beside (worker : Nat) (slot : SlotHandles) (rest : Held FullResource) :
    Held FullResource :=
  fun r => slot.holds worker r || rest r

/-- The rest is not for the worker's slot. -/
def Apart (worker : Nat) (rest : Held FullResource) : Prop :=
  ∀ r : FullResource, r.worker = some worker → rest r = false

/-- The slot's ring and states are from turns before this one, and its ring is
initialised if there is one. -/
structure SlotHandles.Before (turn : Nat) (slot : SlotHandles) : Prop where
  ring : ∀ made, slot.ring = some made → made < turn
  xxhStates : ∀ made, slot.xxhStates = some made → made < turn
  initialised : slot.ringInitialised = slot.ring.isSome

theorem SlotHandles.before_zeroed (turn : Nat) : SlotHandles.zeroed.Before turn :=
  ⟨fun _ h => (Option.some_ne_none _ h.symm).elim, fun _ h => (Option.some_ne_none _ h.symm).elim,
    rfl⟩

theorem SlotHandles.Before.mono {turn later : Nat} {slot : SlotHandles} (hslot : slot.Before turn)
    (hle : turn ≤ later) : slot.Before later :=
  ⟨fun made h => (hslot.ring made h).trans_le hle,
    fun made h => (hslot.xxhStates made h).trans_le hle, hslot.initialised⟩

/-- What a slot holds once its hash states are made. -/
theorem holds_xxhStates {slot : SlotHandles} (hnone : slot.xxhStates = none) (r : FullResource) :
    ({ slot with xxhStates := some turn } : SlotHandles).holds worker r =
      (decide (r ∈ xxhStatesBelow worker turn fullBatchItemCapacity) || slot.holds worker r) := by
  cases r with
  | xxhState w t index =>
    have hmem : FullResource.xxhState w t index ∈
        xxhStatesBelow worker turn fullBatchItemCapacity ↔
          w = worker ∧ some turn = some t ∧ index < fullBatchItemCapacity := by
      rw [mem_xxhStatesBelow]
      constructor
      · rintro ⟨i, hi, hsame⟩
        cases hsame
        exact ⟨rfl, rfl, hi⟩
      · rintro ⟨rfl, hturn, hi⟩
        cases hturn
        exact ⟨index, hi, rfl⟩
    simp [SlotHandles.holds, hnone, hmem]
  | _ =>
    rw [decide_eq_false, Bool.false_or]
    · rfl
    · intro hmem
      obtain ⟨index, _, hsame⟩ := mem_xxhStatesBelow.mp hmem
      cases hsame

/-- The branch that makes the hash states keeps what is held in step. -/
theorem run_fullEnsureStatesActs (hrest : Apart worker rest) (slot : SlotHandles) :
    run (fullEnsureStatesActs answers worker turn slot).2 (slot.beside worker rest) =
      some ((fullEnsureStatesActs answers worker turn slot).1.beside worker rest) := by
  unfold fullEnsureStatesActs
  cases hstates : slot.xxhStates with
  | some made => rfl
  | none =>
    have hbase : ∀ index, slot.beside worker rest (.xxhState worker turn index) = false := by
      intro index
      have hnone : slot.holds worker (.xxhState worker turn index) = false := by
        simp [SlotHandles.holds, hstates]
      rw [SlotHandles.beside, hnone, hrest _ rfl]
      rfl
    have hrun := run_fullCreateStatesActs answers hbase 0 fullBatchItemCapacity
    have hnil : (fun r => decide (r ∈ xxhStatesBelow worker turn 0) ||
        slot.beside worker rest r) = slot.beside worker rest := by
      funext r
      rfl
    rw [hnil, Nat.zero_add] at hrun
    generalize fullCreateStatesActs answers worker turn 0 fullBatchItemCapacity = created at hrun
    obtain ⟨ok, acts⟩ := created
    cases ok with
    | false =>
      refine hrun.trans (congrArg some (funext fun r => ?_))
      rfl
    | true =>
      refine hrun.trans (congrArg some (funext fun r => ?_))
      simp only [SlotHandles.beside, holds_xxhStates hstates, decide_true, Bool.true_and,
        Bool.or_assoc]

/-- The slot with a ring of this turn. -/
def SlotHandles.withRing (slot : SlotHandles) (turn : Nat) (initialised : Bool) : SlotHandles :=
  { slot with ring := some turn, ringInitialised := initialised }

section ring

variable {slot : SlotHandles} (hring : slot.ring = none)
include hring

/-- What the slot holds with the ring of this turn. -/
theorem beside_withRing (initialised : Bool) (r : FullResource) :
    (slot.withRing turn initialised).beside worker rest r =
      (decide (r = .ring worker turn) || (initialised && decide (r = .queue worker turn)) ||
        slot.beside worker rest r) := by
  have hholds : (slot.withRing turn initialised).holds worker r =
      (decide (r = .ring worker turn) || (initialised && decide (r = .queue worker turn)) ||
        slot.holds worker r) := by
    cases r with
    | ring w t => simp [SlotHandles.holds, SlotHandles.withRing, hring, eq_comm]
    | queue w t =>
      cases initialised <;> simp [SlotHandles.holds, SlotHandles.withRing, hring, eq_comm]
    | _ => cases initialised <;> rfl
  simp only [SlotHandles.beside, hholds, Bool.or_assoc]

theorem beside_of_no_ring (hrest : Apart worker rest) {r : FullResource}
    (hr : r = .ring worker turn ∨ r = .queue worker turn) :
    slot.beside worker rest r = false := by
  obtain rfl | rfl := hr
  · simp [SlotHandles.beside, SlotHandles.holds, hring, hrest (.ring worker turn) rfl]
  · simp [SlotHandles.beside, SlotHandles.holds, hring, hrest (.queue worker turn) rfl]

theorem run_acquire_ring (worker turn : Nat) (hrest : Apart worker rest) :
    run [.acquire (.ring worker turn)] (slot.beside worker rest) =
      some ((slot.withRing turn false).beside worker rest) := by
  refine run_acquire (beside_of_no_ring hring hrest (Or.inl rfl)) fun r => ?_
  rw [beside_withRing hring, Bool.false_and, Bool.or_false]

theorem run_release_ring (worker turn : Nat) (hrest : Apart worker rest) :
    run [.release (.ring worker turn)] ((slot.withRing turn false).beside worker rest) =
      some (slot.beside worker rest) := by
  refine run_release (beside_of_no_ring hring hrest (Or.inl rfl)) fun r => ?_
  rw [beside_withRing hring, Bool.false_and, Bool.or_false]

theorem beside_queue (worker turn : Nat) (r : FullResource) :
    (slot.withRing turn true).beside worker rest r =
      (decide (r = .queue worker turn) || (slot.withRing turn false).beside worker rest r) := by
  rw [beside_withRing hring, beside_withRing hring, Bool.false_and, Bool.or_false, Bool.true_and,
    ← Bool.or_assoc, Bool.or_comm (decide (r = .ring worker turn))]

theorem beside_no_queue (worker turn : Nat) (hrest : Apart worker rest) :
    (slot.withRing turn false).beside worker rest (.queue worker turn) = false := by
  rw [beside_withRing hring, beside_of_no_ring hring hrest (Or.inr rfl)]
  rfl

/-- The branch that makes the ring gives the slot a ring of this turn, or leaves
nothing behind. -/
theorem run_fullEnsureRingActs (worker turn : Nat) (hrest : Apart worker rest) :
    run (fullEnsureRingActs answers worker turn).2 (slot.beside worker rest) =
      some ((if (fullEnsureRingActs answers worker turn).1 then slot.withRing turn true
        else slot).beside worker rest) := by
  have hacquired := run_acquire_ring hring worker turn hrest
  have hreleased := run_release_ring hring worker turn hrest
  have hopened := run_acquire (beside_no_queue hring worker turn hrest)
    (beside_queue hring worker turn)
  have hclosed := run_release (beside_no_queue hring worker turn hrest)
    (beside_queue hring worker turn)
  unfold fullEnsureRingActs readerRingInitActs
  by_cases hallocates : answers.allocatesRing = false
  · rw [if_pos hallocates]
    rfl
  · rw [if_neg hallocates]
    by_cases hqueue : answers.initialisesQueue = false
    · rw [if_pos hqueue]
      exact run_append_eq hacquired hreleased
    · rw [if_neg hqueue]
      by_cases hfiles : answers.registersFiles = false
      · rw [if_pos hfiles]
        exact run_append_eq hacquired
          (run_append_eq hopened (run_append_eq hclosed hreleased))
      · rw [if_neg hfiles]
        exact run_append_eq hacquired hopened

end ring

/-- What an attempt to make a slot ready can do. -/
theorem fullEnsureSlotActs_cases (worker : Nat) {slot : SlotHandles} (hslot : slot.Before turn) :
    fullEnsureSlotActs answers worker turn slot = (slot, []) ∨
    fullEnsureSlotActs answers worker turn slot = fullEnsureStatesActs answers worker turn slot ∨
    slot.ring = none ∧ (fullEnsureRingActs answers worker turn).1 = false ∧
      fullEnsureSlotActs answers worker turn slot =
        (slot, (fullEnsureRingActs answers worker turn).2) ∨
    slot.ring = none ∧ (fullEnsureRingActs answers worker turn).1 = true ∧
      fullEnsureSlotActs answers worker turn slot =
        ((fullEnsureStatesActs answers worker turn (slot.withRing turn true)).1,
          (fullEnsureRingActs answers worker turn).2 ++
            (fullEnsureStatesActs answers worker turn (slot.withRing turn true)).2) := by
  unfold fullEnsureSlotActs
  by_cases hexists : answers.slotExists = false
  · rw [if_pos hexists]
    exact Or.inl rfl
  · rw [if_neg hexists]
    by_cases hready : slot.ringInitialised = true
    · rw [if_pos hready]
      exact Or.inr (Or.inl rfl)
    · rw [if_neg hready]
      have hring : slot.ring = none := by
        rw [← Option.not_isSome_iff_eq_none, ← hslot.initialised]
        exact hready
      generalize fullEnsureRingActs answers worker turn = made
      obtain ⟨ok, acts⟩ := made
      cases ok with
      | false =>
        -- a ring that could not be made leaves the null pointer that was there
        have hsame : ({ slot with ring := if answers.allocatesRing then none else slot.ring } :
            SlotHandles) = slot := by
          rw [hring, ite_self, ← hring]
        refine Or.inr (Or.inr (Or.inl ⟨hring, rfl, ?_⟩))
        dsimp only
        rw [hsame]
      | true => exact Or.inr (Or.inr (Or.inr ⟨hring, rfl, rfl⟩))

/-- **Making a slot ready keeps what is held in step with the slot**: what a
failed attempt acquired is released again. -/
theorem run_fullEnsureSlotActs (hrest : Apart worker rest) {slot : SlotHandles}
    (hslot : slot.Before turn) :
    run (fullEnsureSlotActs answers worker turn slot).2 (slot.beside worker rest) =
      some ((fullEnsureSlotActs answers worker turn slot).1.beside worker rest) := by
  obtain hnone | hstates | ⟨hring, hok, hfailed⟩ | ⟨hring, hok, hboth⟩ :=
    fullEnsureSlotActs_cases answers worker hslot
  · rw [hnone]
    rfl
  · rw [hstates]
    exact run_fullEnsureStatesActs answers hrest slot
  · have hmade := run_fullEnsureRingActs answers hring worker turn hrest
    rw [hok] at hmade
    rw [hfailed]
    exact hmade
  · have hmade := run_fullEnsureRingActs answers hring worker turn hrest
    rw [hok] at hmade
    rw [hboth]
    exact run_append_eq hmade (run_fullEnsureStatesActs answers hrest _)

theorem fullEnsureStatesActs_before {slot : SlotHandles} (hslot : slot.Before (turn + 1)) :
    (fullEnsureStatesActs answers worker turn slot).1.Before (turn + 1) := by
  unfold fullEnsureStatesActs
  cases slot.xxhStates with
  | some made => exact hslot
  | none =>
    generalize fullCreateStatesActs answers worker turn 0 fullBatchItemCapacity = created
    obtain ⟨ok, acts⟩ := created
    cases ok with
    | false => exact hslot
    | true =>
      refine ⟨hslot.ring, fun made hmade => ?_, hslot.initialised⟩
      obtain rfl := Option.some.inj hmade
      exact Nat.lt_succ_self turn

/-- A slot that was made ready in a turn is from turns up to it. -/
theorem fullEnsureSlotActs_before {slot : SlotHandles} (hslot : slot.Before turn) :
    (fullEnsureSlotActs answers worker turn slot).1.Before (turn + 1) := by
  have hlater := hslot.mono (Nat.le_succ turn)
  obtain hnone | hstates | ⟨_, _, hfailed⟩ | ⟨_, _, hboth⟩ :=
    fullEnsureSlotActs_cases answers worker hslot
  · rw [hnone]
    exact hlater
  · rw [hstates]
    exact fullEnsureStatesActs_before answers hlater
  · rw [hfailed]
    exact hlater
  · rw [hboth]
    apply fullEnsureStatesActs_before answers
    refine ⟨fun made hmade => ?_, hlater.xxhStates, rfl⟩
    obtain rfl := Option.some.inj hmade
    exact Nat.lt_succ_self turn

/-- Destroying the ring of a slot closes its queue. -/
theorem run_fullDestroyRingActs (hrest : Apart worker rest) {slot : SlotHandles}
    (hslot : slot.Before turn) :
    run (fullDestroyRingActs worker slot).2 (slot.beside worker rest) =
      some ((fullDestroyRingActs worker slot).1.beside worker rest) := by
  obtain ⟨ring, initialised, xxhStates⟩ := slot
  obtain rfl : initialised = ring.isSome := hslot.initialised
  cases ring with
  | none => rfl
  | some made =>
    have hnone : (SlotHandles.mk none false xxhStates).ring = none := rfl
    exact run_release (beside_no_queue hnone worker made hrest) (beside_queue hnone worker made)

/-- Freeing the hash states of a slot releases each of them. -/
theorem run_fullDestroyStatesActs (hrest : Apart worker rest) (slot : SlotHandles) :
    run (fullDestroyStatesActs worker slot).2 (slot.beside worker rest) =
      some ((fullDestroyStatesActs worker slot).1.beside worker rest) := by
  obtain ⟨ring, initialised, xxhStates⟩ := slot
  cases xxhStates with
  | none => rfl
  | some made =>
    have hnone : (SlotHandles.mk ring initialised none).xxhStates = none := rfl
    simp only [fullDestroyStatesActs]
    rw [release_xxhStatesBelow]
    refine run_release_all (nodup_xxhStatesBelow worker made fullBatchItemCapacity)
      (fun r hr => ?_) fun r => ?_
    · obtain ⟨index, _, rfl⟩ := mem_xxhStatesBelow.mp hr
      simp [SlotHandles.beside, SlotHandles.holds, hrest (.xxhState worker made index) rfl]
    · have hholds : (SlotHandles.mk ring initialised (some made)).holds worker r =
          (decide (r ∈ xxhStatesBelow worker made fullBatchItemCapacity) ||
            (SlotHandles.mk ring initialised none).holds worker r) :=
        holds_xxhStates hnone r
      simp only [SlotHandles.beside, hholds, Bool.or_assoc]

/-- **Destroying a slot releases its queue and its hash states**, each once. -/
theorem run_fullDestroySlotActs (hrest : Apart worker rest) {slot : SlotHandles}
    (hslot : slot.Before turn) :
    run (fullDestroySlotActs worker slot).2 (slot.beside worker rest) =
      some ((fullDestroySlotActs worker slot).1.beside worker rest) :=
  run_append_eq (run_fullDestroyRingActs hrest hslot) (run_fullDestroyStatesActs hrest _)

/-- A slot that was destroyed has its ring still, and nothing else. -/
theorem fullDestroySlotActs_eq {slot : SlotHandles} (hslot : slot.Before turn) :
    (fullDestroySlotActs worker slot).1 = ⟨slot.ring, false, none⟩ := by
  obtain ⟨ring, initialised, xxhStates⟩ := slot
  obtain rfl : initialised = ring.isSome := hslot.initialised
  cases ring <;> cases xxhStates <;> rfl

end Ready

end BcDuplicate
