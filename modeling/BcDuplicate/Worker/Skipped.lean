import BcDuplicate.Worker.Outcomes

/-!
# BcDuplicate.Worker.Skipped

What the passes report when they skip candidates.  An iteration that finds the
stop flag set, or its worker's slot not ready, returns without a word, and a
pass that was dispatched reports all its candidates as hashed.  So a pass that
returns `true` is complete exactly when no iteration was skipped
(`passes_complete_iff`), which for the full pass depends on every poll and on
the first iteration of each worker.
-/

namespace BcDuplicate

open Sorting
open Updates

/-! ## what a pass promises -/

/-- A pass sets the flag of the entries at `executed` and leaves all others
alone. -/
structure SetsExactly (computed : FileEntry → Bool) (executed : List Nat)
    (entries result : List FileEntry) : Prop where
  sets : ∀ i ∈ executed, ∃ entry, result[i]? = some entry ∧ computed entry = true
  keeps : ∀ i, i ∉ executed → result[i]? = entries[i]?

/-- What callers take a pass that returns `true` to mean: the flag of every
candidate is set, `*out_files_hashed` counts the entries the pass set it for,
and no candidate was skipped. -/
structure PassComplete (computed : FileEntry → Bool) (groups : List Group) (executed : List Nat)
    (result : List FileEntry) (filesHashed : Nat) : Prop where
  computed : ∀ i ∈ candidateIndices groups, ∃ entry, result[i]? = some entry ∧
    computed entry = true
  filesHashed : filesHashed = executed.length
  notSkipped : ∀ i ∈ candidateIndices groups, i ∈ executed

/-- A pass that counts all its candidates is complete when it executed as many. -/
theorem passComplete_iff {computed : FileEntry → Bool} {groups : List Group} {executed : List Nat}
    {entries result : List FileEntry} (hnodup : executed.Nodup)
    (hsub : ∀ i ∈ executed, i ∈ candidateIndices groups)
    (hsets : SetsExactly computed executed entries result) :
    PassComplete computed groups executed result (totalCandidates groups) ↔
      executed.length = totalCandidates groups := by
  refine ⟨fun h => h.filesHashed.symm, fun hlen => ?_⟩
  have hperm : executed.Perm (candidateIndices groups) :=
    (List.subperm_of_subset hnodup hsub).perm_of_length_le
      (by rw [length_candidateIndices, hlen])
  exact ⟨fun i hi => hsets.sets i (hperm.mem_iff.mpr hi), hlen.symm, fun i hi =>
    hperm.mem_iff.mpr hi⟩

/-! ## the fast pass -/

/-- **One skipped iteration is one candidate less.** -/
theorem length_fastExecuted_iff (env : FastEnvironment) {indices : List Nat} (turn : Nat)
    {order : List (Nat × Nat)} (horder : ∀ step ∈ order, step.1 < indices.length) :
    (fastExecuted env indices turn order).length = order.length ↔
      ∀ k < order.length, env.shouldStop (turn + k) = false := by
  induction order generalizing turn with
  | nil => simp [fastExecuted]
  | cons step order ih =>
      have htail : ∀ s ∈ order, s.1 < indices.length := fun s hs =>
        horder s (List.mem_cons_of_mem _ hs)
      have hle := (fastExecuted_sublist env indices (turn + 1) order).length_le
      rw [length_scheduled htail] at hle
      have hstep := List.getElem?_eq_getElem (horder step List.mem_cons_self)
      rw [fastExecuted, hstep, List.length_cons]
      cases hpoll : env.shouldStop turn with
      | true =>
          rw [if_pos rfl]
          refine iff_of_false (by omega) fun hall => ?_
          have hfirst := hall 0 (Nat.succ_pos _)
          rw [Nat.add_zero, hpoll] at hfirst
          cases hfirst
      | false =>
          rw [if_neg Bool.false_ne_true, Option.toList_some, List.singleton_append,
            List.length_cons, Nat.add_right_cancel_iff, ih (turn + 1) htail]
          constructor
          · intro hall k hk
            cases k with
            | zero => exact hpoll
            | succ k =>
                rw [← Nat.add_assoc, Nat.add_right_comm]
                exact hall k (Nat.lt_of_succ_lt_succ hk)
          · intro hall k hk
            rw [Nat.add_right_comm, Nat.add_assoc]
            exact hall (k + 1) (Nat.succ_lt_succ hk)

/-! ## the full pass -/

/-- Whether an iteration gets its slot ready, when `started` says whether an
earlier iteration of the worker did. -/
def SlotAttempt.readies (attempt : SlotAttempt) (started : Bool) : Bool :=
  attempt.slotExists &&
    (started || (attempt.ringAllocated && attempt.ringInitialised && attempt.statesCreated))

/-- No iteration is skipped: each poll finds the flag unset, each iteration
finds its slot, and the first one of a worker allocates and initialises the
ring and creates the hash states.  `started` lists the workers of the
iterations before. -/
def FullEnvironment.Unskipped (env : FullEnvironment) :
    Nat → List Nat → List (Nat × Nat) → Prop
  | _, _, [] => True
  | turn, started, (_, worker) :: rest =>
      env.shouldStop turn = false ∧
        (env.attempt turn).readies (decide (worker ∈ started)) = true ∧
        env.Unskipped (turn + 1) (worker :: started) rest

instance (env : FullEnvironment) (turn : Nat) (started : List Nat) (order : List (Nat × Nat)) :
    Decidable (env.Unskipped turn started order) := by
  induction order generalizing turn started with
  | nil => exact .isTrue trivial
  | cons step order ih =>
      have := ih (turn + 1) (step.2 :: started)
      exact inferInstanceAs (Decidable (_ ∧ _ ∧ _))

/-- No iteration of a full pass over `candidateCount` candidates is skipped.
In single-thread mode the polls of the loop count as well. -/
def FullEnvironment.SkipsNothing (env : FullEnvironment) (candidateCount : Nat)
    (forceSingleThread : Bool) : Prop :=
  let env := if forceSingleThread then env.singleThread else env
  env.Unskipped 0 []
    (env.schedule.run ((candidateCount + fullBatchItemCapacity - 1) / fullBatchItemCapacity))

instance (env : FullEnvironment) (candidateCount : Nat) (forceSingleThread : Bool) :
    Decidable (env.SkipsNothing candidateCount forceSingleThread) := by
  unfold FullEnvironment.SkipsNothing
  infer_instance

section Full

variable {lib : HashLibrary} {env : FullEnvironment} {algorithm : Algorithm} {indices : List Nat}

/-- The slot has its ring and its hash states, or neither. -/
structure FullSlot.Started (slot : FullSlot lib) (started : Bool) : Prop where
  ringInitialised : slot.ringInitialised = started
  xxhStatesReady : slot.xxhStatesReady = started

theorem FullSlot.Started.ensureSlot {slot : FullSlot lib} {started : Bool}
    (h : slot.Started started) (attempt : SlotAttempt) :
    (fullEnsureSlot attempt slot).2 = attempt.readies started ∧
      ((fullEnsureSlot attempt slot).2 = true →
        (fullEnsureSlot attempt slot).1.Started true) := by
  obtain ⟨hring, hstates⟩ := h
  unfold fullEnsureSlot SlotAttempt.readies
  cases attempt.slotExists with
  | false => exact ⟨rfl, nofun⟩
  | true =>
      cases started with
      | true =>
          simp only [hring, hstates, if_true]
          exact ⟨rfl, fun _ => ⟨hring, hstates⟩⟩
      | false =>
          simp only [hring, hstates, true_and]
          by_cases hallocated : attempt.ringAllocated = false ∨ attempt.ringInitialised = false
          · rw [if_neg (Bool.noConfusion : ¬true = false), if_pos hallocated]
            exact ⟨by rcases hallocated with h | h <;> simp [h], nofun⟩
          · rw [if_neg (Bool.noConfusion : ¬true = false), if_neg hallocated]
            simp only [not_or, Bool.not_eq_false] at hallocated
            cases attempt.statesCreated with
            | true => exact ⟨by simp [hallocated], fun _ => ⟨rfl, rfl⟩⟩
            | false => exact ⟨by simp, by simp⟩

/-- An iteration that executes leaves its worker started, and the others as
they were. -/
theorem started_workerFullIter {state : FullState lib} {started : List Nat} {turn worker : Nat}
    (hstarted : ∀ worker, (state.slots worker).Started (decide (worker ∈ started)))
    (hexecutes : fullExecutes env turn (state.slots worker) = true) (iterationIndex other : Nat) :
    ((workerFullIter env algorithm indices turn iterationIndex worker state).1.slots
      other).Started (decide (other ∈ worker :: started)) := by
  have hslots : ∀ slot : FullSlot lib, slot.Started true →
      (Function.update state.slots worker slot other).Started
        (decide (other ∈ worker :: started)) := by
    intro slot hslot
    by_cases hother : other = worker
    · rw [hother, Function.update_self, decide_eq_true List.mem_cons_self]
      exact hslot
    · rw [Function.update_of_ne hother]
      simpa [hother] using hstarted other
  rw [fullExecutes, Bool.and_eq_true, Bool.not_eq_true'] at hexecutes
  have hready := ((hstarted worker).ensureSlot (env.attempt turn)).2 hexecutes.2
  unfold workerFullIter
  rw [hexecutes.1, if_neg Bool.false_ne_true]
  cases hensure : fullEnsureSlot (env.attempt turn) (state.slots worker) with
  | mk slot ready =>
      rw [hensure] at hexecutes hready
      obtain rfl : ready = true := hexecutes.2
      dsimp only
      split
      · exact hslots slot hready
      · exact hslots _ ⟨hready.ringInitialised, hready.xxhStatesReady⟩

/-- **One skipped iteration is one batch less.** -/
theorem fullExecuted_eq_iff {turn : Nat} {started : List Nat} {order : List (Nat × Nat)}
    {state : FullState lib}
    (hstarted : ∀ worker, (state.slots worker).Started (decide (worker ∈ started)))
    (hpieces : ∀ step ∈ order, piece fullBatchItemCapacity indices step.1 ≠ []) :
    (fullExecuted env algorithm indices turn order state).length =
        (order.flatMap fun step => piece fullBatchItemCapacity indices step.1).length ↔
      env.Unskipped turn started order := by
  induction order generalizing turn started state with
  | nil => exact iff_of_true rfl trivial
  | cons step order ih =>
      obtain ⟨iterationIndex, worker⟩ := step
      have htail : ∀ step ∈ order, piece fullBatchItemCapacity indices step.1 ≠ [] :=
        fun s hs => hpieces s (List.mem_cons_of_mem _ hs)
      have hready := ((hstarted worker).ensureSlot (env.attempt turn)).1
      rw [fullExecuted, List.flatMap_cons, List.length_append, List.length_append,
        FullEnvironment.Unskipped, ← hready]
      cases hexecutes : fullExecutes env turn (state.slots worker) with
      | true =>
          have hnext := @started_workerFullIter lib env algorithm indices state started turn worker
            hstarted hexecutes iterationIndex
          rw [fullExecutes, Bool.and_eq_true, Bool.not_eq_true'] at hexecutes
          rw [if_pos rfl, Nat.add_left_cancel_iff, ih hnext htail]
          exact ⟨fun h => ⟨hexecutes.1, hexecutes.2, h⟩, fun h => h.2.2⟩
      | false =>
          have hle := (fullExecuted_sublist env algorithm indices (turn + 1) order
            (workerFullIter env algorithm indices turn iterationIndex worker state).1).length_le
          have hpos := List.length_pos_iff.mpr (hpieces _ List.mem_cons_self)
          rw [if_neg Bool.false_ne_true, List.length_nil]
          refine iff_of_false (by omega) fun h => ?_
          rw [fullExecutes, h.1, h.2.1] at hexecutes
          cases hexecutes

end Full

/-! ## both passes -/

section Passes

variable {lib : HashLibrary} {sort : SortFn} {entries result : List FileEntry}
  {groups : List Group} {filesHashed : Nat}

theorem setsExactly_fast {env : FastEnvironment} (hsep : SeparateGroups groups entries.length) :
    SetsExactly FileEntry.fastHashComputed (fastPassExecuted sort env entries groups) entries
      (updateAt (fastUpdate lib env) (fastPassExecuted sort env entries groups) entries) := by
  obtain ⟨hnodup, hsub⟩ := fastPassExecuted_subset sort env hsep
  refine ⟨fun i hi => ?_, fun i hi => getElem?_updateAt_of_notMem _ _ hi⟩
  have hentry := List.getElem?_eq_getElem (lt_of_mem_candidateIndices hsep (hsub i hi))
  refine ⟨_, by rw [getElem?_updateAt _ hnodup, if_pos hi, hentry, Option.map_some], ?_⟩
  rw [fastUpdate, workerFastIteration_eq]
  exact FastOutcome.computed_apply (fastOutcome_ne_skipped lib _ _) _

theorem setsExactly_full {executed : List Nat} (hsep : SeparateGroups groups entries.length)
    (hnodup : executed.Nodup) (hsub : ∀ i ∈ executed, i ∈ candidateIndices groups)
    (hassigned : AssignedWith executed entries result) :
    SetsExactly FileEntry.fullHashComputed executed entries result := by
  obtain ⟨full, hfull, rfl⟩ := hassigned
  refine ⟨fun i hi => ?_, fun i hi => getElem?_updateAt_of_notMem _ _ hi⟩
  have hentry := List.getElem?_eq_getElem (lt_of_mem_candidateIndices hsep (hsub i hi))
  exact ⟨_, by rw [getElem?_updateAt _ hnodup, if_pos hi, hentry, Option.map_some],
    FullOutcome.computed_apply (hfull i hi) _⟩

theorem fastPass_complete_iff (hsep : SeparateGroups groups entries.length)
    {env : FastEnvironment} {result : List FileEntry} {filesHashed : Nat}
    (hpass : workerFastPass lib sort env entries groups = .done result filesHashed) :
    SetsExactly FileEntry.fastHashComputed (fastPassExecuted sort env entries groups) entries
      result ∧
    (PassComplete FileEntry.fastHashComputed groups (fastPassExecuted sort env entries groups)
        result filesHashed ↔
      ∀ turn < totalCandidates groups, env.shouldStop turn = false) := by
  obtain ⟨rfl, rfl⟩ := workerFastPass_executed hpass
  obtain ⟨hnodup, hsub⟩ := fastPassExecuted_subset sort env hsep
  have hsets := @setsExactly_fast lib sort entries groups env hsep
  refine ⟨hsets, (passComplete_iff hnodup hsub hsets).trans ?_⟩
  have hturns : ∀ step ∈ env.schedule.run (totalCandidates groups), step.1 <
      (workerSortIndicesBySizeDesc sort entries (candidateIndices groups)).length := by
    intro step hstep
    rw [length_sorted_candidates]
    exact fst_lt_of_mem_run env.schedule hstep
  have hcount := length_fastExecuted_iff env 0 hturns
  rw [length_run] at hcount
  simp only [Nat.zero_add] at hcount
  exact hcount

theorem fullPass_complete_iff (hsep : SeparateGroups groups entries.length)
    {env : FullEnvironment} {algorithm : Algorithm} {forceSingleThread : Bool}
    {result : List FileEntry} {filesHashed : Nat}
    (hpass : workerFullPass lib sort env algorithm entries groups forceSingleThread =
      .done result filesHashed) :
    SetsExactly FileEntry.fullHashComputed
      (fullPassExecuted lib sort env algorithm entries groups forceSingleThread) entries result ∧
    (PassComplete FileEntry.fullHashComputed groups
        (fullPassExecuted lib sort env algorithm entries groups forceSingleThread)
        result filesHashed ↔
      env.SkipsNothing (totalCandidates groups) forceSingleThread) := by
  obtain ⟨rfl, hassigned⟩ := workerFullPass_executed hsep hpass
  obtain ⟨hnodup, hsub⟩ := @fullPassExecuted_subset lib sort env algorithm entries groups _ hsep
    forceSingleThread
  have hsets := setsExactly_full hsep hnodup hsub hassigned
  refine ⟨hsets, (passComplete_iff hnodup hsub hsets).trans ?_⟩
  unfold fullPassExecuted FullEnvironment.SkipsNothing
  dsimp only
  generalize (if forceSingleThread then env.singleThread else env) = env
  have hlen := length_sorted_candidates sort entries groups
  have hcount : pieceCount fullBatchItemCapacity
      (workerSortIndicesBySizeDesc sort entries (candidateIndices groups)) =
        (totalCandidates groups + fullBatchItemCapacity - 1) / fullBatchItemCapacity := by
    rw [pieceCount, hlen]
  have hpieces := (scheduled_pieces_perm env.schedule (by decide : 0 < fullBatchItemCapacity)
    (workerSortIndicesBySizeDesc sort entries (candidateIndices groups))).length_eq
  -- no worker has started when the pass begins
  have hstarted : ∀ worker, ((⟨entries, fun _ => .zeroed lib⟩ : FullState lib).slots
      worker).Started (decide (worker ∈ ([] : List Nat))) := fun _ => ⟨rfl, rfl⟩
  have hexecuted := @fullExecuted_eq_iff lib env algorithm
    (workerSortIndicesBySizeDesc sort entries (candidateIndices groups)) 0 [] _ _ hstarted
    fun step hstep => piece_ne_nil (by decide) (fst_lt_of_mem_run env.schedule hstep)
  rw [hpieces, hlen, hcount] at hexecuted
  rw [hcount]
  exact hexecuted

/-- **Which passes are complete.**  A fast pass that returns `true` is
complete exactly when no poll finds the flag set; a full pass, when besides
every slot becomes ready.  Either way it sets the flag of the entries it
executes and of no others. -/
theorem passes_complete_iff (hsep : SeparateGroups groups entries.length) :
    (∀ (env : FastEnvironment) (result : List FileEntry) (filesHashed : Nat),
      workerFastPass lib sort env entries groups = .done result filesHashed →
      SetsExactly FileEntry.fastHashComputed (fastPassExecuted sort env entries groups) entries
        result ∧
      (PassComplete FileEntry.fastHashComputed groups (fastPassExecuted sort env entries groups)
          result filesHashed ↔
        ∀ turn < totalCandidates groups, env.shouldStop turn = false)) ∧
    (∀ (env : FullEnvironment) (algorithm : Algorithm) (forceSingleThread : Bool)
        (result : List FileEntry) (filesHashed : Nat),
      workerFullPass lib sort env algorithm entries groups forceSingleThread =
        .done result filesHashed →
      SetsExactly FileEntry.fullHashComputed
        (fullPassExecuted lib sort env algorithm entries groups forceSingleThread) entries
        result ∧
      (PassComplete FileEntry.fullHashComputed groups
          (fullPassExecuted lib sort env algorithm entries groups forceSingleThread)
          result filesHashed ↔
        env.SkipsNothing (totalCandidates groups) forceSingleThread)) :=
  ⟨fun _ _ _ hpass => fastPass_complete_iff hsep hpass,
    fun _ _ _ _ _ hpass => fullPass_complete_iff hsep hpass⟩

end Passes

/-- Both passes over forty files, undisturbed, are complete. -/
theorem passes_complete_forty :
    (∃ result, workerFastPass .recording insertionSort (.plain .backwards) fortyEntries
        [⟨0, 40, 1⟩] = .done result 40 ∧
      PassComplete FileEntry.fastHashComputed [⟨0, 40, 1⟩]
        (fastPassExecuted insertionSort (.plain .backwards) fortyEntries [⟨0, 40, 1⟩]) result 40) ∧
    ∃ result, workerFullPass .recording insertionSort (.plain .backwards) .sha256 fortyEntries
        [⟨0, 40, 1⟩] false = .done result 40 ∧
      PassComplete FileEntry.fullHashComputed [⟨0, 40, 1⟩]
        (fullPassExecuted .recording insertionSort (.plain .backwards) .sha256 fortyEntries
          [⟨0, 40, 1⟩] false) result 40 := by
  have hsep : SeparateGroups [⟨0, 40, 1⟩] fortyEntries.length :=
    ⟨by simp [Group.run, Runs.Run.InBounds, fortyEntries], by simp⟩
  have hfast := @workerFastPass_eq .recording insertionSort (.plain .backwards) fortyEntries
    [⟨0, 40, 1⟩] _ hsep (FastEnvironment.undisturbed_plain _)
  have hfull := @workerFullPass_eq .recording (.plain .backwards) .sha256 resets_recording
    (FullEnvironment.undisturbed_plain _) insertionSort fortyEntries [⟨0, 40, 1⟩] hsep false
  obtain ⟨hfastComplete, hfullComplete⟩ := @passes_complete_iff .recording insertionSort
    fortyEntries [⟨0, 40, 1⟩] hsep
  exact ⟨⟨_, hfast, (hfastComplete _ _ _ hfast).2.mpr fun _ _ => rfl⟩,
    _, hfull, (hfullComplete _ _ _ _ _ hfull).2.mpr (by decide)⟩

/-! ### a signal during the passes -/

/-- Every poll finds the stop flag set. -/
def FastEnvironment.stopped : FastEnvironment :=
  { FastEnvironment.plain .sequential with shouldStop := fun _ => true }

/-- The slots of the workers cannot be made ready. -/
def FullEnvironment.slotless : FullEnvironment :=
  { FullEnvironment.plain .sequential with attempt := fun _ => ⟨true, false, false, false⟩ }

/-- Two files of one byte. -/
def twoEntries : List FileEntry := [.discovered [97] 1 0 0, .discovered [98] 1 0 1]

/-- **Passes that skip everything return `true`** and report two hashed files,
while no entry has been touched. -/
theorem skipped_reported_hashed :
    (workerFastPass .recording insertionSort .stopped twoEntries [⟨0, 2, 1⟩] =
        .done twoEntries 2 ∧
      ¬PassComplete FileEntry.fastHashComputed [⟨0, 2, 1⟩]
        (fastPassExecuted insertionSort .stopped twoEntries [⟨0, 2, 1⟩]) twoEntries 2) ∧
    workerFullPass .recording insertionSort .slotless .xxh128 twoEntries [⟨0, 2, 1⟩] false =
        .done twoEntries 2 ∧
      ¬PassComplete FileEntry.fullHashComputed [⟨0, 2, 1⟩]
        (fullPassExecuted .recording insertionSort .slotless .xxh128 twoEntries [⟨0, 2, 1⟩] false)
        twoEntries 2 := by
  have huntouched : ∀ {computed : FileEntry → Bool} {executed : List Nat},
      (twoEntries.map computed) = [false, false] →
      ¬PassComplete computed [⟨0, 2, 1⟩] executed twoEntries 2 := by
    intro computed executed hcomputed h
    obtain ⟨entry, hentry, hset⟩ := h.computed 0 (by decide)
    have hfirst := congrArg (fun l : List Bool => l[0]?) hcomputed
    rw [List.getElem?_map, hentry, Option.map_some, hset] at hfirst
    cases hfirst
  exact ⟨⟨rfl, huntouched rfl⟩, rfl, huntouched rfl⟩

end BcDuplicate
