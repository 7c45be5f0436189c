import BcDuplicate.Worker.Candidates

/-!
# BcDuplicate.Worker.Fast

The fast pass.  Its iterations update different entries and keep nothing from
one to the next, so the pass is one update of the candidates whose iteration
ran (`workerFastRun_eq`), and without a stop signal of all candidates
(`workerFastPass_eq`), whatever the schedule.
-/

namespace BcDuplicate

open Sorting
open Updates

variable (lib : HashLibrary)

/-- What an iteration does to the entry at a position. -/
def fastUpdate (env : FastEnvironment) (index : Nat) (entry : FileEntry) : FileEntry :=
  workerFastIteration lib (env.view index entry.absolutePath) entry

/-- The candidates whose iteration found the flag unset. -/
def fastExecuted (env : FastEnvironment) (indices : List Nat) : Nat → List (Nat × Nat) → List Nat
  | _, [] => []
  | turn, (iterationIndex, _) :: rest =>
      if env.shouldStop turn then fastExecuted env indices (turn + 1) rest
      else (indices[iterationIndex]?).toList ++ fastExecuted env indices (turn + 1) rest

theorem workerFastRun_eq (env : FastEnvironment) (indices : List Nat) (turn : Nat)
    (order : List (Nat × Nat)) (entries : List FileEntry) :
    workerFastRun lib env indices turn order entries =
      updateAt (fastUpdate lib env) (fastExecuted env indices turn order) entries := by
  induction order generalizing turn entries with
  | nil => rfl
  | cons step order ih =>
      obtain ⟨iterationIndex, worker⟩ := step
      rw [workerFastRun, ih, fastExecuted, workerFastIter]
      by_cases hstop : env.shouldStop turn = true
      · rw [if_pos hstop, if_pos hstop]
      · rw [if_neg hstop, if_neg hstop, updateAt_append]
        cases indices[iterationIndex]? <;> rfl

/-- The executed candidates are among the scheduled ones. -/
theorem fastExecuted_sublist (env : FastEnvironment) (indices : List Nat) (turn : Nat)
    (order : List (Nat × Nat)) :
    (fastExecuted env indices turn order).Sublist (scheduled indices order) := by
  induction order generalizing turn with
  | nil => exact .refl _
  | cons step order ih =>
      have hscheduled : scheduled indices (step :: order) =
          (indices[step.1]?).toList ++ scheduled indices order := by
        unfold scheduled
        rw [List.filterMap_cons]
        cases indices[step.1]? <;> rfl
      rw [fastExecuted, hscheduled]
      split
      · exact (ih _).trans (List.sublist_append_right _ _)
      · exact (ih _).append_left _

/-- Without a stop signal every scheduled candidate is executed. -/
theorem fastExecuted_eq {env : FastEnvironment} (hstop : ∀ turn, env.shouldStop turn = false)
    (indices : List Nat) (turn : Nat) (order : List (Nat × Nat)) :
    fastExecuted env indices turn order = scheduled indices order := by
  induction order generalizing turn with
  | nil => rfl
  | cons step order ih =>
      rw [fastExecuted, hstop turn, if_neg Bool.false_ne_true, ih]
      unfold scheduled
      rw [List.filterMap_cons]
      cases indices[step.1]? <;> rfl

/-- No stop signal comes, and the pass gets its memory and its workers. -/
structure FastEnvironment.Undisturbed (env : FastEnvironment) : Prop where
  shouldStop : ∀ turn, env.shouldStop turn = false
  allocatesIndices : env.allocatesIndices = true
  dispatchOk : env.dispatchOk = true

section Pass

variable {lib} {sort : SortFn} {env : FastEnvironment} {entries : List FileEntry}
  {groups : List Group}

theorem length_sorted_candidates (sort : SortFn) (entries : List FileEntry) (groups : List Group) :
    (workerSortIndicesBySizeDesc sort entries (candidateIndices groups)).length =
      totalCandidates groups := by
  rw [(perm_workerSortIndices sort entries _).length_eq, length_candidateIndices]

/-- The candidates a schedule works through, in its order. -/
theorem scheduled_candidates_perm (schedule : Schedule) (sort : SortFn) (entries : List FileEntry)
    (groups : List Group) :
    (scheduled (workerSortIndicesBySizeDesc sort entries (candidateIndices groups))
      (schedule.run (totalCandidates groups))).Perm (candidateIndices groups) := by
  have h := scheduled_perm schedule
    (workerSortIndicesBySizeDesc sort entries (candidateIndices groups))
  rw [length_sorted_candidates] at h
  exact h.trans (perm_workerSortIndices sort entries _)

/-- Without candidates there is nothing to update. -/
theorem candidateIndices_eq_nil (h : totalCandidates groups = 0) : candidateIndices groups = [] :=
  List.length_eq_zero_iff.mp ((length_candidateIndices groups).trans h)

/-- The candidates a fast pass executes. -/
def fastPassExecuted (sort : SortFn) (env : FastEnvironment) (entries : List FileEntry)
    (groups : List Group) : List Nat :=
  fastExecuted env (workerSortIndicesBySizeDesc sort entries (candidateIndices groups)) 0
    (env.schedule.run (totalCandidates groups))

/-- They are candidates, each executed once. -/
theorem fastPassExecuted_subset {n : Nat} (sort : SortFn) (env : FastEnvironment)
    {entries : List FileEntry} {groups : List Group} (hsep : SeparateGroups groups n) :
    (fastPassExecuted sort env entries groups).Nodup ∧
      ∀ i ∈ fastPassExecuted sort env entries groups, i ∈ candidateIndices groups := by
  have hsublist := fastExecuted_sublist env
    (workerSortIndicesBySizeDesc sort entries (candidateIndices groups)) 0
    (env.schedule.run (totalCandidates groups))
  have hperm := scheduled_candidates_perm env.schedule sort entries groups
  exact ⟨hsublist.nodup (hperm.nodup_iff.mpr (nodup_candidateIndices hsep)),
    fun i hi => hperm.mem_iff.mp (hsublist.subset hi)⟩

/-- **A fast pass that ends updates the candidates it executed**, and leaves
the rest of the array alone. -/
theorem workerFastPass_executed {filesHashed : Nat} {result : List FileEntry}
    (hpass : workerFastPass lib sort env entries groups = .done result filesHashed) :
    filesHashed = totalCandidates groups ∧
      result = updateAt (fastUpdate lib env) (fastPassExecuted sort env entries groups)
        entries := by
  unfold workerFastPass at hpass
  split at hpass
  · next hzero =>
    cases hpass
    rw [fastPassExecuted, hzero, run_zero]
    exact ⟨rfl, rfl⟩
  · split at hpass
    · cases hpass
    · dsimp only at hpass
      split at hpass
      · cases hpass
        exact ⟨rfl, workerFastRun_eq lib env _ 0 _ entries⟩
      · cases hpass

/-- **A fast pass without a stop signal updates every candidate once.** -/
theorem workerFastPass_eq {n : Nat} (hsep : SeparateGroups groups n) (henv : env.Undisturbed) :
    workerFastPass lib sort env entries groups =
      .done (updateAt (fastUpdate lib env) (candidateIndices groups) entries)
        (totalCandidates groups) := by
  unfold workerFastPass
  split
  · next hzero =>
    rw [candidateIndices_eq_nil hzero, hzero]
    rfl
  · have hperm := scheduled_candidates_perm env.schedule sort entries groups
    simp only [henv.allocatesIndices, henv.dispatchOk, Bool.true_eq_false, if_false]
    rw [workerFastRun_eq, fastExecuted_eq henv.shouldStop,
      updateAt_perm _ hperm (hperm.nodup_iff.mpr (nodup_candidateIndices hsep)), if_pos trivial]

end Pass

end BcDuplicate
