import BcDuplicate.Worker.Full

/-!
# BcDuplicate.Worker.Outcomes

What the passes can leave behind in any environment: failing opens and reads,
slots that do not initialise, a ring in any state, a stop signal at any time.
Each candidate is updated at most once, by one of a few outcomes: it is
skipped, it fails with an error, or it is hashed.  Whatever happens in a pass
that ends, the pass is one update of the candidates with some outcomes
(`workerFastPass_outcomes`, `workerFullPass_outcomes`).
-/

namespace BcDuplicate

open Sorting
open Updates

/-! ## outcomes -/

/-- What the fast pass does to a candidate. -/
inductive FastOutcome
  | skipped
  | failed (errno : Errno)
  | hashed (fastHash : UInt64)
deriving DecidableEq, Repr

def FastOutcome.apply (outcome : FastOutcome) (entry : FileEntry) : FileEntry :=
  match outcome with
  | .skipped => entry
  | .failed errno => entry.setFast 0 errno.value
  | .hashed fastHash => entry.setFast fastHash 0

theorem FastOutcome.computed_apply {outcome : FastOutcome} (h : outcome ≠ .skipped)
    (entry : FileEntry) : (outcome.apply entry).fastHashComputed = true := by
  cases outcome with
  | skipped => exact absurd rfl h
  | failed errno => rfl
  | hashed fastHash => rfl

/-- What the full pass does to a candidate.  `spoiled`: the digest is stored
and reported as failed. -/
inductive FullOutcome
  | skipped
  | failed (errno : Errno)
  | spoiled (digest : Bytes)
  | hashed (digest : Bytes)
deriving DecidableEq, Repr

namespace FullOutcome

def apply (outcome : FullOutcome) (entry : FileEntry) : FileEntry :=
  match outcome with
  | .skipped => entry
  | .failed errno => { entry with fullHashComputed := true, fullHashErrno := errno.value }
  | .spoiled digest =>
      { entry with fullHash := digest, fullHashComputed := true, fullHashErrno := Errno.EIO.value }
  | .hashed digest =>
      { entry with fullHash := digest, fullHashComputed := true, fullHashErrno := 0 }

theorem computed_apply {outcome : FullOutcome} (h : outcome ≠ .skipped) (entry : FileEntry) :
    (outcome.apply entry).fullHashComputed = true := by
  cases outcome with
  | skipped => exact absurd rfl h
  | failed errno => rfl
  | spoiled digest => rfl
  | hashed digest => rfl

def isHashed : FullOutcome → Bool
  | .hashed _ => true
  | _ => false

/-- The bytes `full_hash` holds afterwards. -/
def leaves : FullOutcome → Bytes
  | .skipped | .failed _ => List.replicate maxDigestSize 0
  | .spoiled digest | .hashed digest => digest

end FullOutcome

/-- The full hash was computed, and without an error. -/
def FileEntry.Hashed (entry : FileEntry) : Prop :=
  entry.fullHashComputed = true ∧ entry.fullHashErrno = 0

/-- No digest has been stored yet. -/
def FileEntry.Unhashed (entry : FileEntry) : Prop :=
  (entry.fullHash, entry.fullHashComputed) = (List.replicate maxDigestSize 0, false)

instance (entry : FileEntry) : Decidable entry.Unhashed := inferInstanceAs (Decidable (_ = _))

theorem FileEntry.Unhashed.hashed_apply {entry : FileEntry} (h : entry.Unhashed)
    (outcome : FullOutcome) : (outcome.apply entry).Hashed ↔ outcome.isHashed = true := by
  obtain ⟨_, hcomputed⟩ := Prod.mk.inj h
  cases outcome with
  | skipped => simp [FullOutcome.apply, FileEntry.Hashed, FullOutcome.isHashed, hcomputed]
  | failed errno =>
      simp [FullOutcome.apply, FileEntry.Hashed, FullOutcome.isHashed, errno.value_ne_zero]
  | spoiled digest =>
      simp [FullOutcome.apply, FileEntry.Hashed, FullOutcome.isHashed, Errno.value_ne_zero]
  | hashed digest => simp [FullOutcome.apply, FileEntry.Hashed, FullOutcome.isHashed]

theorem FileEntry.Unhashed.fullHash_apply {entry : FileEntry} (h : entry.Unhashed)
    (outcome : FullOutcome) : (outcome.apply entry).fullHash = outcome.leaves := by
  obtain ⟨hzeros, _⟩ := Prod.mk.inj h
  cases outcome with
  | skipped => exact hzeros
  | failed errno => exact hzeros
  | spoiled digest => rfl
  | hashed digest => rfl

/-! ## the fast pass -/

/-- How the iteration of the fast pass ends for a file. -/
def fastOutcome (lib : HashLibrary) (view : FastView) (fileSize : Nat) : FastOutcome :=
  match openReadOnly view.openError view.reopenError with
  | .error errno => .failed errno
  | .ok () =>
      match view.prefixRead.perform view.content fastHashBlockSize with
      | .error errno => .failed errno
      | .ok prefixBytes =>
          if fileSize ≥ fastDualMinFileSize then
            match view.suffixRead.perform (view.content.drop (fileSize - fastHashBlockSize))
                fastHashBlockSize with
            | .error _ => .hashed (lib.xxh3 prefixBytes)
            | .ok suffixBytes =>
                if suffixBytes.length > 0 then
                  .hashed (lib.xxh3 prefixBytes ^^^ lib.xxh3 suffixBytes)
                else .hashed (lib.xxh3 prefixBytes)
          else .hashed (lib.xxh3 prefixBytes)

theorem workerFastIteration_eq (lib : HashLibrary) (view : FastView) (entry : FileEntry) :
    workerFastIteration lib view entry = (fastOutcome lib view entry.fileSize).apply entry := by
  unfold workerFastIteration fastOutcome
  cases openReadOnly view.openError view.reopenError with
  | error errno => rfl
  | ok done =>
      dsimp only
      cases view.prefixRead.perform view.content fastHashBlockSize with
      | error errno => rfl
      | ok prefixBytes =>
          dsimp only
          by_cases hdual : entry.fileSize ≥ fastDualMinFileSize
          · rw [if_pos hdual, if_pos hdual]
            cases view.suffixRead.perform
                (view.content.drop (entry.fileSize - fastHashBlockSize)) fastHashBlockSize with
            | error errno => rfl
            | ok suffixBytes =>
                dsimp only
                by_cases hsuffix : suffixBytes.length > 0
                · rw [if_pos hsuffix, if_pos hsuffix]
                  rfl
                · rw [if_neg hsuffix, if_neg hsuffix]
                  rfl
          · rw [if_neg hdual, if_neg hdual]
            rfl

/-- An iteration that runs does not skip its file. -/
theorem fastOutcome_ne_skipped (lib : HashLibrary) (view : FastView) (fileSize : Nat) :
    fastOutcome lib view fileSize ≠ .skipped := by
  unfold fastOutcome
  split
  · exact nofun
  · split
    · exact nofun
    · split
      · split
        · exact nofun
        · split <;> exact nofun
      · exact nofun

/-- **Every fast pass that ends** updates its candidates with some outcomes. -/
theorem workerFastPass_outcomes {lib : HashLibrary} {sort : SortFn} {env : FastEnvironment}
    {entries result : List FileEntry} {groups : List Group} {filesHashed : Nat}
    (hsep : SeparateGroups groups entries.length)
    (hpass : workerFastPass lib sort env entries groups = .done result filesHashed) :
    ∃ fast : Nat → FastOutcome,
      updatePass (fun i => (fast i).apply) entries groups = .done result filesHashed := by
  obtain ⟨rfl, rfl⟩ := workerFastPass_executed hpass
  obtain ⟨hnodup, hsub⟩ := fastPassExecuted_subset sort env hsep
  generalize fastPassExecuted sort env entries groups = executed at hnodup hsub ⊢
  let fast (i : Nat) : FastOutcome :=
    if i ∈ executed then
      (entries[i]?).elim .skipped fun entry =>
        fastOutcome lib (env.view i entry.absolutePath) entry.fileSize
    else .skipped
  refine ⟨fast, ?_⟩
  rw [updatePass, ← updateAt_of_subset hnodup (nodup_candidateIndices hsep) hsub]
  · congr 1
    refine updateAt_congr hnodup fun i hi entry hentry => ?_
    dsimp only [fast]
    rw [if_pos hi, hentry, Option.elim_some, fastUpdate, workerFastIteration_eq]
  · intro i hi entry
    dsimp only [fast]
    rw [if_neg hi]
    rfl

/-! ## the full pass -/

section Full

variable {lib : HashLibrary}

/-- How the full pass ends for the file of an item. -/
def fullOutcome (item : BatchItem (ConsumerState lib)) : FullOutcome :=
  if item.success = false ∨ item.feed.context.failed = true then
    .failed (if h : 0 < item.errnoValue then ⟨item.errnoValue, h⟩ else Errno.EIO)
  else if (fullConsumerFinalize item.feed.context).2 then
    .spoiled (fullConsumerFinalize item.feed.context).1
  else .hashed (fullConsumerFinalize item.feed.context).1

theorem fullStoreResult_eq_apply (item : BatchItem (ConsumerState lib)) (entry : FileEntry) :
    fullStoreResult item entry = (fullOutcome item).apply entry := by
  unfold fullStoreResult fullOutcome
  dsimp only
  by_cases hfailed : item.success = false ∨ item.feed.context.failed = true
  · rw [if_pos hfailed, if_pos hfailed]
    by_cases herrno : 0 < item.errnoValue
    · rw [dif_pos herrno, if_pos (Nat.pos_iff_ne_zero.mp herrno)]
      rfl
    · rw [dif_neg herrno, if_neg (not_not_intro (Nat.le_zero.mp (Nat.not_lt.mp herrno)))]
      rfl
  · rw [if_neg hfailed, if_neg hfailed]
    by_cases hspoiled : (fullConsumerFinalize item.feed.context).2 = true
    · rw [if_pos hspoiled, if_pos hspoiled]
      rfl
    · rw [if_neg hspoiled, if_neg hspoiled]
      rfl

/-- The outcome of an item is never to be skipped. -/
theorem fullOutcome_ne_skipped (item : BatchItem (ConsumerState lib)) :
    fullOutcome item ≠ .skipped := by
  unfold fullOutcome
  intro hskipped
  split at hskipped
  · cases hskipped
  · split at hskipped <;> cases hskipped

/-- The array after the updates of `order` by outcomes that skip none of it. -/
def AssignedWith (order : List Nat) (before after : List FileEntry) : Prop :=
  ∃ full : Nat → FullOutcome, (∀ i ∈ order, full i ≠ .skipped) ∧
    after = updateAt (fun i => (full i).apply) order before

theorem AssignedWith.nil (entries : List FileEntry) : AssignedWith [] entries entries :=
  ⟨fun _ => .skipped, by simp, rfl⟩

theorem AssignedWith.append {order₁ order₂ : List Nat} {before middle after : List FileEntry}
    (hnodup : (order₁ ++ order₂).Nodup) (h₁ : AssignedWith order₁ before middle)
    (h₂ : AssignedWith order₂ middle after) : AssignedWith (order₁ ++ order₂) before after := by
  obtain ⟨full₁, hfull₁, rfl⟩ := h₁
  obtain ⟨full₂, hfull₂, rfl⟩ := h₂
  obtain ⟨hnodup₁, hnodup₂, hdisjoint⟩ := List.nodup_append.mp hnodup
  refine ⟨fun i => if i ∈ order₁ then full₁ i else full₂ i, ?_, ?_⟩
  · intro i hi
    dsimp only
    by_cases hfirst : i ∈ order₁
    · rw [if_pos hfirst]
      exact hfull₁ i hfirst
    · rw [if_neg hfirst]
      exact hfull₂ i ((List.mem_append.mp hi).resolve_left hfirst)
  · rw [updateAt_append]
    have hfirst : updateAt (fun i => (full₁ i).apply) order₁ before =
        updateAt (fun i => (if i ∈ order₁ then full₁ i else full₂ i).apply) order₁ before :=
      updateAt_congr hnodup₁ fun i hi entry _ => by rw [if_pos hi]
    rw [hfirst]
    refine updateAt_congr hnodup₂ fun i hi entry _ => ?_
    dsimp only
    rw [if_neg fun hmem => hdisjoint i hmem i hi rfl]

theorem AssignedWith.length_eq {order : List Nat} {before after : List FileEntry}
    (h : AssignedWith order before after) : after.length = before.length := by
  obtain ⟨full, _, rfl⟩ := h
  exact length_updateAt _ _ _

variable {env : FullEnvironment} {algorithm : Algorithm} {indices : List Nat}

/-- **One batch assigns every one of its candidates**, whatever the ring does. -/
theorem assignedWith_fullProcessBatch (scripts : Nat → ChunkScript) (slot : FullSlot lib)
    (hnodup : indices.Nodup) {entries : List FileEntry}
    (hbounds : ∀ i ∈ indices, i < entries.length) :
    AssignedWith indices entries
      (fullProcessBatch env algorithm scripts slot indices entries).1 := by
  have hitems : ((indices.zipIdx).filterMap fun x =>
      (entries[x.1]?).map (fullBatchItem env algorithm slot x.2 x.1)).length =
        indices.length := length_batchItems slot hbounds
  unfold fullProcessBatch
  dsimp only
  generalize (indices.zipIdx).filterMap (fun x =>
    (entries[x.1]?).map (fullBatchItem env algorithm slot x.2 x.1)) = items at hitems ⊢
  have hlen : indices.length ≤
      (readerConsumeBatch fullConsumerCallback scripts slot.ring items).items.length := by
    rw [length_items_readerConsumeBatch]
    exact hitems.ge
  generalize (readerConsumeBatch fullConsumerCallback scripts slot.ring items).items = served
    at hlen ⊢
  have hkeys : (indices.zip served).map Prod.fst = indices := List.map_fst_zip hlen
  obtain ⟨full, hfull, _⟩ := exists_lookup FullOutcome.skipped fullOutcome
    (hkeys.symm ▸ hnodup : ((indices.zip served).map Prod.fst).Nodup)
  refine ⟨full, fun i hi => ?_, ?_⟩
  · rw [← hkeys] at hi
    obtain ⟨pair, hpair, rfl⟩ := List.mem_map.mp hi
    rw [hfull pair hpair]
    exact fullOutcome_ne_skipped _
  · conv_rhs => rw [← hkeys]
    refine foldl_modify_eq_updateAt _ _ (hkeys.symm ▸ hnodup) fun pair hpair entry _ => ?_
    rw [fullStoreResult_eq_apply, hfull pair hpair]

/-- An iteration processes its batch: it finds the flag unset and its slot
ready. -/
def fullExecutes (env : FullEnvironment) (turn : Nat) (slot : FullSlot lib) : Bool :=
  !env.shouldStop turn && (fullEnsureSlot (env.attempt turn) slot).2

/-- The candidates of the iterations that process their batch. -/
def fullExecuted (env : FullEnvironment) (algorithm : Algorithm) (indices : List Nat) :
    Nat → List (Nat × Nat) → FullState lib → List Nat
  | _, [], _ => []
  | turn, (iterationIndex, worker) :: rest, state =>
      (if fullExecutes env turn (state.slots worker) then
        piece fullBatchItemCapacity indices iterationIndex else []) ++
        fullExecuted env algorithm indices (turn + 1) rest
          (workerFullIter env algorithm indices turn iterationIndex worker state).1

/-- **One iteration assigns its batch or nothing.** -/
theorem assignedWith_workerFullIter (hnodup : indices.Nodup) (turn iterationIndex worker : Nat)
    {state : FullState lib} (hbounds : ∀ i ∈ indices, i < state.entries.length) :
    AssignedWith (if fullExecutes env turn (state.slots worker) then
        piece fullBatchItemCapacity indices iterationIndex else []) state.entries
      (workerFullIter env algorithm indices turn iterationIndex worker state).1.entries := by
  have hpiece : (piece fullBatchItemCapacity indices iterationIndex).Nodup :=
    hnodup.sublist ((List.take_sublist _ _).trans (List.drop_sublist _ _))
  unfold workerFullIter fullExecutes
  cases env.shouldStop turn with
  | true => exact .nil _
  | false =>
      rw [if_neg Bool.false_ne_true, Bool.not_false, Bool.true_and]
      cases hensure : fullEnsureSlot (env.attempt turn) (state.slots worker) with
      | mk slot ready =>
          cases ready with
          | false => exact .nil _
          | true =>
              rw [if_pos rfl]
              dsimp only
              by_cases hpast : iterationIndex * fullBatchItemCapacity ≥ indices.length
              · rw [if_pos hpast, piece, List.drop_of_length_le hpast, List.take_nil]
                exact .nil _
              · rw [if_neg hpast]
                exact assignedWith_fullProcessBatch _ _ hpiece fun i hi =>
                  hbounds i (mem_of_mem_piece hi)

theorem fullExecuted_sublist (env : FullEnvironment) (algorithm : Algorithm) (indices : List Nat)
    (turn : Nat) (order : List (Nat × Nat)) (state : FullState lib) :
    (fullExecuted env algorithm indices turn order state).Sublist
      (order.flatMap fun step => piece fullBatchItemCapacity indices step.1) := by
  induction order generalizing turn state with
  | nil => exact .refl _
  | cons step order ih =>
      rw [fullExecuted, List.flatMap_cons]
      split
      · exact (ih _ _).append_left _
      · exact (ih _ _).trans (List.sublist_append_right _ _)

/-- **A run assigns the batches that were processed**, and nothing else. -/
theorem assignedWith_workerFullRun (hnodup : indices.Nodup) {turn : Nat}
    {order : List (Nat × Nat)} {state state' : FullState lib}
    (horder : (order.flatMap fun step => piece fullBatchItemCapacity indices step.1).Nodup)
    (hbounds : ∀ i ∈ indices, i < state.entries.length)
    (hrun : workerFullRun env algorithm indices turn order state = some state') :
    AssignedWith (fullExecuted env algorithm indices turn order state) state.entries
      state'.entries := by
  induction order generalizing turn state with
  | nil =>
      cases hrun
      exact .nil _
  | cons step order ih =>
      obtain ⟨iterationIndex, worker⟩ := step
      have hexecuted := (fullExecuted_sublist env algorithm indices turn
        ((iterationIndex, worker) :: order) state).nodup horder
      rw [List.flatMap_cons] at horder
      rw [workerFullRun] at hrun
      have hiter := @assignedWith_workerFullIter lib env algorithm indices hnodup turn
        iterationIndex worker state hbounds
      split at hrun
      · cases hrun
      · next next heq =>
        rw [fullExecuted, heq] at hexecuted ⊢
        rw [heq] at hiter
        refine hiter.append hexecuted (ih (List.nodup_append.mp horder).2.1 ?_ hrun)
        rw [hiter.length_eq]
        exact hbounds

/-- The candidates a full pass assigns. -/
def fullPassExecuted (lib : HashLibrary) (sort : SortFn) (env : FullEnvironment)
    (algorithm : Algorithm) (entries : List FileEntry) (groups : List Group)
    (forceSingleThread : Bool) : List Nat :=
  let env := if forceSingleThread then env.singleThread else env
  let indices := workerSortIndicesBySizeDesc sort entries (candidateIndices groups)
  fullExecuted env algorithm indices 0
    (env.schedule.run (pieceCount fullBatchItemCapacity indices))
    (⟨entries, fun _ => .zeroed lib⟩ : FullState lib)

/-- The candidates a full pass could assign. -/
theorem fullPassExecuted_subset (sort : SortFn) (env : FullEnvironment) (algorithm : Algorithm)
    {entries : List FileEntry} {groups : List Group} {n : Nat} (hsep : SeparateGroups groups n)
    (forceSingleThread : Bool) :
    (fullPassExecuted lib sort env algorithm entries groups forceSingleThread).Nodup ∧
      ∀ i ∈ fullPassExecuted lib sort env algorithm entries groups forceSingleThread,
        i ∈ candidateIndices groups := by
  unfold fullPassExecuted
  dsimp only
  generalize (if forceSingleThread then env.singleThread else env) = env
  have hperm := perm_workerSortIndices sort entries (candidateIndices groups)
  have hpieces := (scheduled_pieces_perm env.schedule (by decide : 0 < fullBatchItemCapacity)
    (workerSortIndicesBySizeDesc sort entries (candidateIndices groups))).trans hperm
  have hsublist := fullExecuted_sublist env algorithm
    (workerSortIndicesBySizeDesc sort entries (candidateIndices groups)) 0
    (env.schedule.run (pieceCount fullBatchItemCapacity
      (workerSortIndicesBySizeDesc sort entries (candidateIndices groups))))
    (⟨entries, fun _ => .zeroed lib⟩ : FullState lib)
  exact ⟨hsublist.nodup (hpieces.nodup_iff.mpr (nodup_candidateIndices hsep)),
    fun i hi => hpieces.mem_iff.mp (hsublist.subset hi)⟩

/-- **A full pass that ends assigns the candidates it executed**, and leaves
the rest of the array alone. -/
theorem workerFullPass_executed {sort : SortFn} {entries result : List FileEntry}
    {groups : List Group} {forceSingleThread : Bool} {filesHashed : Nat}
    (hsep : SeparateGroups groups entries.length)
    (hpass : workerFullPass lib sort env algorithm entries groups forceSingleThread =
      .done result filesHashed) :
    filesHashed = totalCandidates groups ∧ AssignedWith
      (fullPassExecuted lib sort env algorithm entries groups forceSingleThread) entries result := by
  -- the single-thread loop is a schedule as well
  have hscheduled : workerFullPass lib sort (if forceSingleThread then env.singleThread else env)
      algorithm entries groups false = .done result filesHashed := by
    cases forceSingleThread with
    | false => exact hpass
    | true => rwa [workerFullPass_singleThread] at hpass
  unfold fullPassExecuted
  generalize (if forceSingleThread then env.singleThread else env) = env at hscheduled ⊢
  dsimp only
  have hperm := perm_workerSortIndices sort entries (candidateIndices groups)
  have hnodup := hperm.nodup_iff.mpr (nodup_candidateIndices hsep)
  unfold workerFullPass at hscheduled
  split at hscheduled
  · next hzero =>
    cases hscheduled
    have hnil : workerSortIndicesBySizeDesc sort entries (candidateIndices groups) = [] := by
      rw [candidateIndices_eq_nil hzero] at hperm ⊢
      exact hperm.eq_nil
    rw [hnil, show pieceCount fullBatchItemCapacity ([] : List Nat) = 0 by decide, run_zero]
    exact ⟨hzero.symm, .nil _⟩
  · split at hscheduled
    · cases hscheduled
    · dsimp only at hscheduled
      split at hscheduled
      · cases hscheduled
      · rw [if_neg Bool.false_ne_true] at hscheduled
        split at hscheduled
        · cases hscheduled
        · next state hrun =>
          split at hscheduled
          · cases hscheduled
            exact ⟨rfl, assignedWith_workerFullRun hnodup
              ((scheduled_pieces_perm env.schedule (by decide) _).nodup_iff.mpr hnodup)
              (fun i hi => lt_of_mem_candidateIndices hsep (hperm.mem_iff.mp hi)) hrun⟩
          · cases hscheduled

/-- **Every full pass that ends** updates its candidates with some outcomes. -/
theorem workerFullPass_outcomes {sort : SortFn} {entries result : List FileEntry}
    {groups : List Group} {forceSingleThread : Bool} {filesHashed : Nat}
    (hsep : SeparateGroups groups entries.length)
    (hpass : workerFullPass lib sort env algorithm entries groups forceSingleThread =
      .done result filesHashed) :
    ∃ full : Nat → FullOutcome,
      updatePass (fun i => (full i).apply) entries groups = .done result filesHashed := by
  obtain ⟨rfl, full, _, rfl⟩ := workerFullPass_executed hsep hpass
  obtain ⟨hnodup, hsub⟩ := @fullPassExecuted_subset lib sort env algorithm entries groups _ hsep
    forceSingleThread
  refine ⟨fun i => if i ∈ fullPassExecuted lib sort env algorithm entries groups
    forceSingleThread then full i else .skipped, ?_⟩
  rw [updatePass, ← updateAt_of_subset hnodup (nodup_candidateIndices hsep) hsub]
  · congr 1
    refine updateAt_congr hnodup fun i hi entry _ => ?_
    dsimp only
    rw [if_pos hi]
  · intro i hi entry
    dsimp only
    rw [if_neg hi]
    rfl

end Full

end BcDuplicate
