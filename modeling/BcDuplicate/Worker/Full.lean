import BcDuplicate.Worker.Batch
import BcDuplicate.Worker.Fast

/-!
# BcDuplicate.Worker.Full

The full pass when slots initialise and no stop signal comes.  As long as the
rings of the workers are kept (`KeepsRings`), one iteration after the other
updates the candidates of its batch, on whichever worker (`RunReady.iter`), so
the pass is one update of the candidates under every schedule and every
assignment to workers, and in the single-thread loop (`workerFullPass_eq`).

A worker whose ring a failed batch has left busy decides the files of its next
batch by those of the failed one (`reused_ring_shows`).
-/

namespace BcDuplicate

open Sorting
open Updates

/-! ## the rings of a run -/

/-- The batches a worker processes, in order. -/
def workerBatches (order : List (Nat × Nat)) (worker : Nat) : List Nat :=
  (order.filter fun step => step.2 = worker).map Prod.fst

theorem workerBatches_cons (batch worker : Nat) (order : List (Nat × Nat)) (other : Nat) :
    workerBatches ((batch, worker) :: order) other =
      if worker = other then batch :: workerBatches order other else workerBatches order other := by
  unfold workerBatches
  rw [List.filter_cons]
  by_cases hother : worker = other
  · rw [if_pos (by simpa using hother), if_pos hother, List.map_cons]
  · rw [if_neg (by simpa using hother), if_neg hother]

/-- Slots initialise, and no stop signal comes. -/
structure FullEnvironment.Unstopped (env : FullEnvironment) : Prop where
  ready : ∀ turn, env.attempt turn = ⟨true, true, true, true⟩
  shouldStop : ∀ turn, env.shouldStop turn = false
  loopShouldStop : ∀ turn, env.loopShouldStop turn = false
  allocatesIndices : env.allocatesIndices = true
  registersSlot : env.registersSlot = true
  dispatchOk : env.dispatchOk = true

/-- Nor does a submit or a wait of a ring fail. -/
structure FullEnvironment.Undisturbed (env : FullEnvironment) : Prop extends env.Unstopped where
  works : ∀ worker n, (env.scripts worker n).Works

section Pass

variable {lib : HashLibrary} {env : FullEnvironment} {algorithm : Algorithm} {indices : List Nat}

theorem mem_of_mem_piece {α : Type} {size index : Nat} {l : List α} {a : α}
    (h : a ∈ piece size l index) : a ∈ l := List.mem_of_mem_drop (List.mem_of_mem_take h)

/-- The items of the `batch`-th batch, in a slot nothing used before. -/
def itemsOfBatch (lib : HashLibrary) (env : FullEnvironment) (algorithm : Algorithm)
    (entries : List FileEntry) (indices : List Nat) (batch : Nat) :
    List (BatchItem (ConsumerState lib)) :=
  batchItems env algorithm (FullSlot.zeroed lib) entries
    (piece fullBatchItemCapacity indices batch)

/-- **The rings of a run are kept.**  Every wait returns, no worker uses its
ring for a file after a batch of it failed, and what a failing batch leaves to
the synchronous reader is stored as the ring would store it. -/
structure KeepsRings (lib : HashLibrary) (env : FullEnvironment) (algorithm : Algorithm)
    (entries : List FileEntry) (indices : List Nat) (order : List (Nat × Nat)) : Prop where
  returns : ∀ worker n batch, (workerBatches order worker)[n]? = some batch →
    ((env.scripts worker n).reaps
      (fittingItems 0 (itemsOfBatch lib env algorithm entries indices batch)).length).2 ≠ .blocked
  noReuse : ∀ worker, NoReuse (env.scripts worker) 0
    ((workerBatches order worker).map (itemsOfBatch lib env algorithm entries indices))
  alike : ∀ worker n batch, (workerBatches order worker)[n]? = some batch →
    LeftAlike lib env algorithm (env.scripts worker n) entries
      (piece fullBatchItemCapacity indices batch)

/-- Rings that work are kept. -/
theorem KeepsRings.of_works (hworks : ∀ worker n, (env.scripts worker n).Works)
    {entries : List FileEntry} (hbounds : ∀ i ∈ indices, i < entries.length)
    (order : List (Nat × Nat)) : KeepsRings lib env algorithm entries indices order := by
  have hreaps : ∀ worker n batch, ((env.scripts worker n).reaps (fittingItems 0
      (itemsOfBatch lib env algorithm entries indices batch)).length).2 = .completed := by
    intro worker n batch
    refine hworks worker n _ (Nat.le_trans (length_fittingItems_le 0 _) ?_)
    have hcount := @length_batchItems lib env algorithm (FullSlot.zeroed lib)
      (piece fullBatchItemCapacity indices batch) entries
      (fun i hi => hbounds i (mem_of_mem_piece hi))
    exact (Nat.le_of_eq hcount).trans (List.length_take_le _ _)
  refine ⟨fun worker n batch _ => ?_, fun worker a b chunk later _ ha _ hfails => ?_,
    fun worker n batch _ k index entry _ _ hleft => ?_⟩
  · rw [hreaps]
    exact fun hc => (nomatch hc)
  · rw [List.getElem?_map] at ha
    obtain ⟨batch, _, rfl⟩ := Option.map_eq_some_iff.mp ha
    unfold ChunkScript.FailsOn at hfails
    rw [hreaps] at hfails
    cases hfails
  · cases hleft with
    | inl hfits => exact storesAlike_of_not_fits hfits
    | inr hfailed =>
        have hfails := hfailed.1
        unfold ChunkScript.FailsOn at hfails
        rw [show batchItems env algorithm (FullSlot.zeroed lib) entries
          (piece fullBatchItemCapacity indices batch) =
            itemsOfBatch lib env algorithm entries indices batch from rfl, hreaps] at hfails
        cases hfails

/-- **A worker before its batches**: its ring is ready for them, and what they
leave to the synchronous reader is stored as by their own route. -/
structure WorkerReady (lib : HashLibrary) (env : FullEnvironment) (algorithm : Algorithm)
    (entries : List FileEntry) (indices : List Nat) (worker : Nat) (batches : List Nat)
    (slot : FullSlot lib) : Prop where
  ring : ReadyFor (env.scripts worker) slot.ring
    (batches.map (itemsOfBatch lib env algorithm entries indices))
  returns : ∀ n batch, batches[n]? = some batch →
    ((env.scripts worker (slot.ring.driven + n)).reaps
      (fittingItems 0 (itemsOfBatch lib env algorithm entries indices batch)).length).2 ≠ .blocked
  alike : ∀ n batch, batches[n]? = some batch →
    LeftAlike lib env algorithm (env.scripts worker (slot.ring.driven + n)) entries
      (piece fullBatchItemCapacity indices batch)
  unused : slot.ringInitialised = false → slot.ring = Ring.init

/-- With rings that are kept, every worker starts ready. -/
theorem KeepsRings.workerReady {entries : List FileEntry} {order : List (Nat × Nat)}
    (h : KeepsRings lib env algorithm entries indices order) (worker : Nat) :
    WorkerReady lib env algorithm entries indices worker (workerBatches order worker)
      (.zeroed lib) where
  ring := Or.inl ⟨Ring.quiescent_init, h.noReuse worker⟩
  returns n batch hn := by
    rw [show (FullSlot.zeroed lib).ring.driven = 0 from rfl, Nat.zero_add]
    exact h.returns worker n batch hn
  alike n batch hn := by
    rw [show (FullSlot.zeroed lib).ring.driven = 0 from rfl, Nat.zero_add]
    exact h.alike worker n batch hn
  unused _ := rfl

/-- **Before the iterations `order`** every worker is ready for the batches it
still gets, and the candidates of these batches are as they were. -/
structure RunReady (lib : HashLibrary) (env : FullEnvironment) (algorithm : Algorithm)
    (entries : List FileEntry) (indices : List Nat) (order : List (Nat × Nat))
    (state : FullState lib) : Prop where
  workers : ∀ worker, WorkerReady lib env algorithm entries indices worker
    (workerBatches order worker) (state.slots worker)
  separate : (order.flatMap fun step => piece fullBatchItemCapacity indices step.1).Nodup
  nonempty : ∀ step ∈ order, step.1 * fullBatchItemCapacity < indices.length
  unchanged : ∀ step ∈ order, ∀ i ∈ piece fullBatchItemCapacity indices step.1,
    state.entries[i]? = entries[i]?

/-- Making a slot ready leaves the ring of a slot in use, and starts that of an
unused one. -/
theorem ring_fullEnsureSlot {slot : FullSlot lib}
    (hunused : slot.ringInitialised = false → slot.ring = Ring.init) :
    ∃ slot' : FullSlot lib, slot'.ring = slot.ring ∧ slot'.ringInitialised = true ∧
      fullEnsureSlot ⟨true, true, true, true⟩ slot = (slot', true) := by
  unfold fullEnsureSlot
  cases hring : slot.ringInitialised with
  | true => cases hstates : slot.xxhStatesReady <;> simp [hring, hstates]
  | false => cases hstates : slot.xxhStatesReady <;> simp [hunused hring]

/-- A batch that is not past the end has candidates. -/
theorem piece_ne_nil_of_lt {batch : Nat}
    (hbatch : batch * fullBatchItemCapacity < indices.length) :
    piece fullBatchItemCapacity indices batch ≠ [] := by
  intro hnil
  have hlen := congrArg List.length hnil
  rw [piece, List.length_take, List.length_drop, List.length_nil] at hlen
  have hcapacity : 0 < fullBatchItemCapacity := by decide
  omega

/-- **One batch** of a worker that is ready updates its candidates, and leaves
the worker ready for its later ones. -/
theorem WorkerReady.process (hlib : lib.Resets) {entries current : List FileEntry}
    {worker batch : Nat} {later : List Nat} {slot : FullSlot lib}
    (h : WorkerReady lib env algorithm entries indices worker (batch :: later) slot)
    (hbatch : batch * fullBatchItemCapacity < indices.length)
    (hnodup : (piece fullBatchItemCapacity indices batch).Nodup)
    (hbounds : ∀ i ∈ indices, i < current.length)
    (hunchanged : ∀ i ∈ piece fullBatchItemCapacity indices batch, current[i]? = entries[i]?) :
    ∃ ensured slot' : FullSlot lib,
      fullEnsureSlot ⟨true, true, true, true⟩ slot = (ensured, true) ∧
      fullProcessBatch env algorithm (env.scripts worker) ensured
          (piece fullBatchItemCapacity indices batch) current =
        (updateAt (fullUpdate lib env algorithm) (piece fullBatchItemCapacity indices batch)
          current, slot', true) ∧
      WorkerReady lib env algorithm entries indices worker later slot' := by
  have hitems : batchItems env algorithm (FullSlot.zeroed lib) current
      (piece fullBatchItemCapacity indices batch) =
        itemsOfBatch lib env algorithm entries indices batch := batchItems_congr _ hunchanged
  obtain ⟨ensured, hring, hinitialised, hensure⟩ := ring_fullEnsureSlot h.unused
  have hready := h.ring
  have hreturns := h.returns 0 batch rfl
  have halike := h.alike 0 batch rfl
  rw [List.map_cons, ← hitems, ← hring] at hready
  rw [← hitems, ← hring, Nat.add_zero] at hreturns
  rw [← hring, Nat.add_zero] at halike
  obtain ⟨slot', hinitialised', hdriven, hnext, hprocess⟩ := fullProcessBatch_eq hlib
    (piece_ne_nil_of_lt hbatch) (List.length_take_le _ _) hnodup
    (fun i hi => hbounds i (mem_of_mem_piece hi)) hready hreturns
    (halike.congr fun i hi => (hunchanged i hi).symm)
  rw [hring] at hdriven
  refine ⟨ensured, slot', hensure, hprocess, hnext, fun n other hn => ?_, fun n other hn => ?_,
    fun hfalse => ?_⟩
  · rw [hdriven, Nat.add_assoc, Nat.add_comm 1]
    exact h.returns (n + 1) other hn
  · rw [hdriven, Nat.add_assoc, Nat.add_comm 1]
    exact h.alike (n + 1) other hn
  · rw [hinitialised', hinitialised] at hfalse
    exact absurd hfalse Bool.noConfusion

/-- **One iteration**, on whichever worker, updates the candidates of its
batch, and leaves the run ready for the rest. -/
theorem RunReady.iter (hlib : lib.Resets) (henv : env.Unstopped) {entries : List FileEntry}
    {batch worker : Nat} {order : List (Nat × Nat)} {state : FullState lib}
    (h : RunReady lib env algorithm entries indices ((batch, worker) :: order) state)
    (hbounds : ∀ i ∈ indices, i < state.entries.length) (turn : Nat) :
    ∃ state' : FullState lib,
      workerFullIter env algorithm indices turn batch worker state = (state', true) ∧
        state'.entries = updateAt (fullUpdate lib env algorithm)
          (piece fullBatchItemCapacity indices batch) state.entries ∧
        RunReady lib env algorithm entries indices order state' := by
  have hworker := h.workers worker
  rw [workerBatches_cons, if_pos rfl] at hworker
  have hseparate := h.separate
  rw [List.flatMap_cons, List.nodup_append'] at hseparate
  obtain ⟨hnodup, hlater, hdisjoint⟩ := hseparate
  have hpast := h.nonempty (batch, worker) List.mem_cons_self
  obtain ⟨ensured, slot', hensure, hprocess, hnext⟩ := hworker.process hlib hpast hnodup hbounds
    (h.unchanged (batch, worker) List.mem_cons_self)
  refine ⟨⟨updateAt (fullUpdate lib env algorithm) (piece fullBatchItemCapacity indices batch)
    state.entries, Function.update state.slots worker slot'⟩, ?_, rfl, fun other => ?_, hlater,
    fun step hstep => h.nonempty step (List.mem_cons_of_mem _ hstep), fun step hstep i hi => ?_⟩
  · rw [workerFullIter, henv.shouldStop, if_neg Bool.false_ne_true, henv.ready, hensure]
    dsimp only at hpast ⊢
    rw [if_neg (Nat.not_le.mpr hpast), hprocess]
  · -- only the slot of the worker has changed
    dsimp only
    by_cases hother : worker = other
    · subst hother
      rw [Function.update_self]
      exact hnext
    · have hready := h.workers other
      rw [workerBatches_cons, if_neg hother] at hready
      rw [Function.update_of_ne (Ne.symm hother)]
      exact hready
  · have hnot : i ∉ piece fullBatchItemCapacity indices batch := fun hmem =>
      hdisjoint hmem (List.mem_flatMap.mpr ⟨step, hstep, hi⟩)
    dsimp only
    rw [getElem?_updateAt_of_notMem _ _ hnot]
    exact h.unchanged step (List.mem_cons_of_mem _ hstep) i hi

/-- **Iterations in any order on any workers.** -/
theorem RunReady.run (hlib : lib.Resets) (henv : env.Unstopped) {entries : List FileEntry}
    {order : List (Nat × Nat)} {state : FullState lib}
    (h : RunReady lib env algorithm entries indices order state)
    (hbounds : ∀ i ∈ indices, i < state.entries.length) (turn : Nat) :
    ∃ state' : FullState lib,
      workerFullRun env algorithm indices turn order state = some state' ∧
        state'.entries = updateAt (fullUpdate lib env algorithm)
          (order.flatMap fun step => piece fullBatchItemCapacity indices step.1)
            state.entries := by
  induction order generalizing turn state with
  | nil => exact ⟨state, rfl, rfl⟩
  | cons step order ih =>
      obtain ⟨batch, worker⟩ := step
      obtain ⟨next, hiter, hentries, hready⟩ := h.iter hlib henv hbounds turn
      obtain ⟨state', hrun, hupdated⟩ := ih hready (fun i hi => by
        rw [hentries, length_updateAt]
        exact hbounds i hi) (turn + 1)
      refine ⟨state', ?_, ?_⟩
      · rw [workerFullRun, hiter]
        exact hrun
      · rw [hupdated, hentries, List.flatMap_cons, updateAt_append]

/-! ### the single-thread loop -/

/-- The schedule the single-thread loop amounts to: once a poll of the loop
finds the flag set, it skips the iterations from there on. -/
def FullEnvironment.singleThread (env : FullEnvironment) : FullEnvironment :=
  { env with
    shouldStop := fun turn =>
      env.shouldStop turn || (List.range (turn + 1)).any env.loopShouldStop
    schedule := .sequential
    dispatchOk := true }

theorem FullEnvironment.Unstopped.singleThread (henv : env.Unstopped) :
    env.singleThread.Unstopped where
  ready := henv.ready
  shouldStop turn := by
    simp [FullEnvironment.singleThread, henv.shouldStop, henv.loopShouldStop]
  loopShouldStop := henv.loopShouldStop
  allocatesIndices := henv.allocatesIndices
  registersSlot := henv.registersSlot
  dispatchOk := rfl

/-- Iterations that all find the flag set leave the state alone. -/
theorem workerFullRun_stopped {turn : Nat} (hstop : ∀ later, turn ≤ later →
    env.shouldStop later = true) (order : List (Nat × Nat)) (state : FullState lib) :
    workerFullRun env algorithm indices turn order state = some state := by
  induction order generalizing turn with
  | nil => rfl
  | cons step order ih =>
      rw [workerFullRun, workerFullIter, if_pos (hstop turn (Nat.le_refl turn))]
      exact ih fun later hlater => hstop later (Nat.le_of_succ_le hlater)

/-- **The single-thread loop is one of the schedules.** -/
theorem workerFullLoop_eq_run {turn : Nat} (hbefore : ∀ k < turn, env.loopShouldStop k = false)
    (batches : List Nat) (state : FullState lib) :
    workerFullLoop env algorithm indices turn batches state =
      workerFullRun env.singleThread algorithm indices turn
        (batches.map fun batch => (batch, 0)) state := by
  induction batches generalizing turn state with
  | nil => rfl
  | cons batch batches ih =>
      rw [workerFullLoop, List.map_cons]
      cases hloop : env.loopShouldStop turn with
      | true =>
          rw [if_pos rfl, workerFullRun_stopped]
          intro later hlater
          simp only [FullEnvironment.singleThread, Bool.or_eq_true, List.any_eq_true]
          exact Or.inr ⟨turn, List.mem_range.mpr (Nat.lt_succ_of_le hlater), hloop⟩
      | false =>
          have hbefore' : ∀ k < turn + 1, env.loopShouldStop k = false := by
            intro k hk
            cases Nat.lt_succ_iff_lt_or_eq.mp hk with
            | inl hlt => exact hbefore k hlt
            | inr heq => rw [heq, hloop]
          have hpoll : env.singleThread.shouldStop turn = env.shouldStop turn := by
            have hnone : (List.range (turn + 1)).any env.loopShouldStop = false := by
              rw [List.any_eq_false]
              exact fun k hk => by simp [hbefore' k (List.mem_range.mp hk)]
            simp [FullEnvironment.singleThread, hnone]
          have hiter : workerFullIter env.singleThread algorithm indices turn batch 0 state =
              workerFullIter env algorithm indices turn batch 0 state := by
            unfold workerFullIter
            rw [hpoll]
            rfl
          rw [if_neg Bool.false_ne_true, workerFullRun, hiter]
          split
          · rfl
          · exact ih hbefore' _

theorem workerFullPass_singleThread (sort : SortFn) (entries : List FileEntry)
    (groups : List Group) :
    workerFullPass lib sort env algorithm entries groups true =
      workerFullPass lib sort env.singleThread algorithm entries groups false := by
  unfold workerFullPass
  simp only [if_true, Bool.false_eq_true, if_false,
    @workerFullLoop_eq_run lib env algorithm _ 0 (fun k hk => absurd hk (Nat.not_lt_zero k))]
  rfl

/-- The rings are kept in a pass over these groups. -/
def FullEnvironment.KeepsRings (env : FullEnvironment) (lib : HashLibrary) (sort : SortFn)
    (algorithm : Algorithm) (entries : List FileEntry) (groups : List Group) : Prop :=
  BcDuplicate.KeepsRings lib env algorithm entries
    (workerSortIndicesBySizeDesc sort entries (candidateIndices groups))
    (env.schedule.run (pieceCount fullBatchItemCapacity
      (workerSortIndicesBySizeDesc sort entries (candidateIndices groups))))

/-- **The scheduled pass updates every candidate once**, when the rings are
kept. -/
theorem workerFullPass_scheduled (hlib : lib.Resets) (henv : env.Unstopped) (sort : SortFn)
    (entries : List FileEntry) {groups : List Group}
    (hsep : SeparateGroups groups entries.length)
    (hrings : env.KeepsRings lib sort algorithm entries groups) :
    workerFullPass lib sort env algorithm entries groups false =
      .done (updateAt (fullUpdate lib env algorithm) (candidateIndices groups) entries)
        (totalCandidates groups) := by
  unfold workerFullPass
  by_cases hzero : totalCandidates groups = 0
  · rw [if_pos hzero, candidateIndices_eq_nil hzero, hzero]
    rfl
  · rw [if_neg hzero, henv.allocatesIndices, henv.registersSlot,
      if_neg (Bool.noConfusion : ¬true = false)]
    dsimp only
    rw [if_neg (Bool.noConfusion : ¬true = false), if_neg Bool.false_ne_true]
    unfold FullEnvironment.KeepsRings at hrings
    have hperm := perm_workerSortIndices sort entries (candidateIndices groups)
    have hnodup := nodup_candidateIndices hsep
    have hbounds : ∀ i ∈ workerSortIndicesBySizeDesc sort entries (candidateIndices groups),
        i < entries.length := fun i hi =>
      lt_of_mem_candidateIndices hsep (hperm.mem_iff.mp hi)
    generalize workerSortIndicesBySizeDesc sort entries (candidateIndices groups) = indices
      at hperm hbounds hrings
    have hnodup' : indices.Nodup := hperm.nodup_iff.mpr hnodup
    have hcapacity : 0 < fullBatchItemCapacity := by decide
    -- whatever the order of the batches, they are the candidates rearranged
    have hpieces := scheduled_pieces_perm env.schedule hcapacity indices
    have hready : RunReady lib env algorithm entries indices
        (env.schedule.run (pieceCount fullBatchItemCapacity indices))
        ⟨entries, fun _ => .zeroed lib⟩ :=
      { workers := hrings.workerReady
        separate := hpieces.nodup_iff.mpr hnodup'
        nonempty := fun step hstep => by
          have hlt := piece_ne_nil hcapacity (l := indices)
            (fst_lt_of_mem_run env.schedule hstep)
          by_contra hpast
          exact hlt (by rw [piece, List.drop_of_length_le (Nat.not_lt.mp hpast), List.take_nil])
        unchanged := fun step hstep i hi => rfl }
    obtain ⟨state', hrun, hentries⟩ := hready.run hlib henv hbounds 0
    dsimp only at hentries
    rw [updateAt_perm _ (hpieces.trans hperm) (hpieces.nodup_iff.mpr hnodup')] at hentries
    rw [hrun, henv.dispatchOk, ← hentries]
    rfl

/-- **The full pass updates every candidate once**, under every schedule and
in the single-thread loop. -/
theorem workerFullPass_eq (hlib : lib.Resets) (henv : env.Undisturbed) (sort : SortFn)
    (entries : List FileEntry) {groups : List Group}
    (hsep : SeparateGroups groups entries.length) (forceSingleThread : Bool) :
    workerFullPass lib sort env algorithm entries groups forceSingleThread =
      .done (updateAt (fullUpdate lib env algorithm) (candidateIndices groups) entries)
        (totalCandidates groups) := by
  have hbounds : ∀ i ∈ workerSortIndicesBySizeDesc sort entries (candidateIndices groups),
      i < entries.length := fun i hi =>
    lt_of_mem_candidateIndices hsep ((perm_workerSortIndices sort entries _).mem_iff.mp hi)
  cases forceSingleThread with
  | false =>
      exact workerFullPass_scheduled hlib henv.toUnstopped sort entries hsep
        (KeepsRings.of_works henv.works hbounds _)
  | true =>
      rw [workerFullPass_singleThread]
      exact workerFullPass_scheduled hlib henv.toUnstopped.singleThread sort entries hsep
        (@KeepsRings.of_works lib env.singleThread algorithm _ henv.works entries hbounds _)

/-- **Schedules do not show**, in runs that keep their rings.  Both passes
leave the array in which every candidate is updated once, from its own file
alone, and all other entries are as they were: the full pass under any schedule
and its single-thread loop, the fast pass under any two schedules.  Each
candidate is at one position of one batch. -/
theorem passes_schedule_independent (hlib : lib.Resets) (sort : SortFn)
    (entries : List FileEntry) (groups : List Group)
    (hsep : SeparateGroups groups entries.length) (algorithm : Algorithm)
    (env env' : FullEnvironment) (henv : env.Unstopped) (henv' : env'.Unstopped)
    (hrings : env.KeepsRings lib sort algorithm entries groups)
    (hrings' : env'.singleThread.KeepsRings lib sort algorithm entries groups)
    (hview : env'.view = env.view) (fast fast' : FastEnvironment) (hfast : fast.Undisturbed)
    (hfast' : fast'.Undisturbed) (hfastView : fast'.view = fast.view) :
    (∃ result : List FileEntry,
      workerFullPass lib sort env algorithm entries groups false =
        .done result (totalCandidates groups) ∧
      workerFullPass lib sort env' algorithm entries groups true =
        .done result (totalCandidates groups) ∧
      ∀ i, result[i]? = if i ∈ candidateIndices groups
        then (entries[i]?).map (fullUpdate lib env algorithm i) else entries[i]?) ∧
    (∃ result : List FileEntry,
      workerFastPass lib sort fast entries groups = .done result (totalCandidates groups) ∧
      workerFastPass lib sort fast' entries groups = .done result (totalCandidates groups) ∧
      ∀ i, result[i]? = if i ∈ candidateIndices groups
        then (entries[i]?).map (fastUpdate lib fast i) else entries[i]?) ∧
    (candidateIndices groups).Nodup ∧
    ((env.schedule.run (pieceCount fullBatchItemCapacity
        (workerSortIndicesBySizeDesc sort entries (candidateIndices groups)))).flatMap fun step =>
      piece fullBatchItemCapacity
        (workerSortIndicesBySizeDesc sort entries (candidateIndices groups)) step.1).Perm
      (candidateIndices groups) := by
  have hnodup := nodup_candidateIndices hsep
  have hupdate : fullUpdate lib env' algorithm = fullUpdate lib env algorithm := by
    funext index entry
    unfold fullUpdate fullBatchItem
    rw [hview]
  have hfastUpdate : fastUpdate lib fast' = fastUpdate lib fast := by
    funext index entry
    unfold fastUpdate
    rw [hfastView]
  refine ⟨⟨_, workerFullPass_scheduled hlib henv sort entries hsep hrings, ?_, ?_⟩,
    ⟨_, workerFastPass_eq hsep hfast, ?_, ?_⟩, hnodup, ?_⟩
  · rw [workerFullPass_singleThread,
      workerFullPass_scheduled hlib henv'.singleThread sort entries hsep hrings']
    exact congrArg (PassResult.done · _) (congrArg (updateAt · _ _) hupdate)
  · exact getElem?_updateAt _ hnodup entries
  · rw [workerFastPass_eq hsep hfast', hfastUpdate]
  · exact getElem?_updateAt _ hnodup entries
  · exact (scheduled_pieces_perm env.schedule (by decide) _).trans
      (perm_workerSortIndices sort entries _)

end Pass

/-! ### a library and two schedules -/

/-- Hash states that keep what they were fed since their reset. -/
def HashLibrary.recording : HashLibrary where
  Xxh3State := Bytes
  Sha256Context := Bytes
  xxh3 bytes := UInt64.ofNat bytes.length
  createState := []
  reset64 _ := []
  update64 := (· ++ ·)
  digest64 bytes := UInt64.ofNat bytes.length
  reset128 _ := []
  update128 := (· ++ ·)
  digest128 bytes := (UInt64.ofNat bytes.length, UInt64.ofNat bytes.sum.toNat)
  blankContext := []
  sha256Init _ := ([], true)
  sha256Update context bytes := (context ++ bytes, true)
  sha256Finalize context := (digestBuffer context, true)

theorem resets_recording : HashLibrary.recording.Resets :=
  ⟨fun _ _ _ => rfl, fun _ _ _ => rfl, fun _ _ _ => rfl, fun _ _ _ => rfl⟩

/-- Iterations from the last to the first, on workers in turn. -/
def Schedule.backwards : Schedule where
  run count := (List.range count).reverse.map fun i => (i, i % 2)
  perm count := by
    rw [List.map_map]
    exact (List.Perm.of_eq (List.map_id _)).trans (List.reverse_perm _)

/-- Every file is plain and holds the byte of its position. -/
def FullEnvironment.plain (schedule : Schedule) : FullEnvironment where
  view index _ := .plain [index.toUInt8]
  scripts _ _ := .inOrder
  attempt _ := ⟨true, true, true, true⟩
  shouldStop _ := false
  loopShouldStop _ := false
  schedule := schedule
  allocatesIndices := true
  registersSlot := true
  dispatchOk := true

theorem FullEnvironment.undisturbed_plain (schedule : Schedule) :
    (FullEnvironment.plain schedule).Undisturbed :=
  ⟨⟨fun _ => rfl, fun _ => rfl, fun _ => rfl, rfl, rfl, rfl⟩, fun _ _ => works_inOrder⟩

/-- Every file is readable and holds the byte of its position. -/
def FastEnvironment.plain (schedule : Schedule) : FastEnvironment where
  view index _ := ⟨[index.toUInt8], none, none, .whole fastHashBlockSize, .whole fastHashBlockSize⟩
  shouldStop _ := false
  schedule := schedule
  allocatesIndices := true
  dispatchOk := true

theorem FastEnvironment.undisturbed_plain (schedule : Schedule) :
    (FastEnvironment.plain schedule).Undisturbed := ⟨fun _ => rfl, rfl, rfl⟩

/-- Forty files of one byte make two batches. -/
def fortyEntries : List FileEntry :=
  (List.range 40).map fun i => .discovered [i.toUInt8] 1 0 i

/-! ### a submit that fails once -/

/-- Each batch on a worker of its own. -/
def Schedule.spread : Schedule where
  run count := (List.range count).map fun i => (i, i)
  perm count := by
    rw [List.map_map]
    exact .of_eq (List.map_id _)

/-- The first submit of worker 0 fails.  Its next submit takes the four entries
of each of 33 files. -/
def FullEnvironment.refusedOnce : FullEnvironment :=
  { FullEnvironment.plain .spread with
    scripts := fun worker n =>
      if worker = 0 then if n = 0 then ⟨.error Errno.EIO, [], noStale⟩ else oneChainScript 132
      else oneChainScript 4 }

/-- 33 files of one byte make two batches, the second of one file. -/
def thirtyThreeEntries : List FileEntry :=
  (List.range 33).map fun i => .discovered [i.toUInt8] 1 0 i

/-- Each worker gets one of the two batches at most. -/
theorem workerBatches_spread {worker n batch : Nat}
    (hn : (workerBatches [(0, 0), (1, 1)] worker)[n]? = some batch) :
    n = 0 ∧ worker = batch ∧ (batch = 0 ∨ batch = 1) := by
  rw [workerBatches_cons, workerBatches_cons] at hn
  by_cases hzero : 0 = worker
  · subst hzero
    cases n with
    | zero =>
        cases hn
        exact ⟨rfl, rfl, Or.inl rfl⟩
    | succ n => cases n <;> cases hn
  · by_cases hone : 1 = worker
    · subst hone
      cases n with
      | zero =>
          cases hn
          exact ⟨rfl, rfl, Or.inr rfl⟩
      | succ n => cases n <;> cases hn
    · rw [if_neg hzero, if_neg hone] at hn
      cases n <;> cases hn

theorem sorted_thirtyThreeEntries : workerSortIndicesBySizeDesc insertionSort thirtyThreeEntries
    (candidateIndices [⟨0, 33, 1⟩]) = List.range 33 := by decide +kernel

theorem separate_thirtyThreeEntries : SeparateGroups [⟨0, 33, 1⟩] thirtyThreeEntries.length :=
  ⟨by simp [Group.run, Runs.Run.InBounds, thirtyThreeEntries], by simp⟩

/-- Each batch on a worker of its own, the failed ring is not used again. -/
theorem keepsRings_refusedOnce :
    FullEnvironment.refusedOnce.KeepsRings .recording insertionSort .sha256 thirtyThreeEntries
      [⟨0, 33, 1⟩] := by
  unfold FullEnvironment.KeepsRings
  rw [sorted_thirtyThreeEntries, show FullEnvironment.refusedOnce.schedule.run
    (pieceCount fullBatchItemCapacity (List.range 33)) = [(0, 0), (1, 1)] by decide +kernel]
  refine ⟨fun worker n batch hn => ?_, fun worker a b chunk later hab ha hb => ?_,
    fun worker n batch hn k index entry hindex hentry _ => ?_⟩
  · obtain ⟨rfl, rfl, rfl | rfl⟩ := workerBatches_spread hn
    · decide +kernel
    · decide +kernel
  · rw [List.getElem?_map] at hb
    obtain ⟨batch, hbatch, _⟩ := Option.map_eq_some_iff.mp hb
    obtain ⟨rfl, _⟩ := workerBatches_spread hbatch
    exact absurd hab (Nat.not_lt_zero a)
  · have hlt : index < 33 := by
      have hmem := mem_of_mem_piece (List.mem_of_getElem? hindex)
      exact List.mem_range.mp hmem
    have hsize : entry.fileSize = 1 := by
      rw [thirtyThreeEntries, List.getElem?_map, List.getElem?_range hlt] at hentry
      cases hentry
      rfl
    have halike : ∀ i ∈ List.range 33,
        fileChunks (.plain [i.toUInt8]) = itemChunks (.plain [i.toUInt8]) 1 := by decide +kernel
    intro other
    rw [hsize]
    exact congrArg (freshStored .recording .sha256 · other) (halike index (List.mem_range.mpr hlt))

/-- The files of the failed batch, read synchronously, get the digests they get
from the ring of the single-thread loop. -/
theorem passes_schedule_independent_refusedOnce : ∃ result : List FileEntry,
    workerFullPass .recording insertionSort .refusedOnce .sha256 thirtyThreeEntries
        [⟨0, 33, 1⟩] false = .done result 33 ∧
      workerFullPass .recording insertionSort (.plain .backwards) .sha256 thirtyThreeEntries
        [⟨0, 33, 1⟩] true = .done result 33 := by
  have hbounds : ∀ i ∈ workerSortIndicesBySizeDesc insertionSort thirtyThreeEntries
      (candidateIndices [⟨0, 33, 1⟩]), i < thirtyThreeEntries.length := fun i hi =>
    lt_of_mem_candidateIndices separate_thirtyThreeEntries
      ((perm_workerSortIndices insertionSort thirtyThreeEntries _).mem_iff.mp hi)
  have hworks := (FullEnvironment.undisturbed_plain .backwards).works
  obtain ⟨⟨result, hspread, hsequential, _⟩, _⟩ := passes_schedule_independent resets_recording
    insertionSort thirtyThreeEntries [⟨0, 33, 1⟩] separate_thirtyThreeEntries .sha256 .refusedOnce
    (.plain .backwards) ⟨fun _ => rfl, fun _ => rfl, fun _ => rfl, rfl, rfl, rfl⟩
    (FullEnvironment.undisturbed_plain _).toUnstopped keepsRings_refusedOnce
    (@KeepsRings.of_works _ (FullEnvironment.plain .backwards).singleThread _ _ hworks _ hbounds _)
    rfl (.plain .backwards) (.plain .sequential) (FastEnvironment.undisturbed_plain _)
    (FastEnvironment.undisturbed_plain _) rfl
  exact ⟨result, hspread, hsequential⟩

/-- The digest and errno a full pass stores for the file at a position. -/
def PassResult.storedAt (index : Nat) : PassResult → Option (Bytes × Nat)
  | .done entries _ => (entries[index]?).map fun entry => (entry.fullHash, entry.fullHashErrno)
  | _ => none

/-- **A schedule shows where a ring is used again.**  In the single-thread loop
the last file gets the digest of the first one, whose operations the failed
submit has left on the ring; on a worker of its own it gets its own. -/
theorem reused_ring_shows :
    ¬∀ (entries : List FileEntry) (groups : List Group) (env : FullEnvironment),
      SeparateGroups groups entries.length → env.Unstopped →
        workerFullPass .recording insertionSort env .sha256 entries groups false =
          workerFullPass .recording insertionSort env .sha256 entries groups true := by
  intro h
  have hsame := congrArg (PassResult.storedAt 32) (h thirtyThreeEntries [⟨0, 33, 1⟩] .refusedOnce
    separate_thirtyThreeEntries ⟨fun _ => rfl, fun _ => rfl, fun _ => rfl, rfl, rfl, rfl⟩)
  have hspread : (workerFullPass .recording insertionSort .refusedOnce .sha256 thirtyThreeEntries
      [⟨0, 33, 1⟩] false).storedAt 32 = some (digestBuffer [32], 0) := by decide +kernel
  have hsequential : (workerFullPass .recording insertionSort .refusedOnce .sha256
      thirtyThreeEntries [⟨0, 33, 1⟩] true).storedAt 32 = some (digestBuffer [0], 0) := by
    decide +kernel
  rw [hspread, hsequential] at hsame
  exact absurd hsame (by decide)

end BcDuplicate
