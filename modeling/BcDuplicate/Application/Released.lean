import BcDuplicate.Application.WellFormed
import BcDuplicate.Grouping.Blocks
import BcDuplicate.Worker.Released

/-!
# BcDuplicate.Application.Released

What `bc_duplicate_application_run` (`src/bc_duplicate_main.c`) acquires behind
discovery: the array of entries, the buffers of the groups, and what its passes
acquire.

Each way a run can end releases these by itself, in the opposite order.  That all of
them agree is `application_run_releases`.
-/

namespace BcDuplicate

open Resources
open Sorting

/-! ## the calls of a run -/

/-- The stages that fill a buffer of groups. -/
inductive GroupStage
  | bySize
  | byFastHash
  | byFullHash
deriving DecidableEq, Repr

/-- The blocks a run allocates from its main pool.  A buffer of groups is named by
its capacity. -/
inductive PoolBlock
  | entriesArray
  | groups (stage : GroupStage) (capacity : Nat)
  | fastIndices
deriving DecidableEq, Repr

/-- What a run acquires behind discovery. -/
abbrev RunResource := PoolBlock ⊕ FullResource

/-- Calls for blocks of the pool, as calls of the run. -/
def onPool (acts : List (Act PoolBlock)) : List (Act RunResource) := acts.map (Act.map Sum.inl)

/-- Calls of the full pass and for its slots, as calls of the run. -/
def onFull (acts : List (Act FullResource)) : List (Act RunResource) := acts.map (Act.map Sum.inr)

/-- `bc_duplicate_worker_fast_pass` -/
def workerFastPassActs (env : FastEnvironment) (sizeGroups : List Group) : List (Act PoolBlock) :=
  if totalCandidates sizeGroups = 0 then []
  else if env.allocatesIndices = false then []
  else [.acquire .fastIndices, .release .fastIndices]

/-- `bc_duplicate_grouping_by_fast_hash` -/
def groupingByFastHashActs (sort : SortFn) (allocates : Nat → Bool) (entries : List FileEntry)
    (sizeGroups : List Group) : Option PoolBlock × List (Act PoolBlock) :=
  refineGroupsActs (.groups .byFastHash) sort allocates groupingFastHashLessThan
    FileEntry.fastHash entries sizeGroups

/-- `bc_duplicate_grouping_by_full_hash` -/
def groupingByFullHashActs (sort : SortFn) (allocates : Nat → Bool) (digestSize : Nat)
    (entries : List FileEntry) (fastHashGroups : List Group) :
    Option PoolBlock × List (Act PoolBlock) :=
  refineGroupsActs (.groups .byFullHash) sort allocates (groupingFullHashLessThan digestSize)
    (FileEntry.digest digestSize) entries fastHashGroups

section Application

variable {lib : HashLibrary} (env : ApplicationEnvironment lib) (flag : StopFlag)
  (answers : Nat → SlotAnswers)

/-- The full pass of the run. -/
def applicationFullPassActs (entries : List FileEntry) (groups : List Group) :
    FullHandles × List (Act FullResource) :=
  workerFullPassActs
    { env.full with
      shouldStop := fun turn => flag.isSet (.fullIter turn)
      loopShouldStop := fun turn => flag.isSet (.fullLoop turn) }
    answers env.sort entries groups (fullPassForceSingleThread env groups)

/-- From the full pass on, where there are groups by fast hash: their buffer is
released with that of the groups by full hash. -/
def fullStagesActs (entries : List FileEntry) (groups : List Group)
    (fastHashGroups : Option PoolBlock) : FullHandles × List (Act RunResource) :=
  let fullPass := applicationFullPassActs env flag answers entries groups
  let acts := onFull fullPass.2
  match applicationFullPass env flag entries groups with
  | .failed => (fullPass.1, acts ++ onPool (freeUnlessNull fastHashGroups))
  | .blocked => (fullPass.1, acts)
  | .done entries _ =>
      let digestSize := workerDigestSize env.options.algorithm
      let byFull := groupingByFullHashActs env.sort env.pools.byFullHash digestSize entries groups
      let acts := acts ++ onPool byFull.2
      match groupingByFullHash env.sort env.pools.byFullHash digestSize entries groups with
      | none => (fullPass.1, acts ++ onPool (freeUnlessNull fastHashGroups))
      | some _ =>
          (fullPass.1,
            acts ++ onPool (freeUnlessNull byFull.1 ++ freeUnlessNull fastHashGroups))

/-- From the fast pass on, with the buffers of the stages released.  The slots of
the full pass are left. -/
def hashStagesActs (entries : List FileEntry) (sizeGroups : List Group) :
    FullHandles × List (Act RunResource) :=
  let acts := onPool (workerFastPassActs env.fast sizeGroups)
  match applicationFastPass env flag entries sizeGroups with
  | .failed => (.empty, acts)
  | .blocked => (.empty, acts)
  | .done entries _ =>
      let byFast := groupingByFastHashActs env.sort env.pools.byFastHash entries sizeGroups
      let acts := acts ++ onPool byFast.2
      match groupingByFastHash env.sort env.pools.byFastHash entries sizeGroups with
      | none => (.empty, acts)
      | some fast =>
          if fast.groups.length > 0 then
            let full := fullStagesActs env flag answers fast.entries fast.groups byFast.1
            (full.1, acts ++ full.2)
          else (.empty, acts ++ onPool (freeUnlessNull byFast.1))

/-- The run on the files discovery found, with its array of entries. -/
def applicationPipelineActs (entries : List FileEntry) : FullHandles × List (Act RunResource) :=
  let bySize := groupingBySizeActs (.groups .bySize) env.sort env.copy env.pools.bySize entries
    env.options.matchHardlinks
  let acts := onPool (.acquire .entriesArray :: bySize.2)
  match groupingBySize env.sort env.copy env.pools.bySize entries env.options.matchHardlinks with
  | none => (.empty, acts ++ onPool [.release .entriesArray])
  | some sizes =>
      if sizes.groups.length = 0 then
        (.empty, acts ++ onPool (freeUnlessNull bySize.1 ++ [.release .entriesArray]))
      else
        let stages := hashStagesActs env flag answers sizes.entries sizes.groups
        match hashStages env.sort env.pools (workerDigestSize env.options.algorithm)
            (applicationFastPass env flag) (applicationFullPass env flag) sizes.entries
            sizes.groups with
        | .blocked => (stages.1, acts ++ stages.2)
        | _ => (stages.1, acts ++ stages.2 ++ onPool [free bySize.1, .release .entriesArray])

/-- `bc_duplicate_application_run`, behind discovery, where it returns.  `answers`
are those of the attempts that `env.full.attempt` sums up. -/
def applicationRunActs : FullHandles × List (Act RunResource) :=
  if env.hasMemoryContext = false ∨ env.hasParallelContext = false then (.empty, [])
  else
    match applicationDiscover env flag with
    | none => (.empty, [])
    | some discovery =>
        if discovery.ok = false then (.empty, [])
        else if flag.isSet .afterDiscovery then (.empty, [])
        else if (discovery.entries.map OwnedEntry.entry).length = 0 then (.empty, [])
        else if env.allocatesEntries = false then (.empty, [])
        else applicationPipelineActs env flag answers (discovery.entries.map OwnedEntry.entry)

end Application

/-! ## the stages -/

section Stages

variable {lib : HashLibrary} {env : ApplicationEnvironment lib} {flag : StopFlag}
  {pool : Held PoolBlock}

theorem run_workerFastPassActs (env : FastEnvironment) (sizeGroups : List Group)
    (hfree : pool .fastIndices = false) :
    run (workerFastPassActs env sizeGroups) pool = some pool := by
  unfold workerFastPassActs
  split
  · rfl
  · split
    · rfl
    · exact run_append_eq (run_acquire_holding hfree) (run_release_holding hfree)

/-- The blocks of a stage are not held. -/
def WithoutGroups (stage : GroupStage) (pool : Held PoolBlock) : Prop :=
  ∀ capacity, pool (.groups stage capacity) = false

/-- A stage leaves the blocks of another stage as they are. -/
theorem WithoutGroups.holding {stage other : GroupStage} (hpool : WithoutGroups stage pool)
    (hstage : stage ≠ other) {acts : Option PoolBlock × List (Act PoolBlock)} {failed : Prop}
    (hleaves : LeavesBlock (.groups other) pool acts failed) :
    WithoutGroups stage (holding pool acts.1) := by
  intro capacity
  refine (holding_of_ne fun r hr hsame => ?_).trans (hpool capacity)
  obtain ⟨_, hnamed⟩ := hleaves.named r hr
  obtain ⟨hother, _⟩ := PoolBlock.groups.inj (hsame.trans hnamed)
  exact hstage hother

/-- The block that a stage leaves was not held before. -/
theorem LeavesBlock.fresh {stage : GroupStage} {acts : Option PoolBlock × List (Act PoolBlock)}
    {failed : Prop} (hleaves : LeavesBlock (.groups stage) pool acts failed)
    (hpool : WithoutGroups stage pool) {r : PoolBlock} (hr : acts.1 = some r) :
    pool r = false := by
  obtain ⟨capacity, rfl⟩ := hleaves.named r hr
  exact hpool capacity

variable (answers : Nat → SlotAnswers) (hmain : 0 < env.effectiveWorkerCount)
  (hworkers : ∀ count, ∀ step ∈ env.full.schedule.run count, step.2 < env.effectiveWorkerCount)
include hmain hworkers

theorem run_applicationFullPassActs (flag : StopFlag) (pool : Held PoolBlock)
    (entries : List FileEntry) (groups : List Group) :
    run (onFull (applicationFullPassActs env flag answers entries groups).2)
        (Sum.elim pool FullHandles.empty.held) =
        some (Sum.elim pool (applicationFullPassActs env flag answers entries groups).1.held) ∧
      (applicationFullPassActs env flag answers entries groups).1.Left
        env.effectiveWorkerCount := by
  unfold applicationFullPassActs
  generalize hfull : ({ env.full with
    shouldStop := fun turn => flag.isSet (.fullIter turn)
    loopShouldStop := fun turn => flag.isSet (.fullLoop turn) } : FullEnvironment) = full
  have hsame : full.schedule = env.full.schedule := by rw [← hfull]
  obtain ⟨hrun, hleft⟩ := run_workerFullPassActs answers hmain (hsame ▸ hworkers) env.sort entries
    groups (fullPassForceSingleThread env groups)
  rw [held_empty]
  exact ⟨run_map_inr pool hrun, hleft⟩

/-- From the full pass on, both buffers are released. -/
theorem run_fullStagesActs {entries : List FileEntry} {groups : List Group}
    {fastHashGroups : Option PoolBlock}
    (hfull : WithoutGroups .byFullHash (holding pool fastHashGroups))
    (hfree : run (freeUnlessNull fastHashGroups) (holding pool fastHashGroups) = some pool)
    (hreturns : applicationFullPass env flag entries groups ≠ .blocked) :
    run (fullStagesActs env flag answers entries groups fastHashGroups).2
        (Sum.elim (holding pool fastHashGroups) FullHandles.empty.held) =
        some (Sum.elim pool
          (fullStagesActs env flag answers entries groups fastHashGroups).1.held) ∧
      (fullStagesActs env flag answers entries groups fastHashGroups).1.Left
        env.effectiveWorkerCount := by
  obtain ⟨hpass, hleft⟩ := run_applicationFullPassActs answers hmain hworkers flag
    (holding pool fastHashGroups) entries groups
  unfold fullStagesActs
  generalize applicationFullPassActs env flag answers entries groups = fullPass at hpass hleft ⊢
  cases hresult : applicationFullPass env flag entries groups with
  | failed => exact ⟨run_append_eq hpass (run_map_inl _ hfree), hleft⟩
  | blocked => exact absurd hresult hreturns
  | done hashed filesHashed =>
    dsimp only
    have hblock : LeavesBlock (.groups .byFullHash) (holding pool fastHashGroups)
        (groupingByFullHashActs env.sort env.pools.byFullHash
          (workerDigestSize env.options.algorithm) hashed groups)
        (groupingByFullHash env.sort env.pools.byFullHash
          (workerDigestSize env.options.algorithm) hashed groups = none) :=
      leavesBlock_refineGroupsActs hfull _ _ _ _ _ _
    generalize groupingByFullHashActs env.sort env.pools.byFullHash
      (workerDigestSize env.options.algorithm) hashed groups = byFull at hblock ⊢
    have hgrouped := run_append_eq hpass (run_map_inl _ hblock.run)
    cases hgroups : groupingByFullHash env.sort env.pools.byFullHash
        (workerDigestSize env.options.algorithm) hashed groups with
    | none =>
      rw [hblock.failed hgroups] at hgrouped
      exact ⟨run_append_eq hgrouped (run_map_inl _ hfree), hleft⟩
    | some full =>
      have hfreeFull := run_freeUnlessNull fun r hr => hblock.fresh hfull hr
      exact ⟨run_append_eq hgrouped (run_map_inl _ (run_append_eq hfreeFull hfree)), hleft⟩

/-- **The stages release their buffers**, and leave the slots of the full pass. -/
theorem run_hashStagesActs (flag : StopFlag) (entries : List FileEntry)
    (sizeGroups : List Group) (hfast : WithoutGroups .byFastHash pool)
    (hfull : WithoutGroups .byFullHash pool) (hindices : pool .fastIndices = false)
    (hreturns : hashStages env.sort env.pools (workerDigestSize env.options.algorithm)
      (applicationFastPass env flag) (applicationFullPass env flag) entries sizeGroups ≠
        .blocked) :
    run (hashStagesActs env flag answers entries sizeGroups).2
        (Sum.elim pool FullHandles.empty.held) =
        some (Sum.elim pool (hashStagesActs env flag answers entries sizeGroups).1.held) ∧
      (hashStagesActs env flag answers entries sizeGroups).1.Left env.effectiveWorkerCount := by
  have hpass := run_map_inl FullHandles.empty.held
    (run_workerFastPassActs env.fast sizeGroups hindices)
  have hempty := FullHandles.left_empty env.effectiveWorkerCount
  unfold hashStages at hreturns
  unfold hashStagesActs
  cases hresult : applicationFastPass env flag entries sizeGroups with
  | failed => exact ⟨hpass, hempty⟩
  | blocked =>
    rw [hresult] at hreturns
    exact absurd rfl hreturns
  | done hashed filesHashed =>
    rw [hresult] at hreturns
    dsimp only at hreturns ⊢
    have hblock : LeavesBlock (.groups .byFastHash) pool
        (groupingByFastHashActs env.sort env.pools.byFastHash hashed sizeGroups)
        (groupingByFastHash env.sort env.pools.byFastHash hashed sizeGroups = none) :=
      leavesBlock_refineGroupsActs hfast _ _ _ _ _ _
    generalize groupingByFastHashActs env.sort env.pools.byFastHash hashed sizeGroups = byFast
      at hblock ⊢
    have hgrouped := run_append_eq hpass (run_map_inl _ hblock.run)
    have hfree : run (freeUnlessNull byFast.1) (holding pool byFast.1) = some pool :=
      run_freeUnlessNull fun r hr => hblock.fresh hfast hr
    cases hgroups : groupingByFastHash env.sort env.pools.byFastHash hashed sizeGroups with
    | none =>
      rw [hblock.failed hgroups] at hgrouped
      exact ⟨hgrouped, hempty⟩
    | some fast =>
      rw [hgroups] at hreturns
      dsimp only at hreturns ⊢
      by_cases hany : fast.groups.length > 0
      · rw [if_pos hany] at hreturns ⊢
        have hreturned : applicationFullPass env flag fast.entries fast.groups ≠ .blocked := by
          intro hblocked
          rw [hblocked] at hreturns
          exact hreturns rfl
        obtain ⟨hrest, hleft⟩ := run_fullStagesActs answers hmain hworkers
          (hfull.holding (by decide) hblock) hfree hreturned
        exact ⟨run_append_eq hgrouped hrest, hleft⟩
      · rw [if_neg hany]
        exact ⟨run_append_eq hgrouped (run_map_inl _ hfree), hempty⟩

/-- **The run on the files found releases its blocks**, whichever way it ends. -/
theorem run_applicationPipelineActs {stderr : List Diagnostic} {entries : List FileEntry}
    (hreturns : applicationPipeline env flag stderr entries ≠ none) :
    run (applicationPipelineActs env flag answers entries).2
        (Sum.elim nothing FullHandles.empty.held) =
        some (Sum.elim nothing (applicationPipelineActs env flag answers entries).1.held) ∧
      (applicationPipelineActs env flag answers entries).1.Left env.effectiveWorkerCount := by
  have hempty := FullHandles.left_empty env.effectiveWorkerCount
  -- the array of entries is held throughout
  have harray : run [.acquire .entriesArray] nothing =
      some (holding nothing (some PoolBlock.entriesArray)) := run_acquire_holding rfl
  have harrayFreed : run [.release .entriesArray]
      (holding nothing (some PoolBlock.entriesArray)) = some nothing := run_release_holding rfl
  have hgroups : ∀ stage, WithoutGroups stage (holding nothing (some PoolBlock.entriesArray)) :=
    fun stage capacity => rfl
  have hblock : LeavesBlock (PoolBlock.groups .bySize)
      (holding nothing (some PoolBlock.entriesArray))
      (groupingBySizeActs (PoolBlock.groups .bySize) env.sort env.copy env.pools.bySize entries
        env.options.matchHardlinks)
      (groupingBySize env.sort env.copy env.pools.bySize entries env.options.matchHardlinks = none) :=
    leavesBlock_groupingBySizeActs (hgroups .bySize) _ _ _ _ _
  have hsome : ∀ sizes, groupingBySize env.sort env.copy env.pools.bySize entries
      env.options.matchHardlinks = some sizes → sizes.groups.length ≠ 0 →
      (groupingBySizeActs (PoolBlock.groups .bySize) env.sort env.copy env.pools.bySize entries
        env.options.matchHardlinks).1.isSome :=
    fun sizes => isSome_groupingBySizeActs _
  have hbegun := run_map_inl FullHandles.empty.held (run_append_eq harray hblock.run)
  unfold applicationPipeline at hreturns
  unfold applicationPipelineActs
  generalize groupingBySizeActs (PoolBlock.groups .bySize) env.sort env.copy env.pools.bySize entries
    env.options.matchHardlinks = bySize at hblock hbegun hsome ⊢
  cases hsizes : groupingBySize env.sort env.copy env.pools.bySize entries
      env.options.matchHardlinks with
  | none =>
    rw [hblock.failed hsizes] at hbegun
    exact ⟨run_append_eq hbegun (run_map_inl _ harrayFreed), hempty⟩
  | some sizes =>
    rw [hsizes] at hreturns
    dsimp only at hreturns ⊢
    have hfresh : ∀ r, bySize.1 = some r →
        holding nothing (some PoolBlock.entriesArray) r = false :=
      fun r hr => hblock.fresh (hgroups .bySize) hr
    by_cases hany : sizes.groups.length = 0
    · rw [if_pos hany]
      exact ⟨run_append_eq hbegun
        (run_map_inl _ (run_append_eq (run_freeUnlessNull hfresh) harrayFreed)), hempty⟩
    · rw [if_neg hany] at hreturns ⊢
      have hindices : holding (holding nothing (some PoolBlock.entriesArray)) bySize.1
          .fastIndices = false := by
        refine (holding_of_ne fun r hr hsame => ?_).trans rfl
        obtain ⟨capacity, hnamed⟩ := hblock.named r hr
        cases hsame.trans hnamed
      have hstages := run_hashStagesActs answers hmain hworkers flag sizes.entries sizes.groups
        ((hgroups .byFastHash).holding (by decide) hblock)
        ((hgroups .byFullHash).holding (by decide) hblock) hindices
      cases hresult : hashStages env.sort env.pools (workerDigestSize env.options.algorithm)
          (applicationFastPass env flag) (applicationFullPass env flag) sizes.entries
          sizes.groups with
      | blocked =>
        rw [hresult] at hreturns
        exact absurd rfl hreturns
      | failed | done =>
        rw [hresult] at hstages
        obtain ⟨hrest, hleft⟩ := hstages StagesResult.noConfusion
        have hended := run_append_eq (run_free_holding (hsome sizes hsizes hany) hfresh)
          harrayFreed
        exact ⟨run_append_eq (run_append_eq hbegun hrest) (run_map_inl _ hended), hleft⟩

/-- The whole run behind discovery, whichever way it ends. -/
theorem run_applicationRunActs (hreturns : applicationRun env flag ≠ none) :
    run (applicationRunActs env flag answers).2 (Sum.elim nothing FullHandles.empty.held) =
        some (Sum.elim nothing (applicationRunActs env flag answers).1.held) ∧
      (applicationRunActs env flag answers).1.Left env.effectiveWorkerCount := by
  have hempty := FullHandles.left_empty env.effectiveWorkerCount
  unfold applicationRun at hreturns
  unfold applicationRunActs
  by_cases hcontexts : env.hasMemoryContext = false ∨ env.hasParallelContext = false
  · rw [if_pos hcontexts]
    exact ⟨rfl, hempty⟩
  · rw [if_neg hcontexts] at hreturns ⊢
    cases hdiscovery : applicationDiscover env flag with
    | none => exact ⟨rfl, hempty⟩
    | some discovery =>
      rw [hdiscovery, Option.bind_some] at hreturns
      dsimp only at hreturns ⊢
      by_cases hok : discovery.ok = false
      · rw [if_pos hok]
        exact ⟨rfl, hempty⟩
      · rw [if_neg hok] at hreturns ⊢
        by_cases hstop : flag.isSet .afterDiscovery = true
        · rw [if_pos hstop]
          exact ⟨rfl, hempty⟩
        · rw [if_neg hstop] at hreturns ⊢
          by_cases hnone : (discovery.entries.map OwnedEntry.entry).length = 0
          · rw [if_pos hnone]
            exact ⟨rfl, hempty⟩
          · rw [if_neg hnone] at hreturns ⊢
            by_cases hallocates : env.allocatesEntries = false
            · rw [if_pos hallocates]
              exact ⟨rfl, hempty⟩
            · rw [if_neg hallocates] at hreturns ⊢
              exact run_applicationPipelineActs answers hmain hworkers hreturns

/-- **Every way a run ends releases what it acquired**, whatever is refused and
whenever it is stopped.  With the slots of all workers destroyed behind it, nothing
was released that was not held, and no null pointer; and all that is still held is
the ring that the slot of a worker points to. -/
theorem application_run_releases (hreturns : applicationRun env flag ≠ none) :
    ∃ held : Held RunResource,
      run ((applicationRunActs env flag answers).2 ++
        onFull (fullDestroySlotsActs (List.range env.effectiveWorkerCount)
          (applicationRunActs env flag answers).1).2) nothing = some held ∧
      ∀ r, held r = true ↔ ∃ worker made, r = .inr (.ring worker made) ∧
        ((applicationRunActs env flag answers).1.slots worker).ring = some made := by
  have hnothing : (nothing : Held RunResource) = Sum.elim nothing FullHandles.empty.held := by
    funext r
    cases r with
    | inl block => rfl
    | inr r => rw [Sum.elim_inr, held_empty]; rfl
  obtain ⟨hrun, hleft⟩ := run_applicationRunActs answers hmain hworkers hreturns
  obtain ⟨hdestroy, hheld⟩ := run_destroyed hleft
  refine ⟨_, hnothing ▸ run_append_eq hrun (run_map_inr nothing hdestroy), fun r => ?_⟩
  cases r with
  | inl block =>
    rw [Sum.elim_inl]
    simp [nothing]
  | inr r =>
    rw [Sum.elim_inr, hheld]
    simp

end Stages

/-- The run on two copies releases all but rings. -/
theorem application_run_releases_two_copies : ∃ held : Held RunResource,
    run ((applicationRunActs twoCopiesAtRest .never fun _ => .granted).2 ++
      onFull (fullDestroySlotsActs (List.range twoCopiesAtRest.effectiveWorkerCount)
        (applicationRunActs twoCopiesAtRest .never fun _ => .granted).1).2) nothing = some held ∧
    ∀ r, held r = true → ∃ worker made, r = .inr (.ring worker made) := by
  obtain ⟨outcome, _, hrun, _⟩ := exists_twoCopiesAtRest_reported
  have hworkers : ∀ count, ∀ step ∈ twoCopiesAtRest.full.schedule.run count,
      step.2 < twoCopiesAtRest.effectiveWorkerCount := by
    intro count step hstep
    obtain ⟨i, _, rfl⟩ := List.mem_map.mp hstep
    exact Nat.one_pos
  have hreturns : applicationRun twoCopiesAtRest .never ≠ none := by
    rw [hrun]
    exact Option.some_ne_none outcome
  obtain ⟨held, hcalls, hheld⟩ :=
    application_run_releases (fun _ => SlotAnswers.granted) (by decide) hworkers hreturns
  refine ⟨held, hcalls, fun r hr => ?_⟩
  obtain ⟨worker, made, hring, _⟩ := (hheld r).mp hr
  exact ⟨worker, made, hring⟩

end BcDuplicate
