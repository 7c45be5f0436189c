import BcDuplicate.Application.Errors
import BcDuplicate.Discovery.Owners

/-!
# BcDuplicate.Application.Cleanup

`bc_duplicate_application_cleanup` (`src/bc_duplicate_main.c`), as far as it
releases the paths of the entries.

It releases them all with the main memory context.  The serial walk and the
files among the inputs allocated them from there, but a file visited on a
worker with a memory context of its own leaves a path of that context in
`state->entries`, so the releases are right when no file is visited on such a
worker (`ownersKept_of_visits`).
-/

namespace BcDuplicate

/-- A call of `bc_allocators_pool_free`: the context it is given, and the one
its pointer was allocated from. -/
structure PoolFree where
  context : MemoryContext
  owner : MemoryContext
deriving DecidableEq, Repr

/-- The pointer came from the context it is released with. -/
def PoolFree.Allowed (free : PoolFree) : Prop := free.owner = free.context

/-- `bc_duplicate_application_cleanup`: the calls that release paths.  What
else it destroys was created from the main context. -/
def applicationCleanup (hasMemoryContext : Bool) (entries : List OwnedEntry) : List PoolFree :=
  if hasMemoryContext = false then []
  else entries.map fun owned => ⟨.main, owned.pathOwner⟩

section Specification

variable {lib : HashLibrary} (env : ApplicationEnvironment lib) (flag : StopFlag)

/-- `state->entries` from the end of discovery to the cleanup, also when
discovery failed. -/
def entriesBehindDiscovery : List OwnedEntry :=
  if env.hasMemoryContext = false ∨ env.hasParallelContext = false then []
  else ((applicationDiscover env flag).map DiscoveryResult.entries).getD []

/-- The callbacks of a run, with the workers they are made on.  The serial
discovery makes none. -/
def runCalls : List (Nat × WalkCallback) :=
  if env.hasMemoryContext = false ∨ env.hasParallelContext = false then []
  else if env.effectiveWorkerCount ≥ 2 then
    discoveryCalls (env.discoveryRun flag) env.inputPaths
  else []

/-- **Paths are released where they were allocated.**  All paths of
`state->entries` come from the main context, and the cleanup of a run that
returned releases each with the context it came from. -/
structure OwnersKept : Prop where
  entries : ∀ owned ∈ entriesBehindDiscovery env flag, owned.pathOwner = .main
  released : ∀ outcome, applicationRun env flag = some outcome →
    ∀ free ∈ applicationCleanup env.hasMemoryContext (entriesBehindDiscovery env flag), free.Allowed

/-- No file is visited on a worker that has a memory context of its own. -/
def VisitsOnMain : Prop :=
  ∀ call ∈ runCalls env flag, visitedFile call ≠ [] → env.discovery.hasWorkerMemory call.1 = false

/-- Every request of the discovery is served, and its callbacks are made on
workers there are. -/
structure NothingRefused : Prop where
  allocates : ∀ request, env.discovery.allocates request = true
  workers : ∀ call ∈ runCalls env flag, call.1 < env.discovery.workerCount

end Specification

section Owners

variable {lib : HashLibrary} {env : ApplicationEnvironment lib} {flag : StopFlag}

theorem walkOwner_eq_main_iff (env : ParallelEnvironment) (worker : Nat) :
    walkOwner env worker = .main ↔ env.hasWorkerMemory worker = false := by
  unfold walkOwner
  cases env.hasWorkerMemory worker <;> simp

/-- The cleanup is right when the paths it releases came from the main
context. -/
theorem allowed_of_mem_applicationCleanup {hasMemoryContext : Bool} {entries : List OwnedEntry}
    (hentries : ∀ owned ∈ entries, owned.pathOwner = .main) {free : PoolFree}
    (hfree : free ∈ applicationCleanup hasMemoryContext entries) : free.Allowed := by
  unfold applicationCleanup at hfree
  split at hfree
  · cases hfree
  · obtain ⟨owned, howned, rfl⟩ := List.mem_map.mp hfree
    exact hentries owned howned

/-- Discovery as this run makes it, on several workers. -/
theorem applicationDiscover_of_many (hmany : env.effectiveWorkerCount ≥ 2) :
    applicationDiscover env flag =
      some (discoveryExpandParallel (env.discoveryRun flag) env.inputPaths) :=
  @applicationDiscover_many lib env flag env.effectiveWorkerCount hmany

/-- Discovery as this run makes it, on one worker. -/
theorem applicationDiscover_of_one (hone : ¬env.effectiveWorkerCount ≥ 2) :
    applicationDiscover env flag =
      discoveryExpand (env.discoveryRun flag).toDiscoveryEnvironment
        (env.discovery.fs.directories.card + 1) env.inputPaths := by
  rw [applicationDiscover, if_neg hone]
  rfl

/-- Where a path behind the discovery comes from, on one worker or on
several. -/
theorem owner_of_mem_entriesBehindDiscovery {owned : OwnedEntry}
    (howned : owned ∈ entriesBehindDiscovery env flag) :
    owned.pathOwner = .main ∨ ∃ call ∈ runCalls env flag,
      visitedFile call ≠ [] ∧ owned.pathOwner = walkOwner env.discovery call.1 := by
  unfold entriesBehindDiscovery at howned
  split at howned
  · cases howned
  · next hcontexts =>
    rw [runCalls, if_neg hcontexts]
    by_cases hmany : env.effectiveWorkerCount ≥ 2
    · rw [applicationDiscover_of_many hmany] at howned
      rw [if_pos hmany]
      exact parallel_owner howned
    · rw [applicationDiscover_of_one hmany] at howned
      cases hdone : discoveryExpand (env.discoveryRun flag).toDiscoveryEnvironment
          (env.discovery.fs.directories.card + 1) env.inputPaths with
      | none =>
          rw [hdone] at howned
          cases howned
      | some result =>
          rw [hdone] at howned
          exact Or.inl (serial_owner hdone howned)

/-- A visited file leaves its path behind the discovery, with the context it
was allocated from. -/
theorem exists_mem_entriesBehindDiscovery (hnothing : NothingRefused env flag)
    {call : Nat × WalkCallback} (hcall : call ∈ runCalls env flag) (hvisit : visitedFile call ≠ []) :
    ∃ owned ∈ entriesBehindDiscovery env flag,
      owned.pathOwner = walkOwner env.discovery call.1 := by
  have hworker := hnothing.workers call hcall
  unfold runCalls at hcall
  split at hcall
  · cases hcall
  · next hcontexts =>
    split at hcall
    · next hmany =>
      rw [entriesBehindDiscovery, if_neg hcontexts, applicationDiscover_of_many hmany]
      exact @exists_parallel_owner (env.discoveryRun flag) env.inputPaths hnothing.allocates call
        hcall hworker hvisit
    · cases hcall

end Owners

/-- **When the cleanup is right.**  In every run of either discovery, whatever
fails and on whichever workers the library visits what, the paths are released
where they were allocated if no file is visited on a worker with a memory
context of its own; where nothing is refused, only then. -/
theorem ownersKept_of_visits {lib : HashLibrary} (env : ApplicationEnvironment lib)
    (flag : StopFlag) :
    (VisitsOnMain env flag → OwnersKept env flag) ∧
      (NothingRefused env flag → OwnersKept env flag → VisitsOnMain env flag) := by
  constructor
  · intro hvisits
    have hentries : ∀ owned ∈ entriesBehindDiscovery env flag, owned.pathOwner = .main := by
      intro owned howned
      rcases owner_of_mem_entriesBehindDiscovery howned with hmain | ⟨call, hcall, hvisit, howner⟩
      · exact hmain
      · rw [howner, walkOwner_eq_main_iff]
        exact hvisits call hcall hvisit
    exact ⟨hentries, fun _ _ _ hfree => allowed_of_mem_applicationCleanup hentries hfree⟩
  · intro hnothing hkept call hcall hvisit
    obtain ⟨owned, howned, howner⟩ := exists_mem_entriesBehindDiscovery hnothing hcall hvisit
    rw [← walkOwner_eq_main_iff, ← howner]
    exact hkept.entries owned howned

/-! ### one file, visited on a worker -/

/-- A run on two workers, which have memory contexts of their own or not. -/
def Table.twoWorkers (table : Table) (hasWorkerMemory : Bool) (inputPaths : List Bytes) :
    ApplicationEnvironment .recording :=
  { table.application scanToFile inputPaths with
    effectiveWorkerCount := 2
    discovery := { table.run with workerCount := 2, hasWorkerMemory := fun _ => hasWorkerMemory } }

/-- Without contexts of their own the workers allocate from the main one. -/
theorem ownersKept_without_worker_memory :
    OwnersKept (oneDirectory.twoWorkers false [[100]]) .never ∧
      VisitsOnMain (oneDirectory.twoWorkers false [[100]]) .never := by
  obtain ⟨hkept, hvisits⟩ := ownersKept_of_visits (oneDirectory.twoWorkers false [[100]]) .never
  have howners := hkept fun _ _ _ => rfl
  have hnothing : NothingRefused (oneDirectory.twoWorkers false [[100]]) .never :=
    ⟨fun _ => rfl, by decide +kernel⟩
  exact ⟨howners, hvisits hnothing howners⟩

/-- **The file of a directory, released with the wrong context.** -/
theorem worker_path_released_with_main :
    ¬∀ (env : ApplicationEnvironment .recording) (flag : StopFlag), OwnersKept env flag := by
  intro h
  have hreturns : (applicationRun (oneDirectory.twoWorkers true [[100]]) .never).isSome = true := by
    decide +kernel
  obtain ⟨outcome, houtcome⟩ := Option.isSome_iff_exists.mp hreturns
  have hreleases : applicationCleanup true
      (entriesBehindDiscovery (oneDirectory.twoWorkers true [[100]]) .never) =
        [⟨.main, .worker 0⟩] := by decide +kernel
  have hallowed := (h (oneDirectory.twoWorkers true [[100]]) .never).released outcome houtcome
    ⟨.main, .worker 0⟩ (hreleases.symm ▸ List.mem_singleton_self _)
  cases hallowed

end BcDuplicate
