import BcDuplicate.Discovery

/-!
# BcDuplicate.Discovery.WalkParallel

The parallel walk (`src/discovery/bc_duplicate_discovery_walk_parallel.c`).

`bc_io_walk_parallel` is a parameter: given its configuration it makes calls
of the `visit` and `on_error` callbacks, each on some worker, and the list has
them in the order in which they happen.  What it is relied on for is stated in
`BcDuplicate.Discovery.Parallel`.
-/

namespace BcDuplicate

/-! ## the library -/

inductive WalkEntryKind
  | file
  | directory
  | other
deriving DecidableEq, Repr

/-- `bc_io_walk_entry_t` -/
structure WalkEntry where
  absolutePath : Bytes
  kind : WalkEntryKind
  fileSize : Nat
  identity : Identity
deriving DecidableEq, Repr

/-- `bc_io_walk_config_t`, without the contexts it passes on. -/
structure WalkConfig where
  root : Bytes
  followSymlinks : Bool
  includeHidden : Bool
  filter : WalkEntry → Bool

inductive WalkCallback
  | visit (entry : WalkEntry)
  | error (path : Bytes) (stage : String) (errno : Errno)
deriving DecidableEq, Repr

/-- `bc_io_walk_parallel`, for the first call, the second, and so on: which
worker makes which callback. -/
abbrev WalkLibrary := Nat → WalkConfig → List (Nat × WalkCallback)

/-- What the parallel walk needs besides the shared environment.  A worker
without a memory context of its own allocates from the main one. -/
structure ParallelEnvironment extends DiscoveryEnvironment where
  library : WalkLibrary
  workerCount : Nat
  hasWorkerMemory : Nat → Bool
  registersSlot : Bool
  maxPathLength : Nat

/-! ## worker slots -/

/-- `bc_duplicate_walk_worker_slot_t`; `none` is a null pointer. -/
structure WalkWorkerSlot where
  fileEntries : Option (List OwnedEntry)
  errors : Option (List DiscoveryError)
deriving DecidableEq, Repr

def WalkWorkerSlot.zeroed : WalkWorkerSlot := ⟨none, none⟩

/-- The walk context, the destination vector and collector, the worker slots,
and how many requests and walks were made. -/
structure ParallelState where
  entries : List OwnedEntry
  errors : List DiscoveryError
  rootDeviceId : Option Nat
  slots : List WalkWorkerSlot
  requests : Nat
  walks : Nat
deriving DecidableEq, Repr

namespace ParallelState

def initial (workerCount : Nat) : ParallelState :=
  ⟨[], [], none, List.replicate workerCount .zeroed, 0, 0⟩

def fail (s : ParallelState) (path : Bytes) (stage : String) (errno : Errno) : ParallelState :=
  { s with errors := s.errors ++ [⟨path, stage, errno⟩] }

def requested (s : ParallelState) (count : Nat) : ParallelState :=
  { s with requests := s.requests + count }

def withSlot (s : ParallelState) (worker : Nat) (slot : WalkWorkerSlot) : ParallelState :=
  { s with slots := s.slots.set worker slot }

/-- The device of the first directory among the inputs is kept. -/
def rooted (s : ParallelState) (root : Identity) : ParallelState :=
  { s with rootDeviceId := s.rootDeviceId.or (some root.deviceId) }

end ParallelState

section Walk

variable (env : ParallelEnvironment)

/-- `bc_duplicate_walk_basename` -/
def walkBasename (path : Bytes) : Bytes := (path.reverse.takeWhile (· ≠ slash)).reverse

/-- `bc_duplicate_walk_ensure_slot`: the state with the slot's two containers
created, and the slot, unless there is none or a container cannot be had. -/
def walkEnsureSlot (s : ParallelState) (worker : Nat) : ParallelState × Option WalkWorkerSlot :=
  match s.slots[worker]? with
  | none => (s, none)
  | some slot =>
      if slot.fileEntries = none ∧ env.allocates s.requests = false then (s.requested 1, none)
      else
        let s := if slot.fileEntries = none then s.requested 1 else s
        let slot := { slot with fileEntries := some (slot.fileEntries.getD []) }
        if slot.errors = none ∧ env.allocates s.requests = false then
          ((s.requested 1).withSlot worker slot, none)
        else
          let s := if slot.errors = none then s.requested 1 else s
          let slot := { slot with errors := some (slot.errors.getD []) }
          (s.withSlot worker slot, some slot)

/-- `bc_duplicate_walk_filter` -/
def walkFilter (rootDeviceId : Option Nat) (entry : WalkEntry) : Bool :=
  match entry.kind with
  | .file =>
      if filterAcceptsFile env.fnmatch env.filter (walkBasename entry.absolutePath) = false then
        false
      else if entry.fileSize < env.options.minimumFileSize then false
      else true
  | .directory =>
      if filterAcceptsDirectory env.fnmatch env.filter (walkBasename entry.absolutePath) = false then
        false
      else if pathIsPseudoFilesystem env.fs entry.absolutePath = some true then false
      else if env.options.oneFileSystem ∧ rootDeviceId.any (entry.identity.deviceId ≠ ·) then false
      else true
  | .other => false

/-- The context `visit` and `on_error` allocate from. -/
def walkOwner (worker : Nat) : MemoryContext :=
  if env.hasWorkerMemory worker then .worker worker else .main

/-- `bc_duplicate_walk_visit` -/
def walkVisit (worker : Nat) (entry : WalkEntry) (s : ParallelState) : ParallelState :=
  if entry.kind ≠ .file then s
  else
    match walkEnsureSlot env s worker with
    | (s, none) => s
    | (s, some slot) =>
        if env.allocates s.requests = false then s.requested 1
        else if env.allocates (s.requests + 1) = false then s.requested 2
        else
          let owned : OwnedEntry :=
            ⟨.discovered entry.absolutePath entry.fileSize entry.identity.deviceId
              entry.identity.inodeNumber, walkOwner env worker⟩
          (s.requested 2).withSlot worker
            { slot with fileEntries := some (slot.fileEntries.getD [] ++ [owned]) }

/-- `bc_duplicate_walk_on_error` -/
def walkOnError (worker : Nat) (error : DiscoveryError) (s : ParallelState) : ParallelState :=
  match walkEnsureSlot env s worker with
  | (s, none) => s
  | (s, some slot) =>
      s.withSlot worker { slot with errors := some (slot.errors.getD [] ++ [error]) }

/-- One callback on its worker. -/
def walkCallback (s : ParallelState) (call : Nat × WalkCallback) : ParallelState :=
  match call.2 with
  | .visit entry => walkVisit env call.1 entry s
  | .error path stage errno => walkOnError env call.1 ⟨path, stage, errno⟩ s

/-- `bc_duplicate_walk_append_root_file` -/
def walkAppendRootFile (s : ParallelState) (inputPath : Bytes) (fileSize : Nat)
    (identity : Identity) : ParallelState :=
  if fileSize < env.options.minimumFileSize then s
  else if env.allocates s.requests = false then
    (s.requested 1).fail inputPath "allocate" .ENOMEM
  else if env.allocates (s.requests + 1) = false then
    (s.requested 2).fail inputPath "enqueue" .ENOMEM
  else
    { s.requested 2 with
      entries := s.entries ++
        [⟨.discovered inputPath fileSize identity.deviceId identity.inodeNumber, .main⟩] }

/-- The configuration of one walk. -/
def walkConfig (rootDeviceId : Option Nat) (root : Bytes) : WalkConfig :=
  ⟨root, env.options.followSymlinks, env.options.includeHidden, walkFilter env rootDeviceId⟩

/-- `bc_duplicate_walk_run_on_directory` -/
def walkRunOnDirectory (s : ParallelState) (inputPath : Bytes) : ParallelState :=
  let root := trimTrailingSlashes inputPath
  if root.length ≥ env.maxPathLength then s.fail inputPath "path-too-long" .ENAMETOOLONG
  else
    (env.library s.walks (walkConfig env s.rootDeviceId root)).foldl (walkCallback env)
      { s with walks := s.walks + 1 }

/-- `bc_duplicate_walk_process_input_path` of the parallel walk. -/
def parallelProcessInputPath (s : ParallelState) (inputPath : Bytes) : ParallelState :=
  match env.fs.statPath env.options.followSymlinks inputPath with
  | .error errno => s.fail inputPath "stat" errno
  | .ok (.object (.regular identity fileSize)) =>
      walkAppendRootFile env s inputPath fileSize identity
  | .ok (.object (.directory identity)) =>
      if pathIsPseudoFilesystem env.fs inputPath = some true then s
      else walkRunOnDirectory env (s.rooted identity) inputPath
  | .ok .symbolicLink => s.fail inputPath "skip-symlink" .ELOOP
  | .ok (.object .other) => s.fail inputPath "skip-other" .EINVAL

/-- `bc_duplicate_walk_expand_glob` of the parallel walk. -/
def parallelExpandGlob (s : ParallelState) (pattern : Bytes) : ParallelState :=
  match env.glob pattern with
  | none => s.fail pattern "glob" .EINVAL
  | some matched => matched.foldl (parallelProcessInputPath env) s

/-- One input of the loop in `bc_duplicate_discovery_expand_parallel`. -/
def parallelInput (s : ParallelState) (inputPath : Bytes) : ParallelState :=
  if globContainsMetacharacter inputPath then parallelExpandGlob env s inputPath
  else parallelProcessInputPath env s inputPath

/-! ## the merge -/

/-- The pushes of one worker's entries: what arrived, and whether all did. -/
def walkMergeEntries : List OwnedEntry → DiscoveryResult × Nat → DiscoveryResult × Nat
  | [], merge => merge
  | owned :: rest, (result, requests) =>
      if env.allocates requests = false then ({ result with ok := false }, requests + 1)
      else walkMergeEntries rest ({ result with entries := result.entries ++ [owned] }, requests + 1)

/-- `bc_duplicate_walk_merge_worker_slot` -/
def walkMergeWorkerSlot (merge : DiscoveryResult × Nat) (slot : WalkWorkerSlot) :
    DiscoveryResult × Nat :=
  if merge.1.ok = false then merge
  else
    let (result, requests) := walkMergeEntries env (slot.fileEntries.getD []) merge
    if result.ok = false then (result, requests)
    else ({ result with stderr := result.stderr ++ slot.errors.getD [] }, requests)

/-- `bc_duplicate_discovery_expand_parallel` -/
def discoveryExpandParallel (inputPaths : List Bytes) : DiscoveryResult :=
  if env.registersSlot = false then ⟨false, [], [], []⟩
  else
    let s := inputPaths.foldl (parallelInput env) (.initial env.workerCount)
    (s.slots.foldl (walkMergeWorkerSlot env) (⟨true, s.entries, s.errors, []⟩, s.requests)).1

end Walk

end BcDuplicate
