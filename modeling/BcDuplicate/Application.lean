import BcDuplicate.Discovery.Walk
import BcDuplicate.Discovery.WalkParallel
import BcDuplicate.Dispatch
import BcDuplicate.Output
import BcDuplicate.Stages
import Mathlib.Data.Finset.Card
import Mathlib.Data.Prod.Lex

/-!
# BcDuplicate.Application

`bc_duplicate_application_run` (`src/bc_duplicate_main.c`): discovery, the
grouping by size, the hashing stages, and the report.

The stop flag of the signal handler is polled at many points of a run
(`Poll`), and once set it stays set (`StopFlag`).  What else a run depends on
is an `ApplicationEnvironment`.  Of the lines on standard error the outcome
keeps the errors; those that only tell how far the run has come are left out.
-/

namespace BcDuplicate

open Json (ascii)
open Sorting
open Copying

/-! ## the stop flag -/

/-- The polls of the stop flag: those of the serial walk, or of the walk
library, the one after discovery, that of each iteration of the fast pass, and
in the full pass those of the single-thread loop and of each iteration. -/
inductive Poll
  | discovery (poll : Nat)
  | afterDiscovery
  | fast (turn : Nat)
  | fullLoop (turn : Nat)
  | fullIter (turn : Nat)
deriving DecidableEq, Repr

/-- When a poll happens: the stage, and where in it.  The single-thread loop
polls before the iteration does. -/
def Poll.time : Poll → Nat ×ₗ Nat
  | .discovery poll => toLex (0, poll)
  | .afterDiscovery => toLex (1, 0)
  | .fast turn => toLex (2, turn)
  | .fullLoop turn => toLex (3, 2 * turn)
  | .fullIter turn => toLex (3, 2 * turn + 1)

/-- The answers of one run's polls.  A flag that is set stays set. -/
structure StopFlag where
  isSet : Poll → Bool
  monotone : ∀ earlier later : Poll, earlier.time ≤ later.time →
    isSet earlier = true → isSet later = true

/-- No signal arrives. -/
def StopFlag.never : StopFlag := ⟨fun _ => false, fun _ _ _ h => h⟩

/-- The signal arrives right before the poll `moment`. -/
def StopFlag.since (moment : Poll) : StopFlag where
  isSet poll := decide (moment.time ≤ poll.time)
  monotone _ _ hle h := decide_eq_true ((of_decide_eq_true h).trans hle)

/-! ## what a run depends on -/

/-- What a run depends on besides the stop flag.  The polls of the flag in
`discovery`, `fast` and `full` are replaced by those of the run's flag;
`walkLibrary` is `bc_io_walk_parallel` given the answers to its own polls. -/
structure ApplicationEnvironment (lib : HashLibrary) where
  options : CliOptions
  inputPaths : List Bytes
  hasMemoryContext : Bool
  hasParallelContext : Bool
  effectiveWorkerCount : Nat
  discovery : ParallelEnvironment
  walkLibrary : (Nat → Bool) → WalkLibrary
  allocatesEntries : Bool
  sort : SortFn
  copy : CopyFn
  pools : Pools
  fast : FastEnvironment
  full : FullEnvironment
  throughputConstants : Option ThroughputConstants
  wallMs : Nat
  stdoutIsTerminal : Bool
  outputFileOpens : Bool
  coreWriter : CoreWriter
  output : OutputWriter

/-- What a run writes to standard error when something is wrong. -/
inductive Diagnostic
  | text (message : Bytes)
  | errors (errors : List DiscoveryError)
deriving DecidableEq, Repr

/-- What the report of a run is made from. -/
structure Report where
  entries : List FileEntry
  groups : List Group
  statistics : Statistics
deriving DecidableEq, Repr

/-- How a run ends: its exit code, what `bc_duplicate_application_run` returns,
the bytes that arrived at standard output, and, when the run opened the output
file, what the file then holds.  `reported` records what the bytes were made
from. -/
structure RunOutcome where
  exitCode : Nat
  returned : Bool
  stdout : Bytes
  outputFile : Option Bytes
  reported : Option Report
  stderr : List Diagnostic
deriving DecidableEq, Repr

/-- A run that ends before it opens its output. -/
def RunOutcome.silent (exitCode : Nat) (returned : Bool) (stderr : List Diagnostic) : RunOutcome :=
  ⟨exitCode, returned, [], none, none, stderr⟩

/-! ## the stages -/

section Application

variable {lib : HashLibrary} (env : ApplicationEnvironment lib) (flag : StopFlag)

/-- Discovery, with as many workers as there are.  The fuel of the serial walk
is more than the file system has directories; `none` would be a walk that runs
out of it. -/
def applicationDiscover : Option DiscoveryResult :=
  let shouldStop := fun poll => flag.isSet (.discovery poll)
  if env.effectiveWorkerCount ≥ 2 then
    some (discoveryExpandParallel
      { env.discovery with library := env.walkLibrary shouldStop } env.inputPaths)
  else
    discoveryExpand { env.discovery.toDiscoveryEnvironment with shouldStop }
      (env.discovery.fs.directories.card + 1) env.inputPaths

/-- `full_pass_file_count` -/
def fullPassFileCount (fastHashGroups : List Group) : Nat :=
  fastHashGroups.foldl (fun count group => count + group.entryCount) 0

/-- `full_pass_total_bytes`, a `size_t` -/
def fullPassTotalBytes (fastHashGroups : List Group) : Nat :=
  fastHashGroups.foldl (fun bytes group => (bytes + group.entryCount * group.fileSize) % 2 ^ 64) 0

/-- `full_pass_force_single_thread` -/
def fullPassForceSingleThread (fastHashGroups : List Group) : Bool :=
  if env.options.threadsMode ≠ .explicit ∧ env.options.threadsMode ≠ .mono then
    match env.throughputConstants with
    | none => false
    | some constants =>
        !dispatchDecisionShouldGoMultithread (fullPassFileCount fastHashGroups)
          (fullPassTotalBytes fastHashGroups) env.options.algorithm constants
          env.effectiveWorkerCount
  else false

/-- The fast pass of the run. -/
def applicationFastPass : Pass :=
  workerFastPass lib env.sort { env.fast with shouldStop := fun turn => flag.isSet (.fast turn) }

/-- The full pass of the run. -/
def applicationFullPass : Pass :=
  dispatchedFullPass lib env.sort
    { env.full with
      shouldStop := fun turn => flag.isSet (.fullIter turn)
      loopShouldStop := fun turn => flag.isSet (.fullLoop turn) }
    env.options.algorithm (fullPassForceSingleThread env)

/-! ## the report -/

/-- `duplicate_file_count` -/
def duplicateFileCount (groups : List Group) : Nat :=
  groups.foldl (fun count group => count + (group.entryCount - 1)) 0

/-- `wasted_bytes`, a `size_t` -/
def wastedBytes (groups : List Group) : Nat :=
  groups.foldl (fun bytes group => (bytes + (group.entryCount - 1) * group.fileSize) % 2 ^ 64) 0

/-- The statistics of a run over `entryCount` files. -/
def applicationStatistics (entryCount : Nat) (sizes : SizeGrouping) (duplicates : Duplicates) :
    Statistics where
  filesScanned := entryCount
  directoriesScanned := 0
  filesSkipped := 0
  hardlinksCollapsed := sizes.hardlinksCollapsed
  sizeCandidateCount := sizes.candidateCount
  filesHashedFast := duplicates.filesHashedFast
  filesHashedFull := duplicates.filesHashedFull
  duplicateGroupCount := duplicates.groups.length
  duplicateFileCount := duplicateFileCount duplicates.groups
  wastedBytes := wastedBytes duplicates.groups
  wallMs := env.wallMs

/-- `output_format` -/
def outputFormat : OutputFormat :=
  match env.options.command with
  | .summary => .simple
  | .scan =>
      match env.options.outputDestination with
      | .file _ => .json
      | .auto => if env.stdoutIsTerminal then .simple else .json
      | .stdout => .simple

/-- The bytes of a report, in the format of the run. -/
def reportBytes (report : Report) : Bytes :=
  match env.options.command with
  | .summary => outputSummaryWrite report.statistics
  | .scan =>
      match outputFormat env with
      | .json => outputJsonWrite env.coreWriter env.options.algorithm report.entries report.groups
          report.statistics
      | .simple => outputSimpleWrite report.entries report.groups

/-- `output_fd_owned`: the report goes to a file of its own. -/
def outputPath : Option Bytes :=
  match env.options.command, env.options.outputDestination with
  | .scan, .file path => some path
  | _, _ => none

/-- From the choice of the destination to the end of the run. -/
def applicationReport (stderr : List Diagnostic) (report : Report) : RunOutcome :=
  let (bytes, outputOk) :=
    if env.output.initialises then env.output.deliver (reportBytes env report) else ([], false)
  let exitCode := if outputOk then 0 else 1
  match outputPath env with
  | some path =>
      if env.outputFileOpens = false then
        .silent 1 false (stderr ++ [.text (ascii "bc-duplicate: cannot open output file '" ++
          cString path ++ ascii "'\n")])
      else ⟨exitCode, true, [], some bytes, some report, stderr⟩
  | none => ⟨exitCode, true, bytes, none, some report, stderr⟩

/-! ## the run -/

/-- The run on the files discovery found, from the grouping by size on. -/
def applicationPipeline (stderr : List Diagnostic) (entries : List FileEntry) :
    Option RunOutcome :=
  match groupingBySize env.sort env.copy env.pools.bySize entries env.options.matchHardlinks with
  | none => some (.silent 1 false stderr)
  | some sizes =>
      if sizes.groups.length = 0 then some (.silent 0 true stderr)
      else
        match hashStages env.sort env.pools (workerDigestSize env.options.algorithm)
            (applicationFastPass env flag) (applicationFullPass env flag) sizes.entries
            sizes.groups with
        | .failed => some (.silent 1 false stderr)
        | .blocked => none
        | .done duplicates =>
            some (applicationReport env stderr ⟨duplicates.entries, duplicates.groups,
              applicationStatistics env entries.length sizes duplicates⟩)

/-- `bc_duplicate_application_run`.  `none`: it never returns.

`bc_runtime_error_collector_flush_to_stderr` is relied on to print the errors
and to keep them: the exit code of a run without files goes by how many there
are behind the flush. -/
def applicationRun : Option RunOutcome :=
  if env.hasMemoryContext = false ∨ env.hasParallelContext = false then
    some (.silent 1 false [])
  else
    (applicationDiscover env flag).bind fun discovery =>
      let stderr := [.errors discovery.stderr]
      if discovery.ok = false then some (.silent 1 false stderr)
      else if flag.isSet .afterDiscovery then
        some (.silent 130 false (stderr ++
          [.text (ascii "bc-duplicate: interrupted by signal, aborting before grouping\n")]))
      else
        let stderr := stderr ++ [.errors discovery.errors]
        let entries := discovery.entries.map OwnedEntry.entry
        if entries.length = 0 then
          some (.silent (if discovery.errors.length = 0 then 0 else 1) true stderr)
        else if env.allocatesEntries = false then some (.silent 1 false stderr)
        else applicationPipeline env flag stderr entries

end Application

end BcDuplicate
