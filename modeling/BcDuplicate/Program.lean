import BcDuplicate.Application
import BcDuplicate.Cli

/-!
# BcDuplicate.Program

`main` and the callbacks of the runtime (`src/bc_duplicate_main.c`): the
command line, the number of workers, and the life of the application.

The parser and the runtime of the library are parameters: `parse` is what
`bc_runtime_cli_parse` returns and `store` what it leaves, and `runtimeRun` is
`bc_runtime_run`, given the three callbacks.  The texts of `--help` and
`--version` are the library's.
-/

namespace BcDuplicate

open Json (ascii)

/-! ## workers -/

/-- `bc_concurrency_config_t` -/
structure ParallelConfig where
  workerCountExplicit : Bool
  workerCount : Nat
  allowOversubscribe : Bool
deriving DecidableEq, Repr

/-- The configuration after `bc_core_zero`. -/
def ParallelConfig.zeroed : ParallelConfig := ⟨false, 0, false⟩

/-- `parallel_config` as `main` fills it, from the numbers of logical
processors and of physical cores; `none` when there are too few. -/
def parallelConfig (logicalProcessorCount physicalCoreCount : Nat) (threadsMode : ThreadsMode)
    (explicitWorkerCount : Nat) : Option ParallelConfig :=
  match threadsMode with
  | .mono => some { ParallelConfig.zeroed with workerCountExplicit := true, workerCount := 0 }
  | .explicit =>
      let config := { ParallelConfig.zeroed with
        workerCountExplicit := true
        workerCount := if explicitWorkerCount ≥ 1 then explicitWorkerCount - 1 else 0 }
      if explicitWorkerCount > logicalProcessorCount then none
      else if explicitWorkerCount > physicalCoreCount then
        some { config with allowOversubscribe := true }
      else some config
  | .io =>
      some { ParallelConfig.zeroed with
        allowOversubscribe := true
        workerCountExplicit := true
        workerCount := if logicalProcessorCount ≥ 2 then logicalProcessorCount - 1 else 0 }
  | .auto => some .zeroed

/-! ## the application -/

/-- `bc_duplicate_application_state_t`: whether the collector and the vector
are there, and what the run left behind. -/
structure ApplicationState where
  cliOptions : CommandLine
  hasErrors : Bool
  hasEntries : Bool
  filter : Option Filter
  exitCode : Nat
  outcome : Option RunOutcome
deriving DecidableEq, Repr

/-- The state `main` hands to the runtime. -/
def ApplicationState.initial (cliOptions : CommandLine) : ApplicationState :=
  ⟨cliOptions, false, false, none, 0, none⟩

/-- `bc_runtime_callbacks_t`: the state after each, and what it returned.  A
run may never return. -/
structure RuntimeCallbacks where
  init : ApplicationState → ApplicationState × Bool
  run : ApplicationState → Option (ApplicationState × Bool)
  cleanup : ApplicationState → ApplicationState

/-- `bc_runtime_cli_parse_status_t` -/
inductive ParseStatus
  | helpGlobal
  | helpCommand
  | version
  | error
  | ok (parsed : CliParsed)
deriving DecidableEq, Repr

/-- What the program depends on besides the stop flag.  The requests of the
filter are answered by `allocatesFilter`; `application` is what a run depends
on with the workers of a configuration, its options replaced by those of the
command line. -/
structure ProgramEnvironment (lib : HashLibrary) where
  createsMemoryContext : Bool
  createsStore : Bool
  parse : ParseStatus
  store : ConfigStore
  parseUnsigned : ParseUnsigned
  logicalProcessorCount : Nat
  physicalCoreCount : Nat
  createsRuntime : ParallelConfig → Bool
  runtimeRun : RuntimeCallbacks → ApplicationState → Option ApplicationState
  createsErrors : Bool
  createsEntries : Bool
  allocatesFilter : Nat → Bool
  application : ParallelConfig → ApplicationEnvironment lib

/-- How the program ends: its exit code, what `main` and the binding wrote to
standard error, and how the run ended if there was one. -/
structure ProgramOutcome where
  exitCode : Nat
  stderr : Bytes
  run : Option RunOutcome
deriving DecidableEq, Repr

section Program

variable {lib : HashLibrary} (env : ProgramEnvironment lib)

/-- `bc_duplicate_application_init` -/
def applicationInit (config : ParallelConfig) (state : ApplicationState) :
    ApplicationState × Bool :=
  if (env.application config).hasMemoryContext = false then ({ state with exitCode := 1 }, false)
  else if env.createsErrors = false then ({ state with exitCode := 1 }, false)
  else
    let state := { state with hasErrors := true }
    if env.createsEntries = false then ({ state with exitCode := 1 }, false)
    else
      let state := { state with hasEntries := true }
      if state.cliOptions.includeList ≠ none ∨ state.cliOptions.excludeList ≠ none then
        match filterCreate env.allocatesFilter state.cliOptions.includeList
            state.cliOptions.excludeList with
        | none => ({ state with exitCode := 1 }, false)
        | some filter => ({ state with filter := some filter }, true)
      else (state, true)

/-- What the run of a state depends on: `discovery_options`, the filter and the
options are those of the state. -/
def ApplicationEnvironment.ofState (base : ApplicationEnvironment lib) (state : ApplicationState) :
    ApplicationEnvironment lib :=
  { base with
    options := state.cliOptions.toCliOptions
    inputPaths := state.cliOptions.positionalArgumentValues
    discovery := { base.discovery with
      options := ⟨state.cliOptions.includeHidden, state.cliOptions.followSymlinks,
        state.cliOptions.oneFileSystem, state.cliOptions.minimumFileSize⟩
      filter := state.filter } }

/-- `bc_duplicate_application_run`, on its state. -/
def applicationRunState (config : ParallelConfig) (flag : StopFlag) (state : ApplicationState) :
    Option (ApplicationState × Bool) :=
  (applicationRun ((env.application config).ofState state) flag).map fun outcome =>
    ({ state with exitCode := outcome.exitCode, outcome := some outcome }, outcome.returned)

/-- `bc_duplicate_application_cleanup`, on its state. -/
def applicationCleanupState (config : ParallelConfig) (state : ApplicationState) :
    ApplicationState :=
  if (env.application config).hasMemoryContext = false then state
  else { state with filter := none, hasEntries := false, hasErrors := false }

/-- `runtime_callbacks` -/
def runtimeCallbacks (config : ParallelConfig) (flag : StopFlag) : RuntimeCallbacks :=
  ⟨applicationInit env config, applicationRunState env config flag,
    applicationCleanupState env config⟩

/-! ## main -/

/-- `main` from the options of the command line on. -/
def programStart (flag : StopFlag) (options : CommandLine) : Option ProgramOutcome :=
  match parallelConfig env.logicalProcessorCount env.physicalCoreCount options.threadsMode
      options.explicitWorkerCount with
  | none =>
      some ⟨2, ascii "bc-duplicate: --threads exceeds online logical processors\n", none⟩
  | some config =>
      if env.createsRuntime config = false then
        some ⟨1, ascii "bc-duplicate: failed to initialize runtime\n", none⟩
      else
        (env.runtimeRun (runtimeCallbacks env config flag) (.initial options)).map fun state =>
          ⟨state.exitCode, [], state.outcome⟩

/-- `main`.  `none`: it never returns. -/
def programMain (flag : StopFlag) : Option ProgramOutcome :=
  if env.createsMemoryContext = false then
    some ⟨1, ascii "bc-duplicate: failed to create CLI memory context\n", none⟩
  else if env.createsStore = false then
    some ⟨1, ascii "bc-duplicate: failed to create CLI config store\n", none⟩
  else
    match env.parse with
    | .helpGlobal => some ⟨0, [], none⟩
    | .helpCommand => some ⟨0, [], none⟩
    | .version => some ⟨0, [], none⟩
    | .error => some ⟨2, [], none⟩
    | .ok parsed =>
        match cliBindOptions env.parseUnsigned env.store parsed with
        | .error message => some ⟨2, message, none⟩
        | .ok options => programStart env flag options

end Program

end BcDuplicate
