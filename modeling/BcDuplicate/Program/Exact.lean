import BcDuplicate.Application.Exact
import BcDuplicate.Cli.Expressible
import BcDuplicate.Filter.Segments
import BcDuplicate.Program.Exit

/-!
# BcDuplicate.Program.Exact

The whole program against its purpose, from the command line to the report.
A command line that is bound, for which the machine has the processors, runs
with its own options and filter, and what the program reports at rest are the
classes of two or more files with equal content among those the command line
is about (`program_exact`).
-/

namespace BcDuplicate

open Json (ascii)

section Program

variable {lib : HashLibrary} (env : ProgramEnvironment lib)

/-- The command line is bound to these options. -/
structure ProgramEnvironment.Accepts (options : CommandLine) : Prop where
  createsMemoryContext : env.createsMemoryContext = true
  createsStore : env.createsStore = true
  bound : ∃ parsed, env.parse = .ok parsed ∧
    cliBindOptions env.parseUnsigned env.store parsed = .ok options

/-- What the program asks for before its run is there. -/
structure ProgramEnvironment.Granted (config : ParallelConfig) : Prop where
  createsRuntime : env.createsRuntime config = true
  createsErrors : env.createsErrors = true
  createsEntries : env.createsEntries = true
  allocatesFilter : ∀ request, env.allocatesFilter request = true

/-- The filter of a command line. -/
def CommandLine.filter (options : CommandLine) : Option Filter :=
  if options.includeList ≠ none ∨ options.excludeList ≠ none then
    filterCreate (fun _ => true) options.includeList options.excludeList
  else none

/-- The state in which the application runs. -/
def ApplicationState.ready (options : CommandLine) : ApplicationState :=
  ⟨options, true, true, options.filter, 0, none⟩

/-- The run of a command line. -/
def ProgramEnvironment.runOf (config : ParallelConfig) (options : CommandLine) :
    ApplicationEnvironment lib :=
  (env.application config).ofState (.ready options)

variable {env} {config : ParallelConfig} {options : CommandLine} {flag : StopFlag}

theorem applicationInit_granted (hgranted : env.Granted config)
    (hmemory : (env.application config).hasMemoryContext = true) :
    applicationInit env config (.initial options) = (.ready options, true) := by
  have hallocates : env.allocatesFilter = fun _ => true := funext hgranted.allocatesFilter
  rw [applicationInit, hmemory, hgranted.createsErrors, hgranted.createsEntries, hallocates]
  show (if options.includeList ≠ none ∨ options.excludeList ≠ none then _ else _) = _
  unfold ApplicationState.ready CommandLine.filter
  split
  · obtain ⟨filter, hfilter⟩ := Option.isSome_iff_exists.mp
      (filterCreate_isSome (fun _ => true) options.includeList options.excludeList fun _ => rfl)
    rw [hfilter]
    dsimp only [ApplicationState.initial]
    rw [hfilter]
  · rfl

/-- **The program runs its command line**, and ends as the run does. -/
theorem programMain_of_run (haccepts : env.Accepts options)
    (hconfig : parallelConfig env.logicalProcessorCount env.physicalCoreCount options.threadsMode
      options.explicitWorkerCount = some config)
    (hgranted : env.Granted config) (hruntime : Sequences env.runtimeRun)
    (hmemory : (env.application config).hasMemoryContext = true) {run : RunOutcome}
    (hrun : applicationRun (env.runOf config options) flag = some run) :
    programMain env flag = some ⟨run.exitCode, [], some run⟩ := by
  obtain ⟨parsed, hstatus, hbound⟩ := haccepts.bound
  rw [programMain, if_neg (by rw [haccepts.createsMemoryContext]; exact Bool.noConfusion),
    if_neg (by rw [haccepts.createsStore]; exact Bool.noConfusion), hstatus]
  dsimp only
  rw [hbound]
  dsimp only
  rw [programStart, hconfig]
  dsimp only
  have hran : applicationRunState env config flag (.ready options) =
      some ({ ApplicationState.ready options with
        exitCode := run.exitCode, outcome := some run }, run.returned) :=
    congrArg (Option.map _) hrun
  have hinit : (runtimeCallbacks env config flag).init (.initial options) =
      (.ready options, true) := applicationInit_granted hgranted hmemory
  obtain ⟨hcode, houtcome⟩ := @ends_applicationCleanupState lib env config
    { ApplicationState.ready options with exitCode := run.exitCode, outcome := some run }
  rw [if_neg (by rw [hgranted.createsRuntime]; exact Bool.noConfusion), hruntime, hinit]
  dsimp only [runtimeCallbacks]
  rw [hran, Option.map_some, Option.map_some, hcode, houtcome]

end Program

/-- **The program is exact.**  A command line that is bound, on a machine that
has its threads and memory: at rest, with a digest that tells the contents of
the files in scope apart, the program returns, its run is that of the command
line, and the groups it reports are the classes of two or more files in scope
with equal content; with exit code 0 the groups there are have arrived where
the command line sends them. -/
theorem program_exact {lib : HashLibrary} {reference : HashReference}
    (hlib : lib.Streams reference) (env : ProgramEnvironment lib) (flag : StopFlag)
    (options : CommandLine) (config : ParallelConfig) (content : Identity → Bytes)
    (haccepts : env.Accepts options)
    (hconfig : parallelConfig env.logicalProcessorCount env.physicalCoreCount options.threadsMode
      options.explicitWorkerCount = some config)
    (hgranted : env.Granted config) (hruntime : Sequences env.runtimeRun)
    (h : (env.runOf config options).Undisturbed flag)
    (hholds : HoldsContent (env.runOf config options) content)
    (htells : TellsApart (env.runOf config options) reference content) :
    ∃ outcome run discovery report, programMain env flag = some outcome ∧
      outcome.run = some run ∧ outcome.exitCode = run.exitCode ∧
      applicationDiscover (env.runOf config options) flag = some discovery ∧
      findings (env.runOf config options) flag (discovery.entries.map OwnedEntry.entry) =
        some report ∧
      (options.matchHardlinks = false →
        reportedBy FileEntry.inode report.duplicates =
          duplicateFiles (env.runOf config options) content) ∧
      (options.matchHardlinks = true → FoundOnce (env.runOf config options) →
        reportedBy (foundFile (env.runOf config options).discovery.fs) report.duplicates =
          duplicateNames (env.runOf config options) content) ∧
      (outcome.exitCode = 0 → report.groups ≠ [] →
        Received (env.runOf config options) run (reportBytes (env.runOf config options) report)) := by
  obtain ⟨discovery, _, report, hdiscovered, _, hfound, hcollapsed, hmatched⟩ :=
    exists_classes hlib h hholds htells
  obtain ⟨run, hrun⟩ := exists_outcome hdiscovered hfound
  exact ⟨_, run, discovery, report,
    programMain_of_run haccepts hconfig hgranted hruntime h.hasMemoryContext hrun, rfl, rfl,
    hdiscovered, hfound, hcollapsed, hmatched, received_of_findings h.copies hdiscovered hfound hrun⟩

/-! ### a scan of two copies -/

/-- `scan --algorithm=sha256 --output=r` of the two copies. -/
def scanTwoCopies : CommandLine :=
  ⟨scanToFile, 0, 1, none, none, false, false, false, [[97], [97, 98]]⟩

/-- The program on it. -/
def twoCopiesProgram : ProgramEnvironment .recording :=
  .ofParsed twoCopiesAtRest scanTwoCopies.store scanTwoCopies.parsed

theorem accepts_twoCopiesProgram : twoCopiesProgram.Accepts scanTwoCopies := by
  have hexpressible : scanTwoCopies.Expressible :=
    ⟨rfl, by decide, ⟨by decide, by decide⟩, nofun, nofun, by decide, by decide⟩
  exact ⟨rfl, rfl, _, rfl, bindOptions_store parsesDecimal_parseLongest hexpressible⟩

/-- The program reports the two copies. -/
theorem program_exact_two_copies : ∃ outcome discovery report,
    programMain twoCopiesProgram .never = some outcome ∧
    applicationDiscover twoCopiesAtRest .never = some discovery ∧
    findings twoCopiesAtRest .never (discovery.entries.map OwnedEntry.entry) = some report ∧
    reportedBy FileEntry.inode report.duplicates =
      duplicateFiles twoCopiesAtRest fun _ => [97] := by
  obtain ⟨outcome, _, discovery, report, hmain, _, _, hdiscovered, hfound, hcollapsed, _⟩ :=
    program_exact streams_recording twoCopiesProgram .never scanTwoCopies .zeroed (fun _ => [97])
      accepts_twoCopiesProgram rfl ⟨rfl, rfl, rfl, fun _ => rfl⟩ sequences_sequentialRun
      undisturbed_twoCopiesAtRest holdsContent_twoCopiesAtRest fun _ _ _ _ _ => rfl
  exact ⟨outcome, discovery, report, hmain, hdiscovered, hfound, hcollapsed rfl⟩

end BcDuplicate
