import BcDuplicate.Application.Reported
import BcDuplicate.Discovery.Agreement
import BcDuplicate.Discovery.Failures

/-!
# BcDuplicate.Application.Errors

The errors a run counts behind its discovery, on one worker and on several.

With several workers the failures below the input directories are printed by
the merge and counted by nobody, so the two counts, and the exit codes of a run
that finds no file, agree exactly when nothing fails there (`errorsAgree_iff`).
-/

namespace BcDuplicate

open FileSystem
open Search

section Specification

variable {lib : HashLibrary} (env : ApplicationEnvironment lib) (flag : StopFlag)

/-- The run with another number of workers. -/
def ApplicationEnvironment.withWorkers (count : Nat) : ApplicationEnvironment lib :=
  { env with effectiveWorkerCount := count }

/-- What discovery runs with, on one worker or on several. -/
def ApplicationEnvironment.discoveryRun : ParallelEnvironment :=
  { env.discovery with
    shouldStop := fun poll => flag.isSet (.discovery poll)
    library := env.walkLibrary fun poll => flag.isSet (.discovery poll) }

/-- **The same errors are counted.**  The serial and the parallel discovery
leave as many errors in the collector, and a run that finds no file ends with
the same exit code. -/
def ErrorsAgree (workers : Nat) : Prop :=
  ∃ serial parallel, applicationDiscover (env.withWorkers 1) flag = some serial ∧
    applicationDiscover (env.withWorkers workers) flag = some parallel ∧
    serial.errors.length = parallel.errors.length ∧
    (serial.entries = [] → parallel.entries = [] ∧
      (applicationRun (env.withWorkers 1) flag).map RunOutcome.exitCode =
        (applicationRun (env.withWorkers workers) flag).map RunOutcome.exitCode)

end Specification

/-- Nothing fails at the input directories or below them: all that are visited
can be opened and listed, and all their names looked at. -/
def NothingFailsBelow (env : DiscoveryEnvironment) (inputs : List Bytes) : Prop :=
  ∀ directory, Reached (childrenOf env (rootDeviceOf env inputs)) (inputs.flatMap (inputRoots env))
    directory → directoryFailures env directory = []

/-! ## the parallel walk does not poll -/

section Polls

variable (env : ParallelEnvironment) (shouldStop : Nat → Bool)

/-- The run with other answers to the polls of the serial walk. -/
def ParallelEnvironment.polling : ParallelEnvironment := { env with shouldStop := shouldStop }

theorem walkMergeEntries_polling (pushed : List OwnedEntry) (merge : DiscoveryResult × Nat) :
    walkMergeEntries (env.polling shouldStop) pushed merge = walkMergeEntries env pushed merge := by
  induction pushed generalizing merge with
  | nil => rfl
  | cons owned pushed ih =>
      obtain ⟨result, requests⟩ := merge
      rw [walkMergeEntries, walkMergeEntries, ih]
      rfl

theorem discoveryExpandParallel_polling (inputs : List Bytes) :
    discoveryExpandParallel (env.polling shouldStop) inputs =
      discoveryExpandParallel env inputs := by
  have hmerge : walkMergeWorkerSlot (env.polling shouldStop) = walkMergeWorkerSlot env := by
    funext merge slot
    rw [walkMergeWorkerSlot, walkMergeWorkerSlot, walkMergeEntries_polling]
  have hinputs : parallelInput (env.polling shouldStop) = parallelInput env := rfl
  rw [discoveryExpandParallel, discoveryExpandParallel, hmerge, hinputs]
  rfl

end Polls

section Runs

variable {lib : HashLibrary} {env : ApplicationEnvironment lib} {flag : StopFlag}

/-- The exit code of a run that finds no file. -/
theorem exitCode_of_nothing_found {discovery : DiscoveryResult}
    (hdiscovered : applicationDiscover env flag = some discovery) (hok : discovery.ok = true)
    (hnone : discovery.entries = []) :
    (applicationRun env flag).map RunOutcome.exitCode =
      some (if env.hasMemoryContext = false ∨ env.hasParallelContext = false then 1
        else if flag.isSet .afterDiscovery then 130
        else if discovery.errors.length = 0 then 0 else 1) := by
  unfold applicationRun
  split
  · rfl
  · rw [hdiscovered, Option.bind_some, hok, if_neg Bool.noConfusion, hnone]
    split
    · rfl
    · rfl

/-- Nothing found by the serial walk is nothing found by the parallel one. -/
theorem parallel_entries_eq_nil {env : ParallelEnvironment} {inputs : List Bytes}
    (hquiet : env.Undisturbed inputs)
    (hliteral : ∀ input ∈ inputs, globContainsMetacharacter input = false)
    {entries : List OwnedEntry} {visited : List Identity}
    (hvisited : Explores id (childrenOf env.toDiscoveryEnvironment
      (rootDeviceOf env.toDiscoveryEnvironment inputs))
      (inputs.flatMap (inputRoots env.toDiscoveryEnvironment)) visited [])
    (hfound : (foundFiles env.fs entries).Perm
      (inputs.flatMap (inputFiles env.toDiscoveryEnvironment) ++
        visited.flatMap (filesOf env.toDiscoveryEnvironment)))
    (hnone : entries = []) : (discoveryExpandParallel env inputs).entries = [] := by
  have hparallel := (flatMap_paths_of_literal env.toDiscoveryEnvironment hliteral).2
  obtain ⟨walks, _, hwalks, hfound'⟩ := discoveryExpandParallel_found (by
    rw [hparallel]
    exact hquiet)
  rw [hparallel] at hwalks hfound'
  rw [hnone] at hfound
  obtain ⟨hinputs, hdirectories⟩ := List.append_eq_nil_iff.mp (List.nil_perm.mp hfound)
  have hwalked : walks.flatten.flatMap (filesOf env.toDiscoveryEnvironment) = [] :=
    List.flatMap_eq_nil_iff.mpr fun directory hmem => by
      by_contra hfiles
      have hreached := (hwalks.mem_flatten_iff hfiles).mp hmem
      exact hfiles (List.flatMap_eq_nil_iff.mp hdirectories directory
        (hvisited.mem_iff.mpr hreached))
  rw [hinputs, hwalked] at hfound'
  exact List.map_eq_nil_iff.mp (List.perm_nil.mp hfound')

/-- **The two counts agree exactly when nothing fails below.** -/
theorem length_errors_eq_iff {env : ParallelEnvironment} {inputs : List Bytes}
    (hquiet : env.Undisturbed inputs)
    (hliteral : ∀ input ∈ inputs, globContainsMetacharacter input = false)
    {errors : List DiscoveryError} {visited : List Identity}
    (hvisited : Explores id (childrenOf env.toDiscoveryEnvironment
      (rootDeviceOf env.toDiscoveryEnvironment inputs))
      (inputs.flatMap (inputRoots env.toDiscoveryEnvironment)) visited [])
    (herrors : (errors.map DiscoveryError.failure).Perm
      (inputs.flatMap (inputFailures env.toDiscoveryEnvironment) ++
        visited.flatMap (directoryFailures env.toDiscoveryEnvironment))) :
    errors.length = (discoveryExpandParallel env inputs).errors.length ↔
      NothingFailsBelow env.toDiscoveryEnvironment inputs := by
  have hparallel := parallel_errors hquiet (fun _ hinput => hinput) hliteral
  have hcount : errors.length = (discoveryExpandParallel env inputs).errors.length +
      (visited.flatMap (directoryFailures env.toDiscoveryEnvironment)).length := by
    have hlength := herrors.length_eq
    rwa [← hparallel, List.length_append, List.length_map, List.length_map] at hlength
  rw [hcount, Nat.add_eq_left, List.length_eq_zero_iff, List.flatMap_eq_nil_iff]
  exact forall_congr' fun directory => by rw [hvisited.mem_iff]

/-- Discovery on one worker is the serial walk. -/
theorem applicationDiscover_one (hallocates : env.discovery.allocates 0 = true) {s : WalkState}
    (hdone : walkInputs (env.discoveryRun flag).toDiscoveryEnvironment
      ((env.discoveryRun flag).fs.directories.card + 1) env.inputPaths
      { WalkState.initial with requests := 1 } = some s) :
    applicationDiscover (env.withWorkers 1) flag = some ⟨true, s.entries, s.errors, []⟩ := by
  have hexpand : discoveryExpand (env.discoveryRun flag).toDiscoveryEnvironment
      ((env.discoveryRun flag).fs.directories.card + 1) env.inputPaths =
        some ⟨true, s.entries, s.errors, []⟩ := by
    have hfirst : (env.discoveryRun flag).allocates 0 = true := hallocates
    rw [discoveryExpand, hfirst, if_neg Bool.noConfusion, hdone]
    rfl
  exact hexpand

/-- Discovery on several workers is the parallel walk. -/
theorem applicationDiscover_many {workers : Nat} (hworkers : 2 ≤ workers) :
    applicationDiscover (env.withWorkers workers) flag =
      some (discoveryExpandParallel (env.discoveryRun flag) env.inputPaths) := by
  have hmany : (env.withWorkers workers).effectiveWorkerCount ≥ 2 := hworkers
  rw [applicationDiscover, if_pos hmany]
  exact congrArg some (discoveryExpandParallel_polling _ _ _).symm

end Runs

/-- **When the errors agree.**  Undisturbed, on inputs without metacharacters,
with whatever failures and whatever the library reports of them on whichever
worker, as many errors are counted on several workers as on one if and only if
nothing fails at the input directories or below them. -/
theorem errorsAgree_iff {lib : HashLibrary} (env : ApplicationEnvironment lib) (flag : StopFlag)
    (workers : Nat) (hworkers : 2 ≤ workers)
    (hliteral : ∀ input ∈ env.inputPaths, globContainsMetacharacter input = false)
    (hquiet : (env.discoveryRun flag).Undisturbed env.inputPaths) :
    ErrorsAgree env flag workers ↔
      NothingFailsBelow (env.discoveryRun flag).toDiscoveryEnvironment env.inputPaths := by
  obtain ⟨s, hdone, hvisited, hfound, herrors⟩ := serial_errors hquiet.base hliteral
  have hserial := applicationDiscover_one (hquiet.base.allocates 0) hdone
  have hparallel := @applicationDiscover_many lib env flag workers hworkers
  obtain ⟨_, hok, _⟩ := discoveryExpandParallel_found (by
    rw [(flatMap_paths_of_literal (env.discoveryRun flag).toDiscoveryEnvironment hliteral).2]
    exact hquiet)
  rw [← length_errors_eq_iff hquiet hliteral hvisited herrors]
  constructor
  · rintro ⟨serial, parallel, hserial', hparallel', hsame, _⟩
    rw [hserial] at hserial'
    rw [hparallel] at hparallel'
    cases hserial'
    cases hparallel'
    exact hsame
  · intro hsame
    refine ⟨_, _, hserial, hparallel, hsame, fun hnone => ?_⟩
    have hnone' := parallel_entries_eq_nil hquiet hliteral hvisited hfound hnone
    refine ⟨hnone', ?_⟩
    rw [exitCode_of_nothing_found hserial rfl hnone, exitCode_of_nothing_found hparallel hok hnone',
      hsame]
    rfl

/-! ### a file that cannot be looked at -/

/-- One directory `d` with one name that cannot be statted. -/
def oneUnreadable : Table where
  root := ⟨0, 1⟩
  rows := [⟨⟨0, 1⟩, [100], .object (.directory ⟨0, 2⟩)⟩, ⟨⟨0, 2⟩, [120], .failing .EACCES⟩]
  distinct := by decide
  proper := by decide

/-- A run over a table with a library that reports what fails. -/
def Table.reportingApplication (table : Table) (inputPaths : List Bytes) :
    ApplicationEnvironment .recording :=
  { table.application scanToFile inputPaths with
    walkLibrary := fun _ => reportingWalk table.fileSystem }

theorem Table.undisturbed_reportingApplication (table : Table) {inputPaths : List Bytes}
    (hshort : ∀ path ∈ inputPaths, (trimTrailingSlashes path).length < 4096) :
    ((table.reportingApplication inputPaths).discoveryRun .never).Undisturbed inputPaths where
  base := ⟨fun _ => rfl, fun _ => rfl, fun _ _ => rfl⟩
  registers := rfl
  short := hshort
  walks := (walksReporting_reportingWalk table.fileSystem).walks

/-- Where everything can be looked at. -/
theorem errorsAgree_iff_oneDirectory :
    ErrorsAgree (oneDirectory.reportingApplication [[100]]) .never 2 := by
  refine (errorsAgree_iff (oneDirectory.reportingApplication [[100]]) .never 2 le_rfl (by decide)
    (oneDirectory.undisturbed_reportingApplication (by decide))).mpr ?_
  generalize henv : ((oneDirectory.reportingApplication [[100]]).discoveryRun
    .never).toDiscoveryEnvironment = env
  rintro directory ⟨root, hroot, hpath⟩
  have hroots : [[100]].flatMap (inputRoots env) = [⟨0, 2⟩] := by
    rw [← henv]
    decide
  have hchildren : childrenOf env (rootDeviceOf env [[100]]) ⟨0, 2⟩ = [] := by
    rw [← henv]
    decide
  obtain rfl : root = ⟨0, 2⟩ := by
    have hmem : root ∈ [[100]].flatMap (inputRoots env) := hroot
    rwa [hroots, List.mem_singleton] at hmem
  rcases Relation.ReflTransGen.cases_head hpath with rfl | ⟨child, hstep, _⟩
  · rw [← henv]
    decide
  · have hmem : child ∈ childrenOf env (rootDeviceOf env [[100]]) ⟨0, 2⟩ := hstep
    rw [hchildren] at hmem
    cases hmem

/-- **A failure below an input is not counted** by the run on two workers,
although the library reports it. -/
theorem failure_uncounted :
    ¬∀ (env : ApplicationEnvironment .recording) (flag : StopFlag) (workers : Nat), 2 ≤ workers →
      (∀ input ∈ env.inputPaths, globContainsMetacharacter input = false) →
      (env.discoveryRun flag).Undisturbed env.inputPaths →
      WalksReporting (env.discoveryRun flag).fs (env.discoveryRun flag).library
        (env.discoveryRun flag).workerCount →
      ErrorsAgree env flag workers := by
  intro h
  obtain ⟨serial, parallel, hserial, hparallel, hsame, _⟩ :=
    h (oneUnreadable.reportingApplication [[100]]) .never 2 le_rfl (by decide)
      (oneUnreadable.undisturbed_reportingApplication (by decide))
      (walksReporting_reportingWalk oneUnreadable.fileSystem)
  have hone : (applicationDiscover ((oneUnreadable.reportingApplication [[100]]).withWorkers 1)
      .never).map (fun discovery => discovery.errors.length) = some 1 := by decide +kernel
  have hnone : (applicationDiscover ((oneUnreadable.reportingApplication [[100]]).withWorkers 2)
      .never).map (fun discovery => discovery.errors.length) = some 0 := by decide +kernel
  rw [hserial, Option.map_some, Option.some.injEq] at hone
  rw [hparallel, Option.map_some, Option.some.injEq] at hnone
  rw [hone, hnone] at hsame
  cases hsame

end BcDuplicate
