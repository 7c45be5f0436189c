import BcDuplicate.Application
import BcDuplicate.Discovery.Agreement
import BcDuplicate.Output.Document
import BcDuplicate.Output.Summary
import BcDuplicate.Stages.Content
import BcDuplicate.Stages.Outcomes

/-!
# BcDuplicate.Application.Reported

Whether a run that exits with 0 has reported.  `findings` says what a run has
to report, with no groups when no two files have one size, and `Reported` that
the destination received the report of the findings, as a reader of its format
finds them in it (`TellsReport`), and nothing else did.

A run ends with 0 before it opens its destination when nothing was found, or
no two files have one size (`EndsEarly`).  Plain text then has nothing to say;
a summary or a JSON document is missing (`reported_iff`).
-/

namespace BcDuplicate

open Json (ascii decimal)
open Sorting
open Copying
open Updates

section Reported

variable {lib : HashLibrary} (env : ApplicationEnvironment lib) (flag : StopFlag)

/-! ## what a run has to report -/

/-- What is reported about the files discovery found: without groups of one
size there are no duplicates and nothing is hashed. -/
def findings (entries : List FileEntry) : Option Report :=
  match groupingBySize env.sort env.copy env.pools.bySize entries env.options.matchHardlinks with
  | none => none
  | some sizes =>
      if sizes.groups = [] then
        some ⟨sizes.entries, [], applicationStatistics env entries.length sizes
          ⟨sizes.entries, [], 0, 0⟩⟩
      else
        match hashStages env.sort env.pools (workerDigestSize env.options.algorithm)
            (applicationFastPass env flag) (applicationFullPass env flag) sizes.entries
            sizes.groups with
        | .done duplicates => some ⟨duplicates.entries, duplicates.groups,
            applicationStatistics env entries.length sizes duplicates⟩
        | _ => none

/-- The destination of the run received exactly these bytes: the output file,
emptied when it was opened, or standard output. -/
def Received (outcome : RunOutcome) (bytes : Bytes) : Prop :=
  match outputPath env with
  | some _ => outcome.outputFile = some bytes ∧ outcome.stdout = []
  | none => outcome.stdout = bytes ∧ outcome.outputFile = none

/-- Who reads the bytes finds the report: in a summary its statistics, and in a
JSON document, whose paths are C strings, the algorithm, the statistics and the
groups. -/
def TellsReport (bytes : Bytes) (report : Report) : Prop :=
  match env.options.command with
  | .summary => readSummary bytes = some report.statistics
  | .scan =>
      match outputFormat env with
      | .json => env.coreWriter.PrintsHexadecimal →
          (∀ entry ∈ report.entries, 0 ∉ entry.absolutePath) →
          Json.parse bytes = some (jsonDocument env.options.algorithm report.entries report.groups
            report.statistics, ascii "\n")
      | .simple => bytes = outputSimpleWrite report.entries report.groups

/-- The destination received the report of the run's findings. -/
def Reported (outcome : RunOutcome) : Prop :=
  ∃ discovery report, applicationDiscover env flag = some discovery ∧
    findings env flag (discovery.entries.map OwnedEntry.entry) = some report ∧
      Received env outcome (reportBytes env report) ∧ TellsReport env (reportBytes env report) report

/-- The copies serve the compaction of what discovery finds. -/
def CopiesServe : Prop :=
  ∀ discovery, applicationDiscover env flag = some discovery →
    CopyServes env.sort env.copy (discovery.entries.map OwnedEntry.entry)
      env.options.matchHardlinks

/-! ## runs that end early -/

/-- No two files have one size, once only one name of each is left. -/
def SizesDiffer (entries : List FileEntry) : Prop :=
  ((survivingEntries env.sort entries env.options.matchHardlinks).map FileEntry.fileSize).Nodup

/-- The run ends with exit code 0 before it opens its destination: nothing was
found and nothing went wrong, or no two files have one size. -/
structure EndsEarly (discovery : DiscoveryResult) : Prop where
  hasMemoryContext : env.hasMemoryContext = true
  hasParallelContext : env.hasParallelContext = true
  discovered : applicationDiscover env flag = some discovery
  ok : discovery.ok = true
  notInterrupted : flag.isSet .afterDiscovery = false
  nothing : (discovery.entries = [] ∧ discovery.errors = []) ∨
    (discovery.entries ≠ [] ∧ env.allocatesEntries = true ∧ env.pools.bySize 16 = true ∧
      SizesDiffer env (discovery.entries.map OwnedEntry.entry))

/-- The report is a summary or a JSON document, which is never empty. -/
def NeverEmpty : Prop := env.options.command = .summary ∨ outputFormat env = .json

variable {env flag}

/-! ## the stages behind a report -/

section Stages

/-- Without size groups the hashing stages would have done nothing. -/
theorem hashStaged_nil (fast full : Nat → FileEntry → FileEntry) (digestSize : Nat)
    (entries : List FileEntry) :
    HashStaged fast full digestSize entries [] ⟨entries, [], 0⟩ ⟨entries, [], 0⟩ :=
  ⟨⟨⟨.refl _, nofun, fun _ _ => rfl⟩, nofun, rfl, rfl⟩,
    ⟨⟨.refl _, nofun, fun _ _ => rfl⟩, nofun, rfl, rfl⟩⟩

variable {entries : List FileEntry} {report : Report}

/-- **Behind every report there are the stages** of some outcomes of the two
passes. -/
theorem exists_hashStaged (h : findings env flag entries = some report) :
    ∃ (sizes : SizeGrouping) (fast : Nat → FastOutcome) (full : Nat → FullOutcome)
      (grouped final : HashGrouping) (duplicates : Duplicates),
      groupingBySize env.sort env.copy env.pools.bySize entries env.options.matchHardlinks =
        some sizes ∧
      HashStaged (fun i => (fast i).apply) (fun i => (full i).apply)
        (workerDigestSize env.options.algorithm) sizes.entries sizes.groups grouped final ∧
      report.entries = final.entries ∧ report.groups = final.groups ∧
      duplicates.groups = report.groups ∧
      report.statistics = applicationStatistics env entries.length sizes duplicates := by
  unfold findings at h
  split at h
  · cases h
  · next sizes hsizes =>
    split at h
    · next hgroups =>
      cases h
      have hstaged := hashStaged_nil (fun _ => (FastOutcome.hashed 0).apply)
        (fun _ => (FullOutcome.hashed []).apply) (workerDigestSize env.options.algorithm)
        sizes.entries
      rw [← hgroups] at hstaged
      exact ⟨sizes, fun _ => .hashed 0, fun _ => .hashed [], _, _, ⟨sizes.entries, [], 0, 0⟩,
        hsizes, hstaged, rfl, hgroups.symm, rfl, rfl⟩
    · split at h
      · next duplicates hduplicates =>
        cases h
        have hsep := (sizeScanned_of_groupingBySize hsizes).separate
        obtain ⟨fast, full, houtcomes⟩ := hashStages_outcomes hsep hduplicates
        obtain ⟨grouped, final, _, hstaged, hentries, hgroups⟩ := hashStaged_of_done hsep houtcomes
        exact ⟨sizes, fast, full, grouped, final, duplicates, hsizes, hstaged, hentries, hgroups,
          rfl, rfl⟩
      · cases h

/-- **A report tells what it was made from.** -/
theorem tellsReport (h : findings env flag entries = some report) :
    TellsReport env (reportBytes env report) report := by
  obtain ⟨sizes, fast, full, grouped, final, _, hsizes, hstaged, hentries, hgroups, _, _⟩ :=
    exists_hashStaged h
  have hsep := hstaged.separate_final (sizeScanned_of_groupingBySize hsizes).separate
  rw [← hentries, ← hgroups] at hsep
  unfold TellsReport reportBytes
  cases env.options.command with
  | summary => exact readSummary_outputSummaryWrite report.statistics
  | scan =>
      cases outputFormat env with
      | simple => rfl
      | json =>
          intro hwriter hpaths
          exact parse_outputJsonWrite env.coreWriter hwriter env.options.algorithm report.entries
            hpaths report.groups
            (fun group hgroup => hsep.inBounds _ (List.mem_map_of_mem hgroup)) report.statistics

end Stages

/-! ## reports that are never empty -/

theorem reportBytes_ne_nil (h : NeverEmpty env) (report : Report) :
    reportBytes env report ≠ [] := by
  unfold reportBytes
  cases hcommand : env.options.command with
  | summary =>
      exact List.append_ne_nil_of_right_ne_nil _ (List.append_ne_nil_of_right_ne_nil _ nofun)
  | scan =>
      rcases h with hsummary | hjson
      · rw [hcommand] at hsummary
        cases hsummary
      · rw [hjson]
        exact List.append_ne_nil_of_right_ne_nil _ nofun

/-- Plain text goes to standard output, and without groups there is none. -/
theorem plain_of_not_neverEmpty (h : ¬NeverEmpty env) {report : Report}
    (hgroups : report.groups = []) : outputPath env = none ∧ reportBytes env report = [] := by
  have hscan : env.options.command = .scan := by
    cases hcommand : env.options.command with
    | scan => rfl
    | summary => exact absurd (Or.inl hcommand) h
  have hsimple : outputFormat env = .simple := by
    cases hformat : outputFormat env with
    | simple => rfl
    | json => exact absurd (Or.inr hformat) h
  refine ⟨?_, ?_⟩
  · unfold outputFormat at hsimple
    unfold outputPath
    rw [hscan] at hsimple ⊢
    cases hdestination : env.options.outputDestination with
    | file path => rw [hdestination] at hsimple; cases hsimple
    | auto | stdout => rfl
  · rw [reportBytes, hscan, hsimple]
    dsimp only
    rw [hgroups]
    rfl

/-! ## the ends of a run -/

/-- A run that ends early is silent, and has no duplicates to report. -/
theorem applicationRun_of_endsEarly (hcopies : CopiesServe env flag)
    {discovery : DiscoveryResult} (h : EndsEarly env flag discovery) :
    (∃ stderr, applicationRun env flag = some (.silent 0 true stderr)) ∧
      ∃ report, findings env flag (discovery.entries.map OwnedEntry.entry) = some report ∧
        report.groups = [] := by
  have hcontexts : ¬(env.hasMemoryContext = false ∨ env.hasParallelContext = false) := by
    rw [h.hasMemoryContext, h.hasParallelContext]
    decide
  unfold applicationRun findings
  rw [if_neg hcontexts, h.discovered, Option.bind_some, h.ok, h.notInterrupted]
  rcases h.nothing with ⟨hentries, herrors⟩ | ⟨hentries, hallocates, hbuffer, hdiffer⟩
  · rw [hentries, herrors]
    exact ⟨⟨_, rfl⟩, _, rfl, rfl⟩
  · have hmapped : discovery.entries.map OwnedEntry.entry ≠ [] :=
      fun hnil => hentries (List.map_eq_nil_iff.mp hnil)
    obtain ⟨sizes, hsizes, hgroups⟩ :=
      groupingBySize_of_differ hmapped (hcopies discovery h.discovered) hbuffer hdiffer
    have hlen : (discovery.entries.map OwnedEntry.entry).length ≠ 0 :=
      fun hzero => hmapped (List.length_eq_zero_iff.mp hzero)
    unfold applicationPipeline
    simp only [hsizes, hgroups, hallocates, hlen, if_false, if_true, Bool.true_eq_false,
      Bool.false_eq_true, List.length_nil]
    exact ⟨⟨_, rfl⟩, _, rfl, rfl⟩

/-- How a run that returns ended: in silence with an error, early, or with the
report of its findings. -/
inductive RunEnd (env : ApplicationEnvironment lib) (flag : StopFlag) : RunOutcome → Prop
  | failed {exitCode : Nat} {returned : Bool} {stderr : List Diagnostic} (error : exitCode ≠ 0) :
      RunEnd env flag (.silent exitCode returned stderr)
  | early {discovery : DiscoveryResult} {stderr : List Diagnostic}
      (endsEarly : EndsEarly env flag discovery) : RunEnd env flag (.silent 0 true stderr)
  | reported {discovery : DiscoveryResult} {report : Report} {stderr : List Diagnostic}
      (discovered : applicationDiscover env flag = some discovery)
      (found : findings env flag (discovery.entries.map OwnedEntry.entry) = some report) :
      RunEnd env flag (applicationReport env stderr report)

/-- The end of a run that gets past discovery with entries. -/
theorem runEnd_of_applicationPipeline (hcopies : CopiesServe env flag)
    {discovery : DiscoveryResult} {stderr : List Diagnostic} {outcome : RunOutcome}
    (hdiscovered : applicationDiscover env flag = some discovery)
    (hentries : discovery.entries.map OwnedEntry.entry ≠ [])
    (hearly : env.pools.bySize 16 = true →
      SizesDiffer env (discovery.entries.map OwnedEntry.entry) → EndsEarly env flag discovery)
    (h : applicationPipeline env flag stderr (discovery.entries.map OwnedEntry.entry) =
      some outcome) : RunEnd env flag outcome := by
  unfold applicationPipeline at h
  split at h
  · cases h
    exact .failed (by decide)
  · next sizes hsizes =>
    have hsized := sizeGrouped_of_groupingBySize (hcopies discovery hdiscovered) hsizes
    split at h
    · next hgroups =>
      cases h
      exact .early (hearly (allocates_of_groupingBySize hentries hsizes)
        (hsized.groups_eq_nil_iff.mp (List.length_eq_zero_iff.mp hgroups)))
    · next hgroups =>
      split at h
      · cases h
        exact .failed (by decide)
      · cases h
      · next duplicates hduplicates =>
        cases h
        refine .reported hdiscovered ?_
        unfold findings
        rw [hsizes]
        dsimp only
        rw [if_neg fun hnil => hgroups (List.length_eq_zero_iff.mpr hnil), hduplicates]

/-- **Every run that returns ends in one of these ways.** -/
theorem runEnd_of_applicationRun (hcopies : CopiesServe env flag) {outcome : RunOutcome}
    (h : applicationRun env flag = some outcome) : RunEnd env flag outcome := by
  unfold applicationRun at h
  split at h
  · cases h
    exact .failed (by decide)
  · next hcontexts =>
    simp only [not_or, Bool.not_eq_false] at hcontexts
    obtain ⟨discovery, hdiscovered, h⟩ := Option.bind_eq_some_iff.mp h
    dsimp only at h
    split at h
    · cases h
      exact .failed (by decide)
    · next hok =>
      split at h
      · cases h
        exact .failed (by decide)
      · next hinterrupted =>
        rw [Bool.not_eq_false] at hok
        rw [Bool.not_eq_true] at hinterrupted
        split at h
        · next hnone =>
          cases h
          have hentries := List.map_eq_nil_iff.mp (List.length_eq_zero_iff.mp hnone)
          by_cases herrors : discovery.errors.length = 0
          · rw [if_pos herrors]
            exact .early ⟨hcontexts.1, hcontexts.2, hdiscovered, hok, hinterrupted,
              Or.inl ⟨hentries, List.length_eq_zero_iff.mp herrors⟩⟩
          · rw [if_neg herrors]
            exact .failed (by decide)
        · next hsome =>
          have hmapped : discovery.entries.map OwnedEntry.entry ≠ [] :=
            fun hnil => hsome (List.length_eq_zero_iff.mpr hnil)
          split at h
          · cases h
            exact .failed (by decide)
          · next hallocates =>
            rw [Bool.not_eq_false] at hallocates
            refine runEnd_of_applicationPipeline hcopies hdiscovered hmapped
              (fun hbuffer hdiffer => ?_) h
            exact ⟨hcontexts.1, hcontexts.2, hdiscovered, hok, hinterrupted,
              Or.inr ⟨fun hnil => hmapped (List.map_eq_nil_iff.mpr hnil), hallocates, hbuffer,
                hdiffer⟩⟩

/-- A report that was written with success has arrived, at its destination
only. -/
theorem received_applicationReport {stderr : List Diagnostic} {report : Report}
    (h : (applicationReport env stderr report).exitCode = 0) :
    Received env (applicationReport env stderr report) (reportBytes env report) := by
  have hdelivered : (if env.output.initialises then env.output.deliver (reportBytes env report)
      else ([], false)).2 = true → (if env.output.initialises then
        env.output.deliver (reportBytes env report) else ([], false)).1 = reportBytes env report := by
    cases env.output.initialises with
    | true => exact env.output.complete _
    | false => exact fun hc => (nomatch hc)
  unfold applicationReport at h ⊢
  unfold Received
  dsimp only at h ⊢
  generalize (if env.output.initialises then env.output.deliver (reportBytes env report)
    else ([], false)) = delivered at h hdelivered ⊢
  have hok : (if delivered.2 then 0 else 1) = 0 → delivered.2 = true := by
    cases delivered.2 <;> decide
  cases hpath : outputPath env with
  | none =>
      rw [hpath] at h
      exact ⟨hdelivered (hok h), rfl⟩
  | some path =>
      rw [hpath] at h
      dsimp only at h ⊢
      by_cases hopens : env.outputFileOpens = false
      · rw [if_pos hopens] at h
        cases h
      · rw [if_neg hopens] at h ⊢
        exact ⟨congrArg some (hdelivered (hok h)), rfl⟩

end Reported

/-- **Which runs with exit code 0 have reported.**  When the copies serve the
compaction, all but those that end before they open their destination, with a
summary or a JSON document to write: then nothing is written, and an output file
keeps what it held. -/
theorem reported_iff {lib : HashLibrary} (env : ApplicationEnvironment lib) (flag : StopFlag)
    (outcome : RunOutcome) (hcopies : CopiesServe env flag)
    (hrun : applicationRun env flag = some outcome) :
    (outcome.exitCode = 0 → Reported env flag outcome) ↔
      ¬((∃ discovery, EndsEarly env flag discovery) ∧ NeverEmpty env) := by
  constructor
  · rintro hreported ⟨⟨discovery, hearly⟩, hkind⟩
    obtain ⟨⟨stderr, hsilent⟩, _⟩ := applicationRun_of_endsEarly hcopies hearly
    rw [hrun, Option.some.injEq] at hsilent
    subst hsilent
    obtain ⟨_, report, _, _, hreceived, _⟩ := hreported rfl
    unfold Received at hreceived
    split at hreceived
    · cases hreceived.1
    · exact reportBytes_ne_nil hkind report hreceived.1.symm
  · intro hend hexit
    cases runEnd_of_applicationRun hcopies hrun with
    | failed error => exact absurd hexit error
    | early endsEarly =>
        obtain ⟨_, report, hfound, hgroups⟩ := applicationRun_of_endsEarly hcopies endsEarly
        obtain ⟨hpath, hbytes⟩ := plain_of_not_neverEmpty
          (fun hkind => hend ⟨⟨_, endsEarly⟩, hkind⟩) hgroups
        refine ⟨_, report, endsEarly.discovered, hfound, ?_, tellsReport hfound⟩
        rw [Received, hpath, hbytes]
        exact ⟨rfl, rfl⟩
    | reported discovered found =>
        exact ⟨_, _, discovered, found, received_applicationReport hexit, tellsReport found⟩

/-! ### two runs that write to a file -/

/-- A run over a table in which nothing fails, on one worker.  Every file holds
the first byte of its path. -/
def Table.application (table : Table) (options : CliOptions) (inputPaths : List Bytes) :
    ApplicationEnvironment .recording where
  options := options
  inputPaths := inputPaths
  hasMemoryContext := true
  hasParallelContext := true
  effectiveWorkerCount := 1
  discovery := table.run
  walkLibrary _ := table.run.library
  allocatesEntries := true
  sort := insertionSort
  copy := memmove
  pools := .unlimited
  fast := .initials
  full := .initials
  throughputConstants := none
  wallMs := 0
  stdoutIsTerminal := false
  outputFileOpens := true
  coreWriter := .lowercase
  output := .working

/-- `scan --output r`, with full hashes by SHA-256. -/
def scanToFile : CliOptions := ⟨.scan, .sha256, .auto, .file [114], false⟩

/-- Two files `a` and `ab`, which hold the same byte. -/
def twoCopies : Table where
  root := ⟨0, 1⟩
  rows := [⟨⟨0, 1⟩, [97], .object (.regular ⟨0, 2⟩ 1)⟩,
    ⟨⟨0, 1⟩, [97, 98], .object (.regular ⟨0, 3⟩ 1)⟩]
  distinct := by decide
  proper := by decide

/-- The report on two copies arrives in the file. -/
theorem reported_iff_two_copies : ∃ outcome,
    applicationRun (twoCopies.application scanToFile [[97], [97, 98]]) .never = some outcome ∧
      outcome.exitCode = 0 ∧
      Reported (twoCopies.application scanToFile [[97], [97, 98]]) .never outcome := by
  have hrun : ((applicationRun (twoCopies.application scanToFile [[97], [97, 98]]) .never).map
      fun outcome => (outcome.exitCode, outcome.outputFile.isSome)) = some (0, true) := by
    decide +kernel
  obtain ⟨outcome, houtcome, hpair⟩ := Option.map_eq_some_iff.mp hrun
  rw [Prod.mk.injEq] at hpair
  have hcopies : CopiesServe (twoCopies.application scanToFile [[97], [97, 98]]) .never :=
    fun _ _ => Or.inl moves_memmove
  refine ⟨outcome, houtcome, hpair.1, (reported_iff _ _ _ hcopies houtcome).mpr ?_ hpair.1⟩
  -- it does not end early, since the file was opened
  rintro ⟨⟨discovery, hearly⟩, _⟩
  obtain ⟨⟨stderr, hsilent⟩, _⟩ := applicationRun_of_endsEarly hcopies hearly
  rw [houtcome, Option.some.injEq] at hsilent
  rw [hsilent] at hpair
  cases hpair.2

/-- **One file, and the output file is not touched.** -/
theorem early_exit_unreported :
    ¬∀ (env : ApplicationEnvironment .recording) (flag : StopFlag) (outcome : RunOutcome),
      CopiesServe env flag → applicationRun env flag = some outcome → outcome.exitCode = 0 →
        Reported env flag outcome := by
  intro h
  have hrun : applicationRun (oneDirectory.application scanToFile [[100]]) .never =
      some (.silent 0 true [.errors [], .errors []]) := by decide +kernel
  obtain ⟨_, _, _, _, hreceived, _⟩ := h _ _ _ (fun _ _ => Or.inl moves_memmove) hrun rfl
  cases hreceived.1

end BcDuplicate
