import BcDuplicate.Application.Counters
import BcDuplicate.Application.Exact
import BcDuplicate.Output.Lines

/-!
# BcDuplicate.Application.WellFormed

What holds of the report of every run, whatever fails on the way and whenever
a signal arrives: its groups are disjoint ranges of two or more entries, which
agree in size, fast hash and digest as the passes left them, in the order of
decreasing size (`reported_wellFormed`).
-/

namespace BcDuplicate

open Runs
open Sorting
open Copying
open Updates

/-! ## what a report is -/

section Specification

variable {lib : HashLibrary} (env : ApplicationEnvironment lib)

/-- A report on these entries.  Two positions are grouped exactly when their
entries survived the compaction and agree in size and in both hashes. -/
structure Report.WellFormed (entries : List FileEntry) (report : Report) : Prop where
  separate : SeparateGroups report.groups report.entries.length
  two : ∀ group ∈ report.groups, 2 ≤ group.entryCount
  sizes : ∀ group ∈ report.groups, ∀ i, group.Contains i →
    (report.entries[i]?).map FileEntry.fileSize = some group.fileSize
  decreasing : (report.groups.map Group.fileSize).Pairwise (· ≥ ·)
  together : ∀ i j entryI entryJ, i ≠ j → report.entries[i]? = some entryI →
    report.entries[j]? = some entryJ → (SameGroup report.groups i j ↔
      i < (survivingEntries env.sort entries env.options.matchHardlinks).length ∧
      j < (survivingEntries env.sort entries env.options.matchHardlinks).length ∧
      entryI.fileSize = entryJ.fileSize ∧ entryI.fastHash = entryJ.fastHash ∧
      entryI.digest (workerDigestSize env.options.algorithm) =
        entryJ.digest (workerDigestSize env.options.algorithm))
  survivors : ((report.entries.take
      (survivingEntries env.sort entries env.options.matchHardlinks).length).map
        FileEntry.file).Perm
    ((survivingEntries env.sort entries env.options.matchHardlinks).map FileEntry.file)
  filesScanned : report.statistics.filesScanned = entries.length
  found : ∀ group ∈ report.groups, ∀ i, group.Contains i → ∃ entry ∈ entries,
    (report.entries[i]?).map FileEntry.file = some entry.file
  once : env.options.matchHardlinks = false → ∀ i j entryI entryJ, i ≠ j →
    SameGroup report.groups i j → report.entries[i]? = some entryI →
    report.entries[j]? = some entryJ → entryI.identity ≠ entryJ.identity
  groupCount : report.statistics.duplicateGroupCount = report.groups.length
  fileCount : totalCandidates report.groups =
    report.statistics.duplicateFileCount + report.statistics.duplicateGroupCount

end Specification

/-! ## the stages behind a report -/

section Stages

/-- The sizes of the groups of a hash stage come in the order of those it was
given. -/
theorem RefinedTo.pairwise_fileSize {κ : Type} [DecidableEq κ] {key : FileEntry → κ}
    {groups : List Group} {entries : List FileEntry} {result : HashGrouping}
    (h : RefinedTo key groups entries result)
    (hsizes : (groups.map Group.fileSize).Pairwise (· ≥ ·)) :
    (result.groups.map Group.fileSize).Pairwise (· ≥ ·) := by
  rw [h.groups_eq, refinedGroups, List.map_flatMap, List.pairwise_flatMap]
  have hsize : ∀ {group : Group} {size : Nat}, size ∈ ((scanRuns key group.startIndex
      (slice group.run result.entries)).map fun r => (⟨r.start, r.length, group.fileSize⟩ :
        Group)).map Group.fileSize → size = group.fileSize := by
    intro group size hmem
    rw [List.map_map] at hmem
    obtain ⟨r, _, rfl⟩ := List.mem_map.mp hmem
    rfl
  constructor
  · intro group _
    exact List.pairwise_of_forall_mem_list fun size hmem size' hmem' =>
      Nat.le_of_eq ((hsize hmem').trans (hsize hmem).symm)
  · refine (List.pairwise_map.mp hsizes).imp fun hle size hmem size' hmem' => ?_
    rw [hsize hmem, hsize hmem']
    exact hle

variable {lib : HashLibrary} {env : ApplicationEnvironment lib} {flag : StopFlag}
  {entries : List FileEntry} {report : Report}

theorem keeps_fastHash_full (full : Nat → FullOutcome) :
    Keeps FileEntry.fastHash fun i => (full i).apply := by
  intro i entry
  dsimp only
  cases full i <;> rfl

/-- A final group has the size of its entries. -/
theorem fileSize_of_contains {sort : SortFn} {matchHardlinks : Bool} {sizes : SizeGrouping}
    {fast full : Nat → FileEntry → FileEntry} {digestSize : Nat} {grouped final : HashGrouping}
    (hsized : SizeGrouped sort entries matchHardlinks sizes)
    (hstaged : HashStaged fast full digestSize sizes.entries sizes.groups grouped final)
    (hfast : Keeps FileEntry.file fast) (hfull : Keeps FileEntry.file full) {group : Group}
    (hgroup : group ∈ final.groups) {i : Nat} (hi : group.Contains i) :
    (final.entries[i]?).map FileEntry.fileSize = some group.fileSize := by
  have hsep := hsized.separate
  -- up through the groups the group lies in
  obtain ⟨middle, hmiddle, hin, hsize, _⟩ :=
    hstaged.byFullHash.nestedIn (hstaged.separate_grouped hsep) hfull group hgroup
  obtain ⟨outer, houter, hinOuter, hsizeOuter, _⟩ :=
    hstaged.byFastHash.nestedIn hsep hfast middle hmiddle
  have hcontains := hinOuter.contains (hin.contains hi)
  have hsurvives := hsized.lt_survivors houter hcontains
  have hlt : i < sizes.entries.length := hsep.inBounds _ (List.mem_map_of_mem houter)
    |>.lt_of_contains hcontains
  have hfinal : i < final.entries.length := hstaged.length_final ▸ hlt
  have hclass := (hsized.contains_iff houter i).mp hcontains
  rw [hsized.surviving_eq, List.getElem?_eq_getElem hsurvives, hsized.getElem_survivor hsurvives hlt,
    Option.map_some, Option.some.injEq] at hclass
  rw [List.getElem?_eq_getElem hfinal, Option.map_some,
    fileSize_final hsized hstaged hfast hfull hfinal hlt, hclass, hsize, hsizeOuter]

/-- The survivors are different files when hardlinks are collapsed. -/
theorem nodup_identity_survivingEntries (sort : SortFn) (entries : List FileEntry) :
    ((survivingEntries sort entries false).map FileEntry.identity).Nodup := by
  rw [map_identity_survivingEntries]
  exact List.nodup_dedup _

/-- **Every report is well formed.** -/
theorem wellFormed_of_findings
    (hcopies : CopyServes env.sort env.copy entries env.options.matchHardlinks)
    (h : findings env flag entries = some report) : report.WellFormed env entries := by
  obtain ⟨sizes, fast, full, grouped, final, duplicates, hsizes, hstaged, hentries, hgroups, hsame,
    hstatistics⟩ := exists_hashStaged h
  have hsized := sizeGrouped_of_groupingBySize hcopies hsizes
  have hsep := hsized.separate
  have hfast := keeps_file_fast fast
  have hfull := keeps_file_full full
  have htwo : ∀ group ∈ report.groups, 2 ≤ group.entryCount := fun group hgroup =>
    hstaged.byFullHash.two_le_entryCount (hgroups ▸ hgroup)
  have hordered : sizes.surviving.Pairwise fun a b => SizeOrder a.identity b.identity := by
    rw [hsized.surviving_eq]
    exact (pairwise_sorted env.sort entries).sublist (survivingEntries_sublist env.sort entries _)
  have hsurvivors := perm_survivors hsized hstaged hfast hfull
  have hfront : ∀ {group : Group}, group ∈ report.groups → ∀ {i : Nat}, group.Contains i →
      i < (survivingEntries env.sort entries env.options.matchHardlinks).length ∧
        ∃ entry ∈ survivingEntries env.sort entries env.options.matchHardlinks,
          (final.entries[i]?).map FileEntry.file = some entry.file := by
    intro group hgroup i hi
    obtain ⟨hlt, parent, hparent, hin⟩ :=
      hstaged.contains_sizeGroup_of_final hsep (hgroups ▸ hgroup) hi
    have hsurvives := hsized.lt_survivors hparent hin
    obtain ⟨entry, hentry, hfile⟩ := List.mem_map.mp (hsurvivors.mem_iff.mp
      (List.mem_map_of_mem (f := FileEntry.file) (List.mem_of_getElem?
        ((List.getElem?_take_of_lt hsurvives).trans (List.getElem?_eq_getElem hlt)))))
    exact ⟨hsurvives, entry, hentry, by rw [List.getElem?_eq_getElem hlt, Option.map_some, hfile]⟩
  exact {
    separate := by
      rw [hentries, hgroups]
      exact hstaged.separate_final hsep
    two := htwo
    sizes := by
      rw [hentries, hgroups]
      exact fun group hgroup i hi => fileSize_of_contains hsized hstaged hfast hfull hgroup hi
    decreasing := by
      rw [hgroups]
      refine hstaged.byFullHash.pairwise_fileSize (hstaged.byFastHash.pairwise_fileSize ?_)
      exact (hsized.pairwise_fileSize hordered).imp Nat.le_of_lt
    together := by
      intro i j entryI entryJ hij hentryI hentryJ
      rw [hentries] at hentryI hentryJ
      obtain ⟨hi, rfl⟩ := List.getElem?_eq_some_iff.mp hentryI
      obtain ⟨hj, rfl⟩ := List.getElem?_eq_some_iff.mp hentryJ
      rw [hgroups]
      exact sameGroup_final_iff_of_values hsized hstaged hfast hfull (keeps_fastHash_full full) hij
        hi hj (fun _ => rfl) (fun _ => rfl) (fun _ => rfl) (fun _ => rfl)
    survivors := by
      rw [hentries]
      exact hsurvivors
    found := by
      rw [hentries]
      intro group hgroup i hi
      obtain ⟨_, entry, hentry, hfile⟩ := hfront hgroup hi
      exact ⟨entry, mem_of_mem_survivingEntries hentry, hfile⟩
    once := by
      intro hcollapsed i j entryI entryJ hij hsame hentryI hentryJ hidentity
      obtain ⟨group, hgroup, hi, hj⟩ := hsame
      have hfrontI := (hfront hgroup hi).1
      have hfrontJ := (hfront hgroup hj).1
      rw [hentries] at hentryI hentryJ
      -- two positions of the front hold different files
      have hnodup := ((hsurvivors.map Prod.snd).nodup_iff.mpr (by
        rw [List.map_map, hcollapsed]
        exact nodup_identity_survivingEntries env.sort entries))
      rw [List.map_map] at hnodup
      have hget : ∀ {k : Nat} {entry : FileEntry}, final.entries[k]? = some entry →
          k < (survivingEntries env.sort entries env.options.matchHardlinks).length →
          ((final.entries.take (survivingEntries env.sort entries
            env.options.matchHardlinks).length).map (Prod.snd ∘ FileEntry.file))[k]? =
              some entry.identity := by
        intro k entry hentry hk
        rw [List.getElem?_map, List.getElem?_take_of_lt hk, hentry]
        rfl
      have hgetI := hget hentryI hfrontI
      refine hij ((List.getElem?_inj (List.getElem?_eq_some_iff.mp hgetI).1 hnodup).mp ?_)
      rw [hgetI, hget hentryJ hfrontJ, hidentity]
    filesScanned := by
      rw [hstatistics]
      rfl
    groupCount := by
      rw [hstatistics, ← hsame]
      rfl
    fileCount := by
      rw [totalCandidates_eq htwo, hstatistics, ← hsame]
      rfl }

theorem eq_of_reported_applicationReport {stderr : List Diagnostic} {report' : Report}
    (h : (applicationReport env stderr report').reported = some report) : report' = report := by
  unfold applicationReport at h
  dsimp only at h
  cases hpath : outputPath env with
  | none =>
      rw [hpath] at h
      exact Option.some.inj h
  | some path =>
      rw [hpath] at h
      dsimp only at h
      by_cases hopens : env.outputFileOpens = false
      · rw [if_pos hopens] at h
        cases h
      · rw [if_neg hopens] at h
        exact Option.some.inj h

/-- A report that was made was made from the findings. -/
theorem findings_of_reported (hcopies : CopiesServe env flag) {outcome : RunOutcome}
    (hrun : applicationRun env flag = some outcome) (hreported : outcome.reported = some report) :
    ∃ discovery stderr, applicationDiscover env flag = some discovery ∧
      findings env flag (discovery.entries.map OwnedEntry.entry) = some report ∧
      outcome = applicationReport env stderr report := by
  cases runEnd_of_applicationRun hcopies hrun with
  | failed error => cases hreported
  | early endsEarly => cases hreported
  | @reported discovery report' stderr discovered found =>
      obtain rfl := eq_of_reported_applicationReport hreported
      exact ⟨discovery, stderr, discovered, found, rfl⟩

end Stages

/-- **Every report of every run is well formed**, with whatever failures and
signals, as long as the copies serve the compaction, and with exit code 0 it
has arrived. -/
theorem reported_wellFormed {lib : HashLibrary} (env : ApplicationEnvironment lib)
    (flag : StopFlag) (hcopies : CopiesServe env flag) (outcome : RunOutcome)
    (hrun : applicationRun env flag = some outcome) (report : Report)
    (hreported : outcome.reported = some report) :
    ∃ discovery, applicationDiscover env flag = some discovery ∧
      report.WellFormed env (discovery.entries.map OwnedEntry.entry) ∧
      (outcome.exitCode = 0 → Received env outcome (reportBytes env report)) := by
  obtain ⟨discovery, stderr, hdiscovered, hfound, rfl⟩ :=
    findings_of_reported hcopies hrun hreported
  exact ⟨discovery, hdiscovered, wellFormed_of_findings (hcopies discovery hdiscovered) hfound,
    received_applicationReport⟩

/-! ### the report on two copies -/

theorem exists_twoCopiesAtRest_reported : ∃ outcome report,
    applicationRun twoCopiesAtRest .never = some outcome ∧ outcome.exitCode = 0 ∧
      outcome.reported = some report ∧ report.groups.length = 1 := by
  have hrun : ((applicationRun twoCopiesAtRest .never).map fun outcome => (outcome.exitCode,
      outcome.reported.map fun report => report.groups.length)) = some (0, some 1) := by
    decide +kernel
  obtain ⟨outcome, houtcome, hpair⟩ := Option.map_eq_some_iff.mp hrun
  obtain ⟨hexit, hreported⟩ := Prod.mk.inj hpair
  obtain ⟨report, hreport, hgroups⟩ := Option.map_eq_some_iff.mp hreported
  exact ⟨outcome, report, houtcome, hexit, hreport, hgroups⟩

theorem reported_wellFormed_two_copies : ∃ outcome report entries,
    applicationRun twoCopiesAtRest .never = some outcome ∧ report.groups.length = 1 ∧
      Report.WellFormed twoCopiesAtRest entries report ∧
      Received twoCopiesAtRest outcome (reportBytes twoCopiesAtRest report) := by
  obtain ⟨outcome, report, hrun, hexit, hreported, hgroups⟩ := exists_twoCopiesAtRest_reported
  obtain ⟨discovery, _, hwellFormed, hreceived⟩ :=
    reported_wellFormed twoCopiesAtRest .never undisturbed_twoCopiesAtRest.copies outcome hrun
      report hreported
  exact ⟨outcome, report, _, hrun, hgroups, hwellFormed, hreceived hexit⟩

end BcDuplicate
