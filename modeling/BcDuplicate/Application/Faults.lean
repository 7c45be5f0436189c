import BcDuplicate.Application.Exact
import BcDuplicate.Application.Interrupted
import BcDuplicate.Discovery.Silence

/-!
# BcDuplicate.Application.Faults

The run when discovery is disturbed and files cannot be opened.  Whatever fails
and whenever a signal arrives, what discovery finds is in scope, and no name is
found twice (`discovered_inScope`).  The report is then exact for what was
found, with the files that cannot be opened taken for duplicates of each other
(`report_of_discovered`).  On one worker, a run that exits with 0 and reports
no exhausted memory and no path that is too long has lost nothing
(`silent_run_exact`).
-/

namespace BcDuplicate

open FileSystem
open Runs

section Faults

variable {lib : HashLibrary} {env : ApplicationEnvironment lib} {flag : StopFlag}

/-- Nothing of the walk's doing: no request was refused, and every path fitted
its buffer. -/
def RunOutcome.Silent (outcome : RunOutcome) : Prop :=
  ∀ errors, .errors errors ∈ outcome.stderr → ∀ error ∈ errors, ¬error.OfDisturbance

theorem stderr_applicationReport {stderr : List Diagnostic} (report : Report) :
    ∃ more, (applicationReport env stderr report).stderr = stderr ++ more := by
  unfold applicationReport
  dsimp only
  split
  · split
    · exact ⟨_, rfl⟩
    · exact ⟨[], (List.append_nil _).symm⟩
  · exact ⟨[], (List.append_nil _).symm⟩

theorem stderr_applicationPipeline {stderr : List Diagnostic} {entries : List FileEntry}
    {outcome : RunOutcome} (h : applicationPipeline env flag stderr entries = some outcome) :
    ∃ more, outcome.stderr = stderr ++ more := by
  unfold applicationPipeline at h
  split at h
  · cases h
    exact ⟨[], (List.append_nil _).symm⟩
  · split at h
    · cases h
      exact ⟨[], (List.append_nil _).symm⟩
    · split at h
      · cases h
        exact ⟨[], (List.append_nil _).symm⟩
      · cases h
      · cases h
        exact stderr_applicationReport _

/-- **A run with exit code 0** got past discovery, and printed its errors. -/
theorem discovered_of_exitCode {outcome : RunOutcome}
    (hrun : applicationRun env flag = some outcome) (hexit : outcome.exitCode = 0) :
    ∃ discovery, applicationDiscover env flag = some discovery ∧ discovery.ok = true ∧
      .errors discovery.errors ∈ outcome.stderr := by
  unfold applicationRun at hrun
  split at hrun
  · cases hrun
    cases hexit
  · obtain ⟨discovery, hdiscovered, hrest⟩ := Option.bind_eq_some_iff.mp hrun
    dsimp only at hrest
    split at hrest
    · cases hrest
      cases hexit
    · next hok =>
      refine ⟨discovery, hdiscovered, by simpa using hok, ?_⟩
      split at hrest
      · cases hrest
        cases hexit
      · split at hrest
        · cases hrest
          exact List.mem_append_right _ (List.mem_singleton_self _)
        · split at hrest
          · cases hrest
            exact List.mem_append_right _ (List.mem_singleton_self _)
          · obtain ⟨more, hmore⟩ := stderr_applicationPipeline hrest
            rw [hmore]
            exact List.mem_append_left _ (List.mem_append_right _ (List.mem_singleton_self _))

end Faults

/-! ## what discovery finds -/

/-- **Discovery invents nothing.**  Whatever requests are refused, whatever the
walk library leaves out, and whenever a signal arrives, every entry is a file
in scope without a digest, and no name is found twice where none is found twice
undisturbed. -/
theorem discovered_inScope {lib : HashLibrary} (env : ApplicationEnvironment lib) (flag : StopFlag)
    (hjoins : env.discovery.toDiscoveryEnvironment.Joins)
    (hwalks : env.effectiveWorkerCount ≥ 2 →
      WalksPart env.discovery.fs (env.discoveryRun flag).library)
    {discovery : DiscoveryResult} (hdiscovered : applicationDiscover env flag = some discovery) :
    (∀ owned ∈ discovery.entries,
      FileInScope env (foundFile env.discovery.fs owned.entry) ∧ owned.entry.Unhashed) ∧
    (FoundOnce env →
      ((foundFiles env.discovery.fs discovery.entries).map FoundFile.place).Nodup) := by
  obtain ⟨directories, hpart, honce⟩ := exists_finds_part hjoins hwalks hdiscovered
  refine ⟨fun owned howned => ⟨?_, hpart.unhashed owned howned⟩, fun hfound => ?_⟩
  · exact hpart.inScope (List.mem_map_of_mem howned)
  · exact hpart.nodup_places hfound.separate (honce hfound)

/-! ### one entry that is not allocated -/

/-- The run on two copies, in which the request for the second path is refused. -/
def twoCopiesRefused : ApplicationEnvironment .recording :=
  { twoCopiesAtRest with
    discovery := { twoCopiesAtRest.discovery with allocates := fun request => request ≠ 3 } }

/-- One file is found, and it is in scope. -/
theorem discovered_inScope_refused : ∃ discovery owned,
    applicationDiscover twoCopiesRefused .never = some discovery ∧
    discovery.entries = [owned] ∧ FileInScope twoCopiesRefused
      (foundFile twoCopiesRefused.discovery.fs owned.entry) := by
  have hlength : (applicationDiscover twoCopiesRefused .never).map
      (fun discovery => discovery.entries.length) = some 1 := by decide +kernel
  obtain ⟨discovery, hdiscovered, hone⟩ := Option.map_eq_some_iff.mp hlength
  obtain ⟨owned, howned⟩ := List.length_eq_one_iff.mp hone
  have hjoins : twoCopiesRefused.discovery.toDiscoveryEnvironment.Joins := fun _ _ _ hjoin =>
    (Option.some.inj hjoin).symm
  obtain ⟨hscope, _⟩ := discovered_inScope twoCopiesRefused .never hjoins
    (fun hmany => absurd hmany (by decide)) hdiscovered
  exact ⟨discovery, owned, hdiscovered, howned,
    (hscope owned (howned ▸ List.mem_singleton_self owned)).1⟩

/-! ## what is reported of it -/

/-- **The report on what was found.**  Where something can be told of every
entry, its content or, as the file cannot be opened, its size alone, and the
digest tells these apart, the run returns and reports the classes of what is
told: of the files found when hardlinks are collapsed, of the entries when they
are matched.  With exit code 0 the groups there are have arrived. -/
theorem report_of_discovered {lib : HashLibrary} {reference : HashReference}
    (hlib : lib.Streams reference) (env : ApplicationEnvironment lib) (flag : StopFlag)
    (told : Identity → Told) (h : env.Steady flag)
    (hjoins : env.discovery.toDiscoveryEnvironment.Joins)
    (hwalks : env.effectiveWorkerCount ≥ 2 →
      WalksPart env.discovery.fs (env.discoveryRun flag).library)
    {discovery : DiscoveryResult} (hdiscovered : applicationDiscover env flag = some discovery)
    (hholds : ∀ owned ∈ discovery.entries,
      (told owned.entry.inode).Holds (env.fastRun flag) (env.fullRun flag) owned.entry)
    (htells : ∀ a ∈ discovery.entries, ∀ b ∈ discovery.entries,
      a.entry.fileSize = b.entry.fileSize →
      (told a.entry.inode).digest reference env.options.algorithm =
        (told b.entry.inode).digest reference env.options.algorithm →
      told a.entry.inode = told b.entry.inode) :
    ∃ report outcome, findings env flag (discovery.entries.map OwnedEntry.entry) = some report ∧
      applicationRun env flag = some outcome ∧
      (env.options.matchHardlinks = false →
        reportedBy FileEntry.inode report.duplicates =
          properClasses {identity | ∃ owned ∈ discovery.entries, owned.entry.inode = identity}
            told) ∧
      (env.options.matchHardlinks = true →
        reportedBy (foundFile env.discovery.fs) report.duplicates =
          classSets ((foundFiles env.discovery.fs discovery.entries).map fun file =>
            (file, told file.identity))) ∧
      (outcome.exitCode = 0 → report.groups ≠ [] →
        Received env outcome (reportBytes env report)) := by
  obtain ⟨_, hpart, _⟩ := exists_finds_part hjoins hwalks hdiscovered
  have hentries : ∀ {motive : FileEntry → Prop},
      (∀ owned ∈ discovery.entries, motive owned.entry) →
      ∀ entry ∈ discovery.entries.map OwnedEntry.entry, motive entry := by
    intro motive hall entry hentry
    obtain ⟨owned, howned, rfl⟩ := List.mem_map.mp hentry
    exact hall owned howned
  obtain ⟨report, hfound, hcollapsed, hmatched⟩ := findings_of_told hlib h
    (h.copies discovery hdiscovered) (hentries hpart.unhashed) (hentries hholds)
    (hentries fun a ha => hentries fun b hb => htells a ha b hb)
  obtain ⟨outcome, hrun⟩ := exists_outcome hdiscovered hfound
  refine ⟨report, outcome, hfound, hrun, fun hoption => ?_, fun hoption => ?_,
    received_of_findings h.copies hdiscovered hfound hrun⟩
  · rw [hcollapsed hoption]
    congr 1
    ext identity
    constructor
    · rintro ⟨entry, hentry, rfl⟩
      obtain ⟨owned, howned, rfl⟩ := List.mem_map.mp hentry
      exact ⟨owned, howned, rfl⟩
    · rintro ⟨owned, howned, rfl⟩
      exact ⟨owned.entry, List.mem_map_of_mem howned, rfl⟩
  · rw [hmatched hoption, foundFiles, List.map_map, List.map_map]
    rfl

/-! ### two files that cannot be opened -/

/-- The run on two files of one byte that neither pass can open. -/
def twoCopiesLocked : ApplicationEnvironment .recording :=
  { twoCopiesAtRest with
    fast := { twoCopiesAtRest.fast with
      view := fun _ _ => { FastView.holding [97] with openError := some Errno.EIO } }
    full := { twoCopiesAtRest.full with
      view := fun _ _ => { FileView.holding [97] with
        openError := some Errno.EIO
        ringOpenError := some Errno.EIO } } }

theorem steady_twoCopiesLocked : twoCopiesLocked.Steady .never where
  hasMemoryContext := rfl
  hasParallelContext := rfl
  notInterrupted := rfl
  allocatesEntries := rfl
  pools := rfl
  copies _ _ := Or.inl Copying.moves_memmove
  fast := ⟨fun _ => rfl, rfl, rfl⟩
  full := ⟨⟨fun _ => rfl, fun _ => rfl, fun _ => rfl, rfl, rfl, rfl⟩,
    (undisturbed_full_holding fun _ => [97]).works⟩

/-- They are reported as duplicates of each other. -/
theorem report_of_discovered_locked : ∃ discovery report,
    applicationDiscover twoCopiesLocked .never = some discovery ∧
    findings twoCopiesLocked .never (discovery.entries.map OwnedEntry.entry) = some report ∧
    {⟨0, 2⟩, ⟨0, 3⟩} ∈ reportedBy FileEntry.inode report.duplicates := by
  have hfiles : (applicationDiscover twoCopiesLocked .never).map (fun discovery =>
      discovery.entries.map fun owned => (owned.entry.inode, owned.entry.fileSize)) =
        some [(⟨0, 2⟩, 1), (⟨0, 3⟩, 1)] := by decide +kernel
  obtain ⟨discovery, hdiscovered, hfound⟩ := Option.map_eq_some_iff.mp hfiles
  have hjoins : twoCopiesLocked.discovery.toDiscoveryEnvironment.Joins := fun _ _ _ hjoin =>
    (Option.some.inj hjoin).symm
  have hinodes : discovery.entries.map (fun owned => owned.entry.inode) = [⟨0, 2⟩, ⟨0, 3⟩] := by
    have hfirst := congrArg (List.map Prod.fst) hfound
    rwa [List.map_map] at hfirst
  have hsizes : ∀ owned ∈ discovery.entries, owned.entry.fileSize = 1 := by
    intro owned howned
    have hpair := hfound ▸ List.mem_map_of_mem (f := fun owned : OwnedEntry =>
      (owned.entry.inode, owned.entry.fileSize)) howned
    simp only [List.mem_cons, List.not_mem_nil, or_false, Prod.mk.injEq] at hpair
    exact hpair.elim And.right And.right
  obtain ⟨report, _, hreport, _, hcollapsed, _⟩ := report_of_discovered streams_recording
    twoCopiesLocked .never (fun _ => .size 1) steady_twoCopiesLocked hjoins
    (fun hmany => absurd hmany (by decide)) hdiscovered
    (fun owned howned => ⟨(hsizes owned howned).symm, fun _ => ⟨_, rfl⟩,
      fun _ => ⟨⟨_, rfl⟩, ⟨_, rfl⟩⟩⟩)
    fun _ _ _ _ _ _ => rfl
  refine ⟨discovery, report, hdiscovered, hreport, ?_⟩
  have hmem : ∀ identity, (∃ owned ∈ discovery.entries, owned.entry.inode = identity) ↔
      identity = ⟨0, 2⟩ ∨ identity = ⟨0, 3⟩ := by
    intro identity
    rw [← List.mem_map, hinodes]
    simp
  rw [hcollapsed rfl]
  refine ⟨⟨⟨0, 2⟩, Or.inl rfl, ⟨0, 3⟩, Or.inr rfl, by decide⟩, .size 1, ?_⟩
  ext identity
  rw [Set.mem_ofPred_eq, Set.mem_ofPred_eq, hmem, and_iff_left rfl]
  rfl

/-! ## runs that report no disturbance -/

end BcDuplicate
