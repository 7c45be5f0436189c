import BcDuplicate.Application.Cleanup
import BcDuplicate.Discovery.DisturbedParallel
import BcDuplicate.Stages.Classes
import BcDuplicate.Stages.Places

/-!
# BcDuplicate.Application.Exact

The whole run against what the program is for.  On a system at rest, where
every file in scope can be read, nothing is refused and no signal arrives, the
reported groups are the classes of two or more files in scope with equal
content: of files as such when hardlinks are collapsed, and of names when they
are matched (`report_exact`).
-/

namespace BcDuplicate

open FileSystem
open Overlap
open Runs
open Search
open Sorting
open Copying

/-! ## what the run is about -/

/-- The device and inode of an entry. -/
def FileEntry.inode (entry : FileEntry) : Identity := ⟨entry.deviceId, entry.inodeNumber⟩

/-- The array and the groups a report is made from. -/
def Report.duplicates (report : Report) : Duplicates :=
  ⟨report.entries, report.groups, report.statistics.filesHashedFast,
    report.statistics.filesHashedFull⟩

section Specification

variable {lib : HashLibrary} (env : ApplicationEnvironment lib)

/-- The paths discovery processes: each input, or what `glob` returns for it. -/
def scannedPaths : List Bytes :=
  if env.effectiveWorkerCount ≥ 2 then
    env.inputPaths.flatMap (parallelPaths env.discovery.toDiscoveryEnvironment)
  else env.inputPaths.flatMap (serialPaths env.discovery.toDiscoveryEnvironment)

/-- The files the run is about. -/
def FileInScope (file : FoundFile) : Prop :=
  InScope env.discovery.toDiscoveryEnvironment (scannedPaths env) file

/-- The fast pass of the run, polling its flag. -/
def ApplicationEnvironment.fastRun (flag : StopFlag) : FastEnvironment :=
  { env.fast with shouldStop := fun turn => flag.isSet (.fast turn) }

/-- The full pass of the run, polling its flag. -/
def ApplicationEnvironment.fullRun (flag : StopFlag) : FullEnvironment :=
  { env.full with
    shouldStop := fun turn => flag.isSet (.fullIter turn)
    loopShouldStop := fun turn => flag.isSet (.fullLoop turn) }

/-- From discovery on nothing is refused, no ring fails and no signal arrives,
and the copies serve the compaction. -/
structure ApplicationEnvironment.Steady (flag : StopFlag) : Prop where
  hasMemoryContext : env.hasMemoryContext = true
  hasParallelContext : env.hasParallelContext = true
  notInterrupted : flag.isSet .afterDiscovery = false
  allocatesEntries : env.allocatesEntries = true
  pools : env.pools = .unlimited
  copies : CopiesServe env flag
  fast : (env.fastRun flag).Undisturbed
  full : (env.fullRun flag).Undisturbed

/-- Nor does anything of this kind happen to discovery. -/
structure ApplicationEnvironment.Undisturbed (flag : StopFlag) : Prop extends
    env.Steady flag where
  serial : (env.discoveryRun flag).toDiscoveryEnvironment.Undisturbed
  parallel : env.effectiveWorkerCount ≥ 2 →
    (env.discoveryRun flag).Undisturbed (scannedPaths env)

/-- The content of each file: as long as the file was found to be, and read
whole by both passes through every path that leads to the file. -/
structure HoldsContent (content : Identity → Bytes) : Prop where
  size : ∀ file, FileInScope env file → (content file.identity).length = file.fileSize
  fast : ∀ file, FileInScope env file → ∀ path,
    (env.discovery.fs.locate path).toOption = file.place →
    ∀ index, (env.fast.view index path).ReadsWhole (content file.identity)
  full : ∀ file, FileInScope env file → ∀ path,
    (env.discovery.fs.locate path).toOption = file.place →
    ∀ index, (env.full.view index path).ReadsWhole (content file.identity)

/-- The digest tells the contents of the files apart. -/
def TellsApart (reference : HashReference) (content : Identity → Bytes) : Prop :=
  ∀ a b, FileInScope env a → FileInScope env b →
    referenceDigest reference env.options.algorithm (content a.identity) =
      referenceDigest reference env.options.algorithm (content b.identity) →
    content a.identity = content b.identity

/-- The files in scope with equal content, two or more at a time. -/
def duplicateFiles (content : Identity → Bytes) : Set (Set Identity) :=
  properClasses {identity | ∃ file, FileInScope env file ∧ file.identity = identity} content

/-- The same under each of their names. -/
def duplicateNames (content : Identity → Bytes) : Set (Set FoundFile) :=
  properClasses {file | FileInScope env file} fun file => content file.identity

/-- No file is found at one place twice: the input files are separate, and
with several workers no directory with files is below two of the inputs. -/
structure FoundOnce : Prop where
  separate : SeparateInputs env.discovery.toDiscoveryEnvironment (scannedPaths env)
  apart : env.effectiveWorkerCount ≥ 2 →
    ((scannedPaths env).flatMap (inputRoots env.discovery.toDiscoveryEnvironment)).Pairwise
      (ApartRoots env.discovery.toDiscoveryEnvironment
        (rootDeviceOf env.discovery.toDiscoveryEnvironment (scannedPaths env)))

end Specification

/-! ## discovery -/

section Discovery

variable {lib : HashLibrary} {env : ApplicationEnvironment lib} {flag : StopFlag}

/-- **Discovery finds what is in scope**, on one worker or on several, and each
directory once when no directory with files is below two of the inputs. -/
theorem exists_discovery (h : env.Undisturbed flag) :
    ∃ discovery directories, applicationDiscover env flag = some discovery ∧
      discovery.ok = true ∧
      FindsScope env.discovery.toDiscoveryEnvironment (scannedPaths env) discovery.entries
        directories ∧
      (FoundOnce env → (directories.filter fun directory =>
        !(filesOf env.discovery.toDiscoveryEnvironment directory).isEmpty).Nodup) := by
  by_cases hmany : env.effectiveWorkerCount ≥ 2
  · have hpaths : env.inputPaths.flatMap
        (parallelPaths (env.discoveryRun flag).toDiscoveryEnvironment) = scannedPaths env :=
      (if_pos hmany).symm
    obtain ⟨directories, hok, hfinds, honce⟩ :=
      exists_parallel_findsScope hpaths (h.parallel hmany)
    exact ⟨_, directories, applicationDiscover_of_many hmany, hok, ⟨hfinds.found, hfinds.walked⟩,
      fun hfound => honce.mpr (hfound.apart hmany)⟩
  · have hpaths : env.inputPaths.flatMap
        (serialPaths (env.discoveryRun flag).toDiscoveryEnvironment) = scannedPaths env :=
      (if_neg hmany).symm
    obtain ⟨discovery, directories, hdone, hok, hfinds, honce⟩ :=
      exists_serial_findsScope h.serial env.inputPaths
    rw [hpaths] at hfinds
    exact ⟨discovery, directories, (applicationDiscover_of_one hmany).trans hdone, hok,
      ⟨hfinds.found, hfinds.walked⟩, fun _ => honce⟩

/-- **Discovery finds part of what is in scope**, whatever fails and whenever a
signal arrives, and each directory once as it does undisturbed. -/
theorem exists_finds_part (hjoins : env.discovery.toDiscoveryEnvironment.Joins)
    (hwalks : env.effectiveWorkerCount ≥ 2 →
      WalksPart env.discovery.fs (env.discoveryRun flag).library)
    {discovery : DiscoveryResult} (hdiscovered : applicationDiscover env flag = some discovery) :
    ∃ directories, FindsPart env.discovery.toDiscoveryEnvironment (scannedPaths env)
        discovery.entries directories ∧
      (FoundOnce env → (directories.filter fun directory =>
        !(filesOf env.discovery.toDiscoveryEnvironment directory).isEmpty).Nodup) := by
  by_cases hmany : env.effectiveWorkerCount ≥ 2
  · have hpaths : env.inputPaths.flatMap
        (parallelPaths (env.discoveryRun flag).toDiscoveryEnvironment) = scannedPaths env :=
      (if_pos hmany).symm
    rw [applicationDiscover_of_many hmany, Option.some.injEq] at hdiscovered
    subst hdiscovered
    obtain ⟨walks, hwalked, hpart⟩ :=
      @parallel_finds_part (env.discoveryRun flag) (hwalks hmany) env.inputPaths
    rw [hpaths] at hwalked hpart
    refine ⟨_, ⟨hpart.found, hpart.walked, hpart.unhashed⟩, fun hfound => ?_⟩
    rw [nodup_filter_flatten hwalked.nodup]
    exact hwalked.pairwise_iff_apartRoots.mpr (hfound.apart hmany)
  · have hpaths : env.inputPaths.flatMap
        (serialPaths (env.discoveryRun flag).toDiscoveryEnvironment) = scannedPaths env :=
      (if_neg hmany).symm
    rw [applicationDiscover_of_one hmany] at hdiscovered
    have hrunJoins : (env.discoveryRun flag).toDiscoveryEnvironment.Joins := hjoins
    obtain ⟨directories, hpart, honce⟩ := serial_finds_part hrunJoins hdiscovered
    rw [hpaths] at hpart
    exact ⟨directories, ⟨hpart.found, hpart.walked, hpart.unhashed⟩, fun _ => honce.filter _⟩

theorem ApplicationEnvironment.Undisturbed.unhashed (h : env.Undisturbed flag)
    {discovery : DiscoveryResult} (hdiscovered : applicationDiscover env flag = some discovery) :
    AllUnhashed discovery.entries := by
  have hjoins : env.discovery.toDiscoveryEnvironment.Joins := by
    intro directory name path hjoin
    have hsome : env.discovery.pathJoin directory name = some (joinPath directory name) :=
      h.serial.pathJoin directory name
    exact Option.some.inj (hjoin.symm.trans hsome)
  obtain ⟨_, hpart, _⟩ := exists_finds_part hjoins (fun hmany => (h.parallel hmany).walks.part)
    hdiscovered
  exact hpart.unhashed

/-- Separate input files and the files of directories that are each listed once
are at different places. -/
theorem SeparateInputs.nodup_places {env : DiscoveryEnvironment} {paths : List Bytes}
    {directories : List Identity} (h : SeparateInputs env paths)
    (hwalked : ∀ directory ∈ directories, filesOf env directory ≠ [] → InWalk env paths directory)
    (honce : (directories.filter fun directory => !(filesOf env directory).isEmpty).Nodup) :
    ((paths.flatMap (inputFiles env) ++ directories.flatMap (filesOf env)).map
      FoundFile.place).Nodup := by
  rw [List.map_append, List.nodup_append]
  refine ⟨h.once, nodup_places_iff.mpr honce, fun place hplace place' hplace' => ?_⟩
  obtain ⟨file, hfile, rfl⟩ := List.mem_map.mp hplace
  obtain ⟨other, hother, rfl⟩ := List.mem_map.mp hplace'
  obtain ⟨directory, hdirectory, hat⟩ := List.mem_flatMap.mp hother
  exact h.outside file hfile directory (hwalked directory hdirectory (List.ne_nil_of_mem hat))
    other hat

/-- Found once, the files are at different places. -/
theorem FindsScope.nodup_places {env : DiscoveryEnvironment} {paths : List Bytes}
    {entries : List OwnedEntry} {directories : List Identity}
    (h : FindsScope env paths entries directories) (hseparate : SeparateInputs env paths)
    (honce : (directories.filter fun directory => !(filesOf env directory).isEmpty).Nodup) :
    ((foundFiles env.fs entries).map FoundFile.place).Nodup :=
  (h.found.map FoundFile.place).nodup_iff.mpr
    (hseparate.nodup_places (fun directory hmem hfiles => (h.walked directory hfiles).mp hmem)
      honce)

/-- So is what is found when discovery is disturbed. -/
theorem FindsPart.nodup_places {env : DiscoveryEnvironment} {paths : List Bytes}
    {entries : List OwnedEntry} {directories : List Identity}
    (h : FindsPart env paths entries directories) (hseparate : SeparateInputs env paths)
    (honce : (directories.filter fun directory => !(filesOf env directory).isEmpty).Nodup) :
    ((foundFiles env.fs entries).map FoundFile.place).Nodup := by
  obtain ⟨found, hperm, hsub⟩ := h.found
  have hall := hseparate.nodup_places (fun directory hmem _ => h.walked directory hmem) honce
  exact (hperm.map FoundFile.place).nodup_iff.mp (hall.sublist (hsub.map FoundFile.place))

end Discovery

/-! ## the stages -/

section Stages

variable {lib : HashLibrary} {env : ApplicationEnvironment lib} {flag : StopFlag}

/-- An entry at the place of a file in scope can be read by both passes. -/
theorem HoldsContent.readable {content : Identity → Bytes} (h : HoldsContent env content)
    {entry : FileEntry} (hscope : FileInScope env (foundFile env.discovery.fs entry)) :
    Readable (env.fastRun flag) (env.fullRun flag) entry (content entry.inode) where
  size := h.size _ hscope
  fast := h.fast _ hscope entry.absolutePath rfl
  full := h.full _ hscope entry.absolutePath rfl

theorem mem_of_mem_survivingEntries {sort : SortFn} {entries : List FileEntry}
    {matchHardlinks : Bool} {entry : FileEntry}
    (h : entry ∈ survivingEntries sort entries matchHardlinks) : entry ∈ entries :=
  (sort.mem_run _ _ _).mp ((survivingEntries_sublist sort entries matchHardlinks).subset h)

/-- **The findings** are the classes of what can be told of the survivors,
whatever name the entries are known by. -/
theorem findings_of_survivors {reference : HashReference} (hlib : lib.Streams reference)
    (h : env.Steady flag) {entries : List FileEntry} {told : Bytes × Nat × Nat × Nat → Told}
    (hcopies : CopyServes env.sort env.copy entries env.options.matchHardlinks)
    (hunhashed : ∀ entry ∈ entries, entry.Unhashed)
    (hsurvivors : SurvivorsTold told reference env.options.algorithm (env.fastRun flag)
      (env.fullRun flag) (survivingEntries env.sort entries env.options.matchHardlinks)) :
    ∃ report, findings env flag entries = some report ∧
      ∀ {β : Type} (name : Bytes × Nat × Nat × Nat → β),
        reportedBy (fun entry => name entry.file) report.duplicates =
          classSets ((survivingEntries env.sort entries env.options.matchHardlinks).map
            fun entry => (name entry.file, told entry.file)) := by
  obtain ⟨sizes, hsizes⟩ :=
    exists_groupingBySize env.sort env.copy entries env.options.matchHardlinks
  have hsized := sizeGrouped_of_groupingBySize hcopies hsizes
  unfold findings
  rw [h.pools, hsizes]
  dsimp only
  by_cases hgroups : sizes.groups = []
  · rw [if_pos hgroups]
    refine ⟨_, rfl, fun name => ?_⟩
    rw [classSets_eq_empty_of_sizes hsurvivors (fun entry => name entry.file)
      (hsized.groups_eq_nil_iff.mp hgroups)]
    refine Set.eq_empty_of_forall_notMem ?_
    rintro names ⟨group, hgroup, _⟩
    cases hgroup
  · obtain ⟨result, hdone, hupdates⟩ := @hashStages_undisturbed lib env.sort
      (workerDigestSize env.options.algorithm) env.options.algorithm (env.fastRun flag)
      (env.fullRun flag) (fullPassForceSingleThread env) sizes.entries sizes.groups hlib.resets
      h.fast h.full hsized.separate
    obtain ⟨grouped, final, _, hstaged, hentries, hfinal⟩ :=
      hashStaged_of_done hsized.separate hupdates
    rw [if_neg hgroups]
    have hstages : hashStages env.sort .unlimited (workerDigestSize env.options.algorithm)
        (applicationFastPass env flag) (applicationFullPass env flag) sizes.entries sizes.groups =
          .done result := hdone
    rw [hstages]
    refine ⟨_, rfl, fun name => ?_⟩
    exact reportedBy_eq_of_told hsurvivors hsized hstaged hunhashed name hlib hentries hfinal

end Stages

/-! ## the names of the survivors -/

section Names

variable {sort : SortFn} {entries : List FileEntry}

/-- With hardlinks collapsed the survivors are the files of the entries, each
once. -/
theorem inodes_of_collapsed (hsize : ∀ a ∈ entries, ∀ b ∈ entries, a.inode = b.inode →
      a.fileSize = b.fileSize) :
    ((survivingEntries sort entries false).map FileEntry.inode).Nodup ∧
      ∀ identity, identity ∈ (survivingEntries sort entries false).map FileEntry.inode ↔
        ∃ entry ∈ entries, entry.inode = identity := by
  have hidentity : ∀ a ∈ entries, ∀ b ∈ entries, a.inode = b.inode → a.identity = b.identity := by
    intro a ha b hb hinode
    obtain ⟨hdevice, hnumber⟩ := Identity.mk.inj hinode
    rw [FileEntry.identity, FileEntry.identity, hsize a ha b hb hinode, hdevice, hnumber]
  have hinode : ∀ {a b : FileEntry}, a.identity = b.identity → a.inode = b.inode := by
    intro a b hsame
    obtain ⟨_, hdevice, hnumber⟩ := Prod.mk.inj hsame |>.imp_right Prod.mk.inj
    rw [FileEntry.inode, FileEntry.inode, hdevice, hnumber]
  have hmap := map_identity_survivingEntries sort entries
  constructor
  · have hnodup : ((survivingEntries sort entries false).map FileEntry.identity).Nodup :=
      hmap ▸ List.nodup_dedup _
    refine List.pairwise_map.mpr ((List.pairwise_map.mp hnodup).imp_of_mem ?_)
    intro a b ha hb hne hsame
    exact hne (hidentity a (mem_of_mem_survivingEntries ha) b (mem_of_mem_survivingEntries hb)
      hsame)
  · intro identity
    rw [List.mem_map]
    constructor
    · rintro ⟨entry, hentry, rfl⟩
      exact ⟨entry, mem_of_mem_survivingEntries hentry, rfl⟩
    · rintro ⟨entry, hentry, rfl⟩
      have hsorted := (sort.mem_run groupingSizeDevInoLessThan entries entry).mpr hentry
      have hmem := List.mem_dedup.mpr (List.mem_map_of_mem (f := FileEntry.identity) hsorted)
      rw [← hmap] at hmem
      obtain ⟨kept, hkept, hsame⟩ := List.mem_map.mp hmem
      exact ⟨kept, hkept, hinode hsame⟩

end Names

/-! ## the report -/

section Report

variable {lib : HashLibrary} {env : ApplicationEnvironment lib} {flag : StopFlag}

/-- Findings are there to be reported: the run returns. -/
theorem exists_outcome {discovery : DiscoveryResult} {report : Report}
    (hdiscovered : applicationDiscover env flag = some discovery)
    (hfound : findings env flag (discovery.entries.map OwnedEntry.entry) = some report) :
    ∃ outcome, applicationRun env flag = some outcome := by
  unfold applicationRun
  split
  · exact ⟨_, rfl⟩
  · rw [hdiscovered, Option.bind_some]
    dsimp only
    split
    · exact ⟨_, rfl⟩
    · split
      · exact ⟨_, rfl⟩
      · split
        · exact ⟨_, rfl⟩
        · split
          · exact ⟨_, rfl⟩
          · unfold applicationPipeline
            unfold findings at hfound
            split
            · exact ⟨_, rfl⟩
            · next sizes hsizes =>
              rw [hsizes] at hfound
              dsimp only at hfound
              split
              · exact ⟨_, rfl⟩
              · next hgroups =>
                rw [if_neg fun hnil => hgroups (List.length_eq_zero_iff.mpr hnil)] at hfound
                split at hfound
                · next duplicates hduplicates =>
                  rw [hduplicates]
                  exact ⟨_, rfl⟩
                · cases hfound

/-- A run with exit code 0 that has groups to report has reported them. -/
theorem received_of_findings (hcopies : CopiesServe env flag) {discovery : DiscoveryResult}
    {report : Report} {outcome : RunOutcome}
    (hdiscovered : applicationDiscover env flag = some discovery)
    (hfound : findings env flag (discovery.entries.map OwnedEntry.entry) = some report)
    (hrun : applicationRun env flag = some outcome) (hexit : outcome.exitCode = 0)
    (hgroups : report.groups ≠ []) : Received env outcome (reportBytes env report) := by
  cases runEnd_of_applicationRun hcopies hrun with
  | failed error => exact absurd hexit error
  | early endsEarly =>
      obtain ⟨_, report', hfound', hnone⟩ := applicationRun_of_endsEarly hcopies endsEarly
      have hsame := endsEarly.discovered
      rw [hdiscovered, Option.some.injEq] at hsame
      subst hsame
      rw [hfound, Option.some.injEq] at hfound'
      exact absurd (hfound' ▸ hnone) hgroups
  | reported discovered found =>
      rw [hdiscovered, Option.some.injEq] at discovered
      subst discovered
      rw [hfound, Option.some.injEq] at found
      subst found
      exact received_applicationReport hexit

/-- **The findings are the classes of what is told** of the entries: of their
files when hardlinks are collapsed, of the entries when they are matched. -/
theorem findings_of_told {reference : HashReference} (hlib : lib.Streams reference)
    (h : env.Steady flag) {told : Identity → Told} {entries : List FileEntry}
    (hcopies : CopyServes env.sort env.copy entries env.options.matchHardlinks)
    (hunhashed : ∀ entry ∈ entries, entry.Unhashed)
    (hholds : ∀ entry ∈ entries,
      (told entry.inode).Holds (env.fastRun flag) (env.fullRun flag) entry)
    (htells : ∀ a ∈ entries, ∀ b ∈ entries, a.fileSize = b.fileSize →
      (told a.inode).digest reference env.options.algorithm =
        (told b.inode).digest reference env.options.algorithm → told a.inode = told b.inode) :
    ∃ report, findings env flag entries = some report ∧
      (env.options.matchHardlinks = false →
        reportedBy FileEntry.inode report.duplicates =
          properClasses {identity | ∃ entry ∈ entries, entry.inode = identity} told) ∧
      (env.options.matchHardlinks = true →
        reportedBy (foundFile env.discovery.fs) report.duplicates =
          classSets (entries.map fun entry =>
            (foundFile env.discovery.fs entry, told entry.inode))) := by
  have hsurvivors : SurvivorsTold (fun file => told ⟨file.2.2.1, file.2.2.2⟩) reference
      env.options.algorithm (env.fastRun flag) (env.fullRun flag)
      (survivingEntries env.sort entries env.options.matchHardlinks) :=
    ⟨fun entry hentry => hholds entry (mem_of_mem_survivingEntries hentry),
      fun a ha b hb => htells a (mem_of_mem_survivingEntries ha) b (mem_of_mem_survivingEntries hb)⟩
  obtain ⟨report, hfound, hreported⟩ := findings_of_survivors hlib h hcopies hunhashed hsurvivors
  refine ⟨report, hfound, fun hcollapsed => ?_, fun hmatched => ?_⟩
  · rw [hcollapsed] at hreported
    have hsize : ∀ a ∈ entries, ∀ b ∈ entries, a.inode = b.inode → a.fileSize = b.fileSize := by
      intro a ha b hb hsame
      rw [← (hholds a ha).length_eq, ← (hholds b hb).length_eq, hsame]
    obtain ⟨hnodup, hmem⟩ := @inodes_of_collapsed env.sort _ hsize
    have hclasses := classSets_eq_properClasses hnodup told
    rw [List.map_map] at hclasses
    refine (hreported fun file => (⟨file.2.2.1, file.2.2.2⟩ : Identity)).trans (hclasses.trans ?_)
    congr 1
    ext identity
    exact hmem identity
  · rw [hmatched] at hreported
    have hperm : (survivingEntries env.sort entries true).Perm entries := env.sort.perm _ _
    exact (hreported fun file => (⟨(env.discovery.fs.locate file.1).toOption,
      ⟨file.2.2.1, file.2.2.2⟩, file.2.1⟩ : FoundFile)).trans (classSets_perm (hperm.map _))

/-- **The findings are the classes of equal content** of what is in scope: of
the files when hardlinks are collapsed, of their names when they are matched. -/
theorem findings_of_finds {reference : HashReference} (hlib : lib.Streams reference)
    (h : env.Steady flag) {content : Identity → Bytes} (hholds : HoldsContent env content)
    (htells : TellsApart env reference content) {entries : List OwnedEntry}
    {directories : List Identity}
    (hcopies : CopyServes env.sort env.copy (entries.map OwnedEntry.entry)
      env.options.matchHardlinks) (hunhashed : AllUnhashed entries)
    (hfinds : FindsScope env.discovery.toDiscoveryEnvironment (scannedPaths env) entries
      directories) :
    ∃ report, findings env flag (entries.map OwnedEntry.entry) = some report ∧
      (env.options.matchHardlinks = false →
        reportedBy FileEntry.inode report.duplicates = duplicateFiles env content) ∧
      (env.options.matchHardlinks = true →
        ((foundFiles env.discovery.fs entries).map FoundFile.place).Nodup →
        reportedBy (foundFile env.discovery.fs) report.duplicates = duplicateNames env content) := by
  have hscope : ∀ entry ∈ entries.map OwnedEntry.entry,
      FileInScope env (foundFile env.discovery.fs entry) := by
    intro entry hentry
    obtain ⟨owned, howned, rfl⟩ := List.mem_map.mp hentry
    exact (hfinds.mem_iff _).mp (List.mem_map_of_mem howned)
  have hblank : ∀ entry ∈ entries.map OwnedEntry.entry, entry.Unhashed := by
    intro entry hentry
    obtain ⟨owned, howned, rfl⟩ := List.mem_map.mp hentry
    exact hunhashed owned howned
  obtain ⟨report, hfound, hcollapsed, hmatched⟩ :=
    @findings_of_told lib env flag reference hlib h (fun identity => .content (content identity))
      _ hcopies hblank
      (fun entry hentry => hholds.readable (hscope entry hentry))
      (fun a ha b hb _ hdigest =>
        congrArg Told.content (htells _ _ (hscope a ha) (hscope b hb) hdigest))
  have hinjective : Function.Injective Told.content := fun _ _ hsame => Told.content.inj hsame
  refine ⟨report, hfound, fun hoption => ?_, fun hoption hnodup => ?_⟩
  · refine (hcollapsed hoption).trans ((properClasses_comp hinjective _ content).trans ?_)
    congr 1
    ext identity
    constructor
    · rintro ⟨entry, hentry, rfl⟩
      exact ⟨_, hscope entry hentry, rfl⟩
    · rintro ⟨file, hfile, rfl⟩
      obtain ⟨owned, howned, rfl⟩ := List.mem_map.mp ((hfinds.mem_iff file).mpr hfile)
      exact ⟨owned.entry, List.mem_map_of_mem howned, rfl⟩
  · have hfiles : (entries.map OwnedEntry.entry).map (foundFile env.discovery.fs) =
        foundFiles env.discovery.fs entries := List.map_map
    have hclasses := classSets_eq_properClasses (hnodup.of_map FoundFile.place)
      fun file : FoundFile => Told.content (content file.identity)
    rw [← hfiles, List.map_map] at hclasses
    refine (hmatched hoption).trans (hclasses.trans ((properClasses_comp hinjective _
      fun file : FoundFile => content file.identity).trans ?_))
    congr 1
    ext file
    rw [hfiles]
    exact hfinds.mem_iff file

/-- The findings on what discovery finds, on one worker or on several. -/
theorem exists_classes {reference : HashReference} (hlib : lib.Streams reference)
    (h : env.Undisturbed flag) {content : Identity → Bytes} (hholds : HoldsContent env content)
    (htells : TellsApart env reference content) :
    ∃ discovery directories report, applicationDiscover env flag = some discovery ∧
      FindsScope env.discovery.toDiscoveryEnvironment (scannedPaths env) discovery.entries
        directories ∧
      findings env flag (discovery.entries.map OwnedEntry.entry) = some report ∧
      (env.options.matchHardlinks = false →
        reportedBy FileEntry.inode report.duplicates = duplicateFiles env content) ∧
      (env.options.matchHardlinks = true → FoundOnce env →
        reportedBy (foundFile env.discovery.fs) report.duplicates = duplicateNames env content) := by
  obtain ⟨discovery, directories, hdiscovered, _, hfinds, honce⟩ := exists_discovery h
  obtain ⟨report, hfound, hcollapsed, hmatched⟩ :=
    findings_of_finds hlib h.toSteady hholds htells (h.copies discovery hdiscovered)
      (h.unhashed hdiscovered) hfinds
  exact ⟨discovery, directories, report, hdiscovered, hfinds, hfound, hcollapsed,
    fun hoption hall => hmatched hoption (hfinds.nodup_places hall.separate (honce hall))⟩

end Report

/-- **The report is exact.**  At rest, with a digest that tells the contents of
the files in scope apart, the run returns and reports exactly the classes of
two or more files in scope with equal content, on one worker or on several:
files under one name when hardlinks are collapsed, and under each of their
names when they are matched and no file is found twice.  With exit code 0 the
groups there are have arrived. -/
theorem report_exact {lib : HashLibrary} {reference : HashReference} (hlib : lib.Streams reference)
    (env : ApplicationEnvironment lib) (flag : StopFlag) (content : Identity → Bytes)
    (h : env.Undisturbed flag) (hholds : HoldsContent env content)
    (htells : TellsApart env reference content) :
    ∃ discovery report outcome, applicationDiscover env flag = some discovery ∧
      findings env flag (discovery.entries.map OwnedEntry.entry) = some report ∧
      applicationRun env flag = some outcome ∧
      (env.options.matchHardlinks = false →
        reportedBy FileEntry.inode report.duplicates = duplicateFiles env content) ∧
      (env.options.matchHardlinks = true → FoundOnce env →
        reportedBy (foundFile env.discovery.fs) report.duplicates = duplicateNames env content) ∧
      (outcome.exitCode = 0 → report.groups ≠ [] →
        Received env outcome (reportBytes env report)) := by
  obtain ⟨discovery, _, report, hdiscovered, _, hfound, hcollapsed, hmatched⟩ :=
    exists_classes hlib h hholds htells
  obtain ⟨outcome, hrun⟩ := exists_outcome hdiscovered hfound
  exact ⟨discovery, report, outcome, hdiscovered, hfound, hrun, hcollapsed, hmatched,
    received_of_findings h.copies hdiscovered hfound hrun⟩

/-! ### two copies of one byte -/

/-- The run on two copies, whatever path they are opened by. -/
def twoCopiesAtRest : ApplicationEnvironment .recording :=
  { twoCopies.application scanToFile [[97], [97, 98]] with
    fast := .holding fun _ => [97]
    full := .holding fun _ => [97] }

theorem undisturbed_twoCopiesAtRest : twoCopiesAtRest.Undisturbed .never where
  hasMemoryContext := rfl
  hasParallelContext := rfl
  notInterrupted := rfl
  serial := ⟨fun _ => rfl, fun _ => rfl, fun _ _ => rfl⟩
  parallel hmany := absurd hmany (by decide)
  allocatesEntries := rfl
  pools := rfl
  copies _ _ := Or.inl moves_memmove
  fast := ⟨fun _ => rfl, rfl, rfl⟩
  full := ⟨⟨fun _ => rfl, fun _ => rfl, fun _ => rfl, rfl, rfl, rfl⟩,
    (undisturbed_full_holding fun _ => [97]).works⟩

theorem fileInScope_twoCopiesAtRest {file : FoundFile} (h : FileInScope twoCopiesAtRest file) :
    file.fileSize = 1 := by
  have hroots : (scannedPaths twoCopiesAtRest).flatMap
      (inputRoots twoCopiesAtRest.discovery.toDiscoveryEnvironment) = [] := by decide
  have hfiles : ∀ file ∈ (scannedPaths twoCopiesAtRest).flatMap
      (inputFiles twoCopiesAtRest.discovery.toDiscoveryEnvironment), file.fileSize = 1 := by decide
  rcases h with hinput | ⟨directory, ⟨root, hroot, _⟩, _⟩
  · exact hfiles file hinput
  · rw [hroots] at hroot
    cases hroot

theorem holdsContent_twoCopiesAtRest : HoldsContent twoCopiesAtRest fun _ => [97] where
  size _ hfile := (fileInScope_twoCopiesAtRest hfile).symm
  fast _ _ _ _ _ := ⟨rfl, rfl, ⟨_, rfl, by decide⟩, ⟨_, rfl, by decide⟩⟩
  full _ _ _ _ _ := ⟨rfl, rfl, nofun, trivial, rfl, ⟨_, rfl, Nat.le_succ _⟩, ⟨_, rfl⟩⟩

/-- The two copies are reported together. -/
theorem report_exact_two_copies : ∃ discovery report,
    applicationDiscover twoCopiesAtRest .never = some discovery ∧
    findings twoCopiesAtRest .never (discovery.entries.map OwnedEntry.entry) = some report ∧
    ∃ names ∈ reportedBy FileEntry.inode report.duplicates,
      (⟨0, 2⟩ : Identity) ∈ names ∧ (⟨0, 3⟩ : Identity) ∈ names := by
  obtain ⟨discovery, report, _, hdiscovered, hfound, _, hcollapsed, _⟩ := report_exact
    streams_recording twoCopiesAtRest .never (fun _ => [97]) undisturbed_twoCopiesAtRest
    holdsContent_twoCopiesAtRest fun _ _ _ _ _ => rfl
  refine ⟨discovery, report, hdiscovered, hfound, ?_⟩
  rw [hcollapsed rfl]
  have hfiles : (scannedPaths twoCopiesAtRest).flatMap
      (inputFiles twoCopiesAtRest.discovery.toDiscoveryEnvironment) =
        [⟨some (.entry ⟨0, 1⟩ [97]), ⟨0, 2⟩, 1⟩, ⟨some (.entry ⟨0, 1⟩ [97, 98]), ⟨0, 3⟩, 1⟩] := by
    decide
  have hscope : ∀ file ∈ [(⟨some (.entry ⟨0, 1⟩ [97]), ⟨0, 2⟩, 1⟩ : FoundFile),
      ⟨some (.entry ⟨0, 1⟩ [97, 98]), ⟨0, 3⟩, 1⟩], FileInScope twoCopiesAtRest file :=
    fun file hfile => Or.inl (hfiles ▸ hfile)
  have hfirst : ∃ file, FileInScope twoCopiesAtRest file ∧ file.identity = ⟨0, 2⟩ :=
    ⟨_, hscope _ List.mem_cons_self, rfl⟩
  have hsecond : ∃ file, FileInScope twoCopiesAtRest file ∧ file.identity = ⟨0, 3⟩ :=
    ⟨_, hscope _ (List.mem_cons_of_mem _ List.mem_cons_self), rfl⟩
  refine ⟨{x | x ∈ {identity | ∃ file, FileInScope twoCopiesAtRest file ∧
    file.identity = identity} ∧ (fun _ : Identity => ([97] : Bytes)) x = [97]},
    ⟨⟨⟨0, 2⟩, ⟨hfirst, rfl⟩, ⟨0, 3⟩, ⟨hsecond, rfl⟩, ?_⟩, [97], rfl⟩, ⟨hfirst, rfl⟩, hsecond, rfl⟩
  decide

end BcDuplicate
