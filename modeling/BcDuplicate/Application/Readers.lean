import BcDuplicate.Application.WellFormed

/-!
# BcDuplicate.Application.Readers

What a program that reads the report of a run finds.  Whatever happened in the
run, the bytes that arrived with exit code 0 give back the groups of paths of
the report (`written_readable`); at rest these are, for who looks the paths
up, the classes of equal content (`read_exact`).
-/

namespace BcDuplicate

open FileSystem
open Json (ascii commaSeparated)
open Runs

/-! ## reading -/

/-- The groups of paths a program reads from a report in this format. -/
def readReport (format : OutputFormat) (bytes : Bytes) : Option (List (List Bytes)) :=
  match format with
  | .json => (Json.parse bytes).map (reportFiles ·.1)
  | .simple => some (Lines.readBlocks newline bytes)

/-- The sizes of the groups a program reads from a JSON report. -/
def readSizes (bytes : Bytes) : Option (List Json.Value) :=
  (Json.parse bytes).map fun document =>
    (arrayElements (memberValue (ascii "groups") document.1)).map (memberValue (ascii "size"))

/-- The paths are C strings that name something, and those of a plain report
have no newline. -/
structure PathsReadable (format : OutputFormat) (entries : List FileEntry) : Prop where
  nonempty : ∀ entry ∈ entries, entry.absolutePath ≠ []
  noZero : ∀ entry ∈ entries, 0 ∉ entry.absolutePath
  noNewline : format = .simple → ∀ entry ∈ entries, newline ∉ entry.absolutePath

section Positions

/-- Only the positions of the groups are read. -/
theorem outputs_eq_of_positions {entries entries' : List FileEntry} {groups : List Group}
    (h : ∀ group ∈ groups, ∀ offset < group.entryCount,
      absolutePathAt entries (group.startIndex + offset) =
        absolutePathAt entries' (group.startIndex + offset)) (writer : CoreWriter)
    (algorithm : Algorithm) (statistics : Statistics) :
    outputJsonWrite writer algorithm entries groups statistics =
        outputJsonWrite writer algorithm entries' groups statistics ∧
      outputSimpleWrite entries groups = outputSimpleWrite entries' groups := by
  have hgroup : ∀ group ∈ groups,
      outputJsonWriteGroup writer entries group = outputJsonWriteGroup writer entries' group := by
    intro group hgroup
    rw [outputJsonWriteGroup, outputJsonWriteGroup, List.map_congr_left fun offset hoffset => by
      rw [h group hgroup offset (List.mem_range.mp hoffset)]]
  constructor
  · rw [outputJsonWrite, outputJsonWrite, List.map_congr_left hgroup]
  · rw [outputSimpleWrite, outputSimpleWrite]
    refine List.flatMap_congr fun pair hpair => ?_
    have hmem : pair.1 ∈ groups := List.fst_mem_of_mem_zipIdx hpair
    dsimp only
    rw [List.flatMap_congr fun offset hoffset => by
      rw [h pair.1 hmem offset (List.mem_range.mp hoffset)]]

end Positions

/-! ## the survivors of a report -/

section Survivors

variable {lib : HashLibrary} {env : ApplicationEnvironment lib} {entries : List FileEntry}
  {report : Report}

/-- The entries that stand for the survivors. -/
def Report.front (env : ApplicationEnvironment lib) (entries : List FileEntry) (report : Report) :
    List FileEntry :=
  report.entries.take (survivingEntries env.sort entries env.options.matchHardlinks).length

namespace Report.WellFormed

variable (h : report.WellFormed env entries)
include h

/-- The groups lie in the front of the array. -/
theorem lt_length_front {group : Group} (hgroup : group ∈ report.groups) {i : Nat}
    (hi : group.Contains i) : i < (report.front env entries).length := by
  have hlt : ∀ {j}, group.Contains j → j < report.entries.length := fun hj =>
    lt_of_mem_candidateIndices h.separate (mem_candidateIndices.mpr ⟨group, hgroup, hj⟩)
  obtain ⟨other, hne, hother⟩ := Group.exists_other (h.two group hgroup) hi
  have hsurvives := ((h.together i other _ _ hne (List.getElem?_eq_getElem (hlt hi))
    (List.getElem?_eq_getElem (hlt hother))).mp ⟨group, hgroup, hi, hother⟩).1
  rw [Report.front, List.length_take]
  exact Nat.lt_min.mpr ⟨hsurvives, hlt hi⟩

/-- What the front holds was found by discovery. -/
theorem exists_found {entry : FileEntry} (hentry : entry ∈ report.front env entries) :
    ∃ found ∈ entries, entry.file = found.file := by
  obtain ⟨found, hfound, hfile⟩ := List.mem_map.mp
    (h.survivors.mem_iff.mp (List.mem_map_of_mem (f := FileEntry.file) hentry))
  exact ⟨found, mem_of_mem_survivingEntries hfound, hfile.symm⟩

theorem getElem?_front {group : Group} (hgroup : group ∈ report.groups) {i : Nat}
    (hi : group.Contains i) : (report.front env entries)[i]? = report.entries[i]? := by
  have hlt := h.lt_length_front hgroup hi
  rw [Report.front, List.length_take] at hlt
  exact List.getElem?_take_of_lt (Nat.lt_min.mp hlt).1

/-- A group ends in the front. -/
theorem bounds_front {group : Group} (hgroup : group ∈ report.groups) :
    group.startIndex + group.entryCount ≤ (report.front env entries).length := by
  have htwo := h.two group hgroup
  have hlast := h.lt_length_front hgroup (i := group.startIndex + group.entryCount - 1)
    ⟨by simp only [Group.run]; omega, by simp only [Group.run]; omega⟩
  omega

/-- The front has the paths of the groups. -/
theorem pathLists_front :
    pathLists (report.front env entries) report.groups = pathLists report.entries report.groups := by
  refine List.map_congr_left fun group hgroup => ?_
  have hbounds := h.bounds_front hgroup
  rw [Report.front, List.length_take] at hbounds
  rw [groupPaths, groupPaths, Report.front, List.drop_take, List.take_take,
    Nat.min_eq_left (by omega)]

/-- A path of a group is one that discovery found, of the size of the group. -/
theorem exists_owned {group : Group} (hgroup : group ∈ report.groups) {path : Bytes}
    (hpath : path ∈ groupPaths report.entries group) :
    ∃ found ∈ entries, found.absolutePath = path ∧ found.fileSize = group.fileSize := by
  obtain ⟨entry, hentry, rfl⟩ := List.mem_map.mp hpath
  obtain ⟨offset, hget⟩ := List.mem_iff_getElem?.mp hentry
  rw [List.getElem?_take] at hget
  split at hget
  · next hlt =>
    rw [List.getElem?_drop] at hget
    have hcontains : group.Contains (group.startIndex + offset) :=
      ⟨Nat.le_add_right _ _, Nat.add_lt_add_left hlt _⟩
    have hsize := h.sizes group hgroup _ hcontains
    rw [hget, Option.map_some, Option.some.injEq] at hsize
    rw [← h.getElem?_front hgroup hcontains] at hget
    obtain ⟨found, hfound, hfile⟩ := h.exists_found (List.mem_of_getElem? hget)
    obtain ⟨hname, hrest⟩ := Prod.mk.inj hfile
    exact ⟨found, hfound, hname.symm, (Prod.mk.inj hrest).1.symm.trans hsize⟩
  · cases hget

/-- The report of paths that can be written is one that can be read. -/
theorem reportable {format : OutputFormat} (hpaths : PathsReadable format entries) :
    Reportable (report.front env entries) report.groups := by
  have hpath : ∀ entry ∈ report.front env entries, ∃ found ∈ entries,
      entry.absolutePath = found.absolutePath := by
    intro entry hentry
    obtain ⟨found, hfound, hfile⟩ := h.exists_found hentry
    exact ⟨found, hfound, congrArg Prod.fst hfile⟩
  refine ⟨fun entry hentry => ?_, fun entry hentry => ?_, h.two, fun group hgroup => ?_⟩
  · obtain ⟨found, hfound, heq⟩ := hpath entry hentry
    rw [heq]
    exact hpaths.nonempty found hfound
  · obtain ⟨found, hfound, heq⟩ := hpath entry hentry
    rw [heq]
    exact hpaths.noZero found hfound
  · exact h.bounds_front hgroup

/-- A report that is written is that of the front. -/
theorem outputs_front (writer : CoreWriter) (algorithm : Algorithm) (statistics : Statistics) :
    outputJsonWrite writer algorithm report.entries report.groups statistics =
        outputJsonWrite writer algorithm (report.front env entries) report.groups statistics ∧
      outputSimpleWrite report.entries report.groups =
        outputSimpleWrite (report.front env entries) report.groups := by
  refine outputs_eq_of_positions (fun group hgroup offset hoffset => ?_) writer algorithm statistics
  have hsame := h.getElem?_front hgroup (i := group.startIndex + offset)
    ⟨Nat.le_add_right _ _, Nat.add_lt_add_left hoffset _⟩
  rw [absolutePathAt, absolutePathAt, hsame]

/-- The JSON report gives back the sizes of its groups. -/
theorem readSizes_eq (hpaths : PathsReadable .json entries)
    (hwriter : env.coreWriter.PrintsHexadecimal) (hscan : env.options.command = .scan)
    (hformat : outputFormat env = .json) : readSizes (reportBytes env report) =
      some (report.groups.map fun group => .number group.fileSize) := by
  rw [reportBytes, hscan]
  dsimp only
  rw [hformat]
  dsimp only
  rw [(h.outputs_front env.coreWriter env.options.algorithm report.statistics).1, readSizes,
    (h.reportable hpaths).parse_eq hwriter, Option.map_some]
  have hgroups : arrayElements (memberValue (ascii "groups") (jsonDocument env.options.algorithm
      (report.front env entries) report.groups report.statistics)) =
        report.groups.map (groupValue (report.front env entries)) := rfl
  rw [hgroups, List.map_map]
  rfl

/-- **The report can be read**, and gives back its groups of paths. -/
theorem readReport_eq {format : OutputFormat} (hpaths : PathsReadable format entries)
    (hwriter : env.coreWriter.PrintsHexadecimal) (hscan : env.options.command = .scan)
    (hformat : outputFormat env = format) :
    readReport format (reportBytes env report) =
      some (pathLists (report.front env entries) report.groups) := by
  have hreportable := h.reportable hpaths
  obtain ⟨hjson, hsimple⟩ :=
    h.outputs_front env.coreWriter env.options.algorithm report.statistics
  rw [reportBytes, hscan]
  dsimp only
  rw [hformat]
  cases format with
  | json =>
      dsimp only
      rw [hjson]
      exact reportFiles_parse hwriter env.options.algorithm hreportable report.statistics
  | simple =>
      dsimp only
      rw [hsimple, readReport, (readBlocks_outputSimpleWrite_iff hreportable).mpr]
      intro paths hlist path hpath
      obtain ⟨group, _, rfl⟩ := List.mem_map.mp hlist
      obtain ⟨entry, hentry, rfl⟩ := mem_groupPaths hpath
      obtain ⟨found, hfound, hfile⟩ := h.exists_found hentry
      have hname : entry.absolutePath = found.absolutePath := congrArg Prod.fst hfile
      rw [hname]
      exact hpaths.noNewline rfl found hfound

end Report.WellFormed

end Survivors

/-! ## looking the paths up -/

/-- The files the paths lead to. -/
def filesNamed (env : DiscoveryEnvironment) (paths : List Bytes) : Set FoundFile :=
  {file | ∃ path ∈ paths, (env.fs.locate path).toOption = file.place ∧
    env.fs.statPath env.options.followSymlinks path =
      .ok (.object (.regular file.identity file.fileSize))}

section Named

variable {env : DiscoveryEnvironment}

/-- The path of a file leads to it. -/
theorem StandsAt.statPath {file : FoundFile} (h : StandsAt env file) {path : Bytes}
    (hpath : (env.fs.locate path).toOption = file.place) :
    env.fs.statPath env.options.followSymlinks path =
      .ok (.object (.regular file.identity file.fileSize)) := by
  obtain ⟨directory, name, hplace, hlink⟩ := h
  rw [hplace] at hpath
  cases hlocate : env.fs.locate path with
  | error errno =>
      rw [hlocate] at hpath
      cases hpath
  | ok place =>
      rw [hlocate] at hpath
      cases hpath
      rw [FileSystem.statPath, hlocate]
      exact hlink

theorem InScope.standsAt {paths : List Bytes} {file : FoundFile} (h : InScope env paths file) :
    StandsAt env file := by
  rcases h with hinput | ⟨directory, _, hfile⟩
  · obtain ⟨path, _, hat⟩ := List.mem_flatMap.mp hinput
    exact standsAt_of_mem_inputFiles hat
  · exact standsAt_of_mem_filesOf hfile

/-- The paths of entries in scope lead to the files the entries stand for. -/
theorem filesNamed_eq {entries : List FileEntry}
    (hscope : ∀ entry ∈ entries, StandsAt env (foundFile env.fs entry)) :
    filesNamed env (entries.map FileEntry.absolutePath) =
      {file | ∃ entry ∈ entries, foundFile env.fs entry = file} := by
  ext file
  rw [filesNamed, Set.mem_ofPred_eq, Set.mem_ofPred_eq]
  constructor
  · rintro ⟨path, hpath, hplace, hstat⟩
    obtain ⟨entry, hentry, rfl⟩ := List.mem_map.mp hpath
    refine ⟨entry, hentry, ?_⟩
    have hfound := (hscope entry hentry).statPath rfl
    rw [hstat, Except.ok.injEq, Status.object.injEq, Object.regular.injEq] at hfound
    obtain ⟨place, identity, fileSize⟩ := file
    obtain ⟨hidentity, hsize⟩ := hfound
    dsimp only at hidentity hsize hplace
    rw [hidentity, hsize, ← hplace]
    rfl
  · rintro ⟨entry, hentry, rfl⟩
    exact ⟨_, List.mem_map_of_mem hentry, rfl, (hscope entry hentry).statPath rfl⟩

end Named

section Groups

variable {lib : HashLibrary} {env : ApplicationEnvironment lib} {entries : List FileEntry}
  {report : Report}

/-- **The reported groups, by the files the listed paths lead to.** -/
theorem Report.WellFormed.filesNamed_pathLists (h : report.WellFormed env entries)
    (hscope : ∀ entry ∈ entries,
      StandsAt env.discovery.toDiscoveryEnvironment (foundFile env.discovery.fs entry)) :
    {names | ∃ paths ∈ pathLists (report.front env entries) report.groups,
        names = filesNamed env.discovery.toDiscoveryEnvironment paths} =
      reportedBy (foundFile env.discovery.fs) report.duplicates := by
  have hfile : ∀ {a b : FileEntry}, a.file = b.file →
      foundFile env.discovery.fs a = foundFile env.discovery.fs b := by
    intro a b hsame
    obtain ⟨hpath, hsize, hdevice, hinode⟩ := Prod.mk.inj hsame |>.imp_right Prod.mk.inj
      |>.imp_right (And.imp_right Prod.mk.inj)
    rw [foundFile, foundFile, hpath, hsize, hdevice, hinode]
  have hstands : ∀ entry ∈ report.front env entries,
      StandsAt env.discovery.toDiscoveryEnvironment (foundFile env.discovery.fs entry) := by
    intro entry hentry
    obtain ⟨found, hfound, hsame⟩ := h.exists_found hentry
    exact hfile hsame ▸ hscope found hfound
  have hgroup : ∀ group ∈ report.groups, filesNamed env.discovery.toDiscoveryEnvironment
      (groupPaths (report.front env entries) group) = {file | ∃ i entry, group.Contains i ∧
        report.duplicates.entries[i]? = some entry ∧ foundFile env.discovery.fs entry = file} := by
    intro group hgroup
    have hsub : ∀ entry ∈ slice group.run (report.front env entries),
        entry ∈ report.front env entries := fun entry hentry =>
      List.mem_of_mem_drop (List.mem_of_mem_take hentry)
    have hnamed := filesNamed_eq fun entry hentry => hstands entry (hsub entry hentry)
    refine hnamed.trans ?_
    ext file
    rw [Set.mem_ofPred_eq, Set.mem_ofPred_eq]
    constructor
    · rintro ⟨entry, hentry, rfl⟩
      obtain ⟨i, hi, hget⟩ := mem_slice_iff.mp hentry
      exact ⟨i, entry, hi, (h.getElem?_front hgroup hi).symm.trans hget, rfl⟩
    · rintro ⟨i, entry, hi, hget, rfl⟩
      exact ⟨entry, mem_slice_iff.mpr ⟨i, hi, (h.getElem?_front hgroup hi).trans hget⟩, rfl⟩
  ext names
  rw [reportedBy, Set.mem_ofPred_eq, Set.mem_ofPred_eq]
  constructor
  · rintro ⟨paths, hpaths, rfl⟩
    obtain ⟨group, hmem, rfl⟩ := List.mem_map.mp hpaths
    exact ⟨group, hmem, hgroup group hmem⟩
  · rintro ⟨group, hmem, rfl⟩
    exact ⟨_, List.mem_map_of_mem hmem, (hgroup group hmem).symm⟩

/-- The groups of files behind the groups of names. -/
theorem reportedBy_inode (fs : FileSystem) (duplicates : Duplicates) :
    reportedBy FileEntry.inode duplicates =
      Set.image (Set.image FoundFile.identity) (reportedBy (foundFile fs) duplicates) := by
  have himage : ∀ group : Group, {x | ∃ i entry, group.Contains i ∧
      duplicates.entries[i]? = some entry ∧ FileEntry.inode entry = x} =
      FoundFile.identity '' {x | ∃ i entry, group.Contains i ∧
        duplicates.entries[i]? = some entry ∧ foundFile fs entry = x} := by
    intro group
    ext identity
    constructor
    · rintro ⟨i, entry, hi, hget, rfl⟩
      exact ⟨_, ⟨i, entry, hi, hget, rfl⟩, rfl⟩
    · rintro ⟨_, ⟨i, entry, hi, hget, rfl⟩, rfl⟩
      exact ⟨i, entry, hi, hget, rfl⟩
  ext names
  constructor
  · rintro ⟨group, hgroup, rfl⟩
    exact ⟨_, ⟨group, hgroup, rfl⟩, (himage group).symm⟩
  · rintro ⟨_, ⟨group, hgroup, rfl⟩, rfl⟩
    exact ⟨group, hgroup, (himage group).symm⟩

end Groups

/-- **What a run wrote can be read.**  Whatever fails in a run and whenever a
signal arrives, as long as the copies serve the compaction: if it ends with
exit code 0 and made a report, reading what arrived gives back the groups of
paths of the report, each of two or more paths that discovery found for files
of one size, and a JSON document gives back these sizes. -/
theorem written_readable {lib : HashLibrary} (env : ApplicationEnvironment lib) (flag : StopFlag)
    (hcopies : CopiesServe env flag) (hwriter : env.coreWriter.PrintsHexadecimal)
    (hscan : env.options.command = .scan) (outcome : RunOutcome) (hrun : applicationRun env flag = some outcome)
    (hexit : outcome.exitCode = 0) (report : Report) (hreported : outcome.reported = some report) :
    ∃ discovery, applicationDiscover env flag = some discovery ∧
      (PathsReadable (outputFormat env) (discovery.entries.map OwnedEntry.entry) →
        ∃ bytes lists, Received env outcome bytes ∧
          readReport (outputFormat env) bytes = some lists ∧
          lists = pathLists report.entries report.groups ∧
          (outputFormat env = .json →
            readSizes bytes = some (report.groups.map fun group => .number group.fileSize)) ∧
          ∀ paths ∈ lists, 2 ≤ paths.length ∧ ∃ fileSize, ∀ path ∈ paths,
            ∃ owned ∈ discovery.entries, owned.entry.absolutePath = path ∧
              owned.entry.fileSize = fileSize) := by
  obtain ⟨discovery, stderr, hdiscovered, hfound, rfl⟩ :=
    findings_of_reported hcopies hrun hreported
  have hwellFormed := wellFormed_of_findings (hcopies discovery hdiscovered) hfound
  refine ⟨discovery, hdiscovered, fun hpaths => ?_⟩
  refine ⟨_, _, received_applicationReport hexit,
    (hwellFormed.readReport_eq hpaths hwriter hscan rfl).trans
      (congrArg some hwellFormed.pathLists_front), rfl,
    fun hjson => hwellFormed.readSizes_eq (hjson ▸ hpaths) hwriter hscan hjson, ?_⟩
  intro paths hlist
  obtain ⟨group, hgroup, rfl⟩ := List.mem_map.mp hlist
  have hlength := length_groupPaths (hwellFormed.bounds_front hgroup)
  have hpathsEq : groupPaths (report.front env (discovery.entries.map OwnedEntry.entry)) group =
      groupPaths report.entries group := List.map_inj_left.mp hwellFormed.pathLists_front _ hgroup
  rw [hpathsEq] at hlength
  refine ⟨hlength.symm ▸ hwellFormed.two group hgroup, group.fileSize, fun path hpath => ?_⟩
  obtain ⟨found, hmem, hname, hsize⟩ := hwellFormed.exists_owned hgroup hpath
  obtain ⟨owned, howned, rfl⟩ := List.mem_map.mp hmem
  exact ⟨owned, howned, hname, hsize⟩

/-- **Who reads the report finds the duplicates.**  At rest, with a digest that
tells the contents of the files in scope apart: the paths in what was written
with exit code 0, looked up, are the classes of two or more files with equal
content, one name a file when hardlinks are collapsed, and all of their names
when they are matched and no file is found twice. -/
theorem read_exact {lib : HashLibrary} {reference : HashReference} (hlib : lib.Streams reference)
    (env : ApplicationEnvironment lib) (flag : StopFlag) (content : Identity → Bytes)
    (h : env.Undisturbed flag) (hholds : HoldsContent env content)
    (htells : TellsApart env reference content) (hwriter : env.coreWriter.PrintsHexadecimal)
    (hscan : env.options.command = .scan) (outcome : RunOutcome)
    (hrun : applicationRun env flag = some outcome) (hexit : outcome.exitCode = 0) (report : Report)
    (hreported : outcome.reported = some report) :
    ∃ discovery, applicationDiscover env flag = some discovery ∧
      (PathsReadable (outputFormat env) (discovery.entries.map OwnedEntry.entry) →
        ∃ bytes lists, Received env outcome bytes ∧
          readReport (outputFormat env) bytes = some lists ∧
          (env.options.matchHardlinks = false → {files | ∃ paths ∈ lists,
              files = FoundFile.identity ''
                filesNamed env.discovery.toDiscoveryEnvironment paths} =
            duplicateFiles env content) ∧
          (env.options.matchHardlinks = true → FoundOnce env → {names | ∃ paths ∈ lists,
              names = filesNamed env.discovery.toDiscoveryEnvironment paths} =
            duplicateNames env content)) := by
  obtain ⟨discovery, directories, report', hdiscovered, hfinds, hfound, hcollapsed, hmatched⟩ :=
    exists_classes hlib h hholds htells
  obtain ⟨discovery', stderr, hdiscovered', hfound', rfl⟩ :=
    findings_of_reported h.copies hrun hreported
  rw [hdiscovered, Option.some.injEq] at hdiscovered'
  subst hdiscovered'
  rw [hfound, Option.some.injEq] at hfound'
  subst hfound'
  have hwellFormed := wellFormed_of_findings (h.copies discovery hdiscovered) hfound
  have hstands : ∀ entry ∈ discovery.entries.map OwnedEntry.entry,
      StandsAt env.discovery.toDiscoveryEnvironment (foundFile env.discovery.fs entry) := by
    intro entry hentry
    obtain ⟨owned, howned, rfl⟩ := List.mem_map.mp hentry
    exact ((hfinds.mem_iff _).mp (List.mem_map_of_mem howned)).standsAt
  have hnames := hwellFormed.filesNamed_pathLists hstands
  refine ⟨discovery, hdiscovered, fun hpaths => ⟨_, _, received_applicationReport hexit,
    hwellFormed.readReport_eq hpaths hwriter hscan rfl, fun hoption => ?_, fun hoption hall => ?_⟩⟩
  · rw [← hcollapsed hoption, reportedBy_inode env.discovery.fs, ← hnames]
    ext files
    constructor
    · rintro ⟨paths, hlist, rfl⟩
      exact ⟨_, ⟨paths, hlist, rfl⟩, rfl⟩
    · rintro ⟨_, ⟨paths, hlist, rfl⟩, rfl⟩
      exact ⟨paths, hlist, rfl⟩
  · rw [← hmatched hoption hall, hnames]

/-! ### the report on two copies -/

/-- The two copies are found at paths that can be read. -/
theorem exists_twoCopiesAtRest_discovery : ∃ discovery,
    applicationDiscover twoCopiesAtRest .never = some discovery ∧
      PathsReadable .json (discovery.entries.map OwnedEntry.entry) := by
  have hdiscover : (applicationDiscover twoCopiesAtRest .never).map (fun discovery =>
      discovery.entries.map fun owned => owned.entry.absolutePath) = some [[97], [97, 98]] := by
    decide +kernel
  obtain ⟨discovery, hdiscovered, hpaths⟩ := Option.map_eq_some_iff.mp hdiscover
  have hmem : ∀ entry ∈ discovery.entries.map OwnedEntry.entry,
      entry.absolutePath ∈ [[97], ([97, 98] : Bytes)] := by
    intro entry hentry
    obtain ⟨owned, howned, rfl⟩ := List.mem_map.mp hentry
    exact hpaths ▸ List.mem_map_of_mem howned
  have hall : ∀ path ∈ [[97], ([97, 98] : Bytes)], path ≠ [] ∧ 0 ∉ path := by decide
  exact ⟨discovery, hdiscovered, fun entry hentry => (hall _ (hmem entry hentry)).1,
    fun entry hentry => (hall _ (hmem entry hentry)).2, nofun⟩

/-- One list of two paths at least is read. -/
theorem written_readable_two_copies : ∃ outcome bytes paths,
    applicationRun twoCopiesAtRest .never = some outcome ∧
      Received twoCopiesAtRest outcome bytes ∧ readReport .json bytes = some [paths] ∧
      2 ≤ paths.length := by
  obtain ⟨outcome, report, hrun, hexit, hreported, hgroups⟩ := exists_twoCopiesAtRest_reported
  obtain ⟨discovery, hdiscovered, hpaths⟩ := exists_twoCopiesAtRest_discovery
  obtain ⟨discovery', hdiscovered', hread⟩ := written_readable twoCopiesAtRest .never
    undisturbed_twoCopiesAtRest.copies printsHexadecimal_lowercase rfl outcome hrun hexit report
    hreported
  rw [hdiscovered, Option.some.injEq] at hdiscovered'
  subst hdiscovered'
  obtain ⟨bytes, lists, hreceived, hlists, heq, _, htwo⟩ := hread hpaths
  have hlength : lists.length = report.groups.length := by rw [heq, pathLists, List.length_map]
  obtain ⟨paths, rfl⟩ := List.length_eq_one_iff.mp (hlength.trans hgroups)
  exact ⟨outcome, bytes, paths, hrun, hreceived, hlists,
    (htwo paths (List.mem_singleton_self paths)).1⟩

/-- The lists that are read are the duplicates. -/
theorem read_exact_two_copies : ∃ outcome bytes lists,
    applicationRun twoCopiesAtRest .never = some outcome ∧
      Received twoCopiesAtRest outcome bytes ∧ readReport .json bytes = some lists ∧
      {files | ∃ paths ∈ lists, files = FoundFile.identity ''
        filesNamed twoCopiesAtRest.discovery.toDiscoveryEnvironment paths} =
          duplicateFiles twoCopiesAtRest fun _ => [97] := by
  obtain ⟨outcome, report, hrun, hexit, hreported, _⟩ := exists_twoCopiesAtRest_reported
  obtain ⟨discovery, hdiscovered, hpaths⟩ := exists_twoCopiesAtRest_discovery
  obtain ⟨discovery', hdiscovered', hread⟩ := read_exact streams_recording twoCopiesAtRest .never
    (fun _ => [97]) undisturbed_twoCopiesAtRest holdsContent_twoCopiesAtRest
    (fun _ _ _ _ _ => rfl) printsHexadecimal_lowercase rfl outcome hrun hexit report hreported
  rw [hdiscovered, Option.some.injEq] at hdiscovered'
  subst hdiscovered'
  obtain ⟨bytes, lists, hreceived, hlists, hcollapsed, _⟩ := hread hpaths
  exact ⟨outcome, bytes, lists, hrun, hreceived, hlists, hcollapsed rfl⟩

end BcDuplicate
