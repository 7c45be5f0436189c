import BcDuplicate.Discovery.Agreement
import BcDuplicate.Stages.Content

/-!
# BcDuplicate.Stages.Places

Whether a file can be its own duplicate.  With hardlinks matched nothing
removes a repetition after discovery, so no run reports a directory entry
twice in one group exactly when discovery found none twice
(`noEntryTwice_iff`), and that is a matter of the input paths
(`no_entry_twice_iff`).
-/

namespace BcDuplicate

open FileSystem
open Overlap
open Search
open Sorting
open Copying

/-! ## reports -/

/-- Two positions of one final group stand for different directory entries. -/
def NoEntryTwice (fs : FileSystem) (result : Duplicates) : Prop :=
  ∀ i j entryI entryJ, i ≠ j → SameGroup result.groups i j → result.entries[i]? = some entryI →
    result.entries[j]? = some entryJ → (foundFile fs entryI).place ≠ (foundFile fs entryJ).place

/-- With hardlinks matched, no run of the stages on these entries has a group
with one directory entry twice. -/
def NeverTwice (fs : FileSystem) (entries : List FileEntry) : Prop :=
  ∀ (lib : HashLibrary) (sort : SortFn) (copy : CopyFn) (pools : Pools) (algorithm : Algorithm)
    (fastEnv : FastEnvironment) (fullEnv : FullEnvironment)
    (forceSingleThread : List Group → Bool) (sizes : SizeGrouping) (result : Duplicates),
    groupingBySize sort copy pools.bySize entries true = some sizes →
    hashStages sort pools (workerDigestSize algorithm) (workerFastPass lib sort fastEnv)
      (dispatchedFullPass lib sort fullEnv algorithm forceSingleThread) sizes.entries
        sizes.groups = .done result →
    NoEntryTwice fs result

theorem keeps_file_fast (fast : Nat → FastOutcome) :
    Keeps FileEntry.file fun i => (fast i).apply := by
  intro i entry
  dsimp only
  cases fast i <;> rfl

theorem keeps_file_full (full : Nat → FullOutcome) :
    Keeps FileEntry.file fun i => (full i).apply := by
  intro i entry
  dsimp only
  cases full i <;> rfl

/-- Every run leaves the discovered files, rearranged. -/
theorem perm_file_of_done {lib : HashLibrary} {sort : SortFn} {copy : CopyFn} {pools : Pools}
    {digestSize : Nat} {fastEnv : FastEnvironment} {fullEnv : FullEnvironment} {algorithm : Algorithm}
    {forceSingleThread : List Group → Bool} {entries : List FileEntry} {sizes : SizeGrouping}
    {result : Duplicates}
    (hsizes : groupingBySize sort copy pools.bySize entries true = some sizes)
    (h : hashStages sort pools digestSize (workerFastPass lib sort fastEnv)
      (dispatchedFullPass lib sort fullEnv algorithm forceSingleThread) sizes.entries
        sizes.groups = .done result) :
    (result.entries.map FileEntry.file).Perm (entries.map FileEntry.file) := by
  have hsized := sizeGrouped_of_groupingBySize (copyServes_of_match _ _ _) hsizes
  obtain ⟨fast, full, hdone⟩ := hashStages_outcomes hsized.separate h
  obtain ⟨grouped, final, _, hstaged, hentries, _⟩ := hashStaged_of_done hsized.separate hdone
  rw [hentries]
  exact (perm_file_final hsized hstaged (keeps_file_fast fast) (keeps_file_full full)).trans
    ((hsized.perm_of_match rfl).map _)

theorem map_place_eq (fs : FileSystem) {front back : List FileEntry}
    (h : (front.map FileEntry.file).Perm (back.map FileEntry.file)) :
    (front.map fun entry => (foundFile fs entry).place).Perm
      (back.map fun entry => (foundFile fs entry).place) := by
  have hplace : (fun entry : FileEntry => (foundFile fs entry).place) =
      (fun file : Bytes × Nat × Nat × Nat => (fs.locate file.1).toOption) ∘ FileEntry.file := rfl
  rw [hplace, ← List.map_map, ← List.map_map]
  exact h.map _

/-! ## a run over known contents -/

/-- A file that is opened and read without failing. -/
def FastView.holding (content : Bytes) : FastView :=
  ⟨content, none, none, .whole fastHashBlockSize, .whole fastHashBlockSize⟩

def FileView.holding (content : Bytes) : FileView :=
  ⟨content, none, none, [], none, .whole content.length, .whole 1⟩

/-- Every file holds the bytes its path determines. -/
def FastEnvironment.holding (contents : Bytes → Bytes) : FastEnvironment :=
  { FastEnvironment.plain .sequential with view := fun _ path => .holding (contents path) }

def FullEnvironment.holding (contents : Bytes → Bytes) : FullEnvironment :=
  { FullEnvironment.plain .sequential with view := fun _ path => .holding (contents path) }

theorem readable_holding {contents : Bytes → Bytes} {entry : FileEntry}
    (hsize : (contents entry.absolutePath).length = entry.fileSize) :
    Readable (.holding contents) (.holding contents) entry (contents entry.absolutePath) :=
  ⟨hsize, fun _ => ⟨rfl, rfl, ⟨_, rfl, by omega⟩, ⟨_, rfl, by omega⟩⟩,
    fun _ => ⟨rfl, rfl, nofun, trivial, rfl, ⟨_, rfl, Nat.le_succ _⟩, ⟨_, rfl⟩⟩⟩

theorem undisturbed_fast_holding (contents : Bytes → Bytes) :
    (FastEnvironment.holding contents).Undisturbed := ⟨fun _ => rfl, rfl, rfl⟩

theorem undisturbed_full_holding (contents : Bytes → Bytes) :
    (FullEnvironment.holding contents).Undisturbed :=
  ⟨⟨fun _ => rfl, fun _ => rfl, fun _ => rfl, rfl, rfl, rfl⟩, fun _ _ => works_inOrder⟩

/-- Every file holds as many zeros as its size. -/
def zeroContents (entries : List FileEntry) (path : Bytes) : Bytes :=
  List.replicate (((entries.find? fun entry => decide (entry.absolutePath = path)).map
    FileEntry.fileSize).getD 0) 0

section ZeroContents

variable {entries : List FileEntry}
  (hpaths : ∀ a ∈ entries, ∀ b ∈ entries, a.absolutePath = b.absolutePath →
    a.fileSize = b.fileSize)
include hpaths

theorem zeroContents_eq {entry : FileEntry} (hentry : entry ∈ entries) :
    zeroContents entries entry.absolutePath = List.replicate entry.fileSize 0 := by
  unfold zeroContents
  cases hfind : entries.find? fun other => decide (other.absolutePath = entry.absolutePath) with
  | none => exact absurd (decide_eq_true rfl) (List.find?_eq_none.mp hfind entry hentry)
  | some other =>
      have hpath : other.absolutePath = entry.absolutePath := by
        simpa using List.find?_some hfind
      rw [hpaths entry hentry other (List.mem_of_find?_eq_some hfind) hpath.symm]
      rfl

/-- Over these contents there is a run, and it reports any two files of one
size together. -/
theorem exists_zeroContents_run : ∃ sizes result,
    groupingBySize insertionSort memmove Pools.unlimited.bySize entries true = some sizes ∧
    hashStages insertionSort .unlimited (workerDigestSize .sha256)
      (workerFastPass .recording insertionSort (.holding (zeroContents entries)))
      (dispatchedFullPass .recording insertionSort (.holding (zeroContents entries)) .sha256
        fun _ => false) sizes.entries sizes.groups = .done result ∧
    ∀ i j (hi : i < result.entries.length) (hj : j < result.entries.length), i ≠ j →
      result.entries[i].fileSize = result.entries[j].fileSize → SameGroup result.groups i j := by
  obtain ⟨sizes, hsizes⟩ := exists_groupingBySize insertionSort memmove entries true
  have hsized := sizeGrouped_of_groupingBySize (copyServes_of_match _ _ _) hsizes
  obtain ⟨result, hdone, hupdates⟩ := @hashStages_undisturbed HashLibrary.recording
    insertionSort (workerDigestSize .sha256) .sha256 _ _ (fun _ => false) sizes.entries
    sizes.groups streams_recording.resets (undisturbed_fast_holding (zeroContents entries))
    (undisturbed_full_holding (zeroContents entries)) hsized.separate
  obtain ⟨grouped, final, _, hstaged, hentries, hgroups⟩ :=
    hashStaged_of_done hsized.separate hupdates
  have hperm := perm_file_of_done hsizes hdone
  refine ⟨sizes, result, hsizes, hdone, fun i j hi hj hij hequal => ?_⟩
  -- every file of the result is a discovered one, and holds its zeros
  have hread : ∀ k (hk : k < result.entries.length), Readable (.holding (zeroContents entries))
      (.holding (zeroContents entries)) result.entries[k]
        (List.replicate result.entries[k].fileSize 0) := by
    intro k hk
    obtain ⟨entry, hentry, hfile⟩ := List.mem_map.mp (hperm.mem_iff.mp
      (List.mem_map_of_mem (List.getElem_mem hk)))
    have hpath : entry.absolutePath = result.entries[k].absolutePath := congrArg Prod.fst hfile
    have hfileSize : entry.fileSize = result.entries[k].fileSize :=
      congrArg (fun file : Bytes × Nat × Nat × Nat => file.2.1) hfile
    have hcontents := zeroContents_eq hpaths hentry
    rw [hpath, hfileSize] at hcontents
    rw [← hcontents]
    exact readable_holding (by rw [hcontents, List.length_replicate])
  have hreadI := hread i hi
  have hreadJ := hread j hj
  rw [hequal] at hreadI
  have hall : (survivingEntries insertionSort entries true).length = result.entries.length := by
    rw [survivingEntries, if_pos rfl, insertionSort.length_run, ← List.length_map FileEntry.file,
      ← hperm.length_eq, List.length_map]
  simp only [hentries] at hi hj hreadI hreadJ hall hequal
  rw [hgroups]
  exact (sameGroup_final_iff_of_readable streams_recording hsized hstaged hij hi hj
    (by rw [hall]; exact hi) (by rw [hall]; exact hj) hreadI hreadJ).mpr ⟨hequal, rfl, rfl⟩

end ZeroContents

/-! ## repetitions -/

/-- Entries at different places stay at different places. -/
theorem neverTwice_of_nodup {fs : FileSystem} {entries : List FileEntry}
    (hnodup : (entries.map fun entry => (foundFile fs entry).place).Nodup) :
    NeverTwice fs entries := by
  intro lib sort copy pools algorithm fastEnv fullEnv forceSingleThread sizes result hsizes hdone
  have hplaces := (map_place_eq fs (perm_file_of_done hsizes hdone)).nodup_iff.mpr hnodup
  intro i j entryI entryJ hij _ hentryI hentryJ hsame
  have hget : ∀ {k : Nat} {entry : FileEntry}, result.entries[k]? = some entry →
      (result.entries.map fun entry => (foundFile fs entry).place)[k]? =
        some (foundFile fs entry).place := fun h => by rw [List.getElem?_map, h]; rfl
  have hlt : i < (result.entries.map fun entry => (foundFile fs entry).place).length := by
    rw [List.length_map]
    exact (List.getElem?_eq_some_iff.mp hentryI).1
  refine hij ((List.getElem?_inj hlt hplaces).mp ?_)
  rw [hget hentryI, hget hentryJ, hsame]

/-- **A repetition is reported**, and nothing else is. -/
theorem noEntryTwice_iff (fs : FileSystem) {entries : List FileEntry}
    (hsize : ∀ a ∈ entries, ∀ b ∈ entries, (foundFile fs a).place = (foundFile fs b).place →
      a.fileSize = b.fileSize) :
    NeverTwice fs entries ↔ (entries.map fun entry => (foundFile fs entry).place).Nodup := by
  refine ⟨fun hnever => ?_, neverTwice_of_nodup⟩
  have hpaths : ∀ a ∈ entries, ∀ b ∈ entries, a.absolutePath = b.absolutePath →
      a.fileSize = b.fileSize := fun a ha b hb hpath =>
    hsize a ha b hb (by rw [foundFile, foundFile, hpath])
  obtain ⟨sizes, result, hsizes, hdone, htogether⟩ := exists_zeroContents_run hpaths
  have htwice := hnever _ _ _ .unlimited .sha256 _ _ _ _ _ hsizes hdone
  have hperm := perm_file_of_done hsizes hdone
  have horigin : ∀ k (hk : k < result.entries.length), ∃ entry ∈ entries,
      entry.fileSize = result.entries[k].fileSize ∧
        (foundFile fs entry).place = (foundFile fs result.entries[k]).place := by
    intro k hk
    obtain ⟨entry, hentry, hfile⟩ := List.mem_map.mp (hperm.mem_iff.mp
      (List.mem_map_of_mem (List.getElem_mem hk)))
    exact ⟨entry, hentry, congrArg (fun file : Bytes × Nat × Nat × Nat => file.2.1) hfile,
      congrArg (fun path => (fs.locate path).toOption) (congrArg Prod.fst hfile)⟩
  refine (map_place_eq fs hperm).nodup_iff.mp
    (List.nodup_iff_getElem?_ne_getElem?.mpr fun i j hij hj hsame => ?_)
  rw [List.length_map] at hj
  have hi : i < result.entries.length := Nat.lt_trans hij hj
  rw [List.getElem?_map, List.getElem?_map, List.getElem?_eq_getElem hi,
    List.getElem?_eq_getElem hj, Option.map_some, Option.map_some, Option.some.injEq] at hsame
  -- the two entries at one place have one size, and so they are reported together
  obtain ⟨entryI, hentryI, hsizeI, hplaceI⟩ := horigin i hi
  obtain ⟨entryJ, hentryJ, hsizeJ, hplaceJ⟩ := horigin j hj
  have hequal : result.entries[i].fileSize = result.entries[j].fileSize := by
    rw [← hsizeI, ← hsizeJ]
    exact hsize entryI hentryI entryJ hentryJ (hplaceI.trans (hsame.trans hplaceJ.symm))
  exact htwice i j _ _ hij.ne (htogether i j hi hj hij.ne hequal) (List.getElem?_eq_getElem hi)
    (List.getElem?_eq_getElem hj) hsame

/-! ## what discovery finds -/

section Found

variable {env : DiscoveryEnvironment}

/-- The file is a regular file at a name of a directory. -/
def StandsAt (env : DiscoveryEnvironment) (file : FoundFile) : Prop :=
  ∃ directory name, file.place = some (.entry directory name) ∧
    (env.fs.link directory name).stat env.options.followSymlinks =
      .ok (.object (.regular file.identity file.fileSize))

theorem standsAt_of_mem_inputFiles {path : Bytes} {file : FoundFile}
    (h : file ∈ inputFiles env path) : StandsAt env file := by
  unfold inputFiles at h
  split at h
  · next identity fileSize hstat =>
    split at h
    · rw [List.mem_singleton.mp h]
      obtain ⟨directory, name, hlocate, hlink⟩ := env.fs.exists_entry_of_statPath hstat
      exact ⟨directory, name, by rw [hlocate]; rfl, hlink⟩
    · cases h
  · cases h

theorem standsAt_of_mem_filesOf {directory : Identity} {file : FoundFile}
    (h : file ∈ filesOf env directory) : StandsAt env file := by
  obtain ⟨name, _, hat, hplace⟩ := place_of_mem_filesOf h
  exact ⟨directory, name, hplace, (mem_filesAt_iff.mp hat).2.1⟩

/-- One place holds one file. -/
theorem StandsAt.fileSize_eq {a b : FoundFile} (ha : StandsAt env a) (hb : StandsAt env b)
    (h : a.place = b.place) : a.fileSize = b.fileSize := by
  obtain ⟨directory, name, hplace, hlink⟩ := ha
  obtain ⟨directory', name', hplace', hlink'⟩ := hb
  rw [hplace, hplace'] at h
  cases h
  rw [hlink, Except.ok.injEq, Status.object.injEq, Object.regular.injEq] at hlink'
  exact hlink'.2

/-- No regular file is named by two of the paths, and none of those named is
also reported from a directory that is walked. -/
structure SeparateInputs (env : DiscoveryEnvironment) (paths : List Bytes) : Prop where
  once : ((paths.flatMap (inputFiles env)).map FoundFile.place).Nodup
  outside : ∀ file ∈ paths.flatMap (inputFiles env), ∀ directory,
    Reached (childrenOf env (rootDeviceOf env paths)) (paths.flatMap (inputRoots env)) directory →
    ∀ other ∈ filesOf env directory, file.place ≠ other.place

/-- **The entries of a walk** are at different places exactly when the inputs
are separate and no directory with files was walked twice. -/
theorem neverTwice_iff_of_found {entries : List OwnedEntry} {paths : List Bytes}
    {directories : List Identity}
    (hfound : (foundFiles env.fs entries).Perm
      (paths.flatMap (inputFiles env) ++ directories.flatMap (filesOf env)))
    (hmem : ∀ directory, filesOf env directory ≠ [] → (directory ∈ directories ↔
      Reached (childrenOf env (rootDeviceOf env paths)) (paths.flatMap (inputRoots env))
        directory)) :
    NeverTwice env.fs (entries.map OwnedEntry.entry) ↔ SeparateInputs env paths ∧
      (directories.filter fun directory => !(filesOf env directory).isEmpty).Nodup := by
  have hstands : ∀ file ∈ foundFiles env.fs entries, StandsAt env file := by
    intro file hfile
    rcases List.mem_append.mp (hfound.mem_iff.mp hfile) with hinput | hwalked
    · obtain ⟨path, _, hat⟩ := List.mem_flatMap.mp hinput
      exact standsAt_of_mem_inputFiles hat
    · obtain ⟨directory, _, hat⟩ := List.mem_flatMap.mp hwalked
      exact standsAt_of_mem_filesOf hat
  rw [noEntryTwice_iff env.fs]
  · have hplaces : (entries.map OwnedEntry.entry).map (fun entry => (foundFile env.fs entry).place) =
        (foundFiles env.fs entries).map FoundFile.place := by
      rw [foundFiles, List.map_map, List.map_map]
      rfl
    rw [hplaces, (hfound.map FoundFile.place).nodup_iff, List.map_append, List.nodup_append,
      nodup_places_iff]
    constructor
    · rintro ⟨honce, hwalked, houtside⟩
      refine ⟨⟨honce, fun file hfile directory hreached other hother => ?_⟩, hwalked⟩
      refine houtside _ (List.mem_map_of_mem hfile) _ (List.mem_map_of_mem ?_)
      exact List.mem_flatMap.mpr ⟨directory,
        (hmem directory (List.ne_nil_of_mem hother)).mpr hreached, hother⟩
    · rintro ⟨hseparate, hwalked⟩
      refine ⟨hseparate.once, hwalked, fun place hplace place' hplace' => ?_⟩
      obtain ⟨file, hfile, rfl⟩ := List.mem_map.mp hplace
      obtain ⟨other, hother, rfl⟩ := List.mem_map.mp hplace'
      obtain ⟨directory, hdirectory, hat⟩ := List.mem_flatMap.mp hother
      exact hseparate.outside file hfile directory
        ((hmem directory (List.ne_nil_of_mem hat)).mp hdirectory) other hat
  · intro a ha b hb hplace
    obtain ⟨owned, howned, rfl⟩ := List.mem_map.mp ha
    obtain ⟨owned', howned', rfl⟩ := List.mem_map.mp hb
    exact (hstands _ (List.mem_map_of_mem howned)).fileSize_eq
      (hstands _ (List.mem_map_of_mem howned')) hplace

end Found

/-- **A file is its own duplicate only through the inputs.**  With hardlinks
matched, whatever the files hold and however the passes go, no group of the
serial walk's files has a directory entry twice exactly when the input files
are separate; for the parallel walk no directory with files may be reached
from two input directories either. -/
theorem no_entry_twice_iff (env : ParallelEnvironment) (inputs : List Bytes)
    (hquiet : env.Undisturbed (inputs.flatMap (parallelPaths env.toDiscoveryEnvironment))) :
    ∃ serial, discoveryExpand env.toDiscoveryEnvironment (env.fs.directories.card + 1) inputs =
        some serial ∧
      (NeverTwice env.fs (serial.entries.map OwnedEntry.entry) ↔
        SeparateInputs env.toDiscoveryEnvironment
          (inputs.flatMap (serialPaths env.toDiscoveryEnvironment))) ∧
      (NeverTwice env.fs ((discoveryExpandParallel env inputs).entries.map OwnedEntry.entry) ↔
        SeparateInputs env.toDiscoveryEnvironment
            (inputs.flatMap (parallelPaths env.toDiscoveryEnvironment)) ∧
          ((inputs.flatMap (parallelPaths env.toDiscoveryEnvironment)).flatMap
            (inputRoots env.toDiscoveryEnvironment)).Pairwise
              (ApartRoots env.toDiscoveryEnvironment (rootDeviceOf env.toDiscoveryEnvironment
                (inputs.flatMap (parallelPaths env.toDiscoveryEnvironment))))) := by
  obtain ⟨serial, visited, hdone, _, hvisited, hfound⟩ :=
    discoveryExpand_found hquiet.base (Nat.lt_succ_self _) inputs
  obtain ⟨walks, _, hwalks, hfound'⟩ := discoveryExpandParallel_found hquiet
  refine ⟨serial, hdone, ?_, ?_⟩
  · rw [neverTwice_iff_of_found hfound fun directory _ => hvisited.mem_iff]
    exact and_iff_left (hvisited.nodup_visited.filter _)
  · rw [neverTwice_iff_of_found hfound' fun directory hfiles => hwalks.mem_flatten_iff hfiles,
      nodup_filter_flatten hwalks.nodup, hwalks.pairwise_iff_apartRoots]

theorem no_entry_twice_iff_oneDirectory : ∃ serial,
    discoveryExpand oneDirectory.run.toDiscoveryEnvironment
      (oneDirectory.fileSystem.directories.card + 1) [[100]] = some serial ∧
    NeverTwice oneDirectory.fileSystem (serial.entries.map OwnedEntry.entry) ∧
    NeverTwice oneDirectory.fileSystem
      ((discoveryExpandParallel oneDirectory.run [[100]]).entries.map OwnedEntry.entry) := by
  obtain ⟨serial, hdone, hserial, hparallel⟩ := no_entry_twice_iff oneDirectory.run [[100]]
    (oneDirectory.undisturbed_run (by decide))
  have hroots : ([[100]].flatMap (parallelPaths oneDirectory.run.toDiscoveryEnvironment)).flatMap
      (inputRoots oneDirectory.run.toDiscoveryEnvironment) = [⟨0, 2⟩] := by decide
  have hnone : [[100]].flatMap (inputFiles oneDirectory.run.toDiscoveryEnvironment) = [] := by
    decide
  have hseparate : SeparateInputs oneDirectory.run.toDiscoveryEnvironment [[100]] :=
    ⟨by rw [hnone]; exact List.nodup_nil, by rw [hnone]; exact nofun⟩
  refine ⟨serial, hdone, hserial.mpr hseparate, hparallel.mpr ⟨hseparate, ?_⟩⟩
  rw [hroots]
  exact List.pairwise_singleton _ _

/-- **A file given twice is reported as a duplicate of itself.** -/
theorem repeated_file_grouped :
    ¬∀ (env : ParallelEnvironment) (inputs : List Bytes),
      env.Undisturbed (inputs.flatMap (parallelPaths env.toDiscoveryEnvironment)) →
      ∃ serial, discoveryExpand env.toDiscoveryEnvironment (env.fs.directories.card + 1) inputs =
        some serial ∧ NeverTwice env.fs (serial.entries.map OwnedEntry.entry) := by
  intro h
  obtain ⟨serial, hdone, hnever⟩ := h oneDirectory.run [[100, 47, 120], [100, 47, 120]]
    (oneDirectory.undisturbed_run (by decide))
  have hserial : discoveryExpand oneDirectory.run.toDiscoveryEnvironment
      (oneDirectory.run.fs.directories.card + 1) [[100, 47, 120], [100, 47, 120]] =
        some ⟨true, [⟨.discovered [100, 47, 120] 5 0 3, .main⟩,
          ⟨.discovered [100, 47, 120] 5 0 3, .main⟩], [], []⟩ := by decide +kernel
  rw [hserial] at hdone
  cases hdone
  rw [noEntryTwice_iff _ (by simp)] at hnever
  exact absurd hnever (by simp)

end BcDuplicate
