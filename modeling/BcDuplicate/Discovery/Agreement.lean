import BcDuplicate.Base.Overlap
import BcDuplicate.Discovery.Reference
import BcDuplicate.Discovery.Serial

/-!
# BcDuplicate.Discovery.Agreement

The two walks against each other.  The serial walk keeps one set of visited
directories for all inputs, the library one for each walk, so the two agree
exactly when no directory with files to report is entered from two of the
input directories (`expand_agree_iff`).
-/

namespace BcDuplicate

open FileSystem
open Overlap
open Search

/-- `device_id`, `inode_number` and `file_size` -/
def OwnedEntry.identitySize (owned : OwnedEntry) : Nat × Nat × Nat :=
  (owned.entry.deviceId, owned.entry.inodeNumber, owned.entry.fileSize)

/-- The same of a file of the tree. -/
def FoundFile.identitySize (file : FoundFile) : Nat × Nat × Nat :=
  (file.identity.deviceId, file.identity.inodeNumber, file.fileSize)

theorem map_identitySize (fs : FileSystem) (entries : List OwnedEntry) :
    (foundFiles fs entries).map FoundFile.identitySize = entries.map OwnedEntry.identitySize := by
  rw [foundFiles, List.map_map]
  rfl

section Apart

variable (env : DiscoveryEnvironment)

/-- No directory with files to report can be reached from both roots. -/
def ApartRoots (rootDeviceId : Option Nat) (first second : Identity) : Prop :=
  ∀ directory, filesOf env directory ≠ [] → Reached (childrenOf env rootDeviceId) [first] directory →
    ¬Reached (childrenOf env rootDeviceId) [second] directory

variable {env}

/-- A directory with files is on no pseudo file system. -/
theorem isPseudo_of_filesOf {directory : Identity} (h : filesOf env directory ≠ []) :
    env.fs.isPseudo directory = false := by
  unfold filesOf at h
  split at h
  · next hlist => exact ((listable_iff env directory).mp hlist).1
  · exact absurd rfl h

theorem WalkedFrom.mem_iff {rootDeviceId : Option Nat} {root directory : Identity}
    {entered : List Identity} (h : WalkedFrom env rootDeviceId root entered)
    (hfiles : filesOf env directory ≠ []) :
    directory ∈ entered ↔ Reached (childrenOf env rootDeviceId) [root] directory := by
  rw [h.2, and_iff_left (isPseudo_of_filesOf hfiles)]

theorem reached_iff_exists (succ : Identity → List Identity) (roots : List Identity)
    (directory : Identity) :
    Reached succ roots directory ↔ ∃ root ∈ roots, Reached succ [root] directory :=
  ⟨fun ⟨root, hroot, hpath⟩ => ⟨root, hroot, root, List.mem_cons_self, hpath⟩,
    fun ⟨root, hroot, _, hsingle, hpath⟩ =>
      ⟨root, hroot, List.mem_singleton.mp hsingle ▸ hpath⟩⟩

/-- What the walks list together can be reached from one of the roots. -/
theorem WalkedRoots.mem_flatten_iff {rootDeviceId : Option Nat} {roots : List Identity}
    {walks : List (List Identity)} (h : WalkedRoots env rootDeviceId roots walks)
    {directory : Identity} (hfiles : filesOf env directory ≠ []) :
    directory ∈ walks.flatten ↔ Reached (childrenOf env rootDeviceId) roots directory := by
  rw [List.mem_flatten, reached_iff_exists]
  constructor
  · rintro ⟨walk, hwalk, hmem⟩
    obtain ⟨root, hroot, hrelated⟩ := exists_left_of_forall₂ h hwalk
    exact ⟨root, hroot, (hrelated.mem_iff hfiles).mp hmem⟩
  · rintro ⟨root, hroot, hreached⟩
    obtain ⟨walk, hwalk, hrelated⟩ := exists_right_of_forall₂ h hroot
    exact ⟨walk, hwalk, (hrelated.mem_iff hfiles).mpr hreached⟩

theorem WalkedRoots.nodup {rootDeviceId : Option Nat} {roots : List Identity}
    {walks : List (List Identity)} (h : WalkedRoots env rootDeviceId roots walks) :
    ∀ walk ∈ walks, walk.Nodup := fun walk hwalk => by
  obtain ⟨root, _, hrelated⟩ := exists_left_of_forall₂ h hwalk
  exact hrelated.1

/-- The walks share no directory with files exactly when the roots are apart. -/
theorem WalkedRoots.pairwise_iff_apartRoots {rootDeviceId : Option Nat}
    {roots : List Identity} {walks : List (List Identity)}
    (h : WalkedRoots env rootDeviceId roots walks) :
    walks.Pairwise (Apart (filesOf env)) ↔ roots.Pairwise (ApartRoots env rootDeviceId) := by
  refine (pairwise_iff_of_forall₂ h ?_).symm
  intro first second enteredFirst enteredSecond hfirst hsecond
  refine forall_congr' fun directory => imp_congr_right fun hfiles => ?_
  rw [hfirst.mem_iff hfiles, hsecond.mem_iff hfiles]

/-- **Visiting the roots together and walking from each** find the same,
however the files are mapped, exactly when the roots are apart. -/
theorem perm_iff_apartRoots {β : Type} (g : FoundFile → β) {rootDeviceId : Option Nat}
    {roots visited : List Identity} {walks : List (List Identity)}
    (hvisited : Explores id (childrenOf env rootDeviceId) roots visited [])
    (hwalks : WalkedRoots env rootDeviceId roots walks) :
    ((visited.flatMap (filesOf env)).map g).Perm ((walks.flatten.flatMap (filesOf env)).map g) ↔
      roots.Pairwise (ApartRoots env rootDeviceId) := by
  have hapart : (Apart fun directory => (filesOf env directory).map g) = Apart (filesOf env) := by
    funext front back
    simp only [Apart, ne_eq, List.map_eq_nil_iff]
  rw [List.map_flatMap, List.map_flatMap,
    flatMap_perm_flatten_iff hvisited.nodup_visited hwalks.nodup, hapart,
    hwalks.pairwise_iff_apartRoots]
  intro directory hfiles
  rw [ne_eq, List.map_eq_nil_iff] at hfiles
  rw [hvisited.mem_iff, ← List.mem_flatten, hwalks.mem_flatten_iff hfiles]

end Apart

/-- **When the walks agree.**  Undisturbed, on inputs without metacharacters
and with any library that walks, both walks succeed, and they report the same
identities and sizes exactly when no directory with files to report can be
reached from two of the input directories. -/
theorem expand_agree_iff (env : ParallelEnvironment) (inputs : List Bytes)
    (hliteral : ∀ input ∈ inputs, globContainsMetacharacter input = false)
    (hquiet : env.Undisturbed inputs) :
    ∃ serial, discoveryExpand env.toDiscoveryEnvironment (env.fs.directories.card + 1) inputs =
        some serial ∧ serial.ok = true ∧ (discoveryExpandParallel env inputs).ok = true ∧
      ((serial.entries.map OwnedEntry.identitySize).Perm
          ((discoveryExpandParallel env inputs).entries.map OwnedEntry.identitySize) ↔
        (inputs.flatMap (inputRoots env.toDiscoveryEnvironment)).Pairwise
          (ApartRoots env.toDiscoveryEnvironment
            (rootDeviceOf env.toDiscoveryEnvironment inputs))) := by
  obtain ⟨hserial, hparallel⟩ := flatMap_paths_of_literal env.toDiscoveryEnvironment hliteral
  obtain ⟨serial, visited, hdone, hok, hvisited, hfound⟩ :=
    discoveryExpand_found hquiet.base (Nat.lt_succ_self _) inputs
  obtain ⟨walks, hok', hwalks, hfound'⟩ := discoveryExpandParallel_found (by
    rw [hparallel]
    exact hquiet)
  rw [hserial] at hvisited hfound
  rw [hparallel] at hwalks hfound'
  refine ⟨serial, hdone, hok, hok', ?_⟩
  have hkeys := hfound.map FoundFile.identitySize
  have hkeys' := hfound'.map FoundFile.identitySize
  rw [map_identitySize, List.map_append] at hkeys hkeys'
  rw [hkeys.congr_left, hkeys'.congr_right, List.perm_append_left_iff]
  exact perm_iff_apartRoots FoundFile.identitySize hvisited hwalks

/-! ### a directory given twice -/

/-- One directory `d` with one file `x` of five bytes. -/
def oneDirectory : Table where
  root := ⟨0, 1⟩
  rows := [⟨⟨0, 1⟩, [100], .object (.directory ⟨0, 2⟩)⟩,
    ⟨⟨0, 2⟩, [120], .object (.regular ⟨0, 3⟩ 5)⟩]
  distinct := by decide
  proper := by decide

/-- A run over a table: nothing is hidden, nothing filtered, and the library
walks it from one worker. -/
def Table.run (table : Table) : ParallelEnvironment where
  fs := table.fileSystem
  options := ⟨false, false, false, 1⟩
  filter := none
  fnmatch _ _ := false
  glob pattern := some [pattern]
  pathJoin directory name := some (joinPath directory name)
  shouldStop _ := false
  allocates _ := true
  library := referenceWalk table.fileSystem
  workerCount := 1
  hasWorkerMemory _ := true
  registersSlot := true
  maxPathLength := 4096

theorem Table.undisturbed_run (table : Table) {paths : List Bytes}
    (hshort : ∀ path ∈ paths, (trimTrailingSlashes path).length < 4096) :
    table.run.Undisturbed paths where
  base := ⟨fun _ => rfl, fun _ => rfl, fun _ _ => rfl⟩
  registers := rfl
  short := hshort
  walks := walks_referenceWalk table.fileSystem

theorem expand_agree_iff_once : ∃ serial,
    discoveryExpand oneDirectory.run.toDiscoveryEnvironment
      (oneDirectory.fileSystem.directories.card + 1) [[100]] = some serial ∧
    (serial.entries.map OwnedEntry.identitySize).Perm
      ((discoveryExpandParallel oneDirectory.run [[100]]).entries.map
        OwnedEntry.identitySize) := by
  obtain ⟨serial, hdone, _, _, hiff⟩ := expand_agree_iff oneDirectory.run [[100]] (by decide)
    (oneDirectory.undisturbed_run (by decide))
  have hroots : [[100]].flatMap (inputRoots oneDirectory.run.toDiscoveryEnvironment) =
      [⟨0, 2⟩] := by decide
  refine ⟨serial, hdone, hiff.mpr ?_⟩
  rw [hroots]
  exact List.pairwise_singleton _ _

/-- **A directory given twice is reported once by the serial walk and twice by
the parallel one.** -/
theorem repeated_directory_disagrees :
    ¬∀ (env : ParallelEnvironment) (inputs : List Bytes),
      (∀ input ∈ inputs, globContainsMetacharacter input = false) → env.Undisturbed inputs →
      ∃ serial, discoveryExpand env.toDiscoveryEnvironment (env.fs.directories.card + 1) inputs =
        some serial ∧ (serial.entries.map OwnedEntry.identitySize).Perm
          ((discoveryExpandParallel env inputs).entries.map OwnedEntry.identitySize) := by
  intro h
  obtain ⟨serial, hdone, hperm⟩ := h oneDirectory.run [[100], [100]] (by decide)
    (oneDirectory.undisturbed_run (by decide))
  have hserial : discoveryExpand oneDirectory.run.toDiscoveryEnvironment
      (oneDirectory.run.fs.directories.card + 1) [[100], [100]] =
        some ⟨true, [⟨.discovered [100, 47, 120] 5 0 3, .main⟩], [], []⟩ := by decide +kernel
  have hparallel : (discoveryExpandParallel oneDirectory.run [[100], [100]]).entries.length = 2 := by
    decide +kernel
  rw [hserial] at hdone
  cases hdone
  have hlength := hperm.length_eq
  rw [List.length_map, List.length_map, hparallel] at hlength
  exact absurd hlength (by decide)

end BcDuplicate
