import BcDuplicate.Base.Regions
import BcDuplicate.Discovery.Agreement

/-!
# BcDuplicate.Discovery.OneFileSystem

What `one_file_system` keeps the two walks from.

Both compare a directory's device with one device for the whole run, that of
the first directory among the inputs, also below an input on another device.
They then enter the first device from there, and skip the input's own
(`keepsToOwnDevices_iff`).
-/

namespace BcDuplicate

open FileSystem
open Regions
open Search

/-! ## the specification -/

section Specification

variable (env : DiscoveryEnvironment)

/-- The same run without `one_file_system`. -/
def DiscoveryEnvironment.acrossDevices : DiscoveryEnvironment :=
  { env with options := { env.options with oneFileSystem := false } }

/-- The directories accepted in a directory, on whatever device they are. -/
def childrenAcross (directory : Identity) : List Identity :=
  childrenOf env.acrossDevices none directory

/-- The directory is reached from an input directory through directories on
that input's own device. -/
def BelowOnOwnDevice (paths : List Bytes) (directory : Identity) : Prop :=
  ByOwn (childrenAcross env) Identity.deviceId (paths.flatMap (inputRoots env)) directory

/-- **No boundary is crossed below any input, and nothing of an input's own
device is skipped.**  The files found are those a walk without the option finds
in the directories reached on the devices of the inputs they are below. -/
structure KeepsToOwnDevices (paths : List Bytes) (entries : List OwnedEntry) : Prop where
  crossesNone : ∀ file ∈ foundFiles env.fs entries, ∃ directory,
    BelowOnOwnDevice env paths directory ∧ file ∈ filesOf env.acrossDevices directory
  skipsNone : ∀ directory, BelowOnOwnDevice env paths directory →
    ∀ file ∈ filesOf env.acrossDevices directory, file ∈ foundFiles env.fs entries

/-- The device of the first input directory does for all of them.  From an
input on another device no directory with files on the first device is reached
through that device that the inputs on it do not reach, and the directories
with files on the input's own device are inputs themselves. -/
def FirstDeviceSuffices (paths : List Bytes) : Prop :=
  ∀ device, rootDeviceOf env paths = some device →
    OneSuffices (childrenAcross env) Identity.deviceId (fun directory => filesOf env directory ≠ [])
      device (paths.flatMap (inputRoots env))

end Specification

section Devices

variable {env : DiscoveryEnvironment}

/-- The option decides by the device alone. -/
theorem mem_childrenAt_device_iff (hoption : env.options.oneFileSystem = true) {device : Nat}
    {directory child : Identity} {name : Bytes} :
    child ∈ childrenAt env (some device) directory name ↔
      child ∈ childrenAt env.acrossDevices none directory name ∧ child.deviceId = device := by
  have hstays : staysOnDevice env (some device) child = true ↔ child.deviceId = device := by
    simp [staysOnDevice, hoption]
  have hacross : staysOnDevice env.acrossDevices none child = true := rfl
  rw [mem_childrenAt_iff_stays, mem_childrenAt_iff_stays, hstays, and_iff_left hacross, and_assoc,
    and_assoc]
  rfl

theorem mem_childrenOf_device_iff (hoption : env.options.oneFileSystem = true) {device : Nat}
    {directory child : Identity} :
    child ∈ childrenOf env (some device) directory ↔
      child ∈ childrenAcross env directory ∧ child.deviceId = device := by
  have hlistable : listable env.acrossDevices directory = listable env directory := rfl
  rw [childrenAcross, childrenOf, childrenOf, hlistable]
  split
  · rw [List.mem_flatMap, List.mem_flatMap]
    simp only [mem_childrenAt_device_iff hoption]
    constructor
    · rintro ⟨name, hname, hchild, hdevice⟩
      exact ⟨⟨name, hname, hchild⟩, hdevice⟩
    · rintro ⟨⟨name, hname, hchild⟩, hdevice⟩
      exact ⟨name, hname, hchild, hdevice⟩
  · exact ⟨fun h => absurd h List.not_mem_nil, fun h => absurd h.1 List.not_mem_nil⟩

/-- **A walk keeps to one device for all its roots.** -/
theorem reached_iff_byOne (hoption : env.options.oneFileSystem = true) {device : Nat}
    {roots : List Identity} {directory : Identity} :
    Reached (childrenOf env (some device)) roots directory ↔
      ByOne (childrenAcross env) Identity.deviceId device roots directory := by
  have hedge : Edge (childrenOf env (some device)) =
      fun parent child => child ∈ childrenAcross env parent ∧ child.deviceId = device := by
    funext parent child
    exact propext (mem_childrenOf_device_iff hoption)
  rw [Reached, hedge]
  rfl

/-- Files tell the directories they are in. -/
theorem directory_of_mem_filesOf {directory directory' : Identity} {file : FoundFile}
    (h : file ∈ filesOf env directory) (h' : file ∈ filesOf env directory') :
    directory = directory' :=
  eq_of_place_eq h h' rfl

/-- The files found in `walked` are the right ones when the directories with
files among them are. -/
theorem keepsToOwnDevices_iff_walked {paths : List Bytes} {entries : List OwnedEntry}
    {walked : List Identity}
    (hfound : ∀ file, file ∈ foundFiles env.fs entries ↔ file ∈ walked.flatMap (filesOf env)) :
    KeepsToOwnDevices env paths entries ↔
      ∀ directory, filesOf env directory ≠ [] →
        (directory ∈ walked ↔ BelowOnOwnDevice env paths directory) := by
  have hsame : filesOf env.acrossDevices = filesOf env := rfl
  constructor
  · rintro ⟨hcrosses, hskips⟩ directory hfiles
    obtain ⟨file, hfile⟩ := List.exists_mem_of_ne_nil _ hfiles
    constructor
    · intro hwalked
      obtain ⟨other, hbelow, hother⟩ := hcrosses file
        ((hfound file).mpr (List.mem_flatMap.mpr ⟨directory, hwalked, hfile⟩))
      rw [directory_of_mem_filesOf hfile hother]
      exact hbelow
    · intro hbelow
      have hmem := (hfound file).mp (hskips directory hbelow file hfile)
      obtain ⟨other, hwalked, hother⟩ := List.mem_flatMap.mp hmem
      rw [directory_of_mem_filesOf hfile hother]
      exact hwalked
  · intro h
    refine ⟨fun file hfile => ?_, fun directory hbelow file hfile => ?_⟩
    · obtain ⟨directory, hwalked, hmem⟩ := List.mem_flatMap.mp ((hfound file).mp hfile)
      exact ⟨directory, (h directory (List.ne_nil_of_mem hmem)).mp hwalked, hmem⟩
    · rw [hsame] at hfile
      exact (hfound file).mpr (List.mem_flatMap.mpr
        ⟨directory, (h directory (List.ne_nil_of_mem hfile)).mpr hbelow, hfile⟩)

/-- A walk from the inputs by the device of the first of them. -/
theorem keepsToOwnDevices_iff_suffices (hoption : env.options.oneFileSystem = true)
    {paths : List Bytes} {entries : List OwnedEntry} {walked : List Identity}
    (hfound : ∀ file, file ∈ foundFiles env.fs entries ↔ file ∈ walked.flatMap (filesOf env))
    (hwalked : ∀ directory, filesOf env directory ≠ [] → (directory ∈ walked ↔
      Reached (childrenOf env (rootDeviceOf env paths)) (paths.flatMap (inputRoots env))
        directory)) :
    KeepsToOwnDevices env paths entries ↔ FirstDeviceSuffices env paths := by
  rw [keepsToOwnDevices_iff_walked hfound, FirstDeviceSuffices]
  cases hdevice : rootDeviceOf env paths with
  | none =>
      have hroots : paths.flatMap (inputRoots env) = [] := by
        simpa [rootDeviceOf] using hdevice
      refine ⟨fun _ device hsome => absurd hsome.symm (Option.some_ne_none device),
        fun _ directory hfiles => ?_⟩
      rw [hwalked directory hfiles, BelowOnOwnDevice, hroots]
      constructor <;>
        · rintro ⟨_, hroot, _⟩
          cases hroot
  | some device =>
      have hone : ∀ directory, filesOf env directory ≠ [] → (directory ∈ walked ↔
          ByOne (childrenAcross env) Identity.deviceId device (paths.flatMap (inputRoots env))
            directory) := fun directory hfiles => by
        rw [hwalked directory hfiles, hdevice, reached_iff_byOne hoption]
      constructor
      · rintro h other hother
        cases hother
        refine byOne_iff_byOwn.mp fun directory hfiles => ?_
        rw [← hone directory hfiles]
        exact h directory hfiles
      · intro h directory hfiles
        rw [hone directory hfiles]
        exact byOne_iff_byOwn.mpr (h device rfl) directory hfiles

end Devices

/-- **When `one_file_system` keeps to the inputs' own devices.**  Undisturbed,
with a library that walks and with inputs that stand for directories, each of
the two walks finds below the input directories exactly the files on their own
devices if and only if the device of the first of them does for all. -/
theorem keepsToOwnDevices_iff (env : ParallelEnvironment) (inputs paths : List Bytes)
    (hoption : env.options.oneFileSystem = true) (hquiet : env.Undisturbed paths)
    (hserial : inputs.flatMap (serialPaths env.toDiscoveryEnvironment) = paths)
    (hparallel : inputs.flatMap (parallelPaths env.toDiscoveryEnvironment) = paths)
    (hdirectories : ∀ path ∈ paths, ∃ root,
      env.fs.statPath env.options.followSymlinks path = .ok (.object (.directory root))) :
    ∃ serial, discoveryExpand env.toDiscoveryEnvironment (env.fs.directories.card + 1) inputs =
        some serial ∧
      (KeepsToOwnDevices env.toDiscoveryEnvironment paths serial.entries ↔
        FirstDeviceSuffices env.toDiscoveryEnvironment paths) ∧
      (KeepsToOwnDevices env.toDiscoveryEnvironment paths
          (discoveryExpandParallel env inputs).entries ↔
        FirstDeviceSuffices env.toDiscoveryEnvironment paths) := by
  have hnone : paths.flatMap (inputFiles env.toDiscoveryEnvironment) = [] :=
    List.flatMap_eq_nil_iff.mpr fun path hpath => by
      obtain ⟨root, hstat⟩ := hdirectories path hpath
      rw [inputFiles, hstat]
  obtain ⟨serial, visited, hdone, _, hvisited, hfound⟩ :=
    discoveryExpand_found hquiet.base (Nat.lt_succ_self _) inputs
  obtain ⟨walks, _, hwalks, hfound'⟩ := discoveryExpandParallel_found (by
    rw [hparallel]
    exact hquiet)
  rw [hserial] at hvisited hfound
  rw [hparallel] at hwalks hfound'
  rw [hnone, List.nil_append] at hfound hfound'
  exact ⟨serial, hdone,
    keepsToOwnDevices_iff_suffices hoption (fun _ => hfound.mem_iff) fun _ _ => hvisited.mem_iff,
    keepsToOwnDevices_iff_suffices hoption (fun _ => hfound'.mem_iff) fun _ hfiles =>
      hwalks.mem_flatten_iff hfiles⟩

/-! ### two devices -/

/-- An empty directory `a` on the first device, and a directory `b` on the
second, where a directory `s` of the same device has the file `x`. -/
def twoDevices : Table where
  root := ⟨0, 1⟩
  rows := [⟨⟨0, 1⟩, [97], .object (.directory ⟨1, 1⟩)⟩,
    ⟨⟨0, 1⟩, [98], .object (.directory ⟨2, 1⟩)⟩,
    ⟨⟨2, 1⟩, [115], .object (.directory ⟨2, 2⟩)⟩,
    ⟨⟨2, 2⟩, [120], .object (.regular ⟨2, 3⟩ 5)⟩]
  distinct := by decide
  proper := by decide

/-- A run over a table with `one_file_system` set. -/
def Table.runOneFileSystem (table : Table) : ParallelEnvironment :=
  { table.run with options := ⟨false, false, true, 1⟩ }

theorem Table.undisturbed_runOneFileSystem (table : Table) {paths : List Bytes}
    (hshort : ∀ path ∈ paths, (trimTrailingSlashes path).length < 4096) :
    table.runOneFileSystem.Undisturbed paths where
  base := ⟨fun _ => rfl, fun _ => rfl, fun _ _ => rfl⟩
  registers := rfl
  short := hshort
  walks := walks_referenceWalk table.fileSystem

/-- The directory on the second device by itself. -/
theorem keepsToOwnDevices_iff_twoDevices : ∃ serial,
    discoveryExpand twoDevices.runOneFileSystem.toDiscoveryEnvironment
      (twoDevices.fileSystem.directories.card + 1) [[98]] = some serial ∧
    KeepsToOwnDevices twoDevices.runOneFileSystem.toDiscoveryEnvironment [[98]] serial.entries := by
  obtain ⟨serial, hdone, hiff, _⟩ := keepsToOwnDevices_iff twoDevices.runOneFileSystem [[98]] [[98]]
    rfl (twoDevices.undisturbed_runOneFileSystem (by decide)) (by decide) (by decide)
    (fun path hpath => ⟨⟨2, 1⟩, by rw [List.mem_singleton.mp hpath]; decide⟩)
  refine ⟨serial, hdone, hiff.mpr fun device hdevice => ?_⟩
  have hroots : [[98]].flatMap (inputRoots twoDevices.runOneFileSystem.toDiscoveryEnvironment) =
      [⟨2, 1⟩] := by decide
  have hsame : ∀ root ∈ ([⟨2, 1⟩] : List Identity), root.deviceId = device := by
    rw [rootDeviceOf, hroots] at hdevice
    cases hdevice
    decide
  rw [hroots]
  exact ⟨fun root hroot houtside => absurd (hsame root hroot) houtside,
    fun root hroot houtside => absurd (hsame root hroot) houtside⟩

/-- **A directory on the input's own device is skipped** behind an input on
another device. -/
theorem own_device_skipped :
    ¬∀ (env : ParallelEnvironment) (inputs : List Bytes), env.options.oneFileSystem = true →
      env.Undisturbed inputs → (∀ input ∈ inputs, globContainsMetacharacter input = false ∧
        ∃ root, env.fs.statPath env.options.followSymlinks input =
          .ok (.object (.directory root))) →
      ∃ serial, discoveryExpand env.toDiscoveryEnvironment (env.fs.directories.card + 1) inputs =
          some serial ∧
        KeepsToOwnDevices env.toDiscoveryEnvironment inputs serial.entries ∧
        KeepsToOwnDevices env.toDiscoveryEnvironment inputs
          (discoveryExpandParallel env inputs).entries := by
  intro h
  obtain ⟨serial, hdone, hkeeps, _⟩ := h twoDevices.runOneFileSystem [[97], [98]] rfl
    (twoDevices.undisturbed_runOneFileSystem (by decide)) (by
      intro input hinput
      rcases List.mem_pair.mp hinput with rfl | rfl
      · exact ⟨by decide, ⟨1, 1⟩, by decide⟩
      · exact ⟨by decide, ⟨2, 1⟩, by decide⟩)
  have hserial : discoveryExpand twoDevices.runOneFileSystem.toDiscoveryEnvironment
      (twoDevices.runOneFileSystem.fs.directories.card + 1) [[97], [98]] =
        some ⟨true, [], [], []⟩ := by decide +kernel
  rw [hserial] at hdone
  cases hdone
  have hbelow : BelowOnOwnDevice twoDevices.runOneFileSystem.toDiscoveryEnvironment [[97], [98]]
      ⟨2, 2⟩ := ⟨⟨2, 1⟩, by decide, .single (by decide)⟩
  have hfile := hkeeps.skipsNone ⟨2, 2⟩ hbelow
    ⟨some (.entry ⟨2, 2⟩ [120]), ⟨2, 3⟩, 5⟩ (by decide)
  cases hfile

end BcDuplicate
