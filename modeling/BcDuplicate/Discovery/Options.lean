import BcDuplicate.Discovery.OneFileSystem
import BcDuplicate.Discovery.Scope

/-!
# BcDuplicate.Discovery.Options

Loosening the options of discovery loses no file: hidden names, smaller files,
other devices, symbolic links and a filter that accepts more only add to what
is found, by either walk (`loosened_finds_more`).

The two options that interact are `one_file_system` and `follow_symlinks`: a
link among the inputs that is followed may be the directory whose device the
run keeps to, and then other inputs lose files (`following_links_loses`).
-/

namespace BcDuplicate

open FileSystem
open Search

/-- `loose` accepts whatever `strict` accepts on the same file system.  Where
both keep to one device they follow symbolic links alike. -/
structure Loosens (strict loose : DiscoveryEnvironment) : Prop where
  fs : loose.fs = strict.fs
  glob : loose.glob = strict.glob
  includeHidden : strict.options.includeHidden = true → loose.options.includeHidden = true
  minimumFileSize : loose.options.minimumFileSize ≤ strict.options.minimumFileSize
  followSymlinks : strict.options.followSymlinks = true → loose.options.followSymlinks = true
  devices : loose.options.oneFileSystem = false ∨ (strict.options.oneFileSystem = true ∧
    loose.options.followSymlinks = strict.options.followSymlinks)
  acceptsFile : ∀ name, filterAcceptsFile strict.fnmatch strict.filter name = true →
    filterAcceptsFile loose.fnmatch loose.filter name = true
  acceptsDirectory : ∀ name, filterAcceptsDirectory strict.fnmatch strict.filter name = true →
    filterAcceptsDirectory loose.fnmatch loose.filter name = true

/-! ## looking at a name -/

/-- What is an object without following a link is the same object with. -/
theorem Link.stat_mono {link : Link} {follow follow' : Bool} {found : Object}
    (hfollow : follow = true → follow' = true)
    (h : link.stat follow = .ok (.object found)) : link.stat follow' = .ok (.object found) := by
  cases follow' with
  | true => exact Link.stat_follow h
  | false =>
      cases follow with
      | true => exact absurd (hfollow rfl) Bool.noConfusion
      | false => exact h

theorem statPath_mono {fs : FileSystem} {path : Bytes} {follow follow' : Bool} {found : Object}
    (hfollow : follow = true → follow' = true)
    (h : fs.statPath follow path = .ok (.object found)) :
    fs.statPath follow' path = .ok (.object found) := by
  unfold FileSystem.statPath at h ⊢
  cases hlocate : fs.locate path with
  | error errno =>
      rw [hlocate] at h
      cases h
  | ok place =>
      rw [hlocate] at h
      cases place with
      | directory identity => exact h
      | entry directory name => exact Link.stat_mono hfollow h

section Loosens

variable {strict loose : DiscoveryEnvironment} (h : Loosens strict loose)
include h

namespace Loosens

theorem considers {name : Bytes} (hname : considers strict name = true) :
    BcDuplicate.considers loose name = true := by
  rw [BcDuplicate.considers, Bool.and_eq_true, Bool.or_eq_true] at hname ⊢
  exact ⟨hname.1, hname.2.imp_left h.includeHidden⟩

theorem listable_eq (directory : Identity) : listable loose directory = listable strict directory := by
  rw [listable, listable, h.fs]

/-! ## files -/

theorem filesAt {directory : Identity} {name : Bytes} {file : FoundFile}
    (hfile : file ∈ BcDuplicate.filesAt strict directory name) :
    file ∈ BcDuplicate.filesAt loose directory name := by
  obtain ⟨hconsiders, hstat, haccepts, hsize, hplace⟩ := mem_filesAt_iff.mp hfile
  refine mem_filesAt_iff.mpr ⟨h.considers hconsiders, ?_, h.acceptsFile name haccepts,
    Nat.le_trans h.minimumFileSize hsize, hplace⟩
  rw [h.fs]
  exact Link.stat_mono h.followSymlinks hstat

theorem filesOf {directory : Identity} {file : FoundFile}
    (hfile : file ∈ BcDuplicate.filesOf strict directory) :
    file ∈ BcDuplicate.filesOf loose directory := by
  unfold BcDuplicate.filesOf at hfile ⊢
  rw [h.listable_eq, h.fs]
  split at hfile
  · next hlist =>
    rw [if_pos hlist]
    obtain ⟨name, hname, hat⟩ := List.mem_flatMap.mp hfile
    exact List.mem_flatMap.mpr ⟨name, hname, h.filesAt hat⟩
  · cases hfile

theorem inputFiles {path : Bytes} {file : FoundFile}
    (hfile : file ∈ BcDuplicate.inputFiles strict path) :
    file ∈ BcDuplicate.inputFiles loose path := by
  unfold BcDuplicate.inputFiles at hfile ⊢
  split at hfile
  · next identity fileSize hstat =>
    split at hfile
    · next hsize =>
      rw [h.fs, statPath_mono h.followSymlinks hstat]
      dsimp only
      rw [if_pos (Nat.le_trans h.minimumFileSize hsize)]
      exact hfile
    · cases hfile
  · cases hfile

theorem inputRoots {path : Bytes} {root : Identity}
    (hroot : root ∈ BcDuplicate.inputRoots strict path) :
    root ∈ BcDuplicate.inputRoots loose path := by
  unfold BcDuplicate.inputRoots at hroot ⊢
  split at hroot
  · next identity hstat =>
    rw [h.fs, statPath_mono h.followSymlinks hstat]
    exact hroot
  · cases hroot

/-! ## directories -/

/-- Where both keep to one device it is the same device. -/
theorem rootDeviceOf_eq (hfollow : loose.options.followSymlinks = strict.options.followSymlinks)
    (paths : List Bytes) : rootDeviceOf loose paths = rootDeviceOf strict paths := by
  have hroots : BcDuplicate.inputRoots loose = BcDuplicate.inputRoots strict := by
    funext path
    rw [BcDuplicate.inputRoots, BcDuplicate.inputRoots, h.fs, hfollow]
  rw [rootDeviceOf, rootDeviceOf, hroots]

theorem staysOnDevice {paths : List Bytes} {child : Identity}
    (hstays : staysOnDevice strict (rootDeviceOf strict paths) child = true) :
    BcDuplicate.staysOnDevice loose (rootDeviceOf loose paths) child = true := by
  rcases h.devices with hacross | ⟨hstrict, hfollow⟩
  · rw [BcDuplicate.staysOnDevice, hacross]
    rfl
  · rw [h.rootDeviceOf_eq hfollow, BcDuplicate.staysOnDevice]
    rw [BcDuplicate.staysOnDevice, hstrict] at hstays
    cases hloose : loose.options.oneFileSystem with
    | true => exact hstays
    | false => rfl

theorem childrenOf {paths : List Bytes} {directory child : Identity}
    (hchild : child ∈ childrenOf strict (rootDeviceOf strict paths) directory) :
    child ∈ BcDuplicate.childrenOf loose (rootDeviceOf loose paths) directory := by
  unfold BcDuplicate.childrenOf at hchild ⊢
  rw [h.listable_eq, h.fs]
  split at hchild
  · next hlist =>
    rw [if_pos hlist]
    obtain ⟨name, hname, hat⟩ := List.mem_flatMap.mp hchild
    obtain ⟨hconsiders, hstat, haccepts, hstays⟩ := mem_childrenAt_iff_stays.mp hat
    refine List.mem_flatMap.mpr ⟨name, hname, mem_childrenAt_iff_stays.mpr
      ⟨h.considers hconsiders, ?_, h.acceptsDirectory name haccepts, h.staysOnDevice hstays⟩⟩
    rw [h.fs]
    exact Link.stat_mono h.followSymlinks hstat
  · cases hchild

theorem inWalk {paths : List Bytes} {directory : Identity} (hwalk : InWalk strict paths directory) :
    InWalk loose paths directory := by
  obtain ⟨root, hroot, hpath⟩ := hwalk
  obtain ⟨path, hmem, hat⟩ := List.mem_flatMap.mp hroot
  exact ⟨root, List.mem_flatMap.mpr ⟨path, hmem, h.inputRoots hat⟩,
    Relation.ReflTransGen.mono (fun _ _ hstep => h.childrenOf hstep) _ _ hpath⟩

/-- **The scope only grows.** -/
theorem inScope {paths : List Bytes} {file : FoundFile} (hscope : InScope strict paths file) :
    InScope loose paths file := by
  rcases hscope with hinput | ⟨directory, hwalk, hfile⟩
  · obtain ⟨path, hpath, hat⟩ := List.mem_flatMap.mp hinput
    exact Or.inl (List.mem_flatMap.mpr ⟨path, hpath, h.inputFiles hat⟩)
  · exact Or.inr ⟨directory, h.inWalk hwalk, h.filesOf hfile⟩

theorem paths_eq : serialPaths loose = serialPaths strict ∧
    parallelPaths loose = parallelPaths strict := by
  constructor
  · funext input
    rw [serialPaths, serialPaths, h.glob]
  · funext input
    rw [parallelPaths, parallelPaths, h.glob]

end Loosens

end Loosens

/-- **Looser options find more.**  Undisturbed, each walk finds with the looser
options every file it finds with the stricter ones. -/
theorem loosened_finds_more (strict loose : ParallelEnvironment)
    (h : Loosens strict.toDiscoveryEnvironment loose.toDiscoveryEnvironment) (inputs : List Bytes)
    (hstrict : strict.Undisturbed
      (inputs.flatMap (parallelPaths strict.toDiscoveryEnvironment)))
    (hloose : loose.Undisturbed (inputs.flatMap (parallelPaths loose.toDiscoveryEnvironment))) :
    ∃ fewer more, discoveryExpand strict.toDiscoveryEnvironment (strict.fs.directories.card + 1)
        inputs = some fewer ∧
      discoveryExpand loose.toDiscoveryEnvironment (loose.fs.directories.card + 1) inputs =
        some more ∧
      (∀ file ∈ foundFiles strict.fs fewer.entries, file ∈ foundFiles loose.fs more.entries) ∧
      ∀ file ∈ foundFiles strict.fs (discoveryExpandParallel strict inputs).entries,
        file ∈ foundFiles loose.fs (discoveryExpandParallel loose inputs).entries := by
  obtain ⟨fewer, _, hfewer, _, hserial, _⟩ := exists_serial_findsScope hstrict.base inputs
  obtain ⟨more, _, hmore, _, hserial', _⟩ := exists_serial_findsScope hloose.base inputs
  obtain ⟨_, _, hparallel, _⟩ := exists_parallel_findsScope rfl hstrict
  obtain ⟨_, _, hparallel', _⟩ := exists_parallel_findsScope rfl hloose
  refine ⟨fewer, more, hfewer, hmore, fun file hfile => ?_, fun file hfile => ?_⟩
  · have hscope := h.inScope ((hserial.mem_iff file).mp hfile)
    rw [← h.paths_eq.1] at hscope
    exact (hserial'.mem_iff file).mpr hscope
  · have hscope := h.inScope ((hparallel.mem_iff file).mp hfile)
    rw [← h.paths_eq.2] at hscope
    exact (hparallel'.mem_iff file).mpr hscope

/-- The file on the second device is found across devices as well. -/
theorem loosened_finds_more_twoDevices : ∃ fewer more,
    discoveryExpand twoDevices.runOneFileSystem.toDiscoveryEnvironment
      (twoDevices.fileSystem.directories.card + 1) [[98]] = some fewer ∧
    discoveryExpand twoDevices.run.toDiscoveryEnvironment
      (twoDevices.fileSystem.directories.card + 1) [[98]] = some more ∧
    ∀ file ∈ foundFiles twoDevices.fileSystem fewer.entries,
      file ∈ foundFiles twoDevices.fileSystem more.entries := by
  obtain ⟨fewer, more, hfewer, hmore, hserial, _⟩ := loosened_finds_more
    twoDevices.runOneFileSystem twoDevices.run
    ⟨rfl, rfl, id, Nat.le_refl _, id, Or.inl rfl, fun _ => id, fun _ => id⟩ [[98]]
    (twoDevices.undisturbed_runOneFileSystem (by decide)) (twoDevices.undisturbed_run (by decide))
  exact ⟨fewer, more, hfewer, hmore, hserial⟩

/-! ### a link to another device -/

/-- A link `l` to the first device beside a directory `b` of the second, where
a directory `s` has the file `x`. -/
def linkedDevice : Table where
  root := ⟨0, 1⟩
  rows := [⟨⟨0, 1⟩, [108], .symbolicLink (.ok (.directory ⟨1, 1⟩))⟩,
    ⟨⟨0, 1⟩, [98], .object (.directory ⟨2, 1⟩)⟩,
    ⟨⟨2, 1⟩, [115], .object (.directory ⟨2, 2⟩)⟩,
    ⟨⟨2, 2⟩, [120], .object (.regular ⟨2, 3⟩ 5)⟩]
  distinct := by decide
  proper := by decide

/-- **Following a link can lose files** when the run keeps to one device. -/
theorem following_links_loses :
    (discoveryExpand linkedDevice.runOneFileSystem.toDiscoveryEnvironment 5 [[108], [98]]).map
        (fun result => foundFiles linkedDevice.fileSystem result.entries) =
      some [⟨some (.entry ⟨2, 2⟩ [120]), ⟨2, 3⟩, 5⟩] ∧
    (discoveryExpand { linkedDevice.runOneFileSystem.toDiscoveryEnvironment with
        options := ⟨false, true, true, 1⟩ } 5 [[108], [98]]).map
        (fun result => foundFiles linkedDevice.fileSystem result.entries) = some [] := by
  decide +kernel

end BcDuplicate
