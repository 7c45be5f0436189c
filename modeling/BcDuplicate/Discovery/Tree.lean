import BcDuplicate.Discovery
import BcDuplicate.Base.Overlap
import BcDuplicate.Base.Search

/-!
# BcDuplicate.Discovery.Tree

What there is to discover, without the walks: the files a directory
contributes, the directories entered from it, and what an input path stands
for.  A file is known by the place its path leads to, so that two entries can
be compared whatever paths they were reached by.
-/

namespace BcDuplicate

open FileSystem

/-- A file as discovery reports it: the directory entry its path leads to, its
identity and its size. -/
structure FoundFile where
  place : Option Place
  identity : Identity
  fileSize : Nat
deriving DecidableEq, Repr

/-- The file an entry stands for. -/
def foundFile (fs : FileSystem) (entry : FileEntry) : FoundFile :=
  ⟨(fs.locate entry.absolutePath).toOption, ⟨entry.deviceId, entry.inodeNumber⟩, entry.fileSize⟩

/-- The files a list of entries stands for. -/
def foundFiles (fs : FileSystem) (entries : List OwnedEntry) : List FoundFile :=
  entries.map fun owned => foundFile fs owned.entry

@[simp] theorem foundFiles_append (fs : FileSystem) (front back : List OwnedEntry) :
    foundFiles fs (front ++ back) = foundFiles fs front ++ foundFiles fs back :=
  List.map_append

/-- A run of discovery that no signal, no exhausted pool and no over-long path
disturbs. -/
structure DiscoveryEnvironment.Undisturbed (env : DiscoveryEnvironment) : Prop where
  shouldStop : ∀ poll, env.shouldStop poll = false
  allocates : ∀ request, env.allocates request = true
  pathJoin : ∀ directory name, env.pathJoin directory name = some (joinPath directory name)

/-- The file system a directory is on is a pseudo file system. -/
def FileSystem.isPseudo (fs : FileSystem) (directory : Identity) : Bool :=
  (fs.fileSystemType directory).any fun fileSystemType =>
    decide (fileSystemType ∈ pseudoFileSystemTypes)

theorem pathIsPseudoFilesystem_iff {fs : FileSystem} {path : Bytes} {directory : Identity}
    (h : fs.resolveDirectory path = .ok directory) :
    pathIsPseudoFilesystem fs path = some true ↔ fs.isPseudo directory = true := by
  rw [pathIsPseudoFilesystem, statfs, h, isPseudo]
  dsimp only
  cases fs.fileSystemType directory with
  | none => simp
  | some fileSystemType => simp

/-! ## trimmed paths -/

theorem components_take_trimmedLength (path : Bytes) (length : Nat) (hle : length ≤ path.length) :
    components (path.take (trimmedLength path length)) = components (path.take length) ∧
      (0 < length → 0 < trimmedLength path length) := by
  induction length with
  | zero => exact ⟨rfl, id⟩
  | succ length ih =>
      unfold trimmedLength
      split
      · next h =>
        obtain ⟨htake, hpos⟩ := ih (Nat.le_of_succ_le hle)
        refine ⟨?_, fun _ => hpos (by omega)⟩
        rw [htake, List.take_add_one, h.2, Option.toList_some]
        rw [components_append_slash, components_nil, List.append_nil]
      · exact ⟨rfl, fun _ => Nat.succ_pos _⟩

/-- Without the slashes at its end a path leads to the same directory. -/
theorem resolveDirectory_trimTrailingSlashes (fs : FileSystem) {path : Bytes} (hpath : path ≠ []) :
    trimTrailingSlashes path ≠ [] ∧
      fs.resolveDirectory (trimTrailingSlashes path) = fs.resolveDirectory path := by
  obtain ⟨hcomponents, hpos⟩ := components_take_trimmedLength path path.length le_rfl
  replace hpos := hpos (List.length_pos_iff.mpr hpath)
  rw [List.take_length] at hcomponents
  obtain ⟨length, hlength⟩ := Nat.exists_eq_succ_of_ne_zero (Nat.pos_iff_ne_zero.mp hpos)
  obtain ⟨b, bs, rfl⟩ := List.exists_cons_of_ne_nil hpath
  refine ⟨?_, ?_⟩
  · rw [trimTrailingSlashes, hlength, List.take_succ_cons]
    exact List.cons_ne_nil _ _
  · rw [resolveDirectory, resolveDirectory, trimTrailingSlashes, hcomponents, start, start,
      hlength, List.take_succ_cons, List.head?_cons, List.head?_cons]

section Tree

variable (env : DiscoveryEnvironment)

/-! ## one name of a directory -/

/-- Hidden names are only looked at on request, and dot entries never. -/
def considers (name : Bytes) : Bool :=
  !isDotEntry name && (env.options.includeHidden || decide (name.head? ≠ some 46))

/-- The file a name of a directory contributes, if any. -/
def filesAt (directory : Identity) (name : Bytes) : List FoundFile :=
  if considers env name then
    match (env.fs.link directory name).stat env.options.followSymlinks with
    | .ok (.object (.regular identity fileSize)) =>
        if filterAcceptsFile env.fnmatch env.filter name ∧
            env.options.minimumFileSize ≤ fileSize then
          [⟨some (.entry directory name), identity, fileSize⟩]
        else []
    | _ => []
  else []

/-- A directory on this device may be entered from the root's device. -/
def staysOnDevice (rootDeviceId : Option Nat) (child : Identity) : Bool :=
  !(env.options.oneFileSystem && rootDeviceId.any fun root => decide (child.deviceId ≠ root))

/-- The directory a name of a directory leads to, if it is accepted. -/
def childrenAt (rootDeviceId : Option Nat) (directory : Identity) (name : Bytes) :
    List Identity :=
  if considers env name then
    match (env.fs.link directory name).stat env.options.followSymlinks with
    | .ok (.object (.directory child)) =>
        if filterAcceptsDirectory env.fnmatch env.filter name ∧
            staysOnDevice env rootDeviceId child then
          [child]
        else []
    | _ => []
  else []

/-! ## one directory -/

/-- The directory is opened when it is visited. -/
def opens (directory : Identity) : Bool :=
  !env.fs.isPseudo directory && (env.fs.openError directory).isNone

/-- Nothing keeps the directory from being listed. -/
def listable (directory : Identity) : Bool :=
  !env.fs.isPseudo directory && (env.fs.openError directory).isNone &&
    (env.fs.dupError directory).isNone && (env.fs.fdopendirError directory).isNone

/-- The files of a directory. -/
def filesOf (directory : Identity) : List FoundFile :=
  if listable env directory then (env.fs.listing directory).flatMap (filesAt env directory)
  else []

/-- The directories accepted in a directory. -/
def childrenOf (rootDeviceId : Option Nat) (directory : Identity) : List Identity :=
  if listable env directory then
    (env.fs.listing directory).flatMap (childrenAt env rootDeviceId directory)
  else []

/-! ## the inputs -/

/-- The file an input path names. -/
def inputFiles (path : Bytes) : List FoundFile :=
  match env.fs.statPath env.options.followSymlinks path with
  | .ok (.object (.regular identity fileSize)) =>
      if env.options.minimumFileSize ≤ fileSize then
        [⟨(env.fs.locate path).toOption, identity, fileSize⟩]
      else []
  | _ => []

/-- The directory an input path names. -/
def inputRoots (path : Bytes) : List Identity :=
  match env.fs.statPath env.options.followSymlinks path with
  | .ok (.object (.directory identity)) => if env.fs.isPseudo identity then [] else [identity]
  | _ => []

/-- The device of the first directory among the inputs. -/
def rootDeviceOf (paths : List Bytes) : Option Nat :=
  (paths.flatMap (inputRoots env)).head?.map Identity.deviceId

theorem rootDeviceOf_append (front back : List Bytes) :
    rootDeviceOf env (front ++ back) = (rootDeviceOf env front).or (rootDeviceOf env back) := by
  simp only [rootDeviceOf, List.flatMap_append, List.head?_append]
  cases (front.flatMap (inputRoots env)).head? <;> rfl

/-- Paths before the first directory do not matter for the device, and behind
it none does. -/
theorem rootDeviceOf_front {front back : List Bytes} {known rootDeviceId : Option Nat}
    (h : known.or (rootDeviceOf env (front ++ back)) = rootDeviceId) :
    (known.or (rootDeviceOf env front) = rootDeviceId ∨ front.flatMap (inputRoots env) = []) ∧
      (known.or (rootDeviceOf env front)).or (rootDeviceOf env back) = rootDeviceId := by
  rw [rootDeviceOf_append, ← Option.or_assoc] at h
  refine ⟨?_, h⟩
  cases hroots : front.flatMap (inputRoots env) with
  | nil => exact Or.inr rfl
  | cons root roots =>
      refine Or.inl (Eq.trans ?_ h)
      rw [rootDeviceOf, hroots]
      cases known <;> rfl

theorem rootDeviceOf_split (front back : List Bytes) {known rootDeviceId : Option Nat}
    (h : known.or (rootDeviceOf env (front ++ back)) = rootDeviceId ∨
      (front ++ back).flatMap (inputRoots env) = []) :
    (known.or (rootDeviceOf env front) = rootDeviceId ∨ front.flatMap (inputRoots env) = []) ∧
      ((known.or (rootDeviceOf env front)).or (rootDeviceOf env back) = rootDeviceId ∨
        back.flatMap (inputRoots env) = []) := by
  rcases h with h | h
  · obtain ⟨hfront, hback⟩ := rootDeviceOf_front env h
    exact ⟨hfront, Or.inl hback⟩
  · rw [List.flatMap_append, List.append_eq_nil_iff] at h
    exact ⟨Or.inr h.1, Or.inr h.2⟩

/-- The paths the serial walk processes for an input. -/
def serialPaths (inputPath : Bytes) : List Bytes :=
  if globContainsMetacharacter inputPath then
    match env.glob inputPath with
    | none => []
    | some matched =>
        if matched = [inputPath] ∧ globContainsMetacharacter inputPath then [] else matched
  else [inputPath]

/-- The paths the parallel walk processes for an input. -/
def parallelPaths (inputPath : Bytes) : List Bytes :=
  if globContainsMetacharacter inputPath then (env.glob inputPath).getD [] else [inputPath]

/-- The errors the serial expansion of an input reports itself. -/
def serialGlobErrors (inputPath : Bytes) : List DiscoveryError :=
  if globContainsMetacharacter inputPath then
    match env.glob inputPath with
    | none => [⟨inputPath, "glob", .EINVAL⟩]
    | some matched =>
        if matched = [inputPath] ∧ globContainsMetacharacter inputPath then
          [⟨inputPath, "glob-no-match", .ENOENT⟩]
        else []
  else []

/-- The errors the parallel expansion of an input reports itself. -/
def parallelGlobErrors (inputPath : Bytes) : List DiscoveryError :=
  if globContainsMetacharacter inputPath ∧ env.glob inputPath = none then
    [⟨inputPath, "glob", .EINVAL⟩]
  else []

theorem flatMap_paths_of_literal {inputs : List Bytes}
    (h : ∀ input ∈ inputs, globContainsMetacharacter input = false) :
    inputs.flatMap (serialPaths env) = inputs ∧ inputs.flatMap (parallelPaths env) = inputs := by
  induction inputs with
  | nil => exact ⟨rfl, rfl⟩
  | cons input inputs ih =>
      obtain ⟨hserial, hparallel⟩ := ih fun other hother => h other (List.mem_cons_of_mem _ hother)
      have hinput := h input List.mem_cons_self
      rw [List.flatMap_cons, List.flatMap_cons, hserial, hparallel, serialPaths, parallelPaths,
        hinput]
      exact ⟨rfl, rfl⟩

/-! ## finiteness -/

variable {env}

theorem considers_of_dotEntry {name : Bytes} (hdots : isDotEntry name = true) :
    considers env name = false := by
  rw [considers, hdots]
  rfl

/-- Of the names that are no dot entries only the hidden ones are passed over. -/
theorem considers_of_hidden {name : Bytes}
    (hhidden : env.options.includeHidden = false ∧ name.head? = some 46) :
    considers env name = false := by
  simp [considers, hhidden.1, hhidden.2]

theorem considers_of_shown {name : Bytes} (hdots : isDotEntry name = false)
    (hshown : ¬(env.options.includeHidden = false ∧ name.head? = some 46)) :
    considers env name = true := by
  rw [considers, hdots]
  cases hinclude : env.options.includeHidden with
  | true => rfl
  | false => simpa using fun hhead => hshown ⟨hinclude, hhead⟩

theorem mem_childrenAt_iff_stays {rootDeviceId : Option Nat} {directory child : Identity}
    {name : Bytes} :
    child ∈ childrenAt env rootDeviceId directory name ↔ considers env name = true ∧
      (env.fs.link directory name).stat env.options.followSymlinks =
        .ok (.object (.directory child)) ∧
      filterAcceptsDirectory env.fnmatch env.filter name = true ∧
      staysOnDevice env rootDeviceId child = true := by
  unfold childrenAt
  by_cases hconsiders : considers env name = true
  · rw [if_pos hconsiders, and_iff_right hconsiders]
    split
    · next found hstat =>
      rw [hstat]
      constructor
      · intro hchild
        split at hchild
        · next haccepts =>
          rw [List.mem_singleton.mp hchild]
          exact ⟨rfl, haccepts⟩
        · cases hchild
      · rintro ⟨hsame, haccepts⟩
        cases hsame
        rw [if_pos haccepts]
        exact List.mem_singleton_self _
    · next hother =>
      exact ⟨fun h => absurd h List.not_mem_nil, fun h => absurd h.1 (hother child)⟩
  · rw [if_neg hconsiders]
    exact ⟨fun h => absurd h List.not_mem_nil, fun h => absurd h.1 hconsiders⟩

theorem childrenAt_mem {rootDeviceId : Option Nat} {directory child : Identity} {name : Bytes}
    (hdirectory : directory ∈ env.fs.directories)
    (h : child ∈ childrenAt env rootDeviceId directory name) : child ∈ env.fs.directories := by
  obtain ⟨_, hstat, _⟩ := mem_childrenAt_iff_stays.mp h
  exact env.fs.link_mem _ hdirectory _ _ (Link.stat_follow hstat)

theorem childrenOf_mem {rootDeviceId : Option Nat} {directory child : Identity}
    (hdirectory : directory ∈ env.fs.directories)
    (h : child ∈ childrenOf env rootDeviceId directory) : child ∈ env.fs.directories := by
  unfold childrenOf at h
  split at h
  · obtain ⟨name, _, hchild⟩ := List.mem_flatMap.mp h
    exact childrenAt_mem hdirectory hchild
  · cases h

theorem inputRoots_mem {path : Bytes} {root : Identity} (h : root ∈ inputRoots env path) :
    path ≠ [] ∧ env.fs.resolveDirectory path = .ok root ∧ root ∈ env.fs.directories ∧
      env.fs.isPseudo root = false := by
  unfold inputRoots at h
  split at h
  · next identity hstat =>
    split at h
    · cases h
    · next hpseudo =>
      rw [List.mem_singleton.mp h]
      obtain ⟨hpath, hresolve⟩ := env.fs.resolveDirectory_of_statPath hstat
      exact ⟨hpath, hresolve, env.fs.resolveDirectory_mem hresolve, eq_false_of_ne_true hpseudo⟩
  · cases h

/-- A file of a directory is at one of its names. -/
theorem place_of_mem_filesAt {directory : Identity} {name : Bytes} {file : FoundFile}
    (h : file ∈ filesAt env directory name) : file.place = some (.entry directory name) := by
  unfold filesAt at h
  split at h
  · split at h
    · split at h
      · rw [List.mem_singleton.mp h]
      · cases h
    · cases h
  · cases h

theorem place_of_mem_filesOf {directory : Identity} {file : FoundFile}
    (h : file ∈ filesOf env directory) :
    ∃ name ∈ env.fs.listing directory, file ∈ filesAt env directory name ∧
      file.place = some (.entry directory name) := by
  unfold filesOf at h
  split at h
  · obtain ⟨name, hname, hfile⟩ := List.mem_flatMap.mp h
    exact ⟨name, hname, hfile, place_of_mem_filesAt hfile⟩
  · cases h

theorem mem_filesAt_iff {directory : Identity} {name : Bytes} {file : FoundFile} :
    file ∈ filesAt env directory name ↔ considers env name = true ∧
      (env.fs.link directory name).stat env.options.followSymlinks =
        .ok (.object (.regular file.identity file.fileSize)) ∧
      filterAcceptsFile env.fnmatch env.filter name = true ∧
      env.options.minimumFileSize ≤ file.fileSize ∧ file.place = some (.entry directory name) := by
  unfold filesAt
  by_cases hconsiders : considers env name = true
  · rw [if_pos hconsiders, and_iff_right hconsiders]
    split
    · next identity fileSize hstat =>
      rw [hstat]
      constructor
      · intro hfile
        split at hfile
        · next haccepts =>
          rw [List.mem_singleton.mp hfile]
          exact ⟨rfl, haccepts.1, haccepts.2, rfl⟩
        · cases hfile
      · rintro ⟨hsame, haccepts, hsize, hplace⟩
        cases file
        cases hsame
        rw [if_pos ⟨haccepts, hsize⟩, List.mem_singleton, ← hplace]
    · next hother =>
      refine ⟨fun hfile => absurd hfile List.not_mem_nil, fun hfile => absurd hfile.1 ?_⟩
      exact hother file.identity file.fileSize
  · rw [if_neg hconsiders]
    exact ⟨fun hfile => absurd hfile List.not_mem_nil, fun hfile => absurd hfile.1 hconsiders⟩

theorem nodup_places_filesAt (directory : Identity) (name : Bytes) :
    ((filesAt env directory name).map FoundFile.place).Nodup := by
  unfold filesAt
  split
  · split
    · split
      · exact List.nodup_singleton _
      · exact List.nodup_nil
    · exact List.nodup_nil
  · exact List.nodup_nil

theorem nodup_places_filesOf (directory : Identity) :
    ((filesOf env directory).map FoundFile.place).Nodup := by
  unfold filesOf
  split
  · rw [List.map_flatMap, List.nodup_flatMap]
    refine ⟨fun name _ => nodup_places_filesAt directory name, ?_⟩
    refine (env.fs.nodup_listing directory).imp fun hne place hplace hplace' => hne ?_
    obtain ⟨file, hfile, rfl⟩ := List.mem_map.mp hplace
    obtain ⟨file', hfile', hsame⟩ := List.mem_map.mp hplace'
    rw [place_of_mem_filesAt hfile, place_of_mem_filesAt hfile'] at hsame
    cases hsame
    rfl
  · exact List.nodup_nil

/-- Directories do not share a place. -/
theorem eq_of_place_eq {directory directory' : Identity} {file file' : FoundFile}
    (h : file ∈ filesOf env directory) (h' : file' ∈ filesOf env directory')
    (hplace : file.place = file'.place) : directory = directory' := by
  obtain ⟨_, _, _, hat⟩ := place_of_mem_filesOf h
  obtain ⟨_, _, _, hat'⟩ := place_of_mem_filesOf h'
  rw [hat, hat'] at hplace
  cases hplace
  rfl

/-- **The files of different directories are at different places.** -/
theorem nodup_places {directories : List Identity} (hnodup : directories.Nodup) :
    ((directories.flatMap (filesOf env)).map FoundFile.place).Nodup := by
  rw [List.map_flatMap, List.nodup_flatMap]
  refine ⟨fun directory _ => nodup_places_filesOf directory, ?_⟩
  refine hnodup.imp fun hne place hplace hplace' => hne ?_
  obtain ⟨file, hfile, rfl⟩ := List.mem_map.mp hplace
  obtain ⟨file', hfile', hsame⟩ := List.mem_map.mp hplace'
  exact eq_of_place_eq hfile hfile' hsame.symm

/-- Only a directory with files that is listed twice repeats a place. -/
theorem nodup_places_iff {directories : List Identity} :
    ((directories.flatMap (filesOf env)).map FoundFile.place).Nodup ↔
      (directories.filter fun directory => !(filesOf env directory).isEmpty).Nodup := by
  have hempty : ∀ directory, (!(filesOf env directory).isEmpty) = false →
      filesOf env directory = [] := fun directory h => by simpa using h
  rw [← Overlap.flatMap_filter (filesOf env) _ hempty directories]
  refine ⟨fun h => ?_, nodup_places⟩
  rw [List.map_flatMap, List.nodup_flatMap] at h
  refine List.Pairwise.imp_of_mem ?_ h.2
  rintro directory other hmem _ hdisjoint rfl
  obtain ⟨file, files, hfiles⟩ := List.exists_cons_of_ne_nil (l := filesOf env directory)
    (by simpa using (List.mem_filter.mp hmem).2)
  have hplace : file.place ∈ (filesOf env directory).map FoundFile.place :=
    List.mem_map_of_mem (by rw [hfiles]; exact List.mem_cons_self)
  exact hdisjoint hplace hplace

end Tree

end BcDuplicate
