import BcDuplicate.Discovery.Agreement

/-!
# BcDuplicate.Discovery.Exact

What the serial walk reports on input directories, said without the search:
it enters the directories below the inputs, each once, and reports each file
in them once, in whatever order `readdir` lists them
(`discoveryExpand_exact`).
-/

namespace BcDuplicate

open FileSystem
open Search

/-! ## the specification -/

section Specification

variable (env : DiscoveryEnvironment)

/-- The walk enters the directory: it is an input, or accepted in a directory
the walk enters, and on no pseudo file system. -/
inductive EntersDirectory (inputs : List Bytes) : Identity → Prop
  | input {path : Bytes} {root : Identity} (hinput : path ∈ inputs)
      (hstat : env.fs.statPath env.options.followSymlinks path =
        .ok (.object (.directory root)))
      (hpseudo : env.fs.isPseudo root = false) : EntersDirectory inputs root
  | child {parent child : Identity} {name : Bytes} (hparent : EntersDirectory inputs parent)
      (hname : name ∈ env.fs.listing parent) (hconsiders : considers env name = true)
      (hstat : (env.fs.link parent name).stat env.options.followSymlinks =
        .ok (.object (.directory child)))
      (haccepts : filterAcceptsDirectory env.fnmatch env.filter name = true)
      (hpseudo : env.fs.isPseudo child = false) : EntersDirectory inputs child

/-- The file at a name of a directory is to be reported. -/
structure ReportsFile (directory : Identity) (name : Bytes) (file : FoundFile) : Prop where
  listed : name ∈ env.fs.listing directory
  considered : considers env name = true
  regular : (env.fs.link directory name).stat env.options.followSymlinks =
    .ok (.object (.regular file.identity file.fileSize))
  accepted : filterAcceptsFile env.fnmatch env.filter name = true
  large : env.options.minimumFileSize ≤ file.fileSize
  place : file.place = some (.entry directory name)

/-- Every directory can be opened and listed to its end. -/
structure FileSystem.ErrorFree (fs : FileSystem) : Prop where
  opens : ∀ directory, fs.openError directory = none
  dups : ∀ directory, fs.dupError directory = none
  fdopendirs : ∀ directory, fs.fdopendirError directory = none
  readdirs : ∀ directory, fs.readdirError directory = none

/-- The input is a path without metacharacters that leads to a directory. -/
def IsDirectoryInput (input : Bytes) : Prop :=
  globContainsMetacharacter input = false ∧ ∃ root,
    env.fs.statPath env.options.followSymlinks input = .ok (.object (.directory root))

end Specification

/-- The same tree, its directories listed in another order. -/
def FileSystem.reordered (fs : FileSystem) (listing : Identity → List Bytes)
    (h : ∀ directory, (listing directory).Perm (fs.listing directory)) : FileSystem :=
  { fs with
    listing := listing
    nodup_listing := fun directory => (h directory).nodup_iff.mpr (fs.nodup_listing directory)
    proper_listing := fun directory name hname =>
      fs.proper_listing directory name ((h directory).mem_iff.mp hname) }

/-! ## the walk meets it -/

section Exact

variable {env : DiscoveryEnvironment}

theorem listable_of_errorFree (herrors : env.fs.ErrorFree) (directory : Identity) :
    listable env directory = true ↔ env.fs.isPseudo directory = false := by
  rw [listable_iff, canList, herrors.opens, herrors.dups, herrors.fdopendirs]
  simp

theorem mem_childrenAt_iff (hdevices : env.options.oneFileSystem = false)
    {rootDeviceId : Option Nat} {parent child : Identity} {name : Bytes} :
    child ∈ childrenAt env rootDeviceId parent name ↔ considers env name = true ∧
      (env.fs.link parent name).stat env.options.followSymlinks =
        .ok (.object (.directory child)) ∧
      filterAcceptsDirectory env.fnmatch env.filter name = true := by
  have hstays : staysOnDevice env rootDeviceId child = true := by
    rw [staysOnDevice, hdevices]
    rfl
  rw [mem_childrenAt_iff_stays, and_iff_left hstays]

/-- **The directories entered are those the search reaches**, without the
pseudo file systems. -/
theorem entersDirectory_iff (herrors : env.fs.ErrorFree)
    (hdevices : env.options.oneFileSystem = false) {rootDeviceId : Option Nat}
    {inputs : List Bytes} {directory : Identity} :
    EntersDirectory env inputs directory ↔
      Reached (childrenOf env rootDeviceId) (inputs.flatMap (inputRoots env)) directory ∧
        env.fs.isPseudo directory = false := by
  constructor
  · intro h
    induction h with
    | @input path root hinput hstat hpseudo =>
        refine ⟨⟨root, List.mem_flatMap.mpr ⟨path, hinput, ?_⟩, .refl⟩, hpseudo⟩
        simp [inputRoots, hstat, hpseudo]
    | @child parent child name hparent hname hconsiders hstat haccepts hpseudo ih =>
        obtain ⟨⟨root, hroot, hpath⟩, hnot⟩ := ih
        refine ⟨⟨root, hroot, hpath.tail ?_⟩, hpseudo⟩
        rw [Edge, childrenOf, if_pos ((listable_of_errorFree herrors parent).mpr hnot)]
        exact List.mem_flatMap.mpr ⟨name, hname,
          (mem_childrenAt_iff hdevices).mpr ⟨hconsiders, hstat, haccepts⟩⟩
  · rintro ⟨⟨root, hroot, hpath⟩, hnot⟩
    induction hpath with
    | refl =>
        obtain ⟨path, hinput, hmem⟩ := List.mem_flatMap.mp hroot
        unfold inputRoots at hmem
        split at hmem
        · next identity hstat =>
          split at hmem
          · cases hmem
          · rw [List.mem_singleton.mp hmem] at hnot ⊢
            exact .input hinput hstat hnot
        · cases hmem
    | @tail parent child _ hstep ih =>
        rw [Edge, childrenOf] at hstep
        split at hstep
        · next hlist =>
          obtain ⟨name, hname, hchild⟩ := List.mem_flatMap.mp hstep
          obtain ⟨hconsiders, hstat, haccepts⟩ := (mem_childrenAt_iff hdevices).mp hchild
          exact .child (ih ((listable_of_errorFree herrors parent).mp hlist)) hname hconsiders
            hstat haccepts hnot
        · cases hstep

theorem inputFiles_of_directory {input : Bytes} (h : IsDirectoryInput env input) :
    inputFiles env input = [] := by
  obtain ⟨_, root, hstat⟩ := h
  rw [inputFiles, hstat]

/-- The files found below input directories, and the directories opened. -/
theorem exists_exact (hquiet : env.Undisturbed) (herrors : env.fs.ErrorFree)
    (hdevices : env.options.oneFileSystem = false) {inputs : List Bytes}
    (hinputs : ∀ input ∈ inputs, IsDirectoryInput env input) :
    ∃ s, walkInputs env (env.fs.directories.card + 1) inputs
        { WalkState.initial with requests := 1 } = some s ∧
      s.openedDirectories.Nodup ∧
      (∀ directory, directory ∈ s.openedDirectories ↔ EntersDirectory env inputs directory) ∧
      ((foundFiles env.fs s.entries).map FoundFile.place).Nodup ∧
      ∀ file, file ∈ foundFiles env.fs s.entries ↔ ∃ directory name,
        EntersDirectory env inputs directory ∧ ReportsFile env directory name file := by
  obtain ⟨s, visited, hdone, hexplores, hfound, hopened⟩ :=
    exists_walkInputs hquiet (Nat.lt_succ_self _) inputs
  have hliteral := (flatMap_paths_of_literal env fun input hinput => (hinputs input hinput).1).1
  rw [hliteral] at hexplores hfound
  have hnone : inputs.flatMap (inputFiles env) = [] := List.flatMap_eq_nil_iff.mpr
    fun input hinput => inputFiles_of_directory (hinputs input hinput)
  rw [hnone, List.nil_append] at hfound
  have hnodup := hexplores.nodup_visited
  have henters : ∀ directory, EntersDirectory env inputs directory ↔
      directory ∈ visited ∧ env.fs.isPseudo directory = false := fun directory => by
    rw [entersDirectory_iff herrors hdevices, hexplores.mem_iff]
  refine ⟨s, hdone, hopened.nodup_iff.mpr (hnodup.filter _), fun directory => ?_,
    (hfound.map _).nodup_iff.mpr (nodup_places hnodup), fun file => ?_⟩
  · rw [hopened.mem_iff, List.mem_filter, henters, opens, herrors.opens]
    simp
  · rw [hfound.mem_iff, List.mem_flatMap]
    constructor
    · rintro ⟨directory, hvisited, hfile⟩
      rw [filesOf] at hfile
      split at hfile
      · next hlist =>
        obtain ⟨name, hname, hat⟩ := List.mem_flatMap.mp hfile
        obtain ⟨hconsiders, hstat, haccepts, hsize, hplace⟩ := mem_filesAt_iff.mp hat
        exact ⟨directory, name, (henters directory).mpr
          ⟨hvisited, (listable_of_errorFree herrors directory).mp hlist⟩,
          ⟨hname, hconsiders, hstat, haccepts, hsize, hplace⟩⟩
      · cases hfile
    · rintro ⟨directory, name, henter, hreports⟩
      obtain ⟨hvisited, hnot⟩ := (henters directory).mp henter
      refine ⟨directory, hvisited, ?_⟩
      rw [filesOf, if_pos ((listable_of_errorFree herrors directory).mpr hnot)]
      exact List.mem_flatMap.mpr ⟨name, hreports.listed, mem_filesAt_iff.mpr
        ⟨hreports.considered, hreports.regular, hreports.accepted, hreports.large,
          hreports.place⟩⟩

/-- What is entered does not depend on the order of the listings. -/
theorem entersDirectory_reordered {inputs : List Bytes} {listing : Identity → List Bytes}
    (h : ∀ directory, (listing directory).Perm (env.fs.listing directory)) {directory : Identity} :
    EntersDirectory { env with fs := env.fs.reordered listing h } inputs directory ↔
      EntersDirectory env inputs directory := by
  constructor
  · intro henters
    induction henters with
    | input hinput hstat hpseudo => exact .input hinput hstat hpseudo
    | child _ hname hconsiders hstat haccepts hpseudo ih =>
        exact .child ih ((h _).mem_iff.mp hname) hconsiders hstat haccepts hpseudo
  · intro henters
    induction henters with
    | input hinput hstat hpseudo => exact .input hinput hstat hpseudo
    | child _ hname hconsiders hstat haccepts hpseudo ih =>
        exact .child ih ((h _).mem_iff.mpr hname) hconsiders hstat haccepts hpseudo

end Exact

/-- **The serial walk is exact.**  On input directories, undisturbed and
without errors, it terminates, opens each directory below the inputs exactly
once, and reports each of their files exactly once; the files do not depend on
the order in which the directories are listed. -/
theorem discoveryExpand_exact (env : DiscoveryEnvironment) (hquiet : env.Undisturbed)
    (herrors : env.fs.ErrorFree) (hdevices : env.options.oneFileSystem = false)
    (inputs : List Bytes) (hinputs : ∀ input ∈ inputs, IsDirectoryInput env input) :
    ∃ s, walkInputs env (env.fs.directories.card + 1) inputs
        { WalkState.initial with requests := 1 } = some s ∧
      discoveryExpand env (env.fs.directories.card + 1) inputs =
        some ⟨true, s.entries, s.errors, []⟩ ∧
      s.openedDirectories.Nodup ∧
      (∀ directory, directory ∈ s.openedDirectories ↔ EntersDirectory env inputs directory) ∧
      ((foundFiles env.fs s.entries).map FoundFile.place).Nodup ∧
      (∀ file, file ∈ foundFiles env.fs s.entries ↔ ∃ directory name,
        EntersDirectory env inputs directory ∧ ReportsFile env directory name file) ∧
      ∀ (listing : Identity → List Bytes)
        (h : ∀ directory, (listing directory).Perm (env.fs.listing directory)),
        ∃ result, discoveryExpand { env with fs := env.fs.reordered listing h }
            (env.fs.directories.card + 1) inputs = some result ∧
          (foundFiles env.fs result.entries).Perm (foundFiles env.fs s.entries) := by
  obtain ⟨s, hdone, hopened, henters, hplaces, hfiles⟩ :=
    exists_exact hquiet herrors hdevices hinputs
  refine ⟨s, hdone, ?_, hopened, henters, hplaces, hfiles, ?_⟩
  · rw [discoveryExpand, hquiet.allocates, if_neg Bool.noConfusion, hdone]
    rfl
  · intro listing h
    obtain ⟨s', hdone', _, _, hplaces', hfiles'⟩ :=
      @exists_exact { env with fs := env.fs.reordered listing h }
        ⟨hquiet.shouldStop, hquiet.allocates, hquiet.pathJoin⟩
        ⟨herrors.opens, herrors.dups, herrors.fdopendirs, herrors.readdirs⟩ hdevices inputs hinputs
    refine ⟨⟨true, s'.entries, s'.errors, []⟩, ?_, ?_⟩
    · rw [discoveryExpand, hquiet.allocates, if_neg Bool.noConfusion]
      exact congrArg (Option.map fun s : WalkState =>
        (⟨true, s.entries, s.errors, []⟩ : DiscoveryResult)) hdone'
    · refine (List.perm_ext_iff_of_nodup hplaces'.of_map hplaces.of_map).mpr fun file => ?_
      refine (hfiles' file).trans (Iff.trans ?_ (hfiles file).symm)
      refine exists_congr fun directory => exists_congr fun name => ?_
      rw [entersDirectory_reordered]
      refine and_congr_right fun _ => ⟨fun hreports => ?_, fun hreports => ?_⟩
      · exact ⟨(h _).mem_iff.mp hreports.listed, hreports.considered, hreports.regular,
          hreports.accepted, hreports.large, hreports.place⟩
      · exact ⟨(h _).mem_iff.mpr hreports.listed, hreports.considered, hreports.regular,
          hreports.accepted, hreports.large, hreports.place⟩

theorem discoveryExpand_exact_oneDirectory : ∃ s,
    walkInputs oneDirectory.run.toDiscoveryEnvironment
      (oneDirectory.fileSystem.directories.card + 1) [[100], [100]]
      { WalkState.initial with requests := 1 } = some s ∧ s.openedDirectories.Nodup := by
  obtain ⟨s, hdone, _, hopened, _⟩ := discoveryExpand_exact
    oneDirectory.run.toDiscoveryEnvironment ⟨fun _ => rfl, fun _ => rfl, fun _ _ => rfl⟩
    ⟨fun _ => rfl, fun _ => rfl, fun _ => rfl, fun _ => rfl⟩ rfl [[100], [100]] (by
      intro input hinput
      have heq : input = [100] := by simpa using hinput
      rw [heq]
      exact ⟨by decide, ⟨0, 2⟩, by decide⟩)
  exact ⟨s, hdone, hopened⟩

end BcDuplicate
