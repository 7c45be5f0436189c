import BcDuplicate.Discovery.Tree
import BcDuplicate.Discovery.WalkParallel

/-!
# BcDuplicate.Discovery.Parallel

What the parallel walk finds, given a library that walks (`Walks`): for each
directory among the inputs separately, the files of the directories reachable
from it, whichever worker visits which (`discoveryExpandParallel_found`).
-/

namespace BcDuplicate

open FileSystem
open Search

/-! ## what the library is relied on for -/

section Library

variable (fs : FileSystem) (config : WalkConfig) (directorySize : Identity → Nat)

/-- The directory can be opened and listed. -/
def FileSystem.canList (directory : Identity) : Bool :=
  (fs.openError directory).isNone && (fs.dupError directory).isNone &&
    (fs.fdopendirError directory).isNone

/-- Hidden names are visited on request, and dot entries never. -/
def WalkConfig.considers (name : Bytes) : Bool :=
  !isDotEntry name && (config.includeHidden || decide (name.head? ≠ some 46))

/-- The file at a name of a directory entered by `path`, if the filter
accepts it. -/
def WalkConfig.fileAt (directory : Identity) (path name : Bytes) : List WalkEntry :=
  if config.considers name then
    match (fs.link directory name).stat config.followSymlinks with
    | .ok (.object (.regular identity fileSize)) =>
        let entry : WalkEntry := ⟨joinPath path name, .file, fileSize, identity⟩
        if config.filter entry then [entry] else []
    | _ => []
  else []

/-- The directory at a name of a directory entered by `path`, if the filter
accepts it. -/
def WalkConfig.directoryAt (directory : Identity) (path name : Bytes) : List Identity :=
  if config.considers name then
    match (fs.link directory name).stat config.followSymlinks with
    | .ok (.object (.directory child)) =>
        if config.filter ⟨joinPath path name, .directory, directorySize child, child⟩ then [child]
        else []
    | _ => []
  else []

/-- The names of a directory, as far as it can be listed. -/
def FileSystem.names (directory : Identity) : List Bytes :=
  if fs.canList directory then fs.listing directory else []

/-- One walk entered the directories `entered`, each by a path: the root and
what the filter accepts below it, each identity once. -/
structure Entered (root : Identity) (entered : List (Identity × Bytes)) : Prop where
  nodup : (entered.map Prod.fst).Nodup
  root_mem : root ∈ entered.map Prod.fst
  resolves : ∀ at_ ∈ entered, at_.2 ≠ [] ∧ fs.resolveDirectory at_.2 = .ok at_.1
  closed : ∀ at_ ∈ entered, ∀ name ∈ fs.names at_.1,
    ∀ child ∈ config.directoryAt fs directorySize at_.1 at_.2 name, child ∈ entered.map Prod.fst
  reached : ∀ directory ∈ entered.map Prod.fst,
    Relation.ReflTransGen (fun a b => ∃ path, path ≠ [] ∧ fs.resolveDirectory path = .ok a ∧
      ∃ name ∈ fs.names a, b ∈ config.directoryAt fs directorySize a path name) root directory

/-- The file a callback visits. -/
def visitedFile (call : Nat × WalkCallback) : List WalkEntry :=
  match call.2 with
  | .visit entry => if entry.kind = .file then [entry] else []
  | .error _ _ _ => []

/-- `bc_io_walk_parallel` as it is relied on: it enters the directories
reachable from its root through directories its filter accepts, each once, and
visits their regular files the filter accepts, on workers there are. -/
def Walks (library : WalkLibrary) (workerCount : Nat) : Prop :=
  ∀ (walk : Nat) (config : WalkConfig) (root : Identity), config.root ≠ [] →
    fs.resolveDirectory config.root = .ok root →
    (∀ call ∈ library walk config, call.1 < workerCount) ∧
    ∃ directorySize entered, Entered fs config directorySize root entered ∧
      ((library walk config).flatMap visitedFile).Perm
        (entered.flatMap fun at_ => (fs.names at_.1).flatMap (config.fileAt fs at_.1 at_.2))

end Library

/-- A parallel run that no signal, no exhausted pool and no over-long path
disturbs, over a library that walks. -/
structure ParallelEnvironment.Undisturbed (env : ParallelEnvironment) (paths : List Bytes) :
    Prop where
  base : env.toDiscoveryEnvironment.Undisturbed
  registers : env.registersSlot = true
  short : ∀ path ∈ paths, (trimTrailingSlashes path).length < env.maxPathLength
  walks : Walks env.fs env.library env.workerCount

/-! ## one walk -/

/-- The last component of a joined path is the name. -/
theorem walkBasename_joinPath (path : Bytes) {name : Bytes} (h : ProperName name) :
    walkBasename (joinPath path name) = name := by
  obtain ⟨front, _, hjoin, _⟩ := @joinPath_eq path name
  have hall : ∀ b ∈ name.reverse, decide (b ≠ slash) = true := fun b hb =>
    decide_eq_true fun heq => h.2 (heq ▸ List.mem_reverse.mp hb)
  rw [walkBasename, hjoin, List.reverse_append, List.reverse_cons, List.append_assoc,
    List.takeWhile_append_of_pos hall]
  simp

theorem walkFilter_file (env : ParallelEnvironment) (rootDeviceId : Option Nat) (path : Bytes)
    (fileSize : Nat) (identity : Identity) :
    walkFilter env rootDeviceId ⟨path, .file, fileSize, identity⟩ =
      (filterAcceptsFile env.fnmatch env.filter (walkBasename path) &&
        decide (env.options.minimumFileSize ≤ fileSize)) := by
  unfold walkFilter
  cases filterAcceptsFile env.fnmatch env.filter (walkBasename path) with
  | false => rfl
  | true =>
      by_cases hsize : fileSize < env.options.minimumFileSize
      · simp [hsize, Nat.not_le_of_lt hsize]
      · simp [hsize, Nat.le_of_not_lt hsize]

theorem walkFilter_directory (env : ParallelEnvironment) (rootDeviceId : Option Nat) {path : Bytes}
    (directorySize : Nat) {identity : Identity}
    (hresolve : env.fs.resolveDirectory path = .ok identity) :
    walkFilter env rootDeviceId ⟨path, .directory, directorySize, identity⟩ =
      (filterAcceptsDirectory env.fnmatch env.filter (walkBasename path) &&
        !env.fs.isPseudo identity &&
          staysOnDevice env.toDiscoveryEnvironment rootDeviceId identity) := by
  have hdevice : (env.options.oneFileSystem = true ∧
      rootDeviceId.any (identity.deviceId ≠ ·) = true) ↔
        staysOnDevice env.toDiscoveryEnvironment rootDeviceId identity = false := by
    rw [staysOnDevice, Bool.not_eq_false', Bool.and_eq_true]
  unfold walkFilter
  simp only [pathIsPseudoFilesystem_iff hresolve, hdevice]
  cases filterAcceptsDirectory env.fnmatch env.filter (walkBasename path) <;>
    cases env.fs.isPseudo identity <;>
      cases staysOnDevice env.toDiscoveryEnvironment rootDeviceId identity <;> rfl

section OneWalk

variable {env : ParallelEnvironment} {rootDeviceId : Option Nat} {directory : Identity}
  {path name root : Bytes}

/-- What visiting an entry finds. -/
def WalkEntry.foundFile (fs : FileSystem) (entry : WalkEntry) : FoundFile :=
  ⟨(fs.locate entry.absolutePath).toOption, entry.identity, entry.fileSize⟩

theorem considers_walkConfig (env : ParallelEnvironment) (rootDeviceId : Option Nat)
    (root name : Bytes) : (walkConfig env rootDeviceId root).considers name =
      considers env.toDiscoveryEnvironment name := rfl

/-- A name that is considered is no dot entry. -/
theorem not_dotEntry_of_considers {env : DiscoveryEnvironment}
    (h : considers env name = true) : name ≠ dot ∧ name ≠ dotDot := by
  rw [considers, Bool.and_eq_true, Bool.not_eq_true', isDotEntry] at h
  exact not_or.mp (of_decide_eq_false h.1)

/-- The files the filter of the application accepts are the files of the tree. -/
theorem foundFile_fileAt (hpath : path ≠ [])
    (hresolve : env.fs.resolveDirectory path = .ok directory) (hproper : ProperName name) :
    ((walkConfig env rootDeviceId root).fileAt env.fs directory path name).map
        (WalkEntry.foundFile env.fs) =
      filesAt env.toDiscoveryEnvironment directory name := by
  unfold WalkConfig.fileAt filesAt
  rw [considers_walkConfig]
  by_cases hconsiders : considers env.toDiscoveryEnvironment name = true
  · rw [if_pos hconsiders, if_pos hconsiders]
    obtain ⟨hdot, hdotDot⟩ := not_dotEntry_of_considers hconsiders
    rw [walkConfig]
    cases (env.fs.link directory name).stat env.options.followSymlinks with
    | error errno => rfl
    | ok status =>
        match status with
        | .symbolicLink => rfl
        | .object .other => rfl
        | .object (.directory _) => rfl
        | .object (.regular identity fileSize) =>
            dsimp only
            simp only [walkFilter_file, walkBasename_joinPath path hproper, Bool.and_eq_true,
              decide_eq_true_eq]
            split
            · rw [List.map_singleton, WalkEntry.foundFile,
                env.fs.locate_joinPath hpath hresolve hproper hdot hdotDot]
              rfl
            · rfl
  · rw [if_neg hconsiders, if_neg hconsiders]
    rfl

/-- The directories the filter of the application accepts are those of the
tree, without the pseudo file systems. -/
theorem mem_directoryAt_iff {directorySize : Identity → Nat} (hpath : path ≠ [])
    (hresolve : env.fs.resolveDirectory path = .ok directory) (hproper : ProperName name)
    {child : Identity} :
    child ∈ (walkConfig env rootDeviceId root).directoryAt env.fs directorySize directory path name ↔
      child ∈ childrenAt env.toDiscoveryEnvironment rootDeviceId directory name ∧
        env.fs.isPseudo child = false := by
  unfold WalkConfig.directoryAt childrenAt
  rw [considers_walkConfig]
  by_cases hconsiders : considers env.toDiscoveryEnvironment name = true
  · rw [if_pos hconsiders, if_pos hconsiders]
    obtain ⟨hdot, hdotDot⟩ := not_dotEntry_of_considers hconsiders
    rw [walkConfig]
    cases hstat : (env.fs.link directory name).stat env.options.followSymlinks with
    | error errno => simp
    | ok status =>
        match status, hstat with
        | .symbolicLink, _ => simp
        | .object .other, _ => simp
        | .object (.regular _ _), _ => simp
        | .object (.directory found), hstat =>
            have hchild := env.fs.resolveDirectory_joinPath hpath hresolve hproper hdot hdotDot
              (Link.stat_follow hstat)
            dsimp only
            simp only [walkFilter_directory env rootDeviceId _ hchild,
              walkBasename_joinPath path hproper]
            cases filterAcceptsDirectory env.fnmatch env.filter name <;>
              cases hpseudo : env.fs.isPseudo found <;>
                cases staysOnDevice env.toDiscoveryEnvironment rootDeviceId found <;>
                  simp <;> (rintro rfl; exact hpseudo)
  · rw [if_neg hconsiders, if_neg hconsiders]
    simp

end OneWalk

/-- The directories one walk lists, as the tree has them. -/
def WalkedFrom (env : DiscoveryEnvironment) (rootDeviceId : Option Nat) (root : Identity)
    (entered : List Identity) : Prop :=
  entered.Nodup ∧ ∀ directory, directory ∈ entered ↔
    Reached (childrenOf env rootDeviceId) [root] directory ∧ env.fs.isPseudo directory = false

section Entered

variable {env : ParallelEnvironment} {rootDeviceId : Option Nat}
  {directorySize : Identity → Nat} {path : Bytes} {root : Identity}
  {entered : List (Identity × Bytes)}

theorem listable_iff (env : DiscoveryEnvironment) (directory : Identity) :
    listable env directory = true ↔
      env.fs.isPseudo directory = false ∧ env.fs.canList directory = true := by
  simp [listable, canList, and_assoc]

/-- **One walk enters what can be reached from its root.** -/
theorem Entered.walkedFrom (hentered : Entered env.fs (walkConfig env rootDeviceId path)
    directorySize root entered) (hpseudo : env.fs.isPseudo root = false) :
    WalkedFrom env.toDiscoveryEnvironment rootDeviceId root (entered.map Prod.fst) := by
  have hedge : ∀ {a b : Identity} {through : Bytes}, through ≠ [] →
      env.fs.resolveDirectory through = .ok a → env.fs.isPseudo a = false →
      ((∃ name ∈ env.fs.names a,
        b ∈ (walkConfig env rootDeviceId path).directoryAt env.fs directorySize a through name) ↔
      b ∈ childrenOf env.toDiscoveryEnvironment rootDeviceId a ∧ env.fs.isPseudo b = false) := by
    intro a b through hthrough hresolve ha
    unfold childrenOf names
    by_cases hlist : env.fs.canList a = true
    · rw [if_pos hlist, if_pos ((listable_iff _ _).mpr ⟨ha, hlist⟩), List.mem_flatMap]
      constructor
      · rintro ⟨name, hname, hb⟩
        rw [mem_directoryAt_iff hthrough hresolve (env.fs.proper_listing a name hname)] at hb
        exact ⟨⟨name, hname, hb.1⟩, hb.2⟩
      · rintro ⟨⟨name, hname, hb⟩, hnot⟩
        exact ⟨name, hname, (mem_directoryAt_iff hthrough hresolve
          (env.fs.proper_listing a name hname)).mpr ⟨hb, hnot⟩⟩
    · rw [if_neg hlist, if_neg fun hboth => hlist ((listable_iff _ _).mp hboth).2]
      simp
  refine ⟨hentered.nodup, fun directory => ⟨fun hmem => ?_, ?_⟩⟩
  · -- along the walk, from the root
    have hpath := hentered.reached directory hmem
    clear hmem
    induction hpath with
    | refl => exact ⟨⟨root, List.mem_singleton_self root, .refl⟩, hpseudo⟩
    | tail _ hstep ih =>
        obtain ⟨through, hthrough, hresolve, hb⟩ := hstep
        obtain ⟨⟨start, hstart, hbefore⟩, hnot⟩ := ih
        obtain ⟨hchild, hb'⟩ := (hedge hthrough hresolve hnot).mp hb
        exact ⟨⟨start, hstart, hbefore.tail hchild⟩, hb'⟩
  · rintro ⟨⟨start, hstart, hpath⟩, hnot⟩
    rw [List.mem_singleton.mp hstart] at hpath
    induction hpath with
    | refl => exact hentered.root_mem
    | @tail a b _ hstep ih =>
        have ha : env.fs.isPseudo a = false := by
          by_contra hcontra
          have hlist : ¬listable env.toDiscoveryEnvironment a = true := fun h =>
            hcontra ((listable_iff _ _).mp h).1
          rw [Edge, childrenOf, if_neg hlist] at hstep
          cases hstep
        obtain ⟨at_, hat, rfl⟩ := List.mem_map.mp (ih ha)
        obtain ⟨hthrough, hresolve⟩ := hentered.resolves at_ hat
        obtain ⟨name, hname, hb⟩ := (hedge hthrough hresolve ha).mpr ⟨hstep, hnot⟩
        exact hentered.closed at_ hat name hname b hb

/-- The files one walk visits are the files of the directories it enters. -/
theorem Entered.foundFiles (hentered : Entered env.fs (walkConfig env rootDeviceId path)
    directorySize root entered) (hpseudo : env.fs.isPseudo root = false) :
    (entered.flatMap fun at_ => (env.fs.names at_.1).flatMap
        ((walkConfig env rootDeviceId path).fileAt env.fs at_.1 at_.2)).map
          (WalkEntry.foundFile env.fs) =
      (entered.map Prod.fst).flatMap (filesOf env.toDiscoveryEnvironment) := by
  have hnot : ∀ at_ ∈ entered, env.fs.isPseudo at_.1 = false := fun at_ hat =>
    ((hentered.walkedFrom hpseudo).2 at_.1 |>.mp (List.mem_map_of_mem hat)).2
  rw [List.map_flatMap, List.flatMap_map]
  refine List.flatMap_congr fun at_ hat => ?_
  obtain ⟨hthrough, hresolve⟩ := hentered.resolves at_ hat
  unfold names filesOf
  by_cases hlist : env.fs.canList at_.1 = true
  · rw [if_pos hlist, if_pos ((listable_iff _ _).mpr ⟨hnot at_ hat, hlist⟩), List.map_flatMap]
    exact List.flatMap_congr fun name hname =>
      foundFile_fileAt hthrough hresolve (env.fs.proper_listing at_.1 name hname)
  · rw [if_neg hlist, if_neg fun hboth => hlist ((listable_iff _ _).mp hboth).2]
    rfl

end Entered

/-! ## the worker slots -/

/-- The entries all workers hold. -/
def workerEntries (slots : List WalkWorkerSlot) : List OwnedEntry :=
  slots.flatMap fun slot => slot.fileEntries.getD []

/-- Entries appended to one slot are appended to what all hold. -/
theorem perm_workerEntries_set {slots : List WalkWorkerSlot} {worker : Nat}
    {slot slot' : WalkWorkerSlot} (hslot : slots[worker]? = some slot) {extra : List OwnedEntry}
    (hextra : slot'.fileEntries.getD [] = slot.fileEntries.getD [] ++ extra) :
    (workerEntries (slots.set worker slot')).Perm (workerEntries slots ++ extra) := by
  induction slots generalizing worker with
  | nil => cases hslot
  | cons first slots ih =>
      cases worker with
      | zero =>
          cases hslot
          rw [List.set_cons_zero, workerEntries, workerEntries, List.flatMap_cons, List.flatMap_cons,
            hextra, List.append_assoc, List.append_assoc]
          exact List.perm_append_comm.append_left _
      | succ worker =>
          rw [List.set_cons_succ, workerEntries, workerEntries, List.flatMap_cons, List.flatMap_cons,
            List.append_assoc]
          exact (ih hslot).append_left _

/-- Everything found so far: what the workers hold, and the inputs' files. -/
def ParallelState.found (fs : FileSystem) (s : ParallelState) : List FoundFile :=
  foundFiles fs s.entries ++ foundFiles fs (workerEntries s.slots)

/-- Callbacks made `s` into `s'` and found the files. -/
structure Collected (fs : FileSystem) (s s' : ParallelState) (files : List FoundFile) : Prop where
  workers : s'.slots.length = s.slots.length
  rootDeviceId : s'.rootDeviceId = s.rootDeviceId
  found : (s'.found fs).Perm (s.found fs ++ files)

section Collected

variable {fs : FileSystem} {s s₁ s₂ : ParallelState} {files files₁ files₂ : List FoundFile}

theorem Collected.refl : Collected fs s s [] :=
  ⟨rfl, rfl, by rw [List.append_nil]⟩

theorem Collected.trans (h₁ : Collected fs s s₁ files₁) (h₂ : Collected fs s₁ s₂ files₂) :
    Collected fs s s₂ (files₁ ++ files₂) where
  workers := h₂.workers.trans h₁.workers
  rootDeviceId := h₂.rootDeviceId.trans h₁.rootDeviceId
  found := by
    refine h₂.found.trans ((h₁.found.append_right _).trans ?_)
    rw [List.append_assoc]

/-- Making requests collects nothing. -/
theorem Collected.requested (count : Nat) : Collected fs s (s.requested count) [] :=
  ⟨rfl, rfl, by rw [List.append_nil]; rfl⟩

/-- Appending entries to the slot of a worker. -/
theorem Collected.withSlot {worker : Nat} {slot slot' : WalkWorkerSlot}
    (hslot : s.slots[worker]? = some slot) {extra : List OwnedEntry}
    (hextra : slot'.fileEntries.getD [] = slot.fileEntries.getD [] ++ extra) :
    Collected fs s (s.withSlot worker slot') (foundFiles fs extra) where
  workers := List.length_set
  rootDeviceId := rfl
  found := by
    rw [ParallelState.found, ParallelState.found, List.append_assoc]
    refine List.Perm.append_left _ ?_
    rw [← foundFiles_append]
    exact (perm_workerEntries_set hslot hextra).map _

end Collected

section Callbacks

variable {env : ParallelEnvironment} (hquiet : env.toDiscoveryEnvironment.Undisturbed)
include hquiet

/-- Ensuring a slot only creates what is missing. -/
theorem exists_walkEnsureSlot {s : ParallelState} {worker : Nat}
    (hworker : worker < s.slots.length) :
    ∃ s' slot, walkEnsureSlot env s worker = (s', some slot) ∧ s'.slots[worker]? = some slot ∧
      Collected env.fs s s' [] := by
  have hslot := List.getElem?_eq_getElem hworker
  unfold walkEnsureSlot
  rw [hslot]
  dsimp only
  rw [if_neg fun h => Bool.noConfusion ((hquiet.allocates _).symm.trans h.2),
    if_neg fun h => Bool.noConfusion ((hquiet.allocates _).symm.trans h.2)]
  have hrequested : ∀ (create : Prop) [Decidable create] (t : ParallelState),
      Collected env.fs t (if create then t.requested 1 else t) [] ∧
        (if create then t.requested 1 else t).slots = t.slots := by
    intro create _ t
    split
    · exact ⟨.requested 1, rfl⟩
    · exact ⟨.refl, rfl⟩
  obtain ⟨hfirst, hslots₁⟩ := hrequested (s.slots[worker].fileEntries = none) s
  generalize (if s.slots[worker].fileEntries = none then s.requested 1 else s) = s₁
    at hfirst hslots₁ ⊢
  obtain ⟨hsecond, hslots₂⟩ := hrequested (s.slots[worker].errors = none) s₁
  generalize (if s.slots[worker].errors = none then s₁.requested 1 else s₁) = s₂
    at hsecond hslots₂ ⊢
  have hslot₂ : s₂.slots[worker]? = some s.slots[worker] := by rw [hslots₂, hslots₁, hslot]
  refine ⟨_, _, rfl, ?_, (hfirst.trans hsecond).trans (@Collected.withSlot env.fs s₂ worker _ _
    hslot₂ [] (by rw [List.append_nil]; rfl))⟩
  rw [ParallelState.withSlot, List.getElem?_set_self (by rw [hslots₂, hslots₁]; exact hworker)]

/-- **One callback** on a worker there is: a visited file is found. -/
theorem collected_walkCallback {s : ParallelState} {call : Nat × WalkCallback}
    (hworker : call.1 < s.slots.length) :
    Collected env.fs s (walkCallback env s call)
      ((visitedFile call).map (WalkEntry.foundFile env.fs)) := by
  obtain ⟨worker, callback⟩ := call
  obtain ⟨s₁, slot, hensure, hslot, hcollected⟩ := exists_walkEnsureSlot hquiet hworker
  cases callback with
  | error path stage errno =>
      rw [walkCallback]
      dsimp only
      rw [walkOnError, hensure]
      exact hcollected.trans (@Collected.withSlot env.fs s₁ worker slot _ hslot []
        (by rw [List.append_nil]))
  | visit entry =>
      rw [walkCallback, visitedFile]
      dsimp only
      unfold walkVisit
      by_cases hkind : entry.kind = .file
      · rw [if_neg (not_not.mpr hkind), if_pos hkind, hensure]
        dsimp only
        rw [hquiet.allocates, hquiet.allocates, if_neg Bool.noConfusion, if_neg Bool.noConfusion]
        have hslot' : (s₁.requested 2).slots[worker]? = some slot := hslot
        have hpushed := @Collected.withSlot env.fs _ worker slot { slot with
          fileEntries := some (slot.fileEntries.getD [] ++ [⟨.discovered entry.absolutePath
            entry.fileSize entry.identity.deviceId entry.identity.inodeNumber,
            walkOwner env worker⟩]) } hslot' _ rfl
        exact (hcollected.trans (.requested 2)).trans hpushed
      · rw [if_pos hkind, if_neg hkind]
        exact .refl

/-- The callbacks of one walk. -/
theorem collected_foldl_walkCallback {s : ParallelState} {calls : List (Nat × WalkCallback)}
    (hworkers : ∀ call ∈ calls, call.1 < s.slots.length) :
    Collected env.fs s (calls.foldl (walkCallback env) s)
      ((calls.flatMap visitedFile).map (WalkEntry.foundFile env.fs)) := by
  induction calls generalizing s with
  | nil => exact .refl
  | cons call calls ih =>
      have hfirst := collected_walkCallback hquiet (hworkers call List.mem_cons_self)
      rw [List.foldl_cons, List.flatMap_cons, List.map_append]
      refine hfirst.trans (ih fun other hother => ?_)
      rw [hfirst.workers]
      exact hworkers other (List.mem_cons_of_mem _ hother)

end Callbacks

/-! ## the inputs -/

/-- The directories the walks list, one list a root. -/
def WalkedRoots (env : DiscoveryEnvironment) (rootDeviceId : Option Nat) (roots : List Identity)
    (walks : List (List Identity)) : Prop :=
  List.Forall₂ (WalkedFrom env rootDeviceId) roots walks

/-- Processing the paths made `s` into `s'`: `walks` are the directories the
walks listed, one list a root, and their files and the paths' own were found. -/
structure Processed (env : ParallelEnvironment) (rootDeviceId : Option Nat) (paths : List Bytes)
    (walks : List (List Identity)) (s s' : ParallelState) : Prop where
  walked : WalkedRoots env.toDiscoveryEnvironment rootDeviceId
    (paths.flatMap (inputRoots env.toDiscoveryEnvironment)) walks
  workers : s'.slots.length = s.slots.length
  rootDeviceId : s'.rootDeviceId =
    s.rootDeviceId.or (rootDeviceOf env.toDiscoveryEnvironment paths)
  found : (s'.found env.fs).Perm (s.found env.fs ++
    (paths.flatMap (inputFiles env.toDiscoveryEnvironment) ++
      walks.flatten.flatMap (filesOf env.toDiscoveryEnvironment)))

section Inputs

variable {env : ParallelEnvironment} {rootDeviceId : Option Nat}

theorem Processed.refl (s : ParallelState) : Processed env rootDeviceId [] [] s s :=
  ⟨.nil, rfl, by simp [rootDeviceOf], by simp⟩

/-- Paths processed after others: the walks of both, and the files of both. -/
theorem Processed.trans {front back : List Bytes} {walks₁ walks₂ : List (List Identity)}
    {s s₁ s₂ : ParallelState} (h₁ : Processed env rootDeviceId front walks₁ s s₁)
    (h₂ : Processed env rootDeviceId back walks₂ s₁ s₂) :
    Processed env rootDeviceId (front ++ back) (walks₁ ++ walks₂) s s₂ where
  walked := by
    rw [List.flatMap_append]
    exact List.rel_append h₁.walked h₂.walked
  workers := h₂.workers.trans h₁.workers
  rootDeviceId := by
    rw [h₂.rootDeviceId, h₁.rootDeviceId, Option.or_assoc, ← rootDeviceOf_append]
  found := by
    refine h₂.found.trans ((h₁.found.append_right _).trans ?_)
    rw [List.flatten_append, List.flatMap_append, List.flatMap_append]
    simp only [List.append_assoc]
    exact ((List.perm_append_comm_assoc ..).append_left _).append_left _

/-- A path that names no directory to walk. -/
theorem Collected.processed {path : Bytes} {s s' : ParallelState}
    (h : Collected env.fs s s' (inputFiles env.toDiscoveryEnvironment path))
    (hroots : inputRoots env.toDiscoveryEnvironment path = []) :
    ∃ walks, Processed env rootDeviceId [path] walks s s' := by
  refine ⟨[], ?_, h.workers, ?_, ?_⟩
  · rw [List.flatMap_singleton, hroots]
    exact .nil
  · rw [h.rootDeviceId, rootDeviceOf, List.flatMap_singleton, hroots]
    exact (Option.or_none).symm
  · rw [List.flatMap_singleton, List.flatten_nil, List.flatMap_nil, List.append_nil]
    exact h.found

/-- A path that names neither a file nor a directory to walk is passed over. -/
theorem exists_processed_of_skipped {path : Bytes} {s s' : ParallelState}
    (hfiles : inputFiles env.toDiscoveryEnvironment path = [])
    (hroots : inputRoots env.toDiscoveryEnvironment path = []) (hslots : s'.slots = s.slots)
    (hroot : s'.rootDeviceId = s.rootDeviceId) (hentries : s'.entries = s.entries) :
    ∃ walks, Processed env rootDeviceId [path] walks s s' := by
  refine Collected.processed ⟨by rw [hslots], hroot, ?_⟩ hroots
  rw [hfiles, List.append_nil, ParallelState.found, ParallelState.found, hslots, hentries]

/-- A root file is found, unless it is too small. -/
theorem collected_walkAppendRootFile (hquiet : env.toDiscoveryEnvironment.Undisturbed)
    (s : ParallelState) (path : Bytes) (fileSize : Nat) (identity : Identity) :
    Collected env.fs s (walkAppendRootFile env s path fileSize identity)
      (if env.options.minimumFileSize ≤ fileSize then
        [⟨(env.fs.locate path).toOption, identity, fileSize⟩] else []) := by
  unfold walkAppendRootFile
  by_cases hsize : fileSize < env.options.minimumFileSize
  · rw [if_pos hsize, if_neg (Nat.not_le_of_lt hsize)]
    exact .refl
  · rw [if_neg hsize, if_pos (Nat.le_of_not_lt hsize), hquiet.allocates, hquiet.allocates,
      if_neg Bool.noConfusion, if_neg Bool.noConfusion]
    refine ⟨rfl, rfl, ?_⟩
    rw [ParallelState.found, foundFiles_append, ParallelState.found, List.append_assoc,
      List.append_assoc]
    exact List.perm_append_comm.append_left _

/-- **One walk** finds the files of what can be reached from its root. -/
theorem exists_walkRunOnDirectory {all : List Bytes} (hquiet : env.Undisturbed all) {path : Bytes}
    (hall : path ∈ all) (hpath : path ≠ []) {root : Identity}
    (hresolve : env.fs.resolveDirectory path = .ok root) (hpseudo : env.fs.isPseudo root = false)
    {s : ParallelState} (hworkers : s.slots.length = env.workerCount) :
    ∃ walk, WalkedFrom env.toDiscoveryEnvironment s.rootDeviceId root walk ∧
      Collected env.fs s (walkRunOnDirectory env s path)
        (walk.flatMap (filesOf env.toDiscoveryEnvironment)) := by
  obtain ⟨htrim, hresolveTrim⟩ := resolveDirectory_trimTrailingSlashes env.fs hpath
  obtain ⟨hcallers, directorySize, entered, hentered, hvisits⟩ := hquiet.walks s.walks
    (walkConfig env s.rootDeviceId (trimTrailingSlashes path)) root htrim
    (hresolveTrim.trans hresolve)
  have hstart : ({ s with walks := s.walks + 1 } : ParallelState).slots.length = env.workerCount :=
    hworkers
  have hcollected := collected_foldl_walkCallback hquiet.base fun call hcall => by
    rw [hstart]
    exact hcallers call hcall
  refine ⟨entered.map Prod.fst, hentered.walkedFrom hpseudo, ?_⟩
  rw [walkRunOnDirectory, if_neg (Nat.not_le_of_lt (hquiet.short path hall))]
  refine ⟨hcollected.workers, hcollected.rootDeviceId, hcollected.found.trans ?_⟩
  rw [← hentered.foundFiles hpseudo]
  exact (hvisits.map _).append_left _

/-- One path. -/
theorem exists_parallelProcessInputPath {all : List Bytes} (hquiet : env.Undisturbed all)
    {path : Bytes} (hall : path ∈ all) {s : ParallelState}
    (hworkers : s.slots.length = env.workerCount)
    (hroot : s.rootDeviceId.or (rootDeviceOf env.toDiscoveryEnvironment [path]) = rootDeviceId ∨
      inputRoots env.toDiscoveryEnvironment path = []) :
    ∃ walks, Processed env rootDeviceId [path] walks s (parallelProcessInputPath env s path) := by
  unfold parallelProcessInputPath
  cases hstat : env.fs.statPath env.options.followSymlinks path with
  | error errno =>
      exact exists_processed_of_skipped (by simp [inputFiles, hstat]) (by simp [inputRoots, hstat])
        rfl rfl rfl
  | ok status =>
      match status, hstat with
      | .symbolicLink, hstat | .object .other, hstat =>
          exact exists_processed_of_skipped (by simp [inputFiles, hstat])
            (by simp [inputRoots, hstat]) rfl rfl rfl
      | .object (.regular identity fileSize), hstat =>
          have happended := collected_walkAppendRootFile hquiet.base s path fileSize identity
          refine Collected.processed ?_ (by simp [inputRoots, hstat])
          rw [inputFiles, hstat]
          exact happended
      | .object (.directory identity), hstat =>
          obtain ⟨hpath, hresolve⟩ := env.fs.resolveDirectory_of_statPath hstat
          have hfiles : inputFiles env.toDiscoveryEnvironment path = [] := by
            simp [inputFiles, hstat]
          dsimp only
          cases hpseudo : env.fs.isPseudo identity with
          | true =>
              rw [if_pos ((pathIsPseudoFilesystem_iff hresolve).mpr hpseudo)]
              exact exists_processed_of_skipped hfiles (by simp [inputRoots, hstat, hpseudo])
                rfl rfl rfl
          | false =>
              have hroots : inputRoots env.toDiscoveryEnvironment path = [identity] := by
                simp [inputRoots, hstat, hpseudo]
              have hdevice : rootDeviceOf env.toDiscoveryEnvironment [path] =
                  some identity.deviceId := by simp [rootDeviceOf, hroots]
              replace hroot : (s.rooted identity).rootDeviceId = rootDeviceId := by
                rw [hdevice] at hroot
                exact hroot.resolve_right (by rw [hroots]; exact List.cons_ne_nil _ _)
              have hrooted : (s.rooted identity).slots.length = env.workerCount := hworkers
              obtain ⟨walk, hwalk, hcollected⟩ :=
                exists_walkRunOnDirectory hquiet hall hpath hresolve hpseudo hrooted
              rw [hroot] at hwalk
              rw [if_neg (by
                rw [pathIsPseudoFilesystem_iff hresolve, hpseudo]
                exact Bool.noConfusion)]
              refine ⟨[walk], ?_, hcollected.workers, ?_, ?_⟩
              · rw [List.flatMap_singleton, hroots]
                exact .cons hwalk .nil
              · rw [hdevice]
                exact hcollected.rootDeviceId
              · rw [List.flatMap_singleton, hfiles, List.nil_append, List.flatten_singleton]
                exact hcollected.found

/-- Paths processed one after the other. -/
theorem exists_foldl_parallelProcessInputPath {all : List Bytes} (hquiet : env.Undisturbed all)
    {paths : List Bytes} (hall : ∀ path ∈ paths, path ∈ all) {s : ParallelState}
    (hworkers : s.slots.length = env.workerCount)
    (hroot : s.rootDeviceId.or (rootDeviceOf env.toDiscoveryEnvironment paths) = rootDeviceId ∨
      paths.flatMap (inputRoots env.toDiscoveryEnvironment) = []) :
    ∃ walks, Processed env rootDeviceId paths walks s
      (paths.foldl (parallelProcessInputPath env) s) := by
  induction paths generalizing s with
  | nil => exact ⟨[], .refl s⟩
  | cons path paths ih =>
      obtain ⟨hfirst, hlater⟩ := rootDeviceOf_split env.toDiscoveryEnvironment [path] paths hroot
      rw [List.flatMap_singleton] at hfirst
      obtain ⟨walks₁, hprocessed₁⟩ := exists_parallelProcessInputPath hquiet
        (hall path List.mem_cons_self) hworkers hfirst
      obtain ⟨walks₂, hprocessed₂⟩ := ih
        (fun other hother => hall other (List.mem_cons_of_mem _ hother))
        (hprocessed₁.workers.trans hworkers) (by rw [hprocessed₁.rootDeviceId]; exact hlater)
      exact ⟨walks₁ ++ walks₂, hprocessed₁.trans hprocessed₂⟩

/-- The state with errors added. -/
def ParallelState.reported (s : ParallelState) (errors : List DiscoveryError) : ParallelState :=
  { s with errors := s.errors ++ errors }

@[simp] theorem ParallelState.reported_nil (s : ParallelState) : s.reported [] = s := by
  rw [reported, List.append_nil]

theorem processed_reported (s : ParallelState) (errors : List DiscoveryError) :
    Processed env rootDeviceId [] [] s (s.reported errors) :=
  let hempty := @Processed.refl env rootDeviceId s
  ⟨.nil, rfl, hempty.rootDeviceId, hempty.found⟩

/-- **An input is processed as the paths it is expanded to**, behind the errors
of the expansion itself. -/
theorem parallelExpanded_eq (env : ParallelEnvironment) (s : ParallelState) (input : Bytes) :
    parallelInput env s input =
      (parallelPaths env.toDiscoveryEnvironment input).foldl (parallelProcessInputPath env)
        (s.reported (parallelGlobErrors env.toDiscoveryEnvironment input)) := by
  unfold parallelInput parallelPaths parallelGlobErrors parallelExpandGlob
  by_cases hmeta : globContainsMetacharacter input = true
  · rw [if_pos hmeta, if_pos hmeta]
    cases hglob : env.glob input with
    | none =>
        rw [if_pos ⟨hmeta, rfl⟩]
        rfl
    | some matched =>
        rw [if_neg (fun h => Option.some_ne_none matched h.2), ParallelState.reported_nil]
        rfl
  · rw [if_neg hmeta, if_neg hmeta, if_neg (fun h => hmeta h.1), ParallelState.reported_nil]
    rfl

/-- The inputs, each expanded. -/
theorem exists_foldl_parallelInput {all : List Bytes} (hquiet : env.Undisturbed all)
    {inputs : List Bytes}
    (hall : ∀ path ∈ inputs.flatMap (parallelPaths env.toDiscoveryEnvironment), path ∈ all)
    {s : ParallelState} (hworkers : s.slots.length = env.workerCount)
    (hroot : s.rootDeviceId.or (rootDeviceOf env.toDiscoveryEnvironment
        (inputs.flatMap (parallelPaths env.toDiscoveryEnvironment))) = rootDeviceId ∨
      (inputs.flatMap (parallelPaths env.toDiscoveryEnvironment)).flatMap
        (inputRoots env.toDiscoveryEnvironment) = []) :
    ∃ walks, Processed env rootDeviceId
      (inputs.flatMap (parallelPaths env.toDiscoveryEnvironment)) walks s
      (inputs.foldl (parallelInput env) s) := by
  induction inputs generalizing s with
  | nil => exact ⟨[], .refl s⟩
  | cons input inputs ih =>
      rw [List.flatMap_cons] at hroot hall
      have hexpand := parallelExpanded_eq env s input
      generalize ht : s.reported (parallelGlobErrors env.toDiscoveryEnvironment input) = t
        at hexpand
      have hstart : Processed env rootDeviceId [] [] s t := ht ▸ processed_reported s _
      have hrootT : t.rootDeviceId = s.rootDeviceId := by
        rw [hstart.rootDeviceId, rootDeviceOf, List.flatMap_nil]
        exact Option.or_none
      rw [← hrootT] at hroot
      obtain ⟨hfirst, hlater⟩ := rootDeviceOf_split env.toDiscoveryEnvironment _ _ hroot
      obtain ⟨walks₁, hprocessed₁⟩ := exists_foldl_parallelProcessInputPath hquiet
        (fun path hpath => hall path (List.mem_append_left _ hpath))
        (hstart.workers.trans hworkers) hfirst
      rw [← hexpand] at hprocessed₁
      obtain ⟨walks₂, hprocessed₂⟩ := ih
        (fun path hpath => hall path (List.mem_append_right _ hpath))
        (hprocessed₁.workers.trans (hstart.workers.trans hworkers))
        (by rw [hprocessed₁.rootDeviceId]; exact hlater)
      exact ⟨_, (hstart.trans hprocessed₁).trans hprocessed₂⟩

end Inputs

/-! ## the merge -/

section Merge

variable {env : ParallelEnvironment} (hallocates : ∀ request, env.allocates request = true)
include hallocates

theorem walkMergeEntries_eq (pushed : List OwnedEntry) (result : DiscoveryResult) (requests : Nat) :
    walkMergeEntries env pushed (result, requests) =
      ({ result with entries := result.entries ++ pushed }, requests + pushed.length) := by
  induction pushed generalizing result requests with
  | nil => rw [walkMergeEntries, List.append_nil]; rfl
  | cons owned pushed ih =>
      rw [walkMergeEntries, hallocates, if_neg Bool.noConfusion, ih, List.append_assoc,
        List.length_cons, Nat.add_assoc, Nat.add_comm 1]
      rfl

/-- **No entry is lost in the merge**, and all stay in their workers' order. -/
theorem foldl_walkMergeWorkerSlot {slots : List WalkWorkerSlot} {result : DiscoveryResult}
    (hok : result.ok = true) (requests : Nat) :
    ((slots.foldl (walkMergeWorkerSlot env) (result, requests)).1.ok = true) ∧
      (slots.foldl (walkMergeWorkerSlot env) (result, requests)).1.entries =
        result.entries ++ workerEntries slots := by
  induction slots generalizing result requests with
  | nil => exact ⟨hok, (List.append_nil _).symm⟩
  | cons slot slots ih =>
      rw [List.foldl_cons, walkMergeWorkerSlot, if_neg (by rw [hok]; exact Bool.noConfusion),
        walkMergeEntries_eq hallocates]
      dsimp only
      rw [if_neg (by rw [hok]; exact Bool.noConfusion)]
      obtain ⟨hok', hentries⟩ := @ih ⟨result.ok, result.entries ++ slot.fileEntries.getD [],
        result.errors, result.stderr ++ slot.errors.getD []⟩ hok
        (requests + (slot.fileEntries.getD []).length)
      refine ⟨hok', hentries.trans ?_⟩
      rw [workerEntries, workerEntries, List.flatMap_cons, List.append_assoc]

end Merge

/-- **What the parallel walk finds.**  The files among the inputs, and for each
directory among them, by itself, the files of what can be reached from it. -/
theorem discoveryExpandParallel_found {env : ParallelEnvironment} {inputs : List Bytes}
    (hquiet : env.Undisturbed (inputs.flatMap (parallelPaths env.toDiscoveryEnvironment))) :
    ∃ walks, (discoveryExpandParallel env inputs).ok = true ∧
      WalkedRoots env.toDiscoveryEnvironment
        (rootDeviceOf env.toDiscoveryEnvironment
          (inputs.flatMap (parallelPaths env.toDiscoveryEnvironment)))
        ((inputs.flatMap (parallelPaths env.toDiscoveryEnvironment)).flatMap
          (inputRoots env.toDiscoveryEnvironment)) walks ∧
      (foundFiles env.fs (discoveryExpandParallel env inputs).entries).Perm
        ((inputs.flatMap (parallelPaths env.toDiscoveryEnvironment)).flatMap
            (inputFiles env.toDiscoveryEnvironment) ++
          walks.flatten.flatMap (filesOf env.toDiscoveryEnvironment)) := by
  obtain ⟨walks, hwalks, _, _, hfound⟩ := exists_foldl_parallelInput hquiet
    (fun _ hpath => hpath) (s := .initial env.workerCount) List.length_replicate (Or.inl rfl)
  have hempty : (ParallelState.initial env.workerCount).found env.fs = [] := by
    simp [ParallelState.found, ParallelState.initial, workerEntries, foundFiles,
      WalkWorkerSlot.zeroed]
  rw [hempty, List.nil_append] at hfound
  unfold discoveryExpandParallel
  rw [hquiet.registers, if_neg Bool.noConfusion]
  dsimp only
  generalize inputs.foldl (parallelInput env) (.initial env.workerCount) = s at hfound ⊢
  obtain ⟨hok, hentries⟩ := foldl_walkMergeWorkerSlot hquiet.base.allocates
    (rfl : (⟨true, s.entries, s.errors, []⟩ : DiscoveryResult).ok = true) s.requests
  refine ⟨walks, hok, hwalks, ?_⟩
  rw [hentries, foundFiles_append]
  exact hfound

end BcDuplicate
