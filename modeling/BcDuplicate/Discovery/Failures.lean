import BcDuplicate.Discovery.Reference
import BcDuplicate.Discovery.Serial

/-!
# BcDuplicate.Discovery.Failures

Which errors are in the collector of the application behind a discovery.  The
serial walk collects those of the inputs themselves, and for each directory it
visits, once, those of opening and listing it (`serial_errors`).  The parallel
walk collects the former alone (`parallel_errors`): what a worker reports stays
in the worker's own collector, which the merge only prints.
-/

namespace BcDuplicate

open FileSystem
open Overlap
open Search

/-- What failed, and how: the stage of an error and its `errno`. -/
abbrev Failure := String × Errno

def DiscoveryError.failure (error : DiscoveryError) : Failure := (error.stage, error.errno)

section Failures

variable (env : DiscoveryEnvironment)

/-- A name that is looked at and cannot be statted. -/
def nameFailures (directory : Identity) (name : Bytes) : List Failure :=
  if considers env name then
    match (env.fs.link directory name).stat env.options.followSymlinks with
    | .error errno => [("stat", errno)]
    | .ok _ => []
  else []

/-- What fails in a directory that was opened. -/
def listFailures (directory : Identity) : List Failure :=
  match env.fs.dupError directory with
  | some errno => [("dup", errno)]
  | none =>
      match env.fs.fdopendirError directory with
      | some errno => [("fdopendir", errno)]
      | none =>
          (env.fs.listing directory).flatMap (nameFailures env directory) ++
            (env.fs.readdirError directory).toList.map ("readdir", ·)

/-- What fails at a directory that is visited. -/
def directoryFailures (directory : Identity) : List Failure :=
  if env.fs.isPseudo directory then []
  else
    match env.fs.openError directory with
    | some errno => [("open", errno)]
    | none => listFailures env directory

/-- What fails at an input path itself. -/
def inputFailures (path : Bytes) : List Failure :=
  match env.fs.statPath env.options.followSymlinks path with
  | .error errno => [("stat", errno)]
  | .ok .symbolicLink => [("skip-symlink", .ELOOP)]
  | .ok (.object .other) => [("skip-other", .EINVAL)]
  | .ok (.object (.regular _ _)) => []
  | .ok (.object (.directory _)) => []

end Failures

/-- A step collected `own` and what fails at the directories `new` it
visited. -/
structure Failed (env : DiscoveryEnvironment) (s s' : WalkState) (own : List Failure)
    (new : List Identity) : Prop where
  visited : s'.visitedDirectories = new ++ s.visitedDirectories
  errors : (s'.errors.map DiscoveryError.failure).Perm
    (s.errors.map DiscoveryError.failure ++ (own ++ new.flatMap (directoryFailures env)))

section Failed

variable {env : DiscoveryEnvironment} {s s₁ s₂ : WalkState} {own own₁ own₂ : List Failure}
  {new new₁ new₂ : List Identity}

theorem failed_of_eq (hvisited : s₁.visitedDirectories = s.visitedDirectories)
    (herrors : s₁.errors = s.errors) : Failed env s s₁ [] [] :=
  ⟨hvisited, by rw [herrors, List.flatMap_nil, List.append_nil, List.append_nil]⟩

theorem Failed.trans (h₁ : Failed env s s₁ own₁ new₁) (h₂ : Failed env s₁ s₂ own₂ new₂) :
    Failed env s s₂ (own₁ ++ own₂) (new₂ ++ new₁) where
  visited := by rw [h₂.visited, h₁.visited, List.append_assoc]
  errors := perm_append_flatMap h₁.errors h₂.errors

/-- An error that is reported. -/
theorem failed_fail (s : WalkState) (path : Bytes) (stage : String) (errno : Errno) :
    Failed env s (s.fail path stage errno) [(stage, errno)] [] :=
  ⟨rfl, by rw [WalkState.fail, List.map_append, List.flatMap_nil, List.append_nil]; rfl⟩

/-- What fails at a directory counts once it is among the visited ones. -/
theorem Failed.visit {directory : Identity}
    (h : Failed env s₁ s₂ (directoryFailures env directory) new)
    (hvisited : s₁.visitedDirectories = directory :: s.visitedDirectories)
    (herrors : s₁.errors = s.errors) : Failed env s s₂ [] (new ++ [directory]) where
  visited := by rw [h.visited, hvisited, List.append_assoc]; rfl
  errors := by
    have hperm := h.errors
    rw [herrors] at hperm
    exact perm_append_flatMap_singleton hperm

end Failed

/-- Appending an entry fails only with the pool. -/
theorem failed_walkAppendEntry {env : DiscoveryEnvironment} (hquiet : env.Undisturbed)
    (s : WalkState) (path : Bytes) (fileSize : Nat) (identity : Identity) :
    Failed env s (walkAppendEntry env s path fileSize identity) [] [] := by
  unfold walkAppendEntry
  split
  · exact failed_of_eq rfl rfl
  · rw [hquiet.allocates, hquiet.allocates, if_neg Bool.noConfusion, if_neg Bool.noConfusion]
    exact failed_of_eq rfl rfl

/-! ## one directory -/

/-- What the walk of a directory that was opened collects, if it ends. -/
def FailsDown (env : DiscoveryEnvironment)
    (walk : Identity → Bytes → Bytes → WalkState → Option WalkState) : Prop :=
  ∀ (directory : Identity) (errorPath path : Bytes) (s s' : WalkState),
    path ≠ [] → env.fs.resolveDirectory path = .ok directory →
    walk directory errorPath path s = some s' →
    ∃ new, Failed env s s' (listFailures env directory) new

section Directory

variable {env : DiscoveryEnvironment}
  {walk : Identity → Bytes → Bytes → WalkState → Option WalkState}

/-- Opening and walking a directory that was just marked as visited. -/
theorem exists_failed_opened (hwalk : FailsDown env walk) {directory : Identity}
    {errorPath path : Bytes} (hpath : path ≠ [])
    (hresolve : env.fs.resolveDirectory path = .ok directory)
    (hpseudo : env.fs.isPseudo directory = false) {s s₁ s' : WalkState}
    (hvisited : s₁.visitedDirectories = directory :: s.visitedDirectories)
    (herrors : s₁.errors = s.errors)
    (h : (match env.fs.openError directory with
      | some errno => some (s₁.fail errorPath "open" errno)
      | none => walk directory errorPath path (s₁.opened directory)) = some s') :
    ∃ new, Failed env s s' [] new := by
  cases hopen : env.fs.openError directory with
  | some errno =>
      rw [hopen] at h
      cases h
      have hfailures : directoryFailures env directory = [("open", errno)] := by
        simp [directoryFailures, hpseudo, hopen]
      have hfailed : Failed env s₁ _ [("open", errno)] [] := failed_fail s₁ errorPath "open" errno
      rw [← hfailures] at hfailed
      exact ⟨_, hfailed.visit hvisited herrors⟩
  | none =>
      rw [hopen] at h
      have hfailures : directoryFailures env directory = listFailures env directory := by
        simp [directoryFailures, hpseudo, hopen]
      obtain ⟨new, hfailed⟩ := hwalk directory errorPath path _ s' hpath hresolve h
      rw [← hfailures] at hfailed
      exact ⟨_, Failed.visit ⟨hfailed.visited, hfailed.errors⟩ hvisited herrors⟩

variable (hquiet : env.Undisturbed) (hwalk : FailsDown env walk)
include hquiet hwalk

theorem failed_walkDescendChild {directory child : Identity} {name path : Bytes}
    (hpath : path ≠ []) (hresolve : env.fs.resolveDirectory path = .ok child)
    (hstat : (env.fs.link directory name).stat env.options.followSymlinks =
      .ok (.object (.directory child)))
    {s s' : WalkState} (h : walkDescendChild env walk directory name path s = some s') :
    ∃ new, Failed env s s' [] new := by
  unfold walkDescendChild at h
  rw [hstat] at h
  dsimp only at h
  rw [hquiet.allocates, if_neg (c := true = false) Bool.noConfusion] at h
  split at h
  · cases h
    exact ⟨[], failed_of_eq rfl rfl⟩
  · split at h
    · cases h
      exact ⟨[], failed_of_eq rfl rfl⟩
    · split at h
      · next hpseudo =>
        cases h
        have hfailures : directoryFailures env child = [] := by
          rw [directoryFailures, if_pos ((pathIsPseudoFilesystem_iff hresolve).mp hpseudo)]
        have hsame : Failed env (s.requested.inserted child) (s.requested.inserted child) [] [] :=
          failed_of_eq rfl rfl
        rw [← hfailures] at hsame
        exact ⟨_, hsame.visit rfl rfl⟩
      · next hpseudo =>
        rw [pathIsPseudoFilesystem_iff hresolve, Bool.not_eq_true] at hpseudo
        have hinserted : (s.requested.inserted child).visitedDirectories =
            child :: s.visitedDirectories := rfl
        exact exists_failed_opened hwalk hpath hresolve hpseudo hinserted rfl h

/-- One name of a directory. -/
theorem failed_walkHandleEntry {directory : Identity} {errorPath path name : Bytes}
    (hpath : path ≠ []) (hresolve : env.fs.resolveDirectory path = .ok directory)
    (hname : name ∈ env.fs.listing directory) (hdots : isDotEntry name = false) {s s' : WalkState}
    (h : walkHandleEntry env walk directory errorPath path name s = some s') :
    ∃ new, Failed env s s' (nameFailures env directory name) new := by
  have hproper := env.fs.proper_listing directory name hname
  obtain ⟨hdot, hdotDot⟩ := not_or.mp (of_decide_eq_false hdots)
  unfold walkHandleEntry at h
  split at h
  · next hhidden =>
    cases h
    rw [nameFailures, considers_of_hidden hhidden]
    exact ⟨[], failed_of_eq rfl rfl⟩
  · next hhidden =>
    rw [hquiet.pathJoin] at h
    rw [nameFailures, considers_of_shown hdots hhidden, if_pos rfl]
    dsimp only at h
    split at h
    · next errno hstat =>
      cases h
      rw [hstat]
      exact ⟨[], failed_fail s _ _ _⟩
    · next identity fileSize hstat =>
      rw [hstat]
      split at h
      · cases h
        exact ⟨[], failed_walkAppendEntry hquiet s _ _ _⟩
      · cases h
        exact ⟨[], failed_of_eq rfl rfl⟩
    · next child hstat =>
      rw [hstat]
      split at h
      · exact failed_walkDescendChild hquiet hwalk (joinPath_ne_nil hpath name)
          (env.fs.resolveDirectory_joinPath hpath hresolve hproper hdot hdotDot
            (Link.stat_follow hstat)) hstat h
      · cases h
        exact ⟨[], failed_of_eq rfl rfl⟩
    · next status _ _ hstat =>
      cases h
      rw [hstat]
      exact ⟨[], failed_of_eq rfl rfl⟩

/-- The names of a directory, one after the other. -/
theorem failed_walkNames {directory : Identity} {errorPath path : Bytes} (hpath : path ≠ [])
    (hresolve : env.fs.resolveDirectory path = .ok directory) {names : List Bytes}
    (hnames : ∀ name ∈ names, name ∈ env.fs.listing directory) {s s' : WalkState}
    (h : walkNames env walk directory errorPath path names s = some s') :
    ∃ new, Failed env s s' (names.flatMap (nameFailures env directory) ++
      (env.fs.readdirError directory).toList.map ("readdir", ·)) new := by
  induction names generalizing s with
  | nil =>
      unfold walkNames at h
      cases hreaddir : env.fs.readdirError directory with
      | none =>
          rw [hreaddir] at h
          cases h
          exact ⟨[], failed_of_eq rfl rfl⟩
      | some errno =>
          rw [hreaddir] at h
          cases h
          exact ⟨[], failed_fail s errorPath "readdir" errno⟩
  | cons name names ih =>
      have hpolled : Failed env s s.polled [] [] := failed_of_eq rfl rfl
      have hnames' := fun other hother => hnames other (List.mem_cons_of_mem _ hother)
      rw [walkNames, hquiet.shouldStop, if_neg Bool.noConfusion] at h
      rw [List.flatMap_cons, List.append_assoc]
      cases hdots : isDotEntry name with
      | true =>
          rw [hdots, if_pos rfl] at h
          obtain ⟨new, hfailed⟩ := ih hnames' h
          rw [nameFailures, considers_of_dotEntry hdots]
          exact ⟨_, hpolled.trans hfailed⟩
      | false =>
          rw [hdots, if_neg Bool.noConfusion] at h
          obtain ⟨s₁, hfirst, hrest⟩ := Option.bind_eq_some_iff.mp h
          obtain ⟨new₁, hfailed₁⟩ := failed_walkHandleEntry hquiet hwalk hpath hresolve
            (hnames name List.mem_cons_self) hdots hfirst
          obtain ⟨new₂, hfailed₂⟩ := ih hnames' hrest
          exact ⟨_, (hpolled.trans hfailed₁).trans hfailed₂⟩

end Directory

/-! ## all directories and the inputs -/

section Inputs

variable {env : DiscoveryEnvironment} (hquiet : env.Undisturbed)
include hquiet

theorem failsDown_walkDirectory (fuel : Nat) : FailsDown env (walkDirectory env fuel) := by
  induction fuel with
  | zero => intro directory errorPath path s s' _ _ h; cases h
  | succ fuel ih =>
      intro directory errorPath path s s' hpath hresolve h
      unfold walkDirectory at h
      unfold listFailures
      cases hdup : env.fs.dupError directory with
      | some errno =>
          rw [hdup] at h
          cases h
          exact ⟨[], failed_fail s errorPath "dup" errno⟩
      | none =>
          rw [hdup] at h
          dsimp only at h ⊢
          cases hfdopendir : env.fs.fdopendirError directory with
          | some errno =>
              rw [hfdopendir] at h
              cases h
              exact ⟨[], failed_fail s errorPath "fdopendir" errno⟩
          | none =>
              rw [hfdopendir] at h
              exact failed_walkNames hquiet ih hpath hresolve (fun _ hname => hname) h

/-- One input path. -/
theorem failed_walkProcessInputPath {fuel : Nat} {path : Bytes} {s s' : WalkState}
    (h : walkProcessInputPath env fuel s path = some s') :
    ∃ new, Failed env s s' (inputFailures env path) new := by
  unfold walkProcessInputPath at h
  unfold inputFailures
  split at h
  · next errno hstat =>
    cases h
    rw [hstat]
    exact ⟨[], failed_fail s path "stat" errno⟩
  · next hstat =>
    cases h
    rw [hstat]
    exact ⟨[], failed_fail s path "skip-symlink" .ELOOP⟩
  · next identity fileSize hstat =>
    cases h
    rw [hstat]
    exact ⟨[], failed_walkAppendEntry hquiet s path fileSize identity⟩
  · next identity hstat =>
    obtain ⟨hpath, hresolve⟩ := env.fs.resolveDirectory_of_statPath hstat
    rw [hstat]
    dsimp only at h ⊢
    rw [hquiet.allocates, if_neg (c := true = false) Bool.noConfusion] at h
    split at h
    · cases h
      exact ⟨[], failed_of_eq rfl rfl⟩
    · next hpseudo =>
      rw [pathIsPseudoFilesystem_iff hresolve, Bool.not_eq_true] at hpseudo
      split at h
      · cases h
        exact ⟨[], failed_of_eq rfl rfl⟩
      · obtain ⟨htrim, hresolveTrim⟩ := resolveDirectory_trimTrailingSlashes env.fs hpath
        have hinserted : ((s.rooted identity).requested.inserted identity).visitedDirectories =
            identity :: s.visitedDirectories := rfl
        exact exists_failed_opened (failsDown_walkDirectory hquiet fuel) htrim
          (hresolveTrim.trans hresolve) hpseudo hinserted rfl h
  · next hstat =>
    cases h
    rw [hstat]
    exact ⟨[], failed_fail s path "skip-other" .EINVAL⟩

/-- Inputs without metacharacters, one after the other. -/
theorem failed_walkInputs {fuel : Nat} {inputs : List Bytes}
    (hliteral : ∀ input ∈ inputs, globContainsMetacharacter input = false) {s s' : WalkState}
    (h : walkInputs env fuel inputs s = some s') :
    ∃ new, Failed env s s' (inputs.flatMap (inputFailures env)) new := by
  induction inputs generalizing s with
  | nil =>
      cases h
      exact ⟨[], failed_of_eq rfl rfl⟩
  | cons input inputs ih =>
      have hpolled : Failed env s s.polled [] [] := failed_of_eq rfl rfl
      rw [walkInputs, hquiet.shouldStop, if_neg Bool.noConfusion, hliteral input List.mem_cons_self,
        if_neg Bool.noConfusion] at h
      obtain ⟨s₁, hfirst, hrest⟩ := Option.bind_eq_some_iff.mp h
      obtain ⟨new₁, hfailed₁⟩ := failed_walkProcessInputPath hquiet hfirst
      obtain ⟨new₂, hfailed₂⟩ := ih
        (fun other hother => hliteral other (List.mem_cons_of_mem _ hother)) hrest
      rw [List.flatMap_cons]
      exact ⟨_, (hpolled.trans hfailed₁).trans hfailed₂⟩

/-- **What the serial walk collects.**  The failures of the inputs themselves,
and those of each directory that can be reached, each once. -/
theorem serial_errors {inputs : List Bytes}
    (hliteral : ∀ input ∈ inputs, globContainsMetacharacter input = false) :
    ∃ s, walkInputs env (env.fs.directories.card + 1) inputs
        { WalkState.initial with requests := 1 } = some s ∧
      Explores id (childrenOf env (rootDeviceOf env inputs)) (inputs.flatMap (inputRoots env))
        s.visitedDirectories [] ∧
      (foundFiles env.fs s.entries).Perm (inputs.flatMap (inputFiles env) ++
        s.visitedDirectories.flatMap (filesOf env)) ∧
      (s.errors.map DiscoveryError.failure).Perm (inputs.flatMap (inputFailures env) ++
        s.visitedDirectories.flatMap (directoryFailures env)) := by
  obtain ⟨s, hdone, hexplores, hfound, _⟩ :=
    exists_walkInputs_visited hquiet (Nat.lt_succ_self _) inputs
  rw [(flatMap_paths_of_literal env hliteral).1] at hexplores hfound
  obtain ⟨new, hfailed⟩ := failed_walkInputs hquiet hliteral hdone
  have hnew : new = s.visitedDirectories := by
    rw [hfailed.visited]
    exact (List.append_nil new).symm
  have herrors := hfailed.errors
  rw [hnew] at herrors
  exact ⟨s, hdone, hexplores, hfound, herrors⟩

end Inputs

/-! ## the parallel walk -/

section Parallel

variable (env : ParallelEnvironment)

theorem errors_walkEnsureSlot (s : ParallelState) (worker : Nat) :
    (walkEnsureSlot env s worker).1.errors = s.errors := by
  have hrequested : ∀ (create : Prop) [Decidable create] (t : ParallelState),
      (if create then t.requested 1 else t).errors = t.errors := by
    intro create _ t
    split <;> rfl
  unfold walkEnsureSlot
  split
  · rfl
  · next slot _ =>
    split
    · rfl
    · dsimp only
      have hfirst := hrequested (slot.fileEntries = none) s
      generalize (if slot.fileEntries = none then s.requested 1 else s) = s₁ at hfirst ⊢
      split
      · exact hfirst
      · exact (hrequested (slot.errors = none) _).trans hfirst

/-- **A callback leaves the collector of the application alone**, also one that
reports an error. -/
theorem errors_walkCallback (s : ParallelState) (call : Nat × WalkCallback) :
    (walkCallback env s call).errors = s.errors := by
  have hensure := errors_walkEnsureSlot env s call.1
  unfold walkCallback walkVisit walkOnError
  generalize walkEnsureSlot env s call.1 = ensured at hensure
  obtain ⟨s₁, slot⟩ := ensured
  cases call.2 with
  | error path stage errno =>
      cases slot with
      | none => exact hensure
      | some slot => exact hensure
  | visit entry =>
      dsimp only
      split
      · rfl
      · cases slot with
        | none => exact hensure
        | some slot =>
            dsimp only
            split
            · exact hensure
            · split <;> exact hensure

theorem errors_foldl_walkCallback (calls : List (Nat × WalkCallback)) (s : ParallelState) :
    (calls.foldl (walkCallback env) s).errors = s.errors := by
  induction calls generalizing s with
  | nil => rfl
  | cons call calls ih => rw [List.foldl_cons, ih, errors_walkCallback]

theorem errors_walkMergeEntries (pushed : List OwnedEntry) (merge : DiscoveryResult × Nat) :
    (walkMergeEntries env pushed merge).1.errors = merge.1.errors := by
  induction pushed generalizing merge with
  | nil => rfl
  | cons owned pushed ih =>
      obtain ⟨result, requests⟩ := merge
      rw [walkMergeEntries]
      split
      · rfl
      · exact ih _

/-- **The merge puts no error into the collector.** -/
theorem errors_foldl_walkMergeWorkerSlot (slots : List WalkWorkerSlot)
    (merge : DiscoveryResult × Nat) :
    (slots.foldl (walkMergeWorkerSlot env) merge).1.errors = merge.1.errors := by
  induction slots generalizing merge with
  | nil => rfl
  | cons slot slots ih =>
      rw [List.foldl_cons, ih, walkMergeWorkerSlot]
      have hentries := errors_walkMergeEntries env (slot.fileEntries.getD []) merge
      split
      · rfl
      · dsimp only
        split <;> exact hentries

variable {env} {all : List Bytes} (hquiet : env.Undisturbed all)
include hquiet

/-- One path. -/
theorem errors_parallelProcessInputPath {path : Bytes} (hall : path ∈ all) (s : ParallelState) :
    (parallelProcessInputPath env s path).errors.map DiscoveryError.failure =
      s.errors.map DiscoveryError.failure ++ inputFailures env.toDiscoveryEnvironment path := by
  have hfail : ∀ stage errno, (s.fail path stage errno).errors.map DiscoveryError.failure =
      s.errors.map DiscoveryError.failure ++ [(stage, errno)] := fun stage errno => by
    rw [ParallelState.fail, List.map_append]
    rfl
  unfold parallelProcessInputPath inputFailures
  cases hstat : env.fs.statPath env.options.followSymlinks path with
  | error errno => exact hfail "stat" errno
  | ok status =>
      match status with
      | .symbolicLink => exact hfail "skip-symlink" .ELOOP
      | .object .other => exact hfail "skip-other" .EINVAL
      | .object (.regular identity fileSize) =>
          dsimp only
          rw [List.append_nil, walkAppendRootFile]
          split
          · rfl
          · rw [hquiet.base.allocates, hquiet.base.allocates, if_neg Bool.noConfusion,
              if_neg Bool.noConfusion]
            rfl
      | .object (.directory identity) =>
          dsimp only
          rw [List.append_nil]
          split
          · rfl
          · rw [walkRunOnDirectory, if_neg (Nat.not_le_of_lt (hquiet.short path hall)),
              errors_foldl_walkCallback]
            rfl

/-- **What the parallel walk leaves in the collector.**  The failures of the
inputs themselves, whatever the library reports on whichever worker. -/
theorem parallel_errors {inputs : List Bytes} (hall : ∀ input ∈ inputs, input ∈ all)
    (hliteral : ∀ input ∈ inputs, globContainsMetacharacter input = false) :
    (discoveryExpandParallel env inputs).errors.map DiscoveryError.failure =
      inputs.flatMap (inputFailures env.toDiscoveryEnvironment) := by
  have hfold : ∀ s : ParallelState,
      (inputs.foldl (parallelInput env) s).errors.map DiscoveryError.failure =
        s.errors.map DiscoveryError.failure ++
          inputs.flatMap (inputFailures env.toDiscoveryEnvironment) := by
    induction inputs with
    | nil => exact fun s => (List.append_nil _).symm
    | cons input inputs ih =>
        intro s
        rw [List.foldl_cons, ih (fun other hother => hall other (List.mem_cons_of_mem _ hother))
          fun other hother => hliteral other (List.mem_cons_of_mem _ hother)]
        rw [parallelInput, hliteral input List.mem_cons_self, if_neg Bool.noConfusion,
          errors_parallelProcessInputPath hquiet (hall input List.mem_cons_self),
          List.flatMap_cons, List.append_assoc]
  rw [discoveryExpandParallel, hquiet.registers, if_neg Bool.noConfusion]
  dsimp only
  rw [errors_foldl_walkMergeWorkerSlot]
  exact hfold _

end Parallel

/-! ## a library that reports -/

section Reporting

variable (fs : FileSystem) (config : WalkConfig)

/-- What fails at a directory a walk enters: opening it, unless it is the root,
or looking at one of its names. -/
def WalkConfig.failures (root directory : Identity) : List Errno :=
  match fs.openError directory with
  | some errno => if directory = root then [] else [errno]
  | none =>
      (fs.names directory).flatMap fun name =>
        if config.considers name then
          match (fs.link directory name).stat config.followSymlinks with
          | .error errno => [errno]
          | .ok _ => []
        else []

/-- The error a callback reports. -/
def reportedError (call : Nat × WalkCallback) : List Errno :=
  match call.2 with
  | .visit _ => []
  | .error _ _ errno => [errno]

/-- `bc_io_walk_parallel` as it is relied on, which besides calls `on_error` once
for each failure below its root. -/
def WalksReporting (library : WalkLibrary) (workerCount : Nat) : Prop :=
  ∀ (walk : Nat) (config : WalkConfig) (root : Identity), config.root ≠ [] →
    fs.resolveDirectory config.root = .ok root →
    (∀ call ∈ library walk config, call.1 < workerCount) ∧
    ∃ directorySize entered, Entered fs config directorySize root entered ∧
      ((library walk config).flatMap visitedFile).Perm
        (entered.flatMap fun at_ => (fs.names at_.1).flatMap (config.fileAt fs at_.1 at_.2)) ∧
      ((library walk config).flatMap reportedError).Perm
        (entered.flatMap fun at_ => config.failures fs root at_.1)

/-- The files and the failures found by a depth-first search, all on the first
worker. -/
def reportingWalk : WalkLibrary := fun _ config =>
  match fs.resolveDirectory config.root with
  | .error _ => []
  | .ok root =>
      match search Prod.fst (config.below fs) (fs.directories.card + 1) [(root, config.root)] with
      | none => []
      | some entered =>
          ((entered.flatMap fun at_ => (fs.names at_.1).flatMap
            (config.fileAt fs at_.1 at_.2)).map fun entry => (0, .visit entry)) ++
          (entered.flatMap fun at_ => (config.failures fs root at_.1).map fun errno =>
            (0, .error at_.2 "walk" errno))

variable {fs}

theorem WalksReporting.walks {library : WalkLibrary} {workerCount : Nat}
    (h : WalksReporting fs library workerCount) : Walks fs library workerCount := by
  intro walk config root hne hresolve
  obtain ⟨hworkers, directorySize, entered, hentered, hvisits, _⟩ := h walk config root hne hresolve
  exact ⟨hworkers, directorySize, entered, hentered, hvisits⟩

/-- **Every file system can be walked with its failures reported.** -/
theorem walksReporting_reportingWalk (fs : FileSystem) :
    WalksReporting fs (reportingWalk fs) 1 := by
  intro walk config root hne hresolve
  obtain ⟨entered, hsearch, hentered⟩ := exists_entered hne hresolve
  have hwalk : reportingWalk fs walk config =
      ((entered.flatMap fun at_ => (fs.names at_.1).flatMap
        (config.fileAt fs at_.1 at_.2)).map fun entry => (0, .visit entry)) ++
      (entered.flatMap fun at_ => (config.failures fs root at_.1).map fun errno =>
        (0, .error at_.2 "walk" errno)) := by
    rw [reportingWalk, hresolve]
    dsimp only
    rw [hsearch]
  rw [hwalk]
  refine ⟨fun call hcall => ?_, fun _ => 0, entered, hentered, ?_, ?_⟩
  · rcases List.mem_append.mp hcall with hvisit | herror
    · obtain ⟨entry, _, rfl⟩ := List.mem_map.mp hvisit
      exact Nat.zero_lt_one
    · obtain ⟨at_, _, hmem⟩ := List.mem_flatMap.mp herror
      obtain ⟨errno, _, rfl⟩ := List.mem_map.mp hmem
      exact Nat.zero_lt_one
  · have hnone : (entered.flatMap fun at_ => (config.failures fs root at_.1).map fun errno =>
        (0, WalkCallback.error at_.2 "walk" errno)).flatMap visitedFile = [] := by
      refine List.flatMap_eq_nil_iff.mpr fun call hcall => ?_
      obtain ⟨at_, _, hmem⟩ := List.mem_flatMap.mp hcall
      obtain ⟨errno, _, rfl⟩ := List.mem_map.mp hmem
      rfl
    rw [List.flatMap_append, flatMap_visitedFile, hnone, List.append_nil]
  · have hnone : ((entered.flatMap fun at_ => (fs.names at_.1).flatMap
        (config.fileAt fs at_.1 at_.2)).map fun entry =>
          (0, WalkCallback.visit entry)).flatMap reportedError = [] := by
      refine List.flatMap_eq_nil_iff.mpr fun call hcall => ?_
      obtain ⟨entry, _, rfl⟩ := List.mem_map.mp hcall
      rfl
    rw [List.flatMap_append, hnone, List.nil_append, List.flatMap_assoc]
    refine List.Perm.of_eq (List.flatMap_congr fun at_ _ => ?_)
    rw [List.flatMap_map]
    exact List.flatMap_singleton' _

end Reporting

end BcDuplicate
