import BcDuplicate.Discovery.Disturbed

/-!
# BcDuplicate.Discovery.DisturbedParallel

The parallel walk under disturbances: exhausted pools at any request, workers
without a slot, roots that are too long, a walk library that visits only some
of what it should.  What is found is part of what is found undisturbed
(`parallel_finds_part`).
-/

namespace BcDuplicate

open FileSystem
open Overlap
open Search

/-- `bc_io_walk_parallel` as it is relied on in any case: the files it visits
are some of those below its root that its filter accepts, each once. -/
def WalksPart (fs : FileSystem) (library : WalkLibrary) : Prop :=
  ∀ (walk : Nat) (config : WalkConfig) (root : Identity), config.root ≠ [] →
    fs.resolveDirectory config.root = .ok root →
    ∃ directorySize entered, Entered fs config directorySize root entered ∧
      ((library walk config).flatMap visitedFile).Subperm
        (entered.flatMap fun at_ => (fs.names at_.1).flatMap (config.fileAt fs at_.1 at_.2))

/-- A library that walks does so in any case. -/
theorem Walks.part {fs : FileSystem} {library : WalkLibrary} {workerCount : Nat}
    (h : Walks fs library workerCount) : WalksPart fs library := by
  intro walk config root hroot hresolve
  obtain ⟨_, directorySize, entered, hentered, hvisits⟩ := h walk config root hroot hresolve
  exact ⟨directorySize, entered, hentered, hvisits.subperm⟩

/-! ## the callbacks -/

/-- No entry collected so far has a digest yet. -/
def ParallelState.Unhashed (s : ParallelState) : Prop :=
  AllUnhashed (s.entries ++ workerEntries s.slots)

/-- Callbacks made `s` into `s'` and found some of the files. -/
structure CollectedPart (fs : FileSystem) (s s' : ParallelState) (files : List FoundFile) :
    Prop where
  rootDeviceId : s'.rootDeviceId = s.rootDeviceId
  found : (s'.found fs).Subperm (s.found fs ++ files)
  unhashed : s.Unhashed → s'.Unhashed

section Collected

variable {fs : FileSystem} {s s₁ s₂ : ParallelState} {files files₁ files₂ : List FoundFile}

theorem Collected.part (h : Collected fs s s₁ files) (hunhashed : s.Unhashed → s₁.Unhashed) :
    CollectedPart fs s s₁ files :=
  ⟨h.rootDeviceId, h.found.subperm, hunhashed⟩

theorem CollectedPart.refl : CollectedPart fs s s [] := Collected.refl.part id

/-- Making requests collects nothing. -/
theorem CollectedPart.requested (count : Nat) : CollectedPart fs s (s.requested count) [] :=
  (Collected.requested count).part id

/-- Appending entries to the slot of a worker. -/
theorem CollectedPart.withSlot {worker : Nat} {slot slot' : WalkWorkerSlot}
    (hslot : s.slots[worker]? = some slot) {extra : List OwnedEntry}
    (hextra : slot'.fileEntries.getD [] = slot.fileEntries.getD [] ++ extra)
    (hunhashed : AllUnhashed extra) :
    CollectedPart fs s (s.withSlot worker slot') (foundFiles fs extra) := by
  refine (Collected.withSlot hslot hextra).part fun hbefore owned howned => ?_
  rcases List.mem_append.mp howned with hmain | hworker
  · exact hbefore owned (List.mem_append_left _ hmain)
  · rcases List.mem_append.mp ((perm_workerEntries_set hslot hextra).subset hworker) with hold | hnew
    · exact hbefore owned (List.mem_append_right _ hold)
    · exact hunhashed owned hnew

theorem CollectedPart.trans (h₁ : CollectedPart fs s s₁ files₁)
    (h₂ : CollectedPart fs s₁ s₂ files₂) : CollectedPart fs s s₂ (files₁ ++ files₂) where
  rootDeviceId := h₂.rootDeviceId.trans h₁.rootDeviceId
  found := by
    rw [← List.append_assoc]
    exact h₂.found.trans (h₁.found.append (List.Subperm.refl _))
  unhashed hunhashed := h₂.unhashed (h₁.unhashed hunhashed)

/-- Finding none of the files is finding some of them. -/
theorem CollectedPart.weaken (h : CollectedPart fs s s₁ []) : CollectedPart fs s s₁ files where
  rootDeviceId := h.rootDeviceId
  found := by
    have hnone := h.found
    rw [List.append_nil] at hnone
    exact hnone.trans (List.sublist_append_left _ _).subperm
  unhashed := h.unhashed

theorem collectedPart_of_eq (hroot : s₁.rootDeviceId = s.rootDeviceId)
    (hslots : s₁.slots = s.slots) (hentries : s₁.entries = s.entries) :
    CollectedPart fs s s₁ files := by
  refine CollectedPart.weaken ⟨hroot, ?_, ?_⟩
  · rw [List.append_nil, ParallelState.found, ParallelState.found, hslots, hentries]
  · rw [ParallelState.Unhashed, ParallelState.Unhashed, hslots, hentries]
    exact id

end Collected

section Callbacks

variable {env : ParallelEnvironment}

/-- Ensuring a slot only creates what is missing, as far as it gets. -/
theorem collectedPart_walkEnsureSlot {s s' : ParallelState} {worker : Nat}
    {slot? : Option WalkWorkerSlot} (hensure : walkEnsureSlot env s worker = (s', slot?)) :
    CollectedPart env.fs s s' [] ∧ ∀ slot, slot? = some slot → s'.slots[worker]? = some slot := by
  have hrequested : ∀ (create : Prop) [Decidable create] (t : ParallelState),
      CollectedPart env.fs t (if create then t.requested 1 else t) [] ∧
        (if create then t.requested 1 else t).slots = t.slots := by
    intro create _ t
    split
    · exact ⟨.requested 1, rfl⟩
    · exact ⟨.refl, rfl⟩
  unfold walkEnsureSlot at hensure
  split at hensure
  · cases hensure
    exact ⟨.refl, nofun⟩
  · next slot hslot =>
    split at hensure
    · cases hensure
      exact ⟨.requested 1, nofun⟩
    · dsimp only at hensure
      obtain ⟨hfirst, hslots₁⟩ := hrequested (slot.fileEntries = none) s
      generalize (if slot.fileEntries = none then s.requested 1 else s) = s₁
        at hensure hfirst hslots₁
      have hslot₁ : s₁.slots[worker]? = some slot := hslots₁ ▸ hslot
      split at hensure
      · cases hensure
        have hcreated := @CollectedPart.withSlot env.fs (s₁.requested 1) worker slot
          { slot with fileEntries := some (slot.fileEntries.getD []) } hslot₁ []
          (List.append_nil _).symm nofun
        exact ⟨(hfirst.trans (.requested 1)).trans hcreated, nofun⟩
      · obtain ⟨hsecond, hslots₂⟩ := hrequested (slot.errors = none) s₁
        generalize (if slot.errors = none then s₁.requested 1 else s₁) = s₂
          at hensure hsecond hslots₂
        have hslot₂ : s₂.slots[worker]? = some slot := hslots₂ ▸ hslot₁
        cases hensure
        have hcreated := @CollectedPart.withSlot env.fs s₂ worker slot
          { slot with
            fileEntries := some (slot.fileEntries.getD [])
            errors := some (slot.errors.getD []) } hslot₂ [] (List.append_nil _).symm nofun
        refine ⟨(hfirst.trans hsecond).trans hcreated, fun slot' hsome => ?_⟩
        cases hsome
        exact List.getElem?_set_self (List.getElem?_eq_some_iff.mp hslot₂).1

/-- **One callback**: a visited file is found, or nothing. -/
theorem collectedPart_walkCallback (s : ParallelState) (call : Nat × WalkCallback) :
    CollectedPart env.fs s (walkCallback env s call)
      ((visitedFile call).map (WalkEntry.foundFile env.fs)) := by
  obtain ⟨worker, callback⟩ := call
  obtain ⟨s₁, served, hensure⟩ : ∃ s₁ served, walkEnsureSlot env s worker = (s₁, served) :=
    ⟨_, _, rfl⟩
  obtain ⟨hcollected, hslot⟩ := collectedPart_walkEnsureSlot hensure
  cases callback with
  | error path stage errno =>
      rw [walkCallback]
      dsimp only
      rw [walkOnError, hensure]
      cases served with
      | none => exact hcollected.weaken
      | some slot =>
          exact hcollected.trans (@CollectedPart.withSlot env.fs s₁ worker slot _ (hslot slot rfl)
            [] (by rw [List.append_nil]) fun _ hmem => absurd hmem List.not_mem_nil)
  | visit entry =>
      rw [walkCallback, visitedFile]
      dsimp only
      unfold walkVisit
      by_cases hkind : entry.kind = .file
      · rw [if_neg (not_not.mpr hkind), if_pos hkind, hensure]
        cases served with
        | none => exact hcollected.weaken
        | some slot =>
            dsimp only
            split
            · exact (hcollected.trans (.requested 1)).weaken
            · split
              · exact (hcollected.trans (.requested 2)).weaken
              · have hslot' : (s₁.requested 2).slots[worker]? = some slot := hslot slot rfl
                have hpushed := @CollectedPart.withSlot env.fs _ worker slot { slot with
                  fileEntries := some (slot.fileEntries.getD [] ++ [⟨.discovered entry.absolutePath
                    entry.fileSize entry.identity.deviceId entry.identity.inodeNumber,
                    walkOwner env worker⟩]) } hslot' _ rfl (allUnhashed_discovered _ _ _ _ _)
                exact (hcollected.trans (.requested 2)).trans hpushed
      · rw [if_pos hkind, if_neg hkind]
        exact .refl

/-- The callbacks of one walk. -/
theorem collectedPart_foldl_walkCallback (s : ParallelState) (calls : List (Nat × WalkCallback)) :
    CollectedPart env.fs s (calls.foldl (walkCallback env) s)
      ((calls.flatMap visitedFile).map (WalkEntry.foundFile env.fs)) := by
  induction calls generalizing s with
  | nil => exact .refl
  | cons call calls ih =>
      rw [List.foldl_cons, List.flatMap_cons, List.map_append]
      exact (collectedPart_walkCallback s call).trans (ih _)

end Callbacks

/-! ## the inputs -/

/-- Processing the paths made `s` into `s'`: of the files of the directories
the walks are to list, one list a root, and of the paths' own, some were
found. -/
structure ProcessedPart (env : ParallelEnvironment) (rootDeviceId : Option Nat)
    (paths : List Bytes) (walks : List (List Identity)) (s s' : ParallelState) : Prop where
  walked : WalkedRoots env.toDiscoveryEnvironment rootDeviceId
    (paths.flatMap (inputRoots env.toDiscoveryEnvironment)) walks
  rootDeviceId : s'.rootDeviceId =
    s.rootDeviceId.or (rootDeviceOf env.toDiscoveryEnvironment paths)
  found : (s'.found env.fs).Subperm (s.found env.fs ++
    (paths.flatMap (inputFiles env.toDiscoveryEnvironment) ++
      walks.flatten.flatMap (filesOf env.toDiscoveryEnvironment)))
  unhashed : s.Unhashed → s'.Unhashed

section Inputs

variable {env : ParallelEnvironment} {rootDeviceId : Option Nat}

theorem Processed.part {paths : List Bytes} {walks : List (List Identity)} {s s' : ParallelState}
    (h : Processed env rootDeviceId paths walks s s') (hunhashed : s.Unhashed → s'.Unhashed) :
    ProcessedPart env rootDeviceId paths walks s s' :=
  ⟨h.walked, h.rootDeviceId, h.found.subperm, hunhashed⟩

/-- Paths processed after others. -/
theorem ProcessedPart.trans {front back : List Bytes} {walks₁ walks₂ : List (List Identity)}
    {s s₁ s₂ : ParallelState} (h₁ : ProcessedPart env rootDeviceId front walks₁ s s₁)
    (h₂ : ProcessedPart env rootDeviceId back walks₂ s₁ s₂) :
    ProcessedPart env rootDeviceId (front ++ back) (walks₁ ++ walks₂) s s₂ where
  walked := by
    rw [List.flatMap_append]
    exact List.rel_append h₁.walked h₂.walked
  rootDeviceId := by
    rw [h₂.rootDeviceId, h₁.rootDeviceId, Option.or_assoc, ← rootDeviceOf_append]
  found := by
    refine (h₂.found.trans (h₁.found.append (List.Subperm.refl _))).trans (List.Perm.subperm ?_)
    rw [List.flatten_append, List.flatMap_append, List.flatMap_append]
    simp only [List.append_assoc]
    exact ((List.perm_append_comm_assoc ..).append_left _).append_left _
  unhashed hunhashed := h₂.unhashed (h₁.unhashed hunhashed)

/-- A path that names no directory to walk. -/
theorem CollectedPart.processed {path : Bytes} {s s' : ParallelState}
    (h : CollectedPart env.fs s s' (inputFiles env.toDiscoveryEnvironment path))
    (hroots : inputRoots env.toDiscoveryEnvironment path = []) :
    ∃ walks, ProcessedPart env rootDeviceId [path] walks s s' := by
  refine ⟨[], ?_, ?_, ?_, h.unhashed⟩
  · rw [List.flatMap_singleton, hroots]
    exact .nil
  · rw [h.rootDeviceId, rootDeviceOf, List.flatMap_singleton, hroots]
    exact (Option.or_none).symm
  · rw [List.flatMap_singleton, List.flatten_nil, List.flatMap_nil, List.append_nil]
    exact h.found

/-- A path that names no directory to walk is passed over. -/
theorem exists_processedPart_of_skipped {path : Bytes} {s s' : ParallelState}
    (hroots : inputRoots env.toDiscoveryEnvironment path = [])
    (hroot : s'.rootDeviceId = s.rootDeviceId) (hslots : s'.slots = s.slots)
    (hentries : s'.entries = s.entries) :
    ∃ walks, ProcessedPart env rootDeviceId [path] walks s s' :=
  CollectedPart.processed (collectedPart_of_eq hroot hslots hentries) hroots

/-- A root file is found, or nothing. -/
theorem collectedPart_walkAppendRootFile (s : ParallelState) (path : Bytes) (fileSize : Nat)
    (identity : Identity) :
    CollectedPart env.fs s (walkAppendRootFile env s path fileSize identity)
      (if env.options.minimumFileSize ≤ fileSize then
        [⟨(env.fs.locate path).toOption, identity, fileSize⟩] else []) := by
  unfold walkAppendRootFile
  split
  · exact collectedPart_of_eq rfl rfl rfl
  · next hsize =>
    rw [if_pos (Nat.le_of_not_lt hsize)]
    split
    · exact collectedPart_of_eq rfl rfl rfl
    · split
      · exact collectedPart_of_eq rfl rfl rfl
      · refine ⟨rfl, List.Perm.subperm ?_, fun hunhashed owned howned => ?_⟩
        · rw [ParallelState.found, foundFiles_append, ParallelState.found, List.append_assoc,
            List.append_assoc]
          exact List.perm_append_comm.append_left _
        · rcases List.mem_append.mp howned with hmain | hworker
          · rcases List.mem_append.mp hmain with hold | hnew
            · exact hunhashed owned (List.mem_append_left _ hold)
            · exact allUnhashed_discovered _ _ _ _ _ owned hnew
          · exact hunhashed owned (List.mem_append_right _ hworker)

variable (hwalks : WalksPart env.fs env.library)
include hwalks

/-- **One walk** finds some of the files of what can be reached from its root. -/
theorem exists_walkRunOnDirectory_part {path : Bytes} (hpath : path ≠ []) {root : Identity}
    (hresolve : env.fs.resolveDirectory path = .ok root) (hpseudo : env.fs.isPseudo root = false)
    (s : ParallelState) :
    ∃ walk, WalkedFrom env.toDiscoveryEnvironment s.rootDeviceId root walk ∧
      CollectedPart env.fs s (walkRunOnDirectory env s path)
        (walk.flatMap (filesOf env.toDiscoveryEnvironment)) := by
  obtain ⟨htrim, hresolveTrim⟩ := resolveDirectory_trimTrailingSlashes env.fs hpath
  obtain ⟨directorySize, entered, hentered, hvisits⟩ := hwalks s.walks
    (walkConfig env s.rootDeviceId (trimTrailingSlashes path)) root htrim
    (hresolveTrim.trans hresolve)
  refine ⟨entered.map Prod.fst, hentered.walkedFrom hpseudo, ?_⟩
  unfold walkRunOnDirectory
  dsimp only
  split
  · exact collectedPart_of_eq rfl rfl rfl
  · have hcollected := @collectedPart_foldl_walkCallback env { s with walks := s.walks + 1 }
      (env.library s.walks (walkConfig env s.rootDeviceId (trimTrailingSlashes path)))
    refine ⟨hcollected.rootDeviceId, hcollected.found.trans ?_, hcollected.unhashed⟩
    rw [← hentered.foundFiles hpseudo]
    obtain ⟨visited, hperm, hsub⟩ := hvisits
    exact (List.subperm_append_left _).mpr ⟨_, hperm.map _, hsub.map _⟩

/-- One path. -/
theorem exists_parallelProcessInputPath_part {path : Bytes} {s : ParallelState}
    (hroot : s.rootDeviceId.or (rootDeviceOf env.toDiscoveryEnvironment [path]) = rootDeviceId ∨
      inputRoots env.toDiscoveryEnvironment path = []) :
    ∃ walks,
      ProcessedPart env rootDeviceId [path] walks s (parallelProcessInputPath env s path) := by
  unfold parallelProcessInputPath
  split
  · next hstat =>
    exact exists_processedPart_of_skipped (by simp [inputRoots, hstat]) rfl rfl rfl
  · next identity fileSize hstat =>
    have happended := @collectedPart_walkAppendRootFile env s path fileSize identity
    refine CollectedPart.processed ?_ (by simp [inputRoots, hstat])
    rw [inputFiles, hstat]
    exact happended
  · next identity hstat =>
    obtain ⟨hpath, hresolve⟩ := env.fs.resolveDirectory_of_statPath hstat
    split
    · next hpseudo =>
      rw [pathIsPseudoFilesystem_iff hresolve] at hpseudo
      exact exists_processedPart_of_skipped (by simp [inputRoots, hstat, hpseudo]) rfl rfl rfl
    · next hpseudo =>
      rw [pathIsPseudoFilesystem_iff hresolve, Bool.not_eq_true] at hpseudo
      have hroots : inputRoots env.toDiscoveryEnvironment path = [identity] := by
        simp [inputRoots, hstat, hpseudo]
      have hfiles : inputFiles env.toDiscoveryEnvironment path = [] := by simp [inputFiles, hstat]
      have hdevice : rootDeviceOf env.toDiscoveryEnvironment [path] =
          some identity.deviceId := by
        rw [rootDeviceOf, List.flatMap_singleton, hroots]
        rfl
      rw [hdevice, hroots] at hroot
      have hrooted : (s.rooted identity).rootDeviceId = rootDeviceId :=
        hroot.resolve_right (List.cons_ne_nil _ _)
      obtain ⟨walk, hwalk, hcollected⟩ := exists_walkRunOnDirectory_part hwalks hpath hresolve
        hpseudo (s.rooted identity)
      rw [hrooted] at hwalk
      refine ⟨[walk], ?_, ?_, ?_, hcollected.unhashed⟩
      · rw [List.flatMap_singleton, hroots]
        exact .cons hwalk .nil
      · rw [hdevice]
        exact hcollected.rootDeviceId
      · rw [List.flatMap_singleton, hfiles, List.nil_append, List.flatten_singleton]
        exact hcollected.found
  · next hstat =>
    exact exists_processedPart_of_skipped (by simp [inputRoots, hstat]) rfl rfl rfl
  · next hstat =>
    exact exists_processedPart_of_skipped (by simp [inputRoots, hstat]) rfl rfl rfl

/-- Paths processed one after the other. -/
theorem exists_foldl_parallelProcessInputPath_part {paths : List Bytes} {s : ParallelState}
    (hroot : s.rootDeviceId.or (rootDeviceOf env.toDiscoveryEnvironment paths) = rootDeviceId ∨
      paths.flatMap (inputRoots env.toDiscoveryEnvironment) = []) :
    ∃ walks, ProcessedPart env rootDeviceId paths walks s
      (paths.foldl (parallelProcessInputPath env) s) := by
  induction paths generalizing s with
  | nil => exact ⟨[], (Processed.refl s).part id⟩
  | cons path paths ih =>
      obtain ⟨hfirst, hlater⟩ := rootDeviceOf_split env.toDiscoveryEnvironment [path] paths hroot
      rw [List.flatMap_singleton] at hfirst
      obtain ⟨walks₁, hprocessed₁⟩ := exists_parallelProcessInputPath_part hwalks hfirst
      obtain ⟨walks₂, hprocessed₂⟩ := ih (by rw [hprocessed₁.rootDeviceId]; exact hlater)
      exact ⟨walks₁ ++ walks₂, hprocessed₁.trans hprocessed₂⟩

/-- The inputs, each expanded. -/
theorem exists_foldl_parallelInput_part {inputs : List Bytes} {s : ParallelState}
    (hroot : s.rootDeviceId.or (rootDeviceOf env.toDiscoveryEnvironment
        (inputs.flatMap (parallelPaths env.toDiscoveryEnvironment))) = rootDeviceId ∨
      (inputs.flatMap (parallelPaths env.toDiscoveryEnvironment)).flatMap
        (inputRoots env.toDiscoveryEnvironment) = []) :
    ∃ walks, ProcessedPart env rootDeviceId
      (inputs.flatMap (parallelPaths env.toDiscoveryEnvironment)) walks s
      (inputs.foldl (parallelInput env) s) := by
  induction inputs generalizing s with
  | nil => exact ⟨[], (Processed.refl s).part id⟩
  | cons input inputs ih =>
      rw [List.flatMap_cons] at hroot
      have hexpand := parallelExpanded_eq env s input
      generalize ht : s.reported (parallelGlobErrors env.toDiscoveryEnvironment input) = t
        at hexpand
      have hstart : ProcessedPart env rootDeviceId [] [] s t := ht ▸ (processed_reported s _).part id
      have hrootT : t.rootDeviceId = s.rootDeviceId := by
        rw [hstart.rootDeviceId, rootDeviceOf, List.flatMap_nil]
        exact Option.or_none
      rw [← hrootT] at hroot
      obtain ⟨hfirst, hlater⟩ := rootDeviceOf_split env.toDiscoveryEnvironment _ _ hroot
      obtain ⟨walks₁, hprocessed₁⟩ := exists_foldl_parallelProcessInputPath_part hwalks hfirst
      rw [← hexpand] at hprocessed₁
      obtain ⟨walks₂, hprocessed₂⟩ := ih (by rw [hprocessed₁.rootDeviceId]; exact hlater)
      exact ⟨_, (hstart.trans hprocessed₁).trans hprocessed₂⟩

end Inputs

/-! ## the merge -/

theorem entries_walkMergeEntries (env : ParallelEnvironment) (pushed : List OwnedEntry)
    (merge : DiscoveryResult × Nat) :
    ∃ arrived, (walkMergeEntries env pushed merge).1.entries = merge.1.entries ++ arrived ∧
      arrived.Sublist pushed := by
  induction pushed generalizing merge with
  | nil => exact ⟨[], (List.append_nil _).symm, List.Sublist.refl _⟩
  | cons owned pushed ih =>
      obtain ⟨result, requests⟩ := merge
      rw [walkMergeEntries]
      split
      · exact ⟨[], (List.append_nil _).symm, List.nil_sublist _⟩
      · obtain ⟨arrived, hentries, hsub⟩ :=
          ih ({ result with entries := result.entries ++ [owned] }, requests + 1)
        exact ⟨owned :: arrived, by rw [hentries, List.append_assoc]; rfl, hsub.cons_cons _⟩

/-- **No entry is made up in the merge**, and none arrives twice. -/
theorem entries_foldl_walkMergeWorkerSlot (env : ParallelEnvironment)
    (slots : List WalkWorkerSlot) (merge : DiscoveryResult × Nat) :
    ∃ arrived, (slots.foldl (walkMergeWorkerSlot env) merge).1.entries =
        merge.1.entries ++ arrived ∧ arrived.Sublist (workerEntries slots) := by
  induction slots generalizing merge with
  | nil => exact ⟨[], (List.append_nil _).symm, List.Sublist.refl _⟩
  | cons slot slots ih =>
      have hslot : ∃ arrived, (walkMergeWorkerSlot env merge slot).1.entries =
          merge.1.entries ++ arrived ∧ arrived.Sublist (slot.fileEntries.getD []) := by
        unfold walkMergeWorkerSlot
        split
        · exact ⟨[], (List.append_nil _).symm, List.nil_sublist _⟩
        · dsimp only
          split <;> exact entries_walkMergeEntries env _ merge
      obtain ⟨first, hfirst, hsubFirst⟩ := hslot
      obtain ⟨rest, hrest, hsubRest⟩ := ih (walkMergeWorkerSlot env merge slot)
      rw [List.foldl_cons, workerEntries, List.flatMap_cons]
      exact ⟨first ++ rest, by rw [hrest, hfirst, List.append_assoc], hsubFirst.append hsubRest⟩

/-- **The parallel walk finds part of what is in scope**, whatever fails: of the
files of the directories below each input directory, each directory once. -/
theorem parallel_finds_part {env : ParallelEnvironment} (hwalks : WalksPart env.fs env.library)
    (inputs : List Bytes) :
    ∃ walks, WalkedRoots env.toDiscoveryEnvironment
        (rootDeviceOf env.toDiscoveryEnvironment
          (inputs.flatMap (parallelPaths env.toDiscoveryEnvironment)))
        ((inputs.flatMap (parallelPaths env.toDiscoveryEnvironment)).flatMap
          (inputRoots env.toDiscoveryEnvironment)) walks ∧
      FindsPart env.toDiscoveryEnvironment
        (inputs.flatMap (parallelPaths env.toDiscoveryEnvironment))
        (discoveryExpandParallel env inputs).entries walks.flatten := by
  obtain ⟨walks, hprocessed⟩ := exists_foldl_parallelInput_part hwalks
    (s := .initial env.workerCount) (Or.inl rfl)
  have hnone : workerEntries (ParallelState.initial env.workerCount).slots = [] := by
    simp [ParallelState.initial, workerEntries, WalkWorkerSlot.zeroed]
  -- what arrives is part of what the workers and the main thread hold
  have harrives : ∃ arrived, (discoveryExpandParallel env inputs).entries = arrived ∧
      arrived.Sublist ((inputs.foldl (parallelInput env) (.initial env.workerCount)).entries ++
        workerEntries (inputs.foldl (parallelInput env) (.initial env.workerCount)).slots) := by
    unfold discoveryExpandParallel
    split
    · exact ⟨[], rfl, List.nil_sublist _⟩
    · dsimp only
      generalize inputs.foldl (parallelInput env) (.initial env.workerCount) = s
      obtain ⟨arrived, hentries, hsub⟩ := entries_foldl_walkMergeWorkerSlot env s.slots
        (⟨true, s.entries, s.errors, []⟩, s.requests)
      exact ⟨_, hentries, hsub.append_left _⟩
  obtain ⟨arrived, hentries, hsub⟩ := harrives
  rw [hentries]
  refine ⟨walks, hprocessed.walked, ?_, fun directory hdirectory => ?_, fun owned howned => ?_⟩
  · have hempty : (ParallelState.initial env.workerCount).found env.fs = [] := by
      rw [ParallelState.found, hnone]
      rfl
    have hfound := hprocessed.found
    rw [hempty, List.nil_append, ParallelState.found, ← foundFiles_append] at hfound
    exact (hsub.map _).subperm.trans hfound
  · obtain ⟨walk, hwalk, hmem⟩ := List.mem_flatten.mp hdirectory
    obtain ⟨root, hroot, hfrom⟩ := exists_left_of_forall₂ hprocessed.walked hwalk
    obtain ⟨start, hstart, hpath⟩ := ((hfrom.2 directory).mp hmem).1
    exact ⟨root, hroot, List.mem_singleton.mp hstart ▸ hpath⟩
  · refine hprocessed.unhashed (fun other hother => ?_) owned (hsub.subset howned)
    rw [hnone] at hother
    cases hother

end BcDuplicate
