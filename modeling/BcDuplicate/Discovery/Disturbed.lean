import BcDuplicate.Discovery.Scope
import BcDuplicate.Worker.Outcomes

/-!
# BcDuplicate.Discovery.Disturbed

The serial walk under disturbances: a signal at any poll, exhausted pools at
any request, paths that do not fit their buffer.  Whatever happens, what is
found is in scope, and no directory is listed twice (`serial_finds_part`).
-/

namespace BcDuplicate

open FileSystem
open Overlap
open Search

/-- Where the path join of the library succeeds, it joins. -/
def DiscoveryEnvironment.Joins (env : DiscoveryEnvironment) : Prop :=
  ∀ directory name path, env.pathJoin directory name = some path → path = joinPath directory name

/-- No entry has a digest yet. -/
def AllUnhashed (entries : List OwnedEntry) : Prop := ∀ owned ∈ entries, owned.entry.Unhashed

/-- Entries that are part of what there is to find: some of the files among the
paths and of those of the directories, which are ones to walk. -/
structure FindsPart (env : DiscoveryEnvironment) (paths : List Bytes) (entries : List OwnedEntry)
    (directories : List Identity) : Prop where
  found : (foundFiles env.fs entries).Subperm
    (paths.flatMap (inputFiles env) ++ directories.flatMap (filesOf env))
  walked : ∀ directory ∈ directories, InWalk env paths directory
  unhashed : AllUnhashed entries

/-- **Every entry is in scope.** -/
theorem FindsPart.inScope {env : DiscoveryEnvironment} {paths : List Bytes}
    {entries : List OwnedEntry} {directories : List Identity}
    (h : FindsPart env paths entries directories) {file : FoundFile}
    (hfile : file ∈ foundFiles env.fs entries) : InScope env paths file := by
  rcases List.mem_append.mp (h.found.subset hfile) with hinput | hbelow
  · exact Or.inl hinput
  · obtain ⟨directory, hdirectory, hat⟩ := List.mem_flatMap.mp hbelow
    exact Or.inr ⟨directory, h.walked directory hdirectory, hat⟩

theorem AllUnhashed.append {front back : List OwnedEntry} (hfront : AllUnhashed front)
    (hback : AllUnhashed back) : AllUnhashed (front ++ back) := fun owned howned =>
  (List.mem_append.mp howned).elim (hfront owned) (hback owned)

theorem allUnhashed_discovered (path : Bytes) (fileSize deviceId inodeNumber : Nat)
    (owner : MemoryContext) :
    AllUnhashed [⟨.discovered path fileSize deviceId inodeNumber, owner⟩] := fun _ howned =>
  List.mem_singleton.mp howned ▸ rfl

/-! ## the serial walk -/

/-- A run of the serial walk found some of the files of `direct` and of the
directories `new`, which it visited as `allowed`, each for the first time. -/
structure WalkedPart (env : DiscoveryEnvironment) (allowed : Identity → Prop) (s s' : WalkState)
    (direct : List FoundFile) (new : List Identity) : Prop where
  visited : s'.visitedDirectories = new ++ s.visitedDirectories
  nodup : s.visitedDirectories.Nodup → s'.visitedDirectories.Nodup
  allowed : ∀ directory ∈ new, allowed directory
  found : (foundFiles env.fs s'.entries).Subperm
    (foundFiles env.fs s.entries ++ (direct ++ new.flatMap (filesOf env)))
  unhashed : AllUnhashed s.entries → AllUnhashed s'.entries

section WalkedPart

variable {env : DiscoveryEnvironment} {allowed : Identity → Prop} {s s₁ s₂ : WalkState}
  {direct direct₁ direct₂ : List FoundFile} {new new₁ new₂ : List Identity}

/-- A step that finds and visits nothing. -/
theorem walkedPart_of_eq (hvisited : s₁.visitedDirectories = s.visitedDirectories)
    (hentries : s₁.entries = s.entries) : WalkedPart env allowed s s₁ direct [] where
  visited := hvisited
  nodup hnodup := hvisited ▸ hnodup
  allowed := nofun
  found := by
    rw [hentries]
    exact (List.sublist_append_left _ _).subperm
  unhashed hunhashed := hentries ▸ hunhashed

theorem WalkedPart.trans (h₁ : WalkedPart env allowed s s₁ direct₁ new₁)
    (h₂ : WalkedPart env allowed s₁ s₂ direct₂ new₂) :
    WalkedPart env allowed s s₂ (direct₁ ++ direct₂) (new₂ ++ new₁) where
  visited := by rw [h₂.visited, h₁.visited, List.append_assoc]
  nodup hnodup := h₂.nodup (h₁.nodup hnodup)
  allowed directory hdirectory := (List.mem_append.mp hdirectory).elim (h₂.allowed directory)
    (h₁.allowed directory)
  found := (h₂.found.trans (h₁.found.append (List.Subperm.refl _))).trans
    (perm_append_flatMap (List.Perm.refl _) (List.Perm.refl _)).subperm
  unhashed hunhashed := h₂.unhashed (h₁.unhashed hunhashed)

/-- The files of a directory count once it is among the visited ones. -/
theorem WalkedPart.visit {directory : Identity}
    (h : WalkedPart env allowed s₁ s₂ (filesOf env directory) new)
    (hvisited : s₁.visitedDirectories = directory :: s.visitedDirectories)
    (hentries : s₁.entries = s.entries) (hnew : directory ∉ s.visitedDirectories)
    (hallowed : allowed directory) : WalkedPart env allowed s s₂ [] (new ++ [directory]) where
  visited := by rw [h.visited, hvisited, List.append_assoc]; rfl
  nodup hnodup := h.nodup (hvisited ▸ List.nodup_cons.mpr ⟨hnew, hnodup⟩)
  allowed other hother := by
    rcases List.mem_append.mp hother with hbelow | hself
    · exact h.allowed other hbelow
    · exact List.mem_singleton.mp hself ▸ hallowed
  found := by
    have hpart := h.found
    rw [hentries] at hpart
    exact hpart.trans (perm_append_flatMap_singleton (List.Perm.refl _)).subperm
  unhashed hunhashed := h.unhashed (hentries ▸ hunhashed)

end WalkedPart

/-- Appending an entry finds its file, or nothing. -/
theorem walkedPart_walkAppendEntry (env : DiscoveryEnvironment) (allowed : Identity → Prop)
    (s : WalkState) (path : Bytes) (fileSize : Nat) (identity : Identity) :
    WalkedPart env allowed s (walkAppendEntry env s path fileSize identity)
      (if env.options.minimumFileSize ≤ fileSize then
        [⟨(env.fs.locate path).toOption, identity, fileSize⟩] else []) [] ∧
    (walkAppendEntry env s path fileSize identity).rootDeviceId = s.rootDeviceId := by
  unfold walkAppendEntry
  split
  · exact ⟨walkedPart_of_eq rfl rfl, rfl⟩
  · next hsize =>
    rw [if_pos (Nat.le_of_not_lt hsize)]
    split
    · exact ⟨walkedPart_of_eq rfl rfl, rfl⟩
    · split
      · exact ⟨walkedPart_of_eq rfl rfl, rfl⟩
      · refine ⟨⟨rfl, id, nofun, ?_, fun hunhashed => ?_⟩, rfl⟩
        · rw [foundFiles_append, List.flatMap_nil, List.append_nil]
          exact List.Subperm.refl _
        · exact hunhashed.append (allUnhashed_discovered _ _ _ _ _)

section Directory

variable {env : DiscoveryEnvironment} {rootDeviceId : Option Nat} {allowed : Identity → Prop}
  {walk : Identity → Bytes → Bytes → WalkState → Option WalkState}

/-- What the walk of an allowed directory finds and visits, when it ends. -/
def FindsPartDown (env : DiscoveryEnvironment) (rootDeviceId : Option Nat)
    (allowed : Identity → Prop)
    (walk : Identity → Bytes → Bytes → WalkState → Option WalkState) : Prop :=
  ∀ (directory : Identity) (errorPath path : Bytes) (s s' : WalkState),
    path ≠ [] → env.fs.resolveDirectory path = .ok directory →
    env.fs.isPseudo directory = false → env.fs.openError directory = none → allowed directory →
    s.rootDeviceId = rootDeviceId → walk directory errorPath path s = some s' →
    s'.rootDeviceId = rootDeviceId ∧
      ∃ new, WalkedPart env allowed s s' (filesOf env directory) new

variable (hwalk : FindsPartDown env rootDeviceId allowed walk)
include hwalk

/-- Opening and walking a directory that was just marked as visited. -/
theorem walkedPart_opened {directory : Identity} {errorPath path : Bytes} (hpath : path ≠ [])
    (hresolve : env.fs.resolveDirectory path = .ok directory)
    (hpseudo : env.fs.isPseudo directory = false) (hallowed : allowed directory)
    {s s₁ s' : WalkState} (hvisited : s₁.visitedDirectories = directory :: s.visitedDirectories)
    (hentries : s₁.entries = s.entries) (hnew : directory ∉ s.visitedDirectories)
    (hroot : s₁.rootDeviceId = rootDeviceId)
    (hdone : (match env.fs.openError directory with
        | some errno => some (s₁.fail errorPath "open" errno)
        | none => walk directory errorPath path (s₁.opened directory)) = some s') :
    s'.rootDeviceId = rootDeviceId ∧ ∃ new, WalkedPart env allowed s s' [] new := by
  cases hopen : env.fs.openError directory with
  | some errno =>
      rw [hopen] at hdone
      cases hdone
      have hstay : WalkedPart env allowed s₁ (s₁.fail errorPath "open" errno)
        (filesOf env directory) [] := walkedPart_of_eq rfl rfl
      exact ⟨hroot, _, hstay.visit hvisited hentries hnew hallowed⟩
  | none =>
      rw [hopen] at hdone
      obtain ⟨hroot', new, hwalked⟩ := hwalk directory errorPath path (s₁.opened directory) s' hpath
        hresolve hpseudo hopen hallowed hroot hdone
      exact ⟨hroot', _, hwalked.visit hvisited hentries hnew hallowed⟩

/-- Descending into a directory of an accepted name. -/
theorem walkedPart_walkDescendChild {directory child : Identity} {name path : Bytes}
    (hpath : path ≠ []) (hresolve : env.fs.resolveDirectory path = .ok child)
    (hstat : (env.fs.link directory name).stat env.options.followSymlinks =
      .ok (.object (.directory child)))
    (hallowed : staysOnDevice env rootDeviceId child = true → allowed child) {s s' : WalkState}
    (hroot : s.rootDeviceId = rootDeviceId)
    (hdone : walkDescendChild env walk directory name path s = some s') :
    s'.rootDeviceId = rootDeviceId ∧ ∃ new, WalkedPart env allowed s s' [] new := by
  unfold walkDescendChild at hdone
  rw [hstat] at hdone
  dsimp only at hdone
  split at hdone
  · cases hdone
    exact ⟨hroot, [], walkedPart_of_eq rfl rfl⟩
  · next hdevice =>
    have hstays : staysOnDevice env rootDeviceId child = true := by
      rw [staysOnDevice, ← hroot, Bool.not_eq_true', ← Bool.not_eq_true, Bool.and_eq_true]
      exact hdevice
    split at hdone
    · cases hdone
      exact ⟨hroot, [], walkedPart_of_eq rfl rfl⟩
    · split at hdone
      · cases hdone
        exact ⟨hroot, [], walkedPart_of_eq rfl rfl⟩
      · next hnew =>
        split at hdone
        · cases hdone
          have hstay : WalkedPart env allowed (s.requested.inserted child)
            (s.requested.inserted child) (filesOf env child) [] := walkedPart_of_eq rfl rfl
          exact ⟨hroot, _, hstay.visit rfl rfl hnew (hallowed hstays)⟩
        · next hpseudo =>
          rw [pathIsPseudoFilesystem_iff hresolve, Bool.not_eq_true] at hpseudo
          have hinserted : (s.requested.inserted child).visitedDirectories =
            child :: s.visitedDirectories := rfl
          exact walkedPart_opened hwalk hpath hresolve hpseudo (hallowed hstays) hinserted rfl hnew
            hroot hdone

variable (hjoins : env.Joins)
include hjoins

/-- One name of a directory. -/
theorem walkedPart_walkHandleEntry {directory : Identity} {errorPath path name : Bytes}
    (hpath : path ≠ []) (hresolve : env.fs.resolveDirectory path = .ok directory)
    (hname : name ∈ env.fs.listing directory) (hdots : isDotEntry name = false)
    (hallowed : ∀ child ∈ childrenAt env rootDeviceId directory name, allowed child)
    {s s' : WalkState} (hroot : s.rootDeviceId = rootDeviceId)
    (hdone : walkHandleEntry env walk directory errorPath path name s = some s') :
    s'.rootDeviceId = rootDeviceId ∧
      ∃ new, WalkedPart env allowed s s' (filesAt env directory name) new := by
  have hproper := env.fs.proper_listing directory name hname
  obtain ⟨hdot, hdotDot⟩ := not_or.mp (of_decide_eq_false hdots)
  unfold walkHandleEntry at hdone
  split at hdone
  · cases hdone
    exact ⟨hroot, [], walkedPart_of_eq rfl rfl⟩
  · next hshown =>
    have hconsiders := considers_of_shown hdots hshown
    split at hdone
    · cases hdone
      exact ⟨hroot, [], walkedPart_of_eq rfl rfl⟩
    · next childPath hjoin =>
      obtain rfl := hjoins _ _ _ hjoin
      split at hdone
      · cases hdone
        exact ⟨hroot, [], walkedPart_of_eq rfl rfl⟩
      · next identity fileSize hstat =>
        split at hdone
        · next haccept =>
          cases hdone
          obtain ⟨hwalked, hroot'⟩ := walkedPart_walkAppendEntry env allowed s
            (joinPath path name) fileSize identity
          rw [env.fs.locate_joinPath hpath hresolve hproper hdot hdotDot, Except.toOption]
            at hwalked
          refine ⟨hroot'.trans hroot, [], ?_⟩
          rw [filesAt, hconsiders, if_pos rfl, hstat]
          simpa only [haccept, true_and] using hwalked
        · cases hdone
          exact ⟨hroot, [], walkedPart_of_eq rfl rfl⟩
      · next child hstat =>
        split at hdone
        · next haccept =>
          have hfiles : filesAt env directory name = [] := by
            rw [filesAt, hconsiders, if_pos rfl, hstat]
          rw [hfiles]
          exact walkedPart_walkDescendChild hwalk (joinPath_ne_nil hpath name)
            (env.fs.resolveDirectory_joinPath hpath hresolve hproper hdot hdotDot
              (Link.stat_follow hstat)) hstat
            (fun hstays => hallowed child
              (mem_childrenAt_iff_stays.mpr ⟨hconsiders, hstat, haccept, hstays⟩)) hroot hdone
        · cases hdone
          exact ⟨hroot, [], walkedPart_of_eq rfl rfl⟩
      · cases hdone
        exact ⟨hroot, [], walkedPart_of_eq rfl rfl⟩

/-- The names of a directory, one after the other, until a signal arrives. -/
theorem walkedPart_walkNames {directory : Identity} {errorPath path : Bytes} (hpath : path ≠ [])
    (hresolve : env.fs.resolveDirectory path = .ok directory) {names : List Bytes}
    (hnames : ∀ name ∈ names, name ∈ env.fs.listing directory)
    (hallowed : ∀ name ∈ names, ∀ child ∈ childrenAt env rootDeviceId directory name,
      allowed child) {s s' : WalkState} (hroot : s.rootDeviceId = rootDeviceId)
    (hdone : walkNames env walk directory errorPath path names s = some s') :
    s'.rootDeviceId = rootDeviceId ∧
      ∃ new, WalkedPart env allowed s s' (names.flatMap (filesAt env directory)) new := by
  induction names generalizing s with
  | nil =>
      unfold walkNames at hdone
      split at hdone <;>
        · cases hdone
          exact ⟨hroot, [], walkedPart_of_eq rfl rfl⟩
  | cons name names ih =>
      have hnames' := fun other hother => hnames other (List.mem_cons_of_mem _ hother)
      have hallowed' := fun other hother => hallowed other (List.mem_cons_of_mem _ hother)
      have hpolled : WalkedPart env allowed s s.polled (filesAt env directory name) [] :=
        walkedPart_of_eq rfl rfl
      rw [walkNames] at hdone
      split at hdone
      · cases hdone
        exact ⟨hroot, [], walkedPart_of_eq rfl rfl⟩
      · split at hdone
        · obtain ⟨hroot', new, hwalked⟩ := ih (s := s.polled) hnames' hallowed' hroot hdone
          exact ⟨hroot', _, hpolled.trans hwalked⟩
        · next hdots =>
          obtain ⟨s₁, hdone₁, hrest⟩ := Option.bind_eq_some_iff.mp hdone
          obtain ⟨hroot₁, new₁, hwalked₁⟩ := walkedPart_walkHandleEntry hwalk hjoins
            (s := s.polled) hpath hresolve (hnames name List.mem_cons_self)
            (eq_false_of_ne_true hdots) (hallowed name List.mem_cons_self) hroot hdone₁
          obtain ⟨hroot', new, hwalked⟩ := ih hnames' hallowed' hroot₁ hrest
          have hstart : WalkedPart env allowed s s.polled [] [] := walkedPart_of_eq rfl rfl
          exact ⟨hroot', _, (hstart.trans hwalked₁).trans hwalked⟩

end Directory

/-- **The walk of an allowed directory**, by induction on the fuel: what is
accepted in an allowed directory is allowed. -/
theorem findsPartDown_walkDirectory {env : DiscoveryEnvironment} (hjoins : env.Joins)
    {rootDeviceId : Option Nat} {allowed : Identity → Prop}
    (hclosed : ∀ directory, allowed directory →
      ∀ child ∈ childrenOf env rootDeviceId directory, allowed child) (fuel : Nat) :
    FindsPartDown env rootDeviceId allowed (walkDirectory env fuel) := by
  induction fuel with
  | zero => intro directory errorPath path s s' _ _ _ _ _ _ hdone; cases hdone
  | succ fuel ih =>
      intro directory errorPath path s s' hpath hresolve hpseudo hopen hallowed hroot hdone
      unfold walkDirectory at hdone
      split at hdone
      · cases hdone
        exact ⟨hroot, [], walkedPart_of_eq rfl rfl⟩
      · next hdup =>
        split at hdone
        · cases hdone
          exact ⟨hroot, [], walkedPart_of_eq rfl rfl⟩
        · next hfdopendir =>
          have hlist : listable env directory = true := by
            simp [listable, hpseudo, hopen, hdup, hfdopendir]
          have hchildren : ∀ name ∈ env.fs.listing directory,
              ∀ child ∈ childrenAt env rootDeviceId directory name, allowed child := by
            intro name hname child hchild
            refine hclosed directory hallowed child ?_
            rw [childrenOf, hlist, if_pos rfl]
            exact List.mem_flatMap.mpr ⟨name, hname, hchild⟩
          rw [filesOf, hlist, if_pos rfl]
          exact walkedPart_walkNames ih hjoins hpath hresolve (fun _ hname => hname) hchildren hroot
            hdone

/-! ## the inputs of the serial walk -/

section Inputs

variable {env : DiscoveryEnvironment} (hjoins : env.Joins) {rootDeviceId : Option Nat}
  {allowed : Identity → Prop} (hclosed : ∀ directory, allowed directory →
    ∀ child ∈ childrenOf env rootDeviceId directory, allowed child)
include hjoins hclosed

/-- One input path. -/
theorem walkedPart_walkProcessInputPath {fuel : Nat} {path : Bytes} {s s' : WalkState}
    (hroot : s.rootDeviceId.or (rootDeviceOf env [path]) = rootDeviceId ∨ inputRoots env path = [])
    (hallowed : ∀ root ∈ inputRoots env path, allowed root)
    (hdone : walkProcessInputPath env fuel s path = some s') :
    s'.rootDeviceId = s.rootDeviceId.or (rootDeviceOf env [path]) ∧
      ∃ new, WalkedPart env allowed s s' (inputFiles env path) new := by
  have hskipped : inputRoots env path = [] → rootDeviceOf env [path] = none := by
    intro hroots
    rw [rootDeviceOf, List.flatMap_singleton, hroots]
    rfl
  unfold walkProcessInputPath at hdone
  split at hdone
  · next hstat =>
    cases hdone
    rw [hskipped (by simp [inputRoots, hstat]), Option.or_none]
    exact ⟨rfl, [], walkedPart_of_eq rfl rfl⟩
  · next hstat =>
    cases hdone
    rw [hskipped (by simp [inputRoots, hstat]), Option.or_none]
    exact ⟨rfl, [], walkedPart_of_eq rfl rfl⟩
  · next identity fileSize hstat =>
    cases hdone
    rw [hskipped (by simp [inputRoots, hstat]), Option.or_none, inputFiles, hstat]
    obtain ⟨hwalked, hroot'⟩ := walkedPart_walkAppendEntry env allowed s path fileSize identity
    exact ⟨hroot', [], hwalked⟩
  · next identity hstat =>
    obtain ⟨hpath, hresolve⟩ := env.fs.resolveDirectory_of_statPath hstat
    split at hdone
    · next hpseudo =>
      cases hdone
      rw [pathIsPseudoFilesystem_iff hresolve] at hpseudo
      rw [hskipped (by simp [inputRoots, hstat, hpseudo]), Option.or_none]
      exact ⟨rfl, [], walkedPart_of_eq rfl rfl⟩
    · next hpseudo =>
      rw [pathIsPseudoFilesystem_iff hresolve, Bool.not_eq_true] at hpseudo
      have hroots : inputRoots env path = [identity] := by simp [inputRoots, hstat, hpseudo]
      have hdevice : rootDeviceOf env [path] = some identity.deviceId := by
        rw [rootDeviceOf, List.flatMap_singleton, hroots]
        rfl
      have hfiles : inputFiles env path = [] := by simp [inputFiles, hstat]
      rw [hroots, hdevice] at hroot
      have hrooted : (s.rooted identity).rootDeviceId = rootDeviceId :=
        hroot.resolve_right (List.cons_ne_nil _ _)
      have hsame : s.rootDeviceId.or (some identity.deviceId) = rootDeviceId := hrooted
      rw [hdevice, hfiles, hsame]
      dsimp only at hdone
      split at hdone
      · cases hdone
        exact ⟨hrooted, [], walkedPart_of_eq rfl rfl⟩
      · split at hdone
        · cases hdone
          exact ⟨hrooted, [], walkedPart_of_eq rfl rfl⟩
        · next hnew =>
          obtain ⟨htrim, hresolveTrim⟩ := resolveDirectory_trimTrailingSlashes env.fs hpath
          have hinserted : ((s.rooted identity).requested.inserted identity).visitedDirectories =
            identity :: s.visitedDirectories := rfl
          exact walkedPart_opened (findsPartDown_walkDirectory hjoins hclosed fuel) htrim
            (hresolveTrim.trans hresolve) hpseudo
            (hallowed identity (hroots ▸ List.mem_singleton_self identity)) hinserted rfl hnew
            hrooted hdone
  · next hstat =>
    cases hdone
    rw [hskipped (by simp [inputRoots, hstat]), Option.or_none]
    exact ⟨rfl, [], walkedPart_of_eq rfl rfl⟩

/-- Paths processed one after the other. -/
theorem walkedPart_foldlM {fuel : Nat} {paths : List Bytes} {s s' : WalkState}
    (hroot : s.rootDeviceId.or (rootDeviceOf env paths) = rootDeviceId ∨
      paths.flatMap (inputRoots env) = [])
    (hallowed : ∀ root ∈ paths.flatMap (inputRoots env), allowed root)
    (hdone : paths.foldlM (walkProcessInputPath env fuel) s = some s') :
    s'.rootDeviceId = s.rootDeviceId.or (rootDeviceOf env paths) ∧
      ∃ new, WalkedPart env allowed s s' (paths.flatMap (inputFiles env)) new := by
  induction paths generalizing s with
  | nil =>
      cases hdone
      exact ⟨by simp [rootDeviceOf], [], walkedPart_of_eq rfl rfl⟩
  | cons path paths ih =>
      rw [List.foldlM_cons] at hdone
      obtain ⟨s₁, hdone₁, hrest⟩ := Option.bind_eq_some_iff.mp hdone
      obtain ⟨hfirst, hlater⟩ := rootDeviceOf_split env [path] paths hroot
      rw [List.flatMap_singleton] at hfirst
      rw [List.flatMap_cons] at hallowed ⊢
      obtain ⟨hroot₁, new₁, hwalked₁⟩ := walkedPart_walkProcessInputPath hjoins hclosed hfirst
        (fun root hmem => hallowed root (List.mem_append_left _ hmem)) hdone₁
      obtain ⟨hroot', new, hwalked⟩ := ih (by rw [hroot₁]; exact hlater)
        (fun root hmem => hallowed root (List.mem_append_right _ hmem)) hrest
      refine ⟨?_, _, hwalked₁.trans hwalked⟩
      rw [hroot', hroot₁, Option.or_assoc, ← rootDeviceOf_append, List.singleton_append]

/-- The inputs, each expanded, until a signal arrives. -/
theorem walkedPart_walkInputs {fuel : Nat} {inputs : List Bytes} {s s' : WalkState}
    (hroot : s.rootDeviceId.or (rootDeviceOf env (inputs.flatMap (serialPaths env))) = rootDeviceId)
    (hallowed : ∀ root ∈ (inputs.flatMap (serialPaths env)).flatMap (inputRoots env), allowed root)
    (hdone : walkInputs env fuel inputs s = some s') :
    ∃ new, WalkedPart env allowed s s'
      ((inputs.flatMap (serialPaths env)).flatMap (inputFiles env)) new := by
  induction inputs generalizing s with
  | nil =>
      cases hdone
      exact ⟨[], walkedPart_of_eq rfl rfl⟩
  | cons input inputs ih =>
      rw [List.flatMap_cons] at hroot
      rw [List.flatMap_cons, List.flatMap_append] at hallowed ⊢
      rw [walkInputs] at hdone
      split at hdone
      · cases hdone
        exact ⟨[], walkedPart_of_eq rfl rfl⟩
      · rw [← apply_ite (fun result : Option WalkState => result.bind (walkInputs env fuel inputs)),
          serialExpanded_eq env fuel s.polled input] at hdone
        obtain ⟨s₁, hdone₁, hrest⟩ := Option.bind_eq_some_iff.mp hdone
        generalize ht : s.polled.reported (serialGlobErrors env input) = t at hdone₁
        have hstart : WalkedPart env allowed s t [] [] ∧ t.rootDeviceId = s.rootDeviceId := by
          rw [← ht]
          exact ⟨walkedPart_of_eq rfl rfl, rfl⟩
        obtain ⟨hfirst, hlater⟩ := rootDeviceOf_front env hroot
        rw [← hstart.2] at hfirst hlater
        obtain ⟨hroot₁, new₁, hwalked₁⟩ := walkedPart_foldlM hjoins hclosed hfirst
          (fun root hmem => hallowed root (List.mem_append_left _ hmem)) hdone₁
        obtain ⟨new, hwalked⟩ := ih (by rw [hroot₁]; exact hlater)
          (fun root hmem => hallowed root (List.mem_append_right _ hmem)) hrest
        exact ⟨_, (hstart.1.trans hwalked₁).trans hwalked⟩

end Inputs

/-- What can be reached is closed under entering what is accepted. -/
theorem InWalk.child {env : DiscoveryEnvironment} {paths : List Bytes} {directory child : Identity}
    (h : InWalk env paths directory)
    (hchild : child ∈ childrenOf env (rootDeviceOf env paths) directory) :
    InWalk env paths child := by
  obtain ⟨root, hroot, hpath⟩ := h
  exact ⟨root, hroot, hpath.tail hchild⟩

/-- **The serial walk finds part of what is in scope**, each directory once,
whatever fails and whenever a signal arrives. -/
theorem serial_finds_part {env : DiscoveryEnvironment} (hjoins : env.Joins) {fuel : Nat}
    {inputs : List Bytes} {result : DiscoveryResult}
    (hdone : discoveryExpand env fuel inputs = some result) :
    ∃ directories, FindsPart env (inputs.flatMap (serialPaths env)) result.entries directories ∧
      directories.Nodup := by
  generalize hpaths : inputs.flatMap (serialPaths env) = paths
  unfold discoveryExpand at hdone
  split at hdone
  · cases hdone
    exact ⟨[], ⟨List.nil_subperm, nofun, nofun⟩, List.nodup_nil⟩
  · obtain ⟨s, hwalked, rfl⟩ := Option.map_eq_some_iff.mp hdone
    obtain ⟨new, hpart⟩ := @walkedPart_walkInputs env hjoins (rootDeviceOf env paths)
      (InWalk env paths) (fun _ hallowed _ hchild => hallowed.child hchild) fuel inputs _ s
      (by rw [hpaths]; rfl) (by rw [hpaths]; exact fun root hroot => ⟨root, hroot, .refl⟩) hwalked
    rw [hpaths] at hpart
    have hvisited : s.visitedDirectories = new := hpart.visited.trans (List.append_nil _)
    exact ⟨new, ⟨hpart.found, hpart.allowed, hpart.unhashed nofun⟩,
      hvisited ▸ hpart.nodup List.nodup_nil⟩

end BcDuplicate
