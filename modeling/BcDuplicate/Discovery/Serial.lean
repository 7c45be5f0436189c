import BcDuplicate.Discovery.Tree
import BcDuplicate.Discovery.Walk

/-!
# BcDuplicate.Discovery.Serial

The serial walk is a depth-first search over the tree of
`BcDuplicate.Discovery.Tree`: undisturbed, it visits what `Search.search`
visits, and its entries are the files of the visited directories, each
directory once, together with the files among the inputs
(`discoveryExpand_found`).
-/

namespace BcDuplicate

open FileSystem
open Overlap
open Search

/-- A run of the serial walk visited `new` and found `direct` besides the
files of the directories it visited. -/
structure Walked (env : DiscoveryEnvironment) (s s' : WalkState) (direct : List FoundFile)
    (new : List Identity) : Prop where
  visited : s'.visitedDirectories = new ++ s.visitedDirectories
  found : (foundFiles env.fs s'.entries).Perm
    (foundFiles env.fs s.entries ++ (direct ++ new.flatMap (filesOf env)))
  opened : s'.openedDirectories.Perm (s.openedDirectories ++ new.filter (opens env))

section Walked

variable {env : DiscoveryEnvironment} {s s₁ s₂ : WalkState} {direct direct₁ direct₂ : List FoundFile}
  {new new₁ new₂ : List Identity}

/-- A step that leaves the entries and the visited directories alone. -/
theorem walked_of_eq (hvisited : s₁.visitedDirectories = s.visitedDirectories)
    (hentries : s₁.entries = s.entries) (hopened : s₁.openedDirectories = s.openedDirectories) :
    Walked env s s₁ [] [] :=
  ⟨hvisited, by rw [hentries, List.flatMap_nil, List.append_nil, List.append_nil],
    by rw [hopened, List.filter_nil, List.append_nil]⟩

theorem Walked.trans (h₁ : Walked env s s₁ direct₁ new₁) (h₂ : Walked env s₁ s₂ direct₂ new₂) :
    Walked env s s₂ (direct₁ ++ direct₂) (new₂ ++ new₁) where
  visited := by rw [h₂.visited, h₁.visited, List.append_assoc]
  found := perm_append_flatMap h₁.found h₂.found
  opened := by
    refine h₂.opened.trans ((h₁.opened.append_right _).trans ?_)
    rw [List.filter_append, List.append_assoc]
    exact List.perm_append_comm.append_left _

/-- The files of a directory count once it is among the visited ones. -/
theorem Walked.visit {directory : Identity} (h : Walked env s₁ s₂ (filesOf env directory) new)
    (hvisited : s₁.visitedDirectories = directory :: s.visitedDirectories)
    (hentries : s₁.entries = s.entries)
    (hopened : s₁.openedDirectories = s.openedDirectories ++ [directory].filter (opens env)) :
    Walked env s s₂ [] (new ++ [directory]) where
  visited := by rw [h.visited, hvisited, List.append_assoc]; rfl
  found := by
    have hperm := h.found
    rw [hentries] at hperm
    exact perm_append_flatMap_singleton hperm
  opened := by
    have hperm := h.opened
    rw [hopened, List.append_assoc] at hperm
    refine hperm.trans (List.Perm.append_left _ ?_)
    rw [List.filter_append]
    exact List.perm_append_comm

end Walked

/-- Appending an entry finds its file, unless it is too small. -/
theorem walked_walkAppendEntry {env : DiscoveryEnvironment} (hquiet : env.Undisturbed)
    (s : WalkState) (path : Bytes) (fileSize : Nat) (identity : Identity) :
    Walked env s (walkAppendEntry env s path fileSize identity)
      (if env.options.minimumFileSize ≤ fileSize then
        [⟨(env.fs.locate path).toOption, identity, fileSize⟩] else []) [] ∧
    (walkAppendEntry env s path fileSize identity).rootDeviceId = s.rootDeviceId := by
  unfold walkAppendEntry
  by_cases hsize : fileSize < env.options.minimumFileSize
  · rw [if_pos hsize, if_neg (Nat.not_le_of_lt hsize)]
    exact ⟨walked_of_eq rfl rfl rfl, rfl⟩
  · rw [if_neg hsize, if_pos (Nat.le_of_not_lt hsize), hquiet.allocates, hquiet.allocates]
    refine ⟨⟨rfl, ?_, by rw [List.filter_nil, List.append_nil]; rfl⟩, rfl⟩
    simp only [reduceCtorEq, if_false, foundFiles_append, List.flatMap_nil, List.append_nil]
    rfl

/-- The state with errors added. -/
def WalkState.reported (s : WalkState) (errors : List DiscoveryError) : WalkState :=
  { s with errors := s.errors ++ errors }

@[simp] theorem WalkState.reported_nil (s : WalkState) : s.reported [] = s := by
  rw [reported, List.append_nil]

/-! ## one directory -/

/-- What the walk of a directory does, when the search visits it. -/
def WalksDown (env : DiscoveryEnvironment) (rootDeviceId : Option Nat)
    (visit : Identity → List Identity → Option (List Identity))
    (walk : Identity → Bytes → Bytes → WalkState → Option WalkState) : Prop :=
  ∀ (directory : Identity) (errorPath path : Bytes) (s : WalkState) (visited : List Identity),
    path ≠ [] → env.fs.resolveDirectory path = .ok directory →
    env.fs.isPseudo directory = false → env.fs.openError directory = none →
    s.rootDeviceId = rootDeviceId → visit directory s.visitedDirectories = some visited →
    ∃ s' new, walk directory errorPath path s = some s' ∧ s'.visitedDirectories = visited ∧
      s'.rootDeviceId = rootDeviceId ∧ Walked env s s' (filesOf env directory) new

/-- What the search visits, when it visits a directory. -/
def VisitsDown (env : DiscoveryEnvironment) (rootDeviceId : Option Nat)
    (visit : Identity → List Identity → Option (List Identity)) : Prop :=
  ∀ directory visited visited', visit directory visited = some visited' →
    ∃ new, visited' = new ++ visited ∧
      Explores id (childrenOf env rootDeviceId) (childrenOf env rootDeviceId directory) new visited

section Directory

variable {env : DiscoveryEnvironment} {rootDeviceId : Option Nat}
  {visit : Identity → List Identity → Option (List Identity)}
  {walk : Identity → Bytes → Bytes → WalkState → Option WalkState}

/-- A directory that cannot be listed is visited, and that is all. -/
theorem eq_of_not_listable (hvisit : VisitsDown env rootDeviceId visit) {directory : Identity}
    (hlist : listable env directory = false) {visited visited' : List Identity}
    (h : visit directory visited = some visited') : visited' = visited := by
  obtain ⟨new, rfl, hexplores⟩ := hvisit _ _ _ h
  have hnil : childrenOf env rootDeviceId directory = [] := by rw [childrenOf, hlist]; rfl
  rw [hnil] at hexplores
  have hnew : new = [] := List.eq_nil_iff_forall_not_mem.mpr fun a ha => by
    obtain ⟨root, hroot, _⟩ := hexplores.reached a ha
    cases hroot
  rw [hnew, List.nil_append]

/-- Opening and walking a directory that was just marked as visited. -/
theorem exists_opened (hvisit : VisitsDown env rootDeviceId visit)
    (hwalk : WalksDown env rootDeviceId visit walk) {directory : Identity}
    {errorPath path : Bytes} (hpath : path ≠ [])
    (hresolve : env.fs.resolveDirectory path = .ok directory)
    (hpseudo : env.fs.isPseudo directory = false) {s s₁ : WalkState}
    (hvisited : s₁.visitedDirectories = directory :: s.visitedDirectories)
    (hentries : s₁.entries = s.entries) (hroot : s₁.rootDeviceId = rootDeviceId)
    (hopened : s₁.openedDirectories = s.openedDirectories) {visited : List Identity}
    (h : visit directory (directory :: s.visitedDirectories) = some visited) :
    ∃ s' new, (match env.fs.openError directory with
        | some errno => some (s₁.fail errorPath "open" errno)
        | none => walk directory errorPath path (s₁.opened directory)) = some s' ∧
      s'.visitedDirectories = visited ∧ s'.rootDeviceId = rootDeviceId ∧
      Walked env s s' [] new := by
  cases hopen : env.fs.openError directory with
  | none =>
      obtain ⟨s', new, hdone, hvisited', hroot', hwalked⟩ := hwalk directory errorPath path
        (s₁.opened directory) visited hpath hresolve hpseudo hopen hroot
        (by rw [← hvisited] at h; exact h)
      have hopens : [directory].filter (opens env) = [directory] := by simp [opens, hpseudo, hopen]
      refine ⟨s', new ++ [directory], hdone, hvisited', hroot',
        hwalked.visit hvisited hentries ?_⟩
      rw [hopens, ← hopened]
      rfl
  | some errno =>
      have hlist : listable env directory = false := by simp [listable, hopen]
      have hfiles : filesOf env directory = [] := by rw [filesOf, hlist]; rfl
      refine ⟨s₁.fail errorPath "open" errno, [] ++ [directory], rfl, ?_, hroot,
        Walked.visit ?_ hvisited hentries ?_⟩
      · rw [eq_of_not_listable hvisit hlist h]
        exact hvisited
      · rw [hfiles]
        exact walked_of_eq rfl rfl rfl
      · have hopens : [directory].filter (opens env) = [] := by simp [opens, hopen]
        rw [hopens, List.append_nil, hopened]

variable (hquiet : env.Undisturbed) (hvisit : VisitsDown env rootDeviceId visit)
  (hwalk : WalksDown env rootDeviceId visit walk)
include hquiet hvisit hwalk

/-- Descending into a directory of an accepted name: nothing when another
device or an earlier visit forbids it, and otherwise a visit. -/
theorem walked_walkDescendChild {directory child : Identity} {name path : Bytes}
    (hpath : path ≠ []) (hresolve : env.fs.resolveDirectory path = .ok child)
    (hstat : (env.fs.link directory name).stat env.options.followSymlinks =
      .ok (.object (.directory child)))
    {s : WalkState} (hroot : s.rootDeviceId = rootDeviceId) {visited : List Identity}
    (h : (if staysOnDevice env rootDeviceId child then [child] else []).foldlM (unseen id visit)
      s.visitedDirectories = some visited) :
    ∃ s' new, walkDescendChild env walk directory name path s = some s' ∧
      s'.visitedDirectories = visited ∧ s'.rootDeviceId = rootDeviceId ∧
      Walked env s s' [] new := by
  have hdevice : (env.options.oneFileSystem = true ∧ s.rootDeviceId.any (child.deviceId ≠ ·) = true)
      ↔ staysOnDevice env rootDeviceId child = false := by
    rw [hroot, staysOnDevice, Bool.not_eq_false', Bool.and_eq_true]
  unfold walkDescendChild
  rw [hstat]
  dsimp only
  cases hstays : staysOnDevice env rootDeviceId child with
  | false =>
      rw [hstays] at h
      cases h
      rw [if_pos (hdevice.mpr hstays)]
      exact ⟨s, [], rfl, rfl, hroot, walked_of_eq rfl rfl rfl⟩
  | true =>
      rw [if_neg (by rw [hdevice, hstays]; exact Bool.noConfusion), hquiet.allocates,
        if_neg Bool.noConfusion]
      rw [hstays, if_pos rfl, List.foldlM_cons] at h
      obtain ⟨mid, hmid, hrest⟩ := Option.bind_eq_some_iff.mp h
      cases hrest
      by_cases hseen : child ∈ s.visitedDirectories
      · rw [unseen, if_pos (by rwa [List.map_id])] at hmid
        cases hmid
        rw [if_pos hseen]
        exact ⟨_, [], rfl, rfl, hroot, walked_of_eq rfl rfl rfl⟩
      · rw [unseen, if_neg (by rwa [List.map_id])] at hmid
        have hinserted : (s.requested.inserted child).visitedDirectories =
            child :: s.visitedDirectories := rfl
        rw [if_neg hseen]
        cases hpseudo : env.fs.isPseudo child with
        | true =>
            have hlist : listable env child = false := by simp [listable, hpseudo]
            have hfiles : filesOf env child = [] := by rw [filesOf, hlist]; rfl
            rw [if_pos ((pathIsPseudoFilesystem_iff hresolve).mpr hpseudo)]
            refine ⟨_, [] ++ [child], rfl, (eq_of_not_listable hvisit hlist hmid).symm, hroot,
              Walked.visit ?_ hinserted rfl ?_⟩
            · rw [hfiles]
              exact walked_of_eq rfl rfl rfl
            · simp [opens, hpseudo, WalkState.requested, WalkState.inserted]
        | false =>
            rw [if_neg (by
              rw [pathIsPseudoFilesystem_iff hresolve, hpseudo]
              exact Bool.noConfusion)]
            exact exists_opened hvisit hwalk hpath hresolve hpseudo hinserted rfl hroot rfl hmid

/-- One name of a directory. -/
theorem walked_walkHandleEntry {directory : Identity} {errorPath path name : Bytes}
    (hpath : path ≠ []) (hresolve : env.fs.resolveDirectory path = .ok directory)
    (hname : name ∈ env.fs.listing directory) (hdots : isDotEntry name = false) {s : WalkState}
    (hroot : s.rootDeviceId = rootDeviceId) {visited : List Identity}
    (h : (childrenAt env rootDeviceId directory name).foldlM (unseen id visit)
      s.visitedDirectories = some visited) :
    ∃ s' new, walkHandleEntry env walk directory errorPath path name s = some s' ∧
      s'.visitedDirectories = visited ∧ s'.rootDeviceId = rootDeviceId ∧
      Walked env s s' (filesAt env directory name) new := by
  have hproper := env.fs.proper_listing directory name hname
  obtain ⟨hdot, hdotDot⟩ := not_or.mp (of_decide_eq_false hdots)
  have hsame : ∀ {result : List Identity}, ([] : List Identity).foldlM (unseen id visit)
      s.visitedDirectories = some result → s.visitedDirectories = result := fun h =>
    Option.some.inj h
  unfold walkHandleEntry
  by_cases hhidden : env.options.includeHidden = false ∧ name.head? = some 46
  · have hnot := considers_of_hidden hhidden
    rw [childrenAt, hnot] at h
    rw [if_pos hhidden, filesAt, hnot]
    exact ⟨s, [], rfl, hsame h, hroot, walked_of_eq rfl rfl rfl⟩
  · have hconsiders := considers_of_shown hdots hhidden
    rw [if_neg hhidden, hquiet.pathJoin]
    dsimp only
    rw [childrenAt, hconsiders, if_pos rfl] at h
    rw [filesAt, hconsiders, if_pos rfl]
    cases hstat : (env.fs.link directory name).stat env.options.followSymlinks with
    | error errno =>
        rw [hstat] at h
        exact ⟨_, [], rfl, hsame h, hroot, walked_of_eq rfl rfl rfl⟩
    | ok status =>
        rw [hstat] at h
        match status, hstat with
        | .symbolicLink, _ => exact ⟨s, [], rfl, hsame h, hroot, walked_of_eq rfl rfl rfl⟩
        | .object .other, _ => exact ⟨s, [], rfl, hsame h, hroot, walked_of_eq rfl rfl rfl⟩
        | .object (.regular identity fileSize), _ =>
            dsimp only at h ⊢
            by_cases haccept : filterAcceptsFile env.fnmatch env.filter name = true
            · rw [if_pos haccept]
              obtain ⟨hwalked, hroot'⟩ := walked_walkAppendEntry hquiet s (joinPath path name)
                fileSize identity
              rw [env.fs.locate_joinPath hpath hresolve hproper hdot hdotDot, Except.toOption]
                at hwalked
              refine ⟨_, [], rfl, ?_, hroot'.trans hroot, ?_⟩
              · rw [hwalked.visited, List.nil_append]
                exact hsame h
              · simpa only [haccept, true_and] using hwalked
            · rw [if_neg haccept, if_neg fun hboth => haccept hboth.1]
              exact ⟨s, [], rfl, hsame h, hroot, walked_of_eq rfl rfl rfl⟩
        | .object (.directory child), hstat =>
            dsimp only at h ⊢
            by_cases haccept : filterAcceptsDirectory env.fnmatch env.filter name = true
            · rw [if_pos haccept]
              simp only [haccept, true_and] at h
              exact walked_walkDescendChild hquiet hvisit hwalk
                (joinPath_ne_nil hpath name) (env.fs.resolveDirectory_joinPath hpath hresolve
                  hproper hdot hdotDot (Link.stat_follow hstat)) hstat hroot h
            · rw [if_neg fun hboth => haccept hboth.1] at h
              rw [if_neg haccept]
              exact ⟨s, [], rfl, hsame h, hroot, walked_of_eq rfl rfl rfl⟩

/-- The names of a directory, one after the other. -/
theorem walked_walkNames {directory : Identity} {errorPath path : Bytes} (hpath : path ≠ [])
    (hresolve : env.fs.resolveDirectory path = .ok directory) {names : List Bytes}
    (hnames : ∀ name ∈ names, name ∈ env.fs.listing directory) {s : WalkState}
    (hroot : s.rootDeviceId = rootDeviceId) {visited : List Identity}
    (h : (names.flatMap (childrenAt env rootDeviceId directory)).foldlM (unseen id visit)
      s.visitedDirectories = some visited) :
    ∃ s' new, walkNames env walk directory errorPath path names s = some s' ∧
      s'.visitedDirectories = visited ∧ s'.rootDeviceId = rootDeviceId ∧
      Walked env s s' (names.flatMap (filesAt env directory)) new := by
  induction names generalizing s with
  | nil =>
      cases h
      unfold walkNames
      cases env.fs.readdirError directory with
      | none => exact ⟨s, [], rfl, rfl, hroot, walked_of_eq rfl rfl rfl⟩
      | some errno => exact ⟨_, [], rfl, rfl, hroot, walked_of_eq rfl rfl rfl⟩
  | cons name names ih =>
      rw [List.flatMap_cons, List.foldlM_append] at h
      obtain ⟨mid, hmid, hrest⟩ := Option.bind_eq_some_iff.mp h
      have hpolled : Walked env s s.polled [] [] := walked_of_eq rfl rfl rfl
      have hnames' := fun other hother => hnames other (List.mem_cons_of_mem _ hother)
      rw [walkNames, hquiet.shouldStop, if_neg Bool.noConfusion, List.flatMap_cons]
      cases hdots : isDotEntry name with
      | true =>
          have hnot : considers env name = false := considers_of_dotEntry hdots
          rw [childrenAt, hnot] at hmid
          cases hmid
          obtain ⟨s', new, hdone, hvisited', hroot', hwalked⟩ := ih (s := s.polled) hnames' hroot
            hrest
          rw [if_pos rfl, filesAt, hnot]
          exact ⟨s', new ++ [], hdone, hvisited', hroot', hpolled.trans hwalked⟩
      | false =>
          rw [if_neg Bool.noConfusion]
          obtain ⟨s₁, new₁, hdone₁, hvisited₁, hroot₁, hwalked₁⟩ := walked_walkHandleEntry hquiet
            hvisit hwalk (s := s.polled) hpath hresolve (hnames name List.mem_cons_self) hdots hroot
            hmid
          obtain ⟨s', new, hdone, hvisited', hroot', hwalked⟩ := ih (s := s₁) hnames' hroot₁
            (by rw [hvisited₁]; exact hrest)
          rw [hdone₁]
          exact ⟨s', _, hdone, hvisited', hroot',
            (hpolled.trans hwalked₁).trans hwalked⟩

end Directory

/-! ## all directories -/

section Walk

variable {env : DiscoveryEnvironment} (hquiet : env.Undisturbed) (rootDeviceId : Option Nat)
include hquiet

/-- The walk of a directory follows the search, with the same fuel. -/
theorem walksDown_walkDirectory (fuel : Nat) : WalksDown env rootDeviceId
    (searchFrom id (childrenOf env rootDeviceId) fuel) (walkDirectory env fuel) := by
  induction fuel with
  | zero => intro directory errorPath path s visited _ _ _ _ _ h; cases h
  | succ fuel ih =>
      intro directory errorPath path s visited hpath hresolve hpseudo hopen hroot h
      have hvisit : VisitsDown env rootDeviceId
          (searchFrom id (childrenOf env rootDeviceId) fuel) := fun _ _ _ =>
        explores_of_searchFrom
      rw [searchFrom] at h
      unfold walkDirectory
      cases hdup : env.fs.dupError directory with
      | some errno =>
          have hlist : listable env directory = false := by simp [listable, hdup]
          rw [childrenOf, hlist] at h
          rw [filesOf, hlist]
          exact ⟨_, [], rfl, Option.some.inj h, hroot, walked_of_eq rfl rfl rfl⟩
      | none =>
          dsimp only
          cases hfdopendir : env.fs.fdopendirError directory with
          | some errno =>
              have hlist : listable env directory = false := by simp [listable, hfdopendir]
              rw [childrenOf, hlist] at h
              rw [filesOf, hlist]
              exact ⟨_, [], rfl, Option.some.inj h, hroot, walked_of_eq rfl rfl rfl⟩
          | none =>
              have hlist : listable env directory = true := by
                simp [listable, hpseudo, hopen, hdup, hfdopendir]
              rw [childrenOf, hlist, if_pos rfl] at h
              rw [filesOf, hlist, if_pos rfl]
              exact walked_walkNames hquiet hvisit ih hpath hresolve (fun _ hname => hname) hroot h

end Walk

/-! ## the inputs -/

section Inputs

variable {env : DiscoveryEnvironment} (hquiet : env.Undisturbed) {rootDeviceId : Option Nat}
include hquiet

omit hquiet in
/-- A path that names neither a file nor a directory to walk is passed over. -/
theorem exists_walked_of_skipped {path : Bytes} (s s' : WalkState) {fuel : Nat}
    (hfiles : inputFiles env path = []) (hroots : inputRoots env path = [])
    (hvisited : s'.visitedDirectories = s.visitedDirectories) (hentries : s'.entries = s.entries)
    (hopened : s'.openedDirectories = s.openedDirectories)
    (hrootDevice : s'.rootDeviceId = s.rootDeviceId) {visited : List Identity}
    (h : (inputRoots env path).foldlM
        (unseen id (searchFrom id (childrenOf env rootDeviceId) fuel)) s.visitedDirectories =
      some visited) :
    ∃ t new, some s' = some t ∧ t.visitedDirectories = visited ∧
      t.rootDeviceId = s.rootDeviceId.or (rootDeviceOf env [path]) ∧
      Walked env s t (inputFiles env path) new := by
  rw [hroots] at h
  rw [hfiles, rootDeviceOf, List.flatMap_singleton, hroots]
  exact ⟨s', [], rfl, hvisited.trans (Option.some.inj h), hrootDevice.trans Option.or_none.symm,
    walked_of_eq hvisited hentries hopened⟩

/-- A root: nothing when an earlier walk visited it, and otherwise a visit. -/
theorem exists_walkedRoot {fuel : Nat} {path : Bytes} (hpath : path ≠ []) {identity : Identity}
    (hresolve : env.fs.resolveDirectory path = .ok identity)
    (hpseudo : env.fs.isPseudo identity = false) {s : WalkState}
    (hroot : (s.rooted identity).rootDeviceId = rootDeviceId) {visited : List Identity}
    (h : unseen id (searchFrom id (childrenOf env rootDeviceId) fuel) s.visitedDirectories
      identity = some visited) :
    ∃ s' new, (if identity ∈ (s.rooted identity).visitedDirectories then
        some (s.rooted identity).requested
      else
        match env.fs.openError identity with
        | some errno =>
            some (((s.rooted identity).requested.inserted identity).fail path "open" errno)
        | none => walkDirectory env fuel identity path (trimTrailingSlashes path)
            (((s.rooted identity).requested.inserted identity).opened identity)) = some s' ∧
      s'.visitedDirectories = visited ∧ s'.rootDeviceId = rootDeviceId ∧
      Walked env s s' [] new := by
  have hsame : (s.rooted identity).visitedDirectories = s.visitedDirectories := rfl
  rw [hsame]
  by_cases hseen : identity ∈ s.visitedDirectories
  · rw [unseen, if_pos (by rwa [List.map_id])] at h
    cases h
    rw [if_pos hseen]
    exact ⟨_, [], rfl, rfl, hroot, walked_of_eq rfl rfl rfl⟩
  · rw [unseen, if_neg (by rwa [List.map_id])] at h
    rw [if_neg hseen]
    obtain ⟨htrim, hresolveTrim⟩ := resolveDirectory_trimTrailingSlashes env.fs hpath
    have hinserted : ((s.rooted identity).requested.inserted identity).visitedDirectories =
        identity :: s.visitedDirectories := rfl
    exact exists_opened (fun _ _ _ => explores_of_searchFrom)
      (walksDown_walkDirectory hquiet rootDeviceId fuel) htrim (hresolveTrim.trans hresolve) hpseudo
      hinserted rfl hroot rfl h

/-- One input path. -/
theorem walked_walkProcessInputPath {fuel : Nat} {path : Bytes} {s : WalkState}
    (hroot : s.rootDeviceId.or (rootDeviceOf env [path]) = rootDeviceId ∨ inputRoots env path = [])
    {visited : List Identity}
    (h : (inputRoots env path).foldlM
        (unseen id (searchFrom id (childrenOf env rootDeviceId) fuel)) s.visitedDirectories =
      some visited) :
    ∃ s' new, walkProcessInputPath env fuel s path = some s' ∧ s'.visitedDirectories = visited ∧
      s'.rootDeviceId = s.rootDeviceId.or (rootDeviceOf env [path]) ∧
      Walked env s s' (inputFiles env path) new := by
  unfold walkProcessInputPath
  cases hstat : env.fs.statPath env.options.followSymlinks path with
  | error errno =>
      exact exists_walked_of_skipped s (s.fail path "stat" errno) (by simp [inputFiles, hstat])
        (by simp [inputRoots, hstat]) rfl rfl rfl rfl h
  | ok status =>
      match status, hstat with
      | .symbolicLink, hstat =>
          exact exists_walked_of_skipped s (s.fail path "skip-symlink" .ELOOP)
            (by simp [inputFiles, hstat]) (by simp [inputRoots, hstat]) rfl rfl rfl rfl h
      | .object .other, hstat =>
          exact exists_walked_of_skipped s (s.fail path "skip-other" .EINVAL)
            (by simp [inputFiles, hstat]) (by simp [inputRoots, hstat]) rfl rfl rfl rfl h
      | .object (.regular identity fileSize), hstat =>
          have hroots : inputRoots env path = [] := by simp [inputRoots, hstat]
          obtain ⟨hwalked, hroot'⟩ := walked_walkAppendEntry hquiet s path fileSize identity
          rw [hroots] at h
          rw [inputFiles, hstat, rootDeviceOf, List.flatMap_singleton, hroots]
          refine ⟨_, [], rfl, ?_, hroot'.trans Option.or_none.symm, hwalked⟩
          rw [hwalked.visited, List.nil_append]
          exact Option.some.inj h
      | .object (.directory identity), hstat =>
          have hfiles : inputFiles env path = [] := by simp [inputFiles, hstat]
          obtain ⟨hpath, hresolve⟩ := env.fs.resolveDirectory_of_statPath hstat
          dsimp only
          cases hpseudo : env.fs.isPseudo identity with
          | true =>
              rw [if_pos ((pathIsPseudoFilesystem_iff hresolve).mpr hpseudo)]
              exact exists_walked_of_skipped s s hfiles (by simp [inputRoots, hstat, hpseudo])
                rfl rfl rfl rfl h
          | false =>
              have hroots : inputRoots env path = [identity] := by
                simp [inputRoots, hstat, hpseudo]
              have hdevice : rootDeviceOf env [path] = some identity.deviceId := by
                simp [rootDeviceOf, hroots]
              rw [if_neg (by
                rw [pathIsPseudoFilesystem_iff hresolve, hpseudo]
                exact Bool.noConfusion), hquiet.allocates, if_neg Bool.noConfusion, hfiles, hdevice]
              rw [hroots, List.foldlM_cons] at h
              obtain ⟨mid, hmid, hrest⟩ := Option.bind_eq_some_iff.mp h
              cases hrest
              replace hroot : (s.rooted identity).rootDeviceId = rootDeviceId := by
                rw [hdevice] at hroot
                exact hroot.resolve_right (by rw [hroots]; exact List.cons_ne_nil _ _)
              have hsame : s.rootDeviceId.or (some identity.deviceId) = rootDeviceId := hroot
              rw [hsame]
              exact exists_walkedRoot hquiet hpath hresolve hpseudo hroot hmid

/-- Paths processed one after the other. -/
theorem walked_foldlM {fuel : Nat} {paths : List Bytes} {s : WalkState}
    (hroot : s.rootDeviceId.or (rootDeviceOf env paths) = rootDeviceId ∨
      paths.flatMap (inputRoots env) = []) {visited : List Identity}
    (h : (paths.flatMap (inputRoots env)).foldlM
        (unseen id (searchFrom id (childrenOf env rootDeviceId) fuel)) s.visitedDirectories =
      some visited) :
    ∃ s' new, paths.foldlM (walkProcessInputPath env fuel) s = some s' ∧
      s'.visitedDirectories = visited ∧
      s'.rootDeviceId = s.rootDeviceId.or (rootDeviceOf env paths) ∧
      Walked env s s' (paths.flatMap (inputFiles env)) new := by
  induction paths generalizing s with
  | nil =>
      cases h
      exact ⟨s, [], rfl, rfl, by simp [rootDeviceOf], walked_of_eq rfl rfl rfl⟩
  | cons path paths ih =>
      rw [List.flatMap_cons, List.foldlM_append] at h
      obtain ⟨mid, hmid, hrest⟩ := Option.bind_eq_some_iff.mp h
      obtain ⟨hfirst, hlater⟩ := rootDeviceOf_split env [path] paths hroot
      rw [List.flatMap_singleton] at hfirst
      obtain ⟨s₁, new₁, hdone₁, hvisited₁, hroot₁, hwalked₁⟩ :=
        walked_walkProcessInputPath hquiet hfirst hmid
      obtain ⟨s', new, hdone, hvisited', hroot', hwalked⟩ := ih
        (by rw [hroot₁]; exact hlater) (by rw [hvisited₁]; exact hrest)
      refine ⟨s', _, ?_, hvisited', ?_, hwalked₁.trans hwalked⟩
      · rw [List.foldlM_cons, hdone₁]
        exact hdone
      · rw [hroot', hroot₁, Option.or_assoc, ← rootDeviceOf_append, List.singleton_append]

omit hquiet in
/-- **An input is processed as the paths it is expanded to**, behind the errors
of the expansion itself. -/
theorem serialExpanded_eq (env : DiscoveryEnvironment) (fuel : Nat) (s : WalkState)
    (input : Bytes) :
    (if globContainsMetacharacter input then walkExpandGlob env fuel s input
      else walkProcessInputPath env fuel s input) =
      (serialPaths env input).foldlM (walkProcessInputPath env fuel)
        (s.reported (serialGlobErrors env input)) := by
  unfold serialPaths serialGlobErrors walkExpandGlob
  split
  · cases env.glob input with
    | none => rfl
    | some matched =>
        dsimp only
        split
        · rfl
        · rw [WalkState.reported_nil]
  · rw [WalkState.reported_nil]
    exact (bind_pure _).symm

/-- The inputs, each expanded. -/
theorem walked_walkInputs {fuel : Nat} {inputs : List Bytes} {s : WalkState}
    (hroot : s.rootDeviceId.or (rootDeviceOf env (inputs.flatMap (serialPaths env))) = rootDeviceId)
    {visited : List Identity}
    (h : ((inputs.flatMap (serialPaths env)).flatMap (inputRoots env)).foldlM
        (unseen id (searchFrom id (childrenOf env rootDeviceId) fuel)) s.visitedDirectories =
      some visited) :
    ∃ s' new, walkInputs env fuel inputs s = some s' ∧ s'.visitedDirectories = visited ∧
      Walked env s s' ((inputs.flatMap (serialPaths env)).flatMap (inputFiles env)) new := by
  induction inputs generalizing s with
  | nil =>
      cases h
      exact ⟨s, [], rfl, rfl, walked_of_eq rfl rfl rfl⟩
  | cons input inputs ih =>
      rw [List.flatMap_cons, List.flatMap_append, List.foldlM_append] at h
      rw [List.flatMap_cons] at hroot
      obtain ⟨mid, hmid, hrest⟩ := Option.bind_eq_some_iff.mp h
      have hexpand := serialExpanded_eq env fuel s.polled input
      generalize ht : s.polled.reported (serialGlobErrors env input) = t at hexpand
      have hstart : Walked env s t [] [] ∧ t.rootDeviceId = s.rootDeviceId := by
        rw [← ht]
        exact ⟨walked_of_eq rfl rfl rfl, rfl⟩
      obtain ⟨hfirst, hlater⟩ := rootDeviceOf_front env hroot
      rw [← hstart.2] at hfirst hlater
      obtain ⟨s₁, new₁, hdone₁, hvisited₁, hroot₁, hwalked₁⟩ := walked_foldlM hquiet hfirst
        (by rw [hstart.1.visited]; exact hmid)
      obtain ⟨s', new, hdone, hvisited', hwalked⟩ := ih (by rw [hroot₁]; exact hlater)
        (by rw [hvisited₁]; exact hrest)
      refine ⟨s', new ++ (new₁ ++ []), ?_, hvisited', ?_⟩
      · rw [walkInputs, hquiet.shouldStop, if_neg Bool.noConfusion, ← apply_ite
          (fun result : Option WalkState => result.bind (walkInputs env fuel inputs)), hexpand,
          hdone₁]
        exact hdone
      · rw [List.flatMap_cons, List.flatMap_append]
        exact (hstart.1.trans hwalked₁).trans hwalked

/-- The state the loop over the inputs ends with, and what it visited. -/
theorem exists_walkInputs_visited {fuel : Nat} (hfuel : env.fs.directories.card < fuel)
    (inputs : List Bytes) :
    ∃ s, walkInputs env fuel inputs { WalkState.initial with requests := 1 } = some s ∧
      Explores id (childrenOf env (rootDeviceOf env (inputs.flatMap (serialPaths env))))
        ((inputs.flatMap (serialPaths env)).flatMap (inputRoots env)) s.visitedDirectories [] ∧
      (foundFiles env.fs s.entries).Perm
        ((inputs.flatMap (serialPaths env)).flatMap (inputFiles env) ++
          s.visitedDirectories.flatMap (filesOf env)) ∧
      s.openedDirectories.Perm (s.visitedDirectories.filter (opens env)) := by
  generalize hpaths : inputs.flatMap (serialPaths env) = paths
  obtain ⟨visited, hsearch⟩ := @exists_search Identity Identity id
    (childrenOf env (rootDeviceOf env paths)) _ env.fs.directories
    (fun _ hmem _ hchild => childrenOf_mem hmem hchild) (paths.flatMap (inputRoots env))
    (fun root hroot => by
      obtain ⟨path, _, hmem⟩ := List.mem_flatMap.mp hroot
      exact (inputRoots_mem hmem).2.2.1) fuel hfuel
  obtain ⟨s', new, hdone, hvisited, hwalked⟩ := @walked_walkInputs env hquiet
    (rootDeviceOf env paths) fuel inputs { WalkState.initial with requests := 1 }
    (by rw [hpaths]; rfl) visited (by rw [hpaths]; exact hsearch)
  have hnew : new = s'.visitedDirectories := by
    rw [hwalked.visited]
    exact (List.append_nil new).symm
  have hperm := hwalked.found
  have hopened := hwalked.opened
  rw [hpaths, hnew] at hperm
  rw [hnew] at hopened
  exact ⟨s', hdone, hvisited ▸ explores_of_search hsearch, hperm, hopened⟩

/-- The state the loop over the inputs ends with. -/
theorem exists_walkInputs {fuel : Nat} (hfuel : env.fs.directories.card < fuel)
    (inputs : List Bytes) :
    ∃ s visited, walkInputs env fuel inputs { WalkState.initial with requests := 1 } = some s ∧
      Explores id (childrenOf env (rootDeviceOf env (inputs.flatMap (serialPaths env))))
        ((inputs.flatMap (serialPaths env)).flatMap (inputRoots env)) visited [] ∧
      (foundFiles env.fs s.entries).Perm
        ((inputs.flatMap (serialPaths env)).flatMap (inputFiles env) ++
          visited.flatMap (filesOf env)) ∧
      s.openedDirectories.Perm (visited.filter (opens env)) := by
  obtain ⟨s, hdone, hrest⟩ := exists_walkInputs_visited hquiet hfuel inputs
  exact ⟨s, s.visitedDirectories, hdone, hrest⟩

/-- **What the serial walk finds.**  With fuel for every directory it ends,
having visited the directories that can be reached, each once, and found their
files and those among the inputs. -/
theorem discoveryExpand_found {fuel : Nat} (hfuel : env.fs.directories.card < fuel)
    (inputs : List Bytes) :
    ∃ result visited, discoveryExpand env fuel inputs = some result ∧ result.ok = true ∧
      Explores id (childrenOf env (rootDeviceOf env (inputs.flatMap (serialPaths env))))
        ((inputs.flatMap (serialPaths env)).flatMap (inputRoots env)) visited [] ∧
      (foundFiles env.fs result.entries).Perm
        ((inputs.flatMap (serialPaths env)).flatMap (inputFiles env) ++
          visited.flatMap (filesOf env)) := by
  obtain ⟨s, visited, hdone, hexplores, hfound, _⟩ := exists_walkInputs hquiet hfuel inputs
  refine ⟨⟨true, s.entries, s.errors, []⟩, visited, ?_, rfl, hexplores, hfound⟩
  rw [discoveryExpand, hquiet.allocates, if_neg Bool.noConfusion, hdone]
  rfl

end Inputs

end BcDuplicate
