import BcDuplicate.Types
import Mathlib.Data.Finset.Basic
import Mathlib.Data.List.Nodup

/-!
# BcDuplicate.FileSystem

The file system discovery walks over, at one moment.

A directory is its identity, device and inode: it may be reachable under
several names, and with symbolic links followed through cycles.  What every
system call answers about an object is data of the file system, its failures
included.  Paths are resolved component by component, `.` and `..` included,
to a place: a directory, or a name in a directory.
-/

namespace BcDuplicate

/-! ## objects -/

/-- `st_dev` and `st_ino`. -/
structure Identity where
  deviceId : Nat
  inodeNumber : Nat
deriving DecidableEq, Repr

inductive Object
  | regular (identity : Identity) (fileSize : Nat)
  | directory (identity : Identity)
  | other
deriving DecidableEq, Repr

/-- What `fstatat` reports. -/
inductive Status
  | object (object : Object)
  | symbolicLink
deriving DecidableEq, Repr

/-- What a name in a directory stands for.  Following a symbolic link leads to
an object or fails; `failing` is a name that cannot be statted at all. -/
inductive Link
  | object (object : Object)
  | symbolicLink (target : Except Errno Object)
  | failing (errno : Errno)

/-- `fstatat`, with or without `AT_SYMLINK_NOFOLLOW`. -/
def Link.stat (follow : Bool) : Link → Except Errno Status
  | .object found => .ok (.object found)
  | .symbolicLink target =>
      if follow then target.map Status.object else .ok .symbolicLink
  | .failing errno => .error errno

/-- What is an object without following links is the same object with. -/
theorem Link.stat_follow {link : Link} {follow : Bool} {found : Object}
    (h : link.stat follow = .ok (.object found)) : link.stat true = .ok (.object found) := by
  cases follow with
  | true => exact h
  | false =>
      cases link with
      | object _ => exact h
      | symbolicLink _ => cases h
      | failing _ => cases h

/-! ## names -/

def dot : Bytes := [46]

def dotDot : Bytes := [46, 46]

/-- A name an entry of a directory can have. -/
def ProperName (name : Bytes) : Prop := name ≠ [] ∧ slash ∉ name

instance (name : Bytes) : Decidable (ProperName name) :=
  inferInstanceAs (Decidable (name ≠ [] ∧ slash ∉ name))

/-- What `discovery` asks about directories.  `listing` is what `readdir`
returns, in its order, with or without `.` and `..`; `readdirError` ends it.
Only finitely many directories can be reached. -/
structure FileSystem where
  rootDirectory : Identity
  workingDirectory : Identity
  parent : Identity → Identity
  link : Identity → Bytes → Link
  listing : Identity → List Bytes
  openError : Identity → Option Errno
  dupError : Identity → Option Errno
  fdopendirError : Identity → Option Errno
  readdirError : Identity → Option Errno
  fileSystemType : Identity → Option Nat
  directories : Finset Identity
  nodup_listing : ∀ directory, (listing directory).Nodup
  proper_listing : ∀ directory, ∀ name ∈ listing directory, ProperName name
  root_mem : rootDirectory ∈ directories
  working_mem : workingDirectory ∈ directories
  parent_mem : ∀ directory ∈ directories, parent directory ∈ directories
  link_mem : ∀ directory ∈ directories, ∀ name child,
    (link directory name).stat true = .ok (.object (.directory child)) → child ∈ directories

namespace FileSystem

variable (fs : FileSystem)

/-! ## path resolution -/

/-- The nonempty components of a path. -/
def components (path : Bytes) : List Bytes := (path.splitOn slash).filter (· ≠ [])

/-- Where the resolution of a path starts. -/
def start (path : Bytes) : Identity :=
  if path.head? = some slash then fs.rootDirectory else fs.workingDirectory

/-- One component, which has to lead to a directory. -/
def enter (directory : Identity) (name : Bytes) : Except Errno Identity :=
  if name = dot then .ok directory
  else if name = dotDot then .ok (fs.parent directory)
  else
    match (fs.link directory name).stat true with
    | .ok (.object (.directory child)) => .ok child
    | .ok _ => .error .ENOTDIR
    | .error errno => .error errno

def enterAll (directory : Identity) (names : List Bytes) : Except Errno Identity :=
  names.foldlM fs.enter directory

/-- The directory a path leads to. -/
def resolveDirectory (path : Bytes) : Except Errno Identity :=
  fs.enterAll (fs.start path) (components path)

/-- The last component, when it names an entry of a directory. -/
def finalName (path : Bytes) : Option Bytes :=
  if path.getLast? = some slash then none
  else (components path).getLast?.filter fun name => name ≠ dot ∧ name ≠ dotDot

/-- Where a path leads before its last symbolic link is followed. -/
inductive Place
  | directory (identity : Identity)
  | entry (directory : Identity) (name : Bytes)
deriving DecidableEq, Repr

def locate (path : Bytes) : Except Errno Place :=
  if path = [] then .error .ENOENT
  else
    match finalName path with
    | none => (fs.resolveDirectory path).map .directory
    | some name => (fs.enterAll (fs.start path) (components path).dropLast).map (.entry · name)

/-- `fstatat(AT_FDCWD, path)` -/
def statPath (follow : Bool) (path : Bytes) : Except Errno Status :=
  match fs.locate path with
  | .error errno => .error errno
  | .ok (.directory identity) => .ok (.object (.directory identity))
  | .ok (.entry directory name) => (fs.link directory name).stat follow

/-- `statfs`, as discovery calls it: on directories. -/
def statfs (path : Bytes) : Option Nat :=
  match fs.resolveDirectory path with
  | .ok directory => fs.fileSystemType directory
  | .error _ => none

/-! ## joined paths -/

/-- A name behind the path of its directory. -/
def joinPath (directory name : Bytes) : Bytes :=
  if directory.getLast? = some slash then directory ++ name else directory ++ slash :: name

theorem components_append_slash (front back : Bytes) :
    components (front ++ slash :: back) = components front ++ components back := by
  rw [components, List.splitOn_append_cons_self, List.filter_append]
  rfl

theorem components_nil : components [] = [] := by decide

theorem components_of_proper {name : Bytes} (h : ProperName name) : components name = [name] := by
  rw [components, List.splitOn_eq_singleton h.2, List.filter_singleton]
  simp only [h.1, ne_eq, not_false_eq_true, decide_true, cond_true]

/-- The separator stands between the components of the two parts. -/
theorem joinPath_eq {directory name : Bytes} :
    ∃ front, (front = directory ∨ front ++ [slash] = directory) ∧
      joinPath directory name = front ++ slash :: name ∧
      components directory = components front := by
  unfold joinPath
  by_cases hlast : directory.getLast? = some slash
  · rw [if_pos hlast]
    obtain ⟨front, hfront⟩ := List.getLast?_eq_some_iff.mp hlast
    refine ⟨front, Or.inr hfront.symm, by rw [hfront]; simp, ?_⟩
    rw [hfront, components_append_slash, components_nil, List.append_nil]
  · rw [if_neg hlast]
    exact ⟨directory, Or.inl rfl, rfl, rfl⟩

theorem components_joinPath (directory : Bytes) {name : Bytes} (h : ProperName name) :
    components (joinPath directory name) = components directory ++ [name] := by
  obtain ⟨front, _, hjoin, hcomponents⟩ := @joinPath_eq directory name
  rw [hjoin, components_append_slash, components_of_proper h, hcomponents]

theorem start_joinPath {directory : Bytes} (hdirectory : directory ≠ []) (name : Bytes) :
    fs.start (joinPath directory name) = fs.start directory := by
  have hhead : (joinPath directory name).head? = directory.head? := by
    obtain ⟨b, bs, rfl⟩ := List.exists_cons_of_ne_nil hdirectory
    unfold joinPath
    split <;> rfl
  rw [start, start, hhead]

theorem joinPath_ne_nil {directory : Bytes} (hdirectory : directory ≠ []) (name : Bytes) :
    joinPath directory name ≠ [] := by
  unfold joinPath
  split <;> simp [hdirectory]

theorem getLast?_joinPath {directory name : Bytes} (h : ProperName name) :
    (joinPath directory name).getLast? ≠ some slash := by
  obtain ⟨front, last, hname⟩ := List.eq_nil_or_concat name |>.resolve_left h.1
  have hlast : ∀ before : Bytes, (before ++ name).getLast? = some last := by
    intro before
    rw [hname, List.concat_eq_append, ← List.append_assoc, List.getLast?_concat]
  have hjoin : (joinPath directory name).getLast? = some last := by
    unfold joinPath
    split
    · exact hlast directory
    · rw [← List.singleton_append, ← List.append_assoc]
      exact hlast _
  rw [hjoin]
  intro heq
  refine h.2 ?_
  rw [← Option.some.inj heq, hname, List.concat_eq_append]
  exact List.mem_append_right _ List.mem_cons_self

/-- A name other than `.` and `..` is the final name of a joined path. -/
theorem finalName_joinPath (directory : Bytes) {name : Bytes} (h : ProperName name)
    (hdot : name ≠ dot) (hdotDot : name ≠ dotDot) :
    finalName (joinPath directory name) = some name := by
  rw [finalName, if_neg (getLast?_joinPath h), components_joinPath directory h,
    List.getLast?_concat, Option.filter_some]
  simp only [hdot, hdotDot, ne_eq, not_false_eq_true, and_self, decide_true, if_true]

/-- **A joined path is located in the directory it was joined to.** -/
theorem locate_joinPath {path name : Bytes} {directory : Identity} (hpath : path ≠ [])
    (hresolve : fs.resolveDirectory path = .ok directory) (h : ProperName name)
    (hdot : name ≠ dot) (hdotDot : name ≠ dotDot) :
    fs.locate (joinPath path name) = .ok (.entry directory name) := by
  rw [locate, if_neg (joinPath_ne_nil hpath name), finalName_joinPath path h hdot hdotDot]
  dsimp only
  rw [components_joinPath path h, List.dropLast_concat, fs.start_joinPath hpath]
  rw [resolveDirectory] at hresolve
  rw [hresolve]
  rfl

/-- **A joined path leads to the child it was joined for.** -/
theorem resolveDirectory_joinPath {path name : Bytes} {directory child : Identity}
    (hpath : path ≠ []) (hresolve : fs.resolveDirectory path = .ok directory) (h : ProperName name)
    (hdot : name ≠ dot) (hdotDot : name ≠ dotDot)
    (hstat : (fs.link directory name).stat true = .ok (.object (.directory child))) :
    fs.resolveDirectory (joinPath path name) = .ok child := by
  rw [resolveDirectory, components_joinPath path h, fs.start_joinPath hpath, enterAll,
    List.foldlM_append]
  rw [resolveDirectory, enterAll] at hresolve
  rw [hresolve]
  change fs.enterAll directory [name] = .ok child
  rw [enterAll, List.foldlM_cons, enter, if_neg hdot, if_neg hdotDot, hstat]
  rfl

/-! ## directories -/

/-- A path that stats as a directory leads to it. -/
theorem resolveDirectory_of_statPath {follow : Bool} {path : Bytes} {identity : Identity}
    (h : fs.statPath follow path = .ok (.object (.directory identity))) :
    path ≠ [] ∧ fs.resolveDirectory path = .ok identity := by
  unfold statPath locate at h
  by_cases hnil : path = []
  · rw [if_pos hnil] at h
    cases h
  · rw [if_neg hnil] at h
    refine ⟨hnil, ?_⟩
    cases hfinal : finalName path with
    | none =>
        rw [hfinal] at h
        dsimp only at h
        cases hresolve : fs.resolveDirectory path with
        | error errno => rw [hresolve] at h; cases h
        | ok directory => rw [hresolve] at h; cases h; rfl
    | some name =>
        rw [hfinal] at h
        dsimp only at h
        unfold finalName at hfinal
        split at hfinal
        · cases hfinal
        · obtain ⟨hlast, hdots⟩ := Option.filter_eq_some_iff.mp hfinal
          obtain ⟨front, hfront⟩ := List.getLast?_eq_some_iff.mp hlast
          rw [hfront, List.dropLast_concat] at h
          rw [decide_eq_true_eq] at hdots
          cases henter : fs.enterAll (fs.start path) front with
          | error errno => rw [henter] at h; cases h
          | ok directory =>
              rw [henter] at h
              replace h : (fs.link directory name).stat follow =
                .ok (.object (.directory identity)) := h
              rw [resolveDirectory, hfront, enterAll, List.foldlM_append]
              rw [enterAll] at henter
              rw [henter]
              change fs.enterAll directory [name] = .ok identity
              rw [enterAll, List.foldlM_cons, enter, if_neg hdots.1, if_neg hdots.2,
                Link.stat_follow h]
              rfl

theorem enterAll_mem {directory reached : Identity} {names : List Bytes}
    (hdirectory : directory ∈ fs.directories) (h : fs.enterAll directory names = .ok reached) :
    reached ∈ fs.directories := by
  induction names generalizing directory with
  | nil => cases h; exact hdirectory
  | cons name names ih =>
      rw [enterAll, List.foldlM_cons] at h
      cases henter : fs.enter directory name with
      | error errno => rw [henter] at h; cases h
      | ok next =>
          rw [henter] at h
          refine ih ?_ h
          unfold enter at henter
          split at henter
          · cases henter; exact hdirectory
          · split at henter
            · cases henter; exact fs.parent_mem _ hdirectory
            · split at henter
              · next child hstat =>
                cases henter
                exact fs.link_mem _ hdirectory _ _ hstat
              · cases henter
              · cases henter

/-- Paths lead to one of the finitely many directories. -/
theorem resolveDirectory_mem {path : Bytes} {directory : Identity}
    (h : fs.resolveDirectory path = .ok directory) : directory ∈ fs.directories := by
  refine fs.enterAll_mem ?_ h
  unfold start
  split
  · exact fs.root_mem
  · exact fs.working_mem

/-- A path that stats as a regular file names an entry of a directory. -/
theorem exists_entry_of_statPath {follow : Bool} {path : Bytes} {identity : Identity}
    {fileSize : Nat} (h : fs.statPath follow path = .ok (.object (.regular identity fileSize))) :
    ∃ directory name, fs.locate path = .ok (.entry directory name) ∧
      (fs.link directory name).stat follow = .ok (.object (.regular identity fileSize)) := by
  unfold statPath at h
  split at h
  · cases h
  · cases h
  · next directory name hlocate => exact ⟨directory, name, hlocate, h⟩

end FileSystem

end BcDuplicate
