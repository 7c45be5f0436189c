import BcDuplicate.Discovery.Parallel

/-!
# BcDuplicate.Discovery.Reference

A library that walks every file system (`walks_referenceWalk`), so that what
is assumed of `bc_io_walk_parallel` can be met, and file systems given by a
table of their entries.
-/

namespace BcDuplicate

open FileSystem
open Search

/-! ## a sequential walk -/

section Reference

variable (fs : FileSystem) (config : WalkConfig)

/-- The directories accepted in a directory, with their paths. -/
def WalkConfig.below (at_ : Identity × Bytes) : List (Identity × Bytes) :=
  (fs.names at_.1).flatMap fun name =>
    (config.directoryAt fs (fun _ => 0) at_.1 at_.2 name).map fun child =>
      (child, joinPath at_.2 name)

/-- The files of the directories found by a depth-first search, all visited by
the first worker. -/
def referenceWalk : WalkLibrary := fun _ config =>
  match fs.resolveDirectory config.root with
  | .error _ => []
  | .ok root =>
      match search Prod.fst (config.below fs) (fs.directories.card + 1) [(root, config.root)] with
      | none => []
      | some entered =>
          (entered.flatMap fun at_ => (fs.names at_.1).flatMap
            (config.fileAt fs at_.1 at_.2)).map fun entry => (0, .visit entry)

variable {fs config}

theorem mem_directoryAt {directorySize : Identity → Nat} {directory child : Identity}
    {path name : Bytes} (h : child ∈ config.directoryAt fs directorySize directory path name) :
    (fs.link directory name).stat true = .ok (.object (.directory child)) ∧ name ≠ dot ∧
      name ≠ dotDot := by
  unfold WalkConfig.directoryAt at h
  split at h
  · next hconsiders =>
    rw [WalkConfig.considers, Bool.and_eq_true, Bool.not_eq_true', isDotEntry] at hconsiders
    have hdots := not_or.mp (of_decide_eq_false hconsiders.1)
    split at h
    · next found hstat =>
      split at h
      · rw [List.mem_singleton.mp h]
        exact ⟨Link.stat_follow hstat, hdots⟩
      · cases h
    · cases h
  · cases h

theorem kind_of_mem_fileAt {directory : Identity} {path name : Bytes} {entry : WalkEntry}
    (h : entry ∈ config.fileAt fs directory path name) : entry.kind = .file := by
  unfold WalkConfig.fileAt at h
  split at h
  · split at h
    · dsimp only at h
      split at h
      · rw [List.mem_singleton.mp h]
      · cases h
    · cases h
  · cases h

theorem mem_names {directory : Identity} {name : Bytes} (h : name ∈ fs.names directory) :
    ProperName name := by
  unfold names at h
  split at h
  · exact fs.proper_listing directory name h
  · cases h

/-- What a directory's path resolves to, the paths below resolve to as well. -/
theorem resolves_below {at_ next : Identity × Bytes}
    (h : at_.2 ≠ [] ∧ fs.resolveDirectory at_.2 = .ok at_.1) (hnext : next ∈ config.below fs at_) :
    next.2 ≠ [] ∧ fs.resolveDirectory next.2 = .ok next.1 := by
  obtain ⟨name, hname, hmem⟩ := List.mem_flatMap.mp hnext
  obtain ⟨child, hchild, rfl⟩ := List.mem_map.mp hmem
  obtain ⟨hstat, hdot, hdotDot⟩ := mem_directoryAt hchild
  exact ⟨joinPath_ne_nil h.1 name,
    fs.resolveDirectory_joinPath h.1 h.2 (mem_names hname) hdot hdotDot hstat⟩

/-- **A depth-first search enters the directories a walk has to.** -/
theorem entered_of_search {root : Identity} (hne : config.root ≠ [])
    (hresolve : fs.resolveDirectory config.root = .ok root) {fuel : Nat}
    {entered : List (Identity × Bytes)}
    (h : search Prod.fst (config.below fs) fuel [(root, config.root)] = some entered) :
    Entered fs config (fun _ => 0) root entered := by
  have hexplores := explores_of_search h
  have hroot : ∀ at_, Reached (config.below fs) [(root, config.root)] at_ →
      Relation.ReflTransGen (Edge (config.below fs)) (root, config.root) at_ := by
    rintro at_ ⟨start, hstart, hpath⟩
    rwa [List.mem_singleton.mp hstart] at hpath
  have hresolves : ∀ {at_}, Relation.ReflTransGen (Edge (config.below fs)) (root, config.root) at_ →
      at_.2 ≠ [] ∧ fs.resolveDirectory at_.2 = .ok at_.1 := by
    intro at_ hpath
    induction hpath with
    | refl => exact ⟨hne, hresolve⟩
    | tail _ hstep ih => exact resolves_below ih hstep
  have hkeys : ∀ {identity : Identity}, identity ∈ (entered ++ []).map Prod.fst →
      identity ∈ entered.map Prod.fst := by
    intro identity hmem
    rwa [List.append_nil] at hmem
  refine ⟨?_, hkeys (hexplores.covers _ List.mem_cons_self),
    fun at_ hat => hresolves (hroot at_ (hexplores.reached at_ hat)), ?_, ?_⟩
  · have hnodup := hexplores.nodup List.nodup_nil
    rwa [List.append_nil] at hnodup
  · intro at_ hat name hname child hchild
    exact hkeys (hexplores.closed at_ hat (child, joinPath at_.2 name)
      (List.mem_flatMap.mpr ⟨name, hname, List.mem_map_of_mem hchild⟩))
  · intro directory hdirectory
    obtain ⟨at_, hat, rfl⟩ := List.mem_map.mp hdirectory
    have hpath := hroot at_ (hexplores.reached at_ hat)
    clear hat hdirectory
    induction hpath with
    | refl => exact .refl
    | @tail before after hbefore hstep ih =>
        obtain ⟨hpathNe, hpathResolves⟩ := hresolves hbefore
        obtain ⟨name, hname, hmem⟩ := List.mem_flatMap.mp hstep
        obtain ⟨child, hchild, rfl⟩ := List.mem_map.mp hmem
        exact ih.tail ⟨before.2, hpathNe, hpathResolves, name, hname, hchild⟩

/-- A search from the root ends, with the directories a walk has to enter. -/
theorem exists_entered {root : Identity} (hne : config.root ≠ [])
    (hresolve : fs.resolveDirectory config.root = .ok root) :
    ∃ entered, search Prod.fst (config.below fs) (fs.directories.card + 1) [(root, config.root)] =
        some entered ∧ Entered fs config (fun _ => 0) root entered := by
  obtain ⟨entered, hsearch⟩ := @exists_search (Identity × Bytes) Identity Prod.fst (config.below fs)
    _ fs.directories (fun at_ hat next hnext => by
      obtain ⟨name, _, hmem⟩ := List.mem_flatMap.mp hnext
      obtain ⟨child, hchild, rfl⟩ := List.mem_map.mp hmem
      exact fs.link_mem _ hat _ _ (mem_directoryAt hchild).1) [(root, config.root)]
    (fun at_ hat => by
      rw [List.mem_singleton.mp hat]
      exact fs.resolveDirectory_mem hresolve) (fs.directories.card + 1) (Nat.lt_succ_self _)
  exact ⟨entered, hsearch, entered_of_search hne hresolve hsearch⟩

/-- The entries at the files of the directories are visited as they are. -/
theorem flatMap_visitedFile (entered : List (Identity × Bytes)) :
    ((entered.flatMap fun at_ => (fs.names at_.1).flatMap (config.fileAt fs at_.1 at_.2)).map
        fun entry => (0, WalkCallback.visit entry)).flatMap visitedFile =
      entered.flatMap fun at_ => (fs.names at_.1).flatMap (config.fileAt fs at_.1 at_.2) := by
  rw [List.flatMap_map]
  have hfiles : ∀ entry ∈ entered.flatMap (fun at_ =>
      (fs.names at_.1).flatMap (config.fileAt fs at_.1 at_.2)),
      visitedFile (0, .visit entry) = [entry] := by
    intro entry hentry
    obtain ⟨at_, _, hmem⟩ := List.mem_flatMap.mp hentry
    obtain ⟨name, _, hfile⟩ := List.mem_flatMap.mp hmem
    exact if_pos (kind_of_mem_fileAt hfile)
  rw [List.flatMap_congr hfiles, List.flatMap_singleton']

/-- **Every file system can be walked.** -/
theorem walks_referenceWalk (fs : FileSystem) : Walks fs (referenceWalk fs) 1 := by
  intro walk config root hne hresolve
  obtain ⟨entered, hsearch, hentered⟩ := exists_entered hne hresolve
  have hwalk : referenceWalk fs walk config = (entered.flatMap fun at_ =>
      (fs.names at_.1).flatMap (config.fileAt fs at_.1 at_.2)).map fun entry =>
        (0, .visit entry) := by
    rw [referenceWalk, hresolve]
    dsimp only
    rw [hsearch]
  rw [hwalk]
  refine ⟨fun call hcall => ?_, fun _ => 0, entered, hentered, ?_⟩
  · obtain ⟨entry, _, rfl⟩ := List.mem_map.mp hcall
    exact Nat.zero_lt_one
  · rw [flatMap_visitedFile]

end Reference

/-! ## file systems given by a table -/

/-- An entry of a directory. -/
structure TableRow where
  directory : Identity
  name : Bytes
  link : Link

/-- The directory a row leads to. -/
def TableRow.child (row : TableRow) : Option Identity :=
  match row.link.stat true with
  | .ok (.object (.directory child)) => some child
  | _ => none

/-- A table no directory of which has a name twice. -/
structure Table where
  root : Identity
  rows : List TableRow
  distinct : (rows.map fun row => (row.directory, row.name)).Nodup
  proper : ∀ row ∈ rows, ProperName row.name

namespace Table

variable (table : Table)

def link (directory : Identity) (name : Bytes) : Link :=
  match table.rows.find? fun row => decide (row.directory = directory ∧ row.name = name) with
  | some row => row.link
  | none => .failing .ENOENT

def listing (directory : Identity) : List Bytes :=
  (table.rows.filter fun row => decide (row.directory = directory)).map TableRow.name

/-- The file system of the table: every directory can be listed, and `..` is
the root. -/
def fileSystem : FileSystem where
  rootDirectory := table.root
  workingDirectory := table.root
  parent _ := table.root
  link := table.link
  listing := table.listing
  openError _ := none
  dupError _ := none
  fdopendirError _ := none
  readdirError _ := none
  fileSystemType _ := some 0xef53
  directories := (table.root :: table.rows.filterMap TableRow.child).toFinset
  nodup_listing directory := by
    have hdistinct := table.distinct.of_map
    have hinj := List.inj_on_of_nodup_map table.distinct
    rw [listing]
    refine List.Nodup.map_on (fun row hrow other hother heq => ?_) (hdistinct.filter _)
    obtain ⟨hmem, hdir⟩ := List.mem_filter.mp hrow
    obtain ⟨hmem', hdir'⟩ := List.mem_filter.mp hother
    exact hinj hmem hmem' (Prod.ext ((of_decide_eq_true hdir).trans
      (of_decide_eq_true hdir').symm) heq)
  proper_listing directory name hname := by
    obtain ⟨row, hrow, rfl⟩ := List.mem_map.mp hname
    exact table.proper row (List.mem_filter.mp hrow).1
  root_mem := by simp
  working_mem := by simp
  parent_mem := by simp
  link_mem directory _ name child h := by
    unfold link at h
    split at h
    · next row hrow =>
      rw [List.mem_toFinset]
      refine List.mem_cons_of_mem _ (List.mem_filterMap.mpr ⟨row, List.mem_of_find?_eq_some hrow, ?_⟩)
      rw [TableRow.child, h]
    · cases h

end Table

end BcDuplicate
