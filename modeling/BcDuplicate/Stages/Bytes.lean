import BcDuplicate.Base.Repeats
import BcDuplicate.Grouping.Exact
import BcDuplicate.Stages.Groups
import Mathlib.Algebra.Order.BigOperators.Group.List
import Mathlib.Algebra.Order.Group.Nat
import Mathlib.Data.List.Flatten

/-!
# BcDuplicate.Stages.Bytes

How many bytes the groups of a stage stand for.  A group counts its size once
for each entry, and its entries have that size, so the bytes of the groups are
those of the files in them (`groupBytes_eq`).  A hash stage keeps the files
that share their key with another of their group (`RefinedTo.filesIn_perm`),
so the bytes never grow from stage to stage.
-/

namespace BcDuplicate

open Runs
open Sorting
open Updates

/-- The bytes of the groups, each entry with the size of its group. -/
def groupBytes (groups : List Group) : Nat :=
  (groups.map fun group => group.entryCount * group.fileSize).sum

/-- The bytes of all entries of the groups but one in each. -/
def extraBytes (groups : List Group) : Nat :=
  (groups.map fun group => (group.entryCount - 1) * group.fileSize).sum

def entryBytes (entries : List FileEntry) : Nat := (entries.map FileEntry.fileSize).sum

/-- The entries in the groups, group after group. -/
def filesIn (groups : List Group) (entries : List FileEntry) : List FileEntry :=
  groups.flatMap fun group => slice group.run entries

/-- The entries of each group have its size. -/
def OfSize (groups : List Group) (entries : List FileEntry) : Prop :=
  ∀ group ∈ groups, ∀ entry ∈ slice group.run entries, entry.fileSize = group.fileSize

theorem extraBytes_le (groups : List Group) : extraBytes groups ≤ groupBytes groups :=
  List.sum_le_sum fun _ _ => Nat.mul_le_mul_right _ (Nat.sub_le _ _)

/-! ## the bytes of entries -/

theorem entryBytes_append (front back : List FileEntry) :
    entryBytes (front ++ back) = entryBytes front + entryBytes back := by
  rw [entryBytes, List.map_append, List.sum_append]
  rfl

theorem entryBytes_perm {front back : List FileEntry} (h : front.Perm back) :
    entryBytes front = entryBytes back := (h.map FileEntry.fileSize).sum_nat

theorem entryBytes_sublist {some all : List FileEntry} (h : some.Sublist all) :
    entryBytes some ≤ entryBytes all :=
  (h.map FileEntry.fileSize).sum_le_sum fun _ _ => Nat.zero_le _

/-- Entries of one size. -/
theorem entryBytes_of_constant {entries : List FileEntry} {size : Nat}
    (hsize : ∀ entry ∈ entries, entry.fileSize = size) :
    entryBytes entries = entries.length * size := by
  rw [entryBytes, List.map_eq_replicate_iff.mpr hsize, List.sum_replicate_nat]

/-- **The bytes of the groups** are those of the files in them. -/
theorem groupBytes_eq {groups : List Group} {entries : List FileEntry}
    (hsep : SeparateGroups groups entries.length) (hsize : OfSize groups entries) :
    groupBytes groups = entryBytes (filesIn groups entries) := by
  have hinBounds := hsep.inBounds
  clear hsep
  induction groups with
  | nil => rfl
  | cons group groups ih =>
      rw [List.map_cons, List.forall_mem_cons] at hinBounds
      obtain ⟨hfirst, hlater⟩ := List.forall_mem_cons.mp hsize
      have hrest := ih hlater hinBounds.2
      rw [filesIn, List.flatMap_cons, entryBytes_append, entryBytes_of_constant hfirst,
        length_slice _ _ hinBounds.1]
      rw [groupBytes, List.map_cons, List.sum_cons]
      exact congrArg (group.entryCount * group.fileSize + ·) hrest

/-! ## a hash stage -/

namespace RefinedTo

variable {κ : Type} [DecidableEq κ] {key : FileEntry → κ} {groups : List Group}
  {entries : List FileEntry} {result : HashGrouping}

/-- The files a stage leaves in groups, group by group. -/
theorem filesIn_eq (h : RefinedTo key groups entries result)
    (hsep : SeparateGroups groups entries.length) :
    filesIn result.groups result.entries =
      groups.flatMap fun group => repeats key (slice group.run result.entries) := by
  rw [h.groups_eq, refinedGroups, filesIn, List.flatMap_assoc]
  refine List.flatMap_congr fun group hgroup => ?_
  have hin := hsep.inBounds _ (List.mem_map_of_mem hgroup)
  rw [← h.length_entries] at hin
  rw [List.flatMap_map]
  exact flatMap_slice_scanRuns_slice hin (h.adjacent group hgroup)

/-- **The files a stage leaves in groups** are those that share their key with
another of their group. -/
theorem filesIn_perm (h : RefinedTo key groups entries result)
    (hsep : SeparateGroups groups entries.length) :
    (filesIn result.groups result.entries).Perm
      (groups.flatMap fun group => repeats key (slice group.run entries)) := by
  rw [h.filesIn_eq hsep]
  exact List.Perm.flatMap_left _ fun group hgroup =>
    repeats_perm (h.permWithin.slices _ (List.mem_map_of_mem hgroup))

/-- The groups a stage leaves hold files of their size. -/
theorem ofSize (h : RefinedTo key groups entries result)
    (hsep : SeparateGroups groups entries.length) (hsize : OfSize groups entries) :
    OfSize result.groups result.entries := by
  intro group hgroup entry hentry
  obtain ⟨parent, hparent, r, hr, rfl⟩ := h.exists_parent hgroup
  have hin := hsep.inBounds _ (List.mem_map_of_mem hparent)
  rw [← h.length_entries] at hin
  have hruns := flatMap_slice_scanRuns_slice hin (h.adjacent parent hparent)
  have hrepeat : entry ∈ repeats key (slice parent.run result.entries) := by
    rw [← hruns]
    exact List.mem_flatMap.mpr ⟨r, hr, hentry⟩
  have hmem := (h.permWithin.slices _ (List.mem_map_of_mem hparent)).subset
    ((repeats_sublist _).subset hrepeat)
  exact hsize parent hparent entry hmem

/-- The bytes of the groups a stage leaves. -/
theorem groupBytes_eq (h : RefinedTo key groups entries result)
    (hsep : SeparateGroups groups entries.length) (hsize : OfSize groups entries) :
    groupBytes result.groups =
      entryBytes (groups.flatMap fun group => repeats key (slice group.run entries)) := by
  rw [BcDuplicate.groupBytes_eq (h.separate hsep) (h.ofSize hsep hsize)]
  exact entryBytes_perm (h.filesIn_perm hsep)

/-- A stage leaves no more bytes in groups than it was given. -/
theorem groupBytes_le (h : RefinedTo key groups entries result)
    (hsep : SeparateGroups groups entries.length) (hsize : OfSize groups entries) :
    groupBytes result.groups ≤ groupBytes groups := by
  rw [h.groupBytes_eq hsep hsize, BcDuplicate.groupBytes_eq hsep hsize]
  refine entryBytes_sublist ?_
  exact List.Sublist.flatMap_right _ fun group _ => repeats_sublist (slice group.run entries)

end RefinedTo

/-! ## the other stages -/

/-- A pass that keeps the files keeps the groups of their size. -/
theorem OfSize.updated {groups : List Group} {entries : List FileEntry}
    {update : Nat → FileEntry → FileEntry} (h : OfSize groups entries)
    (hkeeps : Keeps FileEntry.file update) (hsep : SeparateGroups groups entries.length) :
    OfSize groups (updateAt update (candidateIndices groups) entries) := by
  have hsep' := separate_updated update (candidateIndices groups) hsep
  intro group hgroup entry hentry
  have hin := hsep.inBounds _ (List.mem_map_of_mem hgroup)
  have hin' := hsep'.inBounds _ (List.mem_map_of_mem hgroup)
  obtain ⟨k, hk, rfl⟩ := List.mem_iff_getElem.mp hentry
  have hk' : k < (slice group.run entries).length := by
    rwa [length_slice _ _ hin', ← length_slice _ _ hin] at hk
  have hlt : group.run.start + k < entries.length := by
    rw [length_slice _ _ hin] at hk'
    simp only [Run.InBounds] at hin
    omega
  have hlt' : group.run.start + k < (updateAt update (candidateIndices groups) entries).length := by
    rwa [length_updateAt]
  have hfile := hkeeps.getElem_updateAt (nodup_candidateIndices hsep) hlt' hlt
  have hsize := h group hgroup _ (List.getElem_mem hk')
  rw [getElem_slice _ _ _ hk' hlt] at hsize
  rw [getElem_slice _ _ _ hk hlt', ← hsize]
  exact congrArg (fun file => file.2.1) hfile

/-- The size groups hold files of their size. -/
theorem SizeScanned.ofSize {entries : List FileEntry} {sizes : SizeGrouping}
    (h : SizeScanned entries sizes) : OfSize sizes.groups sizes.entries := by
  intro group hgroup entry hentry
  have hin := h.separate.inBounds _ (List.mem_map_of_mem hgroup)
  obtain ⟨k, hk, rfl⟩ := List.mem_iff_getElem.mp hentry
  have hk' : k < group.run.length := by rwa [length_slice _ _ hin] at hk
  have hcontains : group.Contains (group.run.start + k) := ⟨Nat.le_add_right _ _, by omega⟩
  have hsurvivor := h.lt_surviving hgroup hcontains
  have hlt := hin.lt_of_contains hcontains
  have hsize := h.fileSize_of_contains hgroup hcontains
  rw [List.getElem?_eq_getElem hsurvivor, SizeScanned.getElem_surviving hsurvivor hlt, Option.map_some,
    Option.some.injEq] at hsize
  rw [getElem_slice _ _ _ hk hlt]
  exact hsize

namespace SizeGrouped

variable {sort : SortFn} {entries : List FileEntry} {matchHardlinks : Bool}
  {sizes : SizeGrouping} (h : SizeGrouped sort entries matchHardlinks sizes)
include h

/-- The files of the size groups are those that share their size with another
survivor. -/
theorem filesIn_eq : filesIn sizes.groups sizes.entries =
    repeats FileEntry.fileSize (survivingEntries sort entries matchHardlinks) := by
  have hscan := flatMap_slice_scanRuns [] (survivingEntries sort entries matchHardlinks)
    (sizes.entries.drop (survivingEntries sort entries matchHardlinks).length)
    (adjacent_survivingEntries sort entries matchHardlinks)
  have hwhole := List.take_append_drop (survivingEntries sort entries matchHardlinks).length
    sizes.entries
  rw [h.take_entries] at hwhole
  rw [List.nil_append, hwhole] at hscan
  rw [filesIn, h.groups_eq, h.surviving_eq, List.flatMap_map]
  exact hscan

/-- The bytes of the size groups are bytes of the entries. -/
theorem groupBytes_le : groupBytes sizes.groups ≤ entryBytes entries := by
  have hsurvive := survivingEntries_sublist sort entries matchHardlinks
  rw [groupBytes_eq h.separate h.ofSize, h.filesIn_eq,
    ← entryBytes_perm (sort.perm groupingSizeDevInoLessThan entries)]
  exact entryBytes_sublist ((repeats_sublist _).trans hsurvive)

end SizeGrouped

end BcDuplicate
