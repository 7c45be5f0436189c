import BcDuplicate.Base.Resources
import BcDuplicate.Grouping

/-!
# BcDuplicate.Grouping.Blocks

The pool blocks of the growing group buffers (`src/grouping`).  `block capacity`
names the buffer of a stage with that capacity.

A stage that succeeds leaves its last buffer to its caller, and one that fails
leaves nothing (`leavesBlock_groupingBySizeActs`, `leavesBlock_refineGroupsActs`).
-/

namespace BcDuplicate

open Resources
open Runs
open Sorting
open Copying

section Blocks

variable {ρ : Type} (block : Nat → ρ)

/-! ## the growing buffer -/

/-- The calls of `GroupBuffer.push`.  A reallocation moves the block, and leaves
it where it was when it fails. -/
def GroupBuffer.pushActs (allocates : Nat → Bool) (buffer : GroupBuffer) : List (Act ρ) :=
  if buffer.groups.length = buffer.capacity then
    if allocates (buffer.capacity * 2) then
      [.release (block buffer.capacity), .acquire (block (buffer.capacity * 2))]
    else [.release (block buffer.capacity)]
  else []

/-- The calls of `GroupBuffer.pushRuns`. -/
def GroupBuffer.pushRunsActs (allocates : Nat → Bool) (fileSize : Run → Nat) :
    List Run → GroupBuffer → List (Act ρ)
  | [], _ => []
  | r :: rs, buffer =>
      buffer.pushActs block allocates ++
        (buffer.push allocates ⟨r.start, r.length, fileSize r⟩).elim []
          (pushRunsActs allocates fileSize rs)

/-! ## the stages -/

/-- `bc_duplicate_grouping_by_size`: `*out_groups`, and its calls. -/
def groupingBySizeActs (sort : SortFn) (copy : CopyFn) (allocates : Nat → Bool)
    (entries : List FileEntry) (matchHardlinks : Bool) : Option ρ × List (Act ρ) :=
  if entries.length = 0 then (none, [])
  else
    let sorted := sort.run groupingSizeDevInoLessThan entries
    let (compacted, entryCount, _) :=
      if matchHardlinks then (sorted, entries.length, 0)
      else groupingCollapseRuns copy entries.length sorted 0 0 0
    if allocates 16 then
      let surviving := compacted.take entryCount
      let sizeAt (r : Run) : Nat := ((surviving[r.start]?).map FileEntry.fileSize).getD 0
      let runs := scanRuns FileEntry.fileSize 0 surviving
      ((GroupBuffer.pushRuns allocates sizeAt runs (.empty 16)).map fun buffer =>
          block buffer.capacity,
        .acquire (block 16) :: GroupBuffer.pushRunsActs block allocates sizeAt runs (.empty 16))
    else (none, [])

section Refine

variable {κ : Type} [DecidableEq κ]

/-- The calls of `refineLoop`. -/
def refineLoopActs (sort : SortFn) (allocates : Nat → Bool)
    (lessThan : FileEntry → FileEntry → Bool) (key : FileEntry → κ) :
    List Group → List FileEntry → GroupBuffer → List (Act ρ)
  | [], _, _ => []
  | group :: groups, entries, buffer =>
      let entries := updateSlice (sort.run lessThan) group.run entries
      let runs := scanRuns key group.startIndex (slice group.run entries)
      buffer.pushRunsActs block allocates (fun _ => group.fileSize) runs ++
        (buffer.pushRuns allocates (fun _ => group.fileSize) runs).elim []
          (refineLoopActs sort allocates lessThan key groups entries)

/-- `bc_duplicate_grouping_by_fast_hash` and `bc_duplicate_grouping_by_full_hash`:
`*out_groups`, and their calls. -/
def refineGroupsActs (sort : SortFn) (allocates : Nat → Bool)
    (lessThan : FileEntry → FileEntry → Bool) (key : FileEntry → κ) (entries : List FileEntry)
    (groups : List Group) : Option ρ × List (Act ρ) :=
  if groups.length = 0 then (none, [])
  else if allocates groups.length then
    ((refineLoop sort allocates lessThan key groups entries (.empty groups.length)).map
        fun refined => block refined.2.capacity,
      .acquire (block groups.length) ::
        refineLoopActs block sort allocates lessThan key groups entries (.empty groups.length))
  else (none, [])

end Refine

end Blocks

/-! ## what a stage leaves -/

/-- A stage's pointer and calls: the calls leave what the pointer points to, which
is a buffer, and the pointer is null when the stage fails. -/
structure LeavesBlock {ρ : Type} [DecidableEq ρ] (block : Nat → ρ) (rest : Held ρ)
    (acts : Option ρ × List (Act ρ)) (failed : Prop) : Prop where
  run : run acts.2 rest = some (holding rest acts.1)
  failed : failed → acts.1 = none
  named : ∀ r, acts.1 = some r → ∃ capacity, r = block capacity

section Left

variable {ρ : Type} [DecidableEq ρ] {block : Nat → ρ} {rest : Held ρ}

theorem leavesBlock_none (failed : Prop) : LeavesBlock block rest (none, []) failed :=
  ⟨rfl, fun _ => rfl, nofun⟩

variable (hrest : ∀ capacity, rest (block capacity) = false) (allocates : Nat → Bool)
include hrest

theorem run_pushActs (buffer : GroupBuffer) (group : Group) :
    run (buffer.pushActs block allocates) (holding rest (some (block buffer.capacity))) =
      some (holding rest ((buffer.push allocates group).map fun pushed =>
        block pushed.capacity)) := by
  have hreleased := run_release_holding (hrest buffer.capacity)
  unfold GroupBuffer.pushActs GroupBuffer.push
  by_cases hfull : buffer.groups.length = buffer.capacity
  · rw [if_pos hfull, if_pos hfull]
    by_cases hallocates : allocates (buffer.capacity * 2) = true
    · rw [if_pos hallocates, if_pos hallocates]
      exact run_append_eq hreleased (run_acquire_holding (hrest (buffer.capacity * 2)))
    · rw [if_neg hallocates, if_neg hallocates]
      exact hreleased
  · rw [if_neg hfull, if_neg hfull]
    rfl

theorem run_pushRunsActs (fileSize : Run → Nat) (runs : List Run) (buffer : GroupBuffer) :
    run (buffer.pushRunsActs block allocates fileSize runs)
        (holding rest (some (block buffer.capacity))) =
      some (holding rest ((buffer.pushRuns allocates fileSize runs).map fun pushed =>
        block pushed.capacity)) := by
  induction runs generalizing buffer with
  | nil => rfl
  | cons r runs ih =>
    have hpush := run_pushActs hrest allocates buffer ⟨r.start, r.length, fileSize r⟩
    rw [GroupBuffer.pushRunsActs, GroupBuffer.pushRuns]
    cases hpushed : buffer.push allocates ⟨r.start, r.length, fileSize r⟩ with
    | none =>
      rw [hpushed] at hpush
      exact run_append_eq hpush rfl
    | some pushed =>
      rw [hpushed] at hpush
      exact run_append_eq hpush (ih pushed)

theorem run_refineLoopActs {κ : Type} [DecidableEq κ] (sort : SortFn)
    (lessThan : FileEntry → FileEntry → Bool) (key : FileEntry → κ) (groups : List Group)
    (entries : List FileEntry) (buffer : GroupBuffer) :
    run (refineLoopActs block sort allocates lessThan key groups entries buffer)
        (holding rest (some (block buffer.capacity))) =
      some (holding rest ((refineLoop sort allocates lessThan key groups entries buffer).map
        fun refined => block refined.2.capacity)) := by
  induction groups generalizing entries buffer with
  | nil => rfl
  | cons group groups ih =>
    have hruns := run_pushRunsActs hrest allocates (fun _ => group.fileSize)
      (scanRuns key group.startIndex
        (slice group.run (updateSlice (sort.run lessThan) group.run entries))) buffer
    rw [refineLoopActs, refineLoop]
    generalize buffer.pushRuns allocates (fun _ => group.fileSize) _ = pushed at hruns ⊢
    cases pushed with
    | none => exact run_append_eq hruns rfl
    | some pushed => exact run_append_eq hruns (ih _ pushed)

/-- A stage that acquires its first buffer and then runs to a buffer or fails. -/
theorem leavesBlock_of_run {σ : Type} {capacity : Nat} {acts : List (Act ρ)} {result : Option σ}
    {capacityOf : σ → Nat}
    (hrun : run acts (holding rest (some (block capacity))) =
      some (holding rest (result.map fun left => block (capacityOf left)))) :
    LeavesBlock block rest
      (result.map fun left => block (capacityOf left), .acquire (block capacity) :: acts)
      (result = none) := by
  refine ⟨run_append_eq (run_acquire_holding (hrest capacity)) hrun, fun h => ?_, fun r hr => ?_⟩
  · rw [h, Option.map_none]
  · obtain ⟨left, _, rfl⟩ := Option.map_eq_some_iff.mp hr
    exact ⟨_, rfl⟩

/-- **The grouping by size leaves the buffer it returns**, and none when it fails. -/
theorem leavesBlock_groupingBySizeActs (sort : SortFn) (copy : CopyFn) (entries : List FileEntry)
    (matchHardlinks : Bool) :
    LeavesBlock block rest (groupingBySizeActs block sort copy allocates entries matchHardlinks)
      (groupingBySize sort copy allocates entries matchHardlinks = none) := by
  unfold groupingBySizeActs groupingBySize
  by_cases hempty : entries.length = 0
  · rw [if_pos hempty]
    exact leavesBlock_none _
  · rw [if_neg hempty, if_neg hempty]
    dsimp only
    by_cases hallocates : allocates 16 = true
    · rw [if_pos hallocates, if_pos hallocates, Option.map_eq_none_iff]
      exact leavesBlock_of_run hrest (run_pushRunsActs hrest allocates _ _ (.empty 16))
    · rw [if_neg hallocates]
      exact leavesBlock_none _

/-- **A grouping by hash leaves the buffer it returns**, and none when it fails. -/
theorem leavesBlock_refineGroupsActs {κ : Type} [DecidableEq κ] (sort : SortFn)
    (lessThan : FileEntry → FileEntry → Bool) (key : FileEntry → κ) (entries : List FileEntry)
    (groups : List Group) :
    LeavesBlock block rest (refineGroupsActs block sort allocates lessThan key entries groups)
      (refineGroups sort allocates lessThan key entries groups = none) := by
  unfold refineGroupsActs refineGroups
  by_cases hempty : groups.length = 0
  · rw [if_pos hempty]
    exact leavesBlock_none _
  · rw [if_neg hempty, if_neg hempty]
    by_cases hallocates : allocates groups.length = true
    · rw [if_pos hallocates, if_pos hallocates, Option.map_eq_none_iff]
      exact leavesBlock_of_run hrest (run_refineLoopActs hrest allocates sort lessThan key groups
        entries (.empty groups.length))
    · rw [if_neg hallocates]
      exact leavesBlock_none _

end Left

/-- The pointer to the groups by size is not null where there are groups. -/
theorem isSome_groupingBySizeActs {ρ : Type} (block : Nat → ρ) {sort : SortFn}
    {copy : CopyFn} {allocates : Nat → Bool} {entries : List FileEntry} {matchHardlinks : Bool}
    {sizes : SizeGrouping}
    (hsizes : groupingBySize sort copy allocates entries matchHardlinks = some sizes)
    (hgroups : sizes.groups.length ≠ 0) :
    (groupingBySizeActs block sort copy allocates entries matchHardlinks).1.isSome := by
  unfold groupingBySize at hsizes
  unfold groupingBySizeActs
  by_cases hempty : entries.length = 0
  · rw [if_pos hempty] at hsizes
    obtain rfl := Option.some.inj hsizes
    exact absurd rfl hgroups
  · rw [if_neg hempty] at hsizes ⊢
    dsimp only at hsizes ⊢
    by_cases hallocates : allocates 16 = true
    · rw [if_pos hallocates] at hsizes ⊢
      obtain ⟨buffer, hbuffer, _⟩ := Option.map_eq_some_iff.mp hsizes
      rw [hbuffer]
      rfl
    · rw [if_neg hallocates] at hsizes
      cases hsizes

end BcDuplicate
