import BcDuplicate.Types
import BcDuplicate.Base.Sort
import BcDuplicate.Base.Copy
import Mathlib.Data.List.Lex
import Mathlib.Data.List.Destutter

/-!
# BcDuplicate.Grouping

The three sort-and-scan stages (`src/grouping`), over one shared array of
entries that each stage rearranges in place:

* `groupingBySize` sorts the whole array by size, device and inode, compacts
  the hardlinks away unless they are to be matched, and scans for equal sizes;
* `groupingByFastHash` and `groupingByFullHash` sort and scan inside the
  ranges of the previous stage's groups.  They differ only in the comparison
  and the key, and are `refineGroups` at their own.

`copy` is `bc_core_copy`, which the compaction also calls on ranges that
overlap; a result that rests on these calls says so (`CopyServes`).

`allocates capacity` says whether the pool serves a request for a buffer of
`capacity` groups: each stage asks once for its first buffer and once more
for each doubling, so the requests of one call are all different.
-/

namespace BcDuplicate

open Runs
open Sorting
open Copying

/-! ## groups as ranges -/

/-- The range of the entries array a group covers. -/
def Group.run (group : Group) : Run := ⟨group.startIndex, group.entryCount⟩

/-- Position `i` of the entries array belongs to the group. -/
def Group.Contains (group : Group) (i : Nat) : Prop := group.run.Contains i

instance (group : Group) (i : Nat) : Decidable (group.Contains i) := by
  unfold Group.Contains; infer_instance

/-- Two positions belong to one of the groups. -/
def SameGroup (groups : List Group) (i j : Nat) : Prop :=
  ∃ group ∈ groups, group.Contains i ∧ group.Contains j

/-! ## the growing group buffer -/

/-- `groups`, `group_capacity` and the candidate counter while a stage runs. -/
structure GroupBuffer where
  groups : List Group
  capacity : Nat
  candidateCount : Nat
deriving DecidableEq, Repr

namespace GroupBuffer

def empty (capacity : Nat) : GroupBuffer := ⟨[], capacity, 0⟩

/-- Append a group, doubling the buffer when it is full. -/
def push (allocates : Nat → Bool) (buffer : GroupBuffer) (group : Group) : Option GroupBuffer :=
  let pushed (capacity : Nat) : GroupBuffer :=
    ⟨buffer.groups ++ [group], capacity, buffer.candidateCount + group.entryCount⟩
  if buffer.groups.length = buffer.capacity then
    if allocates (buffer.capacity * 2) then some (pushed (buffer.capacity * 2)) else none
  else
    some (pushed buffer.capacity)

/-- Append the kept runs of one scan, in order. -/
def pushRuns (allocates : Nat → Bool) (fileSize : Run → Nat) :
    List Run → GroupBuffer → Option GroupBuffer
  | [], buffer => some buffer
  | r :: rs, buffer =>
      (buffer.push allocates ⟨r.start, r.length, fileSize r⟩).bind (pushRuns allocates fileSize rs)

end GroupBuffer

/-! ## grouping by size -/

/-- `bc_duplicate_grouping_size_dev_ino_less_than` -/
def groupingSizeDevInoLessThan (left right : FileEntry) : Bool :=
  if left.fileSize ≠ right.fileSize then
    decide (left.fileSize > right.fileSize)
  else if left.deviceId ≠ right.deviceId then
    decide (left.deviceId < right.deviceId)
  else
    decide (left.inodeNumber < right.inodeNumber)

/-- The reading loop of `bc_duplicate_grouping_collapse_hardlinks_in_run`:
`remaining` entries are still to be read, from `readIndex` on. -/
def groupingCollapseLoop (entries : List FileEntry) (writeIndex readIndex collapsed : Nat) :
    Nat → List FileEntry × Nat
  | 0 => (entries, collapsed)
  | remaining + 1 =>
      match entries[readIndex]?, entries[writeIndex - 1]? with
      | some read, some kept =>
          if read.deviceId = kept.deviceId ∧ read.inodeNumber = kept.inodeNumber then
            groupingCollapseLoop entries writeIndex (readIndex + 1) (collapsed + 1) remaining
          else
            let entries := if writeIndex ≠ readIndex then entries.set writeIndex read else entries
            groupingCollapseLoop entries (writeIndex + 1) (readIndex + 1) collapsed remaining
      | _, _ => (entries, collapsed)

/-- `bc_duplicate_grouping_collapse_hardlinks_in_run`: the array after the
compaction, and the number of entries it collapsed. -/
def groupingCollapseHardlinksInRun (entries : List FileEntry) (runStartIndex runLength : Nat) :
    List FileEntry × Nat :=
  if runLength ≤ 1 then (entries, 0)
  else groupingCollapseLoop entries (runStartIndex + 1) (runStartIndex + 1) 0 (runLength - 1)

/-- The `while (run_start_index < entry_count)` loop: the array, the write
index it ends with, and the number of hardlinks collapsed. -/
def groupingCollapseRuns (copy : CopyFn) (entryCount : Nat) (entries : List FileEntry)
    (writeIndex runStartIndex hardlinksCollapsed : Nat) : List FileEntry × Nat × Nat :=
  if runStartIndex < entryCount then
    match entries[runStartIndex]? with
    | none => (entries, writeIndex, hardlinksCollapsed)
    | some first =>
        let runLength := runLength (fun e => decide (e.fileSize = first.fileSize))
          ((entries.take entryCount).drop (runStartIndex + 1)) + 1
        let moved := if writeIndex ≠ runStartIndex
          then copy.run entries writeIndex runStartIndex runLength else entries
        let collapse := groupingCollapseHardlinksInRun moved writeIndex runLength
        groupingCollapseRuns copy entryCount collapse.1 (writeIndex + (runLength - collapse.2))
          (runStartIndex + runLength) (hardlinksCollapsed + collapse.2)
  else
    (entries, writeIndex, hardlinksCollapsed)
termination_by entryCount - runStartIndex

/-- A call of `bc_core_copy` on the entries array. -/
structure EntryCopy where
  destination : Nat
  source : Nat
  count : Nat
deriving DecidableEq, Repr

/-- The calls of `bc_core_copy` that `groupingCollapseRuns` makes, in order. -/
def groupingCollapseCopies (copy : CopyFn) (entryCount : Nat) (entries : List FileEntry)
    (writeIndex runStartIndex : Nat) : List EntryCopy :=
  if runStartIndex < entryCount then
    match entries[runStartIndex]? with
    | none => []
    | some first =>
        let runLength := runLength (fun e => decide (e.fileSize = first.fileSize))
          ((entries.take entryCount).drop (runStartIndex + 1)) + 1
        let moved := if writeIndex ≠ runStartIndex
          then copy.run entries writeIndex runStartIndex runLength else entries
        let collapse := groupingCollapseHardlinksInRun moved writeIndex runLength
        (if writeIndex ≠ runStartIndex then [⟨writeIndex, runStartIndex, runLength⟩] else []) ++
          groupingCollapseCopies copy entryCount collapse.1 (writeIndex + (runLength - collapse.2))
            (runStartIndex + runLength)
  else
    []
termination_by entryCount - runStartIndex

/-- The calls of `bc_core_copy` one run of `bc_duplicate_grouping_by_size` makes. -/
def groupingBySizeCopies (sort : SortFn) (copy : CopyFn) (entries : List FileEntry)
    (matchHardlinks : Bool) : List EntryCopy :=
  if matchHardlinks then []
  else groupingCollapseCopies copy entries.length (sort.run groupingSizeDevInoLessThan entries) 0 0

/-- The slots the call reads and those it writes have none in common. -/
def EntryCopy.Disjoint (call : EntryCopy) : Prop :=
  Run.Disjoint ⟨call.destination, call.count⟩ ⟨call.source, call.count⟩

/-- What the compaction needs of `bc_core_copy`: it moves, or no call's ranges
overlap. -/
def CopyServes (sort : SortFn) (copy : CopyFn) (entries : List FileEntry)
    (matchHardlinks : Bool) : Prop :=
  copy.Moves ∨ ∀ call ∈ groupingBySizeCopies sort copy entries matchHardlinks, call.Disjoint

/-- What `bc_duplicate_grouping_by_size` leaves: the array and the three
output parameters. -/
structure SizeGrouping where
  entries : List FileEntry
  groups : List Group
  candidateCount : Nat
  hardlinksCollapsed : Nat
deriving DecidableEq, Repr

/-- `bc_duplicate_grouping_by_size` -/
def groupingBySize (sort : SortFn) (copy : CopyFn) (allocates : Nat → Bool)
    (entries : List FileEntry) (matchHardlinks : Bool) : Option SizeGrouping :=
  if entries.length = 0 then
    some ⟨entries, [], 0, 0⟩
  else
    let sorted := sort.run groupingSizeDevInoLessThan entries
    let (compacted, entryCount, hardlinksCollapsed) :=
      if matchHardlinks then (sorted, entries.length, 0)
      else groupingCollapseRuns copy entries.length sorted 0 0 0
    if allocates 16 then
      let surviving := compacted.take entryCount
      let sizeAt (r : Run) : Nat := ((surviving[r.start]?).map FileEntry.fileSize).getD 0
      (GroupBuffer.pushRuns allocates sizeAt (scanRuns FileEntry.fileSize 0 surviving)
        (.empty 16)).map fun buffer =>
          ⟨compacted, buffer.groups, buffer.candidateCount, hardlinksCollapsed⟩
    else none

/-! ## grouping by hash -/

/-- What a hash stage leaves: the array, the groups and their candidate count. -/
structure HashGrouping where
  entries : List FileEntry
  groups : List Group
  candidateCount : Nat
deriving DecidableEq, Repr

section Refine

variable {κ : Type} [DecidableEq κ]

/-- The loop over the previous stage's groups: sort the range, scan it, and
push its runs with the group's own size. -/
def refineLoop (sort : SortFn) (allocates : Nat → Bool) (lessThan : FileEntry → FileEntry → Bool)
    (key : FileEntry → κ) :
    List Group → List FileEntry → GroupBuffer → Option (List FileEntry × GroupBuffer)
  | [], entries, buffer => some (entries, buffer)
  | group :: groups, entries, buffer =>
      let entries := updateSlice (sort.run lessThan) group.run entries
      (buffer.pushRuns allocates (fun _ => group.fileSize)
        (scanRuns key group.startIndex (slice group.run entries))).bind
          (refineLoop sort allocates lessThan key groups entries)

/-- The body `bc_duplicate_grouping_by_fast_hash` and
`bc_duplicate_grouping_by_full_hash` share. -/
def refineGroups (sort : SortFn) (allocates : Nat → Bool)
    (lessThan : FileEntry → FileEntry → Bool) (key : FileEntry → κ) (entries : List FileEntry)
    (groups : List Group) : Option HashGrouping :=
  if groups.length = 0 then
    some ⟨entries, [], 0⟩
  else if allocates groups.length then
    (refineLoop sort allocates lessThan key groups entries (.empty groups.length)).map
      fun (entries, buffer) => ⟨entries, buffer.groups, buffer.candidateCount⟩
  else none

end Refine

/-- `bc_duplicate_grouping_fast_hash_less_than` -/
def groupingFastHashLessThan (left right : FileEntry) : Bool :=
  decide (left.fastHash < right.fastHash)

/-- `bc_duplicate_grouping_by_fast_hash` -/
def groupingByFastHash (sort : SortFn) (allocates : Nat → Bool) (entries : List FileEntry)
    (sizeGroups : List Group) : Option HashGrouping :=
  refineGroups sort allocates groupingFastHashLessThan FileEntry.fastHash entries sizeGroups

/-- The digest bytes the full-hash stage looks at. -/
def FileEntry.digest (digestSize : Nat) (entry : FileEntry) : Bytes :=
  entry.fullHash.take digestSize

/-- `bc_duplicate_grouping_full_hash_less_than`: `bc_core_compare` orders the
digests byte by byte. -/
def groupingFullHashLessThan (digestSize : Nat) (left right : FileEntry) : Bool :=
  decide (left.digest digestSize < right.digest digestSize)

/-- `bc_duplicate_grouping_by_full_hash`.  The C function has no candidate
counter; the caller ignores this one. -/
def groupingByFullHash (sort : SortFn) (allocates : Nat → Bool) (digestSize : Nat)
    (entries : List FileEntry) (fastHashGroups : List Group) : Option HashGrouping :=
  refineGroups sort allocates (groupingFullHashLessThan digestSize)
    (FileEntry.digest digestSize) entries fastHashGroups

end BcDuplicate
