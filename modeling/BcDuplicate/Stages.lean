import BcDuplicate.Worker

/-!
# BcDuplicate.Stages

The hashing stages of `bc_duplicate_application_run`: the fast pass, the
grouping by fast hash, and, when that leaves groups, the full pass and the
grouping by full hash.  The two passes are parameters, so that the stages can
be run with what the passes do and with what they are known to do.
-/

namespace BcDuplicate

open Sorting

/-- Which requests for group buffers the pool serves, stage by stage. -/
structure Pools where
  bySize : Nat → Bool
  byFastHash : Nat → Bool
  byFullHash : Nat → Bool

/-- A pool that serves every request. -/
def Pools.unlimited : Pools := ⟨fun _ => true, fun _ => true, fun _ => true⟩

/-- What the stages leave: the array, the final groups, and how many files
each pass reports. -/
structure Duplicates where
  entries : List FileEntry
  groups : List Group
  filesHashedFast : Nat
  filesHashedFull : Nat
deriving DecidableEq, Repr

inductive StagesResult
  | done (duplicates : Duplicates)
  | failed
  | blocked
deriving DecidableEq, Repr

/-- A pass as the application calls it. -/
abbrev Pass := List FileEntry → List Group → PassResult

/-- The full pass as the application calls it. -/
def dispatchedFullPass (lib : HashLibrary) (sort : SortFn) (env : FullEnvironment)
    (algorithm : Algorithm) (forceSingleThread : List Group → Bool) : Pass := fun entries groups =>
  workerFullPass lib sort env algorithm entries groups (forceSingleThread groups)

/-- From the fast pass to the grouping by full hash. -/
def hashStages (sort : SortFn) (pools : Pools) (digestSize : Nat) (fastPass fullPass : Pass)
    (entries : List FileEntry) (sizeGroups : List Group) : StagesResult :=
  match fastPass entries sizeGroups with
  | .failed => .failed
  | .blocked => .blocked
  | .done entries filesHashedFast =>
      match groupingByFastHash sort pools.byFastHash entries sizeGroups with
      | none => .failed
      | some fast =>
          if fast.groups.length > 0 then
            match fullPass fast.entries fast.groups with
            | .failed => .failed
            | .blocked => .blocked
            | .done entries filesHashedFull =>
                match groupingByFullHash sort pools.byFullHash digestSize entries fast.groups with
                | none => .failed
                | some full => .done ⟨full.entries, full.groups, filesHashedFast, filesHashedFull⟩
          else .done ⟨fast.entries, [], filesHashedFast, 0⟩

end BcDuplicate
