import BcDuplicate.Types

/-!
# BcDuplicate.Filter

The include and exclude patterns (`src/filter/bc_duplicate_filter.c`).

A list of patterns is one string with a newline between two patterns.  It is
copied, its newlines are overwritten with zeros, and a pattern is the C string
from where it starts.  `fnmatch` itself is a parameter: whether a pattern
matches a name.
-/

namespace BcDuplicate

/-- `fnmatch(pattern, basename, 0) == 0` -/
abbrev Fnmatch := Bytes → Bytes → Bool

/-- `bc_duplicate_filter_t`, each pattern as the C string it points to. -/
structure Filter where
  includePatterns : List Bytes
  excludePatterns : List Bytes
deriving DecidableEq, Repr

/-- One step of the loop that cuts the buffer: at a newline the pattern before
it ends, and the next one starts behind it. -/
def filterSplitStep (count : Nat) (split : Bytes × List Nat) (index : Nat) : Bytes × List Nat :=
  if split.1[index]? = some newline then
    (split.1.set index 0,
      if split.2.length < count then split.2 ++ [index + 1] else split.2)
  else split

/-- `bc_duplicate_filter_count_and_split`.  The two flags say whether the
pool serves the buffer and the array of patterns. -/
def filterCountAndSplit (bufferAllocated patternsAllocated : Bool) (list : Option Bytes) :
    Option (List Bytes) :=
  match list with
  | none => some []
  | some [] => some []
  | some list =>
      if bufferAllocated && patternsAllocated then
        let count := 1 + list.count newline
        let (buffer, starts) := (List.range list.length).foldl (filterSplitStep count) (list, [0])
        some (starts.map fun start => (buffer.drop start).takeWhile (· ≠ 0))
      else none

/-- `bc_duplicate_filter_create`.  `allocates` answers its five requests in
the order of the source. -/
def filterCreate (allocates : Nat → Bool) (includeList excludeList : Option Bytes) :
    Option Filter :=
  if allocates 0 then
    (filterCountAndSplit (allocates 1) (allocates 2) includeList).bind fun includePatterns =>
      (filterCountAndSplit (allocates 3) (allocates 4) excludeList).map fun excludePatterns =>
        ⟨includePatterns, excludePatterns⟩
  else none

/-- `bc_duplicate_filter_basename_matches_any` -/
def filterBasenameMatchesAny (fnmatch : Fnmatch) (patterns : List Bytes) (basename : Bytes) :
    Bool :=
  patterns.any (fnmatch · basename)

/-- `bc_duplicate_filter_accepts_file` -/
def filterAcceptsFile (fnmatch : Fnmatch) (filter : Option Filter) (basename : Bytes) : Bool :=
  match filter with
  | none => true
  | some filter =>
      if filter.excludePatterns.length > 0 ∧
          filterBasenameMatchesAny fnmatch filter.excludePatterns basename then false
      else if filter.includePatterns.length > 0 ∧
          filterBasenameMatchesAny fnmatch filter.includePatterns basename = false then false
      else true

/-- `bc_duplicate_filter_accepts_directory` -/
def filterAcceptsDirectory (fnmatch : Fnmatch) (filter : Option Filter) (basename : Bytes) :
    Bool :=
  match filter with
  | none => true
  | some filter =>
      if filter.excludePatterns.length > 0 ∧
          filterBasenameMatchesAny fnmatch filter.excludePatterns basename then false
      else true

end BcDuplicate
