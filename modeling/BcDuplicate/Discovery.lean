import BcDuplicate.FileSystem
import BcDuplicate.Filter

/-!
# BcDuplicate.Discovery

What the two walks share: the options, the environment, the entries and
errors they collect, and the two predicates of
`src/discovery/bc_duplicate_discovery_glob.c`.

The pool, `glob` and the path join of the library are parameters, and so is
the signal handler: `shouldStop` answers the polls of the serial walk and
`allocates` the requests of either walk, one after the other.
-/

namespace BcDuplicate

/-- `bc_duplicate_discovery_options_t` -/
structure DiscoveryOptions where
  includeHidden : Bool
  followSymlinks : Bool
  oneFileSystem : Bool
  minimumFileSize : Nat
deriving DecidableEq, Repr

/-- What the error collector stores. -/
structure DiscoveryError where
  path : Bytes
  stage : String
  errno : Errno
deriving DecidableEq, Repr

/-- The memory contexts a path can be allocated from. -/
inductive MemoryContext
  | main
  | worker (index : Nat)
deriving DecidableEq, Repr

/-- An entry of a vector, and the context its path was allocated from. -/
structure OwnedEntry where
  entry : FileEntry
  pathOwner : MemoryContext
deriving DecidableEq, Repr

structure DiscoveryEnvironment where
  fs : FileSystem
  options : DiscoveryOptions
  filter : Option Filter
  fnmatch : Fnmatch
  glob : Bytes → Option (List Bytes)
  /-- `bc_io_file_path_join`, which fails when the path exceeds its buffer. -/
  pathJoin : Bytes → Bytes → Option Bytes
  shouldStop : Nat → Bool
  allocates : Nat → Bool

/-- What a discovery leaves: whether it succeeded, the entries, the errors in
the collector of the application, and those it printed itself. -/
structure DiscoveryResult where
  ok : Bool
  entries : List OwnedEntry
  errors : List DiscoveryError
  stderr : List DiscoveryError
deriving DecidableEq, Repr

/-! ## metacharacters and pseudo file systems -/

/-- The loop of `bc_duplicate_discovery_glob_contains_metacharacter`. -/
def globContainsMetacharacterFrom (escaped : Bool) : Bytes → Bool
  | [] => false
  | b :: bs =>
      if escaped then globContainsMetacharacterFrom false bs
      else if b = 92 then globContainsMetacharacterFrom true bs
      else if b = 42 ∨ b = 63 ∨ b = 91 then true
      else globContainsMetacharacterFrom false bs

/-- `bc_duplicate_discovery_glob_contains_metacharacter`: an unescaped star,
question mark or opening bracket. -/
def globContainsMetacharacter (pattern : Bytes) : Bool :=
  globContainsMetacharacterFrom false pattern

/-- The file system types discovery does not enter, `PROC_SUPER_MAGIC` to
`AUTOFS_SUPER_MAGIC`. -/
def pseudoFileSystemTypes : List Nat :=
  [0x9fa0, 0x62656572, 0x1cd1, 0x27e0eb, 0x63677270, 0xcafe4a11, 0x74726163, 0x64626720,
    0x73636673, 0x6165676C, 0xf97cff8c, 0x19800202, 0x42494e4d, 0x0187]

/-- `bc_duplicate_discovery_path_is_pseudo_filesystem`: nothing when `statfs`
fails. -/
def pathIsPseudoFilesystem (fs : FileSystem) (path : Bytes) : Option Bool :=
  (fs.statfs path).map fun fileSystemType => decide (fileSystemType ∈ pseudoFileSystemTypes)

/-- `d_name` is `.` or `..`. -/
def isDotEntry (name : Bytes) : Bool := decide (name = dot ∨ name = dotDot)

/-- The loop that drops the slashes a path ends with, but for a first one. -/
def trimmedLength (path : Bytes) : Nat → Nat
  | 0 => 0
  | length + 1 =>
      if length + 1 > 1 ∧ path[length]? = some slash then trimmedLength path length
      else length + 1

/-- The directory path a walk starts from. -/
def trimTrailingSlashes (path : Bytes) : Bytes := path.take (trimmedLength path path.length)

end BcDuplicate
