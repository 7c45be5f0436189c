import Mathlib.Algebra.GroupWithZero.Nat
import Mathlib.Data.List.Basic

/-!
# BcDuplicate.Types

The records and enumerations every stage shares: file entries, groups,
statistics, the command-line options that reach the pipeline, and the
`errno` values the code names.

Byte strings are `List UInt8`.  A `size_t` index, count or file size is a
`Nat`; the two accumulations that can wrap reduce explicitly
(`BcDuplicate.Application`).
-/

namespace BcDuplicate

abbrev Bytes := List UInt8

def newline : UInt8 := 10
def slash : UInt8 := 47

/-! ## errno -/

/-- The value of `errno` after a failed system call.  It is never zero,
which is what lets the code use `errno_value == 0` as "no error yet". -/
structure Errno where
  value : Nat
  positive : 0 < value
deriving DecidableEq, Repr

namespace Errno

def EPERM : Errno := ⟨1, by decide⟩
def ENOENT : Errno := ⟨2, by decide⟩
def EINTR : Errno := ⟨4, by decide⟩
def EIO : Errno := ⟨5, by decide⟩
def EBADF : Errno := ⟨9, by decide⟩
def ENOMEM : Errno := ⟨12, by decide⟩
def EACCES : Errno := ⟨13, by decide⟩
def EEXIST : Errno := ⟨17, by decide⟩
def ENOTDIR : Errno := ⟨20, by decide⟩
def EINVAL : Errno := ⟨22, by decide⟩
def ENAMETOOLONG : Errno := ⟨36, by decide⟩
def ELOOP : Errno := ⟨40, by decide⟩
def ECANCELED : Errno := ⟨125, by decide⟩

theorem value_ne_zero (e : Errno) : e.value ≠ 0 := Nat.pos_iff_ne_zero.mp e.positive

end Errno

/-! ## sizes fixed by the headers -/

/-- `BC_DUPLICATE_FAST_HASH_BLOCK_SIZE` -/
def fastHashBlockSize : Nat := 4096

/-- `BC_DUPLICATE_MAX_DIGEST_SIZE` -/
def maxDigestSize : Nat := 32

/-! ## options -/

inductive Algorithm
  | xxh3
  | xxh128
  | sha256
deriving DecidableEq, Repr

/-- `bc_duplicate_worker_digest_size` -/
def workerDigestSize : Algorithm → Nat
  | .xxh3 => 8
  | .xxh128 => 16
  | .sha256 => 32

theorem workerDigestSize_le (algorithm : Algorithm) :
    workerDigestSize algorithm ≤ maxDigestSize := by
  cases algorithm <;> decide

inductive OutputFormat
  | simple
  | json
deriving DecidableEq, Repr

inductive ThreadsMode
  | auto
  | mono
  | explicit
  | io
deriving DecidableEq, Repr

/-- `--output`: automatic, standard output, or a file with its path. -/
inductive OutputDestination
  | auto
  | stdout
  | file (path : Bytes)
deriving DecidableEq, Repr

inductive Command
  | scan
  | summary
deriving DecidableEq, Repr

/-- The options `bc_duplicate_application_run` reads. -/
structure CliOptions where
  command : Command
  algorithm : Algorithm
  threadsMode : ThreadsMode
  outputDestination : OutputDestination
  matchHardlinks : Bool
deriving DecidableEq, Repr

/-! ## entries, groups, statistics -/

/-- `bc_duplicate_file_entry_t`. -/
structure FileEntry where
  absolutePath : Bytes
  fileSize : Nat
  deviceId : Nat
  inodeNumber : Nat
  fastHash : UInt64
  fullHash : Bytes
  fastHashComputed : Bool
  fullHashComputed : Bool
  fastHashErrno : Nat
  fullHashErrno : Nat
deriving DecidableEq, Repr

namespace FileEntry

/-- An entry as every discovery route builds it: a designated initialiser
names the path, the size and the identity, and zeroes the rest. -/
def discovered (absolutePath : Bytes) (fileSize deviceId inodeNumber : Nat) : FileEntry where
  absolutePath := absolutePath
  fileSize := fileSize
  deviceId := deviceId
  inodeNumber := inodeNumber
  fastHash := 0
  fullHash := List.replicate maxDigestSize 0
  fastHashComputed := false
  fullHashComputed := false
  fastHashErrno := 0
  fullHashErrno := 0

/-- What discovery recorded about the file, which no later stage changes. -/
def file (entry : FileEntry) : Bytes × Nat × Nat × Nat :=
  (entry.absolutePath, entry.fileSize, entry.deviceId, entry.inodeNumber)

end FileEntry

/-- `bc_duplicate_group_t`: the entries from `startIndex` on, `entryCount` of them. -/
structure Group where
  startIndex : Nat
  entryCount : Nat
  fileSize : Nat
deriving DecidableEq, Repr

/-- `bc_duplicate_statistics_t`. -/
structure Statistics where
  filesScanned : Nat
  directoriesScanned : Nat
  filesSkipped : Nat
  hardlinksCollapsed : Nat
  sizeCandidateCount : Nat
  filesHashedFast : Nat
  filesHashedFull : Nat
  duplicateGroupCount : Nat
  duplicateFileCount : Nat
  wastedBytes : Nat
  wallMs : Nat
deriving DecidableEq, Repr

end BcDuplicate
