import BcDuplicate.Types
import BcDuplicate.Base.Json

/-!
# BcDuplicate.Output

The three reports (`src/output`), as the bytes they write when every write
succeeds.  Paths are C strings and end at their first zero byte.
-/

namespace BcDuplicate

open Json (ascii decimal quote comma closeBrace commaSeparated)

/-- What the reports use of the core library's writer beside plain bytes: the
hexadecimal digits of a value, padded to a width. -/
structure CoreWriter where
  hexadecimalPadded : Nat → Nat → Bytes

/-- The printer pads to exactly the width, with digits of the value. -/
def CoreWriter.PrintsHexadecimal (writer : CoreWriter) : Prop :=
  ∀ value width, value < 16 ^ width →
    (writer.hexadecimalPadded value width).length = width ∧
      Json.hexValue (writer.hexadecimalPadded value width) = some value

/-- The output writer of the core library: whether it can be initialised, and
what of the bytes given to it arrives at the descriptor, with whether every
write and the final flush report success.  Success means that all arrived. -/
structure OutputWriter where
  initialises : Bool
  deliver : Bytes → Bytes × Bool
  complete : ∀ bytes, (deliver bytes).2 = true → (deliver bytes).1 = bytes

/-- A writer whose writes succeed. -/
def OutputWriter.working : OutputWriter := ⟨true, fun bytes => (bytes, true), fun _ _ => rfl⟩

/-- The bytes of a C string. -/
def cString (bytes : Bytes) : Bytes := bytes.takeWhile (· ≠ 0)

/-- A string literal in memory: its bytes and the terminating zero. -/
def stringLiteral (s : String) : Bytes := ascii s ++ [0]

/-- `entries[index].absolute_path` -/
def absolutePathAt (entries : List FileEntry) (index : Nat) : Bytes :=
  ((entries[index]?).map FileEntry.absolutePath).getD []

/-! ## JSON -/

/-- The `switch` of `bc_duplicate_output_json_write_escaped`. -/
def outputJsonEscapedByte (writer : CoreWriter) (byte : UInt8) : Bytes :=
  if byte = 0x22 then ascii "\\\""
  else if byte = 0x5C then ascii "\\\\"
  else if byte = 0x08 then ascii "\\b"
  else if byte = 0x0C then ascii "\\f"
  else if byte = 0x0A then ascii "\\n"
  else if byte = 0x0D then ascii "\\r"
  else if byte = 0x09 then ascii "\\t"
  else if byte < 0x20 then ascii "\\u" ++ writer.hexadecimalPadded byte.toNat 4
  else [byte]

/-- `bc_duplicate_output_json_write_escaped` -/
def outputJsonWriteEscaped (writer : CoreWriter) (input : Bytes) : Bytes :=
  quote :: ((cString input).flatMap (outputJsonEscapedByte writer) ++ [quote])

/-- `bc_duplicate_output_json_algorithm_name` -/
def outputJsonAlgorithmName : Algorithm → Bytes
  | .xxh3 => ascii "xxh3"
  | .xxh128 => ascii "xxh128"
  | .sha256 => ascii "sha256"

/-- `write_stat_key_value` -/
def writeStatKeyValue (key : Bytes) (keyLength value : Nat) : Bytes :=
  quote :: (key.take keyLength ++ (ascii "\":" ++ decimal value))

/-- `bc_duplicate_output_json_write_stats` -/
def outputJsonWriteStats (statistics : Statistics) : Bytes :=
  ascii "\"stats\":\x7b" ++
  writeStatKeyValue (stringLiteral "files_scanned") 13 statistics.filesScanned ++ [comma] ++
  writeStatKeyValue (stringLiteral "directories_scanned") 19 statistics.directoriesScanned ++
    [comma] ++
  writeStatKeyValue (stringLiteral "files_skipped") 13 statistics.filesSkipped ++ [comma] ++
  writeStatKeyValue (stringLiteral "hardlinks_collapsed") 19 statistics.hardlinksCollapsed ++
    [comma] ++
  writeStatKeyValue (stringLiteral "size_candidates") 15 statistics.sizeCandidateCount ++ [comma] ++
  writeStatKeyValue (stringLiteral "files_hashed_fast") 17 statistics.filesHashedFast ++ [comma] ++
  writeStatKeyValue (stringLiteral "files_hashed_full") 17 statistics.filesHashedFull ++ [comma] ++
  writeStatKeyValue (stringLiteral "duplicate_groups") 16 statistics.duplicateGroupCount ++
    [comma] ++
  writeStatKeyValue (stringLiteral "duplicate_files") 15 statistics.duplicateFileCount ++
    [comma] ++
  writeStatKeyValue (stringLiteral "wasted_bytes") 12 statistics.wastedBytes ++ [comma] ++
  writeStatKeyValue (stringLiteral "wall_ms") 7 statistics.wallMs ++
  [closeBrace]

/-- One round of the loop over the groups. -/
def outputJsonWriteGroup (writer : CoreWriter) (entries : List FileEntry) (group : Group) : Bytes :=
  ascii "\x7b\"size\":" ++ decimal group.fileSize ++ ascii ",\"files\":[" ++
    commaSeparated ((List.range group.entryCount).map fun entryOffset =>
      outputJsonWriteEscaped writer (absolutePathAt entries (group.startIndex + entryOffset))) ++
    ascii "]\x7d"

/-- `bc_duplicate_output_json_write` -/
def outputJsonWrite (writer : CoreWriter) (algorithm : Algorithm) (entries : List FileEntry)
    (groups : List Group) (statistics : Statistics) : Bytes :=
  ascii "\x7b\"version\":\"1.0.0\",\"tool\":\"bc-duplicate\",\"algorithm\":\"" ++
    outputJsonAlgorithmName algorithm ++ ascii "\"," ++ outputJsonWriteStats statistics ++
    ascii ",\"groups\":[" ++ commaSeparated (groups.map (outputJsonWriteGroup writer entries)) ++
    ascii "]\x7d\n"

/-! ## plain text -/

/-- `bc_duplicate_output_simple_write` -/
def outputSimpleWrite (entries : List FileEntry) (groups : List Group) : Bytes :=
  groups.zipIdx.flatMap fun (group, groupIndex) =>
    ((List.range group.entryCount).flatMap fun entryOffset =>
      cString (absolutePathAt entries (group.startIndex + entryOffset)) ++ ascii "\n") ++
    (if groupIndex + 1 < groups.length then ascii "\n" else [])

/-- `write_labeled_uint` -/
def writeLabeledUint (label : Bytes) (labelLength value : Nat) : Bytes :=
  label.take labelLength ++ decimal value ++ ascii "\n"

/-- `bc_duplicate_output_summary_write` -/
def outputSummaryWrite (statistics : Statistics) : Bytes :=
  writeLabeledUint (stringLiteral "Files scanned:        ") 22 statistics.filesScanned ++
  writeLabeledUint (stringLiteral "Directories scanned:  ") 22 statistics.directoriesScanned ++
  writeLabeledUint (stringLiteral "Files skipped:        ") 22 statistics.filesSkipped ++
  writeLabeledUint (stringLiteral "Hardlinks collapsed:  ") 22 statistics.hardlinksCollapsed ++
  writeLabeledUint (stringLiteral "Size candidates:      ") 22 statistics.sizeCandidateCount ++
  writeLabeledUint (stringLiteral "Files hashed (fast):  ") 22 statistics.filesHashedFast ++
  writeLabeledUint (stringLiteral "Files hashed (full):  ") 22 statistics.filesHashedFull ++
  writeLabeledUint (stringLiteral "Duplicate groups:     ") 22 statistics.duplicateGroupCount ++
  writeLabeledUint (stringLiteral "Duplicate files:      ") 22 statistics.duplicateFileCount ++
  writeLabeledUint (stringLiteral "Wasted bytes:         ") 22 statistics.wastedBytes ++
  writeLabeledUint (stringLiteral "Wall ms:              ") 22 statistics.wallMs

end BcDuplicate
