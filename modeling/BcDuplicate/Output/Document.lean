import BcDuplicate.Output
import Mathlib.Data.List.TakeWhile

/-!
# BcDuplicate.Output.Document

The JSON report as a value (`jsonDocument`).  What
`bc_duplicate_output_json_write` writes is that value printed without white
space, and a newline (`outputJsonWrite_eq`); its escapes are undone by the
reader (`undoes_outputJsonEscapedByte`).  So reading the report gives back
the document (`parse_outputJsonWrite`).
-/

namespace BcDuplicate

open Json

/-! ## the document -/

/-- The paths of a group, in the order of its entries. -/
def groupPaths (entries : List FileEntry) (group : Group) : List Bytes :=
  ((entries.drop group.startIndex).take group.entryCount).map FileEntry.absolutePath

/-- The statistics with their keys. -/
def statisticsMembers (statistics : Statistics) : List (Bytes × Value) :=
  [(ascii "files_scanned", .number statistics.filesScanned),
    (ascii "directories_scanned", .number statistics.directoriesScanned),
    (ascii "files_skipped", .number statistics.filesSkipped),
    (ascii "hardlinks_collapsed", .number statistics.hardlinksCollapsed),
    (ascii "size_candidates", .number statistics.sizeCandidateCount),
    (ascii "files_hashed_fast", .number statistics.filesHashedFast),
    (ascii "files_hashed_full", .number statistics.filesHashedFull),
    (ascii "duplicate_groups", .number statistics.duplicateGroupCount),
    (ascii "duplicate_files", .number statistics.duplicateFileCount),
    (ascii "wasted_bytes", .number statistics.wastedBytes),
    (ascii "wall_ms", .number statistics.wallMs)]

/-- A group: its size and its paths. -/
def groupValue (entries : List FileEntry) (group : Group) : Value :=
  .object [(ascii "size", .number group.fileSize),
    (ascii "files", .array ((groupPaths entries group).map .string))]

/-- The report of a run. -/
def jsonDocument (algorithm : Algorithm) (entries : List FileEntry) (groups : List Group)
    (statistics : Statistics) : Value :=
  .object [(ascii "version", .string (ascii "1.0.0")),
    (ascii "tool", .string (ascii "bc-duplicate")),
    (ascii "algorithm", .string (outputJsonAlgorithmName algorithm)),
    (ascii "stats", .object (statisticsMembers statistics)),
    (ascii "groups", .array (groups.map (groupValue entries)))]

/-! ## escapes -/

/-- **The reader undoes every escape.** -/
theorem undoes_outputJsonEscapedByte {writer : CoreWriter} (hwriter : writer.PrintsHexadecimal) :
    Undoes (outputJsonEscapedByte writer) := by
  intro b rest
  unfold outputJsonEscapedByte
  split_ifs with hquote hbackslash hb hf hn hr ht hcontrol
  · subst hquote; exact parseString_short rfl rest
  · subst hbackslash; exact parseString_short rfl rest
  · subst hb; exact parseString_short rfl rest
  · subst hf; exact parseString_short rfl rest
  · subst hn; exact parseString_short rfl rest
  · subst hr; exact parseString_short rfl rest
  · subst ht; exact parseString_short rfl rest
  · -- four hexadecimal digits of a code below 0x20
    have hlt : b.toNat < 0x20 := hcontrol
    obtain ⟨hlen, hvalue⟩ := hwriter b.toNat 4 (by omega)
    rw [show ascii "\\u" ++ writer.hexadecimalPadded b.toNat 4 ++ rest =
      backslash :: 0x75 :: (writer.hexadecimalPadded b.toNat 4 ++ rest) from rfl]
    have hutf8 : utf8 b.toNat = some [b] := by
      rw [utf8, if_pos (by omega), Nat.toUInt8, UInt8.ofNat_toNat]
    exact parseString_unicode hlen (by rw [hvalue, Option.bind_some, hutf8]) rest
  · exact parseString_plain hquote hcontrol hbackslash rest

/-! ## the bytes written -/

theorem cString_eq {bytes : Bytes} (hbytes : 0 ∉ bytes) : cString bytes = bytes := by
  rw [cString, List.takeWhile_eq_self_iff]
  intro b hb
  have hne : b ≠ 0 := fun h => hbytes (h ▸ hb)
  simpa using hne

section Written

variable (writer : CoreWriter)

/-- A path without a zero byte is written whole. -/
theorem outputJsonWriteEscaped_eq {path : Bytes} (hpath : 0 ∉ path) :
    outputJsonWriteEscaped writer path = renderString (outputJsonEscapedByte writer) path := by
  rw [outputJsonWriteEscaped, cString_eq hpath, renderString]

/-- Reading the positions of a group gives its paths. -/
theorem groupPaths_eq {entries : List FileEntry} {group : Group}
    (hgroup : group.startIndex + group.entryCount ≤ entries.length) :
    (List.range group.entryCount).map (fun entryOffset =>
      absolutePathAt entries (group.startIndex + entryOffset)) = groupPaths entries group := by
  apply List.ext_getElem?
  intro i
  rw [groupPaths, List.getElem?_map, List.getElem?_map, List.getElem?_take, List.getElem?_drop]
  by_cases hi : i < group.entryCount
  · have hlt : group.startIndex + i < entries.length := by omega
    rw [List.getElem?_range hi, if_pos hi, Option.map_some, absolutePathAt,
      List.getElem?_eq_getElem hlt]
    rfl
  · rw [List.getElem?_eq_none (by rw [List.length_range]; omega), if_neg hi]
    rfl

/-- A key is written with its own length. -/
theorem writeStatKeyValue_eq {key : Bytes} (hkey : key.flatMap (outputJsonEscapedByte writer) = key)
    (value : Nat) : writeStatKeyValue (key ++ [0]) key.length value =
      renderMember (outputJsonEscapedByte writer) (key, .number value) := by
  rw [writeStatKeyValue, List.take_left, renderMember, renderString, hkey, render,
    List.cons_append, List.append_assoc]
  rfl

theorem outputJsonWriteStats_eq (statistics : Statistics) : outputJsonWriteStats statistics =
    renderMember (outputJsonEscapedByte writer)
      (ascii "stats", .object (statisticsMembers statistics)) := by
  have hstat : ∀ (key : Bytes) (keyLength value : Nat), keyLength = key.length →
      key.flatMap (outputJsonEscapedByte writer) = key →
      writeStatKeyValue (key ++ [0]) keyLength value =
        renderMember (outputJsonEscapedByte writer) (key, .number value) := by
    rintro key _ value rfl hkey
    exact writeStatKeyValue_eq writer hkey value
  unfold outputJsonWriteStats stringLiteral
  rw [hstat (ascii "files_scanned") 13 _ rfl rfl,
    hstat (ascii "directories_scanned") 19 _ rfl rfl,
    hstat (ascii "files_skipped") 13 _ rfl rfl, hstat (ascii "hardlinks_collapsed") 19 _ rfl rfl,
    hstat (ascii "size_candidates") 15 _ rfl rfl, hstat (ascii "files_hashed_fast") 17 _ rfl rfl,
    hstat (ascii "files_hashed_full") 17 _ rfl rfl, hstat (ascii "duplicate_groups") 16 _ rfl rfl,
    hstat (ascii "duplicate_files") 15 _ rfl rfl, hstat (ascii "wasted_bytes") 12 _ rfl rfl,
    hstat (ascii "wall_ms") 7 _ rfl rfl]
  conv_rhs => rw [renderMember, render_object, statisticsMembers]
  simp only [List.map_cons, List.map_nil, commaSeparated_cons, List.flatMap_cons, List.flatMap_nil,
    List.append_assoc, List.cons_append, List.nil_append]
  rfl

/-- A member whose key needs no escape. -/
theorem renderMember_eq {key : Bytes} (hkey : key.flatMap (outputJsonEscapedByte writer) = key)
    (value : Value) : renderMember (outputJsonEscapedByte writer) (key, value) =
      quote :: (key ++ quote :: colon :: render (outputJsonEscapedByte writer) value) := by
  rw [renderMember, renderString, hkey, List.cons_append, List.append_assoc]
  rfl

variable {entries : List FileEntry} (hpaths : ∀ entry ∈ entries, 0 ∉ entry.absolutePath)
include hpaths

theorem outputJsonWriteGroup_eq {group : Group}
    (hgroup : group.startIndex + group.entryCount ≤ entries.length) :
    outputJsonWriteGroup writer entries group =
      render (outputJsonEscapedByte writer) (groupValue entries group) := by
  have hfiles : (List.range group.entryCount).map (fun entryOffset =>
      outputJsonWriteEscaped writer (absolutePathAt entries (group.startIndex + entryOffset))) =
      ((groupPaths entries group).map Value.string).map (render (outputJsonEscapedByte writer)) := by
    rw [← groupPaths_eq hgroup, List.map_map, List.map_map]
    refine List.map_congr_left fun entryOffset hoffset => ?_
    have hlt : group.startIndex + entryOffset < entries.length := by
      have := List.mem_range.mp hoffset
      omega
    refine outputJsonWriteEscaped_eq writer ?_
    rw [absolutePathAt, List.getElem?_eq_getElem hlt]
    exact hpaths _ (List.getElem_mem hlt)
  rw [outputJsonWriteGroup, hfiles, groupValue, render_object, List.map_cons, List.map_cons,
    renderMember_eq writer rfl, renderMember_eq writer rfl, render_array, render,
    List.map_nil, commaSeparated_cons]
  simp only [List.flatMap_cons, List.flatMap_nil, List.append_assoc, List.cons_append,
    List.nil_append]
  rfl

/-- **The report is the document printed**, and a newline. -/
theorem outputJsonWrite_eq (algorithm : Algorithm) {groups : List Group}
    (hgroups : ∀ group ∈ groups, group.startIndex + group.entryCount ≤ entries.length)
    (statistics : Statistics) : outputJsonWrite writer algorithm entries groups statistics =
      render (outputJsonEscapedByte writer) (jsonDocument algorithm entries groups statistics) ++
        ascii "\n" := by
  have hall : groups.map (outputJsonWriteGroup writer entries) =
      (groups.map (groupValue entries)).map (render (outputJsonEscapedByte writer)) := by
    rw [List.map_map]
    exact List.map_congr_left fun group hgroup =>
      outputJsonWriteGroup_eq writer hpaths (hgroups group hgroup)
  have hname : (outputJsonAlgorithmName algorithm).flatMap (outputJsonEscapedByte writer) =
      outputJsonAlgorithmName algorithm := by cases algorithm <;> rfl
  rw [outputJsonWrite, hall, outputJsonWriteStats_eq writer, jsonDocument, render_object]
  simp only [List.map_cons, List.map_nil, commaSeparated_cons, List.flatMap_cons,
    List.flatMap_nil]
  generalize renderMember (outputJsonEscapedByte writer)
    (ascii "stats", .object (statisticsMembers statistics)) = stats
  rw [renderMember_eq writer rfl, renderMember_eq writer rfl, renderMember_eq writer rfl,
    renderMember_eq writer rfl, render_array, render, renderString, render, renderString, render,
    renderString, hname]
  simp only [List.append_assoc, List.cons_append, List.nil_append]
  rfl

end Written

/-! ## reading the report -/

/-- **Reading the report gives back the document**, and then one newline. -/
theorem parse_outputJsonWrite (writer : CoreWriter) (hwriter : writer.PrintsHexadecimal)
    (algorithm : Algorithm) (entries : List FileEntry)
    (hpaths : ∀ entry ∈ entries, 0 ∉ entry.absolutePath) (groups : List Group)
    (hgroups : ∀ group ∈ groups, group.startIndex + group.entryCount ≤ entries.length)
    (statistics : Statistics) :
    parse (outputJsonWrite writer algorithm entries groups statistics) =
      some (jsonDocument algorithm entries groups statistics, ascii "\n") := by
  rw [outputJsonWrite_eq writer hpaths algorithm hgroups statistics]
  refine parse_render (undoes_outputJsonEscapedByte hwriter) _ ?_
  intro b hb
  cases hb
  decide

/-! ### a path with escapes -/

/-- The last `width` hexadecimal digits of a value, in lower case. -/
def lowercaseHexadecimal (value : Nat) : Nat → Bytes
  | 0 => []
  | width + 1 => lowercaseHexadecimal (value / 16) width ++
      [if value % 16 < 10 then (48 + value % 16).toUInt8 else (87 + value % 16).toUInt8]

def CoreWriter.lowercase : CoreWriter := ⟨lowercaseHexadecimal⟩

theorem printsHexadecimal_lowercase : CoreWriter.lowercase.PrintsHexadecimal := by
  have hdigit : ∀ d < 16, hexDigit (if d < 10 then (48 + d).toUInt8 else (87 + d).toUInt8) =
      some d := by decide
  intro value width hvalue
  change (lowercaseHexadecimal value width).length = width ∧
    hexValue (lowercaseHexadecimal value width) = some value
  induction width generalizing value with
  | zero =>
      cases Nat.lt_one_iff.mp hvalue
      exact ⟨rfl, rfl⟩
  | succ width ih =>
      obtain ⟨hlen, hprefix⟩ := ih (value / 16) (by
        rw [Nat.pow_succ] at hvalue
        exact Nat.div_lt_of_lt_mul (by omega))
      rw [lowercaseHexadecimal]
      refine ⟨by rw [List.length_append, hlen]; rfl, ?_⟩
      rw [hexValue] at hprefix ⊢
      rw [List.foldl_append, hprefix, List.foldl_cons, List.foldl_nil, Option.bind_some,
        hdigit _ (Nat.mod_lt value (by decide)), Option.map_some, Option.some.injEq]
      omega

/-- A file whose name holds a quote, a backslash, a newline and a byte `0x01`. -/
def oddEntry : FileEntry := .discovered [0x2F, 0x22, 0x5C, 0x0A, 0x01, 0xFF] 7 0 1

/-- What a run that finds these two files reports. -/
def oddStatistics : Statistics := ⟨2, 1, 0, 0, 2, 2, 2, 1, 2, 7, 0⟩

theorem parse_outputJsonWrite_odd :
    parse (outputJsonWrite .lowercase .xxh3 [oddEntry, oddEntry] [⟨0, 2, 7⟩] oddStatistics) =
      some (jsonDocument .xxh3 [oddEntry, oddEntry] [⟨0, 2, 7⟩] oddStatistics, ascii "\n") :=
  parse_outputJsonWrite .lowercase printsHexadecimal_lowercase .xxh3 [oddEntry, oddEntry]
    (by decide +kernel) [⟨0, 2, 7⟩] (by decide +kernel) oddStatistics

end BcDuplicate
