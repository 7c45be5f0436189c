import BcDuplicate.Base.Lines
import BcDuplicate.Output.Document

/-!
# BcDuplicate.Output.Lines

The plain report as text made of lines and blocks.

What `bc_duplicate_output_simple_write` writes is a block for each group with
an empty line between two blocks, a path on each line
(`outputSimpleWrite_eq`).  The format has no escapes: reading the blocks back
gives the groups exactly when no path contains a newline, and two reports of
such paths are equal only when they list the same groups.  The JSON report
then lists them too (`reportFiles_parse`).
-/

namespace BcDuplicate

open Lines (writeLines writeBlocks readBlocks)
open Json (Value ascii)

/-- The groups as the lists of their paths. -/
def pathLists (entries : List FileEntry) (groups : List Group) : List (List Bytes) :=
  groups.map (groupPaths entries)

/-- What a run reports: groups of at least two entries, whose paths are
non-empty C strings. -/
structure Reportable (entries : List FileEntry) (groups : List Group) : Prop where
  nonempty : ∀ entry ∈ entries, entry.absolutePath ≠ []
  noZero : ∀ entry ∈ entries, 0 ∉ entry.absolutePath
  two : ∀ group ∈ groups, 2 ≤ group.entryCount
  bounds : ∀ group ∈ groups, group.startIndex + group.entryCount ≤ entries.length

/-- No reported path contains a newline. -/
def NewlineFree (entries : List FileEntry) (groups : List Group) : Prop :=
  ∀ paths ∈ pathLists entries groups, ∀ path ∈ paths, newline ∉ path

instance (entries : List FileEntry) (groups : List Group) :
    Decidable (NewlineFree entries groups) := by
  unfold NewlineFree; infer_instance

theorem mem_groupPaths {entries : List FileEntry} {group : Group} {path : Bytes}
    (hpath : path ∈ groupPaths entries group) : ∃ entry ∈ entries, entry.absolutePath = path := by
  obtain ⟨entry, hentry, heq⟩ := List.mem_map.mp hpath
  exact ⟨entry, List.mem_of_mem_drop (List.mem_of_mem_take hentry), heq⟩

theorem length_groupPaths {entries : List FileEntry} {group : Group}
    (hgroup : group.startIndex + group.entryCount ≤ entries.length) :
    (groupPaths entries group).length = group.entryCount := by
  rw [groupPaths, List.length_map, List.length_take, List.length_drop]
  omega

namespace Reportable

variable {entries : List FileEntry} {groups : List Group} (hreport : Reportable entries groups)
include hreport

theorem nil_notMem_pathLists : [] ∉ pathLists entries groups := by
  intro hnil
  obtain ⟨group, hgroup, hempty⟩ := List.mem_map.mp hnil
  have hlength := length_groupPaths (hreport.bounds group hgroup)
  have htwo := hreport.two group hgroup
  rw [hempty, List.length_nil] at hlength
  omega

theorem nil_notMem_paths : ∀ paths ∈ pathLists entries groups, [] ∉ paths := by
  intro paths hpaths hnil
  obtain ⟨group, _, rfl⟩ := List.mem_map.mp hpaths
  obtain ⟨entry, hentry, hempty⟩ := mem_groupPaths hnil
  exact hreport.nonempty entry hentry hempty

end Reportable

/-! ## the bytes written -/

/-- The loop over the groups writes an empty line behind every group but the
last. -/
theorem flatMap_zipIdx_eq_writeBlocks (blocks : List (List Bytes)) (groups : List Group)
    (write : Group → Bytes) (before : Nat)
    (hwrite : groups.map write = blocks.map (writeLines newline)) :
    (groups.zipIdx before).flatMap (fun (group, groupIndex) =>
        write group ++ if groupIndex + 1 < before + groups.length then ascii "\n" else []) =
      writeBlocks newline blocks := by
  induction groups generalizing blocks before with
  | nil =>
    rw [List.map_nil, eq_comm, List.map_eq_nil_iff] at hwrite
    rw [hwrite]
    rfl
  | cons group groups ih =>
    obtain ⟨block, blocks, rfl, hfirst, hlater⟩ := List.map_eq_cons_iff.mp hwrite.symm
    have hrest := ih blocks (before + 1) hlater.symm
    have hlength : before + (group :: groups).length = before + 1 + groups.length := by
      rw [List.length_cons]
      omega
    rw [List.zipIdx_cons, List.flatMap_cons, hlength, hrest]
    dsimp only
    rw [← hfirst]
    cases blocks with
    | nil =>
      rw [List.map_nil, eq_comm, List.map_eq_nil_iff] at hlater
      rw [hlater, List.length_nil, if_neg (Nat.lt_irrefl _), Lines.writeBlocks_singleton,
        List.append_nil]
      exact List.append_nil _
    | cons second blocks =>
      obtain ⟨group', groups, rfl, _, _⟩ := List.map_eq_cons_iff.mp hlater.symm
      rw [if_pos (by rw [List.length_cons]; omega), Lines.writeBlocks_cons_cons,
        List.append_assoc]
      rfl

/-- **The report is the blocks of the groups' paths.** -/
theorem outputSimpleWrite_eq {entries : List FileEntry} {groups : List Group}
    (hreport : Reportable entries groups) :
    outputSimpleWrite entries groups = writeBlocks newline (pathLists entries groups) := by
  have hgroup : ∀ group ∈ groups, (List.range group.entryCount).flatMap (fun entryOffset =>
      cString (absolutePathAt entries (group.startIndex + entryOffset)) ++ ascii "\n") =
      writeLines newline (groupPaths entries group) := by
    intro group hgroup
    rw [writeLines, ← groupPaths_eq (hreport.bounds group hgroup), List.flatMap_map]
    refine List.flatMap_congr fun entryOffset hoffset => ?_
    have hlt : group.startIndex + entryOffset < entries.length := by
      have hin := List.mem_range.mp hoffset
      have hbounds := hreport.bounds group hgroup
      omega
    have hpath : absolutePathAt entries (group.startIndex + entryOffset) =
        entries[group.startIndex + entryOffset].absolutePath := by
      rw [absolutePathAt, List.getElem?_eq_getElem hlt]
      rfl
    rw [hpath, cString_eq (hreport.noZero _ (List.getElem_mem hlt))]
    rfl
  have hall := flatMap_zipIdx_eq_writeBlocks (pathLists entries groups) groups
    (fun group => (List.range group.entryCount).flatMap fun entryOffset =>
      cString (absolutePathAt entries (group.startIndex + entryOffset)) ++ ascii "\n") 0
    (by rw [pathLists, List.map_map]; exact List.map_congr_left hgroup)
  rw [Nat.zero_add] at hall
  exact hall

/-! ## the files of the JSON report -/

/-- The value of a key. -/
def memberValue (key : Bytes) : Value → Value
  | .object members => (members.lookup key).getD .null
  | _ => .null

def arrayElements : Value → List Value
  | .array elements => elements
  | _ => []

def stringBytes : Value → Option Bytes
  | .string bytes => some bytes
  | _ => none

/-- The paths under the key `files` of each group of a report. -/
def reportFiles (document : Value) : List (List Bytes) :=
  (arrayElements (memberValue (ascii "groups") document)).map fun group =>
    (arrayElements (memberValue (ascii "files") group)).filterMap stringBytes

theorem reportFiles_jsonDocument (algorithm : Algorithm) (entries : List FileEntry)
    (groups : List Group) (statistics : Statistics) :
    reportFiles (jsonDocument algorithm entries groups statistics) =
      pathLists entries groups := by
  have hgroups : arrayElements (memberValue (ascii "groups")
      (jsonDocument algorithm entries groups statistics)) =
        groups.map (groupValue entries) := rfl
  rw [reportFiles, hgroups, List.map_map, pathLists]
  refine List.map_congr_left fun group _ => ?_
  have hfiles : arrayElements (memberValue (ascii "files") (groupValue entries group)) =
      (groupPaths entries group).map .string := rfl
  rw [Function.comp_apply, hfiles, List.filterMap_map]
  exact List.filterMap_some

/-- The report of paths that can be written is read back as a document. -/
theorem Reportable.parse_eq {writer : CoreWriter} (hwriter : writer.PrintsHexadecimal)
    (algorithm : Algorithm) {entries : List FileEntry} {groups : List Group}
    (hreport : Reportable entries groups) (statistics : Statistics) :
    Json.parse (outputJsonWrite writer algorithm entries groups statistics) =
      some (jsonDocument algorithm entries groups statistics, ascii "\n") := by
  rw [outputJsonWrite_eq writer hreport.noZero algorithm hreport.bounds statistics]
  refine Json.parse_render (undoes_outputJsonEscapedByte hwriter) _ fun b hb => ?_
  cases hb
  decide

/-- A program that reads the JSON report finds the groups in it. -/
theorem reportFiles_parse {writer : CoreWriter} (hwriter : writer.PrintsHexadecimal)
    (algorithm : Algorithm) {entries : List FileEntry} {groups : List Group}
    (hreport : Reportable entries groups) (statistics : Statistics) :
    (Json.parse (outputJsonWrite writer algorithm entries groups statistics)).map
        (reportFiles ·.1) = some (pathLists entries groups) := by
  rw [hreport.parse_eq hwriter, Option.map_some, reportFiles_jsonDocument]

/-! ## reading the report -/

/-- **When the plain report can be read back.** -/
theorem readBlocks_outputSimpleWrite_iff {entries : List FileEntry} {groups : List Group}
    (hreport : Reportable entries groups) :
    readBlocks newline (outputSimpleWrite entries groups) = pathLists entries groups ↔
      NewlineFree entries groups := by
  constructor
  · intro hread paths hpaths path hpath
    rw [← hread] at hpaths
    exact Lines.not_mem_of_mem_readBlocks newline hpaths hpath
  · intro hfree
    rw [outputSimpleWrite_eq hreport]
    exact Lines.readBlocks_writeBlocks newline hreport.nil_notMem_pathLists
      hreport.nil_notMem_paths hfree

/-- **The plain report conveys the groups of newline-free paths.**  Its
blocks are the groups exactly when no reported path contains a newline; then
no other groups of newline-free paths have the same report, and the JSON
report lists the same paths. -/
theorem simple_output_newlineFree {writer : CoreWriter} (hwriter : writer.PrintsHexadecimal)
    {entries : List FileEntry} {groups : List Group} (hreport : Reportable entries groups) :
    (readBlocks newline (outputSimpleWrite entries groups) = pathLists entries groups ↔
      NewlineFree entries groups) ∧
    (NewlineFree entries groups →
      (∀ entries' groups', Reportable entries' groups' → NewlineFree entries' groups' →
        outputSimpleWrite entries' groups' = outputSimpleWrite entries groups →
        pathLists entries' groups' = pathLists entries groups) ∧
      ∀ algorithm statistics,
        (Json.parse (outputJsonWrite writer algorithm entries groups statistics)).map
          (reportFiles ·.1) =
            some (readBlocks newline (outputSimpleWrite entries groups))) := by
  refine ⟨readBlocks_outputSimpleWrite_iff hreport, fun hfree => ⟨?_, ?_⟩⟩
  · intro entries' groups' hreport' hfree' hsame
    rw [← (readBlocks_outputSimpleWrite_iff hreport').mpr hfree', hsame,
      (readBlocks_outputSimpleWrite_iff hreport).mpr hfree]
  · intro algorithm statistics
    rw [(readBlocks_outputSimpleWrite_iff hreport).mpr hfree]
    exact reportFiles_parse hwriter algorithm hreport statistics

/-- The files `a` and `b`, and the file whose name is the two with a newline
in between. -/
def splitEntries : List FileEntry :=
  [.discovered [97] 7 0 1, .discovered [98] 7 0 2, .discovered [97, 10, 98] 7 0 3,
    .discovered [99] 7 0 4]

/-- The file with the newline and `c` are reported as `a`, `b` and `c` are. -/
theorem simple_output_newline :
    ¬ ∀ entries groups, Reportable entries groups →
      readBlocks newline (outputSimpleWrite entries groups) = pathLists entries groups ∧
      ∀ entries' groups', Reportable entries' groups' →
        outputSimpleWrite entries' groups' = outputSimpleWrite entries groups →
        pathLists entries' groups' = pathLists entries groups := by
  intro hclaim
  have hreport : Reportable [splitEntries[2], splitEntries[3]] [⟨0, 2, 7⟩] :=
    ⟨by decide +kernel, by decide +kernel, by decide, by decide⟩
  have hreport' : Reportable [splitEntries[0], splitEntries[1], splitEntries[3]] [⟨0, 3, 7⟩] :=
    ⟨by decide +kernel, by decide +kernel, by decide, by decide⟩
  have hsame := (hclaim _ _ hreport).2 _ _ hreport' (by decide +kernel)
  exact absurd hsame (by decide +kernel)

/-- Two groups of plain names. -/
theorem simple_output_newlineFree_plain :
    readBlocks newline (outputSimpleWrite
      [splitEntries[0], splitEntries[1], splitEntries[3], splitEntries[0]]
      [⟨0, 2, 7⟩, ⟨2, 2, 7⟩]) = [[[97], [98]], [[99], [97]]] := by
  have hreport : Reportable [splitEntries[0], splitEntries[1], splitEntries[3], splitEntries[0]]
      [⟨0, 2, 7⟩, ⟨2, 2, 7⟩] := ⟨by decide +kernel, by decide +kernel, by decide, by decide⟩
  exact (simple_output_newlineFree printsHexadecimal_lowercase hreport).1.mpr (by decide +kernel)

end BcDuplicate
