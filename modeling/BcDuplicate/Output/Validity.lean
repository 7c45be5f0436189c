import BcDuplicate.Base.JsonGrammar
import BcDuplicate.Output.Document
import Mathlib.Data.List.Induction

/-!
# BcDuplicate.Output.Validity

When the JSON report is a JSON text.

Every byte below `0x80` is written in a form the grammar has for it, and every
other byte as it is (`escapes_outputJsonEscapedByte`).  So the report is a
text exactly when its strings are UTF-8, and the only ones that need not be
are the paths.
-/

namespace BcDuplicate

open Json

/-! ## escapes -/

theorem isSome_hexDigit_of_hexValue {digits : Bytes} {value : Nat}
    (hvalue : hexValue digits = some value) : ∀ d ∈ digits, (hexDigit d).isSome := by
  induction digits using List.reverseRecOn generalizing value with
  | nil => nofun
  | append_singleton digits d ih =>
    rw [hexValue, List.foldl_append, List.foldl_cons, List.foldl_nil] at hvalue
    obtain ⟨high, hhigh, hlow⟩ := Option.bind_eq_some_iff.mp hvalue
    obtain ⟨low, hdigit, _⟩ := Option.map_eq_some_iff.mp hlow
    intro d' hd'
    obtain hearlier | hlast := List.mem_append.mp hd'
    · exact ih hhigh d' hearlier
    · rw [List.mem_singleton.mp hlast, hdigit]
      rfl

/-- **Every byte is written in a form of the grammar.** -/
theorem escapes_outputJsonEscapedByte {writer : CoreWriter} (hwriter : writer.PrintsHexadecimal) :
    Escapes (outputJsonEscapedByte writer) where
  high b hhigh := by
    unfold outputJsonEscapedByte
    split_ifs with hquote hbackslash hb hf hn hr ht hcontrol
    · exact absurd (hquote ▸ by decide) hhigh
    · exact absurd (hbackslash ▸ by decide) hhigh
    · exact absurd (hb ▸ by decide) hhigh
    · exact absurd (hf ▸ by decide) hhigh
    · exact absurd (hn ▸ by decide) hhigh
    · exact absurd (hr ▸ by decide) hhigh
    · exact absurd (ht ▸ by decide) hhigh
    · exact absurd (UInt8.lt_trans hcontrol (by decide)) hhigh
    · rfl
  low b hlow := by
    unfold outputJsonEscapedByte
    split_ifs with hquote hbackslash hb hf hn hr ht hcontrol
    · exact .short rfl
    · exact .short rfl
    · exact .short rfl
    · exact .short rfl
    · exact .short rfl
    · exact .short rfl
    · exact .short rfl
    · -- four hexadecimal digits of a code below 0x20
      have hlt : b.toNat < 0x20 := hcontrol
      obtain ⟨hlength, hvalue⟩ := hwriter b.toNat 4 (by omega)
      exact .unicode hlength (isSome_hexDigit_of_hexValue hvalue)
    · exact .itself (Nat.le_of_not_lt hcontrol) (fun h => hquote (UInt8.toNat_inj.mp h))
        fun h => hbackslash (UInt8.toNat_inj.mp h)

/-! ## the strings of the report -/

theorem elementStrings_eq (vs : List Value) : elementStrings vs = vs.flatMap strings := by
  induction vs with
  | nil => rfl
  | cons v vs ih => rw [elementStrings, ih, List.flatMap_cons]

theorem mem_strings_groupValue {entries : List FileEntry} {group : Group} {s : Bytes} :
    s ∈ strings (groupValue entries group) ↔
      s ∈ [ascii "size", ascii "files"] ∨ s ∈ groupPaths entries group := by
  have hpaths : ((groupPaths entries group).map Value.string).flatMap strings =
      groupPaths entries group := by
    rw [List.flatMap_map]
    exact List.flatMap_singleton' _
  rw [groupValue, strings, memberStrings, memberStrings, memberStrings, strings, strings,
    elementStrings_eq, hpaths]
  simp only [List.mem_cons, List.mem_append, List.not_mem_nil, or_false, false_or]
  rw [or_assoc]

/-- The keys and values of the report that are the same in every run. -/
def fixedStrings (algorithm : Algorithm) (statistics : Statistics) : List Bytes :=
  [ascii "version", ascii "1.0.0", ascii "tool", ascii "bc-duplicate", ascii "algorithm",
    outputJsonAlgorithmName algorithm, ascii "stats"] ++
  memberStrings (statisticsMembers statistics) ++ [ascii "groups"]

theorem wellFormed_fixedStrings (algorithm : Algorithm) (statistics : Statistics) :
    ∀ s ∈ fixedStrings algorithm statistics, Utf8.WellFormed s := by
  have hkeys : fixedStrings algorithm statistics =
      fixedStrings algorithm ⟨0, 0, 0, 0, 0, 0, 0, 0, 0, 0, 0⟩ := rfl
  have hascii : ∀ s ∈ fixedStrings algorithm ⟨0, 0, 0, 0, 0, 0, 0, 0, 0, 0, 0⟩,
      s.all (· < 0x80) = true := by
    cases algorithm <;> decide +kernel
  rw [hkeys]
  exact fun s hs => Utf8.wellFormed_of_all (hascii s hs)

theorem strings_jsonDocument (algorithm : Algorithm) (entries : List FileEntry)
    (groups : List Group) (statistics : Statistics) :
    strings (jsonDocument algorithm entries groups statistics) =
      fixedStrings algorithm statistics ++
        groups.flatMap fun group => strings (groupValue entries group) := by
  have hgroups : elementStrings (groups.map (groupValue entries)) =
      groups.flatMap fun group => strings (groupValue entries group) := by
    rw [elementStrings_eq, List.flatMap_map]
  have hdocument : strings (jsonDocument algorithm entries groups statistics) =
      fixedStrings algorithm statistics ++
        (elementStrings (groups.map (groupValue entries)) ++ []) := rfl
  rw [hdocument, hgroups, List.append_nil]

/-- The only strings of the report that need not be UTF-8 are the paths. -/
theorem wellFormed_strings_jsonDocument_iff (algorithm : Algorithm) (entries : List FileEntry)
    (groups : List Group) (statistics : Statistics) :
    (∀ s ∈ strings (jsonDocument algorithm entries groups statistics), Utf8.WellFormed s) ↔
      ∀ group ∈ groups, ∀ path ∈ groupPaths entries group, Utf8.WellFormed path := by
  rw [strings_jsonDocument, List.forall_mem_append,
    and_iff_right (wellFormed_fixedStrings algorithm statistics)]
  constructor
  · intro hall group hgroup path hpath
    exact hall path
      (List.mem_flatMap.mpr ⟨group, hgroup, mem_strings_groupValue.mpr (Or.inr hpath)⟩)
  · intro hall s hs
    obtain ⟨group, hgroup, hin⟩ := List.mem_flatMap.mp hs
    obtain hkey | hpath := mem_strings_groupValue.mp hin
    · have hascii : ∀ s ∈ [ascii "size", ascii "files"], s.all (· < 0x80) = true := by
        decide +kernel
      exact Utf8.wellFormed_of_all (hascii s hkey)
    · exact hall group hgroup s hpath

theorem text_outputJsonWrite_iff_strings {writer : CoreWriter} (hwriter : writer.PrintsHexadecimal)
    (algorithm : Algorithm) {entries : List FileEntry}
    (hpaths : ∀ entry ∈ entries, 0 ∉ entry.absolutePath) {groups : List Group}
    (hgroups : ∀ group ∈ groups, group.startIndex + group.entryCount ≤ entries.length)
    (statistics : Statistics) :
    Text (outputJsonWrite writer algorithm entries groups statistics) ↔
      ∀ s ∈ strings (jsonDocument algorithm entries groups statistics), Utf8.WellFormed s := by
  have hnewline : Whitespace (ascii "\n") := List.forall_mem_singleton.mpr rfl
  rw [outputJsonWrite_eq writer hpaths algorithm hgroups statistics,
    text_render_iff (escapes_outputJsonEscapedByte hwriter) _ hnewline]

/-- **When the report is a JSON text**: exactly when every reported path is
well-formed UTF-8. -/
theorem outputJsonWrite_text_iff (writer : CoreWriter) (hwriter : writer.PrintsHexadecimal)
    (algorithm : Algorithm) (entries : List FileEntry)
    (hpaths : ∀ entry ∈ entries, 0 ∉ entry.absolutePath) (groups : List Group)
    (hgroups : ∀ group ∈ groups, group.startIndex + group.entryCount ≤ entries.length)
    (statistics : Statistics) :
    Text (outputJsonWrite writer algorithm entries groups statistics) ↔
      ∀ group ∈ groups, ∀ path ∈ groupPaths entries group, Utf8.WellFormed path :=
  (text_outputJsonWrite_iff_strings hwriter algorithm hpaths hgroups statistics).trans
    (wellFormed_strings_jsonDocument_iff algorithm entries groups statistics)

/-- Two copies of a file whose name is the byte `0xFF`. -/
def latinEntry : FileEntry := .discovered [0x2F, 0xFF] 7 0 1

theorem outputJsonWrite_not_text :
    ¬ ∀ (writer : CoreWriter), writer.PrintsHexadecimal →
      ∀ (algorithm : Algorithm) (entries : List FileEntry),
      (∀ entry ∈ entries, 0 ∉ entry.absolutePath) →
      ∀ groups : List Group,
      (∀ group ∈ groups, group.startIndex + group.entryCount ≤ entries.length) →
      ∀ statistics, Text (outputJsonWrite writer algorithm entries groups statistics) := by
  intro hclaim
  have htext := hclaim .lowercase printsHexadecimal_lowercase .xxh3 [latinEntry, latinEntry]
    (by decide +kernel) [⟨0, 2, 7⟩] (by decide) oddStatistics
  rw [text_outputJsonWrite_iff_strings printsHexadecimal_lowercase .xxh3 (by decide +kernel)
    (by decide), wellFormed_strings_jsonDocument_iff] at htext
  exact absurd (htext ⟨0, 2, 7⟩ (by decide) [0x2F, 0xFF] (by decide +kernel)) (by decide +kernel)

/-- A name outside ASCII, in UTF-8. -/
theorem outputJsonWrite_text_accent :
    Text (outputJsonWrite .lowercase .xxh3 [.discovered [0x2F, 0xC3, 0xA9, 0x22, 0x01] 7 0 1,
      .discovered [0x2F, 0x62] 7 0 2] [⟨0, 2, 7⟩] oddStatistics) :=
  (outputJsonWrite_text_iff .lowercase printsHexadecimal_lowercase .xxh3
    [.discovered [0x2F, 0xC3, 0xA9, 0x22, 0x01] 7 0 1, .discovered [0x2F, 0x62] 7 0 2]
    (by decide +kernel) [⟨0, 2, 7⟩] (by decide) oddStatistics).mpr (by decide +kernel)

end BcDuplicate
