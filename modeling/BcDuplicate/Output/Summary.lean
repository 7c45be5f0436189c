import BcDuplicate.Output

/-!
# BcDuplicate.Output.Summary

The statistics block of the summary, read back.  A reader that knows the labels
takes the lines one after the other, each its label, a number and a newline,
with nothing behind the last (`readSummary`); what
`bc_duplicate_output_summary_write` writes gives it the statistics
(`readSummary_outputSummaryWrite`).
-/

namespace BcDuplicate

open Json (ascii decimal parseNumber parseNumber_decimal Stops)

/-! ## reading -/

/-- The labels of the lines, in order. -/
def summaryLabels : List Bytes :=
  [ascii "Files scanned:        ", ascii "Directories scanned:  ", ascii "Files skipped:        ",
    ascii "Hardlinks collapsed:  ", ascii "Size candidates:      ",
    ascii "Files hashed (fast):  ", ascii "Files hashed (full):  ",
    ascii "Duplicate groups:     ", ascii "Duplicate files:      ",
    ascii "Wasted bytes:         ", ascii "Wall ms:              "]

/-- Reads a line with this label: its number, and what follows the line. -/
def readLabeledUint (label input : Bytes) : Option (Nat × Bytes) :=
  if label <+: input then
    match parseNumber (input.drop label.length) with
    | some (value, 10 :: rest) => some (value, rest)
    | _ => none
  else none

/-- Reads a line for each of the labels, and nothing else. -/
def readLabeledLines : List Bytes → Bytes → Option (List Nat)
  | [], input => if input = [] then some [] else none
  | label :: labels, input =>
      (readLabeledUint label input).bind fun line =>
        (readLabeledLines labels line.2).map (line.1 :: ·)

/-- The statistics with these values, in the order of the lines. -/
def statisticsOf : List Nat → Option Statistics
  | [filesScanned, directoriesScanned, filesSkipped, hardlinksCollapsed, sizeCandidateCount,
      filesHashedFast, filesHashedFull, duplicateGroupCount, duplicateFileCount, wastedBytes,
      wallMs] =>
      some ⟨filesScanned, directoriesScanned, filesSkipped, hardlinksCollapsed, sizeCandidateCount,
        filesHashedFast, filesHashedFull, duplicateGroupCount, duplicateFileCount, wastedBytes,
        wallMs⟩
  | _ => none

/-- Reads a statistics block. -/
def readSummary (input : Bytes) : Option Statistics :=
  (readLabeledLines summaryLabels input).bind statisticsOf

/-! ## what is written -/

/-- The values of the lines. -/
def summaryValues (statistics : Statistics) : List Nat :=
  [statistics.filesScanned, statistics.directoriesScanned, statistics.filesSkipped,
    statistics.hardlinksCollapsed, statistics.sizeCandidateCount, statistics.filesHashedFast,
    statistics.filesHashedFull, statistics.duplicateGroupCount, statistics.duplicateFileCount,
    statistics.wastedBytes, statistics.wallMs]

theorem statisticsOf_summaryValues (statistics : Statistics) :
    statisticsOf (summaryValues statistics) = some statistics := rfl

/-- A line: its label, the number in decimal, a newline. -/
def labeledLine (label : Bytes) (value : Nat) : Bytes := label ++ (decimal value ++ [10])

theorem readLabeledUint_labeledLine (label : Bytes) (value : Nat) (rest : Bytes) :
    readLabeledUint label (labeledLine label value ++ rest) = some (value, rest) := by
  have hstops : Stops (10 :: rest) := by
    intro b hb
    cases hb
    decide
  rw [readLabeledUint, labeledLine, List.append_assoc, if_pos (List.prefix_append _ _),
    List.drop_left, List.append_assoc, List.singleton_append, parseNumber_decimal value hstops]
  rfl

/-- **Lines are read back** under the labels they were written with. -/
theorem readLabeledLines_zipWith (labels : List Bytes) (values : List Nat)
    (hlength : labels.length = values.length) :
    readLabeledLines labels (List.zipWith labeledLine labels values).flatten = some values := by
  induction labels generalizing values with
  | nil =>
      cases List.length_eq_zero_iff.mp hlength.symm
      rfl
  | cons label labels ih =>
      cases values with
      | nil => cases hlength
      | cons value values =>
          rw [List.zipWith_cons_cons, List.flatten_cons, readLabeledLines,
            readLabeledUint_labeledLine, Option.bind_some, ih values (Nat.succ.inj hlength)]
          rfl

/-- A label of 22 bytes is written whole, without the zero behind it. -/
theorem writeLabeledUint_eq {label : Bytes} (hlabel : label.length = 22) (value : Nat) :
    writeLabeledUint (label ++ [0]) 22 value = labeledLine label value := by
  rw [writeLabeledUint, labeledLine, ← hlabel, List.take_left, List.append_assoc]
  rfl

/-- The block is a line for each label. -/
theorem outputSummaryWrite_eq (statistics : Statistics) : outputSummaryWrite statistics =
    (List.zipWith labeledLine summaryLabels (summaryValues statistics)).flatten := by
  have hlabels : ∀ label ∈ summaryLabels, label.length = 22 := by decide
  have hline : ∀ {label : Bytes} (value : Nat), label ∈ summaryLabels →
      writeLabeledUint (label ++ [0]) 22 value = labeledLine label value :=
    fun value hmem => writeLabeledUint_eq (hlabels _ hmem) value
  simp only [outputSummaryWrite, stringLiteral, summaryValues, summaryLabels, List.zipWith_cons_cons,
    List.zipWith_nil_left, List.flatten_cons, List.flatten_nil, List.append_nil, List.append_assoc]
  rw [hline, hline, hline, hline, hline, hline, hline, hline, hline, hline, hline]
  all_goals simp [summaryLabels]

/-- **Reading the block gives back the statistics.** -/
theorem readSummary_outputSummaryWrite (statistics : Statistics) :
    readSummary (outputSummaryWrite statistics) = some statistics := by
  rw [readSummary, outputSummaryWrite_eq, readLabeledLines_zipWith _ _ rfl, Option.bind_some,
    statisticsOf_summaryValues]

end BcDuplicate
