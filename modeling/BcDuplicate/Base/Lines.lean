import Mathlib.Data.List.Basic

/-!
# Lines and blocks

Text made of lines, each ended by a terminator, and of blocks of lines with an
empty line between two blocks.

`readLines` undoes `writeLines` when no line contains the terminator
(`readLines_writeLines`), and `readBlocks` undoes `writeBlocks` when in
addition no line and no block is empty (`readBlocks_writeBlocks`).  Nothing
read contains the terminator (`not_mem_of_mem_readBlocks`), so the condition
is needed as well.
-/

namespace Lines

variable {α : Type} (terminator : α)

/-- Every line, and the terminator behind it. -/
def writeLines (lines : List (List α)) : List α := lines.flatMap (· ++ [terminator])

/-- The blocks, an empty line between two of them. -/
def writeBlocks (blocks : List (List (List α))) : List α :=
  writeLines terminator ([[]].intercalate blocks)

theorem writeLines_cons (line : List α) (lines : List (List α)) :
    writeLines terminator (line :: lines) = line ++ terminator :: writeLines terminator lines := by
  rw [writeLines, List.flatMap_cons, List.append_assoc, List.singleton_append]
  rfl

theorem writeLines_append (lines lines' : List (List α)) :
    writeLines terminator (lines ++ lines') =
      writeLines terminator lines ++ writeLines terminator lines' :=
  List.flatMap_append

/-- **What is left of lines that were cut off anywhere**: some lines as a whole,
and the start of the next one. -/
theorem exists_of_prefix_writeLines {text : List α} {lines : List (List α)}
    (hcut : text <+: writeLines terminator lines) :
    ∃ whole rest later, lines = whole ++ later ∧ text = writeLines terminator whole ++ rest ∧
      rest <+: later.headD [] := by
  induction lines generalizing text with
  | nil => exact ⟨[], text, [], rfl, rfl, hcut⟩
  | cons line lines ih =>
    have hstart : text <+: line → ∃ whole rest later, line :: lines = whole ++ later ∧
        text = writeLines terminator whole ++ rest ∧ rest <+: later.headD [] :=
      fun hline => ⟨[], text, line :: lines, rfl, rfl, hline⟩
    rw [writeLines_cons] at hcut
    obtain hline | ⟨more, hmore⟩ :=
      List.prefix_or_prefix_of_prefix hcut (List.prefix_append line _)
    · exact hstart hline
    · rw [← hmore, List.prefix_append_right_inj] at hcut
      cases more with
      | nil =>
        rw [List.append_nil] at hmore
        exact hstart (hmore ▸ List.prefix_refl line)
      | cons byte more =>
        obtain ⟨rfl, hmoreLines⟩ := List.cons_prefix_cons.mp hcut
        obtain ⟨whole, rest, later, rfl, rfl, hrest⟩ := ih hmoreLines
        refine ⟨line :: whole, rest, later, rfl, ?_, hrest⟩
        rw [← hmore, writeLines_cons, List.append_assoc, List.cons_append]

theorem writeBlocks_singleton (block : List (List α)) :
    writeBlocks terminator [block] = writeLines terminator block := by
  rw [writeBlocks, List.intercalate_singleton]

theorem writeBlocks_cons_cons (block block' : List (List α)) (blocks : List (List (List α))) :
    writeBlocks terminator (block :: block' :: blocks) =
      writeLines terminator block ++ terminator :: writeBlocks terminator (block' :: blocks) := by
  rw [writeBlocks, List.intercalate_cons_cons, List.append_assoc, List.singleton_append,
    writeLines_append, writeLines_cons, List.nil_append, writeBlocks]

/-- The lines of an interleaving with empty lines. -/
theorem mem_intercalate {blocks : List (List (List α))} {line : List α}
    (hline : line ∈ ([[]] : List (List α)).intercalate blocks) :
    line = [] ∨ ∃ block ∈ blocks, line ∈ block := by
  induction blocks with
  | nil => cases hline
  | cons block blocks ih =>
    cases blocks with
    | nil =>
      rw [List.intercalate_singleton] at hline
      exact Or.inr ⟨block, List.mem_singleton_self block, hline⟩
    | cons block' blocks =>
      rw [List.intercalate_cons_cons, List.append_assoc, List.mem_append, List.mem_append,
        List.mem_singleton] at hline
      rcases hline with hhere | hempty | hlater
      · exact Or.inr ⟨block, List.mem_cons_self, hhere⟩
      · exact Or.inl hempty
      · obtain hempty | ⟨other, hother, hin⟩ := ih hlater
        · exact Or.inl hempty
        · exact Or.inr ⟨other, List.mem_cons_of_mem block hother, hin⟩

theorem mem_intercalate_of_mem (separator : List α) {pieces : List (List α)} {piece : List α}
    (hpiece : piece ∈ pieces) {a : α} (ha : a ∈ piece) : a ∈ separator.intercalate pieces := by
  induction pieces with
  | nil => cases hpiece
  | cons first pieces ih =>
    cases pieces with
    | nil =>
      rw [List.intercalate_singleton, ← List.mem_singleton.mp hpiece]
      exact ha
    | cons second pieces =>
      rw [List.intercalate_cons_cons, List.mem_append]
      obtain rfl | hlater := List.mem_cons.mp hpiece
      · exact Or.inl (List.mem_append_left separator ha)
      · exact Or.inr (ih hlater)

variable [BEq α]

/-- The lines of a text; what follows the last terminator is no line. -/
def readLines (text : List α) : List (List α) := (text.splitOn terminator).dropLast

/-- The runs of lines between empty lines. -/
def readBlocks (text : List α) : List (List (List α)) :=
  ((readLines terminator text).splitOn []).filter fun block => !block.isEmpty

/-! ## reading what was written -/

variable [LawfulBEq α]

theorem readLines_cons (line text : List α) (hline : terminator ∉ line) :
    readLines terminator (line ++ terminator :: text) = line :: readLines terminator text := by
  rw [readLines, List.splitOn_append_cons_self_of_not_mem hline,
    List.dropLast_cons_of_ne_nil (List.splitOn_ne_nil terminator text), readLines]

/-- **The lines written are read.** -/
theorem readLines_writeLines {lines : List (List α)} (hlines : ∀ line ∈ lines, terminator ∉ line) :
    readLines terminator (writeLines terminator lines) = lines := by
  induction lines with
  | nil => rfl
  | cons line lines ih =>
    obtain ⟨hline, hlines⟩ := List.forall_mem_cons.mp hlines
    rw [writeLines_cons, readLines_cons terminator line _ hline, ih hlines]

/-- What follows the last terminator is not read. -/
theorem readLines_writeLines_append {lines : List (List α)}
    (hlines : ∀ line ∈ lines, terminator ∉ line) {rest : List α} (hrest : terminator ∉ rest) :
    readLines terminator (writeLines terminator lines ++ rest) = lines := by
  induction lines with
  | nil =>
    have hsplit : rest.splitOn terminator = [rest] := List.splitOn_eq_singleton hrest
    show (rest.splitOn terminator).dropLast = []
    rw [hsplit, List.dropLast_singleton]
  | cons line lines ih =>
    obtain ⟨hline, hlines⟩ := List.forall_mem_cons.mp hlines
    rw [writeLines_cons, List.append_assoc, List.cons_append, readLines_cons terminator line _ hline,
      ih hlines]

/-- **The blocks written are read**, when no line is empty or contains the
terminator and no block is empty. -/
theorem readBlocks_writeBlocks {blocks : List (List (List α))} (hblocks : [] ∉ blocks)
    (hempty : ∀ block ∈ blocks, [] ∉ block)
    (hlines : ∀ block ∈ blocks, ∀ line ∈ block, terminator ∉ line) :
    readBlocks terminator (writeBlocks terminator blocks) = blocks := by
  have hread : readLines terminator (writeBlocks terminator blocks) =
      ([[]] : List (List α)).intercalate blocks := by
    refine readLines_writeLines terminator fun line hline => ?_
    obtain hnone | ⟨block, hblock, hin⟩ := mem_intercalate hline
    · rw [hnone]
      exact List.not_mem_nil
    · exact hlines block hblock line hin
  rw [readBlocks, hread]
  by_cases hnone : blocks = []
  · subst hnone
    rfl
  · rw [List.splitOn_intercalate [] hempty hnone, List.filter_eq_self]
    rintro block hblock
    rw [Bool.not_eq_true', List.isEmpty_eq_false_iff]
    exact fun h => hblocks (h ▸ hblock)

/-! ## what is read -/

/-- No piece of a split contains the separator. -/
theorem not_mem_of_mem_splitOn {separator : α} {l piece : List α}
    (hpiece : piece ∈ l.splitOn separator) : separator ∉ piece := by
  induction l generalizing piece with
  | nil =>
    rw [List.splitOn_nil, List.mem_singleton] at hpiece
    rw [hpiece]
    exact List.not_mem_nil
  | cons a l ih =>
    rw [List.splitOn_cons_eq_if_modifyHead] at hpiece
    by_cases ha : a = separator
    · rw [if_pos (beq_iff_eq.mpr ha)] at hpiece
      obtain rfl | hlater := List.mem_cons.mp hpiece
      · exact List.not_mem_nil
      · exact ih hlater
    · rw [if_neg (mt beq_iff_eq.mp ha)] at hpiece
      obtain ⟨first, later, hsplit⟩ := List.exists_cons_of_ne_nil (List.splitOn_ne_nil separator l)
      rw [hsplit, List.modifyHead_cons] at hpiece
      obtain rfl | hlater := List.mem_cons.mp hpiece
      · intro hmem
        obtain heq | hmem := List.mem_cons.mp hmem
        · exact ha heq.symm
        · exact ih (hsplit ▸ List.mem_cons_self) hmem
      · exact ih (hsplit ▸ List.mem_cons_of_mem first hlater)

theorem not_mem_of_mem_readLines {text line : List α} (hline : line ∈ readLines terminator text) :
    terminator ∉ line :=
  not_mem_of_mem_splitOn (List.dropLast_subset _ hline)

/-- The elements of a piece are elements of what was split. -/
theorem mem_of_mem_splitOn {separator a : α} {l piece : List α}
    (hpiece : piece ∈ l.splitOn separator) (ha : a ∈ piece) : a ∈ l := by
  have hjoin : [separator].intercalate (l.splitOn separator) = l :=
    List.intercalate_splitOn separator
  rw [← hjoin]
  exact mem_intercalate_of_mem [separator] hpiece ha

/-- **No line that is read contains the terminator.** -/
theorem not_mem_of_mem_readBlocks {text line : List α} {block : List (List α)}
    (hblock : block ∈ readBlocks terminator text) (hline : line ∈ block) : terminator ∉ line :=
  not_mem_of_mem_readLines terminator
    (mem_of_mem_splitOn (List.mem_filter.mp hblock).1 hline)

end Lines
