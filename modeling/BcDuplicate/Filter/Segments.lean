import BcDuplicate.Filter

/-!
# BcDuplicate.Filter.Segments

The patterns of a filter are the segments of the two lists it was built from.

The loop that cuts the buffer is followed through the list at its back: behind
`done` bytes, the buffer is what `done` was cut to with the rest untouched, and
the recorded starts are those of the segments `done` begins
(`foldl_filterSplitStep`).  The number counted beforehand is never reached too
early, so no start is dropped.  Reading a C string from each start then gives
the segments (`map_segmentStarts`).
-/

namespace BcDuplicate

/-! ## The segments of a list -/

/-- The newline-separated segments of a list; `NULL` and the empty list have
none. -/
def segments : Option Bytes → List Bytes
  | none => []
  | some [] => []
  | some list => list.splitOn newline

/-- Where segments start behind the newlines of `list`, which is at `offset`. -/
def segmentStarts : Nat → Bytes → List Nat
  | _, [] => []
  | offset, byte :: list =>
      if byte = newline then (offset + 1) :: segmentStarts (offset + 1) list
      else segmentStarts (offset + 1) list

/-- What a byte of the list is once the loop has passed it. -/
def cutByte (byte : UInt8) : UInt8 :=
  if byte = newline then 0 else byte

theorem segments_eq_nil_iff (list : Option Bytes) :
    segments list = [] ↔ list = none ∨ list = some [] := by
  match list with
  | none => exact iff_of_true rfl (Or.inl rfl)
  | some [] => exact iff_of_true rfl (Or.inr rfl)
  | some (byte :: list) =>
    exact iff_of_false (List.splitOn_ne_nil newline (byte :: list)) (by simp)

theorem segmentStarts_append (offset : Nat) (list list' : Bytes) :
    segmentStarts offset (list ++ list') =
      segmentStarts offset list ++ segmentStarts (offset + list.length) list' := by
  induction list generalizing offset with
  | nil => rfl
  | cons byte list ih =>
    have hoffset : offset + 1 + list.length = offset + (byte :: list).length := by
      rw [List.length_cons, Nat.add_right_comm, Nat.add_assoc]
    rw [List.cons_append, segmentStarts, segmentStarts, ih, hoffset]
    split
    · rfl
    · rfl

theorem length_segmentStarts (offset : Nat) (list : Bytes) :
    (segmentStarts offset list).length = list.count newline := by
  induction list generalizing offset with
  | nil => rfl
  | cons byte list ih =>
    rw [segmentStarts, List.count_cons]
    by_cases hbyte : byte = newline
    · rw [if_pos hbyte, if_pos (beq_iff_eq.mpr hbyte), List.length_cons, ih]
    · rw [if_neg hbyte, if_neg (mt beq_iff_eq.mp hbyte), ih, Nat.add_zero]

/-! ## The loop that cuts the buffer -/

/-- One step of the loop, with the part `done` behind it: the count made
beforehand still has room for a start. -/
theorem filterSplitStep_done (done rest : Bytes) (byte : UInt8) :
    filterSplitStep (1 + (done ++ byte :: rest).count newline)
        (done.map cutByte ++ byte :: rest, 0 :: segmentStarts 0 done) done.length =
      ((done ++ [byte]).map cutByte ++ rest, 0 :: segmentStarts 0 (done ++ [byte])) := by
  have hget : (done.map cutByte ++ byte :: rest)[done.length]? = some byte := by
    rw [List.getElem?_append_right (Nat.le_of_eq (List.length_map cutByte)), List.length_map,
      Nat.sub_self, List.getElem?_cons_zero]
  have hset : (done.map cutByte ++ byte :: rest).set done.length 0 =
      done.map cutByte ++ 0 :: rest := by
    rw [List.set_append_right _ _ (Nat.le_of_eq (List.length_map cutByte)), List.length_map,
      Nat.sub_self, List.set_cons_zero]
  unfold filterSplitStep
  rw [hget, segmentStarts_append, List.map_append, List.append_assoc]
  by_cases hbyte : byte = newline
  · have hroom : (0 :: segmentStarts 0 done).length <
        1 + (done ++ byte :: rest).count newline := by
      rw [List.length_cons, length_segmentStarts, List.count_append, hbyte, List.count_cons_self]
      omega
    rw [if_pos (congrArg some hbyte), if_pos hroom, hset, List.map_singleton, cutByte,
      if_pos hbyte, segmentStarts, if_pos hbyte, Nat.zero_add]
    rfl
  · rw [if_neg fun h => hbyte (Option.some.inj h), List.map_singleton, cutByte, if_neg hbyte,
      segmentStarts, if_neg hbyte, segmentStarts, List.append_nil]
    rfl

/-- **The loop cuts the whole buffer and drops no start.** -/
theorem foldl_filterSplitStep (done rest : Bytes) :
    (List.range' done.length rest.length).foldl
        (filterSplitStep (1 + (done ++ rest).count newline))
        (done.map cutByte ++ rest, 0 :: segmentStarts 0 done) =
      ((done ++ rest).map cutByte, 0 :: segmentStarts 0 (done ++ rest)) := by
  induction rest generalizing done with
  | nil =>
    rw [List.append_nil, List.append_nil]
    rfl
  | cons byte rest ih =>
    have hassoc : done ++ byte :: rest = done ++ [byte] ++ rest := by
      rw [List.append_assoc, List.singleton_append]
    have hlength : done.length + 1 = (done ++ [byte]).length := by
      rw [List.length_append, List.length_singleton]
    rw [List.length_cons, List.range'_succ, List.foldl_cons, filterSplitStep_done, hlength,
      hassoc, ih]

/-- Reading a C string from each start gives the segments. -/
theorem map_segmentStarts (before list : Bytes) (hzero : 0 ∉ list) :
    (before.length :: segmentStarts before.length list).map (fun start =>
        ((before ++ list.map cutByte).drop start).takeWhile (· ≠ 0)) =
      list.splitOn newline := by
  induction list generalizing before with
  | nil => simp [segmentStarts]
  | cons byte list ih =>
    obtain ⟨hbyte, hlist⟩ := not_or.mp (mt List.mem_cons.mpr hzero)
    have hassoc : before ++ (byte :: list).map cutByte =
        before ++ [cutByte byte] ++ list.map cutByte := by
      rw [List.map_cons, List.append_assoc, List.singleton_append]
    have hlength : (before ++ [cutByte byte]).length = before.length + 1 := by
      rw [List.length_append, List.length_singleton]
    have hrest := ih (before ++ [cutByte byte]) hlist
    rw [hlength, ← hassoc] at hrest
    have hhead : (before ++ (byte :: list).map cutByte).drop before.length =
        cutByte byte :: list.map cutByte := List.drop_left
    rw [List.splitOn_cons_eq_if_modifyHead, segmentStarts]
    by_cases hnewline : byte = newline
    · -- the cut ends the C string at once: an empty segment
      rw [if_pos hnewline, if_pos (beq_iff_eq.mpr hnewline), List.map_cons, hrest, hhead, cutByte,
        if_pos hnewline, List.takeWhile_cons_of_neg (by decide)]
    · have hnext : (before ++ (byte :: list).map cutByte).drop (before.length + 1) =
          list.map cutByte := by
        rw [← List.drop_drop, hhead, List.drop_one, List.tail_cons]
      have hstring : (cutByte byte :: list.map cutByte).takeWhile (· ≠ 0) =
          byte :: (list.map cutByte).takeWhile (· ≠ 0) := by
        rw [cutByte, if_neg hnewline]
        exact List.takeWhile_cons_of_pos (decide_eq_true (Ne.symm hbyte))
      rw [if_neg hnewline, if_neg (mt beq_iff_eq.mp hnewline), ← hrest]
      exact List.cons_eq_cons.mpr
        ⟨by dsimp only; rw [hhead, hnext, hstring], rfl⟩

theorem filterCountAndSplit_cons (bufferAllocated patternsAllocated : Bool) (byte : UInt8)
    (rest : Bytes) :
    filterCountAndSplit bufferAllocated patternsAllocated (some (byte :: rest)) =
      if bufferAllocated && patternsAllocated then
        let split := (List.range (byte :: rest).length).foldl
          (filterSplitStep (1 + (byte :: rest).count newline)) (byte :: rest, [0])
        some (split.2.map fun start => (split.1.drop start).takeWhile (· ≠ 0))
      else none :=
  rfl

/-- **The splitter returns the segments**, when the pool serves it. -/
theorem filterCountAndSplit_eq (bufferAllocated patternsAllocated : Bool) (list : Option Bytes)
    (hzero : ∀ bytes ∈ list, 0 ∉ bytes) {patterns : List Bytes}
    (hsplit : filterCountAndSplit bufferAllocated patternsAllocated list = some patterns) :
    patterns = segments list := by
  match list with
  | none => exact (Option.some.inj hsplit).symm
  | some [] => exact (Option.some.inj hsplit).symm
  | some (byte :: rest) =>
    have hloop := foldl_filterSplitStep [] (byte :: rest)
    have hread := map_segmentStarts [] (byte :: rest) (hzero _ rfl)
    rw [filterCountAndSplit_cons, List.range_eq_range'] at hsplit
    rw [List.length_nil, List.nil_append, List.map_nil, List.nil_append, segmentStarts] at hloop
    rw [hloop] at hsplit
    split at hsplit
    · exact (Option.some.inj hsplit).symm.trans hread
    · cases hsplit

theorem filterCountAndSplit_isSome (list : Option Bytes) :
    (filterCountAndSplit true true list).isSome := by
  match list with
  | none => rfl
  | some [] => rfl
  | some (byte :: rest) => rfl

/-! ## The filter -/

theorem filterBasenameMatchesAny_iff (fnmatch : Fnmatch) (patterns : List Bytes)
    (basename : Bytes) :
    filterBasenameMatchesAny fnmatch patterns basename = true ↔
      ∃ pattern ∈ patterns, fnmatch pattern basename = true :=
  List.any_eq_true

theorem filterAcceptsFile_iff (fnmatch : Fnmatch) (filter : Filter) (basename : Bytes) :
    filterAcceptsFile fnmatch (some filter) basename = true ↔
      (¬ ∃ pattern ∈ filter.excludePatterns, fnmatch pattern basename = true) ∧
        (filter.includePatterns = [] ∨
          ∃ pattern ∈ filter.includePatterns, fnmatch pattern basename = true) := by
  rw [← filterBasenameMatchesAny_iff, ← filterBasenameMatchesAny_iff]
  unfold filterAcceptsFile
  have hlength : ∀ patterns : List Bytes, patterns.length > 0 ↔ patterns ≠ [] :=
    fun _ => List.length_pos_iff
  have hnil : filterBasenameMatchesAny fnmatch [] basename = false := rfl
  simp only [hlength]
  by_cases hexclude : filterBasenameMatchesAny fnmatch filter.excludePatterns basename = true
  · have hsome : filter.excludePatterns ≠ [] := by
      rintro hempty
      rw [hempty, hnil] at hexclude
      cases hexclude
    rw [if_pos ⟨hsome, hexclude⟩]
    exact iff_of_false nofun fun h => h.1 hexclude
  · rw [if_neg fun h => hexclude h.2, and_iff_right hexclude]
    by_cases hinclude : filter.includePatterns = []
    · rw [if_neg fun h => h.1 hinclude]
      exact iff_of_true rfl (Or.inl hinclude)
    · rw [or_iff_right hinclude]
      by_cases hmatch : filterBasenameMatchesAny fnmatch filter.includePatterns basename = true
      · rw [if_neg fun h => Bool.false_ne_true (h.2.symm.trans hmatch)]
        exact iff_of_true rfl hmatch
      · rw [if_pos ⟨hinclude, Bool.eq_false_iff.mpr hmatch⟩]
        exact iff_of_false nofun hmatch

theorem filterAcceptsDirectory_iff (fnmatch : Fnmatch) (filter : Filter) (basename : Bytes) :
    filterAcceptsDirectory fnmatch (some filter) basename = true ↔
      ¬ ∃ pattern ∈ filter.excludePatterns, fnmatch pattern basename = true := by
  rw [← filterBasenameMatchesAny_iff]
  unfold filterAcceptsDirectory
  dsimp only
  by_cases hexclude : filterBasenameMatchesAny fnmatch filter.excludePatterns basename = true
  · have hsome : filter.excludePatterns.length > 0 := by
      rw [gt_iff_lt, List.length_pos_iff]
      rintro hempty
      rw [hempty] at hexclude
      cases hexclude
    rw [if_pos ⟨hsome, hexclude⟩]
    exact iff_of_false nofun fun h => h hexclude
  · rw [if_neg fun h => hexclude h.2]
    exact iff_of_true rfl hexclude

theorem filterCreate_patterns (allocates : Nat → Bool) (includeList excludeList : Option Bytes)
    (hinclude : ∀ bytes ∈ includeList, 0 ∉ bytes) (hexclude : ∀ bytes ∈ excludeList, 0 ∉ bytes)
    {filter : Filter} (hfilter : filterCreate allocates includeList excludeList = some filter) :
    filter.includePatterns = segments includeList ∧
      filter.excludePatterns = segments excludeList := by
  unfold filterCreate at hfilter
  split at hfilter
  · obtain ⟨includePatterns, hincludeSplit, hfilter⟩ := Option.bind_eq_some_iff.mp hfilter
    obtain ⟨excludePatterns, hexcludeSplit, hfilter⟩ := Option.map_eq_some_iff.mp hfilter
    subst hfilter
    exact ⟨filterCountAndSplit_eq _ _ includeList hinclude hincludeSplit,
      filterCountAndSplit_eq _ _ excludeList hexclude hexcludeSplit⟩
  · cases hfilter

theorem filterCreate_isSome (allocates : Nat → Bool) (includeList excludeList : Option Bytes)
    (hserved : ∀ request, allocates request = true) :
    (filterCreate allocates includeList excludeList).isSome := by
  obtain ⟨includePatterns, hincludeSplit⟩ :=
    Option.isSome_iff_exists.mp (filterCountAndSplit_isSome includeList)
  obtain ⟨excludePatterns, hexcludeSplit⟩ :=
    Option.isSome_iff_exists.mp (filterCountAndSplit_isSome excludeList)
  unfold filterCreate
  rw [if_pos (hserved 0), hserved 1, hserved 2, hserved 3, hserved 4, hincludeSplit,
    hexcludeSplit]
  rfl

/-- **A filter holds the segments of its lists and answers by them.**  It is
built whenever the pool serves it; a file is accepted when no exclude segment
matches and, unless there is no include list, an include segment does; a
directory is accepted whatever the include list. -/
theorem filter_accepts_segments (fnmatch : Fnmatch) (allocates : Nat → Bool)
    (includeList excludeList : Option Bytes)
    (hinclude : ∀ bytes ∈ includeList, 0 ∉ bytes) (hexclude : ∀ bytes ∈ excludeList, 0 ∉ bytes) :
    ((∀ request, allocates request = true) →
      (filterCreate allocates includeList excludeList).isSome) ∧
    ∀ filter, filterCreate allocates includeList excludeList = some filter →
      filter.includePatterns = segments includeList ∧
      filter.excludePatterns = segments excludeList ∧
      ∀ basename,
        (filterAcceptsFile fnmatch (some filter) basename = true ↔
          (¬ ∃ segment ∈ segments excludeList, fnmatch segment basename = true) ∧
            (includeList = none ∨ includeList = some [] ∨
              ∃ segment ∈ segments includeList, fnmatch segment basename = true)) ∧
        (filterAcceptsDirectory fnmatch (some filter) basename = true ↔
          ¬ ∃ segment ∈ segments excludeList, fnmatch segment basename = true) := by
  refine ⟨filterCreate_isSome allocates includeList excludeList, fun filter hfilter => ?_⟩
  obtain ⟨hincluded, hexcluded⟩ :=
    filterCreate_patterns allocates includeList excludeList hinclude hexclude hfilter
  refine ⟨hincluded, hexcluded, fun basename => ⟨?_, ?_⟩⟩
  · rw [filterAcceptsFile_iff, hincluded, hexcluded, segments_eq_nil_iff, or_assoc]
  · rw [filterAcceptsDirectory_iff, hexcluded]

/-- Leading, doubled and trailing newlines give empty segments. -/
theorem filter_accepts_segments_newlines :
    filterCreate (fun _ => true) (some [10, 97, 10, 10, 98, 10]) (some []) =
      some ⟨[[], [97], [], [98], []], []⟩ := by
  have hboth := filter_accepts_segments (· == ·) (fun _ => true) (some [10, 97, 10, 10, 98, 10])
    (some []) (by decide) (by decide)
  obtain ⟨filter, hfilter⟩ := Option.isSome_iff_exists.mp (hboth.1 fun _ => rfl)
  obtain ⟨hincluded, hexcluded, _⟩ := hboth.2 filter hfilter
  have hsegments : segments (some [10, 97, 10, 10, 98, 10]) = [[], [97], [], [98], []] := by decide
  rw [hfilter, ← hsegments, ← hincluded]
  exact congrArg (fun patterns => some (⟨filter.includePatterns, patterns⟩ : Filter)) hexcluded

end BcDuplicate
