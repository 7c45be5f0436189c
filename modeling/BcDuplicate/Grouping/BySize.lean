import BcDuplicate.Grouping.ByHash

/-!
# BcDuplicate.Grouping.BySize

What the size stage leaves.  The compaction loop works in place: it reads the
sorted array while writing its front, and the array between the write index
and the read index holds stale copies.  `groupingCollapseRuns_eq` follows the
two indices through the nested loops: the front is the sorted array with
adjacent entries of one file reduced to the first (`List.destutter`).

The scan then runs over that front only, so two different positions share a
size group exactly when both survived the compaction and have equal sizes
(`SizeGrouped.sameGroup_iff`).
-/

namespace BcDuplicate

open Runs
open Sorting
open Copying

/-! ## identity of a file -/

/-- Size, device and inode: what the sort orders by, and what hardlinks share. -/
def FileEntry.identity (entry : FileEntry) : Nat × Nat × Nat :=
  (entry.fileSize, entry.deviceId, entry.inodeNumber)

/-- The next entry is another file than the one last kept. -/
def DifferentFile (kept read : FileEntry) : Prop := read.identity ≠ kept.identity

instance : DecidableRel DifferentFile := fun kept read => by
  unfold DifferentFile; infer_instance

/-- The test of the compaction loop, which compares device and inode only. -/
def DifferentInode (kept read : FileEntry) : Prop :=
  ¬(read.deviceId = kept.deviceId ∧ read.inodeNumber = kept.inodeNumber)

instance : DecidableRel DifferentInode := fun kept read => by
  unfold DifferentInode; infer_instance

/-! ## compaction of one run -/

theorem length_destutter'_le (R : FileEntry → FileEntry → Prop) [DecidableRel R]
    (kept : FileEntry) (l : List FileEntry) : (l.destutter' R kept).length ≤ l.length + 1 := by
  simpa using (List.destutter'_sublist l R kept).length_le

/-- The reading loop inside one run.  `done ++ [kept]` is written, `stale` lies
between the write index and the read index, `unread` is still to be read, and
`after` is the array behind the run. -/
theorem groupingCollapseLoop_eq (done stale unread after : List FileEntry) (kept : FileEntry)
    (collapsed : Nat) : ∃ stale' : List FileEntry,
      groupingCollapseLoop (done ++ kept :: (stale ++ (unread ++ after))) (done.length + 1)
          (done.length + 1 + stale.length) collapsed unread.length =
        (done ++ (unread.destutter' DifferentInode kept ++ (stale' ++ after)),
          collapsed + (unread.length + 1 - (unread.destutter' DifferentInode kept).length)) ∧
      stale'.length = stale.length +
        (unread.length + 1 - (unread.destutter' DifferentInode kept).length) := by
  induction unread generalizing done stale kept collapsed with
  | nil => exact ⟨stale, by simp [groupingCollapseLoop], by simp⟩
  | cons read unread ih =>
      have hread : (done ++ kept :: (stale ++ (read :: unread ++ after)))[done.length + 1 +
          stale.length]? = some read := by
        rw [List.getElem?_append_right (by omega),
          show done.length + 1 + stale.length - done.length = stale.length + 1 by omega,
          List.getElem?_cons_succ, List.getElem?_append_right (Nat.le_refl _)]
        simp
      have hkept : (done ++ kept :: (stale ++ (read :: unread ++ after)))[done.length + 1 - 1]? =
          some kept := by
        rw [Nat.add_sub_cancel, List.getElem?_append_right (Nat.le_refl _)]
        simp
      rw [List.length_cons, groupingCollapseLoop, hread, hkept]
      dsimp only
      by_cases hsame : read.deviceId = kept.deviceId ∧ read.inodeNumber = kept.inodeNumber
      · -- the entry is collapsed: it joins the stale part
        have hneg : ¬DifferentInode kept read := fun h => h hsame
        have hle := length_destutter'_le DifferentInode kept unread
        obtain ⟨stale', heq, hlen⟩ := ih done (stale ++ [read]) kept (collapsed + 1)
        rw [if_pos hsame, List.destutter'_cons_neg _ hneg]
        refine ⟨stale', ?_, by simp only [List.length_append, List.length_singleton] at hlen; omega⟩
        simp only [List.length_append, List.length_singleton, List.append_assoc,
          List.cons_append, List.nil_append] at heq ⊢
        rw [← Nat.add_assoc] at heq
        rw [heq]
        congr 1
        omega
      · -- the entry is kept: it is written behind the last kept one
        have hpos : DifferentInode kept read := hsame
        have hle := length_destutter'_le DifferentInode read unread
        rw [if_neg hsame, List.destutter'_cons_pos _ hpos]
        cases stale with
        | nil =>
            obtain ⟨stale', heq, hlen⟩ := ih (done ++ [kept]) [] read collapsed
            refine ⟨stale', ?_, by simp only [List.length_cons, List.length_nil] at hlen ⊢; omega⟩
            simp only [List.length_append, List.append_assoc, List.cons_append,
              List.nil_append, List.length_nil, Nat.add_zero, Nat.zero_add,
              List.length_cons, ne_eq, not_true_eq_false, if_false] at heq ⊢
            rw [heq]
            congr 1
            omega
        | cons old stale =>
            have hset : (done ++ kept :: (old :: stale ++ (read :: unread ++ after))).set
                (done.length + 1) read =
                done ++ [kept] ++ read :: (stale ++ [read] ++ (unread ++ after)) := by
              rw [List.set_append_right _ _ (by omega),
                show done.length + 1 - done.length = 1 by omega]
              simp
            obtain ⟨stale', heq, hlen⟩ := ih (done ++ [kept]) (stale ++ [read]) read collapsed
            refine ⟨stale', ?_, ?_⟩
            · rw [if_pos (by simp only [List.length_cons]; omega), hset]
              simp only [List.length_append, List.length_cons, List.length_nil, Nat.zero_add,
                List.append_assoc, List.cons_append, List.nil_append] at heq ⊢
              rw [show done.length + 1 + (stale.length + 1) + 1 =
                done.length + 1 + 1 + (stale.length + 1) by omega, heq]
              congr 1
              omega
            · simp only [List.length_append, List.length_cons, List.length_nil] at hlen ⊢
              omega

/-- Compacting one run in place. -/
theorem groupingCollapseHardlinksInRun_eq (done run after : List FileEntry) (first : FileEntry) :
    ∃ stale : List FileEntry,
      groupingCollapseHardlinksInRun (done ++ first :: (run ++ after)) done.length
          (run.length + 1) =
        (done ++ (run.destutter' DifferentInode first ++ (stale ++ after)), stale.length) ∧
      stale.length = run.length + 1 - (run.destutter' DifferentInode first).length := by
  unfold groupingCollapseHardlinksInRun
  split
  · next h =>
    cases List.length_eq_zero_iff.mp (by omega : run.length = 0)
    exact ⟨[], by simp, by simp⟩
  · obtain ⟨stale, heq, hlen⟩ := groupingCollapseLoop_eq done [] run after first 0
    refine ⟨stale, ?_, by simpa using hlen⟩
    simp only [List.nil_append, List.length_nil, Nat.add_zero, Nat.zero_add,
      Nat.add_sub_cancel] at heq hlen ⊢
    rw [heq, hlen]

/-! ## all runs -/

/-- Inside a run the sizes are equal, so comparing device and inode compares
files; at the end of a run the size changes, so the next file is kept. -/
theorem destutter'_run (first : FileEntry) (run rest : List FileEntry)
    (hrun : ∀ e ∈ run, e.fileSize = first.fileSize)
    (hrest : ∀ e, rest.head? = some e → e.fileSize ≠ first.fileSize) :
    (run ++ rest).destutter' DifferentFile first =
      run.destutter' DifferentInode first ++ rest.destutter DifferentFile := by
  induction run generalizing first with
  | nil =>
      cases rest with
      | nil => rfl
      | cons e rest =>
          have hpos : DifferentFile first e := fun h => hrest e rfl (congrArg Prod.fst h)
          rw [List.nil_append, List.destutter'_cons_pos _ hpos]
          rfl
  | cons e run ih =>
      have hsize : e.fileSize = first.fileSize := hrun e List.mem_cons_self
      have hiff : DifferentFile first e ↔ DifferentInode first e := by
        simp only [DifferentFile, DifferentInode, FileEntry.identity, ne_eq, Prod.mk.injEq, hsize,
          true_and]
      rw [List.cons_append]
      by_cases h : DifferentInode first e
      · rw [List.destutter'_cons_pos _ (hiff.mpr h), List.destutter'_cons_pos _ h,
          ih e (fun x hx => (hrun x (List.mem_cons_of_mem _ hx)).trans hsize.symm)
            (fun x hx => hsize ▸ hrest x hx), List.cons_append]
      · rw [List.destutter'_cons_neg _ (mt hiff.mp h), List.destutter'_cons_neg _ h]
        exact ih first (fun x hx => hrun x (List.mem_cons_of_mem _ hx)) hrest

/-- A run behind the stale slots, and as many slots from the write index on. -/
theorem inArray_run (done stale run rest : List FileEntry) :
    InArray (done ++ (stale ++ (run ++ rest))) done.length (done.length + stale.length)
      run.length := by
  constructor <;> simp only [List.length_append] <;> omega

/-- Moving a run down to the write index: what lay there before moves behind
it, and the array beyond the run stays. -/
theorem moved_run_eq (done stale run rest : List FileEntry) : ∃ stale' : List FileEntry,
    moved (done ++ (stale ++ (run ++ rest))) done.length (done.length + stale.length) run.length =
        done ++ (run ++ (stale' ++ rest)) ∧
      stale'.length = stale.length := by
  refine ⟨(stale ++ run).drop run.length, ?_, by simp⟩
  have htake : (done ++ (stale ++ (run ++ rest))).take done.length = done := by simp
  have hmid : ((done ++ (stale ++ (run ++ rest))).drop (done.length + stale.length)).take
      run.length = run := by
    rw [← List.drop_drop]; simp
  have hend : (done ++ (stale ++ (run ++ rest))).drop (done.length + run.length) =
      (stale ++ run).drop run.length ++ rest := by
    rw [← List.drop_drop, List.drop_left, ← List.append_assoc,
      List.drop_append_of_le_length (by simp)]
  rw [moved, htake, hmid, hend, List.append_assoc]

/-- The run of the first entry, and what follows it. -/
theorem exists_first_run (first : FileEntry) (rest : List FileEntry) : ∃ run later,
    rest = run ++ later ∧ (∀ e ∈ run, e.fileSize = first.fileSize) ∧
      (∀ e, later.head? = some e → e.fileSize ≠ first.fileSize) ∧
      runLength (fun e => decide (e.fileSize = first.fileSize)) rest = run.length := by
  obtain ⟨k, hk⟩ : ∃ k, runLength (fun e => decide (e.fileSize = first.fileSize)) rest = k :=
    ⟨_, rfl⟩
  have hkle : k ≤ rest.length := hk ▸ runLength_le _ rest
  refine ⟨rest.take k, rest.drop k, (List.take_append_drop k rest).symm, ?_, ?_, ?_⟩
  · intro e he
    obtain ⟨i, hi, rfl⟩ := List.mem_iff_getElem.mp he
    rw [List.length_take] at hi
    rw [List.getElem_take]
    exact of_decide_eq_true (of_lt_runLength _ rest i (by omega) (by rw [hk]; omega))
  · intro e he
    rw [List.head?_drop, List.getElem?_eq_some_iff] at he
    obtain ⟨hlt, rfl⟩ := he
    have := not_of_runLength (fun e => decide (e.fileSize = first.fileSize)) rest
      (by rw [hk]; exact hlt)
    simpa [hk] using this
  · rw [hk, List.length_take]
    omega

/-- What the loop over the runs reads at the start of a run. -/
theorem read_run_start {n : Nat} {done stale rest : List FileEntry} (first : FileEntry)
    (hn : n = done.length + stale.length + (first :: rest).length) :
    (done ++ (stale ++ first :: rest))[done.length + stale.length]? = some first ∧
      ((done ++ (stale ++ first :: rest)).take n).drop (done.length + stale.length + 1) = rest := by
  refine ⟨?_, ?_⟩
  · rw [List.getElem?_append_right (by omega), List.getElem?_append_right (by omega),
      show done.length + stale.length - done.length - stale.length = 0 by omega]
    rfl
  · rw [List.take_of_length_le (by simp [hn]; omega), Nat.add_assoc, ← List.drop_drop,
      List.drop_left, ← List.drop_drop, List.drop_left]
    rfl

/-- One run, moved to the write index unless it is there, and compacted. -/
theorem exists_compacted_run {copy : CopyFn} (done stale run later : List FileEntry)
    (first : FileEntry)
    (hcopy : done.length ≠ done.length + stale.length → copy.Moves ∨
      Run.Disjoint ⟨done.length, run.length + 1⟩ ⟨done.length + stale.length, run.length + 1⟩) :
    ∃ stale' : List FileEntry,
      groupingCollapseHardlinksInRun
          (if done.length ≠ done.length + stale.length then
            copy.run (done ++ (stale ++ first :: (run ++ later))) done.length
              (done.length + stale.length) (run.length + 1)
          else done ++ (stale ++ first :: (run ++ later))) done.length (run.length + 1) =
        (done ++ (run.destutter' DifferentInode first ++ (stale' ++ later)),
          run.length + 1 - (run.destutter' DifferentInode first).length) ∧
      stale'.length =
        stale.length + (run.length + 1 - (run.destutter' DifferentInode first).length) := by
  obtain ⟨stale₁, hmoved, hstale₁⟩ : ∃ stale₁ : List FileEntry,
      (if done.length ≠ done.length + stale.length then
        copy.run (done ++ (stale ++ first :: (run ++ later))) done.length
          (done.length + stale.length) (run.length + 1)
        else done ++ (stale ++ first :: (run ++ later))) =
          done ++ first :: (run ++ (stale₁ ++ later)) ∧
        stale₁.length = stale.length := by
    split
    · next hne =>
      have hrun := CopyFn.run_eq_moved (inArray_run done stale (first :: run) later) (hcopy hne)
      simp only [List.cons_append, List.length_cons] at hrun
      rw [hrun]
      exact moved_run_eq done stale (first :: run) later
    · next h =>
      cases List.length_eq_zero_iff.mp (by omega : stale.length = 0)
      exact ⟨[], rfl, rfl⟩
  obtain ⟨stale₂, hcollapse, hstale₂⟩ :=
    groupingCollapseHardlinksInRun_eq done run (stale₁ ++ later) first
  refine ⟨stale₂ ++ stale₁, ?_, ?_⟩
  · rw [hmoved, hcollapse, hstale₂, List.append_assoc]
  · rw [List.length_append, hstale₁, hstale₂]
    omega

/-- Where the loop goes on: the write index is behind the entries kept of the
run, the read index behind those that became stale. -/
theorem next_indices (done : List FileEntry) {stale stale' run : List FileEntry} {kept : Nat}
    (hkept : kept ≤ run.length + 1)
    (hstale' : stale'.length = stale.length + (run.length + 1 - kept)) :
    done.length + (run.length + 1 - (run.length + 1 - kept)) = done.length + kept ∧
      done.length + stale.length + (run.length + 1) = done.length + kept + stale'.length := by
  omega

/-- The calls of one turn of the loop, and those of the turns behind it. -/
theorem groupingCollapseCopies_cons {copy : CopyFn} {n : Nat} {done stale run later : List FileEntry}
    (first : FileEntry)
    (hn : n = done.length + stale.length + (first :: (run ++ later)).length)
    (hcount : runLength (fun e => decide (e.fileSize = first.fileSize)) (run ++ later) =
      run.length) :
    groupingCollapseCopies copy n (done ++ (stale ++ first :: (run ++ later))) done.length
        (done.length + stale.length) =
      (if done.length ≠ done.length + stale.length then
          [⟨done.length, done.length + stale.length, run.length + 1⟩] else []) ++
        (let collapse := groupingCollapseHardlinksInRun
          (if done.length ≠ done.length + stale.length then
            copy.run (done ++ (stale ++ first :: (run ++ later))) done.length
              (done.length + stale.length) (run.length + 1)
          else done ++ (stale ++ first :: (run ++ later))) done.length (run.length + 1)
        groupingCollapseCopies copy n collapse.1 (done.length + (run.length + 1 - collapse.2))
          (done.length + stale.length + (run.length + 1))) := by
  obtain ⟨hfirst, hdrop⟩ := read_run_start first hn
  rw [groupingCollapseCopies, if_pos (by simp only [List.length_cons] at hn; omega), hfirst]
  simp only [hdrop, hcount]

/-- The loop over the runs.  `done` is compacted, `stale` lies between the
write index and the start of the next run, `unread` is the rest of the sorted
array. -/
theorem groupingCollapseRuns_eq {copy : CopyFn} (n : Nat) (done stale unread : List FileEntry)
    (collapsed : Nat) (hn : n = done.length + stale.length + unread.length)
    (hcopies : copy.Moves ∨ ∀ call ∈ groupingCollapseCopies copy n (done ++ (stale ++ unread))
      done.length (done.length + stale.length), call.Disjoint) : ∃ stale' : List FileEntry,
      groupingCollapseRuns copy n (done ++ (stale ++ unread)) done.length
          (done.length + stale.length) collapsed =
        (done ++ (unread.destutter DifferentFile ++ stale'),
          done.length + (unread.destutter DifferentFile).length,
          collapsed + (unread.length - (unread.destutter DifferentFile).length)) ∧
      stale'.length = stale.length + (unread.length - (unread.destutter DifferentFile).length) := by
  induction hlen : unread.length using Nat.strong_induction_on
    generalizing done stale unread collapsed with
  | _ m ih =>
    subst hlen
    rw [groupingCollapseRuns]
    cases unread with
    | nil => exact ⟨stale, by simp [hn], by simp⟩
    | cons first rest =>
        obtain ⟨hfirst, hdrop⟩ := read_run_start first hn
        obtain ⟨run, later, rfl, hrun, hlater, hcount⟩ := exists_first_run first rest
        rw [groupingCollapseCopies_cons first hn hcount, List.forall_mem_append] at hcopies
        rw [if_pos (by simp only [List.length_cons] at hn; omega), hfirst]
        simp only [hdrop, hcount]
        obtain ⟨stale₁, hcompacted, hstale₁⟩ := exists_compacted_run done stale run later first
          fun hne => hcopies.imp_right fun h =>
            h.1 ⟨done.length, done.length + stale.length, run.length + 1⟩
              (by rw [if_pos hne]; exact .head _)
        have hdest : (first :: (run ++ later)).destutter DifferentFile =
            run.destutter' DifferentInode first ++ later.destutter DifferentFile := by
          rw [List.destutter_cons', destutter'_run first _ _ hrun hlater]
        have hkept := length_destutter'_le DifferentInode first run
        have hle : (later.destutter DifferentFile).length ≤ later.length :=
          (List.destutter_sublist DifferentFile _).length_le
        obtain ⟨hwrite, hread⟩ := next_indices done hkept hstale₁
        have hlaterCopies := hcopies.imp_right And.right
        simp only [hcompacted, hwrite, hread] at hlaterCopies
        simp only [List.length_cons, List.length_append] at hn
        -- the entries kept of the run join those done, the collapsed become stale
        obtain ⟨stale', heq, hl⟩ := ih later.length
          (by simp only [List.length_cons, List.length_append]; omega)
          (done ++ run.destutter' DifferentInode first) stale₁ later
          (collapsed + (run.length + 1 - (run.destutter' DifferentInode first).length))
          (by rw [List.length_append, hstale₁]; omega)
          (by simpa only [List.length_append, List.append_assoc] using hlaterCopies) rfl
        refine ⟨stale', ?_, ?_⟩
        · rw [hcompacted, hdest]
          simp only [List.length_append, List.append_assoc, List.length_cons] at heq ⊢
          rw [hwrite, hread, heq]
          simp only [Prod.mk.injEq, true_and]
          omega
        · rw [hdest]
          simp only [List.length_append, List.length_cons] at hl ⊢
          omega

/-! ## the indices, whatever a copy leaves -/

/-- The reading loop keeps the slots and counts at most what it reads. -/
theorem groupingCollapseLoop_bounds (entries : List FileEntry)
    (writeIndex readIndex collapsed remaining : Nat) :
    (groupingCollapseLoop entries writeIndex readIndex collapsed remaining).1.length =
        entries.length ∧
      (groupingCollapseLoop entries writeIndex readIndex collapsed remaining).2 ≤
        collapsed + remaining := by
  fun_induction groupingCollapseLoop entries writeIndex readIndex collapsed remaining with
  | case1 => exact ⟨rfl, Nat.le_refl _⟩
  | case2 entries writeIndex readIndex collapsed remaining read kept _ _ _ ih =>
      exact ⟨ih.1, ih.2.trans (by omega)⟩
  | case3 entries writeIndex readIndex collapsed remaining read kept _ _ _ written ih =>
      refine ⟨ih.1.trans ?_, ih.2.trans (by omega)⟩
      simp only [written]
      split
      · exact List.length_set
      · rfl
  | case4 => exact ⟨rfl, Nat.le_add_right _ _⟩

theorem groupingCollapseHardlinksInRun_bounds (entries : List FileEntry)
    (runStartIndex runLength : Nat) :
    (groupingCollapseHardlinksInRun entries runStartIndex runLength).1.length = entries.length ∧
      (groupingCollapseHardlinksInRun entries runStartIndex runLength).2 ≤ runLength - 1 := by
  unfold groupingCollapseHardlinksInRun
  split
  · exact ⟨rfl, Nat.zero_le _⟩
  · have hbounds := groupingCollapseLoop_bounds entries (runStartIndex + 1) (runStartIndex + 1) 0
      (runLength - 1)
    rwa [Nat.zero_add] at hbounds

/-- The loop over the runs keeps the slots, and the write index ends as many
slots before the end as entries were counted as collapsed. -/
theorem groupingCollapseRuns_bounds (copy : CopyFn) (n : Nat) (entries : List FileEntry)
    (writeIndex runStartIndex collapsed : Nat) (hlength : entries.length = n)
    (hstart : runStartIndex ≤ n) (hindices : writeIndex + collapsed = runStartIndex) :
    (groupingCollapseRuns copy n entries writeIndex runStartIndex collapsed).1.length = n ∧
      (groupingCollapseRuns copy n entries writeIndex runStartIndex collapsed).2.1 +
        (groupingCollapseRuns copy n entries writeIndex runStartIndex collapsed).2.2 = n := by
  fun_induction groupingCollapseRuns copy n entries writeIndex runStartIndex collapsed with
  | case1 entries writeIndex runStartIndex collapsed hlt hnone =>
      rw [List.getElem?_eq_none_iff] at hnone
      omega
  | case2 entries writeIndex runStartIndex collapsed hlt first hfirst runLength moved collapse ih =>
      have hrun : runStartIndex + runLength ≤ n := by
        have hle := runLength_le (fun e => decide (e.fileSize = first.fileSize))
          ((entries.take n).drop (runStartIndex + 1))
        simp only [List.length_drop, List.length_take] at hle
        omega
      have hmoved : moved.length = n := by
        simp only [moved]
        split
        · rw [copy.length_run ⟨by omega, by omega⟩, hlength]
        · exact hlength
      obtain ⟨hkept, hcollapse⟩ :=
        groupingCollapseHardlinksInRun_bounds moved writeIndex runLength
      have hpositive : 0 < runLength := Nat.succ_pos _
      exact ih (hkept.trans hmoved) hrun (by simp only [collapse]; omega)
  | case3 entries writeIndex runStartIndex collapsed hlt =>
      exact ⟨hlength, by dsimp only; omega⟩

/-! ## the size stage -/

/-- The comparison fails exactly when the right entry does not come later:
larger sizes first, then by device and by inode. -/
theorem groupingSizeDevInoLessThan_eq_false_iff (a b : FileEntry) :
    groupingSizeDevInoLessThan a b = false ↔
      a.fileSize < b.fileSize ∨ a.fileSize = b.fileSize ∧
        (b.deviceId < a.deviceId ∨ a.deviceId = b.deviceId ∧ b.inodeNumber ≤ a.inodeNumber) := by
  unfold groupingSizeDevInoLessThan
  by_cases hsize : a.fileSize = b.fileSize
  · rw [if_neg (not_not_intro hsize)]
    by_cases hdev : a.deviceId = b.deviceId
    · rw [if_neg (not_not_intro hdev), decide_eq_false_iff_not]
      omega
    · rw [if_pos hdev, decide_eq_false_iff_not]
      omega
  · rw [if_pos hsize, decide_eq_false_iff_not]
    omega

/-- The sort of the size stage orders by identity. -/
theorem ordersBy_identity : OrdersBy groupingSizeDevInoLessThan FileEntry.identity where
  asymm a b h := by
    have hne : ¬groupingSizeDevInoLessThan a b = false := Bool.not_eq_false _ ▸ h
    rw [groupingSizeDevInoLessThan_eq_false_iff] at hne ⊢
    omega
  trans a b c h₁ h₂ := by
    rw [groupingSizeDevInoLessThan_eq_false_iff] at *
    omega
  key_eq_iff a b := by
    rw [groupingSizeDevInoLessThan_eq_false_iff, groupingSizeDevInoLessThan_eq_false_iff,
      FileEntry.identity, FileEntry.identity, Prod.mk.injEq, Prod.mk.injEq]
    omega

/-- The entries that survive the size stage: all of them, sorted, or the first
of each file when hardlinks are collapsed. -/
def survivingEntries (sort : SortFn) (entries : List FileEntry) (matchHardlinks : Bool) :
    List FileEntry :=
  let sorted := sort.run groupingSizeDevInoLessThan entries
  if matchHardlinks then sorted else sorted.destutter DifferentFile

theorem survivingEntries_sublist (sort : SortFn) (entries : List FileEntry)
    (matchHardlinks : Bool) : (survivingEntries sort entries matchHardlinks).Sublist
      (sort.run groupingSizeDevInoLessThan entries) := by
  unfold survivingEntries
  cases matchHardlinks with
  | true => exact .refl _
  | false => exact List.destutter_sublist DifferentFile _

theorem length_survivingEntries_le (sort : SortFn) (entries : List FileEntry)
    (matchHardlinks : Bool) :
    (survivingEntries sort entries matchHardlinks).length ≤ entries.length := by
  simpa using (survivingEntries_sublist sort entries matchHardlinks).length_le

/-- Among the survivors equal sizes are adjacent. -/
theorem adjacent_survivingEntries (sort : SortFn) (entries : List FileEntry)
    (matchHardlinks : Bool) :
    Adjacent FileEntry.fileSize (survivingEntries sort entries matchHardlinks) := by
  have hsorted := sort.sorted groupingSizeDevInoLessThan entries ordersBy_identity.toStrictWeak
  refine adjacent_of_pairwise
    (hsorted.sublist (survivingEntries_sublist sort entries matchHardlinks)) ?_
  intro a b c hab hbc he
  rw [groupingSizeDevInoLessThan_eq_false_iff] at hab hbc
  omega

/-- The entries in the slots the size stage goes on with. -/
def SizeGrouping.surviving (result : SizeGrouping) : List FileEntry :=
  result.entries.take (result.entries.length - result.hardlinksCollapsed)

/-- What `bc_duplicate_grouping_by_size` leaves, whatever the copies leave: the
groups are read off the slots it goes on with. -/
structure SizeScanned (entries : List FileEntry) (result : SizeGrouping) : Prop where
  length_entries : result.entries.length = entries.length
  hardlinksCollapsed_le : result.hardlinksCollapsed ≤ entries.length
  groups_eq : result.groups = (scanRuns FileEntry.fileSize 0 result.surviving).map fun r =>
    ⟨r.start, r.length, (result.surviving[r.start]?.map FileEntry.fileSize).getD 0⟩
  candidateCount_eq : result.candidateCount = (result.groups.map Group.entryCount).sum

/-- What it leaves when the copies serve it: these slots hold the survivors. -/
structure SizeGrouped (sort : SortFn) (entries : List FileEntry) (matchHardlinks : Bool)
    (result : SizeGrouping) : Prop extends SizeScanned entries result where
  surviving_eq : result.surviving = survivingEntries sort entries matchHardlinks
  perm_of_match : matchHardlinks = true → result.entries.Perm entries

/-- The compaction of the whole sorted array. -/
theorem groupingCollapseRuns_start {copy : CopyFn} (sorted : List FileEntry)
    (hcopies : copy.Moves ∨
      ∀ call ∈ groupingCollapseCopies copy sorted.length sorted 0 0, call.Disjoint) :
    ∃ stale : List FileEntry,
      groupingCollapseRuns copy sorted.length sorted 0 0 0 =
        (sorted.destutter DifferentFile ++ stale, (sorted.destutter DifferentFile).length,
          sorted.length - (sorted.destutter DifferentFile).length) ∧
      stale.length = sorted.length - (sorted.destutter DifferentFile).length := by
  obtain ⟨stale, heq, hlen⟩ :=
    groupingCollapseRuns_eq sorted.length [] [] sorted 0 (by simp) hcopies
  exact ⟨stale, by simpa using heq, by simpa using hlen⟩

/-- The compacted array, its new length and the count, in either mode. -/
theorem exists_compacted_array (sort : SortFn) (copy : CopyFn) (entries : List FileEntry)
    (matchHardlinks : Bool) : ∃ (compacted : List FileEntry) (collapsed : Nat),
    (if matchHardlinks then
        (sort.run groupingSizeDevInoLessThan entries, entries.length, 0)
      else groupingCollapseRuns copy entries.length
        (sort.run groupingSizeDevInoLessThan entries) 0 0 0) =
      (compacted, entries.length - collapsed, collapsed) ∧
    compacted.length = entries.length ∧ collapsed ≤ entries.length ∧
    (matchHardlinks = true → compacted.Perm entries) ∧
    (CopyServes sort copy entries matchHardlinks →
      compacted.take (entries.length - collapsed) =
        survivingEntries sort entries matchHardlinks) := by
  have hperm := sort.perm groupingSizeDevInoLessThan entries
  cases matchHardlinks with
  | true =>
      refine ⟨sort.run groupingSizeDevInoLessThan entries, 0, rfl, hperm.length_eq,
        Nat.zero_le _, fun _ => hperm, fun _ => ?_⟩
      exact List.take_of_length_le (Nat.le_of_eq hperm.length_eq)
  | false =>
      obtain ⟨hlength, hindices⟩ := groupingCollapseRuns_bounds copy entries.length
        (sort.run groupingSizeDevInoLessThan entries) 0 0 0 hperm.length_eq (Nat.zero_le _) rfl
      refine ⟨_, (groupingCollapseRuns copy entries.length
        (sort.run groupingSizeDevInoLessThan entries) 0 0 0).2.2, ?_, hlength, by omega, by simp,
        fun hserves => ?_⟩
      · refine Prod.ext rfl (Prod.ext ?_ rfl)
        dsimp only
        rw [if_neg Bool.noConfusion]
        omega
      · obtain ⟨stale, heq, hstale⟩ :=
          @groupingCollapseRuns_start copy (sort.run groupingSizeDevInoLessThan entries)
            (by simpa [CopyServes, groupingBySizeCopies] using hserves)
        rw [SortFn.length_run] at heq hstale
        have hle := length_survivingEntries_le sort entries false
        simp only [survivingEntries, Bool.false_eq_true, if_false] at hle ⊢
        rw [heq]
        dsimp only
        rw [show entries.length - (entries.length -
          ((sort.run groupingSizeDevInoLessThan entries).destutter DifferentFile).length) =
          ((sort.run groupingSizeDevInoLessThan entries).destutter DifferentFile).length by omega,
          List.take_left]

/-- What a size stage that succeeds leaves. -/
theorem groupingBySize_eq_some {sort : SortFn} {copy : CopyFn} {allocates : Nat → Bool}
    {entries : List FileEntry} {matchHardlinks : Bool} {result : SizeGrouping}
    (h : groupingBySize sort copy allocates entries matchHardlinks = some result) :
    SizeScanned entries result ∧ (matchHardlinks = true → result.entries.Perm entries) ∧
      (CopyServes sort copy entries matchHardlinks →
        result.surviving = survivingEntries sort entries matchHardlinks) := by
  unfold groupingBySize at h
  split at h
  · next hnil =>
    cases List.length_eq_zero_iff.mp hnil
    cases h
    have hle := length_survivingEntries_le sort [] matchHardlinks
    refine ⟨⟨rfl, Nat.le_refl _, by simp [SizeGrouping.surviving, scanRuns], rfl⟩,
      fun _ => .refl _, fun _ => ?_⟩
    rw [List.length_eq_zero_iff.mp (Nat.le_zero.mp hle)]
    rfl
  · obtain ⟨compacted, collapsed, hcompacted, hlen, hcollapsed, hmatch, hserves⟩ :=
      exists_compacted_array sort copy entries matchHardlinks
    simp only [hcompacted] at h
    split at h
    · rw [Option.map_eq_some_iff] at h
      obtain ⟨buffer, hpush, rfl⟩ := h
      obtain ⟨hg, hc⟩ := GroupBuffer.pushRuns_eq_some hpush
      simp only [GroupBuffer.empty, List.nil_append, Nat.zero_add] at hg hc
      refine ⟨⟨hlen, hcollapsed, ?_, ?_⟩, hmatch, fun h => ?_⟩
      · simp only [SizeGrouping.surviving, hlen]
        exact hg
      · rw [hc, hg, List.map_map]
        rfl
      · simp only [SizeGrouping.surviving, hlen]
        exact hserves h
    · cases h

/-- With hardlinks matched nothing is copied. -/
theorem copyServes_of_match (sort : SortFn) (copy : CopyFn) (entries : List FileEntry) :
    CopyServes sort copy entries true := Or.inr nofun

theorem sizeScanned_of_groupingBySize {sort : SortFn} {copy : CopyFn} {allocates : Nat → Bool}
    {entries : List FileEntry} {matchHardlinks : Bool} {result : SizeGrouping}
    (h : groupingBySize sort copy allocates entries matchHardlinks = some result) :
    SizeScanned entries result := (groupingBySize_eq_some h).1

theorem sizeGrouped_of_groupingBySize {sort : SortFn} {copy : CopyFn} {allocates : Nat → Bool}
    {entries : List FileEntry} {matchHardlinks : Bool} {result : SizeGrouping}
    (hcopies : CopyServes sort copy entries matchHardlinks)
    (h : groupingBySize sort copy allocates entries matchHardlinks = some result) :
    SizeGrouped sort entries matchHardlinks result := by
  obtain ⟨hscanned, hmatch, hserves⟩ := groupingBySize_eq_some h
  exact ⟨hscanned, hserves hcopies, hmatch⟩

/-- With a pool that serves every request the stage succeeds. -/
theorem isSome_groupingBySize {allocates : Nat → Bool} (hall : ∀ n, allocates n = true)
    (sort : SortFn) (copy : CopyFn) (entries : List FileEntry) (matchHardlinks : Bool) :
    (groupingBySize sort copy allocates entries matchHardlinks).isSome := by
  unfold groupingBySize
  split
  · rfl
  · dsimp only
    rw [if_pos (hall 16), Option.isSome_map]
    exact GroupBuffer.isSome_pushRuns hall _ _ _

namespace SizeScanned

variable {entries : List FileEntry} {result : SizeGrouping}

theorem length_surviving (h : SizeScanned entries result) :
    result.surviving.length = entries.length - result.hardlinksCollapsed := by
  rw [SizeGrouping.surviving, List.length_take, h.length_entries]
  omega

theorem le_length (h : SizeScanned entries result) :
    result.surviving.length ≤ result.entries.length := by
  rw [h.length_surviving, h.length_entries]
  omega

theorem getElem_surviving {i : Nat} (hi : i < result.surviving.length)
    (hr : i < result.entries.length) : result.surviving[i] = result.entries[i] :=
  List.getElem_take

/-- The size groups lie in the surviving front and do not overlap. -/
theorem separate (h : SizeScanned entries result) :
    SeparateGroups result.groups result.entries.length where
  inBounds := by
    intro s hs
    obtain ⟨g, hg, rfl⟩ := List.mem_map.mp hs
    rw [h.groups_eq] at hg
    obtain ⟨r, hr, rfl⟩ := List.mem_map.mp hg
    have hb := bounds_of_mem_scanRuns _ _ _ r hr
    have hle := h.le_length
    simp only [Group.run, Run.InBounds]
    omega
  disjoint := by
    rw [h.groups_eq, List.map_map, List.pairwise_map]
    refine (pairwise_scanRuns FileEntry.fileSize _ _).imp fun {r s} hrs i hi => ?_
    simp only [Function.comp_apply, Group.run, Run.Contains] at hi
    omega

theorem two_le_entryCount (h : SizeScanned entries result) {g : Group}
    (hg : g ∈ result.groups) : 2 ≤ g.entryCount := by
  rw [h.groups_eq] at hg
  obtain ⟨r, hr, rfl⟩ := List.mem_map.mp hg
  exact (bounds_of_mem_scanRuns _ _ _ r hr).2.2

/-- The positions of a size group are positions of survivors. -/
theorem lt_surviving (h : SizeScanned entries result) {group : Group}
    (hgroup : group ∈ result.groups) {i : Nat} (hi : group.Contains i) :
    i < result.surviving.length := by
  rw [h.groups_eq] at hgroup
  obtain ⟨r, hr, rfl⟩ := List.mem_map.mp hgroup
  have hb := bounds_of_mem_scanRuns _ _ _ r hr
  simp only [Group.Contains, Group.run, Run.Contains] at hi
  omega

/-- A group holds files of its size. -/
theorem fileSize_of_contains (h : SizeScanned entries result) {group : Group}
    (hgroup : group ∈ result.groups) {i : Nat} (hi : group.Contains i) :
    (result.surviving[i]?).map FileEntry.fileSize = some group.fileSize := by
  have htwo := h.two_le_entryCount hgroup
  have hfirst : group.Contains group.startIndex := ⟨Nat.le_refl _, by simp only [Group.run]; omega⟩
  have hlt := h.lt_surviving hgroup hi
  have hstart := h.lt_surviving hgroup hfirst
  rw [h.groups_eq] at hgroup
  obtain ⟨r, hr, rfl⟩ := List.mem_map.mp hgroup
  have hkey := key_eq_of_mem_scanRuns FileEntry.fileSize 0 _ r hr i r.start
    (by rw [Nat.zero_add]; exact hi) (by rw [Nat.zero_add]; exact hfirst) hlt hstart
  rw [List.getElem?_eq_getElem hlt, Option.map_some, hkey]
  dsimp only at hstart ⊢
  rw [List.getElem?_eq_getElem hstart]
  rfl

end SizeScanned

namespace SizeGrouped

variable {sort : SortFn} {entries : List FileEntry} {matchHardlinks : Bool}
  {result : SizeGrouping}

theorem take_entries (h : SizeGrouped sort entries matchHardlinks result) :
    result.entries.take (survivingEntries sort entries matchHardlinks).length =
      survivingEntries sort entries matchHardlinks := by
  rw [← h.surviving_eq, h.length_surviving, ← h.length_entries]
  rfl

theorem hardlinksCollapsed_eq (h : SizeGrouped sort entries matchHardlinks result) :
    result.hardlinksCollapsed =
      entries.length - (survivingEntries sort entries matchHardlinks).length := by
  have hle := h.hardlinksCollapsed_le
  rw [← h.surviving_eq, h.length_surviving]
  omega

theorem getElem_survivor (h : SizeGrouped sort entries matchHardlinks result) {i : Nat}
    (hi : i < (survivingEntries sort entries matchHardlinks).length)
    (hr : i < result.entries.length) :
    (survivingEntries sort entries matchHardlinks)[i] = result.entries[i] := by
  have heq : (survivingEntries sort entries matchHardlinks)[i]? = result.entries[i]? := by
    rw [← h.take_entries, List.getElem?_take, if_pos hi]
  rwa [List.getElem?_eq_getElem hi, List.getElem?_eq_getElem hr, Option.some.injEq] at heq

theorem lt_survivors (h : SizeGrouped sort entries matchHardlinks result) {group : Group}
    (hgroup : group ∈ result.groups) {i : Nat} (hi : group.Contains i) :
    i < (survivingEntries sort entries matchHardlinks).length :=
  h.surviving_eq ▸ h.lt_surviving hgroup hi

/-- **Two different positions share a size group exactly when both survived
the compaction and have equal sizes.** -/
theorem sameGroup_iff (h : SizeGrouped sort entries matchHardlinks result) {i j : Nat}
    (hij : i ≠ j) (hi : i < result.entries.length) (hj : j < result.entries.length) :
    SameGroup result.groups i j ↔
      i < (survivingEntries sort entries matchHardlinks).length ∧
      j < (survivingEntries sort entries matchHardlinks).length ∧
      result.entries[i].fileSize = result.entries[j].fileSize := by
  have hscan := sameRun_scanRuns_iff FileEntry.fileSize 0 _
    (adjacent_survivingEntries sort entries matchHardlinks) i j hij
  have hgroups : SameGroup result.groups i j ↔ SameRun (scanRuns FileEntry.fileSize 0
      (survivingEntries sort entries matchHardlinks)) i j := by
    rw [SameGroup, SameRun, h.groups_eq, h.surviving_eq]
    constructor
    · rintro ⟨g, hg, hgi, hgj⟩
      obtain ⟨r, hr, rfl⟩ := List.mem_map.mp hg
      exact ⟨r, hr, hgi, hgj⟩
    · rintro ⟨r, hr, hri, hrj⟩
      exact ⟨_, List.mem_map_of_mem hr, hri, hrj⟩
  simp only [Nat.zero_add] at hscan
  constructor
  · intro hs
    obtain ⟨group, hgroup, hgi, hgj⟩ := id hs
    have hi' := h.lt_survivors hgroup hgi
    have hj' := h.lt_survivors hgroup hgj
    refine ⟨hi', hj', ?_⟩
    rw [← h.getElem_survivor hi' hi, ← h.getElem_survivor hj' hj]
    exact (hscan hi' hj').mp (hgroups.mp hs)
  · rintro ⟨hi', hj', he⟩
    rw [← h.getElem_survivor hi' hi, ← h.getElem_survivor hj' hj] at he
    exact hgroups.mpr ((hscan hi' hj').mpr he)

/-- The entry at a position of a size group is one of those given. -/
theorem mem_of_contains (h : SizeGrouped sort entries matchHardlinks result) {group : Group}
    (hgroup : group ∈ result.groups) {i : Nat} (hi : group.Contains i)
    (hlt : i < result.entries.length) : result.entries[i] ∈ entries := by
  rw [← h.getElem_survivor (h.lt_survivors hgroup hi) hlt]
  exact (sort.mem_run groupingSizeDevInoLessThan entries _).mp
    ((survivingEntries_sublist sort entries matchHardlinks).subset (List.getElem_mem _))

/-- **There is no size group exactly when the survivors differ in size.** -/
theorem groups_eq_nil_iff (h : SizeGrouped sort entries matchHardlinks result) :
    result.groups = [] ↔
      ((survivingEntries sort entries matchHardlinks).map FileEntry.fileSize).Nodup := by
  have hle := h.surviving_eq ▸ h.le_length
  rw [List.Nodup, List.pairwise_map, List.pairwise_iff_getElem]
  constructor
  · intro hnil i j hi hj hij heq
    have hsame := (h.sameGroup_iff (Nat.ne_of_lt hij) (by omega) (by omega)).mpr
      ⟨hi, hj, by
        rw [← h.getElem_survivor hi (by omega), ← h.getElem_survivor hj (by omega)]
        exact heq⟩
    obtain ⟨group, hgroup, _⟩ := hsame
    rw [hnil] at hgroup
    cases hgroup
  · intro hdiffer
    by_contra hnil
    obtain ⟨group, hgroup⟩ := List.exists_mem_of_ne_nil _ hnil
    have htwo := h.two_le_entryCount hgroup
    have hfirst : group.Contains group.startIndex :=
      ⟨Nat.le_refl _, by simp only [Group.run]; omega⟩
    have hsecond : group.Contains (group.startIndex + 1) :=
      ⟨Nat.le_succ _, by simp only [Group.run]; omega⟩
    have hi := h.lt_survivors hgroup hfirst
    have hj := h.lt_survivors hgroup hsecond
    obtain ⟨_, _, heq⟩ := (h.sameGroup_iff (Nat.ne_of_lt (Nat.lt_succ_self _)) (by omega)
      (by omega)).mp ⟨group, hgroup, hfirst, hsecond⟩
    rw [← h.getElem_survivor hi (by omega), ← h.getElem_survivor hj (by omega)] at heq
    exact hdiffer _ _ hi hj (Nat.lt_succ_self _) heq

end SizeGrouped

/-- Without groups the stage needs no memory but its first buffer. -/
theorem groupingBySize_of_differ {sort : SortFn} {copy : CopyFn} {allocates : Nat → Bool}
    {entries : List FileEntry} {matchHardlinks : Bool} (hentries : entries ≠ [])
    (hcopies : CopyServes sort copy entries matchHardlinks)
    (hallocates : allocates 16 = true)
    (hdiffer : ((survivingEntries sort entries matchHardlinks).map FileEntry.fileSize).Nodup) :
    ∃ result, groupingBySize sort copy allocates entries matchHardlinks = some result ∧
      result.groups = [] := by
  obtain ⟨served, hserved⟩ := Option.isSome_iff_exists.mp
    (@isSome_groupingBySize (fun _ => true) (fun _ => rfl) sort copy entries matchHardlinks)
  have hsized := sizeGrouped_of_groupingBySize hcopies hserved
  have hruns : scanRuns FileEntry.fileSize 0 (survivingEntries sort entries matchHardlinks) = [] :=
    List.map_eq_nil_iff.mp (hsized.surviving_eq ▸ hsized.groups_eq ▸
      hsized.groups_eq_nil_iff.mpr hdiffer)
  obtain ⟨compacted, collapsed, hcompacted, _, _, _, hserves⟩ :=
    exists_compacted_array sort copy entries matchHardlinks
  unfold groupingBySize
  rw [if_neg fun hlen => hentries (List.length_eq_zero_iff.mp hlen)]
  simp only [hcompacted, hallocates, if_true, hserves hcopies, hruns]
  exact ⟨_, rfl, rfl⟩

/-- A stage with files that succeeds had its first buffer. -/
theorem allocates_of_groupingBySize {sort : SortFn} {copy : CopyFn} {allocates : Nat → Bool}
    {entries : List FileEntry} {matchHardlinks : Bool} {result : SizeGrouping}
    (hentries : entries ≠ [])
    (h : groupingBySize sort copy allocates entries matchHardlinks = some result) :
    allocates 16 = true := by
  obtain ⟨compacted, collapsed, hcompacted, _⟩ :=
    exists_compacted_array sort copy entries matchHardlinks
  unfold groupingBySize at h
  rw [if_neg fun hlen => hentries (List.length_eq_zero_iff.mp hlen)] at h
  simp only [hcompacted] at h
  split at h
  · assumption
  · cases h

end BcDuplicate
