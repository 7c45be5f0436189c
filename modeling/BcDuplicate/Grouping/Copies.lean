import BcDuplicate.Grouping.Exact

/-!
# BcDuplicate.Grouping.Copies

The calls of `bc_core_copy` the compaction makes.  A run is moved down by as
many slots as entries were collapsed before it, so the two ranges of a call
overlap exactly when fewer were collapsed than the run is long
(`copies_disjoint_iff`).  Until a first call overlaps every call copies, so this
does not depend on what becomes of ranges that do.
-/

namespace BcDuplicate

open Runs
open Sorting
open Copying

/-- How many of the entries repeat the identity of another. -/
def collapsedAmong (entries : List FileEntry) : Nat :=
  entries.length - (entries.map FileEntry.identity).dedup.length

/-- The entries larger than a size. -/
def entriesLarger (entries : List FileEntry) (fileSize : Nat) : List FileEntry :=
  entries.filter fun e => decide (fileSize < e.fileSize)

/-- The entries of a size. -/
def entriesOfSize (entries : List FileEntry) (fileSize : Nat) : List FileEntry :=
  entries.filter fun e => decide (e.fileSize = fileSize)

/-- `length` entries moved down by `collapsed` slots move clear of themselves;
by none they are not copied. -/
def MovesClear (collapsed length : Nat) : Prop := collapsed = 0 ∨ length ≤ collapsed

theorem disjoint_iff_movesClear (destination collapsed length : Nat) :
    (∀ call ∈ (if destination ≠ destination + collapsed
        then [(⟨destination, destination + collapsed, length⟩ : EntryCopy)] else []),
      call.Disjoint) ↔ MovesClear collapsed length := by
  by_cases hzero : collapsed = 0
  · rw [if_neg (by omega)]
    exact ⟨fun _ => Or.inl hzero, fun _ => nofun⟩
  · rw [if_pos (by omega), List.forall_mem_singleton]
    constructor
    · intro hdisjoint
      refine Or.inr (Nat.le_of_not_lt fun hlt => hdisjoint (destination + collapsed) ?_)
      simp only [Run.Contains]
      omega
    · intro hclear i hi
      simp only [MovesClear, hzero, false_or] at hclear
      simp only [Run.Contains] at hi
      omega

/-! ## what was collapsed -/

theorem collapsedAmong_perm {front back : List FileEntry} (h : front.Perm back) :
    collapsedAmong front = collapsedAmong back := by
  rw [collapsedAmong, collapsedAmong, h.length_eq, (h.map FileEntry.identity).dedup.length_eq]

/-- Entries of different sizes are different files. -/
theorem collapsedAmong_append {front back : List FileEntry}
    (h : ∀ a ∈ front, ∀ b ∈ back, a.fileSize ≠ b.fileSize) :
    collapsedAmong (front ++ back) = collapsedAmong front + collapsedAmong back := by
  have hdisjoint : (front.map FileEntry.identity).Disjoint (back.map FileEntry.identity) := by
    intro identity hfront hback
    obtain ⟨a, ha, rfl⟩ := List.mem_map.mp hfront
    obtain ⟨b, hb, hsame⟩ := List.mem_map.mp hback
    exact h a ha b hb (congrArg Prod.fst hsame).symm
  have hle : ∀ l : List FileEntry, (l.map FileEntry.identity).dedup.length ≤ l.length := fun l => by
    simpa using (List.dedup_sublist (l.map FileEntry.identity)).length_le
  have hfront := hle front
  have hback := hle back
  rw [collapsedAmong, collapsedAmong, collapsedAmong, List.map_append,
    hdisjoint.dedup_append, List.length_append, List.length_append]
  omega

/-- What the compaction of one run collapses. -/
theorem collapsedAmong_run {first : FileEntry} {run : List FileEntry}
    (hordered : (first :: run).Pairwise fun a b => SizeOrder a.identity b.identity)
    (hrun : ∀ e ∈ run, e.fileSize = first.fileSize) :
    run.length + 1 - (run.destutter' DifferentInode first).length =
      collapsedAmong (first :: run) := by
  have hkept : (first :: run).destutter DifferentFile = run.destutter' DifferentInode first := by
    have := destutter'_run first run [] hrun nofun
    rwa [List.append_nil, List.destutter_nil, List.append_nil] at this
  rw [collapsedAmong, ← map_identity_destutter hordered, hkept, List.length_map, List.length_cons]

/-! ## the loop -/

/-- Behind the run of the largest size there are only smaller sizes. -/
theorem fileSize_lt_of_later {first : FileEntry} {run later : List FileEntry}
    (hordered : (first :: (run ++ later)).Pairwise fun a b => SizeOrder a.identity b.identity)
    (hlater : ∀ e, later.head? = some e → e.fileSize ≠ first.fileSize) :
    ∀ e ∈ later, e.fileSize < first.fileSize := by
  have hle : ∀ {a b : FileEntry}, SizeOrder a.identity b.identity → b.fileSize ≤ a.fileSize := by
    intro a b h
    simp only [SizeOrder, FileEntry.identity] at h
    omega
  rw [List.pairwise_cons, List.pairwise_append] at hordered
  obtain ⟨hfirst, _, hordered, _⟩ := hordered
  intro e he
  cases later with
  | nil => cases he
  | cons head later =>
      have hhead := hle (hfirst head (List.mem_append_right _ List.mem_cons_self))
      have hne := hlater head rfl
      rcases List.mem_cons.mp he with rfl | he
      · omega
      · have := hle ((List.pairwise_cons.mp hordered).1 e he)
        omega

section LargestRun

variable {run later : List FileEntry} {largest fileSize : Nat}
  (hrun : ∀ e ∈ run, e.fileSize = largest) (hlater : ∀ e ∈ later, e.fileSize < largest)
include hrun hlater

/-- Nothing is larger than the run of the largest size. -/
theorem entriesLarger_largest : entriesLarger (run ++ later) largest = [] := by
  refine List.filter_eq_nil_iff.mpr fun e he => ?_
  rw [decide_eq_true_eq, Nat.not_lt]
  rcases List.mem_append.mp he with he | he
  · exact (hrun e he).le
  · exact (hlater e he).le

theorem entriesOfSize_largest : entriesOfSize (run ++ later) largest = run := by
  rw [entriesOfSize, List.filter_append,
    List.filter_eq_self.mpr fun e he => decide_eq_true (hrun e he),
    List.filter_eq_nil_iff.mpr fun e he => by
      rw [decide_eq_true_eq]
      exact (hlater e he).ne, List.append_nil]

omit hlater in
theorem entriesOfSize_below (hsize : fileSize < largest) :
    entriesOfSize (run ++ later) fileSize = entriesOfSize later fileSize := by
  rw [entriesOfSize, List.filter_append, List.filter_eq_nil_iff.mpr fun e he => by
    rw [decide_eq_true_eq, hrun e he]
    exact hsize.ne', List.nil_append]
  rfl

/-- Seen from a smaller size, the run's repetitions are among the larger. -/
theorem collapsedAmong_below (hsize : fileSize < largest) :
    collapsedAmong (entriesLarger (run ++ later) fileSize) =
      collapsedAmong run + collapsedAmong (entriesLarger later fileSize) := by
  have hall : run.filter (fun e => decide (fileSize < e.fileSize)) = run :=
    List.filter_eq_self.mpr fun e he => decide_eq_true (by rw [hrun e he]; exact hsize)
  rw [entriesLarger, List.filter_append, hall]
  refine collapsedAmong_append fun a ha b hb => ?_
  rw [hrun a ha]
  exact (hlater b (List.mem_of_mem_filter hb)).ne'

/-- What is asked of the run, and what is asked of the entries behind it. -/
theorem forall_movesClear_append (hne : run ≠ []) (collapsed : Nat) :
    (∀ e ∈ run ++ later,
      MovesClear (collapsed + collapsedAmong (entriesLarger (run ++ later) e.fileSize))
        (entriesOfSize (run ++ later) e.fileSize).length) ↔
      MovesClear collapsed run.length ∧ ∀ e ∈ later,
        MovesClear (collapsed + collapsedAmong run + collapsedAmong (entriesLarger later e.fileSize))
          (entriesOfSize later e.fileSize).length := by
  have hof : ∀ e ∈ run,
      (MovesClear (collapsed + collapsedAmong (entriesLarger (run ++ later) e.fileSize))
        (entriesOfSize (run ++ later) e.fileSize).length ↔ MovesClear collapsed run.length) := by
    intro e he
    rw [hrun e he, entriesLarger_largest hrun hlater, entriesOfSize_largest hrun hlater]
    rfl
  rw [List.forall_mem_append]
  refine and_congr ⟨fun h => ?_, fun h e he => (hof e he).mpr h⟩ (forall₂_congr fun e he => ?_)
  · obtain ⟨e, he⟩ := List.exists_mem_of_ne_nil run hne
    exact (hof e he).mp (h e he)
  · rw [entriesOfSize_below hrun (hlater e he), collapsedAmong_below hrun hlater (hlater e he),
      Nat.add_assoc]

end LargestRun

/-- A run that moves clear is copied, or lies in its place. -/
theorem copies_of_movesClear {copy : CopyFn} {destination collapsed length : Nat}
    (hclear : MovesClear collapsed length) (hne : destination ≠ destination + collapsed) :
    copy.Moves ∨ Run.Disjoint ⟨destination, length⟩ ⟨destination + collapsed, length⟩ := by
  have hdisjoint := (disjoint_iff_movesClear destination collapsed length).mpr hclear
  rw [if_pos hne, List.forall_mem_singleton] at hdisjoint
  exact Or.inr hdisjoint

/-- **The calls of the loop.**  Each run moves by what was collapsed before
it: the stale slots, and the repetitions among the larger entries. -/
theorem groupingCollapseCopies_disjoint_iff (copy : CopyFn) (n : Nat)
    (done stale unread : List FileEntry)
    (hn : n = done.length + stale.length + unread.length)
    (hordered : unread.Pairwise fun a b => SizeOrder a.identity b.identity) :
    (∀ call ∈ groupingCollapseCopies copy n (done ++ (stale ++ unread)) done.length
        (done.length + stale.length), call.Disjoint) ↔
      ∀ e ∈ unread, MovesClear (stale.length + collapsedAmong (entriesLarger unread e.fileSize))
        (entriesOfSize unread e.fileSize).length := by
  induction hlen : unread.length using Nat.strong_induction_on
    generalizing done stale unread with
  | _ m ih =>
    subst hlen
    cases unread with
    | nil =>
        rw [groupingCollapseCopies, if_neg (by simp [hn])]
        simp only [List.not_mem_nil, false_imp_iff, implies_true]
    | cons first rest =>
        obtain ⟨run, later, rfl, hrun, hlater, hcount⟩ := exists_first_run first rest
        rw [groupingCollapseCopies_cons first hn hcount, List.forall_mem_append,
          disjoint_iff_movesClear]
        have hsmaller := fileSize_lt_of_later hordered hlater
        rw [← List.cons_append] at hordered ⊢
        obtain ⟨horderedRun, horderedLater, _⟩ := List.pairwise_append.mp hordered
        have hsame : ∀ e ∈ first :: run, e.fileSize = first.fileSize :=
          List.forall_mem_cons.mpr ⟨rfl, hrun⟩
        rw [forall_movesClear_append hsame hsmaller (List.cons_ne_nil _ _)]
        refine and_congr_right fun hclear => ?_
        -- the call copied, so the rest of the loop finds the array compacted
        obtain ⟨stale', hcompacted, hstale'⟩ := @exists_compacted_run copy done stale run
          later first (copies_of_movesClear hclear)
        rw [List.cons_append, hcompacted]
        have hcollapsed := collapsedAmong_run horderedRun hrun
        have hkept := length_destutter'_le DifferentInode first run
        dsimp only
        simp only [List.length_cons, List.length_append] at hn
        -- the entries kept of the run join those done, the collapsed become stale
        have hnext := ih later.length
          (by simp only [List.length_cons, List.length_append]; omega)
          (done ++ run.destutter' DifferentInode first) stale' later
          (by rw [List.length_append, hstale']; omega) horderedLater rfl
        simp only [List.length_append, List.append_assoc] at hnext
        obtain ⟨hwrite, hread⟩ := next_indices done hkept hstale'
        rw [hwrite, hread, hnext, hstale', hcollapsed]

/-- **When the copies are safe.**  Whatever a copy leaves on ranges that
overlap, no call's ranges overlap exactly when hardlinks are matched, or for
each size either no larger file repeats another or the repetitions among the
larger are at least as many as the entries of that size. -/
theorem copies_disjoint_iff (sort : SortFn) (copy : CopyFn) (entries : List FileEntry)
    (matchHardlinks : Bool) :
    (∀ call ∈ groupingBySizeCopies sort copy entries matchHardlinks, call.Disjoint) ↔
      matchHardlinks = true ∨ ∀ e ∈ entries,
        MovesClear (collapsedAmong (entriesLarger entries e.fileSize))
          (entriesOfSize entries e.fileSize).length := by
  cases matchHardlinks with
  | true => exact ⟨fun _ => Or.inl rfl, fun _ => nofun⟩
  | false =>
      have hperm := sort.perm groupingSizeDevInoLessThan entries
      have hloop := groupingCollapseCopies_disjoint_iff copy entries.length [] []
        (sort.run groupingSizeDevInoLessThan entries) (by simp) (pairwise_sorted sort entries)
      rw [groupingBySizeCopies, if_neg Bool.noConfusion]
      refine hloop.trans ?_
      rw [or_iff_right Bool.noConfusion]
      refine forall_congr' fun e => ?_
      rw [hperm.mem_iff, List.length_nil, Nat.zero_add, entriesLarger, entriesOfSize,
        collapsedAmong_perm (hperm.filter _), (hperm.filter _).length_eq]
      rfl

/-- **One collapsed hardlink before two files of one size** makes them overlap:
slots 2 and 3 are copied to 1 and 2. -/
theorem collapsed_hardlink_overlaps :
    ¬∀ (sort : SortFn) (copy : CopyFn) (entries : List FileEntry) (matchHardlinks : Bool),
      ∀ call ∈ groupingBySizeCopies sort copy entries matchHardlinks, call.Disjoint := by
  intro h
  have hcopies : groupingBySizeCopies insertionSort memmove
      [.discovered [97] 10 1 1, .discovered [98] 10 1 1, .discovered [99] 5 1 2,
        .discovered [100] 5 1 3] false = [⟨1, 2, 2⟩] := by decide +kernel
  have hdisjoint := h insertionSort memmove _ false _ (hcopies ▸ List.mem_cons_self)
  exact hdisjoint 2 ⟨⟨by decide, by decide⟩, by decide, by decide⟩

end BcDuplicate
