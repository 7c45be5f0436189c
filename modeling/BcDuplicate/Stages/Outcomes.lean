import BcDuplicate.Stages.Groups
import BcDuplicate.Worker.Outcomes

/-!
# BcDuplicate.Stages.Outcomes

What happens when hashing fails.  The groupings compare `fast_hash` and
`full_hash` whatever the outcome: a file that was not hashed takes part with
the zeros discovery put there.

So a final group has an entry that was not hashed exactly when the full pass
leaves two entries of one fast-hash group with the same bytes and one of them
without a digest (`final_groups_hashed_iff`).
-/

namespace BcDuplicate

open Runs
open Sorting
open Copying
open Updates

theorem keeps_fullHash_fast (fast : Nat → FastOutcome) :
    Keeps (fun entry => (entry.fullHash, entry.fullHashComputed)) fun i => (fast i).apply := by
  intro i entry
  dsimp only
  cases fast i <;> rfl

/-! ## the entries before the full pass -/

section Unhashed

variable {sort : SortFn} {discovered : List FileEntry} {matchHardlinks : Bool}
  {sizes : SizeGrouping}

/-- No candidate of the full pass has a digest yet. -/
theorem unhashed_grouped (h : SizeGrouped sort discovered matchHardlinks sizes)
    (hdiscovered : ∀ entry ∈ discovered, entry.Unhashed) {fast : Nat → FileEntry → FileEntry}
    (hfast : Keeps (fun entry => (entry.fullHash, entry.fullHashComputed)) fast)
    {grouped : HashGrouping} (hgrouped : RefinedTo FileEntry.fastHash sizes.groups
      (updateAt fast (candidateIndices sizes.groups) sizes.entries) grouped)
    {group : Group} (hgroup : group ∈ grouped.groups) {i : Nat} (hi : group.Contains i)
    (hlt : i < grouped.entries.length) : grouped.entries[i].Unhashed := by
  have hsep := separate_updated fast (candidateIndices sizes.groups) h.separate
  -- the position lies in a size group, and so does the one the entry comes from
  obtain ⟨parent, hparent, r, hr, rfl⟩ := hgrouped.exists_parent hgroup
  have hbounds := hgrouped.bounds_of_mem hsep hparent hr
  have hinParent : parent.Contains i := by
    simp only [Group.Contains, Group.run, Run.Contains] at hi ⊢
    omega
  obtain ⟨k, hk, heq, horigin⟩ := hgrouped.exists_origin hsep hlt
  have hk' : k < sizes.entries.length := by rwa [length_updateAt] at hk
  obtain ⟨source, hsource, hcontains⟩ : ∃ source ∈ sizes.groups, source.Contains k := by
    rcases horigin with rfl | ⟨source, hsource, hcontains, _⟩
    · exact ⟨parent, hparent, hinParent⟩
    · exact ⟨source, hsource, hcontains⟩
  have hunhashed := hdiscovered _ (h.mem_of_contains hsource hcontains hk')
  rw [FileEntry.Unhashed, ← heq]
  exact (hfast.getElem_updateAt (nodup_candidateIndices h.separate) hk hk').trans hunhashed

/-- **What the full pass leaves at a candidate**: the entry as its outcome
makes it, hashed or not. -/
theorem exists_left {fast : Nat → FastOutcome} {full : Nat → FullOutcome} {digestSize : Nat}
    {grouped final : HashGrouping} (h : SizeGrouped sort discovered matchHardlinks sizes)
    (hdiscovered : ∀ entry ∈ discovered, entry.Unhashed)
    (hstaged : HashStaged (fun i => (fast i).apply) (fun i => (full i).apply) digestSize
      sizes.entries sizes.groups grouped final) {i : Nat}
    (hi : i ∈ candidateIndices grouped.groups) :
    ∃ entry, (updateAt (fun i => (full i).apply) (candidateIndices grouped.groups)
        grouped.entries)[i]? = some entry ∧ (entry.Hashed ↔ (full i).isHashed = true) ∧
      entry.digest digestSize = (full i).leaves.take digestSize := by
  have hsep := hstaged.separate_grouped h.separate
  have hlt := lt_of_mem_candidateIndices hsep hi
  obtain ⟨group, hgroup, hcontains⟩ := mem_candidateIndices.mp hi
  have hunhashed := unhashed_grouped h hdiscovered (keeps_fullHash_fast fast)
    hstaged.byFastHash hgroup hcontains hlt
  refine ⟨(full i).apply grouped.entries[i], ?_, hunhashed.hashed_apply (full i), ?_⟩
  · rw [getElem?_updateAt _ (nodup_candidateIndices hsep), if_pos hi,
      List.getElem?_eq_getElem hlt, Option.map_some]
  · rw [FileEntry.digest, hunhashed.fullHash_apply (full i)]

end Unhashed

/-! ## the final groups -/

/-- Two entries of one group, at least one of them not hashed, that the
grouping by full hash cannot tell apart. -/
def Collides (groups : List Group) (full : Nat → FullOutcome) (digestSize : Nat) : Prop :=
  ∃ i j, i ≠ j ∧ SameGroup groups i j ∧ (full i).isHashed = false ∧
    (full i).leaves.take digestSize = (full j).leaves.take digestSize

/-- **Entries that were not hashed.**  Every entry of every final group was
hashed exactly when no two entries of a fast-hash group, at least one of them
not hashed, are left with the same digest bytes. -/
theorem final_groups_hashed_iff (sort : SortFn) (copy : CopyFn) (pools : Pools) (digestSize : Nat)
    (matchHardlinks : Bool) (fast : Nat → FastOutcome) (full : Nat → FullOutcome)
    (discovered : List FileEntry) (hdiscovered : ∀ entry ∈ discovered, entry.Unhashed)
    (hcopies : CopyServes sort copy discovered matchHardlinks) (sizes : SizeGrouping)
    (hsizes : groupingBySize sort copy pools.bySize discovered matchHardlinks = some sizes)
    (grouped : HashGrouping)
    (hgrouped : groupingByFastHash sort pools.byFastHash
      (updateAt (fun i => (fast i).apply) (candidateIndices sizes.groups) sizes.entries)
        sizes.groups = some grouped)
    (result : Duplicates)
    (hdone : hashStages sort pools digestSize (updatePass fun i => (fast i).apply)
      (updatePass fun i => (full i).apply) sizes.entries sizes.groups = .done result) :
    (∀ group ∈ result.groups, ∀ i, group.Contains i →
        ∃ entry, result.entries[i]? = some entry ∧ entry.Hashed) ↔
      ¬Collides grouped.groups full digestSize := by
  have hsized := sizeGrouped_of_groupingBySize hcopies hsizes
  obtain ⟨grouped', final, hgrouped', hstaged, hentries, hgroups⟩ :=
    hashStaged_of_done hsized.separate hdone
  obtain rfl : grouped' = grouped := Option.some.inj (hgrouped'.symm.trans hgrouped)
  rw [hentries, hgroups]
  have hsep := hstaged.separate_grouped hsized.separate
  have hsepFull := separate_updated (fun i => (full i).apply) (candidateIndices grouped'.groups)
    hsep
  have hcandidate : ∀ {i j : Nat}, SameGroup grouped'.groups i j →
      i ∈ candidateIndices grouped'.groups ∧ j ∈ candidateIndices grouped'.groups := by
    rintro i j ⟨group, hgroup, hi, hj⟩
    exact ⟨mem_candidateIndices.mpr ⟨group, hgroup, hi⟩,
      mem_candidateIndices.mpr ⟨group, hgroup, hj⟩⟩
  constructor
  · rintro hall ⟨i, j, hij, hsame, hnot, hequal⟩
    obtain ⟨hi, hj⟩ := hcandidate hsame
    obtain ⟨entryI, hentryI, hhashedI, hdigestI⟩ := exists_left hsized hdiscovered hstaged hi
    obtain ⟨entryJ, hentryJ, _, hdigestJ⟩ := exists_left hsized hdiscovered hstaged hj
    -- the two are reported together, so the first was hashed
    obtain ⟨p, q, ⟨last, hlast, hp, _⟩, horigin, _⟩ := hstaged.byFullHash.exists_together hsepFull
      hij hsame (by rw [hentryI, hentryJ, Option.map_some, Option.map_some, hdigestI, hdigestJ,
        hequal])
    obtain ⟨entry, hentry, hhashed⟩ := hall last hlast p hp
    rw [hentry, hentryI, Option.some.injEq] at horigin
    rw [horigin, hhashedI, hnot] at hhashed
    cases hhashed
  · intro hnone last hlast p hp
    -- a final group has a second entry beside it
    obtain ⟨q, hpq, hq⟩ := Group.exists_other (hstaged.byFullHash.two_le_entryCount hlast) hp
    obtain ⟨i, j, hij, hsame, horigin, _, hequal⟩ :=
      hstaged.byFullHash.exists_apart hsepFull hpq ⟨last, hlast, hp, hq⟩
    obtain ⟨hi, hj⟩ := hcandidate hsame
    obtain ⟨entryI, hentryI, hhashedI, hdigestI⟩ := exists_left hsized hdiscovered hstaged hi
    obtain ⟨entryJ, hentryJ, _, hdigestJ⟩ := exists_left hsized hdiscovered hstaged hj
    refine ⟨entryI, horigin.trans hentryI, hhashedI.mpr ?_⟩
    by_contra hnot
    refine hnone ⟨i, j, hij, hsame, eq_false_of_ne_true hnot, ?_⟩
    rw [hentryI, hentryJ, Option.map_some, Option.map_some, hdigestI, hdigestJ] at hequal
    exact Option.some.inj hequal

/-! ## the passes of the program -/

/-- **The stages of the program have outcomes.**  In every environment, stages
that end are the stages of some outcomes. -/
theorem hashStages_outcomes {lib : HashLibrary} {sort : SortFn} {pools : Pools} {digestSize : Nat}
    {fastEnv : FastEnvironment} {fullEnv : FullEnvironment} {algorithm : Algorithm}
    {forceSingleThread : List Group → Bool} {entries : List FileEntry} {sizeGroups : List Group}
    {result : Duplicates} (hsep : SeparateGroups sizeGroups entries.length)
    (h : hashStages sort pools digestSize (workerFastPass lib sort fastEnv)
      (dispatchedFullPass lib sort fullEnv algorithm forceSingleThread) entries sizeGroups =
        .done result) :
    ∃ (fast : Nat → FastOutcome) (full : Nat → FullOutcome),
      hashStages sort pools digestSize (updatePass fun i => (fast i).apply)
        (updatePass fun i => (full i).apply) entries sizeGroups = .done result := by
  obtain ⟨hashed, grouped, rehashed, final, hfastPass, hgrouped, hfullPass, hrest⟩ :=
    (hashStages_eq_done fun _ => rfl).mp h
  obtain ⟨fast, hfast⟩ := workerFastPass_outcomes hsep hfastPass
  have hlen : hashed.length = entries.length := by
    obtain ⟨rfl, _⟩ := PassResult.done.inj hfast
    exact length_updateAt _ _ _
  have hsepGrouped := (refinedTo_of_refineGroups ordersBy_fastHash (hlen ▸ hsep)
    hgrouped).separate (hlen ▸ hsep)
  obtain ⟨full, hfull⟩ := workerFullPass_outcomes hsepGrouped hfullPass
  exact ⟨fast, full, (hashStages_eq_done fun _ => rfl).mpr
    ⟨hashed, grouped, rehashed, final, hfast, hgrouped, hfull, hrest⟩⟩

/-! ### two files that cannot be opened -/

/-- Two files, too large for a slot of the ring. -/
def twoLargeFiles : List FileEntry :=
  [.discovered [65] 300000 0 1, .discovered [66] 300000 0 2]

/-- Every `open` of the fast pass fails. -/
def FastEnvironment.unreadable : FastEnvironment :=
  { FastEnvironment.plain .sequential with
    view := fun _ _ => ⟨[], some Errno.EACCES, none, .whole 0, .whole 0⟩ }

/-- Every `open` of the full pass fails. -/
def FullEnvironment.unreadable : FullEnvironment :=
  { FullEnvironment.plain .sequential with
    view := fun _ _ => { FileView.plain [] with openError := some Errno.EACCES } }

/-- The full pass hashes the file at position 0, and fails on the other. -/
def oneFails (i : Nat) : FullOutcome := if i = 0 then .hashed [9] else .failed Errno.EIO

theorem final_groups_hashed_iff_one_fails : ¬Collides [⟨0, 2, 300000⟩] oneFails 32 :=
  (final_groups_hashed_iff insertionSort memmove .unlimited 32 false (fun _ => .hashed 7) oneFails
    twoLargeFiles (by decide +kernel) (Or.inl moves_memmove)
    ⟨twoLargeFiles, [⟨0, 2, 300000⟩], 2, 0⟩ (by decide +kernel)
    ⟨twoLargeFiles.map (FastOutcome.hashed 7).apply, [⟨0, 2, 300000⟩], 2⟩ (by decide +kernel)
    ⟨(twoLargeFiles.map (FastOutcome.hashed 7).apply).reverse.mapIdx fun i entry =>
      (oneFails (1 - i)).apply entry, [], 2, 2⟩ (by decide +kernel)).mp (by simp)

/-- **Two files that cannot be opened are duplicates of each other.** -/
theorem unreadable_files_grouped :
    ¬∀ (fastEnv : FastEnvironment) (fullEnv : FullEnvironment) (discovered : List FileEntry)
        (sizes : SizeGrouping) (result : Duplicates),
      (∀ entry ∈ discovered, entry.Unhashed) →
      groupingBySize insertionSort memmove Pools.unlimited.bySize discovered false = some sizes →
      hashStages insertionSort .unlimited (workerDigestSize .sha256)
        (workerFastPass .recording insertionSort fastEnv)
        (dispatchedFullPass .recording insertionSort fullEnv .sha256 fun _ => false)
        sizes.entries sizes.groups = .done result →
      ∀ group ∈ result.groups, ∀ i, group.Contains i →
        ∃ entry, result.entries[i]? = some entry ∧ entry.Hashed := by
  intro h
  have hsizes : groupingBySize insertionSort memmove Pools.unlimited.bySize twoLargeFiles false =
      some ⟨twoLargeFiles, [⟨0, 2, 300000⟩], 2, 0⟩ := by decide +kernel
  have hfailed : hashStages insertionSort .unlimited (workerDigestSize .sha256)
      (workerFastPass .recording insertionSort .unreadable)
      (dispatchedFullPass .recording insertionSort .unreadable .sha256 fun _ => false)
      twoLargeFiles [⟨0, 2, 300000⟩] =
    .done ⟨twoLargeFiles.map fun entry =>
        (FullOutcome.failed Errno.EACCES).apply ((FastOutcome.failed Errno.EACCES).apply entry),
      [⟨0, 2, 300000⟩], 2, 2⟩ := by decide +kernel
  obtain ⟨entry, hentry, hhashed⟩ := h .unreadable .unreadable twoLargeFiles _ _ (by decide +kernel)
    hsizes hfailed ⟨0, 2, 300000⟩ List.mem_cons_self 0 (by decide)
  cases hentry
  exact absurd hhashed.2 (by decide)

end BcDuplicate
