import BcDuplicate.Application.Counters
import BcDuplicate.Stages.Bytes

/-!
# BcDuplicate.Application.Sums

The two `size_t` sums of a run against the integers they stand for:
`full_pass_total_bytes` over the fast-hash groups, and `wasted_bytes` over the
final groups.  Nothing bounds them but their type, so both are sums modulo
`2 ^ 64`.  The second is never the larger one, so that neither wraps exactly
when the files with the size and the fast hash of another file hold less than
`2 ^ 64` bytes (`sumsExact_iff`); that is so wherever all files are smaller
than 64 GiB (`sumsExact_of_small`).
-/

namespace BcDuplicate

open Runs
open Sorting
open Copying

/-- `BC_DUPLICATE_APPLICATION_ENTRY_MAX_CAPACITY` -/
def applicationEntryMaxCapacity : Nat := 2 ^ 28

/-- What discovery can hand over: as many entries as the vector has room for,
with sizes that are an `off_t` each. -/
structure Admitted (entries : List FileEntry) : Prop where
  length_le : entries.length ≤ applicationEntryMaxCapacity
  fileSize_le : ∀ entry ∈ entries, entry.fileSize ≤ 2 ^ 63 - 1

section Specification

variable {lib : HashLibrary} (env : ApplicationEnvironment lib) (flag : StopFlag)
  (entries : List FileEntry)

/-- The run found its fast-hash groups. -/
structure FastGrouped (sizes : SizeGrouping) (hashed : List FileEntry) (fast : HashGrouping) :
    Prop where
  bySize : groupingBySize env.sort env.copy env.pools.bySize entries
    env.options.matchHardlinks = some sizes
  fastPass : ∃ filesHashedFast,
    applicationFastPass env flag sizes.entries sizes.groups = .done hashed filesHashedFast
  byFastHash : groupingByFastHash env.sort env.pools.byFastHash hashed sizes.groups = some fast

/-- **Neither sum wraps**, as far as the run gets. -/
structure SumsExact : Prop where
  totalBytes : ∀ sizes hashed fast, FastGrouped env flag entries sizes hashed fast →
    fullPassTotalBytes fast.groups = groupBytes fast.groups
  wastedBytes : ∀ sizes duplicates,
    groupingBySize env.sort env.copy env.pools.bySize entries env.options.matchHardlinks =
      some sizes →
    hashStages env.sort env.pools (workerDigestSize env.options.algorithm)
      (applicationFastPass env flag) (applicationFullPass env flag) sizes.entries sizes.groups =
        .done duplicates →
    (applicationStatistics env entries.length sizes duplicates).wastedBytes =
      extraBytes duplicates.groups

end Specification

/-- The files that share their size and their fast hash with another one: those
of the size groups whose group has another file with their fast hash. -/
def fullPassFiles (sizeGroups : List Group) (hashed : List FileEntry) : List FileEntry :=
  sizeGroups.flatMap fun group => repeats FileEntry.fastHash (slice group.run hashed)

/-- Whenever the run finds its fast-hash groups, those files hold less than
`2 ^ 64` bytes. -/
def FullPassFits {lib : HashLibrary} (env : ApplicationEnvironment lib) (flag : StopFlag)
    (entries : List FileEntry) : Prop :=
  ∀ sizes hashed fast, FastGrouped env flag entries sizes hashed fast →
    entryBytes (fullPassFiles sizes.groups hashed) < 2 ^ 64

/-! ## sums modulo the word -/

/-- An accumulation that reduces at each step is the reduced sum. -/
theorem foldl_mod_eq (weight : Group → Nat) (groups : List Group) (start : Nat) :
    groups.foldl (fun bytes group => (bytes + weight group) % 2 ^ 64) (start % 2 ^ 64) =
      (start + (groups.map weight).sum) % 2 ^ 64 := by
  induction groups generalizing start with
  | nil => rfl
  | cons group groups ih =>
      rw [List.foldl_cons, Nat.mod_add_mod, ih, List.map_cons, List.sum_cons, Nat.add_assoc]

theorem fullPassTotalBytes_eq (groups : List Group) :
    fullPassTotalBytes groups = groupBytes groups % 2 ^ 64 := by
  have hfold := foldl_mod_eq (fun group => group.entryCount * group.fileSize) groups 0
  rwa [Nat.zero_mod, Nat.zero_add] at hfold

theorem wastedBytes_eq (groups : List Group) :
    wastedBytes groups = extraBytes groups % 2 ^ 64 := by
  have hfold := foldl_mod_eq (fun group => (group.entryCount - 1) * group.fileSize) groups 0
  rwa [Nat.zero_mod, Nat.zero_add] at hfold

/-! ## the bytes of a run -/

section Bytes

variable {lib : HashLibrary} {env : ApplicationEnvironment lib} {flag : StopFlag}
  {entries : List FileEntry} {sizes : SizeGrouping} {hashed : List FileEntry} {fast : HashGrouping}

namespace FastGrouped

/-- The fast pass leaves the size groups as they were, and the grouping behind
it refines them. -/
theorem refined (h : FastGrouped env flag entries sizes hashed fast) :
    SeparateGroups sizes.groups hashed.length ∧ OfSize sizes.groups hashed ∧
      RefinedTo FileEntry.fastHash sizes.groups hashed fast := by
  have hsized := sizeScanned_of_groupingBySize h.bySize
  obtain ⟨_, hpass⟩ := h.fastPass
  obtain ⟨outcomes, hupdated⟩ := workerFastPass_outcomes hsized.separate hpass
  obtain ⟨rfl, _⟩ := PassResult.done.inj hupdated
  have hsep := separate_updated (fun i => (outcomes i).apply) (candidateIndices sizes.groups)
    hsized.separate
  exact ⟨hsep, hsized.ofSize.updated (keeps_file_fast outcomes) hsized.separate,
    refinedTo_of_refineGroups ordersBy_fastHash hsep h.byFastHash⟩

/-- The fast-hash groups hold the files that share their size and fast hash. -/
theorem groupBytes_eq (h : FastGrouped env flag entries sizes hashed fast) :
    groupBytes fast.groups = entryBytes (fullPassFiles sizes.groups hashed) := by
  obtain ⟨hsep, hsize, hrefined⟩ := h.refined
  exact hrefined.groupBytes_eq hsep hsize

/-- No more bytes than were found. -/
theorem groupBytes_le (h : FastGrouped env flag entries sizes hashed fast)
    (hcopies : CopyServes env.sort env.copy entries env.options.matchHardlinks) :
    groupBytes fast.groups ≤ entryBytes entries := by
  obtain ⟨hsep, hsize, hrefined⟩ := h.refined
  exact (hrefined.groupBytes_le hsep hsize).trans
    (sizeGrouped_of_groupingBySize hcopies h.bySize).groupBytes_le

end FastGrouped

/-- **What is wasted is read in the full pass**: a run that gets to its final
groups had fast-hash groups with at least the bytes of these. -/
theorem exists_fastGrouped {duplicates : Duplicates}
    (hsizes : groupingBySize env.sort env.copy env.pools.bySize entries
      env.options.matchHardlinks = some sizes)
    (hstages : hashStages env.sort env.pools (workerDigestSize env.options.algorithm)
      (applicationFastPass env flag) (applicationFullPass env flag) sizes.entries sizes.groups =
        .done duplicates) :
    ∃ hashed fast, FastGrouped env flag entries sizes hashed fast ∧
      extraBytes duplicates.groups ≤ groupBytes fast.groups := by
  obtain ⟨hashed, fast, rehashed, full, hfastPass, hfast, hfullPass, hfull, _, hgroups⟩ :=
    (hashStages_eq_done fun _ => rfl).mp hstages
  have hgrouped : FastGrouped env flag entries sizes hashed fast :=
    ⟨hsizes, ⟨_, hfastPass⟩, hfast⟩
  obtain ⟨hsep, hsize, hrefined⟩ := hgrouped.refined
  have hsepFast := hrefined.separate hsep
  obtain ⟨outcomes, hupdated⟩ := workerFullPass_outcomes hsepFast hfullPass
  obtain ⟨rfl, _⟩ := PassResult.done.inj hupdated
  have hsizeFull := (hrefined.ofSize hsep hsize).updated (keeps_file_full outcomes) hsepFast
  have hsepFull := separate_updated (fun i => (outcomes i).apply) (candidateIndices fast.groups)
    hsepFast
  have hrefinedFull := refinedTo_of_refineGroups (ordersBy_digest _) hsepFull hfull
  refine ⟨hashed, fast, hgrouped, ?_⟩
  rw [hgroups]
  exact (extraBytes_le _).trans (hrefinedFull.groupBytes_le hsepFull hsizeFull)

/-- Where the first sum does not wrap, neither does the second. -/
theorem sumsExact_of_fits
    (hfits : ∀ sizes hashed fast, FastGrouped env flag entries sizes hashed fast →
      groupBytes fast.groups < 2 ^ 64) : SumsExact env flag entries where
  totalBytes sizes hashed fast hgrouped := by
    rw [fullPassTotalBytes_eq, Nat.mod_eq_of_lt (hfits sizes hashed fast hgrouped)]
  wastedBytes sizes duplicates hsizes hstages := by
    obtain ⟨hashed, fast, hgrouped, hle⟩ := exists_fastGrouped hsizes hstages
    have hlt := hle.trans_lt (hfits sizes hashed fast hgrouped)
    exact (wastedBytes_eq _).trans (Nat.mod_eq_of_lt hlt)

end Bytes

/-- **When the sums are exact.**  Whatever the files and however the passes
end, neither sum of a run wraps if and only if the files that share their size
and their fast hash with another one hold less than `2 ^ 64` bytes. -/
theorem sumsExact_iff {lib : HashLibrary} (env : ApplicationEnvironment lib) (flag : StopFlag)
    (entries : List FileEntry) :
    SumsExact env flag entries ↔ FullPassFits env flag entries := by
  constructor
  · intro h sizes hashed fast hgrouped
    have htotal := h.totalBytes sizes hashed fast hgrouped
    rw [← hgrouped.groupBytes_eq, ← htotal, fullPassTotalBytes_eq]
    exact Nat.mod_lt _ (Nat.two_pow_pos 64)
  · intro hfits
    refine sumsExact_of_fits fun sizes hashed fast hgrouped => ?_
    rw [hgrouped.groupBytes_eq]
    exact hfits sizes hashed fast hgrouped

/-- **A file of 64 GiB is needed to wrap**, where the copies serve the
compaction: the vector has no room for enough smaller ones. -/
theorem sumsExact_of_small {lib : HashLibrary} (env : ApplicationEnvironment lib) (flag : StopFlag)
    {entries : List FileEntry} (hadmitted : Admitted entries)
    (hcopies : CopyServes env.sort env.copy entries env.options.matchHardlinks)
    (hsmall : ∀ entry ∈ entries, entry.fileSize < 2 ^ 36) : SumsExact env flag entries := by
  refine sumsExact_of_fits fun sizes hashed fast hgrouped => ?_
  have hmost : entryBytes entries ≤ entries.length * (2 ^ 36 - 1) := by
    rw [← List.length_map (f := FileEntry.fileSize)]
    refine List.sum_le_card_nsmul _ _ fun size hsize => ?_
    obtain ⟨entry, hentry, rfl⟩ := List.mem_map.mp hsize
    exact Nat.le_pred_of_lt (hsmall entry hentry)
  have hlength := hadmitted.length_le
  calc groupBytes fast.groups ≤ entryBytes entries := hgrouped.groupBytes_le hcopies
    _ ≤ entries.length * (2 ^ 36 - 1) := hmost
    _ ≤ 2 ^ 28 * (2 ^ 36 - 1) := Nat.mul_le_mul_right _ hlength
    _ < 2 ^ 64 := by decide

/-! ### four sparse files -/

/-- Four files of the largest size there is. -/
def sparseFiles : List FileEntry :=
  [.discovered [97] (2 ^ 63 - 1) 0 1, .discovered [98] (2 ^ 63 - 1) 0 2,
    .discovered [99] (2 ^ 63 - 1) 0 3, .discovered [100] (2 ^ 63 - 1) 0 4]

/-- A run on files that cannot be opened, which all get the same hashes. -/
def unreadableApplication : ApplicationEnvironment .recording :=
  { twoCopies.application scanToFile [] with fast := .unreadable, full := .unreadable }

/-- **The sums wrap** on four sparse files of one group. -/
theorem sums_wrap :
    ¬∀ (env : ApplicationEnvironment .recording) (flag : StopFlag) (entries : List FileEntry),
      Admitted entries → SumsExact env flag entries := by
  intro h
  have hadmitted : Admitted sparseFiles := ⟨by decide, by decide⟩
  have hexact := h unreadableApplication .never sparseFiles hadmitted
  have hsizes : groupingBySize insertionSort memmove (fun _ => true) sparseFiles false =
      some ⟨sparseFiles, [⟨0, 4, 2 ^ 63 - 1⟩], 4, 0⟩ := by decide +kernel
  have hstages : hashStages insertionSort .unlimited 32
      (applicationFastPass unreadableApplication .never)
      (applicationFullPass unreadableApplication .never) sparseFiles [⟨0, 4, 2 ^ 63 - 1⟩] =
    .done ⟨sparseFiles.map fun entry =>
        (FullOutcome.failed Errno.EACCES).apply ((FastOutcome.failed Errno.EACCES).apply entry),
      [⟨0, 4, 2 ^ 63 - 1⟩], 4, 4⟩ := by decide +kernel
  have hwasted := hexact.wastedBytes _ _ hsizes hstages
  have hwrapped : wastedBytes [⟨0, 4, 2 ^ 63 - 1⟩] = 2 ^ 63 - 3 := by decide +kernel
  have hextra : extraBytes [⟨0, 4, 2 ^ 63 - 1⟩] = 3 * (2 ^ 63 - 1) := by decide +kernel
  have hsame : (2 ^ 63 - 3 : Nat) = 3 * (2 ^ 63 - 1) := hwrapped.symm.trans (hwasted.trans hextra)
  exact absurd hsame (by decide)

end BcDuplicate
