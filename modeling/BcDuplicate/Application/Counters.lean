import BcDuplicate.Application.Reported
import BcDuplicate.Stages.Places

/-!
# BcDuplicate.Application.Counters

The counters of a run.  Some are sums of group lengths, others are what a pass
reports about the groups it was given; what relates them is that the groups of
each stage lie inside those of the stage before (`NestedIn`) and do not
overlap, so that there are no more positions in them.
-/

namespace BcDuplicate

open Runs
open Sorting
open Copying
open Updates

/-! ## nested groups -/

/-- The range of the group lies in that of the parent. -/
def Group.Inside (group parent : Group) : Prop :=
  parent.startIndex ≤ group.startIndex ∧
    group.startIndex + group.entryCount ≤ parent.startIndex + parent.entryCount

theorem Group.Inside.contains {group parent : Group} (h : group.Inside parent) {i : Nat}
    (hi : group.Contains i) : parent.Contains i := by
  simp only [Group.Inside, Group.Contains, Group.run, Run.Contains] at h hi ⊢
  omega

theorem Group.contains_startIndex {group : Group} (htwo : 2 ≤ group.entryCount) :
    group.Contains group.startIndex := by
  simp only [Group.Contains, Group.run, Run.Contains]
  omega

/-- A file is in the group. -/
def Group.Holds (entries : List FileEntry) (group : Group) (file : Bytes × Nat × Nat × Nat) :
    Prop :=
  ∃ i, group.Contains i ∧ (entries[i]?).map FileEntry.file = some file

/-- Every group of a stage lies in exactly one group of the stage before,
which has its size and held its files. -/
def NestedIn (entries : List FileEntry) (groups : List Group) (entries' : List FileEntry)
    (groups' : List Group) : Prop :=
  ∀ group ∈ groups, ∃ parent ∈ groups', group.Inside parent ∧
    group.fileSize = parent.fileSize ∧
    (∀ file, group.Holds entries file → parent.Holds entries' file) ∧
    ∀ other ∈ groups', group.Inside other → other = parent

theorem SeparateGroups.parent_unique {groups : List Group} {n : Nat}
    (h : SeparateGroups groups n) {parent other : Group} (hparent : parent ∈ groups)
    (hother : other ∈ groups) {i : Nat} (hi : parent.Contains i) (hi' : other.Contains i) :
    other = parent := by
  obtain ⟨a, ha⟩ := List.mem_iff_getElem?.mp hparent
  obtain ⟨b, hb⟩ := List.mem_iff_getElem?.mp hother
  have hab := h.eq_of_contains ha hb hi hi'
  rw [hab, hb] at ha
  exact Option.some.inj ha

/-- **A hash stage nests its groups** in those it was given, whose files a pass
may have updated before. -/
theorem RefinedTo.nestedIn {κ : Type} [DecidableEq κ] {key : FileEntry → κ}
    {groups : List Group} {entries : List FileEntry} {update : Nat → FileEntry → FileEntry}
    {result : HashGrouping} (hsep : SeparateGroups groups entries.length)
    (hkeeps : Keeps FileEntry.file update)
    (h : RefinedTo key groups (updateAt update (candidateIndices groups) entries) result) :
    NestedIn result.entries result.groups entries groups := by
  have hsep' := separate_updated update (candidateIndices groups) hsep
  intro group hgroup
  have htwo := h.two_le_entryCount hgroup
  obtain ⟨parent, hparent, r, hr, rfl⟩ := h.exists_parent hgroup
  have hbounds := h.bounds_of_mem hsep' hparent hr
  have hinside : Group.Inside ⟨r.start, r.length, parent.fileSize⟩ parent :=
    ⟨hbounds.1, hbounds.2.1⟩
  refine ⟨parent, hparent, hinside, rfl, ?_, ?_⟩
  · rintro file ⟨i, hi, hfile⟩
    obtain ⟨entry, hentry, rfl⟩ := Option.map_eq_some_iff.mp hfile
    obtain ⟨hlt, rfl⟩ := List.getElem?_eq_some_iff.mp hentry
    obtain ⟨k, hk, heq, horigin⟩ := h.exists_origin hsep' hlt
    have hcontains : parent.Contains k := by
      rcases horigin with rfl | ⟨source, hsource, hsourceK, hsourceI⟩
      · exact hinside.contains hi
      · rw [hsep.parent_unique hparent hsource (hinside.contains hi) hsourceI] at hsourceK
        exact hsourceK
    have hk' : k < entries.length := by rwa [length_updateAt] at hk
    refine ⟨k, hcontains, ?_⟩
    rw [List.getElem?_eq_getElem hk', Option.map_some, ← heq,
      hkeeps.getElem_updateAt (nodup_candidateIndices hsep) hk hk']
  · intro other hother hin
    have hstart := Group.contains_startIndex htwo
    exact hsep.parent_unique hparent hother (hinside.contains hstart) (hin.contains hstart)

/-! ## counting positions -/

/-- Groups that do not overlap and whose positions are among others have no
more entries. -/
theorem totalCandidates_le_length {groups : List Group} {n : Nat} (hsep : SeparateGroups groups n)
    {positions : List Nat} (hsub : ∀ i ∈ candidateIndices groups, i ∈ positions) :
    totalCandidates groups ≤ positions.length := by
  rw [← length_candidateIndices]
  exact (List.subperm_of_subset (nodup_candidateIndices hsep) hsub).length_le

theorem NestedIn.totalCandidates_le {entries entries' : List FileEntry}
    {groups groups' : List Group} {n : Nat} (h : NestedIn entries groups entries' groups')
    (hsep : SeparateGroups groups n) : totalCandidates groups ≤ totalCandidates groups' := by
  rw [← length_candidateIndices groups']
  refine totalCandidates_le_length hsep fun i hi => ?_
  obtain ⟨group, hgroup, hcontains⟩ := mem_candidateIndices.mp hi
  obtain ⟨parent, hparent, hinside, _⟩ := h group hgroup
  exact mem_candidateIndices.mpr ⟨parent, hparent, hinside.contains hcontains⟩

/-- The size groups lie in the surviving part of the array. -/
theorem SizeScanned.totalCandidates_le {entries : List FileEntry} {sizes : SizeGrouping}
    (h : SizeScanned entries sizes) :
    totalCandidates sizes.groups ≤ entries.length - sizes.hardlinksCollapsed := by
  have hsurvive : ∀ i ∈ candidateIndices sizes.groups,
      i ∈ List.range sizes.surviving.length := by
    intro i hi
    obtain ⟨group, hgroup, hcontains⟩ := mem_candidateIndices.mp hi
    exact List.mem_range.mpr (h.lt_surviving hgroup hcontains)
  have hpositions := totalCandidates_le_length h.separate hsurvive
  rwa [List.length_range, h.length_surviving] at hpositions

theorem foldl_add_eq (count : Group → Nat) (groups : List Group) (start : Nat) :
    groups.foldl (fun total group => total + count group) start =
      start + (groups.map count).sum := by
  induction groups generalizing start with
  | nil => rfl
  | cons group groups ih =>
    rw [List.foldl_cons, ih, List.map_cons, List.sum_cons, Nat.add_assoc]

theorem fullPassFileCount_eq (groups : List Group) :
    fullPassFileCount groups = totalCandidates groups := by
  rw [fullPassFileCount, foldl_add_eq, Nat.zero_add, totalCandidates]

/-- One file of each group is kept, the others are duplicates. -/
theorem totalCandidates_eq {groups : List Group} (htwo : ∀ group ∈ groups, 2 ≤ group.entryCount) :
    totalCandidates groups = duplicateFileCount groups + groups.length := by
  rw [duplicateFileCount, foldl_add_eq, Nat.zero_add, totalCandidates]
  induction groups with
  | nil => rfl
  | cons group groups ih =>
    obtain ⟨hfirst, hlater⟩ := List.forall_mem_cons.mp htwo
    have hrest := ih hlater
    rw [List.map_cons, List.sum_cons, List.map_cons, List.sum_cons, List.length_cons]
    omega

theorem two_mul_length_le {groups : List Group} (htwo : ∀ group ∈ groups, 2 ≤ group.entryCount) :
    2 * groups.length ≤ totalCandidates groups := by
  rw [totalCandidates]
  induction groups with
  | nil => exact Nat.le_refl 0
  | cons group groups ih =>
    obtain ⟨hfirst, hlater⟩ := List.forall_mem_cons.mp htwo
    have hrest := ih hlater
    rw [List.map_cons, List.sum_cons, List.length_cons]
    omega

/-! ## the run -/

/-- The counters of a run over `entryCount` files, and the groups they count. -/
structure CountersAgree (entryCount : Nat) (statistics : Statistics) (sizes : SizeGrouping)
    (fast : HashGrouping) (duplicates : Duplicates) : Prop where
  hardlinksCollapsed_le : statistics.hardlinksCollapsed ≤ entryCount
  sizeCandidateCount_le : statistics.sizeCandidateCount ≤
    entryCount - statistics.hardlinksCollapsed
  filesHashedFast_eq : statistics.filesHashedFast = statistics.sizeCandidateCount
  candidateCount_le : fast.candidateCount ≤ statistics.filesHashedFast
  fullPassFileCount_eq : fullPassFileCount fast.groups = fast.candidateCount
  filesHashedFull_eq : statistics.filesHashedFull = fullPassFileCount fast.groups
  entryCounts_le : totalCandidates duplicates.groups ≤ statistics.filesHashedFull
  entryCounts_eq : totalCandidates duplicates.groups =
    statistics.duplicateFileCount + statistics.duplicateGroupCount
  groupCount_le : 2 * statistics.duplicateGroupCount ≤ totalCandidates duplicates.groups
  two_le : ∀ group ∈ duplicates.groups, 2 ≤ group.entryCount
  finalNested : NestedIn duplicates.entries duplicates.groups fast.entries fast.groups
  fastNested : NestedIn fast.entries fast.groups sizes.entries sizes.groups

/-- **The counters of a run agree** with each other and with the groups of its
stages. -/
theorem counters_agree {lib : HashLibrary} (env : ApplicationEnvironment lib) (flag : StopFlag)
    (entries : List FileEntry) (sizes : SizeGrouping) (duplicates : Duplicates)
    (hsizes : groupingBySize env.sort env.copy env.pools.bySize entries env.options.matchHardlinks =
      some sizes)
    (hstages : hashStages env.sort env.pools (workerDigestSize env.options.algorithm)
      (applicationFastPass env flag) (applicationFullPass env flag) sizes.entries sizes.groups =
        .done duplicates) :
    ∃ hashed fast,
      applicationFastPass env flag sizes.entries sizes.groups =
        .done hashed duplicates.filesHashedFast ∧
      groupingByFastHash env.sort env.pools.byFastHash hashed sizes.groups = some fast ∧
      CountersAgree entries.length (applicationStatistics env entries.length sizes duplicates)
        sizes fast duplicates := by
  have hsized := sizeScanned_of_groupingBySize hsizes
  have hsep := hsized.separate
  obtain ⟨hashed, fast, rehashed, full, hfastPass, hfast, hfullPass, hfull, hentries, hgroups⟩ :=
    (hashStages_eq_done fun _ => rfl).mp hstages
  -- the fast pass and the fast-hash groups
  obtain ⟨fastOutcomes, hupdated⟩ := workerFastPass_outcomes hsep hfastPass
  obtain ⟨hhashed, hcountFast⟩ := PassResult.done.inj hupdated
  rw [← hhashed] at hfast
  obtain ⟨hrefinedFast, hsepFast⟩ := refined_of_updated ordersBy_fastHash _ hsep hfast
  have hnestedFast := hrefinedFast.nestedIn hsep (keeps_file_fast fastOutcomes)
  -- the full pass and the final groups
  obtain ⟨fullOutcomes, hupdated⟩ := workerFullPass_outcomes hsepFast hfullPass
  obtain ⟨hrehashed, hcountFull⟩ := PassResult.done.inj hupdated
  rw [← hrehashed] at hfull
  obtain ⟨hrefinedFull, hsepFull⟩ := refined_of_updated (ordersBy_digest _) _ hsepFast hfull
  have hnestedFull := hrefinedFull.nestedIn hsepFast (keeps_file_full fullOutcomes)
  have htwo : ∀ group ∈ duplicates.groups, 2 ≤ group.entryCount := fun group hgroup =>
    hrefinedFull.two_le_entryCount (hgroups ▸ hgroup)
  refine ⟨hashed, fast, hfastPass, by rw [← hhashed]; exact hfast, ?_⟩
  exact {
    hardlinksCollapsed_le := by
      change sizes.hardlinksCollapsed ≤ entries.length
      exact hsized.hardlinksCollapsed_le
    sizeCandidateCount_le := by
      change sizes.candidateCount ≤ entries.length - sizes.hardlinksCollapsed
      rw [hsized.candidateCount_eq]
      exact hsized.totalCandidates_le
    filesHashedFast_eq := by
      change duplicates.filesHashedFast = sizes.candidateCount
      rw [hsized.candidateCount_eq, ← hcountFast]
      rfl
    candidateCount_le := by
      change fast.candidateCount ≤ duplicates.filesHashedFast
      rw [hrefinedFast.candidateCount_eq, ← hcountFast]
      exact hnestedFast.totalCandidates_le hsepFast
    fullPassFileCount_eq := by
      rw [fullPassFileCount_eq, hrefinedFast.candidateCount_eq]
      rfl
    filesHashedFull_eq := by
      change duplicates.filesHashedFull = fullPassFileCount fast.groups
      rw [fullPassFileCount_eq, hcountFull]
    entryCounts_le := by
      change totalCandidates duplicates.groups ≤ duplicates.filesHashedFull
      rw [← hcountFull, hgroups]
      exact hnestedFull.totalCandidates_le hsepFull
    entryCounts_eq := totalCandidates_eq htwo
    groupCount_le := two_mul_length_le htwo
    two_le := htwo
    finalNested := by
      rw [hentries, hgroups]
      exact hnestedFull
    fastNested := hnestedFast }

/-- Two copies and a file of another content, all of one size. -/
def threeFiles : List FileEntry :=
  [.discovered [97] 1 0 1, .discovered [97, 98] 1 0 2, .discovered [98] 1 0 3]

theorem counters_agree_threeFiles : ∃ duplicates fast,
    CountersAgree 3 (applicationStatistics (twoCopies.application scanToFile []) 3
      ⟨threeFiles, [⟨0, 3, 1⟩], 3, 0⟩ duplicates) ⟨threeFiles, [⟨0, 3, 1⟩], 3, 0⟩ fast
      duplicates := by
  have hsizes : groupingBySize insertionSort memmove (fun _ => true) threeFiles false =
      some ⟨threeFiles, [⟨0, 3, 1⟩], 3, 0⟩ := by decide +kernel
  have hend : hashStages insertionSort .unlimited 32
      (applicationFastPass (twoCopies.application scanToFile []) .never)
      (applicationFullPass (twoCopies.application scanToFile []) .never) threeFiles
      [⟨0, 3, 1⟩] ∉ [.failed, .blocked] := by decide +kernel
  cases hstages : hashStages insertionSort .unlimited 32
      (applicationFastPass (twoCopies.application scanToFile []) .never)
      (applicationFullPass (twoCopies.application scanToFile []) .never) threeFiles
      [⟨0, 3, 1⟩] with
  | failed => exact absurd (hstages ▸ List.mem_cons_self) hend
  | blocked => exact absurd (hstages ▸ List.mem_cons_of_mem _ List.mem_cons_self) hend
  | done duplicates =>
    obtain ⟨_, fast, _, _, hagree⟩ := counters_agree (twoCopies.application scanToFile []) .never
      threeFiles ⟨threeFiles, [⟨0, 3, 1⟩], 3, 0⟩ duplicates hsizes hstages
    exact ⟨duplicates, fast, hagree⟩

end BcDuplicate
