import BcDuplicate.Stages.Outcomes
import BcDuplicate.Worker.Content

/-!
# BcDuplicate.Stages.Content

The final groups in terms of file contents, in a run that no signal disturbs
and whose rings work.  Two survivors of the compaction whose own opens and
reads succeed share a final group exactly when they agree in size, in the
reference fast hash and in the reference digest, whatever happens to the
other files (`same_final_group_iff`).
-/

namespace BcDuplicate

open Runs
open Sorting
open Copying
open Updates

/-! ## stages that do not fail -/

section Unlimited

variable (sort : SortFn)

theorem exists_groupingBySize (copy : CopyFn) (entries : List FileEntry) (matchHardlinks : Bool) :
    ∃ sizes, groupingBySize sort copy Pools.unlimited.bySize entries matchHardlinks = some sizes :=
  Option.isSome_iff_exists.mp
    (isSome_groupingBySize (fun _ => rfl) sort copy entries matchHardlinks)

theorem exists_groupingByFastHash (entries : List FileEntry) (groups : List Group) :
    ∃ grouped, groupingByFastHash sort Pools.unlimited.byFastHash entries groups = some grouped :=
  Option.isSome_iff_exists.mp (isSome_refineGroups (fun _ => rfl) _ _)

theorem exists_groupingByFullHash (digestSize : Nat) (entries : List FileEntry)
    (groups : List Group) : ∃ grouped,
      groupingByFullHash sort Pools.unlimited.byFullHash digestSize entries groups = some grouped :=
  Option.isSome_iff_exists.mp (isSome_refineGroups (fun _ => rfl) _ _)

end Unlimited

section Undisturbed

variable {lib : HashLibrary} {sort : SortFn} {digestSize : Nat} {algorithm : Algorithm}
  {fastEnv : FastEnvironment} {fullEnv : FullEnvironment} {forceSingleThread : List Group → Bool}
  {entries : List FileEntry} {sizeGroups : List Group}

/-- With a pool that serves every request, undisturbed passes update their
candidates and the stages come to their end. -/
theorem hashStages_undisturbed (hlib : lib.Resets) (hfast : fastEnv.Undisturbed)
    (hfull : fullEnv.Undisturbed) (hsep : SeparateGroups sizeGroups entries.length) :
    ∃ result, hashStages sort .unlimited digestSize (workerFastPass lib sort fastEnv)
        (dispatchedFullPass lib sort fullEnv algorithm forceSingleThread) entries sizeGroups =
          .done result ∧
      hashStages sort .unlimited digestSize (updatePass (fastUpdate lib fastEnv))
        (updatePass (fullUpdate lib fullEnv algorithm)) entries sizeGroups = .done result := by
  have hsepFast := separate_updated (fastUpdate lib fastEnv) (candidateIndices sizeGroups) hsep
  obtain ⟨grouped, hgrouped⟩ := exists_groupingByFastHash sort
    (updateAt (fastUpdate lib fastEnv) (candidateIndices sizeGroups) entries) sizeGroups
  have hsepFull := (refinedTo_of_refineGroups ordersBy_fastHash hsepFast hgrouped).separate hsepFast
  obtain ⟨final, hfinal⟩ := exists_groupingByFullHash sort digestSize
    (updateAt (fullUpdate lib fullEnv algorithm) (candidateIndices grouped.groups)
      grouped.entries) grouped.groups
  unfold hashStages dispatchedFullPass
  rw [workerFastPass_eq hsep hfast, updatePass]
  dsimp only
  rw [hgrouped]
  dsimp only
  by_cases hsome : grouped.groups.length > 0
  · rw [if_pos hsome, if_pos hsome,
      workerFullPass_eq hlib hfull sort grouped.entries hsepFull, updatePass]
    dsimp only
    rw [hfinal]
    exact ⟨_, rfl, rfl⟩
  · rw [if_neg hsome, if_neg hsome]
    exact ⟨_, rfl, rfl⟩

end Undisturbed

/-! ## what the passes keep -/

theorem fastUpdate_eq (lib : HashLibrary) (env : FastEnvironment) (index : Nat)
    (entry : FileEntry) : fastUpdate lib env index entry =
      (fastOutcome lib (env.view index entry.absolutePath) entry.fileSize).apply entry :=
  workerFastIteration_eq lib _ entry

theorem keeps_file_fastUpdate (lib : HashLibrary) (env : FastEnvironment) :
    Keeps FileEntry.file (fastUpdate lib env) := by
  intro i entry
  rw [fastUpdate_eq]
  cases fastOutcome lib (env.view i entry.absolutePath) entry.fileSize <;> rfl

theorem keeps_file_fullUpdate (lib : HashLibrary) (env : FullEnvironment)
    (algorithm : Algorithm) : Keeps FileEntry.file (fullUpdate lib env algorithm) := by
  intro i entry
  rw [fullUpdate, fullStoreResult_eq_apply]
  cases fullOutcome (servedItem fullConsumerCallback
    (fullBatchItem env algorithm (FullSlot.zeroed lib) 0 i entry)) <;> rfl

theorem keeps_fastHash_fullUpdate (lib : HashLibrary) (env : FullEnvironment)
    (algorithm : Algorithm) : Keeps FileEntry.fastHash (fullUpdate lib env algorithm) := by
  intro i entry
  rw [fullUpdate, fullStoreResult_eq_apply]
  cases fullOutcome (servedItem fullConsumerCallback
    (fullBatchItem env algorithm (FullSlot.zeroed lib) 0 i entry)) <;> rfl

/-! ## readable files -/

/-- None of the file's own opens and reads fails or stops short, and it holds
as many bytes as its recorded size. -/
structure Readable (fastEnv : FastEnvironment) (fullEnv : FullEnvironment) (entry : FileEntry)
    (content : Bytes) : Prop where
  size : content.length = entry.fileSize
  fast : ∀ index, (fastEnv.view index entry.absolutePath).ReadsWhole content
  full : ∀ index, (fullEnv.view index entry.absolutePath).ReadsWhole content

section Readable

variable {lib : HashLibrary} {reference : HashReference} {algorithm : Algorithm}
  {fastEnv : FastEnvironment} {fullEnv : FullEnvironment} {entries : List FileEntry}
  {sizeGroups : List Group} {grouped final : HashGrouping}

/-- Readability depends on the file alone. -/
theorem Readable.of_file {entry entry' : FileEntry} {content : Bytes}
    (h : Readable fastEnv fullEnv entry content) (hfile : entry'.file = entry.file) :
    Readable fastEnv fullEnv entry' content := by
  obtain ⟨hpath, hsize, _⟩ := Prod.mk.inj hfile |>.imp_right Prod.mk.inj
  exact ⟨h.size.trans hsize.symm, fun index => hpath ▸ h.fast index,
    fun index => hpath ▸ h.full index⟩

variable (h : HashStaged (fastUpdate lib fastEnv) (fullUpdate lib fullEnv algorithm)
    (workerDigestSize algorithm) entries sizeGroups grouped final)
  (hsep : SeparateGroups sizeGroups entries.length)
include h hsep

/-- A readable file of a size group has its reference fast hash. -/
theorem fastHash_of_readable {i : Nat} (hi : i < final.entries.length)
    (hgroup : ∃ parent ∈ sizeGroups, parent.Contains i) {content : Bytes}
    (hread : Readable fastEnv fullEnv final.entries[i] content) :
    final.entries[i].fastHash = referenceFastHash lib content := by
  obtain ⟨k, source, hfile, hhash⟩ := h.fast_origin_of_contains hsep
    (keeps_file_fullUpdate lib fullEnv algorithm)
    (keeps_fastHash_fullUpdate lib fullEnv algorithm) hi hgroup
  have hsourceFile := keeps_file_fastUpdate lib fastEnv k source
  have hreadSource := hread.of_file (hfile.trans hsourceFile).symm
  rw [hhash, fastUpdate_eq, ← hreadSource.size,
    fastOutcome_of_readsWhole lib (hreadSource.fast k)]
  rfl

/-- A readable file of a fast-hash group has its reference digest. -/
theorem digest_of_readable (hlib : lib.Streams reference) {i : Nat}
    (hi : i < final.entries.length) (hgroup : ∃ group ∈ grouped.groups, group.Contains i)
    {content : Bytes} (hread : Readable fastEnv fullEnv final.entries[i] content) :
    final.entries[i].digest (workerDigestSize algorithm) =
      referenceDigest reference algorithm content := by
  obtain ⟨k, source, heq⟩ := h.full_origin_of_contains hsep hi hgroup
  have hfile := keeps_file_fullUpdate lib fullEnv algorithm k source
  rw [heq] at hread ⊢
  have hreadSource := hread.of_file hfile.symm
  rw [FileEntry.digest, fullUpdate_of_readsWhole hlib fullEnv algorithm k hreadSource.size
    (hreadSource.full k)]
  exact hlib.take_digestBuffer algorithm content

end Readable

/-! ## the survivors -/

section Survivors

variable {sort : SortFn} {discovered : List FileEntry} {matchHardlinks : Bool}
  {sizes : SizeGrouping} {fast full : Nat → FileEntry → FileEntry} {digestSize : Nat}
  {grouped final : HashGrouping}

/-- An update that keeps the files keeps the list of files. -/
theorem map_file_updateAt {update : Nat → FileEntry → FileEntry}
    (h : Keeps FileEntry.file update) {order : List Nat} (hnodup : order.Nodup)
    (l : List FileEntry) : (updateAt update order l).map FileEntry.file =
      l.map FileEntry.file := by
  apply List.ext_getElem?
  intro i
  rw [List.getElem?_map, List.getElem?_map, getElem?_updateAt _ hnodup]
  split
  · cases l[i]? with
    | none => rfl
    | some entry => exact congrArg some (h i entry)
  · rfl

/-- The stages rearrange the files the size stage leaves. -/
theorem perm_file_final (hsized : SizeGrouped sort discovered matchHardlinks sizes)
    (hstaged : HashStaged fast full digestSize sizes.entries sizes.groups grouped final)
    (hfast : Keeps FileEntry.file fast) (hfull : Keeps FileEntry.file full) :
    (final.entries.map FileEntry.file).Perm (sizes.entries.map FileEntry.file) := by
  refine (hstaged.byFullHash.permWithin.perm.map _).trans ?_
  rw [map_file_updateAt hfull (nodup_candidateIndices (hstaged.separate_grouped hsized.separate))]
  refine (hstaged.byFastHash.permWithin.perm.map _).trans ?_
  rw [map_file_updateAt hfast (nodup_candidateIndices hsized.separate)]

/-- **The front of the final array is the survivors**, rearranged. -/
theorem perm_survivors (hsized : SizeGrouped sort discovered matchHardlinks sizes)
    (hstaged : HashStaged fast full digestSize sizes.entries sizes.groups grouped final)
    (hfast : Keeps FileEntry.file fast) (hfull : Keeps FileEntry.file full) :
    ((final.entries.take (survivingEntries sort discovered matchHardlinks).length).map
        FileEntry.file).Perm
      ((survivingEntries sort discovered matchHardlinks).map FileEntry.file) := by
  have hnodup := nodup_candidateIndices hsized.separate
  have hnodup' := nodup_candidateIndices (hstaged.separate_grouped hsized.separate)
  generalize hcount : (survivingEntries sort discovered matchHardlinks).length = count
  have hperm := perm_file_final hsized hstaged hfast hfull
  -- behind the survivors there are no groups, and nothing moves
  have hbehind : (final.entries.map FileEntry.file).drop count =
      (sizes.entries.map FileEntry.file).drop count := by
    apply List.ext_getElem?
    intro i
    rw [List.getElem?_drop, List.getElem?_drop, List.getElem?_map, List.getElem?_map]
    have hnone : ∀ group ∈ sizes.groups, ¬group.Contains (count + i) := by
      intro group hgroup hcontains
      have hlt := hsized.lt_survivors hgroup hcontains
      omega
    have hnone' : ∀ group ∈ grouped.groups, ¬group.Contains (count + i) := by
      intro group hgroup hcontains
      obtain ⟨parent, hparent, hin⟩ := hstaged.contains_sizeGroup hsized.separate hgroup hcontains
      exact hnone parent hparent hin
    have houtside : ∀ {groups : List Group}, (∀ group ∈ groups, ¬group.Contains (count + i)) →
        ∀ r ∈ groups.map Group.run, ¬r.Contains (count + i) := by
      intro groups hgroups r hr
      obtain ⟨group, hgroup, rfl⟩ := List.mem_map.mp hr
      exact hgroups group hgroup
    have hcandidate : ∀ {groups : List Group}, (∀ group ∈ groups, ¬group.Contains (count + i)) →
        count + i ∉ candidateIndices groups := by
      intro groups hgroups hmem
      obtain ⟨group, hgroup, hcontains⟩ := mem_candidateIndices.mp hmem
      exact hgroups group hgroup hcontains
    rw [hstaged.byFullHash.permWithin.outside _ (houtside hnone'),
      getElem?_updateAt _ hnodup', if_neg (hcandidate hnone'),
      hstaged.byFastHash.permWithin.outside _ (houtside hnone),
      getElem?_updateAt _ hnodup, if_neg (hcandidate hnone)]
  rw [← hsized.take_entries, hcount, List.map_take, List.map_take]
  rw [← List.take_append_drop count (final.entries.map FileEntry.file), hbehind] at hperm
  conv at hperm => rhs; rw [← List.take_append_drop count (sizes.entries.map FileEntry.file)]
  exact (List.perm_append_right_iff _).mp hperm

/-- Sizes stand at every position as the size stage left them. -/
theorem fileSize_final (hsized : SizeGrouped sort discovered matchHardlinks sizes)
    (hstaged : HashStaged fast full digestSize sizes.entries sizes.groups grouped final)
    (hfast : Keeps FileEntry.file fast) (hfull : Keeps FileEntry.file full) {i : Nat}
    (hi : i < final.entries.length) (hi' : i < sizes.entries.length) :
    final.entries[i].fileSize = sizes.entries[i].fileSize := by
  have hsize : ∀ {update : Nat → FileEntry → FileEntry}, Keeps FileEntry.file update →
      Keeps FileEntry.fileSize update := fun h k entry =>
    congrArg (fun file : Bytes × Nat × Nat × Nat => file.2.1) (h k entry)
  refine hstaged.getElem_eq_of_constant hsized.separate (hsize hfast) (hsize hfull) ?_ hi hi'
  intro k i hki hsame hk hi
  exact ((hsized.sameGroup_iff hki hk hi).mp hsame).2.2

/-- **The final groups, by what candidates are left with**: where the entries
of size groups have these fast hashes and those of fast-hash groups these
digests, two positions share a final group exactly when both survived and agree
in size and in both. -/
theorem sameGroup_final_iff_of_values (hsized : SizeGrouped sort discovered matchHardlinks sizes)
    (hstaged : HashStaged fast full digestSize sizes.entries sizes.groups grouped final)
    (hfast : Keeps FileEntry.file fast) (hfull : Keeps FileEntry.file full)
    (hhash : Keeps FileEntry.fastHash full) {i j : Nat} (hij : i ≠ j)
    (hi : i < final.entries.length) (hj : j < final.entries.length)
    {fastI fastJ : UInt64} {digestI digestJ : Bytes}
    (hfastI : (∃ parent ∈ sizes.groups, parent.Contains i) → final.entries[i].fastHash = fastI)
    (hfastJ : (∃ parent ∈ sizes.groups, parent.Contains j) → final.entries[j].fastHash = fastJ)
    (hdigestI : (∃ group ∈ grouped.groups, group.Contains i) →
      final.entries[i].digest digestSize = digestI)
    (hdigestJ : (∃ group ∈ grouped.groups, group.Contains j) →
      final.entries[j].digest digestSize = digestJ) :
    SameGroup final.groups i j ↔
      i < (survivingEntries sort discovered matchHardlinks).length ∧
      j < (survivingEntries sort discovered matchHardlinks).length ∧
      final.entries[i].fileSize = final.entries[j].fileSize ∧ fastI = fastJ ∧
      digestI = digestJ := by
  have hsep := hsized.separate
  have hlen := hstaged.length_final
  have hsizeGroup : SameGroup sizes.groups i j ↔
      i < (survivingEntries sort discovered matchHardlinks).length ∧
      j < (survivingEntries sort discovered matchHardlinks).length ∧
      final.entries[i].fileSize = final.entries[j].fileSize := by
    rw [hsized.sameGroup_iff hij (hlen ▸ hi) (hlen ▸ hj),
      fileSize_final hsized hstaged hfast hfull hi (hlen ▸ hi),
      fileSize_final hsized hstaged hfast hfull hj (hlen ▸ hj)]
  rw [hstaged.sameGroup_iff hsep hhash hij hi hj, hsizeGroup, and_assoc, and_assoc]
  refine and_congr_right fun hsurvivesI => and_congr_right fun hsurvivesJ =>
    and_congr_right fun hsize => ?_
  -- both are candidates of the fast pass
  obtain ⟨parent, hparent, hcontainsI, hcontainsJ⟩ :=
    hsizeGroup.mpr ⟨hsurvivesI, hsurvivesJ, hsize⟩
  have hgrouped := hstaged.sameGroup_grouped_iff hsep hhash hij hi hj
  rw [hfastI ⟨parent, hparent, hcontainsI⟩, hfastJ ⟨parent, hparent, hcontainsJ⟩] at hgrouped ⊢
  refine and_congr_right fun hequal => ?_
  -- and, with equal fast hashes, of the full pass
  obtain ⟨group, hgroup, hgroupI, hgroupJ⟩ :=
    hgrouped.mpr ⟨⟨parent, hparent, hcontainsI, hcontainsJ⟩, hequal⟩
  rw [hdigestI ⟨group, hgroup, hgroupI⟩, hdigestJ ⟨group, hgroup, hgroupJ⟩]

end Survivors

/-! ## readable survivors -/

/-- Two readable survivors share a final group exactly when they agree in
size, fast hash and digest. -/
theorem sameGroup_final_iff_of_readable {lib : HashLibrary} {reference : HashReference}
    (hlib : lib.Streams reference) {sort : SortFn} {algorithm : Algorithm}
    {fastEnv : FastEnvironment} {fullEnv : FullEnvironment} {discovered : List FileEntry}
    {matchHardlinks : Bool} {sizes : SizeGrouping} {grouped final : HashGrouping}
    (hsized : SizeGrouped sort discovered matchHardlinks sizes)
    (hstaged : HashStaged (fastUpdate lib fastEnv) (fullUpdate lib fullEnv algorithm)
      (workerDigestSize algorithm) sizes.entries sizes.groups grouped final)
    {i j : Nat} (hij : i ≠ j) (hi : i < final.entries.length) (hj : j < final.entries.length)
    (hsurvivesI : i < (survivingEntries sort discovered matchHardlinks).length)
    (hsurvivesJ : j < (survivingEntries sort discovered matchHardlinks).length)
    {contentI contentJ : Bytes} (hreadI : Readable fastEnv fullEnv final.entries[i] contentI)
    (hreadJ : Readable fastEnv fullEnv final.entries[j] contentJ) :
    SameGroup final.groups i j ↔ final.entries[i].fileSize = final.entries[j].fileSize ∧
      referenceFastHash lib contentI = referenceFastHash lib contentJ ∧
      referenceDigest reference algorithm contentI =
        referenceDigest reference algorithm contentJ := by
  have hsep := hsized.separate
  rw [sameGroup_final_iff_of_values hsized hstaged (keeps_file_fastUpdate lib fastEnv)
    (keeps_file_fullUpdate lib fullEnv algorithm)
    (keeps_fastHash_fullUpdate lib fullEnv algorithm) hij hi hj
    (fun hgroup => fastHash_of_readable hstaged hsep hi hgroup hreadI)
    (fun hgroup => fastHash_of_readable hstaged hsep hj hgroup hreadJ)
    (fun hgroup => digest_of_readable hstaged hsep hlib hi hgroup hreadI)
    (fun hgroup => digest_of_readable hstaged hsep hlib hj hgroup hreadJ)]
  exact ⟨fun h => h.2.2, fun h => ⟨hsurvivesI, hsurvivesJ, h⟩⟩

/-! ## duplicates -/

/-- **Duplicates are files with equal contents.**  In an undisturbed run whose
copies serve the compaction, two readable survivors share a final group exactly
when they agree in size, fast hash and digest, and so, where the digest tells
their contents apart, exactly when their contents are equal.  No position
belongs to two final groups. -/
theorem same_final_group_iff {lib : HashLibrary} {reference : HashReference}
    (hlib : lib.Streams reference) (sort : SortFn) (copy : CopyFn) (algorithm : Algorithm)
    (fastEnv : FastEnvironment) (hfast : fastEnv.Undisturbed) (fullEnv : FullEnvironment)
    (hfull : fullEnv.Undisturbed) (forceSingleThread : List Group → Bool) (matchHardlinks : Bool)
    (discovered : List FileEntry) (hcopies : CopyServes sort copy discovered matchHardlinks) :
    ∃ (sizes : SizeGrouping) (result : Duplicates),
      groupingBySize sort copy Pools.unlimited.bySize discovered matchHardlinks = some sizes ∧
      hashStages sort .unlimited (workerDigestSize algorithm) (workerFastPass lib sort fastEnv)
        (dispatchedFullPass lib sort fullEnv algorithm forceSingleThread) sizes.entries
          sizes.groups = .done result ∧
      ((result.entries.take (survivingEntries sort discovered matchHardlinks).length).map
          FileEntry.file).Perm
        ((survivingEntries sort discovered matchHardlinks).map FileEntry.file) ∧
      (∀ (i j : Nat) (entryI entryJ : FileEntry) (contentI contentJ : Bytes), i ≠ j →
        i < (survivingEntries sort discovered matchHardlinks).length →
        j < (survivingEntries sort discovered matchHardlinks).length →
        result.entries[i]? = some entryI → result.entries[j]? = some entryJ →
        Readable fastEnv fullEnv entryI contentI → Readable fastEnv fullEnv entryJ contentJ →
        (SameGroup result.groups i j ↔ entryI.fileSize = entryJ.fileSize ∧
          referenceFastHash lib contentI = referenceFastHash lib contentJ ∧
          referenceDigest reference algorithm contentI =
            referenceDigest reference algorithm contentJ) ∧
        ((referenceDigest reference algorithm contentI =
            referenceDigest reference algorithm contentJ → contentI = contentJ) →
          (SameGroup result.groups i j ↔ contentI = contentJ))) ∧
      ∀ (a b i : Nat) (groupA groupB : Group), result.groups[a]? = some groupA →
        result.groups[b]? = some groupB → groupA.Contains i → groupB.Contains i → a = b := by
  obtain ⟨sizes, hsizes⟩ := exists_groupingBySize sort copy discovered matchHardlinks
  have hsized := sizeGrouped_of_groupingBySize hcopies hsizes
  have hsep := hsized.separate
  obtain ⟨result, hdone, hupdates⟩ := @hashStages_undisturbed lib sort
    (workerDigestSize algorithm) algorithm fastEnv fullEnv forceSingleThread sizes.entries
    sizes.groups hlib.resets hfast hfull hsep
  obtain ⟨grouped, final, _, hstaged, hentries, hgroups⟩ := hashStaged_of_done hsep hupdates
  refine ⟨sizes, result, hsizes, hdone, ?_, ?_, ?_⟩
  · rw [hentries]
    exact perm_survivors hsized hstaged (keeps_file_fastUpdate lib fastEnv)
      (keeps_file_fullUpdate lib fullEnv algorithm)
  · intro i j entryI entryJ contentI contentJ hij hsurvivesI hsurvivesJ hentryI hentryJ hreadI
      hreadJ
    rw [hentries] at hentryI hentryJ
    rw [hgroups]
    obtain ⟨hi, rfl⟩ := List.getElem?_eq_some_iff.mp hentryI
    obtain ⟨hj, rfl⟩ := List.getElem?_eq_some_iff.mp hentryJ
    have hiff := sameGroup_final_iff_of_readable hlib hsized hstaged hij hi hj hsurvivesI hsurvivesJ
      hreadI hreadJ
    refine ⟨hiff, fun hinjective => hiff.trans ⟨fun h => hinjective h.2.2, ?_⟩⟩
    rintro rfl
    exact ⟨by rw [← hreadI.size, ← hreadJ.size], rfl, rfl⟩
  · intro a b i groupA groupB ha hb hcontainsA hcontainsB
    rw [hgroups] at ha hb
    exact (hstaged.separate_final hsep).eq_of_contains ha hb hcontainsA hcontainsB

/-! ### two files with one content -/

/-- Every file holds the first byte of its path. -/
def FastEnvironment.initials : FastEnvironment :=
  { FastEnvironment.plain .sequential with
    view := fun _ path => ⟨path.take 1, none, none, .whole fastHashBlockSize,
      .whole fastHashBlockSize⟩ }

/-- Every file holds the first byte of its path. -/
def FullEnvironment.initials : FullEnvironment :=
  { FullEnvironment.plain .sequential with view := fun _ path => .plain (path.take 1) }

theorem readable_initials {entry : FileEntry} (hpath : entry.absolutePath ≠ [])
    (hsize : entry.fileSize = 1) :
    Readable .initials .initials entry (entry.absolutePath.take 1) := by
  have hlen : (entry.absolutePath.take 1).length = 1 := by
    rw [List.length_take]
    have := List.length_pos_iff.mpr hpath
    omega
  refine ⟨hlen.trans hsize.symm, fun _ => ⟨rfl, rfl, ⟨_, rfl, ?_⟩, ⟨_, rfl, ?_⟩⟩,
    fun _ => ⟨rfl, rfl, nofun, trivial, rfl, ⟨_, rfl, ?_⟩, ⟨_, rfl⟩⟩⟩
  · rw [hlen]; decide
  · rw [hlen]; decide
  · rw [hlen]; decide

/-- Two files that hold one byte. -/
def twoSmallFiles : List FileEntry := [.discovered [65, 1] 1 0 1, .discovered [65, 2] 1 0 2]

theorem FullEnvironment.undisturbed_initials : FullEnvironment.initials.Undisturbed :=
  ⟨⟨fun _ => rfl, fun _ => rfl, fun _ => rfl, rfl, rfl, rfl⟩, fun _ _ => works_inOrder⟩

/-- The stages on these files. -/
def initialsStages (entries : List FileEntry) (sizeGroups : List Group) : StagesResult :=
  hashStages insertionSort .unlimited (workerDigestSize .sha256)
    (workerFastPass .recording insertionSort .initials)
    (dispatchedFullPass .recording insertionSort .initials .sha256 fun _ => false) entries sizeGroups

theorem same_final_group_iff_initials : ∃ sizes result,
    groupingBySize insertionSort memmove Pools.unlimited.bySize twoSmallFiles false = some sizes ∧
    initialsStages sizes.entries sizes.groups = .done result ∧ SameGroup result.groups 0 1 := by
  obtain ⟨sizes, result, hsizes, hdone, _, hsame, _⟩ := same_final_group_iff streams_recording
    insertionSort memmove .sha256 .initials ⟨fun _ => rfl, rfl, rfl⟩ .initials
    FullEnvironment.undisturbed_initials (fun _ => false) false twoSmallFiles
    (Or.inl moves_memmove)
  refine ⟨sizes, result, hsizes, hdone, ?_⟩
  have hrun : groupingBySize insertionSort memmove Pools.unlimited.bySize twoSmallFiles false =
      some ⟨twoSmallFiles, [⟨0, 2, 1⟩], 2, 0⟩ := by decide +kernel
  cases hsizes.symm.trans hrun
  have hresult : (match initialsStages twoSmallFiles [⟨0, 2, 1⟩] with
      | .done result => result.entries.map FileEntry.file
      | _ => []) = twoSmallFiles.map FileEntry.file := by decide +kernel
  have hstages : initialsStages twoSmallFiles [⟨0, 2, 1⟩] = .done result := hdone
  rw [hstages] at hresult
  obtain ⟨first, rest, hentries, hfirst, hrest⟩ := List.map_eq_cons_iff.mp hresult
  obtain ⟨second, last, rfl, hsecond, _⟩ := List.map_eq_cons_iff.mp hrest
  have hsurvivors : (survivingEntries insertionSort twoSmallFiles false).length = 2 := by
    decide +kernel
  have hread : ∀ {entry : FileEntry} {path : Bytes} {inode : Nat},
      entry.file = (65 :: path, 1, 0, inode) → Readable .initials .initials entry [65] := by
    intro entry path inode hfile
    obtain ⟨hpath, hsize, _⟩ := Prod.mk.inj hfile |>.imp_right Prod.mk.inj
    have := readable_initials (by rw [hpath]; exact List.cons_ne_nil _ _) hsize
    rwa [hpath] at this
  refine ((hsame 0 1 first second [65] [65] (by decide) (by rw [hsurvivors]; decide)
    (by rw [hsurvivors]; decide) (by rw [hentries]; rfl) (by rw [hentries]; rfl) (hread hfirst)
    (hread hsecond)).2 fun _ => rfl).mpr rfl

end BcDuplicate
