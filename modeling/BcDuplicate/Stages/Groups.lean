import BcDuplicate.Stages
import BcDuplicate.Worker.Candidates
import BcDuplicate.Grouping.BySize

/-!
# BcDuplicate.Stages.Groups

The final groups when each pass does one thing to each of its candidates
(`updatePass`).  Both groupings rearrange entries inside the groups of the
stage before only, so sizes and fast hashes stand at every position as they
did, and two positions share a final group exactly when they share a size
group and their entries agree in the fast hash and in the digest
(`HashStaged.sameGroup_iff`).
-/

namespace BcDuplicate

open Runs
open Sorting
open Updates

/-- The stages that end, one after the other.  Without a fast-hash group the
full pass is skipped; it would have done nothing. -/
theorem hashStages_eq_done {sort : SortFn} {pools : Pools} {digestSize : Nat}
    {fastPass fullPass : Pass} (hskip : ∀ entries, fullPass entries [] = .done entries 0)
    {entries : List FileEntry} {sizeGroups : List Group} {duplicates : Duplicates} :
    hashStages sort pools digestSize fastPass fullPass entries sizeGroups = .done duplicates ↔
      ∃ hashed fast rehashed full,
        fastPass entries sizeGroups = .done hashed duplicates.filesHashedFast ∧
        groupingByFastHash sort pools.byFastHash hashed sizeGroups = some fast ∧
        fullPass fast.entries fast.groups = .done rehashed duplicates.filesHashedFull ∧
        groupingByFullHash sort pools.byFullHash digestSize rehashed fast.groups = some full ∧
        duplicates.entries = full.entries ∧ duplicates.groups = full.groups := by
  have hnil : ∀ {groups : List Group}, ¬groups.length > 0 → groups = [] := fun hnone =>
    List.length_eq_zero_iff.mp (Nat.le_zero.mp (Nat.not_lt.mp hnone))
  constructor
  · intro h
    unfold hashStages at h
    split at h
    · cases h
    · cases h
    · next hashed filesHashedFast hfastPass =>
      split at h
      · cases h
      · next fast hfast =>
        split at h
        · split at h
          · cases h
          · cases h
          · next rehashed filesHashedFull hfullPass =>
            split at h
            · cases h
            · next full hfull =>
              cases h
              exact ⟨hashed, fast, rehashed, full, hfastPass, hfast, hfullPass, hfull, rfl, rfl⟩
        · next hnone =>
          cases h
          refine ⟨hashed, fast, fast.entries, ⟨fast.entries, [], 0⟩, hfastPass, hfast, ?_, ?_,
            rfl, rfl⟩
          · rw [hnil hnone]
            exact hskip fast.entries
          · rw [hnil hnone]
            rfl
  · rintro ⟨hashed, fast, rehashed, full, hfastPass, hfast, hfullPass, hfull, hentries, hgroups⟩
    obtain ⟨entries', groups', countFast, countFull⟩ := duplicates
    dsimp only at hfastPass hfullPass hentries hgroups
    unfold hashStages
    rw [hfastPass, hentries, hgroups]
    dsimp only
    rw [hfast]
    dsimp only
    split
    · rw [hfullPass]
      dsimp only
      rw [hfull]
    · next hnone =>
      rw [hnil hnone, hskip] at hfullPass
      rw [hnil hnone] at hfull
      cases hfullPass
      cases hfull
      rfl

/-- What the stages leave, with the array and the groups between the two
passes. -/
structure HashStaged (fast full : Nat → FileEntry → FileEntry) (digestSize : Nat)
    (entries : List FileEntry) (sizeGroups : List Group) (grouped final : HashGrouping) :
    Prop where
  byFastHash : RefinedTo FileEntry.fastHash sizeGroups
    (updateAt fast (candidateIndices sizeGroups) entries) grouped
  byFullHash : RefinedTo (FileEntry.digest digestSize) grouped.groups
    (updateAt full (candidateIndices grouped.groups) grouped.entries) final

section Staged

variable {sort : SortFn} {pools : Pools} {digestSize : Nat} {fast full : Nat → FileEntry → FileEntry}
  {entries : List FileEntry} {sizeGroups : List Group} {result : Duplicates}

theorem separate_updated {groups : List Group} (update : Nat → FileEntry → FileEntry)
    (order : List Nat) (hsep : SeparateGroups groups entries.length) :
    SeparateGroups groups (updateAt update order entries).length := by
  rwa [length_updateAt]

/-- A pass over separate groups and the grouping behind it refine the groups
and leave them separate. -/
theorem refined_of_updated {κ : Type} [DecidableEq κ] {key : FileEntry → κ}
    {lessThan : FileEntry → FileEntry → Bool} (hkey : OrdersBy lessThan key)
    {allocates : Nat → Bool} {groups : List Group}
    (update : Nat → FileEntry → FileEntry) (hsep : SeparateGroups groups entries.length)
    {grouped : HashGrouping}
    (h : refineGroups sort allocates lessThan key
      (updateAt update (candidateIndices groups) entries) groups = some grouped) :
    RefinedTo key groups (updateAt update (candidateIndices groups) entries) grouped ∧
      SeparateGroups grouped.groups grouped.entries.length := by
  have hsep' := separate_updated update (candidateIndices groups) hsep
  have hrefined := refinedTo_of_refineGroups hkey hsep' h
  exact ⟨hrefined, hrefined.separate hsep'⟩

/-- **Stages that succeed** leave the groups of the two groupings. -/
theorem hashStaged_of_done (hsep : SeparateGroups sizeGroups entries.length)
    (h : hashStages sort pools digestSize (updatePass fast) (updatePass full) entries sizeGroups =
      .done result) :
    ∃ grouped final, groupingByFastHash sort pools.byFastHash
        (updateAt fast (candidateIndices sizeGroups) entries) sizeGroups = some grouped ∧
      HashStaged fast full digestSize entries sizeGroups grouped final ∧
      result.entries = final.entries ∧ result.groups = final.groups := by
  obtain ⟨_, grouped, _, final, hfastPass, hgrouped, hfullPass, hfinal, hentries, hgroups⟩ :=
    (hashStages_eq_done fun _ => rfl).mp h
  obtain ⟨rfl, _⟩ := PassResult.done.inj hfastPass
  obtain ⟨rfl, _⟩ := PassResult.done.inj hfullPass
  obtain ⟨hfast, hsepFast⟩ := refined_of_updated ordersBy_fastHash fast hsep hgrouped
  obtain ⟨hfull, _⟩ := refined_of_updated (ordersBy_digest digestSize) full hsepFast hfinal
  exact ⟨grouped, final, hgrouped, ⟨hfast, hfull⟩, hentries, hgroups⟩

end Staged

/-! ## moving inside a group -/

namespace RefinedTo

variable {κ : Type} [DecidableEq κ] {key : FileEntry → κ} {groups : List Group}
  {entries : List FileEntry} {result : HashGrouping}

/-- The entry at a position was there before, or elsewhere in its group. -/
theorem exists_origin (h : RefinedTo key groups entries result)
    (hsep : SeparateGroups groups entries.length) {i : Nat} (hi : i < result.entries.length) :
    ∃ k, ∃ hk : k < entries.length, entries[k] = result.entries[i] ∧
      (k = i ∨ SameGroup groups k i) := by
  by_cases hgroup : ∃ g ∈ groups, g.Contains i
  · obtain ⟨g, hg, hgi⟩ := hgroup
    obtain ⟨k, hk, hgk, heq⟩ := h.permWithin.exists_source (List.mem_map_of_mem hg)
      (hsep.inBounds _ (List.mem_map_of_mem hg)) hgi hi
    exact ⟨k, hk, heq, Or.inr ⟨g, hg, hgk, hgi⟩⟩
  · have hsame := h.permWithin.outside i (by
      intro r hr hri
      obtain ⟨g, hg, rfl⟩ := List.mem_map.mp hr
      exact hgroup ⟨g, hg, hri⟩)
    have hk : i < entries.length := h.length_entries ▸ hi
    rw [List.getElem?_eq_getElem hi, List.getElem?_eq_getElem hk, Option.some.injEq] at hsame
    exact ⟨i, hk, hsame.symm, Or.inl rfl⟩

/-- What is the same for all entries of a group stands where it stood. -/
theorem getElem_eq_of_constant {β : Type} (f : FileEntry → β)
    (h : RefinedTo key groups entries result) (hsep : SeparateGroups groups entries.length)
    (hconstant : ∀ k i, k ≠ i → SameGroup groups k i → ∀ (hk : k < entries.length)
      (hi : i < entries.length), f entries[k] = f entries[i])
    {i : Nat} (hi : i < result.entries.length) (hi' : i < entries.length) :
    f result.entries[i] = f entries[i] := by
  obtain ⟨k, hk, heq, horigin⟩ := h.exists_origin hsep hi
  rw [← heq]
  by_cases hki : k = i
  · subst hki
    rfl
  · exact hconstant k i hki (horigin.resolve_left hki) hk hi'

end RefinedTo

/-! ## the final groups -/

theorem getElem_updateAt {update : Nat → FileEntry → FileEntry} {order : List Nat}
    (hnodup : order.Nodup) {l : List FileEntry} {i : Nat}
    (hi : i < (updateAt update order l).length) (hi' : i < l.length) :
    (updateAt update order l)[i] = if i ∈ order then update i l[i] else l[i] := by
  have h := getElem?_updateAt update hnodup l i
  rw [List.getElem?_eq_getElem hi, List.getElem?_eq_getElem hi'] at h
  split at h
  · next hmem => rw [if_pos hmem]; exact Option.some.inj h
  · next hmem => rw [if_neg hmem]; exact Option.some.inj h

/-- An update keeps what `f` reads of an entry. -/
def Keeps {β : Type} (f : FileEntry → β) (update : Nat → FileEntry → FileEntry) : Prop :=
  ∀ i entry, f (update i entry) = f entry

theorem Keeps.getElem_updateAt {β : Type} {f : FileEntry → β}
    {update : Nat → FileEntry → FileEntry} (h : Keeps f update) {order : List Nat}
    (hnodup : order.Nodup) {l : List FileEntry} {i : Nat}
    (hi : i < (updateAt update order l).length) (hi' : i < l.length) :
    f (updateAt update order l)[i] = f l[i] := by
  rw [BcDuplicate.getElem_updateAt hnodup hi hi']
  split
  · exact h i l[i]
  · rfl

namespace HashStaged

variable {fast full : Nat → FileEntry → FileEntry} {digestSize : Nat}
  {entries : List FileEntry} {sizeGroups : List Group} {grouped final : HashGrouping}

theorem length_grouped (h : HashStaged fast full digestSize entries sizeGroups grouped final) :
    grouped.entries.length = entries.length := by
  rw [h.byFastHash.length_entries, length_updateAt]

theorem length_final (h : HashStaged fast full digestSize entries sizeGroups grouped final) :
    final.entries.length = entries.length := by
  rw [h.byFullHash.length_entries, length_updateAt, h.length_grouped]

section Separate

variable (h : HashStaged fast full digestSize entries sizeGroups grouped final)
  (hsep : SeparateGroups sizeGroups entries.length)
include h hsep

theorem separate_grouped : SeparateGroups grouped.groups grouped.entries.length :=
  h.byFastHash.separate (separate_updated fast (candidateIndices sizeGroups) hsep)

theorem separate_final : SeparateGroups final.groups final.entries.length :=
  h.byFullHash.separate (separate_updated full (candidateIndices grouped.groups)
    (h.separate_grouped hsep))

/-- The fast hashes stand where the grouping by fast hash put them. -/
theorem fastHash_final (hfull : Keeps FileEntry.fastHash full) {i : Nat}
    (hi : i < final.entries.length) (hi' : i < grouped.entries.length) :
    final.entries[i].fastHash = grouped.entries[i].fastHash := by
  have hsepFast := separate_updated fast (candidateIndices sizeGroups) hsep
  have hsepGrouped := h.separate_grouped hsep
  have hsepFull := separate_updated full (candidateIndices grouped.groups) hsepGrouped
  have hnodup := nodup_candidateIndices hsepGrouped
  have hlen := h.byFullHash.length_entries
  rw [h.byFullHash.getElem_eq_of_constant FileEntry.fastHash hsepFull ?_ hi (hlen ▸ hi),
    hfull.getElem_updateAt hnodup (hlen ▸ hi) hi']
  intro k i hki hsame hk hi
  have hk' : k < grouped.entries.length := by rwa [length_updateAt] at hk
  have hi' : i < grouped.entries.length := by rwa [length_updateAt] at hi
  rw [hfull.getElem_updateAt hnodup hk hk', hfull.getElem_updateAt hnodup hi hi']
  exact ((h.byFastHash.sameGroup_iff hsepFast hki hk' hi').mp hsame).2

/-- Two different positions share a fast-hash group exactly when they share a
size group and their entries agree in the fast hash. -/
theorem sameGroup_grouped_iff (hfull : Keeps FileEntry.fastHash full) {i j : Nat} (hij : i ≠ j)
    (hi : i < final.entries.length) (hj : j < final.entries.length) :
    SameGroup grouped.groups i j ↔ SameGroup sizeGroups i j ∧
      final.entries[i].fastHash = final.entries[j].fastHash := by
  have hsepFast := separate_updated fast (candidateIndices sizeGroups) hsep
  have hlen : final.entries.length = grouped.entries.length := by
    rw [h.length_final, h.length_grouped]
  rw [h.byFastHash.sameGroup_iff hsepFast hij (hlen ▸ hi) (hlen ▸ hj),
    h.fastHash_final hsep hfull hi (hlen ▸ hi), h.fastHash_final hsep hfull hj (hlen ▸ hj)]

/-- **The final groups**: two different positions share one exactly when they
share a size group and their entries agree in the fast hash and the digest. -/
theorem sameGroup_iff (hfull : Keeps FileEntry.fastHash full) {i j : Nat} (hij : i ≠ j)
    (hi : i < final.entries.length) (hj : j < final.entries.length) :
    SameGroup final.groups i j ↔ SameGroup sizeGroups i j ∧
      final.entries[i].fastHash = final.entries[j].fastHash ∧
      final.entries[i].digest digestSize = final.entries[j].digest digestSize := by
  have hsepFull := separate_updated full (candidateIndices grouped.groups)
    (h.separate_grouped hsep)
  rw [h.byFullHash.sameGroup_iff hsepFull hij hi hj, h.sameGroup_grouped_iff hsep hfull hij hi hj,
    and_assoc]

/-! ### where the entries come from -/

/-- The position of a fast-hash group lies in a size group. -/
theorem contains_sizeGroup {group : Group} (hgroup : group ∈ grouped.groups) {i : Nat}
    (hi : group.Contains i) : ∃ parent ∈ sizeGroups, parent.Contains i := by
  obtain ⟨j, hij, hj⟩ := Group.exists_other (h.byFastHash.two_le_entryCount hgroup) hi
  have hlt : ∀ i, group.Contains i → i < grouped.entries.length := fun i hi =>
    lt_of_mem_candidateIndices (h.separate_grouped hsep)
      (mem_candidateIndices.mpr ⟨group, hgroup, hi⟩)
  obtain ⟨⟨parent, hparent, hcontains, _⟩, _⟩ := (h.byFastHash.sameGroup_iff
    (separate_updated fast (candidateIndices sizeGroups) hsep) hij (hlt i hi) (hlt j hj)).mp
      ⟨group, hgroup, hi, hj⟩
  exact ⟨parent, hparent, hcontains⟩

/-- So does the position of a final group. -/
theorem contains_sizeGroup_of_final {group : Group} (hgroup : group ∈ final.groups) {i : Nat}
    (hi : group.Contains i) : i < final.entries.length ∧ ∃ parent ∈ sizeGroups, parent.Contains i := by
  obtain ⟨j, hij, hj⟩ := Group.exists_other (h.byFullHash.two_le_entryCount hgroup) hi
  have hsepFull := separate_updated full (candidateIndices grouped.groups)
    (h.separate_grouped hsep)
  have hlt : ∀ i, group.Contains i → i < final.entries.length := fun i hi =>
    lt_of_mem_candidateIndices (h.separate_final hsep)
      (mem_candidateIndices.mpr ⟨group, hgroup, hi⟩)
  obtain ⟨⟨middle, hmiddle, hcontains, _⟩, _⟩ := (h.byFullHash.sameGroup_iff hsepFull hij
    (hlt i hi) (hlt j hj)).mp ⟨group, hgroup, hi, hj⟩
  exact ⟨hlt i hi, h.contains_sizeGroup hsep hmiddle hcontains⟩

/-- An entry of a size group is one the fast pass updated. -/
theorem fast_origin {i : Nat} (hi : i < grouped.entries.length)
    (hgroup : ∃ parent ∈ sizeGroups, parent.Contains i) :
    ∃ k source, source ∈ entries ∧ grouped.entries[i] = fast k source := by
  have hsepFast := separate_updated fast (candidateIndices sizeGroups) hsep
  obtain ⟨k, hk, heq, horigin⟩ := h.byFastHash.exists_origin hsepFast hi
  have hcandidate : k ∈ candidateIndices sizeGroups := by
    rw [mem_candidateIndices]
    cases horigin with
    | inl hki => exact hki ▸ hgroup
    | inr hsame =>
        obtain ⟨source, hsource, hcontains, _⟩ := hsame
        exact ⟨source, hsource, hcontains⟩
  have hk' : k < entries.length := lt_of_mem_candidateIndices hsep hcandidate
  refine ⟨k, entries[k], List.getElem_mem hk', ?_⟩
  rw [← heq, getElem_updateAt (nodup_candidateIndices hsep) hk hk', if_pos hcandidate]

/-- A final entry was left by the grouping by fast hash, and updated by the
full pass if it was in a group. -/
theorem full_origin {i : Nat} (hi : i < final.entries.length) :
    ∃ k, ∃ hk : k < grouped.entries.length, (k = i ∨ SameGroup grouped.groups k i) ∧
      final.entries[i] = if k ∈ candidateIndices grouped.groups
        then full k grouped.entries[k] else grouped.entries[k] := by
  have hsepGrouped := h.separate_grouped hsep
  have hsepFull := separate_updated full (candidateIndices grouped.groups) hsepGrouped
  obtain ⟨k, hk, heq, horigin⟩ := h.byFullHash.exists_origin hsepFull hi
  have hk' : k < grouped.entries.length := by rwa [length_updateAt] at hk
  refine ⟨k, hk', horigin, ?_⟩
  rw [← heq, getElem_updateAt (nodup_candidateIndices hsepGrouped) hk hk']

/-- A final entry that stands in a fast-hash group is one the full pass
updated. -/
theorem full_origin_of_contains {i : Nat} (hi : i < final.entries.length)
    (hgroup : ∃ group ∈ grouped.groups, group.Contains i) :
    ∃ k source, final.entries[i] = full k source := by
  obtain ⟨k, hk, horigin, heq⟩ := h.full_origin hsep hi
  have hcandidate : k ∈ candidateIndices grouped.groups := by
    rcases horigin with rfl | ⟨group, hmem, hcontains, _⟩
    · exact mem_candidateIndices.mpr hgroup
    · exact mem_candidateIndices.mpr ⟨group, hmem, hcontains⟩
  rw [if_pos hcandidate] at heq
  exact ⟨k, grouped.entries[k], heq⟩

/-- A final entry that stands in a size group has the file and the fast hash
of an entry the fast pass updated. -/
theorem fast_origin_of_contains (hfile : Keeps FileEntry.file full)
    (hhash : Keeps FileEntry.fastHash full) {i : Nat} (hi : i < final.entries.length)
    (hgroup : ∃ parent ∈ sizeGroups, parent.Contains i) :
    ∃ k source, final.entries[i].file = (fast k source).file ∧
      final.entries[i].fastHash = (fast k source).fastHash := by
  obtain ⟨o, ho, horigin, heq⟩ := h.full_origin hsep hi
  have hgroup' : ∃ parent ∈ sizeGroups, parent.Contains o := by
    rcases horigin with rfl | ⟨group, hmem, hcontains, _⟩
    · exact hgroup
    · exact h.contains_sizeGroup hsep hmem hcontains
  obtain ⟨k, source, _, hsource⟩ := h.fast_origin hsep ho hgroup'
  refine ⟨k, source, ?_, ?_⟩
  · rw [heq, ← hsource]
    split
    · exact hfile o _
    · rfl
  · rw [heq, ← hsource]
    split
    · exact hhash o _
    · rfl

/-- What both passes keep, and what is the same in a size group, stands at
every position as it did. -/
theorem getElem_eq_of_constant {β : Type} {f : FileEntry → β} (hfast : Keeps f fast)
    (hfull : Keeps f full)
    (hconstant : ∀ k i, k ≠ i → SameGroup sizeGroups k i → ∀ (hk : k < entries.length)
      (hi : i < entries.length), f entries[k] = f entries[i])
    {i : Nat} (hi : i < final.entries.length) (hi' : i < entries.length) :
    f final.entries[i] = f entries[i] := by
  have hsepFast := separate_updated fast (candidateIndices sizeGroups) hsep
  have hsepGrouped := h.separate_grouped hsep
  have hsepFull := separate_updated full (candidateIndices grouped.groups) hsepGrouped
  have hnodup := nodup_candidateIndices hsep
  have hnodup' := nodup_candidateIndices hsepGrouped
  have hlen := h.length_grouped
  have hgrouped : ∀ i (hi : i < grouped.entries.length) (hi' : i < entries.length),
      f grouped.entries[i] = f entries[i] := by
    intro i hi hi'
    have hi₂ : i < (updateAt fast (candidateIndices sizeGroups) entries).length := by
      rwa [length_updateAt]
    rw [h.byFastHash.getElem_eq_of_constant f hsepFast ?_ hi hi₂,
      hfast.getElem_updateAt hnodup hi₂ hi']
    intro k i hki hsame hk hi
    rw [length_updateAt] at hk hi
    rw [hfast.getElem_updateAt hnodup _ hk, hfast.getElem_updateAt hnodup _ hi]
    exact hconstant k i hki hsame hk hi
  have hi₄ : i < (updateAt full (candidateIndices grouped.groups) grouped.entries).length := by
    rwa [length_updateAt, hlen]
  rw [h.byFullHash.getElem_eq_of_constant f hsepFull ?_ hi hi₄,
    hfull.getElem_updateAt hnodup' hi₄ (hlen ▸ hi'), hgrouped i (hlen ▸ hi') hi']
  intro k i hki hsame hk hi
  rw [length_updateAt] at hk hi
  rw [hfull.getElem_updateAt hnodup' _ hk, hfull.getElem_updateAt hnodup' _ hi,
    hgrouped k hk (hlen ▸ hk), hgrouped i hi (hlen ▸ hi)]
  have hsize := ((h.byFastHash.sameGroup_iff hsepFast hki hk hi).mp hsame).1
  exact hconstant k i hki hsize (hlen ▸ hk) (hlen ▸ hi)

end Separate

end HashStaged

end BcDuplicate
