import BcDuplicate.Base.Classes
import BcDuplicate.Grouping.BySize

/-!
# BcDuplicate.Grouping.Exact

The three grouping stages against what they are for, each said without the
scan: the size stage keeps one entry a file in order and groups the sizes that
occur twice (`groupingBySize_exact`), a hash stage rearranges inside its input
groups and leaves their key classes (`groupingByHash_exact`).
-/

namespace BcDuplicate

open Runs
open Sorting
open Copying

/-! ## one entry a file -/

/-- The order of the size stage on identities: sizes descending, then devices,
then inodes. -/
def SizeOrder (x y : Nat × Nat × Nat) : Prop :=
  y.1 < x.1 ∨ x.1 = y.1 ∧ (x.2.1 < y.2.1 ∨ x.2.1 = y.2.1 ∧ x.2.2 ≤ y.2.2)

theorem sizeOrder_antisymm {x y : Nat × Nat × Nat} (h : SizeOrder x y) (h' : SizeOrder y x) :
    x = y := by
  obtain ⟨size, device, inode⟩ := x
  obtain ⟨size', device', inode'⟩ := y
  simp only [SizeOrder] at h h'
  simp only [Prod.mk.injEq]
  omega

theorem sizeOrder_iff (a b : FileEntry) :
    SizeOrder a.identity b.identity ↔ groupingSizeDevInoLessThan b a = false := by
  rw [groupingSizeDevInoLessThan_eq_false_iff]
  simp only [SizeOrder, FileEntry.identity]
  omega

theorem pairwise_sorted (sort : SortFn) (entries : List FileEntry) :
    (sort.run groupingSizeDevInoLessThan entries).Pairwise fun a b =>
      SizeOrder a.identity b.identity :=
  (sort.sorted groupingSizeDevInoLessThan entries ordersBy_identity.toStrictWeak).imp
    fun h => (sizeOrder_iff _ _).mpr h

/-- On ordered entries the compaction leaves each identity once. -/
theorem map_identity_destutter {l : List FileEntry}
    (h : l.Pairwise fun a b => SizeOrder a.identity b.identity) :
    (l.destutter DifferentFile).map FileEntry.identity = (l.map FileEntry.identity).dedup := by
  have : Std.Antisymm SizeOrder := ⟨fun _ _ => sizeOrder_antisymm⟩
  have hpairwise : (l.map FileEntry.identity).Pairwise SizeOrder := List.pairwise_map.mpr h
  rw [← hpairwise.destutter_eq_dedup]
  exact List.map_destutter fun a _ b _ => ne_comm

theorem map_identity_survivingEntries (sort : SortFn) (entries : List FileEntry) :
    (survivingEntries sort entries false).map FileEntry.identity =
      ((sort.run groupingSizeDevInoLessThan entries).map FileEntry.identity).dedup :=
  map_identity_destutter (pairwise_sorted sort entries)

/-- The next entry is of the same file when its identity is the same. -/
theorem not_differentFile_iff {kept read : FileEntry} :
    ¬DifferentFile kept read ↔ read.identity = kept.identity := not_not

/-- On ordered entries the compaction keeps of each file the first entry. -/
theorem find?_of_mem_destutter' {kept entry : FileEntry} {unread : List FileEntry}
    (h : (kept :: unread).Pairwise fun a b => SizeOrder a.identity b.identity)
    (hentry : entry ∈ unread.destutter' DifferentFile kept) :
    (kept :: unread).find? (fun first => decide (first.identity = entry.identity)) =
      some entry := by
  induction unread generalizing kept with
  | nil =>
      rw [List.destutter'_nil, List.mem_singleton] at hentry
      rw [hentry]
      exact List.find?_cons_of_pos (decide_eq_true rfl)
  | cons read unread ih =>
      obtain ⟨hkept, hunread⟩ := List.pairwise_cons.mp h
      by_cases hdiffers : DifferentFile kept read
      · rw [List.destutter'_cons_pos _ hdiffers] at hentry
        rcases List.mem_cons.mp hentry with rfl | hentry
        · exact List.find?_cons_of_pos (decide_eq_true rfl)
        · -- a later entry of the kept file would put the next one between the two
          have hne : kept.identity ≠ entry.identity := by
            intro hsame
            have hbetween : SizeOrder read.identity entry.identity := by
              rcases List.mem_cons.mp (List.mem_of_find?_eq_some (ih hunread hentry)) with rfl | hin
              · exact Or.inr ⟨rfl, Or.inr ⟨rfl, Nat.le_refl _⟩⟩
              · exact (List.pairwise_cons.mp hunread).1 _ hin
            rw [← hsame] at hbetween
            exact hdiffers (sizeOrder_antisymm hbetween (hkept read List.mem_cons_self))
          rw [List.find?_cons_of_neg (by simpa using hne)]
          exact ih hunread hentry
      · rw [List.destutter'_cons_neg _ hdiffers] at hentry
        have hfirst := ih (List.pairwise_cons.mpr ⟨fun e he => hkept e (.tail _ he),
          (List.pairwise_cons.mp hunread).2⟩) hentry
        by_cases hsame : kept.identity = entry.identity
        · rw [List.find?_cons_of_pos (by simpa using hsame)] at hfirst ⊢
          exact hfirst
        · have hread : read.identity ≠ entry.identity :=
            not_differentFile_iff.mp hdiffers ▸ hsame
          rw [List.find?_cons_of_neg (by simpa using hsame)] at hfirst ⊢
          rw [List.find?_cons_of_neg (by simpa using hread)]
          exact hfirst

/-- A survivor is the first entry of its file in the sorted array. -/
theorem find?_of_mem_survivingEntries {sort : SortFn} {entries : List FileEntry}
    {entry : FileEntry} (hentry : entry ∈ survivingEntries sort entries false) :
    (sort.run groupingSizeDevInoLessThan entries).find?
      (fun first => decide (first.identity = entry.identity)) = some entry := by
  have hordered := pairwise_sorted sort entries
  rw [survivingEntries, if_neg Bool.noConfusion] at hentry
  generalize sort.run groupingSizeDevInoLessThan entries = sorted at hordered hentry ⊢
  cases sorted with
  | nil => cases hentry
  | cons kept unread => exact find?_of_mem_destutter' hordered hentry

/-! ## the size stage -/

/-- What the size stage is for. -/
structure ExactlySized (entries : List FileEntry) (matchHardlinks : Bool)
    (result : SizeGrouping) : Prop where
  length_entries : result.entries.length = entries.length
  length_surviving : result.hardlinksCollapsed + result.surviving.length = entries.length
  all : matchHardlinks = true → result.surviving.Perm entries
  nodup : matchHardlinks = false → (result.surviving.map FileEntry.identity).Nodup
  subset : ∀ entry ∈ result.surviving, entry ∈ entries
  covers : ∀ entry ∈ entries, ∃ kept ∈ result.surviving, kept.identity = entry.identity
  ordered : result.surviving.Pairwise fun a b => SizeOrder a.identity b.identity
  sizes : ∀ size, size ∈ result.groups.map Group.fileSize ↔
    2 ≤ (result.surviving.map FileEntry.fileSize).count size
  decreasing : (result.groups.map Group.fileSize).Pairwise (· > ·)
  contains_iff : ∀ group ∈ result.groups, ∀ i, group.Contains i ↔
    (result.surviving[i]?).map FileEntry.fileSize = some group.fileSize
  separate : SeparateGroups result.groups result.surviving.length
  candidateCount_eq : result.candidateCount = (result.groups.map Group.entryCount).sum

namespace SizeGrouped

variable {sort : SortFn} {entries : List FileEntry} {matchHardlinks : Bool}
  {result : SizeGrouping}

/-- The scan of the survivors, as key classes of the whole range. -/
theorem keyClasses (h : SizeGrouped sort entries matchHardlinks result) :
    KeyClasses FileEntry.fileSize ⟨0, result.surviving.length⟩ result.surviving
      (result.groups.map Group.run) := by
  have hslice : slice ⟨0, result.surviving.length⟩ result.surviving = result.surviving :=
    List.take_length
  have hadjacent := adjacent_survivingEntries sort entries matchHardlinks
  rw [← h.surviving_eq, ← hslice] at hadjacent
  have hclasses := keyClasses_scanRuns hadjacent (Nat.le_of_eq (Nat.zero_add _))
  rw [hslice] at hclasses
  rw [h.groups_eq, List.map_map]
  exact (List.map_id _).symm ▸ hclasses

/-- A group holds exactly the survivors of its size. -/
theorem contains_iff (h : SizeGrouped sort entries matchHardlinks result) {group : Group}
    (hgroup : group ∈ result.groups) (i : Nat) :
    group.Contains i ↔
      (result.surviving[i]?).map FileEntry.fileSize = some group.fileSize := by
  have hclass : ∀ i, group.Contains i ↔ i < result.surviving.length ∧
      (result.surviving[i]?).map FileEntry.fileSize =
        (result.surviving[group.startIndex]?).map FileEntry.fileSize := by
    obtain ⟨size, hsize⟩ := h.keyClasses.isClass group.run (List.mem_map_of_mem hgroup)
    have htwo := h.two_le_entryCount hgroup
    have hstart := (hsize group.startIndex).mp ⟨Nat.le_refl _, by simp only [Group.run]; omega⟩
    intro i
    rw [hstart.2]
    refine (hsize i).trans (and_congr_left fun _ => ?_)
    simp only [Run.Contains]
    omega
  have hfileSize : (result.surviving[group.startIndex]?).map FileEntry.fileSize =
      some group.fileSize :=
    h.fileSize_of_contains hgroup
      ⟨Nat.le_refl _, by have := h.two_le_entryCount hgroup; simp only [Group.run]; omega⟩
  rw [hclass, hfileSize]
  refine ⟨And.right, fun hsize => ⟨?_, hsize⟩⟩
  obtain ⟨_, hentry, _⟩ := Option.map_eq_some_iff.mp hsize
  exact (List.getElem?_eq_some_iff.mp hentry).1

/-- A size has a group exactly when two survivors have it. -/
theorem mem_fileSize_iff (h : SizeGrouped sort entries matchHardlinks result) (size : Nat) :
    size ∈ result.groups.map Group.fileSize ↔
      2 ≤ (result.surviving.map FileEntry.fileSize).count size := by
  constructor
  · intro hmem
    obtain ⟨group, hgroup, rfl⟩ := List.mem_map.mp hmem
    have htwo := h.two_le_entryCount hgroup
    rw [two_le_count_iff]
    refine ⟨group.startIndex, group.startIndex + 1, by omega, ?_, ?_⟩
    · exact (h.contains_iff hgroup _).mp ⟨Nat.le_refl _, by simp only [Group.run]; omega⟩
    · exact (h.contains_iff hgroup _).mp ⟨Nat.le_succ _, by simp only [Group.run]; omega⟩
  · intro hcount
    have hslice : slice ⟨0, result.surviving.length⟩ result.surviving = result.surviving :=
      List.take_length
    obtain ⟨r, hr, hclass⟩ := h.keyClasses.complete size (by rw [hslice]; exact hcount)
    obtain ⟨group, hgroup, rfl⟩ := List.mem_map.mp hr
    have htwo := h.two_le_entryCount hgroup
    have hstart : group.Contains group.startIndex :=
      ⟨Nat.le_refl _, by simp only [Group.run]; omega⟩
    have hsame := ((h.contains_iff hgroup _).mp hstart).symm.trans ((hclass _).mp hstart).2
    rw [← Option.some.inj hsame]
    exact List.mem_map_of_mem hgroup

/-- The sizes of the groups decrease. -/
theorem pairwise_fileSize (h : SizeGrouped sort entries matchHardlinks result)
    (hordered : result.surviving.Pairwise fun a b => SizeOrder a.identity b.identity) :
    (result.groups.map Group.fileSize).Pairwise (· > ·) := by
  have hgroups := h.keyClasses.ordered
  rw [List.pairwise_map] at hgroups ⊢
  refine hgroups.imp_of_mem fun {g g'} hg hg' hapart => ?_
  have htwo := h.two_le_entryCount hg
  have htwo' := h.two_le_entryCount hg'
  simp only [Group.run] at hapart
  have hsize := (h.contains_iff hg g.startIndex).mp ⟨Nat.le_refl _, by simp only [Group.run]; omega⟩
  have hsize' := (h.contains_iff hg' g'.startIndex).mp
    ⟨Nat.le_refl _, by simp only [Group.run]; omega⟩
  -- the later group starts outside the earlier one, so its size is another
  have hne : g.fileSize ≠ g'.fileSize := by
    intro heq
    have hin := (h.contains_iff hg g'.startIndex).mpr (by rw [heq]; exact hsize')
    simp only [Group.Contains, Group.run, Run.Contains] at hin
    omega
  obtain ⟨a, ha, hasize⟩ := Option.map_eq_some_iff.mp hsize
  obtain ⟨b, hb, hbsize⟩ := Option.map_eq_some_iff.mp hsize'
  obtain ⟨hal, rfl⟩ := List.getElem?_eq_some_iff.mp ha
  obtain ⟨hbl, rfl⟩ := List.getElem?_eq_some_iff.mp hb
  have horder := List.pairwise_iff_getElem.mp hordered _ _ hal hbl (by omega)
  simp only [SizeOrder, FileEntry.identity, hasize, hbsize] at horder
  omega

end SizeGrouped

/-- **The size stage is exact.**  With a pool that serves every request and a
copy that serves the compaction it succeeds; the slots it goes on with hold the
entries, or with hardlinks collapsed one entry a file, in order; the groups are
the sizes two or more of these have, each with all of them. -/
theorem groupingBySize_exact (sort : SortFn) (copy : CopyFn) (allocates : Nat → Bool)
    (hall : ∀ capacity, allocates capacity = true) (entries : List FileEntry)
    (matchHardlinks : Bool) (hcopies : CopyServes sort copy entries matchHardlinks) :
    ∃ result, groupingBySize sort copy allocates entries matchHardlinks = some result ∧
      ExactlySized entries matchHardlinks result := by
  obtain ⟨result, hdone⟩ := Option.isSome_iff_exists.mp
    (isSome_groupingBySize hall sort copy entries matchHardlinks)
  have h := sizeGrouped_of_groupingBySize hcopies hdone
  have hle := length_survivingEntries_le sort entries matchHardlinks
  have hordered : result.surviving.Pairwise fun a b => SizeOrder a.identity b.identity := by
    rw [h.surviving_eq]
    exact (pairwise_sorted sort entries).sublist (survivingEntries_sublist sort entries _)
  have hsubset : ∀ entry ∈ result.surviving, entry ∈ entries := by
    intro entry hentry
    rw [h.surviving_eq] at hentry
    exact (sort.mem_run _ _ _).mp ((survivingEntries_sublist sort entries _).subset hentry)
  have hperm := sort.perm groupingSizeDevInoLessThan entries
  refine ⟨result, hdone, {
    length_entries := h.length_entries
    length_surviving := ?_
    all := ?_
    nodup := ?_
    subset := hsubset
    covers := ?_
    ordered := hordered
    sizes := h.mem_fileSize_iff
    decreasing := h.pairwise_fileSize hordered
    contains_iff := fun group hgroup => h.contains_iff hgroup
    separate := ?_
    candidateCount_eq := h.candidateCount_eq }⟩
  · rw [h.surviving_eq, h.hardlinksCollapsed_eq]
    omega
  · rintro rfl
    rw [h.surviving_eq]
    exact hperm
  · rintro rfl
    rw [h.surviving_eq, map_identity_survivingEntries]
    exact List.nodup_dedup _
  · intro entry hentry
    rw [h.surviving_eq]
    have hsorted := (sort.mem_run groupingSizeDevInoLessThan entries entry).mpr hentry
    cases matchHardlinks with
    | true => exact ⟨entry, hsorted, rfl⟩
    | false =>
        have hmem := List.mem_dedup.mpr (List.mem_map_of_mem (f := FileEntry.identity) hsorted)
        rw [← map_identity_survivingEntries] at hmem
        exact List.mem_map.mp hmem
  · refine ⟨fun r hr => ?_, h.separate.disjoint⟩
    obtain ⟨group, hgroup, rfl⟩ := List.mem_map.mp hr
    have htwo := h.two_le_entryCount hgroup
    have hlast := (h.contains_iff hgroup (group.startIndex + group.entryCount - 1)).mp
      ⟨by simp only [Group.run]; omega, by simp only [Group.run]; omega⟩
    obtain ⟨_, hentry, _⟩ := Option.map_eq_some_iff.mp hlast
    have := (List.getElem?_eq_some_iff.mp hentry).1
    simp only [Group.run, Run.InBounds]
    omega

/-- Two hardlinked files of ten bytes under two names, and three of five. -/
def linkedEntries : List FileEntry :=
  [.discovered [97] 10 1 1, .discovered [98] 5 1 2, .discovered [99] 10 1 1,
    .discovered [100] 5 1 3, .discovered [101] 5 1 2]

theorem groupingBySize_exact_linked :
    ∃ result, groupingBySize insertionSort memmove (fun _ => true) linkedEntries false =
        some result ∧
      ExactlySized linkedEntries false result :=
  groupingBySize_exact insertionSort memmove (fun _ => true) (fun _ => rfl) linkedEntries false
    (Or.inl moves_memmove)

/-! ## the hash stages -/

section Hash

variable {κ : Type} [DecidableEq κ] {lessThan : FileEntry → FileEntry → Bool}
  {key : FileEntry → κ} {sort : SortFn} {allocates : Nat → Bool} {groups : List Group}
  {entries : List FileEntry} {result : HashGrouping}

/-- What a hash stage is for: for each input group, in order, the classes of
the key in its range. -/
structure ExactlyRefined (key : FileEntry → κ) (groups : List Group) (entries : List FileEntry)
    (result : HashGrouping) : Prop where
  permWithin : PermWithin (groups.map Group.run) entries result.entries
  classes : ∃ classesOf : Group → List Run,
    (∀ group ∈ groups, KeyClasses key group.run result.entries (classesOf group)) ∧
      result.groups = groups.flatMap fun group =>
        (classesOf group).map fun r => ⟨r.start, r.length, group.fileSize⟩
  separate : SeparateGroups result.groups result.entries.length
  candidateCount_eq : result.candidateCount = (result.groups.map Group.entryCount).sum

theorem RefinedTo.exactlyRefined (h : RefinedTo key groups entries result)
    (hsep : SeparateGroups groups entries.length) : ExactlyRefined key groups entries result where
  permWithin := h.permWithin
  classes := by
    refine ⟨fun group => scanRuns key group.startIndex (slice group.run result.entries),
      fun group hgroup => ?_, h.groups_eq⟩
    exact keyClasses_scanRuns (h.adjacent group hgroup)
      (h.length_entries ▸ hsep.inBounds _ (List.mem_map_of_mem hgroup))
  separate := h.separate hsep
  candidateCount_eq := h.candidateCount_eq

/-- Whatever its capacity was and however it grew, the buffer holds the same. -/
theorem refineLoop_congr {allocates' : Nat → Bool} {b b' : GroupBuffer}
    {entries' entries'' : List FileEntry} {c c' : GroupBuffer}
    (hsep : SeparateGroups groups entries.length)
    (h : refineLoop sort allocates lessThan key groups entries b = some (entries', c))
    (h' : refineLoop sort allocates' lessThan key groups entries b' = some (entries'', c'))
    (hgroups : b.groups = b'.groups) (hcount : b.candidateCount = b'.candidateCount) :
    entries' = entries'' ∧ c.groups = c'.groups ∧ c.candidateCount = c'.candidateCount := by
  obtain ⟨rfl, hg, hc⟩ := refineLoop_eq_some hsep h
  obtain ⟨rfl, hg', hc'⟩ := refineLoop_eq_some hsep h'
  exact ⟨rfl, by rw [hg, hg', hgroups], by rw [hc, hc', hcount]⟩

/-- The shared body is exact, and its result the same for every growth of the
buffer, from whatever capacity. -/
theorem refineGroups_exact (hkey : OrdersBy lessThan key)
    (hall : ∀ capacity, allocates capacity = true) (hsep : SeparateGroups groups entries.length) :
    ∃ result, refineGroups sort allocates lessThan key entries groups = some result ∧
      ExactlyRefined key groups entries result ∧
      ∀ (allocates' : Nat → Bool) (capacity : Nat) (entries' : List FileEntry)
        (buffer : GroupBuffer),
        refineLoop sort allocates' lessThan key groups entries (.empty capacity) =
          some (entries', buffer) →
        entries' = result.entries ∧ buffer.groups = result.groups ∧
          buffer.candidateCount = result.candidateCount := by
  have hsome : (refineGroups sort allocates lessThan key entries groups).isSome :=
    isSome_refineGroups hall groups entries
  obtain ⟨result, hdone⟩ := Option.isSome_iff_exists.mp hsome
  refine ⟨result, hdone, (refinedTo_of_refineGroups hkey hsep hdone).exactlyRefined hsep, ?_⟩
  intro allocates' capacity entries' buffer hloop
  unfold refineGroups at hdone
  split at hdone
  · next hnil =>
    cases List.length_eq_zero_iff.mp hnil
    cases hdone
    cases hloop
    exact ⟨rfl, rfl, rfl⟩
  · rw [if_pos (hall _)] at hdone
    obtain ⟨⟨entries'', buffer'⟩, hloop', rfl⟩ := Option.map_eq_some_iff.mp hdone
    exact refineLoop_congr hsep hloop hloop' rfl rfl

end Hash

/-- **The hash stages are exact.**  On groups that are in bounds and disjoint,
with a pool that serves every request, each succeeds: it rearranges inside the
groups only, and its groups are, input group by input group, the classes of
its key with two members or more.  The buffer's growth does not matter. -/
theorem groupingByHash_exact (sort : SortFn) (allocates : Nat → Bool)
    (hall : ∀ capacity, allocates capacity = true) (digestSize : Nat) (entries : List FileEntry)
    (groups : List Group) (hsep : SeparateGroups groups entries.length) :
    (∃ result, groupingByFastHash sort allocates entries groups = some result ∧
      ExactlyRefined FileEntry.fastHash groups entries result ∧
      ∀ (allocates' : Nat → Bool) (capacity : Nat) (entries' : List FileEntry)
        (buffer : GroupBuffer),
        refineLoop sort allocates' groupingFastHashLessThan FileEntry.fastHash groups entries
          (.empty capacity) = some (entries', buffer) →
        entries' = result.entries ∧ buffer.groups = result.groups ∧
          buffer.candidateCount = result.candidateCount) ∧
    (∃ result, groupingByFullHash sort allocates digestSize entries groups = some result ∧
      ExactlyRefined (FileEntry.digest digestSize) groups entries result ∧
      ∀ (allocates' : Nat → Bool) (capacity : Nat) (entries' : List FileEntry)
        (buffer : GroupBuffer),
        refineLoop sort allocates' (groupingFullHashLessThan digestSize)
          (FileEntry.digest digestSize) groups entries (.empty capacity) =
            some (entries', buffer) →
        entries' = result.entries ∧ buffer.groups = result.groups ∧
          buffer.candidateCount = result.candidateCount) :=
  ⟨refineGroups_exact ordersBy_fastHash hall hsep,
    refineGroups_exact (ordersBy_digest digestSize) hall hsep⟩

theorem groupingByHash_exact_linked :
    (∃ result, groupingByFastHash insertionSort (fun _ => true) linkedEntries
        [⟨3, 2, 5⟩, ⟨0, 2, 10⟩] = some result ∧
      ExactlyRefined FileEntry.fastHash [⟨3, 2, 5⟩, ⟨0, 2, 10⟩] linkedEntries result) ∧
    (∃ result, groupingByFullHash insertionSort (fun _ => true) 32 linkedEntries
        [⟨3, 2, 5⟩, ⟨0, 2, 10⟩] = some result ∧
      ExactlyRefined (FileEntry.digest 32) [⟨3, 2, 5⟩, ⟨0, 2, 10⟩] linkedEntries result) := by
  have hsep : SeparateGroups [⟨3, 2, 5⟩, ⟨0, 2, 10⟩] linkedEntries.length := by
    refine ⟨by simp [Group.run, Run.InBounds, linkedEntries], ?_⟩
    simp only [List.map_cons, List.map_nil, List.pairwise_cons, List.mem_singleton, forall_eq,
      List.not_mem_nil, false_imp_iff, implies_true, List.Pairwise.nil, and_self, and_true]
    intro i hi
    simp only [Group.run, Run.Contains] at hi
    omega
  obtain ⟨⟨fast, hfast, hexact, _⟩, full, hfull, hexact', _⟩ := groupingByHash_exact insertionSort
    (fun _ => true) (fun _ => rfl) 32 linkedEntries [⟨3, 2, 5⟩, ⟨0, 2, 10⟩] hsep
  exact ⟨⟨fast, hfast, hexact⟩, full, hfull, hexact'⟩

end BcDuplicate
