import BcDuplicate.Grouping

/-!
# BcDuplicate.Grouping.ByHash

What a hash stage does, proved once for `refineGroups` and used at the fast
and at the full hash: it rearranges entries only inside the ranges of its
input groups (`RefinedTo.permWithin`), and two different positions end in one
output group exactly when they were in one input group and their entries now
have equal keys (`RefinedTo.sameGroup_iff`).
-/

namespace BcDuplicate

open Runs
open Sorting

/-! ## the buffer -/

/-- Growing the buffer never changes what it holds: a push that succeeds
appends its group. -/
theorem GroupBuffer.push_eq_some {allocates : Nat → Bool} {b b' : GroupBuffer} {g : Group}
    (h : b.push allocates g = some b') :
    b'.groups = b.groups ++ [g] ∧ b'.candidateCount = b.candidateCount + g.entryCount := by
  simp only [GroupBuffer.push] at h
  split at h
  · split at h
    · cases h; exact ⟨rfl, rfl⟩
    · cases h
  · cases h; exact ⟨rfl, rfl⟩

theorem GroupBuffer.pushRuns_eq_some {allocates : Nat → Bool} {fileSize : Run → Nat}
    {rs : List Run} {b b' : GroupBuffer} (h : b.pushRuns allocates fileSize rs = some b') :
    b'.groups = b.groups ++ rs.map (fun r => ⟨r.start, r.length, fileSize r⟩) ∧
      b'.candidateCount = b.candidateCount + (rs.map Run.length).sum := by
  induction rs generalizing b with
  | nil =>
      simp only [GroupBuffer.pushRuns, Option.some.injEq] at h
      subst h
      simp
  | cons r rs ih =>
      simp only [GroupBuffer.pushRuns, Option.bind_eq_some_iff] at h
      obtain ⟨b₁, hpush, hrest⟩ := h
      obtain ⟨hg, hc⟩ := GroupBuffer.push_eq_some hpush
      obtain ⟨hg', hc'⟩ := ih hrest
      refine ⟨by simp [hg', hg], ?_⟩
      simp only [hc', hc, List.map_cons, List.sum_cons, Nat.add_assoc]

/-- With a pool that serves every request a push succeeds. -/
theorem GroupBuffer.isSome_pushRuns {allocates : Nat → Bool} (hall : ∀ n, allocates n = true)
    (fileSize : Run → Nat) (rs : List Run) (b : GroupBuffer) :
    (b.pushRuns allocates fileSize rs).isSome := by
  induction rs generalizing b with
  | nil => rfl
  | cons r rs ih =>
      simp only [GroupBuffer.pushRuns, GroupBuffer.push, hall, if_true]
      split <;> simp only [Option.bind_some] <;> exact ih _

/-! ## one stage -/

section Stage

variable {κ : Type} [DecidableEq κ]

/-- The groups a stage finds in the array it leaves: for each input group, in
order, the kept runs of its range. -/
def refinedGroups (key : FileEntry → κ) (groups : List Group) (entries : List FileEntry) :
    List Group :=
  groups.flatMap fun g =>
    (scanRuns key g.startIndex (slice g.run entries)).map
      fun r => ⟨r.start, r.length, g.fileSize⟩

theorem refinedGroups_cons (key : FileEntry → κ) (g : Group) (gs : List Group)
    (entries : List FileEntry) :
    refinedGroups key (g :: gs) entries =
      (scanRuns key g.startIndex (slice g.run entries)).map
        (fun r => ⟨r.start, r.length, g.fileSize⟩) ++ refinedGroups key gs entries := rfl

/-- The groups are in bounds of an array of `n` entries and do not overlap. -/
def SeparateGroups (groups : List Group) (n : Nat) : Prop := Separate (groups.map Group.run) n

/-- No position belongs to two groups. -/
theorem SeparateGroups.eq_of_contains {groups : List Group} {n a b i : Nat}
    (h : SeparateGroups groups n) {groupA groupB : Group} (ha : groups[a]? = some groupA)
    (hb : groups[b]? = some groupB) (hi : groupA.Contains i) (hi' : groupB.Contains i) :
    a = b := by
  obtain ⟨halt, rfl⟩ := List.getElem?_eq_some_iff.mp ha
  obtain ⟨hblt, rfl⟩ := List.getElem?_eq_some_iff.mp hb
  have hdisjoint := h.disjoint
  rw [List.pairwise_map, List.pairwise_iff_getElem] at hdisjoint
  rcases Nat.lt_trichotomy a b with hab | hab | hab
  · exact (hdisjoint a b halt hblt hab i ⟨hi, hi'⟩).elim
  · exact hab
  · exact (hdisjoint b a hblt halt hab i ⟨hi', hi⟩).elim

/-- A group of two or more has another position beside each of its own. -/
theorem Group.exists_other {group : Group} (htwo : 2 ≤ group.entryCount) {i : Nat}
    (hi : group.Contains i) : ∃ j, i ≠ j ∧ group.Contains j := by
  simp only [Group.Contains, Group.run, Run.Contains] at hi ⊢
  by_cases hfirst : i = group.startIndex
  · exact ⟨group.startIndex + 1, by omega, by omega, by omega⟩
  · exact ⟨group.startIndex, hfirst, by omega, by omega⟩

/-- What a stage leaves, in terms of the array it was given. -/
structure RefinedTo (key : FileEntry → κ) (groups : List Group) (entries : List FileEntry)
    (result : HashGrouping) : Prop where
  permWithin : PermWithin (groups.map Group.run) entries result.entries
  adjacent : ∀ g ∈ groups, Adjacent key (slice g.run result.entries)
  groups_eq : result.groups = refinedGroups key groups result.entries
  candidateCount_eq : result.candidateCount = (result.groups.map Group.entryCount).sum

variable {lessThan : FileEntry → FileEntry → Bool} {key : FileEntry → κ} {sort : SortFn}
  {allocates : Nat → Bool}

theorem refineLoop_eq_some {groups : List Group} {entries entries' : List FileEntry}
    {b b' : GroupBuffer} (hsep : SeparateGroups groups entries.length)
    (h : refineLoop sort allocates lessThan key groups entries b = some (entries', b')) :
    entries' = updateSlices (sort.run lessThan) (groups.map Group.run) entries ∧
      b'.groups = b.groups ++ refinedGroups key groups entries' ∧
      b'.candidateCount = b.candidateCount +
        ((refinedGroups key groups entries').map Group.entryCount).sum := by
  induction groups generalizing entries b with
  | nil =>
      simp only [refineLoop, Option.some.injEq, Prod.mk.injEq] at h
      obtain ⟨rfl, rfl⟩ := h
      simp [updateSlices, refinedGroups]
  | cons g gs ih =>
      simp only [refineLoop, Option.bind_eq_some_iff] at h
      obtain ⟨b₁, hpush, hrest⟩ := h
      have hperm := sort.perm lessThan
      have hin := hsep.inBounds g.run (by simp)
      have hlen := length_updateSlice (f := sort.run lessThan) (hperm _).length_eq hin
      have htail : SeparateGroups gs (updateSlice (sort.run lessThan) g.run entries).length := by
        rw [hlen]; exact Separate.tail hsep
      obtain ⟨he, hg, hc⟩ := ih htail hrest
      obtain ⟨hg₁, hc₁⟩ := GroupBuffer.pushRuns_eq_some hpush
      -- the later ranges leave the first one alone
      have hslice : slice g.run entries' =
          slice g.run (updateSlice (sort.run lessThan) g.run entries) := by
        rw [he]
        refine slice_congr fun i hi => ?_
        refine getElem?_updateSlices_outside hperm _ _ htail i fun r hr hc => ?_
        exact (List.pairwise_cons.mp hsep.disjoint).1 r hr i ⟨hi, hc⟩
      refine ⟨by rw [he]; rfl, ?_, ?_⟩
      · rw [hg, hg₁, refinedGroups_cons, hslice, List.append_assoc]
      · rw [hc, hc₁, refinedGroups_cons, hslice, List.map_append, List.sum_append,
          List.map_map, Nat.add_assoc]
        rfl

/-- **A stage that succeeds refines its groups.** -/
theorem refinedTo_of_refineGroups (hkey : OrdersBy lessThan key) {groups : List Group}
    {entries : List FileEntry} {result : HashGrouping}
    (hsep : SeparateGroups groups entries.length)
    (h : refineGroups sort allocates lessThan key entries groups = some result) :
    RefinedTo key groups entries result := by
  simp only [refineGroups] at h
  split at h
  · next hnil =>
    cases List.length_eq_zero_iff.mp hnil
    cases h
    exact ⟨⟨.refl _, by simp, by simp⟩, by simp, rfl, rfl⟩
  · split at h
    · rw [Option.map_eq_some_iff] at h
      obtain ⟨⟨entries', b'⟩, hloop, rfl⟩ := h
      obtain ⟨he, hg, hc⟩ := refineLoop_eq_some hsep hloop
      have hperm := sort.perm lessThan
      refine ⟨he ▸ permWithin_updateSlices hperm _ _ hsep, fun g hg => ?_,
        by simpa [GroupBuffer.empty] using hg, ?_⟩
      · rw [he, slice_updateSlices hperm _ _ hsep g.run (List.mem_map_of_mem hg)]
        exact sort.adjacent_run hkey _
      · simpa [GroupBuffer.empty, hg] using hc
    · cases h

/-! ## the groups a stage leaves -/

namespace RefinedTo

variable {groups : List Group} {entries : List FileEntry} {result : HashGrouping}

theorem length_entries (h : RefinedTo key groups entries result) :
    result.entries.length = entries.length := h.permWithin.perm.length_eq

/-- Every output group is a run of the range of one input group, and has
that group's size. -/
theorem exists_parent (h : RefinedTo key groups entries result) {g : Group}
    (hg : g ∈ result.groups) : ∃ parent ∈ groups, ∃ r,
      r ∈ scanRuns key parent.startIndex (slice parent.run result.entries) ∧
        g = ⟨r.start, r.length, parent.fileSize⟩ := by
  rw [h.groups_eq, refinedGroups, List.mem_flatMap] at hg
  obtain ⟨parent, hp, hg⟩ := hg
  obtain ⟨r, hr, rfl⟩ := List.mem_map.mp hg
  exact ⟨parent, hp, r, hr, rfl⟩

/-- A run of a range lies inside the range. -/
theorem bounds_of_mem (h : RefinedTo key groups entries result)
    (hsep : SeparateGroups groups entries.length) {parent : Group} (hp : parent ∈ groups)
    {r : Run} (hr : r ∈ scanRuns key parent.startIndex (slice parent.run result.entries)) :
    parent.startIndex ≤ r.start ∧
      r.start + r.length ≤ parent.startIndex + parent.entryCount ∧ 2 ≤ r.length := by
  have hb := bounds_of_mem_scanRuns key _ _ r hr
  rw [length_slice _ _ (h.length_entries ▸ hsep.inBounds _ (List.mem_map_of_mem hp))] at hb
  exact hb

theorem two_le_entryCount (h : RefinedTo key groups entries result) {g : Group}
    (hg : g ∈ result.groups) : 2 ≤ g.entryCount := by
  obtain ⟨parent, hp, r, hr, rfl⟩ := h.exists_parent hg
  exact (bounds_of_mem_scanRuns key _ _ r hr).2.2

/-- **The output groups are the key classes of the input groups**: two
different positions share an output group exactly when they share an input
group and their entries have equal keys. -/
theorem sameGroup_iff (h : RefinedTo key groups entries result)
    (hsep : SeparateGroups groups entries.length) {i j : Nat} (hij : i ≠ j)
    (hi : i < result.entries.length) (hj : j < result.entries.length) :
    SameGroup result.groups i j ↔
      SameGroup groups i j ∧ key result.entries[i] = key result.entries[j] := by
  -- inside one input group this is the scan's own theorem
  have hparent : ∀ parent ∈ groups, parent.Contains i → parent.Contains j →
      (SameRun (scanRuns key parent.startIndex (slice parent.run result.entries)) i j ↔
        key result.entries[i] = key result.entries[j]) := by
    intro parent hp hci hcj
    have hin := h.length_entries ▸ hsep.inBounds _ (List.mem_map_of_mem hp)
    have hlen := length_slice _ _ hin
    simp only [Group.Contains, Run.Contains, Group.run] at hci hcj hlen
    have hscan := sameRun_scanRuns_iff key parent.startIndex
      (slice parent.run result.entries) (h.adjacent parent hp) (i - parent.startIndex)
      (j - parent.startIndex) (by omega) (by simp only [Group.run]; omega)
      (by simp only [Group.run]; omega)
    have hei : parent.startIndex + (i - parent.startIndex) = i := by omega
    have hej : parent.startIndex + (j - parent.startIndex) = j := by omega
    rw [hei, hej] at hscan
    rw [hscan, getElem_slice _ _ _ _ (by simp only [Group.run]; omega),
      getElem_slice _ _ _ _ (by simp only [Group.run]; omega)]
    simp only [Group.run, hei, hej]
  constructor
  · rintro ⟨g, hg, hgi, hgj⟩
    obtain ⟨parent, hp, r, hr, rfl⟩ := h.exists_parent hg
    have hb := h.bounds_of_mem hsep hp hr
    simp only [Group.Contains, Run.Contains, Group.run] at hgi hgj
    have hci : parent.Contains i := by
      simp only [Group.Contains, Run.Contains, Group.run]; omega
    have hcj : parent.Contains j := by
      simp only [Group.Contains, Run.Contains, Group.run]; omega
    exact ⟨⟨parent, hp, hci, hcj⟩, (hparent parent hp hci hcj).mp ⟨r, hr, hgi, hgj⟩⟩
  · rintro ⟨⟨parent, hp, hci, hcj⟩, he⟩
    obtain ⟨r, hr, hri, hrj⟩ := (hparent parent hp hci hcj).mpr he
    refine ⟨⟨r.start, r.length, parent.fileSize⟩, ?_, hri, hrj⟩
    rw [h.groups_eq, refinedGroups, List.mem_flatMap]
    exact ⟨parent, hp, List.mem_map_of_mem hr⟩

/-- The output groups are in bounds and do not overlap, whatever the order
the input groups came in. -/
theorem separate (h : RefinedTo key groups entries result)
    (hsep : SeparateGroups groups entries.length) :
    SeparateGroups result.groups result.entries.length where
  inBounds := by
    intro s hs
    obtain ⟨g, hg, rfl⟩ := List.mem_map.mp hs
    obtain ⟨parent, hp, r, hr, rfl⟩ := h.exists_parent hg
    have hb := h.bounds_of_mem hsep hp hr
    have hin := hsep.inBounds _ (List.mem_map_of_mem hp)
    simp only [Run.InBounds, Group.run, h.length_entries] at hin ⊢
    omega
  disjoint := by
    rw [h.groups_eq, refinedGroups, List.map_flatMap]
    refine List.pairwise_flatMap.mpr ⟨fun parent hp => ?_, ?_⟩
    · rw [List.map_map, List.pairwise_map]
      refine (pairwise_scanRuns key _ _).imp fun {r s} hrs i hi => ?_
      simp only [Function.comp_apply, Group.run, Run.Contains] at hi
      omega
    · have hd := hsep.disjoint
      rw [List.pairwise_map] at hd
      refine hd.imp_of_mem fun {p q} hp hq hpq r hr s hs i hi => ?_
      simp only [List.map_map, List.mem_map, Function.comp_apply] at hr hs
      obtain ⟨r, hr, rfl⟩ := hr
      obtain ⟨s, hs, rfl⟩ := hs
      have hbr := h.bounds_of_mem hsep hp hr
      have hbs := h.bounds_of_mem hsep hq hs
      simp only [Group.run, Run.Contains] at hi
      refine hpq i ?_
      simp only [Group.run, Run.Contains]
      omega

/-- Entries of one input group with equal keys are in one output group,
wherever the stage put them. -/
theorem exists_together (h : RefinedTo key groups entries result)
    (hsep : SeparateGroups groups entries.length) {i j : Nat} (hij : i ≠ j)
    (hsame : SameGroup groups i j) (hkey : (entries[i]?).map key = (entries[j]?).map key) :
    ∃ p q, SameGroup result.groups p q ∧ result.entries[p]? = entries[i]? ∧
      result.entries[q]? = entries[j]? := by
  obtain ⟨group, hgroup, hi, hj⟩ := hsame
  have hin := hsep.inBounds _ (List.mem_map_of_mem hgroup)
  obtain ⟨move, hmove, hinj⟩ := h.permWithin.exists_moved (List.mem_map_of_mem hgroup) hin
  obtain ⟨hmoveI, hgetI⟩ := hmove i hi
  obtain ⟨hmoveJ, hgetJ⟩ := hmove j hj
  have hlt : ∀ k, group.Contains k → k < result.entries.length := fun k hk => by
    rw [h.length_entries]
    exact hin.lt_of_contains hk
  refine ⟨move i, move j, ?_, hgetI, hgetJ⟩
  refine (h.sameGroup_iff hsep (fun heq => hij (hinj i j hi hj heq)) (hlt _ hmoveI)
    (hlt _ hmoveJ)).mpr ⟨⟨group, hgroup, hmoveI, hmoveJ⟩, ?_⟩
  rw [← hgetI, ← hgetJ, List.getElem?_eq_getElem (hlt _ hmoveI),
    List.getElem?_eq_getElem (hlt _ hmoveJ)] at hkey
  exact Option.some.inj hkey

/-- Two entries of one output group are two entries of one input group, with
equal keys. -/
theorem exists_apart (h : RefinedTo key groups entries result)
    (hsep : SeparateGroups groups entries.length) {p q : Nat} (hpq : p ≠ q)
    (hsame : SameGroup result.groups p q) :
    ∃ i j, i ≠ j ∧ SameGroup groups i j ∧ result.entries[p]? = entries[i]? ∧
      result.entries[q]? = entries[j]? ∧ (entries[i]?).map key = (entries[j]?).map key := by
  have hlt : ∀ k group, group ∈ result.groups → group.Contains k → k < result.entries.length :=
    fun k group hgroup hk =>
      ((h.separate hsep).inBounds _ (List.mem_map_of_mem hgroup)).lt_of_contains hk
  obtain ⟨last, hlast, hp, hq⟩ := hsame
  have hpLt := hlt p last hlast hp
  have hqLt := hlt q last hlast hq
  obtain ⟨⟨group, hgroup, hgp, hgq⟩, hkey⟩ :=
    (h.sameGroup_iff hsep hpq hpLt hqLt).mp ⟨last, hlast, hp, hq⟩
  have hin := hsep.inBounds _ (List.mem_map_of_mem hgroup)
  rw [← h.length_entries] at hin
  obtain ⟨move, hmove, hinj⟩ :=
    h.permWithin.symm.exists_moved (List.mem_map_of_mem hgroup) hin
  obtain ⟨hmoveP, hgetP⟩ := hmove p hgp
  obtain ⟨hmoveQ, hgetQ⟩ := hmove q hgq
  refine ⟨move p, move q, fun heq => hpq (hinj p q hgp hgq heq), ⟨group, hgroup, hmoveP, hmoveQ⟩,
    hgetP.symm, hgetQ.symm, ?_⟩
  rw [hgetP, hgetQ, List.getElem?_eq_getElem hpLt, List.getElem?_eq_getElem hqLt]
  exact congrArg some hkey

end RefinedTo

/-- With a pool that serves every request a stage succeeds. -/
theorem isSome_refineGroups (hall : ∀ n, allocates n = true) (groups : List Group)
    (entries : List FileEntry) :
    (refineGroups sort allocates lessThan key entries groups).isSome := by
  have hloop : ∀ (gs : List Group) (es : List FileEntry) (b : GroupBuffer),
      (refineLoop sort allocates lessThan key gs es b).isSome := by
    intro gs
    induction gs with
    | nil => exact fun _ _ => rfl
    | cons g gs ih =>
        intro es b
        obtain ⟨b₁, hb₁⟩ := Option.isSome_iff_exists.mp (GroupBuffer.isSome_pushRuns hall
          (fun _ => g.fileSize) (scanRuns key g.startIndex
            (slice g.run (updateSlice (sort.run lessThan) g.run es))) b)
        simp only [refineLoop, hb₁, Option.bind_some]
        exact ih _ _
  simp only [refineGroups, hall, if_true]
  split
  · rfl
  · rw [Option.isSome_map]; exact hloop _ _ _

end Stage

/-! ## the two keys -/

theorem ordersBy_fastHash : OrdersBy groupingFastHashLessThan FileEntry.fastHash where
  asymm a b h := by
    simp only [groupingFastHashLessThan, decide_eq_true_eq, decide_eq_false_iff_not,
      UInt64.lt_iff_toNat_lt] at h ⊢
    omega
  trans a b c h₁ h₂ := by
    simp only [groupingFastHashLessThan, decide_eq_false_iff_not, UInt64.lt_iff_toNat_lt] at *
    omega
  key_eq_iff a b := by
    simp only [groupingFastHashLessThan, decide_eq_false_iff_not, UInt64.lt_iff_toNat_lt,
      ← UInt64.toNat_inj]
    omega

theorem ordersBy_digest (digestSize : Nat) :
    OrdersBy (groupingFullHashLessThan digestSize) (FileEntry.digest digestSize) where
  asymm a b h := by
    simp only [groupingFullHashLessThan, decide_eq_true_eq, decide_eq_false_iff_not] at h ⊢
    exact List.lt_asymm h
  trans a b c h₁ h₂ := by
    simp only [groupingFullHashLessThan, decide_eq_false_iff_not] at *
    exact List.not_lt.mpr (List.le_trans (List.not_lt.mp h₁) (List.not_lt.mp h₂))
  key_eq_iff a b := by
    simp only [groupingFullHashLessThan, decide_eq_false_iff_not]
    constructor
    · intro he
      rw [he]
      exact ⟨List.lt_irrefl _, List.lt_irrefl _⟩
    · rintro ⟨h₁, h₂⟩
      exact List.le_antisymm (List.not_lt.mp h₂) (List.not_lt.mp h₁)

end BcDuplicate
