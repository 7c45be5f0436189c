import BcDuplicate.Base.Classes
import BcDuplicate.Grouping.Exact
import BcDuplicate.Stages.Content

/-!
# BcDuplicate.Stages.Order

The order in which discovery delivers the files.  With fixed hash values the
final groups are the classes of size, fast hash and digest among the survivors
of the compaction, so the order matters only through the survivors: for the
names of hardlinked files (`reported_order_independent`).
-/

namespace BcDuplicate

open Runs
open Sorting
open Copying
open Updates

/-! ## groups as sets -/

/-- The final groups, each as the set of the names of its entries. -/
def reportedBy {β : Type} (name : FileEntry → β) (result : Duplicates) : Set (Set β) :=
  {names | ∃ group ∈ result.groups, names =
    {x | ∃ i entry, group.Contains i ∧ result.entries[i]? = some entry ∧ name entry = x}}

/-- The reported paths, group by group. -/
def reportedPaths (result : Duplicates) : Set (Set Bytes) :=
  reportedBy FileEntry.absolutePath result

/-- The reported files, group by group: which of its names stands for a file
does not show. -/
def reportedFiles (result : Duplicates) : Set (Set (Nat × Nat × Nat)) :=
  reportedBy FileEntry.identity result

section Classes

variable {κ : Type} [DecidableEq κ] {key : FileEntry → κ} {groups : List Group}
  {entries : List FileEntry} {m : Nat}

omit [DecidableEq κ] in
/-- Groups that hold a key class of the front with each of their positions
hold no more. -/
theorem contains_iff_of_sameGroup (hsep : SeparateGroups groups entries.length)
    (htwo : ∀ group ∈ groups, 2 ≤ group.entryCount)
    (hsame : ∀ i j, i ≠ j → i < entries.length → j < entries.length → (SameGroup groups i j ↔
      i < m ∧ j < m ∧ (entries[i]?).map key = (entries[j]?).map key))
    {group : Group} (hgroup : group ∈ groups) {i : Nat} (hi : group.Contains i) :
    i < m ∧ ∀ j, group.Contains j ↔ j < m ∧ (entries[j]?).map key = (entries[i]?).map key := by
  have hlt : ∀ {j}, group.Contains j → j < entries.length := fun hj =>
    lt_of_mem_candidateIndices hsep (mem_candidateIndices.mpr ⟨group, hgroup, hj⟩)
  obtain ⟨other, hne, hother⟩ := Group.exists_other (htwo group hgroup) hi
  have him := ((hsame i other hne (hlt hi) (hlt hother)).mp ⟨group, hgroup, hi, hother⟩).1
  refine ⟨him, fun j => ?_⟩
  by_cases hij : i = j
  · subst hij
    exact ⟨fun _ => ⟨him, rfl⟩, fun _ => hi⟩
  constructor
  · intro hj
    obtain ⟨_, hjm, hkey⟩ := (hsame i j hij (hlt hi) (hlt hj)).mp ⟨group, hgroup, hi, hj⟩
    exact ⟨hjm, hkey.symm⟩
  · rintro ⟨hjm, hkey⟩
    have hj : j < entries.length := by
      rw [List.getElem?_eq_getElem (hlt hi)] at hkey
      obtain ⟨_, hentry, _⟩ := Option.map_eq_some_iff.mp hkey
      exact (List.getElem?_eq_some_iff.mp hentry).1
    obtain ⟨group', hgroup', hi', hj'⟩ := (hsame i j hij (hlt hi) hj).mpr ⟨him, hjm, hkey.symm⟩
    obtain ⟨a, ha⟩ := List.mem_iff_getElem?.mp hgroup
    obtain ⟨b, hb⟩ := List.mem_iff_getElem?.mp hgroup'
    obtain rfl := hsep.eq_of_contains ha hb hi hi'
    rw [ha, Option.some.injEq] at hb
    exact hb ▸ hj'

section Sets

variable {β : Type} {name : FileEntry → β} {result : Duplicates}
  (hsep : SeparateGroups result.groups result.entries.length)
  (htwo : ∀ group ∈ result.groups, 2 ≤ group.entryCount)
  (hsame : ∀ i j, i ≠ j → i < result.entries.length → j < result.entries.length →
    (SameGroup result.groups i j ↔
      i < m ∧ j < m ∧ (result.entries[i]?).map key = (result.entries[j]?).map key))

omit [DecidableEq κ] in
include hsep htwo hsame in
/-- The names of a group that holds a position of key `k` are those of the
front with this key. -/
theorem names_eq_of_contains {group : Group} (hgroup : group ∈ result.groups) {i : Nat} {k : κ}
    (hi : group.Contains i) (hk : (result.entries[i]?).map key = some k) :
    {x | ∃ i entry, group.Contains i ∧ result.entries[i]? = some entry ∧ name entry = x} =
      {x | (x, k) ∈ (result.entries.take m).map fun entry => (name entry, key entry)} := by
  obtain ⟨_, hclass⟩ := contains_iff_of_sameGroup hsep htwo hsame hgroup hi
  have htake : ∀ {j : Nat}, j < m → (result.entries.take m)[j]? = result.entries[j]? :=
    fun hj => List.getElem?_take_of_lt hj
  ext x
  rw [Set.mem_ofPred_eq, Set.mem_ofPred_eq, List.mem_map]
  constructor
  · rintro ⟨j, entry, hj, hentry, rfl⟩
    obtain ⟨hjm, hkey⟩ := (hclass j).mp hj
    rw [hk, hentry] at hkey
    refine ⟨entry, List.mem_of_getElem? ((htake hjm).trans hentry), ?_⟩
    rw [Option.some.inj hkey]
  · rintro ⟨entry, hmem, hpair⟩
    obtain ⟨rfl, hkey⟩ := Prod.mk.inj hpair
    obtain ⟨j, hentry⟩ := List.mem_iff_getElem?.mp hmem
    have hjm : j < m := by
      have := (List.getElem?_eq_some_iff.mp hentry).1
      rw [List.length_take] at this
      omega
    rw [htake hjm] at hentry
    refine ⟨j, entry, (hclass j).mpr ⟨hjm, ?_⟩, hentry, rfl⟩
    rw [hk, hentry, Option.map_some, hkey]

include hsep htwo hsame in
/-- **The groups, as sets, are the classes** of the front. -/
theorem reportedBy_eq_classSets : reportedBy name result =
    classSets ((result.entries.take m).map fun entry => (name entry, key entry)) := by
  have hsnd : ((result.entries.take m).map fun entry => (name entry, key entry)).map Prod.snd =
      (result.entries.take m).map key := by
    rw [List.map_map]
    rfl
  have htake : ∀ {i : Nat}, i < m → (result.entries.take m)[i]? = result.entries[i]? :=
    fun hi => List.getElem?_take_of_lt hi
  ext names
  rw [reportedBy, classSets, Set.mem_ofPred_eq, Set.mem_ofPred_eq, hsnd]
  constructor
  · rintro ⟨group, hgroup, rfl⟩
    -- a group has a second entry beside its first, with the same key
    have hfirst : group.Contains group.startIndex :=
      ⟨Nat.le_refl _, by have := htwo group hgroup; simp only [Group.run]; omega⟩
    obtain ⟨other, hne, hother⟩ := Group.exists_other (htwo group hgroup) hfirst
    obtain ⟨hlt, hclass⟩ := contains_iff_of_sameGroup hsep htwo hsame hgroup hfirst
    have hbound := lt_of_mem_candidateIndices hsep
      (mem_candidateIndices.mpr ⟨group, hgroup, hfirst⟩)
    have hk : (result.entries[group.startIndex]?).map key =
        some (key result.entries[group.startIndex]) := by
      rw [List.getElem?_eq_getElem hbound]
      rfl
    refine ⟨_, two_le_count_iff.mpr ⟨_, other, hne, ?_, ?_⟩,
      names_eq_of_contains hsep htwo hsame hgroup hfirst hk⟩
    · rw [htake hlt, hk]
    · rw [htake ((hclass other).mp hother).1, ((hclass other).mp hother).2, hk]
  · rintro ⟨k, hcount, rfl⟩
    obtain ⟨i, j, hij, hi, hj⟩ := two_le_count_iff.mp hcount
    have hlt : ∀ {i : Nat}, ((result.entries.take m)[i]?).map key = some k →
        i < m ∧ i < result.entries.length := by
      intro i hi
      obtain ⟨_, hentry, _⟩ := Option.map_eq_some_iff.mp hi
      have := (List.getElem?_eq_some_iff.mp hentry).1
      rw [List.length_take] at this
      omega
    have hi' := hi
    have hj' := hj
    rw [htake (hlt hi).1] at hi'
    rw [htake (hlt hj).1] at hj'
    obtain ⟨group, hgroup, hgi, _⟩ := (hsame i j hij (hlt hi).2 (hlt hj).2).mpr
      ⟨(hlt hi).1, (hlt hj).1, hi'.trans hj'.symm⟩
    exact ⟨group, hgroup, (names_eq_of_contains hsep htwo hsame hgroup hgi hi').symm⟩

end Sets

end Classes

/-! ## runs with fixed hash values -/

/-- The hash values of each file. -/
structure FileHashes where
  fastHash : Bytes × Nat × Nat × Nat → UInt64
  fullHash : Bytes × Nat × Nat × Nat → Bytes

namespace FileHashes

variable (hashes : FileHashes)

/-- The passes store the values of their candidates. -/
def fast (_ : Nat) (entry : FileEntry) : FileEntry :=
  (FastOutcome.hashed (hashes.fastHash entry.file)).apply entry

def full (_ : Nat) (entry : FileEntry) : FileEntry :=
  (FullOutcome.hashed (hashes.fullHash entry.file)).apply entry

/-- What the final groups are the classes of. -/
def key (digestSize : Nat) (entry : FileEntry) : Nat × UInt64 × Bytes :=
  (entry.fileSize, hashes.fastHash entry.file, (hashes.fullHash entry.file).take digestSize)

/-- Two entries of one file have one size and one content. -/
def Linked (entries : List FileEntry) : Prop :=
  ∀ a ∈ entries, ∀ b ∈ entries, a.deviceId = b.deviceId → a.inodeNumber = b.inodeNumber →
    a.fileSize = b.fileSize ∧ hashes.fastHash a.file = hashes.fastHash b.file ∧
      hashes.fullHash a.file = hashes.fullHash b.file

end FileHashes

/-- The grouping by size and the hashing stages on the files discovery found. -/
def duplicateStages (sort : SortFn) (copy : CopyFn) (pools : Pools) (digestSize : Nat)
    (fastPass fullPass : Pass) (matchHardlinks : Bool) (discovered : List FileEntry) :
    StagesResult :=
  match groupingBySize sort copy pools.bySize discovered matchHardlinks with
  | none => .failed
  | some sizes => hashStages sort pools digestSize fastPass fullPass sizes.entries sizes.groups

section Fixed

variable {hashes : FileHashes} {sort : SortFn} {copy : CopyFn} {digestSize : Nat}
  {discovered : List FileEntry} {matchHardlinks : Bool} {sizes : SizeGrouping}
  {grouped final : HashGrouping}

/-- Two positions share a final group exactly when their entries survived and
agree in size and in both hash values. -/
theorem sameGroup_final_iff_key (hsized : SizeGrouped sort discovered matchHardlinks sizes)
    (hstaged : HashStaged hashes.fast hashes.full digestSize sizes.entries sizes.groups grouped
      final) {i j : Nat} (hij : i ≠ j) (hi : i < final.entries.length)
    (hj : j < final.entries.length) :
    SameGroup final.groups i j ↔
      i < (survivingEntries sort discovered matchHardlinks).length ∧
      j < (survivingEntries sort discovered matchHardlinks).length ∧
      hashes.key digestSize final.entries[i] = hashes.key digestSize final.entries[j] := by
  have hsep := hsized.separate
  have hkeepsFile : Keeps FileEntry.file hashes.full := fun _ _ => rfl
  have hkeepsHash : Keeps FileEntry.fastHash hashes.full := fun _ _ => rfl
  -- the hash values of candidates are those of their files
  have hfast : ∀ {k : Nat} (hk : k < final.entries.length),
      (∃ parent ∈ sizes.groups, parent.Contains k) →
      final.entries[k].fastHash = hashes.fastHash final.entries[k].file := by
    intro k hk hgroup
    obtain ⟨o, source, hfile, hhash⟩ :=
      hstaged.fast_origin_of_contains hsep hkeepsFile hkeepsHash hk hgroup
    rw [hhash, hfile]
    rfl
  have hfull : ∀ {k : Nat} (hk : k < final.entries.length),
      (∃ group ∈ grouped.groups, group.Contains k) →
      final.entries[k].digest digestSize =
        (hashes.fullHash final.entries[k].file).take digestSize := by
    intro k hk hgroup
    obtain ⟨o, source, heq⟩ := hstaged.full_origin_of_contains hsep hk hgroup
    rw [heq]
    rfl
  rw [sameGroup_final_iff_of_values hsized hstaged (fun _ _ => rfl) hkeepsFile hkeepsHash hij hi hj
    (hfast hi) (hfast hj) (hfull hi) (hfull hj), FileHashes.key, FileHashes.key, Prod.mk.injEq,
    Prod.mk.injEq]

/-- **The reported groups are the classes of the survivors.** -/
theorem reportedBy_eq {β : Type} (name : Bytes × Nat × Nat × Nat → β) {pools : Pools}
    {result : Duplicates} (hcopies : CopyServes sort copy discovered matchHardlinks)
    (h : duplicateStages sort copy pools digestSize (updatePass hashes.fast)
      (updatePass hashes.full) matchHardlinks discovered = .done result) :
    reportedBy (fun entry => name entry.file) result =
      classSets ((survivingEntries sort discovered matchHardlinks).map
        fun entry => (name entry.file, hashes.key digestSize entry)) := by
  unfold duplicateStages at h
  split at h
  · cases h
  · next sizes hsizes =>
    have hsized := sizeGrouped_of_groupingBySize hcopies hsizes
    obtain ⟨grouped, final, _, hstaged, hentries, hgroups⟩ :=
      hashStaged_of_done hsized.separate h
    -- names and keys are read off the files
    have hpairs : (fun entry : FileEntry => (name entry.file, hashes.key digestSize entry)) =
        (fun file : Bytes × Nat × Nat × Nat => (name file,
          (file.2.1, hashes.fastHash file, (hashes.fullHash file).take digestSize))) ∘
            FileEntry.file := rfl
    rw [@reportedBy_eq_classSets _ _ (hashes.key digestSize)
      (survivingEntries sort discovered matchHardlinks).length _ _ _
      (by rw [hentries, hgroups]; exact hstaged.separate_final hsized.separate)
      (by rw [hgroups]; exact fun group hgroup => hstaged.byFullHash.two_le_entryCount hgroup)]
    · rw [hentries]
      refine classSets_perm ?_
      rw [hpairs, ← List.map_map, ← List.map_map]
      exact (perm_survivors hsized hstaged (fun _ _ => rfl) (fun _ _ => rfl)).map _
    · intro i j hij hi hj
      rw [hentries] at hi hj
      rw [hentries, hgroups, sameGroup_final_iff_key hsized hstaged hij hi hj,
        List.getElem?_eq_getElem hi, List.getElem?_eq_getElem hj, Option.map_some, Option.map_some,
        Option.some.injEq]

end Fixed

/-! ## two orders -/

section TwoOrders

variable {hashes : FileHashes} {front back : List FileEntry}

/-- Either order leaves each file once, whatever its name: what is the same
for all names of a file is the same among the survivors. -/
theorem perm_survivingEntries_of_linked {β : Type} (value : FileEntry → β) (sort sort' : SortFn)
    (hperm : front.Perm back)
    (hvalue : ∀ a ∈ front, ∀ b ∈ front, a.identity = b.identity → value a = value b) :
    ((survivingEntries sort front false).map fun entry => (entry.identity, value entry)).Perm
      ((survivingEntries sort' back false).map fun entry => (entry.identity, value entry)) := by
  have hnodup : ∀ (sort : SortFn) (entries : List FileEntry),
      ((survivingEntries sort entries false).map fun entry =>
        (entry.identity, value entry)).Nodup := by
    intro sort entries
    refine List.Nodup.of_map Prod.fst ?_
    rw [List.map_map]
    have := map_identity_survivingEntries sort entries
    exact this ▸ List.nodup_dedup _
  have hmem : ∀ (sort : SortFn) (entries : List FileEntry), entries.Perm front →
      ∀ pair, (pair ∈ (survivingEntries sort entries false).map fun entry =>
        (entry.identity, value entry)) ↔
          ∃ entry ∈ front, (entry.identity, value entry) = pair := by
    intro sort entries hentries pair
    have hsubset : ∀ entry ∈ survivingEntries sort entries false, entry ∈ front := fun entry h =>
      hentries.mem_iff.mp ((sort.mem_run _ _ _).mp
        ((survivingEntries_sublist sort entries false).subset h))
    rw [List.mem_map]
    constructor
    · rintro ⟨entry, hentry, rfl⟩
      exact ⟨entry, hsubset entry hentry, rfl⟩
    · rintro ⟨entry, hentry, rfl⟩
      have hsorted := (sort.mem_run groupingSizeDevInoLessThan entries entry).mpr
        (hentries.mem_iff.mpr hentry)
      have hidentity := List.mem_dedup.mpr (List.mem_map_of_mem (f := FileEntry.identity) hsorted)
      rw [← map_identity_survivingEntries] at hidentity
      obtain ⟨kept, hkept, hsame⟩ := List.mem_map.mp hidentity
      exact ⟨kept, hkept, by rw [hsame, hvalue kept (hsubset kept hkept) entry hentry hsame]⟩
  refine (List.perm_ext_iff_of_nodup (hnodup sort front) (hnodup sort' back)).mpr fun pair => ?_
  rw [hmem sort front (.refl _), hmem sort' back hperm.symm]

end TwoOrders

/-- Every reported entry has the path of the first entry of its file in the
sorted array. -/
def FirstNamed (sort : SortFn) (discovered : List FileEntry) (result : Duplicates) : Prop :=
  ∀ group ∈ result.groups, ∀ i, group.Contains i → ∃ entry, result.entries[i]? = some entry ∧
    ((sort.run groupingSizeDevInoLessThan discovered).find? fun first =>
      decide (first.identity = entry.identity)).map FileEntry.absolutePath =
        some entry.absolutePath

/-- **The name that is reported**, with hardlinks collapsed, is the one the sort
puts first. -/
theorem firstNamed_of_done {sort : SortFn} {copy : CopyFn} {pools : Pools} {digestSize : Nat}
    {hashes : FileHashes} {discovered : List FileEntry} {result : Duplicates}
    (hcopies : CopyServes sort copy discovered false)
    (h : duplicateStages sort copy pools digestSize (updatePass hashes.fast)
      (updatePass hashes.full) false discovered = .done result) :
    FirstNamed sort discovered result := by
  unfold duplicateStages at h
  split at h
  · cases h
  · next sizes hsizes =>
    have hsized := sizeGrouped_of_groupingBySize hcopies hsizes
    obtain ⟨grouped, final, _, hstaged, hentries, hgroups⟩ :=
      hashStaged_of_done hsized.separate h
    intro group hgroup i hi
    rw [hgroups] at hgroup
    rw [hentries]
    obtain ⟨hlt, parent, hparent, hin⟩ :=
      hstaged.contains_sizeGroup_of_final hsized.separate hgroup hi
    have hfront := hsized.lt_survivors hparent hin
    -- the entry stands for a survivor, with its path and identity
    have hperm := perm_survivors hsized hstaged (fun _ _ => rfl) (fun _ _ => rfl)
    have htake : final.entries[i] ∈
        final.entries.take (survivingEntries sort discovered false).length :=
      List.mem_of_getElem? ((List.getElem?_take_of_lt hfront).trans (List.getElem?_eq_getElem hlt))
    obtain ⟨survivor, hsurvivor, hfile⟩ := List.mem_map.mp
      (hperm.mem_iff.mp (List.mem_map_of_mem (f := FileEntry.file) htake))
    obtain ⟨hpath, hidentity⟩ := Prod.mk.inj hfile
    refine ⟨final.entries[i], List.getElem?_eq_getElem hlt, ?_⟩
    have hsame : final.entries[i].identity = survivor.identity := hidentity.symm
    rw [hsame, find?_of_mem_survivingEntries hsurvivor, Option.map_some, hpath]

/-- **The order of discovery.**  With fixed hash values, equal for the names of
one file, the final groups of any two orders are the same as sets of files;
they are the same as sets of paths when hardlinks are matched, or no file was
discovered under two names.  When they are collapsed each file is reported
under the name that the sort of its run puts first. -/
theorem reported_order_independent (sort sort' : SortFn) (copy copy' : CopyFn)
    (pools pools' : Pools) (digestSize : Nat) (hashes : FileHashes) (matchHardlinks : Bool)
    (front back : List FileEntry) (hcopies : CopyServes sort copy front matchHardlinks)
    (hcopies' : CopyServes sort' copy' back matchHardlinks)
    (hperm : front.Perm back) (hlinked : hashes.Linked front) (result result' : Duplicates)
    (hfront : duplicateStages sort copy pools digestSize (updatePass hashes.fast)
      (updatePass hashes.full) matchHardlinks front = .done result)
    (hback : duplicateStages sort' copy' pools' digestSize (updatePass hashes.fast)
      (updatePass hashes.full) matchHardlinks back = .done result') :
    reportedFiles result = reportedFiles result' ∧
      (matchHardlinks = true ∨ (∀ a ∈ front, ∀ b ∈ front, a.identity = b.identity →
          a.absolutePath = b.absolutePath) →
        reportedPaths result = reportedPaths result') ∧
      (matchHardlinks = false → FirstNamed sort front result ∧ FirstNamed sort' back result') := by
  have hfiles : ∀ result : Duplicates, reportedFiles result =
      reportedBy (fun entry => entry.file.2) result := fun _ => rfl
  have hpaths : ∀ result : Duplicates, reportedPaths result =
      reportedBy (fun entry => entry.file.1) result := fun _ => rfl
  have hkey : ∀ a ∈ front, ∀ b ∈ front, a.identity = b.identity →
      hashes.key digestSize a = hashes.key digestSize b := by
    intro a ha b hb hsame
    obtain ⟨_, hdevice, hinode⟩ := Prod.mk.inj hsame |>.imp_right Prod.mk.inj
    obtain ⟨hsize, hfast, hfull⟩ := hlinked a ha b hb hdevice hinode
    rw [FileHashes.key, FileHashes.key, hsize, hfast, hfull]
  rw [hfiles, hfiles, hpaths, hpaths, reportedBy_eq Prod.snd hcopies hfront,
    reportedBy_eq Prod.snd hcopies' hback, reportedBy_eq Prod.fst hcopies hfront,
    reportedBy_eq Prod.fst hcopies' hback]
  cases matchHardlinks with
  | true =>
      have hsurvivors : (survivingEntries sort front true).Perm (survivingEntries sort' back true) :=
        (sort.perm _ _).trans (hperm.trans (sort'.perm _ _).symm)
      exact ⟨classSets_perm (hsurvivors.map _), fun _ => classSets_perm (hsurvivors.map _), nofun⟩
  | false =>
      refine ⟨classSets_perm (perm_survivingEntries_of_linked _ sort sort' hperm hkey), ?_,
        fun _ => ⟨firstNamed_of_done hcopies hfront, firstNamed_of_done hcopies' hback⟩⟩
      intro hnames
      replace hnames := hnames.resolve_left Bool.noConfusion
      have hpairs := (perm_survivingEntries_of_linked
        (fun entry => (entry.absolutePath, hashes.key digestSize entry)) sort sort' hperm
        fun a ha b hb hsame => by rw [hnames a ha b hb hsame, hkey a ha b hb hsame]).map Prod.snd
      rw [List.map_map, List.map_map] at hpairs
      exact classSets_perm hpairs

/-! ### a file with two names -/

/-- Every file has the same hash values. -/
def FileHashes.constant : FileHashes := ⟨fun _ => 7, fun _ => [1]⟩

/-- Two names of one file, and another file with the same contents. -/
def twoNames : List FileEntry :=
  [.discovered [97] 5 1 1, .discovered [98] 5 1 1, .discovered [99] 5 1 2]

/-- The same, the second name first. -/
def twoNamesSwapped : List FileEntry :=
  [.discovered [98] 5 1 1, .discovered [97] 5 1 1, .discovered [99] 5 1 2]

theorem linked_twoNames : FileHashes.constant.Linked twoNames := by
  have hsize : ∀ a ∈ twoNames, a.fileSize = 5 := by decide
  exact fun a ha b hb _ _ => ⟨(hsize a ha).trans (hsize b hb).symm, rfl, rfl⟩

/-- The stages on these files. -/
def constantStages (matchHardlinks : Bool) (discovered : List FileEntry) : StagesResult :=
  duplicateStages insertionSort memmove .unlimited 32 (updatePass FileHashes.constant.fast)
    (updatePass FileHashes.constant.full) matchHardlinks discovered

theorem exists_constantStages : ∀ matchHardlinks : Bool,
    ∀ discovered ∈ [twoNames, twoNamesSwapped], ∃ result,
      constantStages matchHardlinks discovered = .done result := by
  have hdone : ∀ matchHardlinks : Bool, ∀ discovered ∈ [twoNames, twoNamesSwapped],
      constantStages matchHardlinks discovered ≠ .failed ∧
        constantStages matchHardlinks discovered ≠ .blocked := by decide +kernel
  intro matchHardlinks discovered hdiscovered
  obtain ⟨hfailed, hblocked⟩ := hdone matchHardlinks discovered hdiscovered
  cases hresult : constantStages matchHardlinks discovered with
  | done result => exact ⟨result, rfl⟩
  | failed => exact absurd hresult hfailed
  | blocked => exact absurd hresult hblocked

theorem reported_order_independent_matched : ∃ result result',
    constantStages true twoNames = .done result ∧
    constantStages true twoNamesSwapped = .done result' ∧
    reportedPaths result = reportedPaths result' := by
  obtain ⟨result, hresult⟩ := exists_constantStages true twoNames (by simp)
  obtain ⟨result', hresult'⟩ := exists_constantStages true twoNamesSwapped (by simp)
  exact ⟨result, result', hresult, hresult', (reported_order_independent insertionSort insertionSort
    memmove memmove .unlimited .unlimited 32 .constant true twoNames twoNamesSwapped
    (Or.inl moves_memmove) (Or.inl moves_memmove) (.swap _ _ _) linked_twoNames result result'
    hresult hresult').2.1 (Or.inl rfl)⟩

/-- **The name that comes first is reported.** -/
theorem order_shows_in_names :
    ¬∀ (sort : SortFn) (copy : CopyFn) (pools : Pools) (digestSize : Nat) (hashes : FileHashes)
        (matchHardlinks : Bool) (front back : List FileEntry) (result result' : Duplicates),
      copy.Moves → front.Perm back → hashes.Linked front →
      duplicateStages sort copy pools digestSize (updatePass hashes.fast)
        (updatePass hashes.full) matchHardlinks front = .done result →
      duplicateStages sort copy pools digestSize (updatePass hashes.fast)
        (updatePass hashes.full) matchHardlinks back = .done result' →
      reportedPaths result = reportedPaths result' := by
  intro h
  obtain ⟨result, hresult⟩ := exists_constantStages false twoNames (by simp)
  obtain ⟨result', hresult'⟩ := exists_constantStages false twoNamesSwapped (by simp)
  have hsame := h insertionSort memmove .unlimited 32 .constant false twoNames twoNamesSwapped
    result result' moves_memmove (.swap _ _ _) linked_twoNames hresult hresult'
  have hpaths : ∀ result : Duplicates, reportedPaths result =
      reportedBy (fun entry => entry.file.1) result := fun _ => rfl
  have hfirst : survivingEntries insertionSort twoNames false =
      [.discovered [97] 5 1 1, .discovered [99] 5 1 2] := by decide +kernel
  have hsecond : survivingEntries insertionSort twoNamesSwapped false =
      [.discovered [98] 5 1 1, .discovered [99] 5 1 2] := by decide +kernel
  rw [hpaths, hpaths, reportedBy_eq Prod.fst (Or.inl moves_memmove) hresult,
    reportedBy_eq Prod.fst (Or.inl moves_memmove) hresult', hfirst, hsecond] at hsame
  -- the class of all files, once with each of the names
  have hin : {x | (x, ((5, 7, [1]) : Nat × UInt64 × Bytes)) ∈
      [((([97], 5, 1, 1) : Bytes × Nat × Nat × Nat).1, (5, 7, [1])), ([99], 5, 7, [1])]} ∈
      classSets [((([97], 5, 1, 1) : Bytes × Nat × Nat × Nat).1,
        ((5, 7, [1]) : Nat × UInt64 × Bytes)), ([99], 5, 7, [1])] := ⟨_, by decide, rfl⟩
  obtain ⟨k, _, hnames⟩ := hsame ▸ hin
  have hmem : [97] ∈ {x | (x, ((5, 7, [1]) : Nat × UInt64 × Bytes)) ∈
      [((([97], 5, 1, 1) : Bytes × Nat × Nat × Nat).1, (5, 7, [1])), ([99], 5, 7, [1])]} :=
    List.mem_cons_self
  rw [hnames, Set.mem_ofPred_eq] at hmem
  simp [FileEntry.discovered, FileEntry.file] at hmem

end BcDuplicate
