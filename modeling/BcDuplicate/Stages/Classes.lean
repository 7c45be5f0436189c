import BcDuplicate.Stages.Order

/-!
# BcDuplicate.Stages.Classes

The final groups as sets, when of every survivor of the compaction something
can be told: its content where it can be read, and its size alone where it
cannot be opened.  Where the digest tells the contents apart, the groups are
the classes of what is told, whatever name the entries are known by
(`reportedBy_eq_of_told`): files that cannot be opened count as duplicates of
each other, and of no other file.
-/

namespace BcDuplicate

open Runs
open Sorting
open Updates

/-! ## files that cannot be opened -/

/-- The `open` of the fast pass fails. -/
def FastView.Refuses (view : FastView) : Prop :=
  ∃ errno, openReadOnly view.openError view.reopenError = .error errno

/-- The `open` of the full pass fails, by the ring and by the stream. -/
structure FileView.Refuses (view : FileView) : Prop where
  ring : ∃ errno, view.ringOpenError = some errno
  stream : ∃ errno, readerOpenReadOnly view = .error errno

/-- Neither pass can open the file. -/
structure Unreadable (fastEnv : FastEnvironment) (fullEnv : FullEnvironment)
    (entry : FileEntry) : Prop where
  fast : ∀ index, (fastEnv.view index entry.absolutePath).Refuses
  full : ∀ index, (fullEnv.view index entry.absolutePath).Refuses

theorem Unreadable.of_file {fastEnv : FastEnvironment} {fullEnv : FullEnvironment}
    {entry entry' : FileEntry} (h : Unreadable fastEnv fullEnv entry)
    (hfile : entry'.file = entry.file) : Unreadable fastEnv fullEnv entry' := by
  have hpath : entry'.absolutePath = entry.absolutePath := congrArg Prod.fst hfile
  exact ⟨fun index => hpath ▸ h.fast index, fun index => hpath ▸ h.full index⟩

theorem fastOutcome_of_refuses (lib : HashLibrary) {view : FastView} (h : view.Refuses)
    (fileSize : Nat) : ∃ errno, fastOutcome lib view fileSize = .failed errno := by
  obtain ⟨errno, hopen⟩ := h
  exact ⟨errno, by rw [fastOutcome, hopen]⟩

/-- Nothing is read of the file, by either route. -/
theorem itemChunks_of_refuses {view : FileView} (h : view.Refuses) (fileSize : Nat) :
    ∃ errno, itemChunks view fileSize = ([], .error errno) := by
  obtain ⟨ring, hring⟩ := h.ring
  obtain ⟨stream, hstream⟩ := h.stream
  unfold itemChunks
  split
  · exact ⟨ring, by rw [ringChunks, hring]⟩
  · exact ⟨stream, by rw [fileChunks, hstream]⟩

/-- **The full pass leaves the digest alone.** -/
theorem fullHash_of_refuses (lib : HashLibrary) (env : FullEnvironment) (algorithm : Algorithm)
    (index : Nat) {entry : FileEntry} (h : (env.view index entry.absolutePath).Refuses) :
    (fullUpdate lib env algorithm index entry).fullHash = entry.fullHash := by
  obtain ⟨errno, hchunks⟩ := itemChunks_of_refuses h entry.fileSize
  rw [fullUpdate_eq, hchunks]
  rfl

/-! ## what can be told of a file -/

/-- The content of a file, or its size alone. -/
inductive Told
  | content (bytes : Bytes)
  | size (fileSize : Nat)
deriving DecidableEq, Repr

namespace Told

def length : Told → Nat
  | .content bytes => bytes.length
  | .size fileSize => fileSize

/-- The fast hash an entry is left with. -/
def fastHash (lib : HashLibrary) : Told → UInt64
  | .content bytes => referenceFastHash lib bytes
  | .size _ => 0

/-- The digest an entry is left with. -/
def digest (reference : HashReference) (algorithm : Algorithm) : Told → Bytes
  | .content bytes => referenceDigest reference algorithm bytes
  | .size _ => List.replicate (workerDigestSize algorithm) 0

/-- This is what the passes can tell of the file. -/
def Holds (fastEnv : FastEnvironment) (fullEnv : FullEnvironment) (entry : FileEntry) :
    Told → Prop
  | .content bytes => Readable fastEnv fullEnv entry bytes
  | .size fileSize => fileSize = entry.fileSize ∧ Unreadable fastEnv fullEnv entry

variable {fastEnv : FastEnvironment} {fullEnv : FullEnvironment}

theorem Holds.of_file {entry entry' : FileEntry} {told : Told}
    (h : told.Holds fastEnv fullEnv entry) (hfile : entry'.file = entry.file) :
    told.Holds fastEnv fullEnv entry' := by
  cases told with
  | content bytes => exact Readable.of_file h hfile
  | size fileSize =>
      have hsize : entry'.fileSize = entry.fileSize :=
        congrArg (fun file : Bytes × Nat × Nat × Nat => file.2.1) hfile
      exact ⟨h.1.trans hsize.symm, h.2.of_file hfile⟩

theorem Holds.length_eq {entry : FileEntry} {told : Told} (h : told.Holds fastEnv fullEnv entry) :
    told.length = entry.fileSize := by
  cases told with
  | content bytes => exact Readable.size h
  | size fileSize => exact h.1

end Told

section Survivors

variable {lib : HashLibrary} {reference : HashReference} {algorithm : Algorithm}
  {fastEnv : FastEnvironment} {fullEnv : FullEnvironment} {sort : SortFn}
  {discovered : List FileEntry} {matchHardlinks : Bool} {sizes : SizeGrouping}
  {grouped final : HashGrouping} (told : Bytes × Nat × Nat × Nat → Told)

/-- Something can be told of every survivor of the compaction, and the digest
tells two of one size apart. -/
structure SurvivorsTold (reference : HashReference) (algorithm : Algorithm)
    (fastEnv : FastEnvironment) (fullEnv : FullEnvironment) (survivors : List FileEntry) :
    Prop where
  holds : ∀ entry ∈ survivors, (told entry.file).Holds fastEnv fullEnv entry
  distinct : ∀ a ∈ survivors, ∀ b ∈ survivors, a.fileSize = b.fileSize →
    (told a.file).digest reference algorithm = (told b.file).digest reference algorithm →
    told a.file = told b.file

variable {told}
  (hsurvivors : SurvivorsTold told reference algorithm fastEnv fullEnv
    (survivingEntries sort discovered matchHardlinks))
include hsurvivors

/-- Survivors of which the same is told have one size. -/
theorem SurvivorsTold.fileSize_eq {a b : FileEntry}
    (ha : a ∈ survivingEntries sort discovered matchHardlinks)
    (hb : b ∈ survivingEntries sort discovered matchHardlinks)
    (htold : told a.file = told b.file) : a.fileSize = b.fileSize := by
  rw [← (hsurvivors.holds a ha).length_eq, ← (hsurvivors.holds b hb).length_eq, htold]

section Staged

variable (hsized : SizeGrouped sort discovered matchHardlinks sizes)
  (hstaged : HashStaged (fastUpdate lib fastEnv) (fullUpdate lib fullEnv algorithm)
    (workerDigestSize algorithm) sizes.entries sizes.groups grouped final)
include hsized hstaged

omit hsurvivors in
/-- What is at the front of the final array stands for a survivor. -/
theorem exists_survivor {i : Nat} (hi : i < final.entries.length)
    (hfront : i < (survivingEntries sort discovered matchHardlinks).length) :
    ∃ entry ∈ survivingEntries sort discovered matchHardlinks,
      final.entries[i].file = entry.file := by
  have hperm := perm_survivors hsized hstaged (keeps_file_fastUpdate lib fastEnv)
    (keeps_file_fullUpdate lib fullEnv algorithm)
  have htake : final.entries[i] ∈
      final.entries.take (survivingEntries sort discovered matchHardlinks).length :=
    List.mem_of_getElem? ((List.getElem?_take_of_lt hfront).trans (List.getElem?_eq_getElem hi))
  obtain ⟨entry, hentry, hfile⟩ := List.mem_map.mp
    (hperm.mem_iff.mp (List.mem_map_of_mem (f := FileEntry.file) htake))
  exact ⟨entry, hentry, hfile.symm⟩

omit hsurvivors in
/-- An entry of a size group is left with the fast hash of what is told. -/
theorem fastHash_of_told {i : Nat} (hi : i < final.entries.length)
    (hgroup : ∃ parent ∈ sizes.groups, parent.Contains i) {known : Told}
    (hknown : known.Holds fastEnv fullEnv final.entries[i]) :
    final.entries[i].fastHash = known.fastHash lib := by
  cases known with
  | content bytes => exact fastHash_of_readable hstaged hsized.separate hi hgroup hknown
  | size fileSize =>
      obtain ⟨k, source, hfile, hhash⟩ := hstaged.fast_origin_of_contains hsized.separate
        (keeps_file_fullUpdate lib fullEnv algorithm)
        (keeps_fastHash_fullUpdate lib fullEnv algorithm) hi hgroup
      have hsource := hknown.2.of_file
        (hfile.trans (keeps_file_fastUpdate lib fastEnv k source)).symm
      obtain ⟨errno, hfailed⟩ := fastOutcome_of_refuses lib (hsource.fast k) source.fileSize
      rw [hhash, fastUpdate_eq, hfailed]
      rfl

variable (hunhashed : ∀ entry ∈ discovered, entry.Unhashed)
include hunhashed

omit hsurvivors in
/-- An entry of a fast-hash group is left with the digest of what is told. -/
theorem digest_of_told (hlib : lib.Streams reference) {i : Nat} (hi : i < final.entries.length)
    (hgroup : ∃ group ∈ grouped.groups, group.Contains i) {known : Told}
    (hknown : known.Holds fastEnv fullEnv final.entries[i]) :
    final.entries[i].digest (workerDigestSize algorithm) = known.digest reference algorithm := by
  have hsep := hsized.separate
  cases known with
  | content bytes => exact digest_of_readable hstaged hsep hlib hi hgroup hknown
  | size fileSize =>
      obtain ⟨k, hk, horigin, heq⟩ := hstaged.full_origin hsep hi
      obtain ⟨group, hmem, hcontains⟩ : ∃ group ∈ grouped.groups, group.Contains k := by
        rcases horigin with rfl | ⟨group, hmem, hcontains, _⟩
        · exact hgroup
        · exact ⟨group, hmem, hcontains⟩
      rw [if_pos (mem_candidateIndices.mpr ⟨group, hmem, hcontains⟩)] at heq
      -- the entry has no digest yet, and the full pass stores none
      have hkeeps : Keeps (fun entry => (entry.fullHash, entry.fullHashComputed))
          (fastUpdate lib fastEnv) := by
        intro index entry
        rw [fastUpdate_eq]
        exact keeps_fullHash_fast (fun _ => fastOutcome lib (fastEnv.view index entry.absolutePath)
          entry.fileSize) index entry
      have hblank := unhashed_grouped hsized hunhashed hkeeps hstaged.byFastHash hmem hcontains hk
      have hrefuses := (hknown.2.of_file
        ((congrArg FileEntry.file heq).trans
          (keeps_file_fullUpdate lib fullEnv algorithm k _)).symm).full k
      rw [FileEntry.digest, heq, fullHash_of_refuses lib fullEnv algorithm k hrefuses,
        (Prod.mk.inj hblank).1, List.take_replicate, Nat.min_eq_left (workerDigestSize_le algorithm)]
      rfl

/-- Two positions share a final group exactly when they are at the front and
the same is told of their files. -/
theorem sameGroup_final_iff_told (hlib : lib.Streams reference) {i j : Nat} (hij : i ≠ j)
    (hi : i < final.entries.length) (hj : j < final.entries.length) :
    SameGroup final.groups i j ↔
      i < (survivingEntries sort discovered matchHardlinks).length ∧
      j < (survivingEntries sort discovered matchHardlinks).length ∧
      told final.entries[i].file = told final.entries[j].file := by
  have hsep := hsized.separate
  have hholds : ∀ {k : Nat} (hk : k < final.entries.length),
      k < (survivingEntries sort discovered matchHardlinks).length →
      (told final.entries[k].file).Holds fastEnv fullEnv final.entries[k] := by
    intro k hk hfront
    obtain ⟨entry, hentry, hfile⟩ := exists_survivor hsized hstaged hk hfront
    exact hfile ▸ (hsurvivors.holds entry hentry).of_file hfile
  -- the candidates of the two passes are survivors
  have hfast : ∀ {k : Nat} (hk : k < final.entries.length),
      (∃ parent ∈ sizes.groups, parent.Contains k) →
      final.entries[k].fastHash = (told final.entries[k].file).fastHash lib := by
    rintro k hk ⟨parent, hparent, hcontains⟩
    exact fastHash_of_told hsized hstaged hk ⟨parent, hparent, hcontains⟩
      (hholds hk (hsized.lt_survivors hparent hcontains))
  have hfull : ∀ {k : Nat} (hk : k < final.entries.length),
      (∃ group ∈ grouped.groups, group.Contains k) →
      final.entries[k].digest (workerDigestSize algorithm) =
        (told final.entries[k].file).digest reference algorithm := by
    rintro k hk ⟨group, hgroup, hcontains⟩
    obtain ⟨parent, hparent, hin⟩ := hstaged.contains_sizeGroup hsep hgroup hcontains
    exact digest_of_told hsized hstaged hunhashed hlib hk ⟨group, hgroup, hcontains⟩
      (hholds hk (hsized.lt_survivors hparent hin))
  rw [sameGroup_final_iff_of_values hsized hstaged (keeps_file_fastUpdate lib fastEnv)
    (keeps_file_fullUpdate lib fullEnv algorithm) (keeps_fastHash_fullUpdate lib fullEnv algorithm)
    hij hi hj (hfast hi) (hfast hj) (hfull hi) (hfull hj)]
  refine and_congr_right fun hfrontI => and_congr_right fun hfrontJ => ?_
  obtain ⟨a, ha, hfileA⟩ := exists_survivor hsized hstaged hi hfrontI
  obtain ⟨b, hb, hfileB⟩ := exists_survivor hsized hstaged hj hfrontJ
  have hsizeA : final.entries[i].fileSize = a.fileSize :=
    congrArg (fun file : Bytes × Nat × Nat × Nat => file.2.1) hfileA
  have hsizeB : final.entries[j].fileSize = b.fileSize :=
    congrArg (fun file : Bytes × Nat × Nat × Nat => file.2.1) hfileB
  rw [hfileA, hfileB, hsizeA, hsizeB]
  constructor
  · rintro ⟨hsize, _, hdigest⟩
    exact hsurvivors.distinct a ha b hb hsize hdigest
  · intro htold
    exact ⟨hsurvivors.fileSize_eq ha hb htold, by rw [htold], by rw [htold]⟩

/-- **The final groups are the classes of what is told** of the survivors,
under any name. -/
theorem reportedBy_eq_of_told {β : Type} (name : Bytes × Nat × Nat × Nat → β)
    (hlib : lib.Streams reference) {result : Duplicates} (hentries : result.entries = final.entries)
    (hgroups : result.groups = final.groups) :
    reportedBy (fun entry => name entry.file) result =
      classSets ((survivingEntries sort discovered matchHardlinks).map
        fun entry => (name entry.file, told entry.file)) := by
  have hpairs : (fun entry : FileEntry => (name entry.file, told entry.file)) =
      (fun file : Bytes × Nat × Nat × Nat => (name file, told file)) ∘ FileEntry.file := rfl
  rw [@reportedBy_eq_classSets _ _ (fun entry => told entry.file)
    (survivingEntries sort discovered matchHardlinks).length _ _ _
    (by rw [hentries, hgroups]; exact hstaged.separate_final hsized.separate)
    (by rw [hgroups]; exact fun group hgroup => hstaged.byFullHash.two_le_entryCount hgroup)]
  · rw [hentries]
    refine classSets_perm ?_
    rw [hpairs, ← List.map_map, ← List.map_map]
    exact (perm_survivors hsized hstaged (keeps_file_fastUpdate lib fastEnv)
      (keeps_file_fullUpdate lib fullEnv algorithm)).map _
  · intro i j hij hi hj
    rw [hentries] at hi hj
    rw [hentries, hgroups, sameGroup_final_iff_told hsurvivors hsized hstaged hunhashed hlib hij hi
      hj, List.getElem?_eq_getElem hi, List.getElem?_eq_getElem hj, Option.map_some,
      Option.map_some, Option.some.injEq]

end Staged

/-- Without two survivors of one size the same is told of no two. -/
theorem classSets_eq_empty_of_sizes {β : Type} (name : FileEntry → β)
    (hdiffer : ((survivingEntries sort discovered matchHardlinks).map FileEntry.fileSize).Nodup) :
    classSets ((survivingEntries sort discovered matchHardlinks).map
      fun entry => (name entry, told entry.file)) = ∅ := by
  refine Set.eq_empty_of_forall_notMem ?_
  rintro names ⟨k, hcount, _⟩
  rw [List.map_map] at hcount
  obtain ⟨i, j, hij, hi, hj⟩ := two_le_count_iff.mp hcount
  obtain ⟨a, ha, hka⟩ := Option.map_eq_some_iff.mp hi
  obtain ⟨b, hb, hkb⟩ := Option.map_eq_some_iff.mp hj
  have hsize := hsurvivors.fileSize_eq (List.mem_of_getElem? ha) (List.mem_of_getElem? hb)
    (hka.trans hkb.symm)
  refine hij ((List.getElem?_inj ?_ hdiffer).mp ?_)
  · rw [List.length_map]
    exact (List.getElem?_eq_some_iff.mp ha).1
  · rw [List.getElem?_map, List.getElem?_map, ha, hb, Option.map_some, Option.map_some, hsize]

end Survivors

end BcDuplicate
