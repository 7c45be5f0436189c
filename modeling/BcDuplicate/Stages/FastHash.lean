import BcDuplicate.Stages.Content

/-!
# BcDuplicate.Stages.FastHash

The fast hash against its reference, for every way the two reads of an
iteration can end.  A failed open or prefix read is recorded in the errno, but
a short prefix read, a short suffix read and a failed suffix read are not: the
iteration hashes what it has and reports no error.  Whether the hash is the
reference then depends on the chunks alone (`referenceHashed_iff`), so two
identical files are separated as soon as one of them is read in such a way.
-/

namespace BcDuplicate

open Runs
open Sorting
open Updates

/-! ## the chunks that are hashed -/

/-- The prefix and the suffix an iteration hashes. -/
abbrev FastChunks := Bytes × Option Bytes

/-- The fast hash of two chunks. -/
def FastChunks.hash (xxh3 : Bytes → UInt64) : FastChunks → UInt64
  | (prefixBytes, none) => xxh3 prefixBytes
  | (prefixBytes, some suffixBytes) => xxh3 prefixBytes ^^^ xxh3 suffixBytes

/-- The chunks the reference hashes: the first and the last block. -/
def referenceChunks (content : Bytes) : FastChunks :=
  (content.take fastHashBlockSize,
    if content.length ≥ fastDualMinFileSize then
      some (content.drop (content.length - fastHashBlockSize))
    else none)

/-- The chunks the iteration hashes. -/
def fastChunks (view : FastView) (fileSize : Nat) : Except Errno FastChunks :=
  match openReadOnly view.openError view.reopenError with
  | .error errno => .error errno
  | .ok () =>
      match view.prefixRead.perform view.content fastHashBlockSize with
      | .error errno => .error errno
      | .ok prefixBytes =>
          if fileSize ≥ fastDualMinFileSize then
            match view.suffixRead.perform (view.content.drop (fileSize - fastHashBlockSize))
                fastHashBlockSize with
            | .error _ => .ok (prefixBytes, none)
            | .ok suffixBytes =>
                .ok (prefixBytes, if suffixBytes.length > 0 then some suffixBytes else none)
          else .ok (prefixBytes, none)

theorem referenceFastHash_eq (lib : HashLibrary) (content : Bytes) :
    referenceFastHash lib content = (referenceChunks content).hash lib.xxh3 := by
  unfold referenceFastHash referenceChunks
  by_cases hdual : content.length ≥ fastDualMinFileSize
  · rw [if_pos hdual, if_pos hdual]
    rfl
  · rw [if_neg hdual, if_neg hdual]
    rfl

theorem fastOutcome_eq (lib : HashLibrary) (view : FastView) (fileSize : Nat) :
    fastOutcome lib view fileSize =
      match fastChunks view fileSize with
      | .error errno => .failed errno
      | .ok chunks => .hashed (chunks.hash lib.xxh3) := by
  unfold fastOutcome fastChunks
  cases openReadOnly view.openError view.reopenError with
  | error errno => rfl
  | ok done =>
      dsimp only
      cases view.prefixRead.perform view.content fastHashBlockSize with
      | error errno => rfl
      | ok prefixBytes =>
          dsimp only
          by_cases hdual : fileSize ≥ fastDualMinFileSize
          · rw [if_pos hdual, if_pos hdual]
            cases view.suffixRead.perform (view.content.drop (fileSize - fastHashBlockSize))
                fastHashBlockSize with
            | error errno => rfl
            | ok suffixBytes =>
                dsimp only
                by_cases hsuffix : suffixBytes.length > 0
                · rw [if_pos hsuffix, if_pos hsuffix]
                  rfl
                · rw [if_neg hsuffix, if_neg hsuffix]
                  rfl
          · rw [if_neg hdual, if_neg hdual]
            rfl

/-! ## chunks no hash can tell apart -/

section Indicator

/-- The hash that singles out one chunk. -/
def indicator (chunk : Bytes) (bytes : Bytes) : UInt64 := if bytes = chunk then 1 else 0

@[simp] theorem indicator_self (chunk : Bytes) : indicator chunk chunk = 1 := if_pos rfl

theorem indicator_of_ne {chunk bytes : Bytes} (h : bytes ≠ chunk) : indicator chunk bytes = 0 :=
  if_neg h

variable {p s P S : Bytes}

/-- Two pairs of chunks hash alike under every hash exactly when they are the
same chunks, or cancel out in both pairs. -/
theorem hash_pair_iff : (∀ xxh3 : Bytes → UInt64, xxh3 p ^^^ xxh3 s = xxh3 P ^^^ xxh3 S) ↔
    (p = P ∧ s = S) ∨ (p = S ∧ s = P) ∨ (p = s ∧ P = S) := by
  constructor
  · intro h
    by_cases hcancel : p = s
    · -- the left pair cancels out, so the right one does
      subst hcancel
      refine Or.inr (Or.inr ⟨rfl, ?_⟩)
      by_contra hne
      have hP := h (indicator P)
      rw [UInt64.xor_self, indicator_self, indicator_of_ne (Ne.symm hne)] at hP
      exact absurd hP (by decide)
    · have hp := h (indicator p)
      have hs := h (indicator s)
      rw [indicator_self, indicator_of_ne (Ne.symm hcancel)] at hp
      rw [indicator_self, indicator_of_ne hcancel] at hs
      by_cases hpP : p = P
      · subst hpP
        rw [indicator_of_ne hcancel] at hs
        by_cases hsS : s = S
        · exact Or.inl ⟨rfl, hsS⟩
        · rw [indicator_of_ne (Ne.symm hsS)] at hs
          exact absurd hs (by decide)
      · rw [indicator_of_ne (Ne.symm hpP)] at hp
        by_cases hpS : p = S
        · subst hpS
          rw [indicator_of_ne hcancel] at hs
          by_cases hsP : s = P
          · exact Or.inr (Or.inl ⟨rfl, hsP⟩)
          · rw [indicator_of_ne (Ne.symm hsP)] at hs
            exact absurd hs (by decide)
        · rw [indicator_of_ne (Ne.symm hpS)] at hp
          exact absurd hp (by decide)
  · rintro (⟨rfl, rfl⟩ | ⟨rfl, rfl⟩ | ⟨rfl, rfl⟩) xxh3
    · rfl
    · exact UInt64.xor_comm _ _
    · rw [UInt64.xor_self, UInt64.xor_self]

/-- One chunk hashes like a pair under no choice of the pair. -/
theorem hash_single_ne_pair : ¬∀ xxh3 : Bytes → UInt64, xxh3 p = xxh3 P ^^^ xxh3 S := by
  intro h
  exact absurd (h fun _ => 1) (by decide)

theorem hash_single_iff : (∀ xxh3 : Bytes → UInt64, xxh3 p = xxh3 P) ↔ p = P := by
  refine ⟨fun h => ?_, fun h _ => by rw [h]⟩
  by_contra hne
  have hP := h (indicator P)
  rw [indicator_self, indicator_of_ne hne] at hP
  exact absurd hP (by decide)

end Indicator

/-! ## which reads give the reference hash -/

/-- The read returns all of the first `length` bytes. -/
def PreadOutcome.ReturnsAll (outcome : PreadOutcome) (length : Nat) : Prop :=
  ∃ most, outcome = .upTo most ∧ length ≤ most

/-- The iteration records an errno: the file does not open, or the prefix read
fails. -/
def FastView.Rejected (view : FastView) : Prop :=
  (∃ errno, openReadOnly view.openError view.reopenError = .error errno) ∨
    ∃ errno, view.prefixRead = .error errno

/-- The reads return the blocks the reference hashes. -/
structure FastView.ReadsBlocks (view : FastView) : Prop where
  prefixRead : view.prefixRead.ReturnsAll (min fastHashBlockSize view.content.length)
  suffixRead : view.content.length ≥ fastDualMinFileSize →
    view.suffixRead.ReturnsAll fastHashBlockSize

/-- The first and the last block are equal and both reads stop at the same
place, so that the hashes cancel out as those of the blocks do. -/
structure FastView.Cancels (view : FastView) : Prop where
  dual : view.content.length ≥ fastDualMinFileSize
  blocks : view.content.take fastHashBlockSize =
    view.content.drop (view.content.length - fastHashBlockSize)
  stops : ∃ most most', view.prefixRead = .upTo most ∧ view.suffixRead = .upTo most' ∧
    min fastHashBlockSize most = min fastHashBlockSize most' ∧ 0 < most'

/-- When the iteration leaves no errno, the fast hash is the reference. -/
def ReferenceHashed (lib : HashLibrary) (view : FastView) (entry : FileEntry) : Prop :=
  (workerFastIteration lib view entry).fastHashErrno = 0 →
    (workerFastIteration lib view entry).fastHash = referenceFastHash lib view.content

theorem referenceHashed_eq (lib : HashLibrary) (view : FastView) (entry : FileEntry) :
    ReferenceHashed lib view entry ↔
      match fastChunks view entry.fileSize with
      | .error _ => True
      | .ok chunks => chunks.hash lib.xxh3 = (referenceChunks view.content).hash lib.xxh3 := by
  unfold ReferenceHashed
  rw [workerFastIteration_eq, fastOutcome_eq, referenceFastHash_eq]
  cases fastChunks view entry.fileSize with
  | error errno => exact iff_of_true (fun h => absurd h errno.value_ne_zero) trivial
  | ok chunks => exact ⟨fun h => h rfl, fun h _ => h⟩

/-- A library with a given hash function. -/
def HashLibrary.hashing (xxh3 : Bytes → UInt64) : HashLibrary :=
  { HashLibrary.recording with xxh3 }

section Reads

variable {view : FastView}

/-- A prefix read gives the first block exactly when it returns all of it. -/
theorem take_eq_block_iff {most : Nat} {content : Bytes} :
    content.take (min fastHashBlockSize most) = content.take fastHashBlockSize ↔
      min fastHashBlockSize content.length ≤ most := by
  rw [List.take_eq_take_iff]
  omega

theorem length_lastBlock {content : Bytes} (hdual : content.length ≥ fastDualMinFileSize) :
    (content.drop (content.length - fastHashBlockSize)).length = fastHashBlockSize := by
  have hblock : fastHashBlockSize ≤ content.length := Nat.le_trans (by decide) hdual
  rw [List.length_drop]
  omega

/-- Of two short reads of a large file, only such of equal blocks and of equal
length cancel out. -/
theorem pair_iff {most most' : Nat} (hdual : view.content.length ≥ fastDualMinFileSize)
    (hfront : view.prefixRead = .upTo most) (hsuffix : view.suffixRead = .upTo most')
    (hpos : 0 < most') :
    (∀ xxh3 : Bytes → UInt64,
      xxh3 (view.content.take (min fastHashBlockSize most)) ^^^
          xxh3 ((view.content.drop (view.content.length - fastHashBlockSize)).take
            (min fastHashBlockSize most')) =
        xxh3 (view.content.take fastHashBlockSize) ^^^
          xxh3 (view.content.drop (view.content.length - fastHashBlockSize))) ↔
      view.ReadsBlocks ∨ view.Cancels := by
  have hblock : fastHashBlockSize ≤ view.content.length := Nat.le_trans (by decide) hdual
  have hlast := length_lastBlock hdual
  have hsuffixAll : (view.content.drop (view.content.length - fastHashBlockSize)).take
      (min fastHashBlockSize most') = view.content.drop (view.content.length - fastHashBlockSize) ↔
        fastHashBlockSize ≤ most' := by
    rw [List.take_eq_self_iff, hlast]
    omega
  have hreads : view.ReadsBlocks ↔ view.content.take (min fastHashBlockSize most) =
      view.content.take fastHashBlockSize ∧
        (view.content.drop (view.content.length - fastHashBlockSize)).take
          (min fastHashBlockSize most') =
            view.content.drop (view.content.length - fastHashBlockSize) := by
    rw [take_eq_block_iff, hsuffixAll]
    constructor
    · rintro ⟨⟨_, hp, hlen⟩, hs⟩
      obtain ⟨_, hs, hlen'⟩ := hs hdual
      cases hfront.symm.trans hp
      cases hsuffix.symm.trans hs
      exact ⟨hlen, hlen'⟩
    · exact fun h => ⟨⟨most, hfront, h.1⟩, fun _ => ⟨most', hsuffix, h.2⟩⟩
  rw [hash_pair_iff, hreads]
  constructor
  · rintro (hsame | ⟨hp, hs⟩ | ⟨hcancel, hblocks⟩)
    · exact Or.inl hsame
    · -- a whole block can only have been read by a whole read
      have hlen := congrArg List.length hp
      rw [List.length_take, hlast] at hlen
      have hwhole : view.content.take (min fastHashBlockSize most) =
          view.content.take fastHashBlockSize := take_eq_block_iff.mpr (by omega)
      exact Or.inl ⟨hwhole, hs.trans (hwhole.symm.trans hp)⟩
    · refine Or.inr ⟨hdual, hblocks, most, most', hfront, hsuffix, ?_, hpos⟩
      have hlen := congrArg List.length hcancel
      rw [List.length_take, List.length_take, hlast] at hlen
      omega
  · rintro (hsame | ⟨_, hblocks, _, _, hp, hs, hstops, _⟩)
    · exact Or.inl hsame
    · cases hfront.symm.trans hp
      cases hsuffix.symm.trans hs
      refine Or.inr (Or.inr ⟨?_, hblocks⟩)
      rw [← hblocks, ← hstops, List.take_take, Nat.min_eq_left (Nat.min_le_left _ _)]

/-- **When the fast hash is the reference**, whatever the hash function: the
errno records a failure, or the reads return whole blocks, or their deviations
cancel out. -/
theorem referenceHashed_iff {entry : FileEntry} (hsize : view.content.length = entry.fileSize) :
    (∀ lib : HashLibrary, ReferenceHashed lib view entry) ↔
      view.Rejected ∨ view.ReadsBlocks ∨ view.Cancels := by
  have hlib : (∀ lib : HashLibrary, ReferenceHashed lib view entry) ↔
      match fastChunks view view.content.length with
      | .error _ => True
      | .ok chunks => ∀ xxh3 : Bytes → UInt64,
          chunks.hash xxh3 = (referenceChunks view.content).hash xxh3 := by
    simp only [referenceHashed_eq, hsize]
    cases fastChunks view entry.fileSize with
    | error errno => simp
    | ok chunks => exact ⟨fun h xxh3 => h (.hashing xxh3), fun h lib => h lib.xxh3⟩
  rw [hlib]
  unfold fastChunks
  cases hopen : openReadOnly view.openError view.reopenError with
  | error errno => exact iff_of_true trivial (Or.inl (Or.inl ⟨errno, hopen⟩))
  | ok done =>
      dsimp only
      cases hfront : view.prefixRead with
      | error errno => exact iff_of_true trivial (Or.inl (Or.inr ⟨errno, hfront⟩))
      | upTo most =>
          have hnotRejected : ¬view.Rejected := by
            rintro (⟨errno, h⟩ | ⟨errno, h⟩)
            · rw [hopen] at h
              cases h
            · rw [hfront] at h
              cases h
          rw [or_iff_right hnotRejected]
          simp only [PreadOutcome.perform, referenceChunks]
          by_cases hdual : view.content.length ≥ fastDualMinFileSize
          · simp only [if_pos hdual]
            cases hsuffix : view.suffixRead with
            | error errno =>
                refine iff_of_false hash_single_ne_pair ?_
                rintro (⟨_, h⟩ | ⟨_, _, _, _, _, h, _⟩)
                · obtain ⟨_, h, _⟩ := h hdual
                  cases hsuffix.symm.trans h
                · cases hsuffix.symm.trans h
            | upTo most' =>
                dsimp only
                have hlen : ((view.content.drop (view.content.length - fastHashBlockSize)).take
                    (min fastHashBlockSize most')).length = min fastHashBlockSize most' := by
                  rw [List.length_take, length_lastBlock hdual]
                  omega
                by_cases hpos : 0 < most'
                · rw [if_pos (by rw [hlen]; exact Nat.lt_min.mpr ⟨by decide, hpos⟩)]
                  exact pair_iff hdual hfront hsuffix hpos
                · rw [if_neg (by rw [hlen]; omega)]
                  refine iff_of_false hash_single_ne_pair ?_
                  rintro (⟨_, h⟩ | ⟨_, _, _, _, _, h, _, h'⟩)
                  · obtain ⟨_, h, hle⟩ := h hdual
                    cases hsuffix.symm.trans h
                    exact hpos (Nat.lt_of_lt_of_le (by decide) hle)
                  · cases hsuffix.symm.trans h
                    exact hpos h'
          · simp only [if_neg hdual]
            refine hash_single_iff.trans (take_eq_block_iff.trans ?_)
            constructor
            · exact fun h => Or.inl ⟨⟨most, hfront, h⟩, fun hdual' => absurd hdual' hdual⟩
            · rintro (⟨⟨_, h, hle⟩, _⟩ | h)
              · cases hfront.symm.trans h
                exact hle
              · exact absurd h.dual hdual

end Reads

/-! ## the stage -/

/-- The file of an entry holds `content`, as many bytes as its recorded size,
and each of its reads is rejected, whole, or one of two that cancel out. -/
structure SoundlyRead (env : FastEnvironment) (entry : FileEntry) (content : Bytes) : Prop where
  size : content.length = entry.fileSize
  content_eq : ∀ index, (env.view index entry.absolutePath).content = content
  reads : ∀ index, (env.view index entry.absolutePath).Rejected ∨
    (env.view index entry.absolutePath).ReadsBlocks ∨ (env.view index entry.absolutePath).Cancels

section Stage

variable {lib : HashLibrary} {sort : SortFn} {env : FastEnvironment} {entries : List FileEntry}
  {groups : List Group} {grouped : HashGrouping} {allocates : Nat → Bool}

/-- A soundly read file of a size group that was hashed without an errno has
its reference fast hash, wherever the grouping put it. -/
theorem fastHash_of_soundlyRead (hsep : SeparateGroups groups entries.length)
    (hfresh : ∀ entry ∈ entries, entry.fastHashComputed = false)
    (hgrouped : RefinedTo FileEntry.fastHash groups
      (updateAt (fastUpdate lib env) (fastPassExecuted sort env entries groups) entries) grouped)
    {p : Nat} (hp : p < grouped.entries.length) {content : Bytes}
    (hsound : SoundlyRead env grouped.entries[p] content)
    (hcomputed : grouped.entries[p].fastHashComputed = true)
    (herrno : grouped.entries[p].fastHashErrno = 0) :
    grouped.entries[p].fastHash = referenceFastHash lib content := by
  obtain ⟨hnodup, hsub⟩ := fastPassExecuted_subset sort env hsep
  have hsepResult := separate_updated (fastUpdate lib env)
    (fastPassExecuted sort env entries groups) hsep
  obtain ⟨k, hk, heq, _⟩ := hgrouped.exists_origin hsepResult hp
  have hk' : k < entries.length := by rwa [length_updateAt] at hk
  rw [getElem_updateAt hnodup hk hk'] at heq
  by_cases hexecuted : k ∈ fastPassExecuted sort env entries groups
  · rw [if_pos hexecuted] at heq
    have hfile := keeps_file_fastUpdate lib env k entries[k]
    rw [heq] at hfile
    obtain ⟨hpath, hsize, _⟩ := Prod.mk.inj hfile |>.imp_right Prod.mk.inj
    have hcontent := hsound.content_eq k
    have hreads := hsound.reads k
    rw [hpath] at hcontent hreads
    have hreference := (@referenceHashed_iff _ entries[k]
      (by rw [hcontent, hsound.size, hsize])).mpr hreads lib
    rw [ReferenceHashed, hcontent] at hreference
    rw [← heq] at herrno ⊢
    exact hreference herrno
  · rw [if_neg hexecuted] at heq
    rw [← heq, hfresh _ (List.getElem_mem hk')] at hcomputed
    cases hcomputed

end Stage

/-- **When the fast hash is the reference, and what follows from it.**  An
iteration that leaves no errno leaves the reference exactly when its reads
return whole blocks or cancel out.  Files read in these ways that hold the
same bytes have equal fast hashes, and one fast-hash group. -/
theorem fastHash_reference_iff (view : FastView) (entry : FileEntry)
    (hsize : view.content.length = entry.fileSize) :
    ((∀ lib : HashLibrary, ReferenceHashed lib view entry) ↔
      view.Rejected ∨ view.ReadsBlocks ∨ view.Cancels) ∧
    ∀ (lib : HashLibrary) (sort : SortFn) (allocates : Nat → Bool) (env : FastEnvironment)
      (entries result : List FileEntry) (groups : List Group) (filesHashed : Nat)
      (grouped : HashGrouping),
      SeparateGroups groups entries.length →
      (∀ entry ∈ entries, entry.fastHashComputed = false) →
      workerFastPass lib sort env entries groups = .done result filesHashed →
      groupingByFastHash sort allocates result groups = some grouped →
      ∀ (p q : Nat) (hp : p < grouped.entries.length) (hq : q < grouped.entries.length)
        (content : Bytes), p ≠ q → SameGroup groups p q →
        (∀ entry ∈ [grouped.entries[p], grouped.entries[q]], SoundlyRead env entry content ∧
          entry.fastHashComputed = true ∧ entry.fastHashErrno = 0) →
        grouped.entries[p].fastHash = grouped.entries[q].fastHash ∧
          SameGroup grouped.groups p q := by
  refine ⟨referenceHashed_iff hsize, ?_⟩
  intro lib sort allocates env entries result groups filesHashed grouped hsep hfresh hpass
    hgrouping p q hp hq content hpq hsame hfiles
  obtain ⟨_, rfl⟩ := workerFastPass_executed hpass
  have hsepResult := separate_updated (fastUpdate lib env)
    (fastPassExecuted sort env entries groups) hsep
  have hgrouped := refinedTo_of_refineGroups ordersBy_fastHash hsepResult hgrouping
  obtain ⟨hsoundP, hcomputedP, herrnoP⟩ := hfiles _ List.mem_cons_self
  obtain ⟨hsoundQ, hcomputedQ, herrnoQ⟩ := hfiles _ (List.mem_cons_of_mem _ List.mem_cons_self)
  have hhash : grouped.entries[p].fastHash = grouped.entries[q].fastHash := by
    rw [fastHash_of_soundlyRead hsep hfresh hgrouped hp hsoundP hcomputedP herrnoP,
      fastHash_of_soundlyRead hsep hfresh hgrouped hq hsoundQ hcomputedQ herrnoQ]
  exact ⟨hhash, (hgrouped.sameGroup_iff hsepResult hpq hp hq).mpr ⟨hsame, hhash⟩⟩

/-! ### two files with one content -/

theorem soundlyRead_initials {entry : FileEntry} (hpath : entry.absolutePath ≠ [])
    (hsize : entry.fileSize = 1) :
    SoundlyRead .initials entry (entry.absolutePath.take 1) := by
  have hread := readable_initials hpath hsize
  refine ⟨hread.size, fun _ => rfl, fun index => Or.inr (Or.inl ⟨(hread.fast index).prefixRead,
    fun hdual => ?_⟩)⟩
  have hlen := hread.size
  rw [hsize] at hlen
  change (entry.absolutePath.take 1).length ≥ _ at hdual
  rw [hlen] at hdual
  exact absurd hdual (by decide)

theorem fastHash_reference_initials :
    (∀ lib, ReferenceHashed lib (FastEnvironment.initials.view 0 [65, 1])
      (.discovered [65, 1] 1 0 1)) ∧
    ∃ result grouped,
      workerFastPass .recording insertionSort .initials twoSmallFiles [⟨0, 2, 1⟩] =
        .done result 2 ∧
      groupingByFastHash insertionSort (fun _ => true) result [⟨0, 2, 1⟩] = some grouped ∧
      SameGroup grouped.groups 0 1 := by
  obtain ⟨hreference, hgroups⟩ := fastHash_reference_iff
    (FastEnvironment.initials.view 0 [65, 1]) (.discovered [65, 1] 1 0 1) rfl
  have hsep : SeparateGroups [⟨0, 2, 1⟩] twoSmallFiles.length :=
    ⟨by simp [Group.run, Run.InBounds, twoSmallFiles], by simp⟩
  have hpass : workerFastPass .recording insertionSort .initials twoSmallFiles [⟨0, 2, 1⟩] =
      .done (twoSmallFiles.map fun entry => entry.setFast 1 0) 2 := by decide +kernel
  have hgrouping : groupingByFastHash insertionSort (fun _ => true)
      (twoSmallFiles.map fun entry => entry.setFast 1 0) [⟨0, 2, 1⟩] =
      some ⟨twoSmallFiles.map fun entry => entry.setFast 1 0, [⟨0, 2, 1⟩], 2⟩ := by
    decide +kernel
  refine ⟨hreference.mpr ?_, _, _, hpass, hgrouping, ?_⟩
  · exact (@soundlyRead_initials (.discovered [65, 1] 1 0 1) (List.cons_ne_nil _ _) rfl).reads 0
  · refine (hgroups _ _ _ _ _ _ _ _ _ hsep (by decide) hpass hgrouping 0 1 (by decide)
      (by decide) [65] (by decide) ⟨_, List.mem_cons_self, by decide, by decide⟩ ?_).2
    intro entry hentry
    simp only [List.mem_cons, List.not_mem_nil, or_false] at hentry
    rcases hentry with rfl | rfl <;> 
      exact ⟨soundlyRead_initials (List.cons_ne_nil _ _) rfl, rfl, rfl⟩

/-! ### a suffix read that fails -/

/-- A file whose last block cannot be read. -/
def FastView.failedSuffix (content : Bytes) : FastView :=
  ⟨content, none, none, .whole fastHashBlockSize, .error Errno.EIO⟩

/-- Two blocks of zeros. -/
def zeroBlocks : Bytes := List.replicate fastDualMinFileSize 0

/-- The last block of the second file cannot be read. -/
def FastEnvironment.failedSuffix : FastEnvironment :=
  { FastEnvironment.plain .sequential with
    view := fun index _ =>
      if index = 0 then
        ⟨zeroBlocks, none, none, .whole fastHashBlockSize, .whole fastHashBlockSize⟩
      else .failedSuffix zeroBlocks }

def twoZeroFiles : List FileEntry :=
  [.discovered [97] fastDualMinFileSize 0 0, .discovered [98] fastDualMinFileSize 0 1]

theorem take_zeroBlocks : zeroBlocks.take fastHashBlockSize = List.replicate fastHashBlockSize 0 :=
  List.take_replicate

theorem fastOutcome_failedSuffix (lib : HashLibrary) :
    fastOutcome lib (.failedSuffix zeroBlocks) fastDualMinFileSize =
      .hashed (lib.xxh3 (List.replicate fastHashBlockSize 0)) := by
  rw [fastOutcome_eq, ← take_zeroBlocks]
  rfl

/-- The hashes of two equal blocks cancel out. -/
theorem referenceFastHash_zeroBlocks (lib : HashLibrary) :
    referenceFastHash lib zeroBlocks = 0 := by
  have hdrop : zeroBlocks.drop (zeroBlocks.length - fastHashBlockSize) =
      zeroBlocks.take fastHashBlockSize := by
    rw [take_zeroBlocks, zeroBlocks, List.length_replicate, List.drop_replicate]
    rfl
  have hdual : zeroBlocks.length ≥ fastDualMinFileSize := by
    rw [zeroBlocks, List.length_replicate]
  rw [referenceFastHash, if_pos hdual, hdrop, UInt64.xor_self]

theorem fastOutcome_zeroBlocks (lib : HashLibrary) :
    fastOutcome lib ⟨zeroBlocks, none, none, .whole fastHashBlockSize, .whole fastHashBlockSize⟩
      fastDualMinFileSize = .hashed 0 := by
  have hread : (⟨zeroBlocks, none, none, .whole fastHashBlockSize,
      .whole fastHashBlockSize⟩ : FastView).ReadsWhole zeroBlocks :=
    ⟨rfl, rfl, ⟨_, rfl, Nat.min_le_left _ _⟩, ⟨_, rfl, Nat.min_le_left _ _⟩⟩
  have h := fastOutcome_of_readsWhole lib hread
  rwa [referenceFastHash_zeroBlocks, zeroBlocks, List.length_replicate] at h

theorem workerFastIteration_hashed {lib : HashLibrary} {view : FastView} {entry : FileEntry}
    {fastHash : UInt64} (h : fastOutcome lib view entry.fileSize = .hashed fastHash) :
    workerFastIteration lib view entry = entry.setFast fastHash 0 := by
  rw [workerFastIteration_eq, h]
  rfl

/-- What the recording library makes of a block. -/
theorem xxh3_block : HashLibrary.recording.xxh3 (List.replicate fastHashBlockSize 0) = 4096 := by
  change UInt64.ofNat (List.replicate fastHashBlockSize (0 : UInt8)).length = 4096
  rw [List.length_replicate]
  rfl

/-- **A failed suffix read goes unreported**: of two identical files that both
end without an errno, the one whose last block could not be read has another
fast hash, and the grouping separates them. -/
theorem failed_suffix_separates :
    ¬ReferenceHashed .recording (.failedSuffix zeroBlocks)
      (.discovered [98] fastDualMinFileSize 0 1) ∧
    ∃ result : List FileEntry,
      workerFastPass .recording insertionSort .failedSuffix twoZeroFiles
        [⟨0, 2, fastDualMinFileSize⟩] = .done result 2 ∧
      (∀ entry ∈ result, entry.fastHashComputed = true ∧ entry.fastHashErrno = 0) ∧
      ∃ grouped, groupingByFastHash insertionSort (fun _ => true) result
        [⟨0, 2, fastDualMinFileSize⟩] = some grouped ∧ grouped.groups = [] := by
  have hsecond : workerFastIteration .recording (.failedSuffix zeroBlocks)
      (.discovered [98] fastDualMinFileSize 0 1) =
      (FileEntry.discovered [98] fastDualMinFileSize 0 1).setFast 4096 0 := by
    rw [workerFastIteration_hashed (fastOutcome_failedSuffix .recording), xxh3_block]
  have hfirst : workerFastIteration .recording
      ⟨zeroBlocks, none, none, .whole fastHashBlockSize, .whole fastHashBlockSize⟩
      (.discovered [97] fastDualMinFileSize 0 0) =
      (FileEntry.discovered [97] fastDualMinFileSize 0 0).setFast 0 0 :=
    workerFastIteration_hashed (fastOutcome_zeroBlocks .recording)
  refine ⟨fun hreference => ?_, [(FileEntry.discovered [97] fastDualMinFileSize 0 0).setFast 0 0,
    (FileEntry.discovered [98] fastDualMinFileSize 0 1).setFast 4096 0], ?_, by decide, ?_⟩
  · rw [ReferenceHashed, hsecond] at hreference
    exact absurd ((hreference rfl).trans (referenceFastHash_zeroBlocks _)) (by decide)
  · have hsep : SeparateGroups [⟨0, 2, fastDualMinFileSize⟩] twoZeroFiles.length :=
      ⟨by simp [Group.run, Run.InBounds, twoZeroFiles], by simp⟩
    have hupdate : ∀ (update : Nat → FileEntry → FileEntry) (a b : FileEntry),
        updateAt update (candidateIndices [⟨0, 2, fastDualMinFileSize⟩]) [a, b] =
          [update 0 a, update 1 b] := fun _ _ _ => rfl
    have hviews : FastEnvironment.failedSuffix.view 0 [97] = ⟨zeroBlocks, none, none,
        .whole fastHashBlockSize, .whole fastHashBlockSize⟩ ∧
          FastEnvironment.failedSuffix.view 1 [98] = .failedSuffix zeroBlocks :=
      ⟨rfl, rfl⟩
    rw [workerFastPass_eq hsep ⟨fun _ => rfl, rfl, rfl⟩, twoZeroFiles, hupdate, ← hfirst,
      ← hsecond, ← hviews.1, ← hviews.2]
    rfl
  · exact ⟨⟨[(FileEntry.discovered [97] fastDualMinFileSize 0 0).setFast 0 0,
      (FileEntry.discovered [98] fastDualMinFileSize 0 1).setFast 4096 0], [], 0⟩,
        by decide +kernel, rfl⟩

end BcDuplicate
