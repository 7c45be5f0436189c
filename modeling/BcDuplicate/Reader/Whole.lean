import BcDuplicate.Reader.Stream

/-!
# BcDuplicate.Reader.Whole

When success of the synchronous reader means that the consumer has the whole
file.  The loop takes a read that returns less than it was asked for as the
last one, so a read may stop short only at the end of the file
(`readerConsumeFile_whole_iff`).
-/

namespace BcDuplicate

/-! ## the reads -/

/-- No read before the first hard error returns fewer bytes than it was asked
for while more are left. -/
def NoShortRead : List ReadOutcome → Nat → Prop
  | [], _ => True
  | .error errno :: reads, left => errno = Errno.EINTR → NoShortRead reads left
  | .upTo most :: reads, left =>
      min readerStreamBufferSize left ≤ most + 1 ∧
        (left < readerStreamBufferSize ∨ NoShortRead reads (left - readerStreamBufferSize))

/-- The first hard error among the reads up to the end of the file. -/
def hardErrorBeforeEnd : List ReadOutcome → Nat → Option Errno
  | [], _ => none
  | .error errno :: reads, left =>
      if left = 0 then none
      else if errno = Errno.EINTR then hardErrorBeforeEnd reads left
      else some errno
  | .upTo most :: reads, left =>
      if left = 0 then none
      else hardErrorBeforeEnd reads (left - min readerStreamBufferSize (most + 1))

theorem hardErrorBeforeEnd_zero (reads : List ReadOutcome) : hardErrorBeforeEnd reads 0 = none := by
  cases reads with
  | nil => rfl
  | cons outcome reads => cases outcome <;> exact if_pos rfl

theorem noShortRead_iff (reads : List ReadOutcome) (rest : Bytes) :
    NoShortRead reads rest.length ↔
      ((streamChunks reads rest).2 = .ok () → ReadsToEnd reads rest.length) := by
  have hpos := readerStreamBufferSize_pos
  induction reads generalizing rest with
  | nil => exact iff_of_true trivial fun _ => trivial
  | cons outcome reads ih =>
      cases outcome with
      | error errno =>
          rw [streamChunks_error_cons, NoShortRead, ReadsToEnd]
          by_cases hintr : errno = Errno.EINTR
          · rw [if_pos hintr]
            exact ⟨fun h => (ih rest).mp (h hintr), fun h _ => (ih rest).mpr h⟩
          · rw [if_neg hintr]
            exact iff_of_true (fun heq => absurd heq hintr) fun hok => by cases hok
      | upTo most =>
          rw [NoShortRead, ReadsToEnd]
          by_cases hfull : readerStreamBufferSize ≤ min (most + 1) rest.length
          · rw [streamChunks_full reads hfull, ← List.length_drop]
            constructor
            · rintro ⟨hwhole, hless | hlater⟩ hok
              · exact ⟨hwhole, Or.inl hless⟩
              · exact ⟨hwhole, Or.inr ((ih _).mp hlater hok)⟩
            · intro h
              refine ⟨by omega, Or.inr ((ih _).mpr fun hok => ?_)⟩
              obtain ⟨_, hless | hlater⟩ := h hok
              · omega
              · exact hlater
          · rcases eq_or_ne rest [] with rfl | hrest
            · exact iff_of_true ⟨Nat.zero_le _, Or.inl hpos⟩
                fun _ => ⟨Nat.zero_le _, Or.inl hpos⟩
            · -- such a read is the last one, whatever follows in the list
              rw [streamChunks_short reads hrest (by omega)]
              constructor
              · rintro ⟨hwhole, _⟩ _
                exact ⟨hwhole, Or.inl (by omega)⟩
              · intro h
                obtain ⟨hwhole, _⟩ := h rfl
                exact ⟨hwhole, Or.inl (by omega)⟩

/-- Where no read stops short, a hard error before the end is met. -/
theorem streamChunks_hardError {reads : List ReadOutcome} {rest : Bytes} {errno : Errno}
    (hwhole : NoShortRead reads rest.length)
    (herror : hardErrorBeforeEnd reads rest.length = some errno) :
    (streamChunks reads rest).2 = .error errno := by
  induction reads generalizing rest with
  | nil => cases herror
  | cons outcome reads ih =>
      have hleft : rest.length ≠ 0 := by
        intro hzero
        rw [hzero, hardErrorBeforeEnd_zero] at herror
        cases herror
      cases outcome with
      | error errno' =>
          rw [hardErrorBeforeEnd, if_neg hleft] at herror
          rw [streamChunks_error_cons]
          by_cases hintr : errno' = Errno.EINTR
          · rw [if_pos hintr] at herror ⊢
            exact ih (hwhole hintr) herror
          · rw [if_neg hintr] at herror ⊢
            rw [Option.some.inj herror]
      | upTo most =>
          obtain ⟨hmost, hlater⟩ := hwhole
          rw [hardErrorBeforeEnd, if_neg hleft] at herror
          by_cases hfull : readerStreamBufferSize ≤ min (most + 1) rest.length
          · have hmin : min readerStreamBufferSize (most + 1) = readerStreamBufferSize := by omega
            rw [hmin, ← List.length_drop] at herror
            rw [streamChunks_full reads hfull]
            refine ih ?_ herror
            rw [List.length_drop]
            exact hlater.resolve_left (by omega)
          · -- the read reaches the end, where no error is left
            have hend : rest.length - min readerStreamBufferSize (most + 1) = 0 := by omega
            rw [hend, hardErrorBeforeEnd_zero] at herror
            cases herror

/-! ## the consumer -/

/-- The consumer accepts every chunk. -/
def Consumer.NeverFails {κ : Type} (consumer : Consumer κ) : Prop :=
  ∀ context chunk, (consumer context chunk).2 = true

theorem Consumer.NeverFails.consumeAll {κ : Type} {consumer : Consumer κ}
    (h : consumer.NeverFails) (chunks : List Bytes) (feed : Feed κ) :
    (feed.consumeAll consumer chunks).1.chunks = feed.chunks ++ chunks ∧
      (feed.consumeAll consumer chunks).2 = true := by
  induction chunks generalizing feed with
  | nil => exact ⟨(List.append_nil _).symm, rfl⟩
  | cons chunk chunks ih =>
      have haccepts : (feed.consume consumer chunk).2 = true := h _ _
      rw [Feed.consumeAll, if_pos haccepts]
      obtain ⟨hchunks, hok⟩ := ih (feed.consume consumer chunk).1
      refine ⟨hchunks.trans ?_, hok⟩
      rw [Feed.consume, List.append_assoc, List.singleton_append]

/-- What success and failure of a call on this file have to mean. -/
structure DeliversWhole {κ : Type} (consumer : Consumer κ) (view : FileView) (context : κ) :
    Prop where
  whole : (readerConsumeFile consumer view ⟨context, []⟩).2 = .ok () →
    (readerConsumeFile consumer view ⟨context, []⟩).1.chunks.flatten = view.content
  hardError : readerOpenReadOnly view = .ok () → ∀ errno,
    hardErrorBeforeEnd view.reads view.content.length = some errno →
      (readerConsumeFile consumer view ⟨context, []⟩).2 = .error errno

/-- **When success means the whole file.**  With a consumer that never fails,
a call on a file that can be opened delivers the whole content or the hard
error before its end exactly when no read before a hard error stops short. -/
theorem readerConsumeFile_whole_iff {κ : Type} (consumer : Consumer κ)
    (hconsumer : consumer.NeverFails) (view : FileView) (context : κ) :
    DeliversWhole consumer view context ↔
      (readerOpenReadOnly view = .ok () → NoShortRead view.reads view.content.length) := by
  cases hopen : readerOpenReadOnly view with
  | error errno =>
      refine iff_of_true ⟨?_, ?_⟩ nofun
      · rw [readerConsumeFile, hopen]
        exact nofun
      · rw [hopen]
        exact nofun
  | ok done =>
      have hconsume : readerConsumeFile consumer view ⟨context, []⟩ =
          readerStreamLoop consumer view.reads view.content ⟨context, []⟩ := by
        rw [readerConsumeFile, hopen]
      obtain ⟨hchunks, hok⟩ := hconsumer.consumeAll (streamChunks view.reads view.content).1
        ⟨context, []⟩
      have hfed : (readerConsumeFile consumer view ⟨context, []⟩).1.chunks =
          (streamChunks view.reads view.content).1 := by
        rw [hconsume, readerStreamLoop_eq, hchunks, List.nil_append]
      have hresult : (readerConsumeFile consumer view ⟨context, []⟩).2 =
          (streamChunks view.reads view.content).2 := by
        rw [hconsume, readerStreamLoop_eq]
        exact if_pos hok
      constructor
      · intro h _
        refine (noShortRead_iff _ _).mpr fun hdone => (flatten_streamChunks_iff hdone).mp ?_
        rw [← hfed]
        exact h.whole (hresult.trans hdone)
      · intro hwhole
        replace hwhole := hwhole rfl
        refine ⟨fun hdone => ?_, fun _ errno herror => ?_⟩
        · rw [hresult] at hdone
          rw [hfed]
          exact (flatten_streamChunks_iff hdone).mpr ((noShortRead_iff _ _).mp hwhole hdone)
        · rw [hresult]
          exact streamChunks_hardError hwhole herror

/-- A file of two bytes that opens, read by these reads. -/
def twoByteView (reads : List ReadOutcome) : FileView :=
  ⟨[1, 2], none, none, reads, none, .whole 2, .whole 1⟩

theorem readerConsumeFile_whole_iff_interrupted :
    DeliversWhole acceptAll (twoByteView [.error Errno.EINTR, .upTo 1]) () :=
  (readerConsumeFile_whole_iff acceptAll (fun _ _ => rfl) _ ()).mpr fun _ _ =>
    ⟨by decide, Or.inl (by decide)⟩

/-- **A read of one byte ends the file.** -/
theorem short_read_truncates :
    ¬∀ (consumer : Consumer Unit) (view : FileView), consumer.NeverFails →
      DeliversWhole consumer view () := by
  intro h
  have hwhole := (h acceptAll (twoByteView [.upTo 0]) fun _ _ => rfl).whole (by decide +kernel)
  exact absurd hwhole (by decide +kernel)

end BcDuplicate
