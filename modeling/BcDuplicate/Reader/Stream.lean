import BcDuplicate.Reader
import Mathlib.Data.List.TakeDrop

/-!
# BcDuplicate.Reader.Stream

The synchronous reader, split into what it reads and who consumes it.
`streamChunks` is the sequence of chunks the reads produce, and the reading
loop is that sequence fed to the consumer until it refuses one
(`readerStreamLoop_eq`).

The chunks always concatenate to a prefix of the content.  They reach its end
exactly when no read returned fewer bytes than asked for while more were left
(`flatten_streamChunks_iff`): the loop takes such a read for the end of file.
-/

namespace BcDuplicate

theorem readerStreamBufferSize_pos : 0 < readerStreamBufferSize := by decide

/-! ## what is read -/

/-- The chunks the stream reads, and how the reading ends. -/
def streamChunks (reads : List ReadOutcome) (rest : Bytes) : List Bytes × Except Errno Unit :=
  match _hread : nextRead reads rest with
  | .error errno =>
      if errno = Errno.EINTR then streamChunks reads.tail rest else ([], .error errno)
  | .ok chunk =>
      if _hchunk : chunk.length = 0 then ([], .ok ())
      else if chunk.length < readerStreamBufferSize then ([chunk], .ok ())
      else
        let (chunks, result) := streamChunks reads.tail (rest.drop chunk.length)
        (chunk :: chunks, result)
termination_by reads.length + rest.length
decreasing_by
  · exact Nat.add_lt_add_right (length_tail_of_nextRead_error _hread) _
  · exact length_drop_of_nextRead _hread _hchunk

/-- Feed chunks until the consumer refuses one. -/
def Feed.consumeAll {κ : Type} (consumer : Consumer κ) : Feed κ → List Bytes → Feed κ × Bool
  | feed, [] => (feed, true)
  | feed, chunk :: chunks =>
      if (feed.consume consumer chunk).2 then
        Feed.consumeAll consumer (feed.consume consumer chunk).1 chunks
      else ((feed.consume consumer chunk).1, false)

theorem streamChunks_of_error {reads : List ReadOutcome} {rest : Bytes} {errno : Errno}
    (h : nextRead reads rest = .error errno) : streamChunks reads rest =
      if errno = Errno.EINTR then streamChunks reads.tail rest else ([], .error errno) := by
  rw [streamChunks]
  split
  · next hread => rw [h] at hread; cases hread; rfl
  · next hread => rw [h] at hread; cases hread

theorem streamChunks_of_ok {reads : List ReadOutcome} {rest chunk : Bytes}
    (h : nextRead reads rest = .ok chunk) : streamChunks reads rest =
      if chunk.length = 0 then ([], .ok ())
      else if chunk.length < readerStreamBufferSize then ([chunk], .ok ())
      else (chunk :: (streamChunks reads.tail (rest.drop chunk.length)).1,
        (streamChunks reads.tail (rest.drop chunk.length)).2) := by
  rw [streamChunks]
  split
  · next hread => rw [h] at hread; cases hread
  · next hread => rw [h] at hread; cases hread; rfl

/-! One equation for each way the next read of a list can end. -/

theorem streamChunks_error_cons (errno : Errno) (reads : List ReadOutcome) (rest : Bytes) :
    streamChunks (.error errno :: reads) rest =
      if errno = Errno.EINTR then streamChunks reads rest else ([], .error errno) :=
  streamChunks_of_error rfl

theorem streamChunks_at_end (most : Nat) (reads : List ReadOutcome) :
    streamChunks (.upTo most :: reads) [] = ([], .ok ()) := by
  have hread : nextRead (.upTo most :: reads) [] = .ok [] := by
    rw [nextRead, List.head?_cons, Option.getD_some, ReadOutcome.perform, List.take_nil]
  rw [streamChunks_of_ok hread]
  rfl

/-- A read that returns less than it was asked for is the last one. -/
theorem streamChunks_short {most : Nat} (reads : List ReadOutcome) {rest : Bytes}
    (hrest : rest ≠ []) (hshort : min (most + 1) rest.length < readerStreamBufferSize) :
    streamChunks (.upTo most :: reads) rest =
      ([rest.take (min readerStreamBufferSize (most + 1))], .ok ()) := by
  have hpos := List.length_pos_of_ne_nil hrest
  have hread : nextRead (.upTo most :: reads) rest =
      .ok (rest.take (min readerStreamBufferSize (most + 1))) := rfl
  have hlength : (rest.take (min readerStreamBufferSize (most + 1))).length =
      min (most + 1) rest.length := by
    rw [List.length_take]
    omega
  rw [streamChunks_of_ok hread, hlength, if_neg (by omega), if_pos hshort]

/-- A read that returns all it was asked for is followed by the next. -/
theorem streamChunks_full {most : Nat} (reads : List ReadOutcome) {rest : Bytes}
    (hfull : readerStreamBufferSize ≤ min (most + 1) rest.length) :
    streamChunks (.upTo most :: reads) rest =
      (rest.take readerStreamBufferSize ::
          (streamChunks reads (rest.drop readerStreamBufferSize)).1,
        (streamChunks reads (rest.drop readerStreamBufferSize)).2) := by
  have hpos := readerStreamBufferSize_pos
  have hread : nextRead (.upTo most :: reads) rest = .ok (rest.take readerStreamBufferSize) := by
    have hmin : min readerStreamBufferSize (most + 1) = readerStreamBufferSize := by omega
    rw [nextRead, List.head?_cons, Option.getD_some, ReadOutcome.perform, hmin]
  have hlength : (rest.take readerStreamBufferSize).length = readerStreamBufferSize := by
    rw [List.length_take]
    omega
  rw [streamChunks_of_ok hread, hlength, if_neg (by omega), if_neg (by omega)]
  rfl

/-- **The reading loop is the chunk sequence fed to the consumer.** -/
theorem readerStreamLoop_eq {κ : Type} (consumer : Consumer κ) (reads : List ReadOutcome)
    (rest : Bytes) (feed : Feed κ) :
    readerStreamLoop consumer reads rest feed =
      ((feed.consumeAll consumer (streamChunks reads rest).1).1,
        if (feed.consumeAll consumer (streamChunks reads rest).1).2 then
          (streamChunks reads rest).2 else .error Errno.EIO) := by
  fun_induction readerStreamLoop consumer reads rest feed with
  | case1 reads rest feed hread ih => rw [streamChunks_of_error hread, if_pos rfl, ih]
  | case2 reads rest feed errno hread hintr =>
      rw [streamChunks_of_error hread, if_neg hintr]
      rfl
  | case3 reads rest feed chunk hread hchunk =>
      rw [streamChunks_of_ok hread, if_pos hchunk]
      rfl
  | case4 reads rest feed chunk hread hchunk fed heq =>
      rw [streamChunks_of_ok hread, if_neg hchunk]
      split <;> simp [Feed.consumeAll, heq]
  | case5 reads rest feed chunk hread hchunk fed accepted heq haccept hshort =>
      rw [streamChunks_of_ok hread, if_neg hchunk, if_pos hshort]
      simp [Feed.consumeAll, heq, haccept]
  | case6 reads rest feed chunk hread hchunk fed accepted heq haccept hfull ih =>
      rw [streamChunks_of_ok hread, if_neg hchunk, if_neg hfull, ih]
      simp [Feed.consumeAll, heq, haccept]

/-- The chunks concatenate to a prefix of the content. -/
theorem flatten_streamChunks_front (reads : List ReadOutcome) (rest : Bytes) :
    (streamChunks reads rest).1.flatten <+: rest := by
  fun_induction streamChunks reads rest with
  | case1 reads rest _ ih => exact ih
  | case2 reads rest errno _ _ => exact List.nil_prefix
  | case3 reads rest chunk _ _ => exact List.nil_prefix
  | case4 reads rest chunk hread _ _ =>
      rw [List.flatten_singleton, (eq_take_of_perform hread).1]
      exact List.take_prefix _ _
  | case5 reads rest chunk hread _ _ chunks result heq ih =>
      rw [List.flatten_cons]
      conv_rhs => rw [← List.take_append_drop chunk.length rest]
      rw [← (eq_take_of_perform hread).1]
      rw [heq] at ih
      exact (List.prefix_append_right_inj chunk).mpr ih

/-! ## how the reading ends -/

/-- The error the reading stops at, among the reads it comes to: an interrupted
read is repeated, and one that stops short is the last. -/
def streamError : List ReadOutcome → Nat → Option Errno
  | [], _ => none
  | .error errno :: reads, left =>
      if errno = Errno.EINTR then streamError reads left else some errno
  | .upTo most :: reads, left =>
      if readerStreamBufferSize ≤ min (most + 1) left then
        streamError reads (left - readerStreamBufferSize)
      else none

/-! ## reaching the end -/

/-- No read returns fewer bytes than it was asked for while more are left;
`left` counts the bytes from the file offset on. -/
def ReadsToEnd : List ReadOutcome → Nat → Prop
  | [], _ => True
  | .error _ :: reads, left => ReadsToEnd reads left
  | .upTo most :: reads, left =>
      min readerStreamBufferSize left ≤ most + 1 ∧
        (left < readerStreamBufferSize ∨ ReadsToEnd reads (left - readerStreamBufferSize))

instance decidableReadsToEnd : (reads : List ReadOutcome) → (left : Nat) →
    Decidable (ReadsToEnd reads left)
  | [], _ => isTrue trivial
  | .error _ :: reads, left => decidableReadsToEnd reads left
  | .upTo _ :: reads, left =>
      have := decidableReadsToEnd reads (left - readerStreamBufferSize)
      inferInstanceAs (Decidable (_ ∧ (_ ∨ _)))

/-- Reads beyond the list are whole, so that they reach the end. -/
theorem streamChunks_nil (rest : Bytes) :
    (streamChunks [] rest).1.flatten = rest ∧ (streamChunks [] rest).2 = .ok () := by
  have hpos := readerStreamBufferSize_pos
  induction hlength : rest.length using Nat.strongRecOn generalizing rest with
  | ind length ih =>
      have hread : nextRead [] rest = .ok (rest.take readerStreamBufferSize) := by
        rw [nextRead, List.head?_nil, Option.getD_none, perform_whole]
      rw [streamChunks_of_ok hread, List.length_take]
      by_cases hnil : rest.length = 0
      · rw [if_pos (by omega), List.length_eq_zero_iff.mp hnil]
        exact ⟨rfl, rfl⟩
      · rw [if_neg (by omega)]
        by_cases hshort : rest.length < readerStreamBufferSize
        · rw [if_pos (by omega), List.take_of_length_le (by omega)]
          exact ⟨List.flatten_singleton, rfl⟩
        · have hmin : min readerStreamBufferSize rest.length = readerStreamBufferSize := by omega
          obtain ⟨hflatten, hok⟩ := ih (rest.drop readerStreamBufferSize).length
            (by rw [List.length_drop]; omega) _ rfl
          rw [if_neg (by omega), hmin, List.flatten_cons, List.tail_nil, hflatten, hok]
          exact ⟨List.take_append_drop _ _, rfl⟩

/-- **How a stream ends** shows in the results of its reads and the length of
the content. -/
theorem streamChunks_result (reads : List ReadOutcome) (rest : Bytes) :
    (streamChunks reads rest).2 =
      (streamError reads rest.length).elim (.ok ()) fun errno => .error errno := by
  induction reads generalizing rest with
  | nil => exact (streamChunks_nil rest).2
  | cons outcome reads ih =>
      cases outcome with
      | error errno =>
          rw [streamChunks_error_cons, streamError]
          by_cases hintr : errno = Errno.EINTR
          · rw [if_pos hintr, if_pos hintr]
            exact ih rest
          · rw [if_neg hintr, if_neg hintr]
            rfl
      | upTo most =>
          rw [streamError]
          by_cases hfull : readerStreamBufferSize ≤ min (most + 1) rest.length
          · rw [if_pos hfull, streamChunks_full reads hfull, ← List.length_drop]
            exact ih _
          · rw [if_neg hfull]
            rcases eq_or_ne rest [] with rfl | hrest
            · rw [streamChunks_at_end]
              rfl
            · rw [streamChunks_short reads hrest (by omega)]
              rfl

/-- **A stream that ends without error has read the whole content exactly
when no read stopped short.** -/
theorem flatten_streamChunks_iff {reads : List ReadOutcome} {rest : Bytes}
    (hok : (streamChunks reads rest).2 = .ok ()) :
    (streamChunks reads rest).1.flatten = rest ↔ ReadsToEnd reads rest.length := by
  have hpos := readerStreamBufferSize_pos
  induction reads generalizing rest with
  | nil => exact iff_of_true (streamChunks_nil rest).1 trivial
  | cons outcome reads ih =>
      cases outcome with
      | error errno =>
          rw [streamChunks_error_cons] at hok ⊢
          by_cases hintr : errno = Errno.EINTR
          · rw [if_pos hintr] at hok ⊢
            exact ih hok
          · rw [if_neg hintr] at hok
            cases hok
      | upTo most =>
          by_cases hfull : readerStreamBufferSize ≤ min (most + 1) rest.length
          · rw [streamChunks_full reads hfull] at hok ⊢
            have hiff : (rest.take readerStreamBufferSize ::
                (streamChunks reads (rest.drop readerStreamBufferSize)).1).flatten = rest ↔
                ReadsToEnd reads (rest.length - readerStreamBufferSize) := by
              rw [← List.length_drop]
              refine Iff.trans ?_ (ih hok)
              rw [List.flatten_cons]
              conv_lhs => rhs; rw [← List.take_append_drop readerStreamBufferSize rest]
              rw [List.append_cancel_left_eq]
            rw [hiff, ReadsToEnd]
            constructor
            · exact fun h => ⟨by omega, Or.inr h⟩
            · rintro ⟨_, hless | hlater⟩
              · omega
              · exact hlater
          · rcases eq_or_ne rest [] with rfl | hrest
            · rw [streamChunks_at_end]
              exact iff_of_true rfl ⟨Nat.zero_le _, Or.inl hpos⟩
            · rw [streamChunks_short reads hrest (by omega), List.flatten_singleton,
                List.take_eq_self_iff, ReadsToEnd]
              omega

end BcDuplicate
