import BcDuplicate.Ring.Batch
import BcDuplicate.Reader.Stream

/-!
# BcDuplicate.Ring.Served

An item served by an undisturbed ring, split as the synchronous reader is:
what is read of its file (`itemChunks`) and who consumes it.  What is read
depends on the file and its recorded size alone (`servedItem_eq`).
-/

namespace BcDuplicate

/-- A recorded size at which the ring serves the file. -/
def fitsInSlot (fileSize : Nat) : Bool :=
  decide (fileSize > 0) && decide (fileSize ≤ readerRingSlotBufferBytes)

/-- The chunks read of a file by the ring: all of it, or nothing. -/
def ringChunks (view : FileView) (fileSize : Nat) : List Bytes × Except Errno Unit :=
  match view.ringOpenError with
  | some errno => ([], .error errno)
  | none =>
      match view.ringRead.perform view.content fileSize with
      | .error errno => ([], .error (ringErrno errno))
      | .ok bytes =>
          if bytes.length ≠ fileSize then ([], .error Errno.EIO)
          else
            match view.ringProbe.perform (view.content.drop fileSize) 1 with
            | .error errno => ([], .error (ringErrno errno))
            | .ok extra => if extra.length > 0 then ([], .error Errno.EIO) else ([bytes], .ok ())

/-- The chunks read of a file by the synchronous reader. -/
def fileChunks (view : FileView) : List Bytes × Except Errno Unit :=
  match readerOpenReadOnly view with
  | .error errno => ([], .error errno)
  | .ok () => streamChunks view.reads view.content

/-- The chunks read of a file, and how the reading ends. -/
def itemChunks (view : FileView) (fileSize : Nat) : List Bytes × Except Errno Unit :=
  if fitsInSlot fileSize then ringChunks view fileSize else fileChunks view

section Served

variable {κ : Type} (consumer : Consumer κ)

/-- An item whose chunks are fed until the consumer refuses one. -/
def BatchItem.serve (item : BatchItem κ) (chunks : List Bytes × Except Errno Unit) : BatchItem κ :=
  let (feed, accepted) := item.feed.consumeAll consumer chunks.1
  match if accepted then chunks.2 else .error Errno.EIO with
  | .ok () => { item with feed }.succeed
  | .error errno => { item with feed }.fail errno

theorem ringServed_eq (item : BatchItem κ) :
    ringServed consumer item = item.serve consumer (ringChunks item.view item.fileSize) := by
  unfold ringServed ringChunks
  cases item.view.ringOpenError with
  | some errno => rfl
  | none =>
      dsimp only
      cases item.view.ringRead.perform item.view.content item.fileSize with
      | error errno => rfl
      | ok bytes =>
          dsimp only
          by_cases hlen : bytes.length ≠ item.fileSize
          · rw [if_pos hlen, if_pos hlen]
            rfl
          · rw [if_neg hlen, if_neg hlen]
            cases item.view.ringProbe.perform (item.view.content.drop item.fileSize) 1 with
            | error errno => rfl
            | ok extra =>
                dsimp only
                by_cases hextra : extra.length > 0
                · rw [if_pos hextra, if_pos hextra]
                  rfl
                · rw [if_neg hextra, if_neg hextra, BatchItem.serve]
                  simp only [Feed.consumeAll]
                  by_cases haccept : (item.feed.consume consumer bytes).2 = true
                  · simp [haccept]
                  · simp [haccept]

theorem ringFallbackSync_eq (item : BatchItem κ) : ringFallbackSync consumer item =
    ({ item with fallback := true } : BatchItem κ).serve consumer (fileChunks item.view) := by
  unfold ringFallbackSync readerConsumeFile fileChunks
  cases readerOpenReadOnly item.view with
  | error errno => rfl
  | ok done =>
      dsimp only
      rw [readerStreamLoop_eq, BatchItem.serve]
      dsimp only
      cases (if (item.feed.consumeAll consumer (streamChunks item.view.reads item.view.content).1).2
        then (streamChunks item.view.reads item.view.content).2 else .error Errno.EIO) <;> rfl

/-- **What is read of a file depends on the file alone**, not on the item's
consumer. -/
theorem servedItem_eq (item : BatchItem κ) (hfresh : Fresh item) :
    servedItem consumer item =
      ({ item with fallback := !fitsInSlot item.fileSize } : BatchItem κ).serve consumer
        (itemChunks item.view item.fileSize) := by
  have hfits : ringFitsInSlot item = fitsInSlot item.fileSize := rfl
  unfold servedItem itemChunks
  rw [hfits]
  cases fitsInSlot item.fileSize with
  | true =>
      rw [if_pos rfl, if_pos rfl, ringServed_eq]
      obtain ⟨path, size, feed, success, errnoValue, view, fallback⟩ := item
      cases hfresh.fallback
      rfl
  | false =>
      rw [if_neg Bool.false_ne_true, if_neg Bool.false_ne_true]
      exact ringFallbackSync_eq consumer item

end Served

end BcDuplicate
