import BcDuplicate.Types

/-!
# BcDuplicate.Reader

Reading one file synchronously (`src/worker/bc_duplicate_worker_reader.c`),
and the items of a batch.

What the system does with a file is data.  A `FileView` fixes the file's
content and the result of every call the program can make on it, and a
`ReadOutcome` only bounds how much a read returns, so that every read gives a
prefix of what is left: a view can shorten, interrupt or fail a read, but not
invent bytes.
-/

namespace BcDuplicate

/-! ## what the system does with a file -/

/-- How one `read` or `pread` ends: with an error, or with some bytes.  A
successful read returns at least one byte while there are any, so the bound
is `most + 1`. -/
inductive ReadOutcome
  | error (errno : Errno)
  | upTo (most : Nat)
deriving DecidableEq, Repr

/-- The result of asking for `size` bytes when `available` is what the file
holds from the offset on. -/
def ReadOutcome.perform (outcome : ReadOutcome) (available : Bytes) (size : Nat) :
    Except Errno Bytes :=
  match outcome with
  | .error errno => .error errno
  | .upTo most => .ok (available.take (min size (most + 1)))

/-- A read that returns all it was asked for, as far as the file reaches. -/
def ReadOutcome.whole (size : Nat) : ReadOutcome := .upTo size

theorem perform_whole (available : Bytes) (size : Nat) :
    (ReadOutcome.whole size).perform available size = .ok (available.take size) := by
  rw [ReadOutcome.whole, ReadOutcome.perform, Nat.min_eq_left (Nat.le_succ size)]

theorem perform_error (errno : Errno) (available : Bytes) (size : Nat) :
    (ReadOutcome.error errno).perform available size = .error errno := rfl

/-- A read that succeeds returns a prefix of what is left. -/
theorem eq_take_of_perform {outcome : ReadOutcome} {available chunk : Bytes} {size : Nat}
    (h : outcome.perform available size = .ok chunk) :
    chunk = available.take chunk.length ∧ chunk.length ≤ size := by
  cases outcome with
  | error errno => cases h
  | upTo most =>
      cases h
      rw [List.length_take, List.take_eq_take_iff]
      omega

/-- What the system does with one file while it is read in full.  `openError`
ends an `open` with `O_NOATIME`, `reopenError` the second one without it, and
`reads` lists the results of the stream's reads; once it is used up the reads
are whole.  The last three fields answer the linked operations of the ring. -/
structure FileView where
  content : Bytes
  openError : Option Errno
  reopenError : Option Errno
  reads : List ReadOutcome
  ringOpenError : Option Errno
  ringRead : ReadOutcome
  ringProbe : ReadOutcome
deriving DecidableEq, Repr

/-- `open` with `O_NOATIME`, tried again without it after `EPERM`: the two
lines `bc_duplicate_reader_open_read_only` and the fast pass share. -/
def openReadOnly (openError reopenError : Option Errno) : Except Errno Unit :=
  match openError with
  | none => .ok ()
  | some errno =>
      if errno = Errno.EPERM then
        match reopenError with
        | none => .ok ()
        | some errno => .error errno
      else .error errno

/-- `bc_duplicate_reader_open_read_only` -/
def readerOpenReadOnly (view : FileView) : Except Errno Unit :=
  openReadOnly view.openError view.reopenError

/-! ## consumers -/

/-- `bc_duplicate_reader_consumer_fn_t`: the context after the chunk, and
whether the consumer accepted it. -/
abbrev Consumer (κ : Type) := κ → Bytes → κ × Bool

/-- A consumer that takes every chunk. -/
def acceptAll : Consumer Unit := fun context _ => (context, true)

/-- A consumer context together with the chunks fed so far, oldest first. -/
structure Feed (κ : Type) where
  context : κ
  chunks : List Bytes
deriving DecidableEq, Repr

/-- One call of the consumer. -/
def Feed.consume {κ : Type} (consumer : Consumer κ) (feed : Feed κ) (chunk : Bytes) :
    Feed κ × Bool :=
  let (context, accepted) := consumer feed.context chunk
  (⟨context, feed.chunks ++ [chunk]⟩, accepted)

/-! ## the stream -/

/-- `BC_DUPLICATE_READER_STREAM_BUFFER_SIZE` -/
def readerStreamBufferSize : Nat := 128 * 1024

/-- The next `read` of the stream: the next listed outcome, or a whole read. -/
def nextRead (reads : List ReadOutcome) (rest : Bytes) : Except Errno Bytes :=
  (reads.head?.getD (.whole readerStreamBufferSize)).perform rest readerStreamBufferSize

/-- An error comes from the list, which is shorter after it. -/
theorem length_tail_of_nextRead_error {reads : List ReadOutcome} {rest : Bytes} {errno : Errno}
    (h : nextRead reads rest = .error errno) : reads.tail.length < reads.length := by
  cases reads with
  | nil => rw [nextRead, List.head?_nil, Option.getD_none, perform_whole] at h; cases h
  | cons outcome reads => exact Nat.lt_succ_self _

theorem length_chunk_le_rest {reads : List ReadOutcome} {rest chunk : Bytes}
    (h : nextRead reads rest = .ok chunk) : chunk.length ≤ rest.length := by
  rw [(eq_take_of_perform h).1, List.length_take]
  exact Nat.min_le_right _ _

/-- After a chunk that is not empty, less of the content is left. -/
theorem length_drop_of_nextRead {reads : List ReadOutcome} {rest chunk : Bytes}
    (h : nextRead reads rest = .ok chunk) (hchunk : chunk.length ≠ 0) :
    reads.tail.length + (rest.drop chunk.length).length < reads.length + rest.length := by
  have hle := length_chunk_le_rest h
  rw [List.length_tail, List.length_drop]
  omega

/-- The reading loop of `bc_duplicate_reader_consume_file`; `rest` is the
content from the file offset on. -/
def readerStreamLoop {κ : Type} (consumer : Consumer κ) (reads : List ReadOutcome) (rest : Bytes)
    (feed : Feed κ) : Feed κ × Except Errno Unit :=
  match _hread : nextRead reads rest with
  | .error errno =>
      if errno = Errno.EINTR then readerStreamLoop consumer reads.tail rest feed
      else (feed, .error errno)
  | .ok chunk =>
      if _hchunk : chunk.length = 0 then (feed, .ok ())
      else
        let (feed, accepted) := feed.consume consumer chunk
        if accepted = false then (feed, .error Errno.EIO)
        else if chunk.length < readerStreamBufferSize then (feed, .ok ())
        else readerStreamLoop consumer reads.tail (rest.drop chunk.length) feed
termination_by reads.length + rest.length
decreasing_by
  · exact Nat.add_lt_add_right (length_tail_of_nextRead_error _hread) _
  · exact length_drop_of_nextRead _hread _hchunk

/-- `bc_duplicate_reader_consume_file`.  The `posix_fadvise` hint changes no
result. -/
def readerConsumeFile {κ : Type} (consumer : Consumer κ) (view : FileView) (feed : Feed κ) :
    Feed κ × Except Errno Unit :=
  match readerOpenReadOnly view with
  | .error errno => (feed, .error errno)
  | .ok () => readerStreamLoop consumer view.reads view.content feed

/-! ## batch items -/

/-- `bc_duplicate_reader_batch_item_t`.  `view` stands for the file behind the
path, `feed` is the consumer context together with what it was fed, and
`fallback` records whether the synchronous route served the item. -/
structure BatchItem (κ : Type) where
  absolutePath : Bytes
  fileSize : Nat
  feed : Feed κ
  success : Bool
  errnoValue : Nat
  view : FileView
  fallback : Bool
deriving DecidableEq, Repr

namespace BatchItem

variable {κ : Type}

/-- `item->success = false; item->errno_value = 0` -/
def reset (item : BatchItem κ) : BatchItem κ :=
  { item with success := false, errnoValue := 0, fallback := false }

/-- `item->success = false; item->errno_value = errno` -/
def fail (item : BatchItem κ) (errno : Errno) : BatchItem κ :=
  { item with success := false, errnoValue := errno.value }

/-- `item->success = true; item->errno_value = 0` -/
def succeed (item : BatchItem κ) : BatchItem κ := { item with success := true, errnoValue := 0 }

end BatchItem

/-- `bc_duplicate_ring_fallback_sync` -/
def ringFallbackSync {κ : Type} (consumer : Consumer κ) (item : BatchItem κ) : BatchItem κ :=
  match readerConsumeFile consumer item.view item.feed with
  | (feed, .ok ()) => { item with feed, fallback := true }.succeed
  | (feed, .error errno) => { item with feed, fallback := true }.fail errno

end BcDuplicate
