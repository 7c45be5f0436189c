import BcDuplicate.Worker.Outcomes

/-!
# BcDuplicate.Worker.Content

Files that are read whole.  When none of a file's opens and reads fails or
stops short, the fast pass computes the reference fast hash of its content
(`fastOutcome_of_readsWhole`) and the full pass its reference digest
(`fullUpdate_of_readsWhole`): the ring and the stream cut the content into
different chunks, and a streaming hash does not tell (`HashLibrary.Streams`).
-/

namespace BcDuplicate

open Updates

/-! ## what the hashes should be -/

/-- The digests of whole contents. -/
structure HashReference where
  xxh3 : Bytes → UInt64
  xxh128 : Bytes → UInt64 × UInt64
  sha256 : Bytes → Bytes

/-- The streaming hashes of the library depend only on the concatenation of
the chunks, and never fail. -/
structure HashLibrary.Streams (lib : HashLibrary) (reference : HashReference) : Prop where
  xxh3 : ∀ (state : lib.Xxh3State) (chunks : List Bytes),
    lib.digest64 (chunks.foldl lib.update64 (lib.reset64 state)) = reference.xxh3 chunks.flatten
  xxh128 : ∀ (state : lib.Xxh3State) (chunks : List Bytes),
    lib.digest128 (chunks.foldl lib.update128 (lib.reset128 state)) =
      reference.xxh128 chunks.flatten
  sha256Update : ∀ (context : lib.Sha256Context) (chunks : List Bytes),
    (lib.sha256Feed (lib.sha256Init context).1 chunks).2 = true
  sha256Finalize : ∀ (context : lib.Sha256Context) (chunks : List Bytes),
    lib.sha256Finalize (lib.sha256Feed (lib.sha256Init context).1 chunks).1 =
      (reference.sha256 chunks.flatten, true)
  length_sha256 : ∀ content, (reference.sha256 content).length = 32

theorem HashLibrary.Streams.resets {lib : HashLibrary} {reference : HashReference}
    (h : lib.Streams reference) : lib.Resets where
  xxh3 state state' chunks := by rw [h.xxh3, h.xxh3]
  xxh128 state state' chunks := by rw [h.xxh128, h.xxh128]
  sha256Update context context' chunks := by rw [h.sha256Update, h.sha256Update]
  sha256Finalize context context' chunks := by rw [h.sha256Finalize, h.sha256Finalize]

/-- The digest of a content, `workerDigestSize` bytes long. -/
def referenceDigest (reference : HashReference) (algorithm : Algorithm) (content : Bytes) :
    Bytes :=
  match algorithm with
  | .xxh3 => uint64Bytes (reference.xxh3 content)
  | .xxh128 =>
      uint64Bytes (reference.xxh128 content).1 ++ uint64Bytes (reference.xxh128 content).2
  | .sha256 => reference.sha256 content

/-- The fast hash of a content. -/
def referenceFastHash (lib : HashLibrary) (content : Bytes) : UInt64 :=
  if content.length ≥ fastDualMinFileSize then
    lib.xxh3 (content.take fastHashBlockSize) ^^^
      lib.xxh3 (content.drop (content.length - fastHashBlockSize))
  else lib.xxh3 (content.take fastHashBlockSize)

/-! ## files read whole -/

/-- The opens and reads of the fast pass neither fail nor stop short. -/
structure FastView.ReadsWhole (view : FastView) (content : Bytes) : Prop where
  content_eq : view.content = content
  opens : openReadOnly view.openError view.reopenError = .ok ()
  prefixRead : ∃ most, view.prefixRead = .upTo most ∧ min fastHashBlockSize content.length ≤ most
  suffixRead : ∃ most, view.suffixRead = .upTo most ∧ min fastHashBlockSize content.length ≤ most

/-- The opens and reads of the full pass neither fail nor stop short, on
either route.  An interrupted `read` of the stream is tried again. -/
structure FileView.ReadsWhole (view : FileView) (content : Bytes) : Prop where
  content_eq : view.content = content
  opens : readerOpenReadOnly view = .ok ()
  interrupted : ∀ errno, ReadOutcome.error errno ∈ view.reads → errno = Errno.EINTR
  readsToEnd : ReadsToEnd view.reads content.length
  ringOpens : view.ringOpenError = none
  ringRead : ∃ most, view.ringRead = .upTo most ∧ content.length ≤ most + 1
  ringProbe : ∃ most, view.ringProbe = .upTo most

theorem pread_upTo {most size : Nat} {available : Bytes} (h : min size available.length ≤ most) :
    (PreadOutcome.upTo most).perform available size = .ok (available.take size) := by
  rw [PreadOutcome.perform, Except.ok.injEq, List.take_eq_take_iff]
  omega

/-- A read with room for all that is left returns all that is asked for. -/
theorem perform_upTo {most size : Nat} {available : Bytes}
    (h : min size available.length ≤ most + 1) :
    (ReadOutcome.upTo most).perform available size = .ok (available.take size) := by
  rw [ReadOutcome.perform, Except.ok.injEq, List.take_eq_take_iff]
  omega

/-- **The fast pass computes the reference fast hash.** -/
theorem fastOutcome_of_readsWhole (lib : HashLibrary) {view : FastView} {content : Bytes}
    (h : view.ReadsWhole content) :
    fastOutcome lib view content.length = .hashed (referenceFastHash lib content) := by
  obtain ⟨most, hprefix, hmost⟩ := h.prefixRead
  obtain ⟨most', hsuffix, hmost'⟩ := h.suffixRead
  unfold fastOutcome referenceFastHash
  rw [h.opens, h.content_eq, hprefix, hsuffix]
  dsimp only
  rw [pread_upTo hmost]
  dsimp only
  by_cases hdual : content.length ≥ fastDualMinFileSize
  · have hblock : fastHashBlockSize ≤ content.length :=
      Nat.le_trans (by decide) hdual
    have hlen : (content.drop (content.length - fastHashBlockSize)).length =
        fastHashBlockSize := by
      rw [List.length_drop]
      omega
    rw [if_pos hdual, if_pos hdual, pread_upTo (by rw [hlen]; omega),
      List.take_of_length_le hlen.le]
    dsimp only
    rw [hlen, if_pos (by decide)]
  · rw [if_neg hdual, if_neg hdual]

/-- A stream that is only interrupted ends without an error. -/
theorem streamChunks_ok {reads : List ReadOutcome}
    (h : ∀ errno, ReadOutcome.error errno ∈ reads → errno = Errno.EINTR) (rest : Bytes) :
    (streamChunks reads rest).2 = .ok () := by
  have htail : ∀ errno, ReadOutcome.error errno ∈ reads.tail → errno = Errno.EINTR :=
    fun errno herrno => h errno (List.mem_of_mem_tail herrno)
  fun_induction streamChunks reads rest with
  | case1 reads rest hread ih =>
      exact ih htail fun errno herrno => htail errno (List.mem_of_mem_tail herrno)
  | case2 reads rest errno hread hintr =>
      cases reads with
      | nil => rw [nextRead, List.head?_nil, Option.getD_none, perform_whole] at hread; cases hread
      | cons outcome reads =>
          cases outcome with
          | error errno' =>
              cases hread
              exact absurd (h errno List.mem_cons_self) hintr
          | upTo most => cases hread
  | case3 reads rest chunk hread hchunk => rfl
  | case4 reads rest chunk hread hchunk hshort => rfl
  | case5 reads rest chunk hread hchunk hfull chunks result heq ih =>
      rw [heq] at ih
      exact ih htail fun errno herrno => htail errno (List.mem_of_mem_tail herrno)

/-- **Both routes read the whole content.** -/
theorem itemChunks_of_readsWhole {view : FileView} {content : Bytes}
    (h : view.ReadsWhole content) :
    (itemChunks view content.length).2 = .ok () ∧
      (itemChunks view content.length).1.flatten = content := by
  unfold itemChunks
  cases fitsInSlot content.length with
  | true =>
      obtain ⟨most, hread, hmost⟩ := h.ringRead
      obtain ⟨most', hprobe⟩ := h.ringProbe
      have hall : (ReadOutcome.upTo most).perform content content.length = .ok content := by
        rw [perform_upTo (by omega), List.take_length]
      rw [if_pos rfl, ringChunks, h.ringOpens, h.content_eq, hread, hprobe, hall]
      dsimp only
      rw [if_neg (not_not_intro rfl), List.drop_length]
      exact ⟨rfl, List.flatten_singleton⟩
  | false =>
      rw [if_neg Bool.false_ne_true, fileChunks, h.opens, h.content_eq]
      have hok := streamChunks_ok h.interrupted content
      exact ⟨hok, (flatten_streamChunks_iff hok).mpr h.readsToEnd⟩

/-! ## the digest -/

section Digest

variable {lib : HashLibrary} {reference : HashReference}

/-- A reset state that was fed a content ends with its digest. -/
theorem HashLibrary.Streams.fedState_eq (hlib : lib.Streams reference) (algorithm : Algorithm)
    (state : ConsumerState lib) (xxhState : lib.Xxh3State) (chunks : List Bytes) :
    (fedState state xxhState algorithm chunks).2 = true ∧
      (fedState state xxhState algorithm chunks).1.context.failed = false ∧
      fullConsumerFinalize (fedState state xxhState algorithm chunks).1.context =
        (digestBuffer (referenceDigest reference algorithm chunks.flatten), false) := by
  unfold fedState
  cases algorithm with
  | xxh3 =>
      obtain ⟨hcontext, haccept⟩ := consumeAll_xxh callback_xxh3
        (⟨fullConsumerReset state xxhState .xxh3, []⟩ : Feed (ConsumerState lib)) rfl chunks
      rw [haccept, hcontext]
      refine ⟨rfl, rfl, ?_⟩
      simp only [fullConsumerFinalize, fullConsumerReset, hlib.xxh3, referenceDigest]
  | xxh128 =>
      obtain ⟨hcontext, haccept⟩ := consumeAll_xxh callback_xxh128
        (⟨fullConsumerReset state xxhState .xxh128, []⟩ : Feed (ConsumerState lib)) rfl chunks
      rw [haccept, hcontext]
      refine ⟨rfl, rfl, ?_⟩
      simp only [fullConsumerFinalize, fullConsumerReset, hlib.xxh128, referenceDigest]
  | sha256 =>
      obtain ⟨haccept, hcontext⟩ := consumeAll_sha256
        (⟨fullConsumerReset state xxhState .sha256, []⟩ : Feed (ConsumerState lib)) rfl chunks
      have hok := hlib.sha256Update state.sha256Context chunks
      rw [haccept, hcontext hok]
      refine ⟨hok, rfl, ?_⟩
      simp only [fullConsumerFinalize, fullConsumerReset, hlib.sha256Finalize, referenceDigest,
        Bool.not_true, Bool.or_false]

theorem HashLibrary.Streams.length_referenceDigest (hlib : lib.Streams reference)
    (algorithm : Algorithm) (content : Bytes) :
    (referenceDigest reference algorithm content).length = workerDigestSize algorithm := by
  cases algorithm with
  | xxh3 => exact length_uint64Bytes _
  | xxh128 =>
      rw [referenceDigest, List.length_append, length_uint64Bytes, length_uint64Bytes]
      rfl
  | sha256 => exact hlib.length_sha256 content

/-- The digest is the front of the buffer it was copied to. -/
theorem HashLibrary.Streams.take_digestBuffer (hlib : lib.Streams reference)
    (algorithm : Algorithm) (content : Bytes) :
    (digestBuffer (referenceDigest reference algorithm content)).take
        (workerDigestSize algorithm) = referenceDigest reference algorithm content := by
  have hlen := hlib.length_referenceDigest algorithm content
  have hfits : (referenceDigest reference algorithm content).length ≤ maxDigestSize :=
    hlen ▸ workerDigestSize_le algorithm
  rw [digestBuffer, List.take_of_length_le hfits, ← hlen, List.take_left]

/-- **The full pass computes the reference digest.** -/
theorem fullUpdate_of_readsWhole (hlib : lib.Streams reference) (env : FullEnvironment)
    (algorithm : Algorithm) (index : Nat) {entry : FileEntry} {content : Bytes}
    (hsize : content.length = entry.fileSize)
    (h : (env.view index entry.absolutePath).ReadsWhole content) :
    fullUpdate lib env algorithm index entry =
      (FullOutcome.hashed (digestBuffer (referenceDigest reference algorithm content))).apply
        entry := by
  obtain ⟨hok, hflatten⟩ := itemChunks_of_readsWhole h
  rw [hsize] at hok hflatten
  obtain ⟨haccept, hfailed, hfinalize⟩ := hlib.fedState_eq algorithm
    ⟨.xxh3, lib.createState, lib.blankContext, false⟩ lib.createState
    (itemChunks (env.view index entry.absolutePath) entry.fileSize).1
  rw [fullUpdate_eq, freshStored, fullStored, haccept, hok, if_pos rfl]
  dsimp only
  rw [hfailed, hfinalize, hflatten]
  rfl

end Digest

/-! ### the recording library -/

/-- What the recording library computes of a content. -/
def HashReference.recording : HashReference where
  xxh3 content := UInt64.ofNat content.length
  xxh128 content := (UInt64.ofNat content.length, UInt64.ofNat content.sum.toNat)
  sha256 := digestBuffer

theorem foldl_chunks (chunks : List Bytes) : chunks.foldl (· ++ ·) [] = chunks.flatten := by
  simpa using @List.foldl_append_eq_append Bytes UInt8 chunks id []

theorem sha256Feed_recording (context : Bytes) (chunks : List Bytes) :
    HashLibrary.sha256Feed .recording context chunks = (context ++ chunks.flatten, true) := by
  induction chunks generalizing context with
  | nil => exact Prod.ext (List.append_nil context).symm rfl
  | cons chunk chunks ih =>
      refine (ih (context ++ chunk)).trans ?_
      rw [List.flatten_cons, ← List.append_assoc]

theorem streams_recording : HashLibrary.recording.Streams .recording where
  xxh3 _ chunks := congrArg (fun content : Bytes => UInt64.ofNat content.length)
    (foldl_chunks chunks)
  xxh128 _ chunks := congrArg HashReference.recording.xxh128 (foldl_chunks chunks)
  sha256Update _ chunks := congrArg Prod.snd (sha256Feed_recording [] chunks)
  sha256Finalize _ chunks :=
    congrArg (fun fed : Bytes × Bool => (digestBuffer fed.1, true)) (sha256Feed_recording [] chunks)
  length_sha256 content := by
    change (digestBuffer content).length = 32
    rw [digestBuffer, List.length_append, List.length_take, List.length_replicate, maxDigestSize]
    omega

end BcDuplicate
