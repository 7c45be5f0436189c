import BcDuplicate.Ring

/-!
# BcDuplicate.Ring.Slot

One slot on its own: the four linked entries of an item executed in order on
the item's slot, and their completions handled in order.

Whatever the slot held before, the item ends in one of three ways
(`SlotOutcome`): untouched while its completions have not been reaped, failed
with an errno, or successful after its consumer was fed the file's content
once.  When all four completions are reaped the item is `ringServed`, a
function of its own file alone.
-/

namespace BcDuplicate

/-! ## user data -/

theorem ringDecodeSlot_encode (slotIndex : Nat) (operation : Operation) :
    ringDecodeSlot (ringEncodeUserData slotIndex operation.code) = slotIndex := by
  have hcode : operation.code < 2 ^ 8 := by cases operation <;> decide
  rw [ringDecodeSlot, ringEncodeUserData, ← Nat.shiftLeft_add_eq_or_of_lt hcode,
    Nat.shiftLeft_eq, Nat.shiftRight_eq_div_pow]
  omega

theorem ringDecodeOperation_encode (slotIndex : Nat) (operation : Operation) :
    ringDecodeOperation (ringEncodeUserData slotIndex operation.code) = operation.code := by
  have hcode : operation.code < 2 ^ 8 := by cases operation <;> decide
  rw [ringDecodeOperation, ringEncodeUserData, ← Nat.shiftLeft_add_eq_or_of_lt hcode,
    Nat.shiftLeft_eq]
  omega

/-! ## a chain on its own -/

namespace Progress

/-- The slot after some operations. -/
def run (progress : Progress) (entries : List Sqe) : Progress :=
  entries.foldl (fun progress sqe => (progress.step sqe).1) progress

/-- The completions some operations post. -/
def completions : Progress → List Sqe → List Cqe
  | _, [] => []
  | progress, sqe :: entries =>
      ⟨sqe.userData, (progress.step sqe).2, sqe⟩ :: completions (progress.step sqe).1 entries

theorem run_append (progress : Progress) (l₁ l₂ : List Sqe) :
    progress.run (l₁ ++ l₂) = (progress.run l₁).run l₂ := List.foldl_append

theorem run_snoc (progress : Progress) (l : List Sqe) (sqe : Sqe) :
    progress.run (l ++ [sqe]) = ((progress.run l).step sqe).1 := by
  rw [run_append]
  rfl

theorem completions_append (progress : Progress) (l₁ l₂ : List Sqe) :
    progress.completions (l₁ ++ l₂) =
      progress.completions l₁ ++ (progress.run l₁).completions l₂ := by
  induction l₁ generalizing progress with
  | nil => rfl
  | cons sqe l₁ ih =>
      rw [List.cons_append, completions, completions, ih, List.cons_append]
      rfl

theorem completions_snoc (progress : Progress) (l : List Sqe) (sqe : Sqe) :
    progress.completions (l ++ [sqe]) = progress.completions l ++
      [⟨sqe.userData, ((progress.run l).step sqe).2, sqe⟩] :=
  completions_append progress l [sqe]

@[simp] theorem length_completions (progress : Progress) (l : List Sqe) :
    (progress.completions l).length = l.length := by
  induction l generalizing progress with
  | nil => rfl
  | cons sqe l ih => rw [completions, List.length_cons, ih, List.length_cons]

/-- A completion is about one of the operations. -/
theorem sqe_of_mem_completions {progress : Progress} {l : List Sqe} {cqe : Cqe}
    (h : cqe ∈ progress.completions l) : cqe.sqe ∈ l ∧ cqe.userData = cqe.sqe.userData := by
  induction l generalizing progress with
  | nil => cases h
  | cons sqe l ih =>
      rw [completions, List.mem_cons] at h
      cases h with
      | inl h => subst h; exact ⟨List.mem_cons_self, rfl⟩
      | inr h => exact ⟨List.mem_cons_of_mem _ (ih h).1, (ih h).2⟩

/-- Only a read changes the buffer. -/
theorem buffer_step (progress : Progress) (sqe : Sqe) (h : sqe.operation ≠ .read) :
    (progress.step sqe).1.slot.buffer = progress.slot.buffer := by
  unfold step
  split
  · rfl
  · unfold Slot.execute
    cases hop : sqe.operation with
    | openat => dsimp only; split <;> rfl
    | read => exact absurd hop h
    | probe => dsimp only; split <;> [rfl; (split <;> rfl)]
    | close => dsimp only; split <;> rfl

theorem buffer_run (progress : Progress) (l : List Sqe) (h : ∀ sqe ∈ l, sqe.operation ≠ .read) :
    (progress.run l).slot.buffer = progress.slot.buffer := by
  induction l generalizing progress with
  | nil => rfl
  | cons sqe l ih =>
      have htail := ih (progress.step sqe).1 fun s hs => h s (List.mem_cons_of_mem _ hs)
      rw [← buffer_step progress sqe (h sqe List.mem_cons_self), ← htail]
      rfl

/-! ### one operation at a time -/

theorem completions_cancelled (slot : Slot) (l : List Sqe) :
    completions ⟨slot, true⟩ l =
      l.map fun sqe => ⟨sqe.userData, -Errno.ECANCELED.value, sqe⟩ := by
  induction l with
  | nil => rfl
  | cons sqe l ih => rw [completions, List.map_cons, ← ih]; rfl

theorem step_openat {slot : Slot} {sqe : Sqe} (hop : sqe.operation = .openat) :
    step ⟨slot, false⟩ sqe =
      match sqe.view.ringOpenError with
      | some errno => (⟨slot, true⟩, -errno.value)
      | none => (⟨{ slot with file := some sqe.view }, false⟩, 0) := by
  rw [step, if_neg Bool.false_ne_true, Slot.execute, hop]
  cases sqe.view.ringOpenError <;> rfl

theorem step_read {slot : Slot} {sqe : Sqe} {view : FileView} (hop : sqe.operation = .read)
    (hfile : slot.file = some view) :
    step ⟨slot, false⟩ sqe =
      match view.ringRead.perform (view.content.drop sqe.offset) sqe.length with
      | .error errno => (⟨slot, true⟩, -errno.value)
      | .ok bytes => (⟨{ slot with buffer := bytes ++ slot.buffer.drop bytes.length },
          !decide (bytes.length = sqe.length)⟩, bytes.length) := by
  rw [step, if_neg Bool.false_ne_true, Slot.execute, hop, hfile]
  dsimp only
  cases view.ringRead.perform (view.content.drop sqe.offset) sqe.length <;> rfl

theorem step_probe {slot : Slot} {sqe : Sqe} {view : FileView} (hop : sqe.operation = .probe)
    (hfile : slot.file = some view) :
    step ⟨slot, false⟩ sqe =
      match view.ringProbe.perform (view.content.drop sqe.offset) sqe.length with
      | .error errno => (⟨slot, true⟩, -errno.value)
      | .ok bytes => (⟨slot, !decide (bytes.length = sqe.length)⟩, bytes.length) := by
  rw [step, if_neg Bool.false_ne_true, Slot.execute, hop, hfile]
  dsimp only
  cases view.ringProbe.perform (view.content.drop sqe.offset) sqe.length <;> rfl

theorem step_close {slot : Slot} {sqe : Sqe} {view : FileView} (hop : sqe.operation = .close)
    (hfile : slot.file = some view) :
    step ⟨slot, false⟩ sqe = (⟨{ slot with file := none }, false⟩, 0) := by
  rw [step, if_neg Bool.false_ne_true, Slot.execute, hop, hfile]
  rfl

end Progress

/-! ## handling the completions of one slot -/

section Handle

variable {κ : Type} (consumer : Consumer κ)

/-- The buffer matters to the probe's completion only. -/
theorem ringHandleItem_buffer (buffer buffer' : Bytes) (bytesRead code : Nat) (res : Int)
    (item : BatchItem κ) (h : code ≠ Operation.probe.code) :
    ringHandleItem consumer buffer bytesRead code res item =
      ringHandleItem consumer buffer' bytesRead code res item := by
  simp only [ringHandleItem, h, if_false]

/-- Handle some completions of one slot, in order. -/
def handleSlot (buffer : Bytes) (cqes : List Cqe) (state : BatchItem κ × Nat) :
    BatchItem κ × Nat :=
  cqes.foldl (fun state cqe => ringHandleItem consumer buffer state.2
    (ringDecodeOperation cqe.userData) cqe.res state.1) state

theorem handleSlot_snoc (buffer : Bytes) (cqes : List Cqe) (cqe : Cqe)
    (state : BatchItem κ × Nat) :
    handleSlot consumer buffer (cqes ++ [cqe]) state =
      ringHandleItem consumer buffer (handleSlot consumer buffer cqes state).2
        (ringDecodeOperation cqe.userData) cqe.res (handleSlot consumer buffer cqes state).1 := by
  rw [handleSlot, List.foldl_append]
  rfl

/-! ## what the ring makes of an item -/

/-- `cqe_result == -ECANCELED ? EIO : -cqe_result`, on an errno. -/
def ringErrno (errno : Errno) : Errno := if errno = Errno.ECANCELED then Errno.EIO else errno

/-- What handling all four completions makes of an item: its file opened,
read whole, probed for growth, and fed to the consumer. -/
def ringServed (item : BatchItem κ) : BatchItem κ :=
  match item.view.ringOpenError with
  | some errno => item.fail errno
  | none =>
      match item.view.ringRead.perform item.view.content item.fileSize with
      | .error errno => item.fail (ringErrno errno)
      | .ok bytes =>
          if bytes.length ≠ item.fileSize then item.fail Errno.EIO
          else
            match item.view.ringProbe.perform (item.view.content.drop item.fileSize) 1 with
            | .error errno => item.fail (ringErrno errno)
            | .ok extra =>
                if extra.length > 0 then item.fail Errno.EIO
                else
                  let (feed, accepted) := item.feed.consume consumer bytes
                  if accepted = false then ({ item with feed }).fail Errno.EIO
                  else ({ item with feed }).succeed

/-- The item is as the batch loop reset it. -/
structure Fresh (item : BatchItem κ) : Prop where
  success : item.success = false
  errnoValue : item.errnoValue = 0
  fallback : item.fallback = false

/-- The completions an item's own chain posts. -/
def slotCompletions (tag : Tag) (slotIndex : Nat) (item : BatchItem κ) (start : Slot) : List Cqe :=
  Progress.completions ⟨start, false⟩ (slotEntries tag slotIndex item)

/-- The slot's buffer once its chain has run. -/
def slotBuffer (tag : Tag) (slotIndex : Nat) (item : BatchItem κ) (start : Slot) : Bytes :=
  (Progress.run ⟨start, false⟩ (slotEntries tag slotIndex item)).slot.buffer

/-- The results of the four operations of a chain. -/
def slotResults (item : BatchItem κ) : List Int :=
  match item.view.ringOpenError with
  | some errno => [-errno.value, -Errno.ECANCELED.value, -Errno.ECANCELED.value,
      -Errno.ECANCELED.value]
  | none =>
      match item.view.ringRead.perform item.view.content item.fileSize with
      | .error errno => [0, -errno.value, -Errno.ECANCELED.value, -Errno.ECANCELED.value]
      | .ok bytes =>
          if bytes.length ≠ item.fileSize then
            [0, bytes.length, -Errno.ECANCELED.value, -Errno.ECANCELED.value]
          else
            match item.view.ringProbe.perform (item.view.content.drop item.fileSize) 1 with
            | .error errno => [0, bytes.length, -errno.value, -Errno.ECANCELED.value]
            | .ok extra =>
                if extra.length ≠ 1 then
                  [0, bytes.length, extra.length, -Errno.ECANCELED.value]
                else [0, bytes.length, 1, 0]

theorem slotCompletions_eq (tag : Tag) (slotIndex : Nat) (item : BatchItem κ) (start : Slot) :
    (slotCompletions tag slotIndex item start).map (fun cqe => (cqe.userData, cqe.res)) =
      List.zip ([Operation.openat, .read, .probe, .close].map
        fun operation => ringEncodeUserData slotIndex operation.code) (slotResults item) := by
  unfold slotCompletions slotEntries slotResults
  rw [Progress.completions, Progress.step_openat rfl]
  dsimp only
  cases hopen : item.view.ringOpenError with
  | some errno => simp [Progress.completions_cancelled]
  | none =>
      rw [Progress.completions, Progress.step_read rfl rfl]
      dsimp only
      rw [List.drop_zero]
      cases hread : item.view.ringRead.perform item.view.content item.fileSize with
      | error errno => simp [Progress.completions_cancelled]
      | ok bytes =>
          dsimp only
          by_cases hlen : bytes.length = item.fileSize
          · rw [if_neg (not_not_intro hlen), decide_eq_true hlen, Bool.not_true,
              Progress.completions, Progress.step_probe rfl rfl]
            dsimp only
            cases hprobe : item.view.ringProbe.perform
                (item.view.content.drop item.fileSize) 1 with
            | error errno => simp [Progress.completions_cancelled]
            | ok extra =>
                by_cases hextra : extra.length = 1
                · have hclose : Progress.step
                      ⟨⟨some item.view, bytes ++ start.buffer.drop bytes.length⟩, false⟩
                      ⟨.close, slotIndex, 0, 0, false,
                        ringEncodeUserData slotIndex Operation.close.code, item.view, tag⟩ =
                      (_, 0) := Progress.step_close rfl rfl
                  simp [hextra, Progress.completions, hclose]
                · simp [hextra, Progress.completions_cancelled]
          · simp [hlen, Progress.completions_cancelled]

/-- When the file was opened and read, the buffer starts with what was read. -/
theorem take_slotBuffer (tag : Tag) (slotIndex : Nat) (item : BatchItem κ) (start : Slot)
    {bytes : Bytes} (hopen : item.view.ringOpenError = none)
    (hread : item.view.ringRead.perform item.view.content item.fileSize = .ok bytes) :
    (slotBuffer tag slotIndex item start).take bytes.length = bytes := by
  have hentries : slotEntries tag slotIndex item = (slotEntries tag slotIndex item).take 2 ++
      (slotEntries tag slotIndex item).drop 2 := (List.take_append_drop 2 _).symm
  rw [slotBuffer, hentries, Progress.run_append, Progress.buffer_run _ _ (by simp [slotEntries])]
  unfold slotEntries
  simp only [List.take_succ_cons, List.take_zero, Progress.run, List.foldl_cons, List.foldl_nil]
  rw [Progress.step_openat rfl]
  dsimp only
  rw [hopen]
  dsimp only
  rw [Progress.step_read rfl rfl]
  dsimp only
  rw [List.drop_zero, hread]
  exact List.take_left

/-- Handling a slot's completions, by operation and result. -/
theorem handleSlot_take (tag : Tag) (slotIndex : Nat) (item : BatchItem κ) (start : Slot)
    (buffer : Bytes) (reaped : Nat) (state : BatchItem κ × Nat) :
    handleSlot consumer buffer ((slotCompletions tag slotIndex item start).take reaped) state =
      ((List.zip [Operation.openat, .read, .probe, .close] (slotResults item)).take reaped).foldl
        (fun state result => ringHandleItem consumer buffer state.2 result.1.code result.2 state.1)
        state := by
  have hpairs := congrArg (List.take reaped) (slotCompletions_eq tag slotIndex item start)
  rw [← List.map_take] at hpairs
  have hfold := congrArg (List.foldl (fun (state : BatchItem κ × Nat) (pair : Nat × Int) =>
    ringHandleItem consumer buffer state.2 (ringDecodeOperation pair.1) pair.2 state.1) state) hpairs
  rw [List.foldl_map] at hfold
  rw [handleSlot, hfold, List.zip_map_left, ← List.map_take, List.foldl_map]
  simp only [Prod.map_fst, Prod.map_snd, ringDecodeOperation_encode, id_eq]

/-! ### one completion at a time -/

section Steps

variable {consumer} {buffer : Bytes} {bytesRead : Nat} {item : BatchItem κ}

theorem neg_value_neg (errno : Errno) : -(errno.value : Int) < 0 := by
  have := errno.positive
  omega

theorem handle_openat_error (errno : Errno) :
    ringHandleItem consumer buffer bytesRead Operation.openat.code (-errno.value) item =
      (item.fail errno, bytesRead) := by
  rw [ringHandleItem, if_pos rfl, if_pos (neg_value_neg errno), BatchItem.fail, Int.natAbs_neg]
  rfl

theorem handle_openat_ok :
    ringHandleItem consumer buffer bytesRead Operation.openat.code 0 item = (item, bytesRead) := rfl

/-- A failed or cancelled read of an undecided item fails it. -/
theorem handle_read_error (herrno : item.errnoValue = 0) (errno : Errno) :
    ringHandleItem consumer buffer bytesRead Operation.read.code (-errno.value) item =
      (item.fail (ringErrno errno), bytesRead) := by
  rw [ringHandleItem, if_neg (by decide), if_pos rfl, if_pos (neg_value_neg errno), if_pos herrno]
  by_cases hcanceled : errno = Errno.ECANCELED
  · subst hcanceled
    rfl
  · have hne : ¬-(errno.value : Int) = -Errno.ECANCELED.value := by
      intro heq
      apply hcanceled
      cases errno
      simp only [Errno.ECANCELED, Errno.mk.injEq] at heq ⊢
      omega
    rw [ringErrno, if_neg hcanceled, BatchItem.fail]
    simp only [hne, if_false, Int.natAbs_neg, Int.natAbs_natCast]

/-- A read that failed leaves an item that has failed before. -/
theorem handle_read_decided (herrno : item.errnoValue ≠ 0) (errno : Errno) :
    ringHandleItem consumer buffer bytesRead Operation.read.code (-errno.value) item =
      (item, bytesRead) := by
  rw [ringHandleItem, if_neg (by decide), if_pos rfl, if_pos (neg_value_neg errno), if_neg herrno]

theorem handle_read_short {length : Nat} (hlen : length ≠ item.fileSize) :
    ringHandleItem consumer buffer bytesRead Operation.read.code length item =
      (item.fail Errno.EIO, bytesRead) := by
  rw [ringHandleItem, if_neg (by decide), if_pos rfl, if_neg (by omega), if_pos (by omega)]

theorem handle_read_whole :
    ringHandleItem consumer buffer bytesRead Operation.read.code item.fileSize item =
      (item, item.fileSize) := by
  rw [ringHandleItem, if_neg (by decide), if_pos rfl, if_neg (by omega), if_neg (by simp),
    Int.natAbs_natCast]

theorem handle_probe_decided (herrno : item.errnoValue ≠ 0) (res : Int) :
    ringHandleItem consumer buffer bytesRead Operation.probe.code res item = (item, bytesRead) := by
  rw [ringHandleItem, if_neg (by decide), if_neg (by decide), if_pos rfl, if_pos herrno]

theorem handle_probe_error (herrno : item.errnoValue = 0) (errno : Errno) :
    ringHandleItem consumer buffer bytesRead Operation.probe.code (-errno.value) item =
      (item.fail (ringErrno errno), bytesRead) := by
  have hread : ringHandleItem consumer buffer bytesRead Operation.read.code (-errno.value) item =
      (item.fail (ringErrno errno), bytesRead) := handle_read_error herrno errno
  rw [ringHandleItem, if_neg (by decide), if_pos rfl, if_pos (neg_value_neg errno),
    if_pos herrno] at hread
  rw [ringHandleItem, if_neg (by decide), if_neg (by decide), if_pos rfl,
    if_neg (not_not_intro herrno), if_pos (neg_value_neg errno)]
  exact hread

/-- The file goes on behind the recorded size. -/
theorem handle_probe_grown (herrno : item.errnoValue = 0) {res : Int} (hres : 0 < res) :
    ringHandleItem consumer buffer bytesRead Operation.probe.code res item =
      (item.fail Errno.EIO, bytesRead) := by
  rw [ringHandleItem, if_neg (by decide), if_neg (by decide), if_pos rfl,
    if_neg (not_not_intro herrno), if_neg (by omega), if_pos hres]

/-- The file ends at the recorded size: what was read goes to the consumer. -/
theorem handle_probe_end (herrno : item.errnoValue = 0) (hread : bytesRead ≠ 0) :
    ringHandleItem consumer buffer bytesRead Operation.probe.code 0 item =
      (if (item.feed.consume consumer (buffer.take bytesRead)).2 = false then
        ({ item with feed := (item.feed.consume consumer (buffer.take bytesRead)).1 }).fail
          Errno.EIO
      else ({ item with feed := (item.feed.consume consumer (buffer.take bytesRead)).1 }).succeed,
        bytesRead) := by
  rw [ringHandleItem, if_neg (by decide), if_neg (by decide), if_pos rfl,
    if_neg (not_not_intro herrno), if_neg (by decide), if_neg (by decide), if_neg hread]
  dsimp only
  split <;> rfl

/-- Nothing is done about a close. -/
theorem handle_close (res : Int) :
    ringHandleItem consumer buffer bytesRead Operation.close.code res item = (item, bytesRead) := by
  rw [ringHandleItem, if_neg (by decide), if_neg (by decide), if_neg (by decide)]

end Steps

/-! ### all completions -/

/-- Handling four results in order. -/
def handleResults (buffer : Bytes) (item : BatchItem κ) (results : List Int) (reaped : Nat) :
    BatchItem κ × Nat :=
  ((List.zip [Operation.openat, .read, .probe, .close] results).take reaped).foldl
    (fun state result => ringHandleItem consumer buffer state.2 result.1.code result.2 state.1)
    (item, 0)

/-- The item stays as it is up to some completion and then never changes. -/
theorem handleResults_verdict {buffer : Bytes} {item : BatchItem κ} (r₀ r₁ r₂ r₃ : Int)
    (served : BatchItem κ) {verdict : Nat} (hverdict : verdict < 3)
    (hbefore : ∀ reaped ≤ verdict,
      (handleResults consumer buffer item [r₀, r₁, r₂, r₃] reaped).1 = item)
    (hafter : ∀ reaped, verdict < reaped → reaped ≤ 3 →
      (handleResults consumer buffer item [r₀, r₁, r₂, r₃] reaped).1 = served) (reaped : Nat) :
    (handleResults consumer buffer item [r₀, r₁, r₂, r₃] reaped).1 =
      if reaped ≤ verdict then item else served := by
  by_cases hle : reaped ≤ verdict
  · rw [if_pos hle]
    exact hbefore reaped hle
  · rw [if_neg hle]
    by_cases hthree : reaped ≤ 3
    · exact hafter reaped (Nat.lt_of_not_le hle) hthree
    · -- the fourth completion is the close
      have hclose : (handleResults consumer buffer item [r₀, r₁, r₂, r₃] reaped).1 =
          (handleResults consumer buffer item [r₀, r₁, r₂, r₃] 3).1 := by
        unfold handleResults
        rw [List.take_of_length_le (by simp; omega)]
        simp only [List.zip_cons_cons, List.zip_nil_right, List.take_succ_cons, List.take_zero,
          List.foldl_cons, List.foldl_nil, handle_close]
      exact hclose.trans (hafter 3 hverdict (Nat.le_refl 3))

theorem ringFitsInSlot_iff {item : BatchItem κ} : ringFitsInSlot item = true ↔
    0 < item.fileSize ∧ item.fileSize ≤ readerRingSlotBufferBytes := by
  rw [ringFitsInSlot, Bool.and_eq_true, decide_eq_true_eq, decide_eq_true_eq]

/-- The operation whose completion decides an item: the open or the read when
it fails, otherwise the probe. -/
def ringVerdict (view : FileView) (fileSize : Nat) : Operation :=
  match view.ringOpenError with
  | some _ => .openat
  | none =>
      match view.ringRead.perform view.content fileSize with
      | .error _ => .read
      | .ok bytes => if bytes.length ≠ fileSize then .read else .probe

/-- **A slot's item is untouched or served.**  It is as it was up to the
completion that decides it, and `ringServed` from then on, whatever the slot
held before. -/
theorem handleSlot_verdict (tag : Tag) (slotIndex : Nat) {item : BatchItem κ} (start : Slot)
    (hfresh : Fresh item) (hfits : ringFitsInSlot item = true) (reaped : Nat) :
    (handleSlot consumer (slotBuffer tag slotIndex item start)
        ((slotCompletions tag slotIndex item start).take reaped) (item, 0)).1 =
      if reaped ≤ (ringVerdict item.view item.fileSize).code then item
      else ringServed consumer item := by
  have hsize := (ringFitsInSlot_iff.mp hfits).1
  have hzero := hfresh.errnoValue
  have hbuffer := @take_slotBuffer κ tag slotIndex item start
  rw [handleSlot_take]
  change (handleResults consumer _ item (slotResults item) reaped).1 = _
  generalize slotBuffer tag slotIndex item start = buffer at hbuffer ⊢
  have hfail : ∀ errno : Errno, (item.fail errno).errnoValue ≠ 0 := Errno.value_ne_zero
  unfold slotResults ringServed
  cases hopen : item.view.ringOpenError with
  | some errno =>
      have hverdict : ringVerdict item.view item.fileSize = .openat := by
        rw [ringVerdict, hopen]
      rw [hverdict]
      apply handleResults_verdict _ _ _ _ _ _ (by decide)
      · intro reaped hle
        rw [Nat.le_zero.mp hle]
        rfl
      · intro reaped hlt hle
        obtain rfl | rfl | rfl : reaped = 1 ∨ reaped = 2 ∨ reaped = 3 := by
          change 0 < reaped at hlt
          omega
        · simp [handleResults, handle_openat_error]
        · simp [handleResults, handle_openat_error, handle_read_decided (hfail errno)]
        · simp [handleResults, handle_openat_error, handle_read_decided (hfail errno),
            handle_probe_decided (hfail errno)]
  | none =>
      dsimp only
      cases hread : item.view.ringRead.perform item.view.content item.fileSize with
      | error errno =>
          have hverdict : ringVerdict item.view item.fileSize = .read := by
            rw [ringVerdict, hopen]
            dsimp only
            rw [hread]
          rw [hverdict]
          apply handleResults_verdict _ _ _ _ _ _ (by decide)
          · intro reaped hle
            obtain rfl | rfl : reaped = 0 ∨ reaped = 1 := Nat.le_one_iff_eq_zero_or_eq_one.mp hle
            · rfl
            · simp [handleResults, handle_openat_ok]
          · intro reaped hlt hle
            obtain rfl | rfl : reaped = 2 ∨ reaped = 3 := by
              change 1 < reaped at hlt
              omega
            · simp [handleResults, handle_openat_ok, handle_read_error hzero]
            · simp [handleResults, handle_openat_ok, handle_read_error hzero,
                handle_probe_decided (hfail _)]
      | ok bytes =>
          dsimp only
          by_cases hlen : bytes.length = item.fileSize
          · have hverdict : ringVerdict item.view item.fileSize = .probe := by
              rw [ringVerdict, hopen]
              dsimp only
              rw [hread]
              exact if_neg (not_not_intro hlen)
            rw [hverdict, if_neg (not_not_intro hlen), if_neg (not_not_intro hlen)]
            have hbefore : ∀ (probe closed : Int), ∀ reaped ≤ 2,
                (handleResults consumer buffer item [0, bytes.length, probe, closed] reaped).1 =
                  item := by
              intro probe closed reaped hle
              obtain rfl | rfl | rfl : reaped = 0 ∨ reaped = 1 ∨ reaped = 2 := by omega
              · rfl
              · simp [handleResults, handle_openat_ok]
              · simp [handleResults, handle_openat_ok, hlen, handle_read_whole]
            cases hprobe : item.view.ringProbe.perform
                (item.view.content.drop item.fileSize) 1 with
            | error errno =>
                apply handleResults_verdict _ _ _ _ _ _ (by decide) (hbefore _ _)
                intro reaped hlt hle
                obtain rfl : reaped = 3 := Nat.le_antisymm hle hlt
                simp [handleResults, handle_openat_ok, hlen, handle_read_whole,
                  handle_probe_error hzero]
            | ok extra =>
                dsimp only
                by_cases hextra : extra.length = 1
                · rw [if_neg (not_not_intro hextra), if_pos (show extra.length > 0 by omega)]
                  apply handleResults_verdict _ _ _ _ _ _ (by decide) (hbefore _ _)
                  intro reaped hlt hle
                  obtain rfl : reaped = 3 := Nat.le_antisymm hle hlt
                  simp [handleResults, handle_openat_ok, hlen, handle_read_whole,
                    handle_probe_grown hzero]
                · have hnone : extra.length = 0 := by
                    have hle := (eq_take_of_perform hprobe).2
                    omega
                  have hbytes : buffer.take item.fileSize = bytes := hlen ▸ hbuffer hopen hread
                  rw [if_pos hextra, if_neg (show ¬extra.length > 0 by omega)]
                  apply handleResults_verdict _ _ _ _ _ _ (by decide) (hbefore _ _)
                  intro reaped hlt hle
                  obtain rfl : reaped = 3 := Nat.le_antisymm hle hlt
                  simp [handleResults, handle_openat_ok, hlen, handle_read_whole, hnone,
                    handle_probe_end hzero (Nat.pos_iff_ne_zero.mp hsize), hbytes]
          · have hverdict : ringVerdict item.view item.fileSize = .read := by
              rw [ringVerdict, hopen]
              dsimp only
              rw [hread]
              exact if_pos hlen
            rw [hverdict, if_pos hlen, if_pos hlen]
            apply handleResults_verdict _ _ _ _ _ _ (by decide)
            · intro reaped hle
              obtain rfl | rfl : reaped = 0 ∨ reaped = 1 := Nat.le_one_iff_eq_zero_or_eq_one.mp hle
              · rfl
              · simp [handleResults, handle_openat_ok]
            · intro reaped hlt hle
              obtain rfl | rfl : reaped = 2 ∨ reaped = 3 := by
                change 1 < reaped at hlt
                omega
              · simp [handleResults, handle_openat_ok, handle_read_short hlen]
              · simp [handleResults, handle_openat_ok, handle_read_short hlen,
                  handle_probe_decided (hfail _)]

theorem code_ringVerdict_le (view : FileView) (fileSize : Nat) :
    (ringVerdict view fileSize).code ≤ 2 := by
  unfold ringVerdict
  split
  · decide
  · split
    · decide
    · split <;> decide

/-! ### what `ringServed` leaves -/

/-- **How serving ends**: the item fails with what it was, or its file has the
recorded length and the consumer was fed all of it, once. -/
theorem ringServed_cases (item : BatchItem κ) :
    (∃ errno, ringServed consumer item = item.fail errno) ∨
      item.view.content.length = item.fileSize ∧ ringServed consumer item =
        if (item.feed.consume consumer item.view.content).2 = false then
          ({ item with feed := (item.feed.consume consumer item.view.content).1 }).fail Errno.EIO
        else ({ item with feed := (item.feed.consume consumer item.view.content).1 }).succeed := by
  unfold ringServed
  cases item.view.ringOpenError with
  | some errno => exact Or.inl ⟨errno, rfl⟩
  | none =>
      dsimp only
      cases hread : item.view.ringRead.perform item.view.content item.fileSize with
      | error errno => exact Or.inl ⟨_, rfl⟩
      | ok bytes =>
          dsimp only
          by_cases hlen : bytes.length = item.fileSize
          · rw [if_neg (not_not_intro hlen)]
            cases hprobe : item.view.ringProbe.perform
                (item.view.content.drop item.fileSize) 1 with
            | error errno => exact Or.inl ⟨_, rfl⟩
            | ok extra =>
                dsimp only
                by_cases hextra : extra.length > 0
                · rw [if_pos hextra]
                  exact Or.inl ⟨_, rfl⟩
                · -- nothing behind the recorded size, so what was read is all
                  have hend : item.view.content.length ≤ item.fileSize := by
                    cases houtcome : item.view.ringProbe with
                    | error errno => rw [houtcome] at hprobe; cases hprobe
                    | upTo most =>
                        rw [houtcome] at hprobe
                        cases hprobe
                        rw [List.length_take, List.length_drop] at hextra
                        omega
                  have hbytes : bytes = item.view.content := by
                    rw [(eq_take_of_perform hread).1, hlen, List.take_of_length_le hend]
                  subst hbytes
                  rw [if_neg hextra]
                  exact Or.inr ⟨hlen, rfl⟩
          · rw [if_pos hlen]
            exact Or.inl ⟨_, rfl⟩

/-- Serving decides the item. -/
theorem ringServed_errno (item : BatchItem κ) :
    ((ringServed consumer item).success = true ∧ (ringServed consumer item).errnoValue = 0) ∨
      ((ringServed consumer item).success = false ∧ (ringServed consumer item).errnoValue ≠ 0) := by
  rcases ringServed_cases consumer item with ⟨errno, hserved⟩ | ⟨_, hserved⟩
  · rw [hserved]
    exact Or.inr ⟨rfl, errno.value_ne_zero⟩
  · rw [hserved]
    split
    · exact Or.inr ⟨rfl, Errno.EIO.value_ne_zero⟩
    · exact Or.inl ⟨rfl, rfl⟩

/-- Serving changes the result and the feed only. -/
theorem ringServed_data (item : BatchItem κ) :
    (ringServed consumer item).fileSize = item.fileSize ∧
      (ringServed consumer item).fallback = item.fallback := by
  rcases ringServed_cases consumer item with ⟨errno, hserved⟩ | ⟨_, hserved⟩
  · rw [hserved]
    exact ⟨rfl, rfl⟩
  · rw [hserved]
    split <;> exact ⟨rfl, rfl⟩

variable {consumer}

/-- **An item the ring serves successfully was fed its file, once.**  The
probe found nothing behind the recorded size, so the file's length is the
recorded size. -/
theorem ringServed_success {item : BatchItem κ}
    (h : (ringServed consumer item).success = true) :
    item.view.content.length = item.fileSize ∧
      (ringServed consumer item).feed = (item.feed.consume consumer item.view.content).1 := by
  rcases ringServed_cases consumer item with ⟨errno, hserved⟩ | ⟨hlen, hserved⟩
  · rw [hserved] at h
    cases h
  · refine ⟨hlen, ?_⟩
    rw [hserved] at h ⊢
    split
    · next hrefused => rw [if_pos hrefused] at h; cases h
    · rfl

end Handle

end BcDuplicate
