import BcDuplicate.Ring.Calls

/-!
# BcDuplicate.Ring.Confluence

Up to 128 completions of 32 chains come in any order.  Once they are all in,
each item is what its own four results and its own slot buffer make of it
(`chainServed`), so the order between the chains does not show
(`chunk_confluent`).

The results of a chain obey the rule of its links (`LinkRule`), and every
assignment that obeys it is that of some file (`exists_view_of_linkRule`): to
quantify over the files is to quantify over the assignments.
-/

namespace BcDuplicate

/-! ## what four results mean -/

/-- The errno recorded for the result of a read or probe that failed. -/
def completionErrno (res : Int) : Nat :=
  if res = -Errno.ECANCELED.value then Errno.EIO.value else res.natAbs

/-- The errno of the first operation of a chain that failed: an open, a read,
a read that is not `fileSize` bytes long, a probe, or a probe that finds the
file has grown. -/
def firstFailure (fileSize : Nat) (opened read probe : Int) : Option Nat :=
  if opened < 0 then some opened.natAbs
  else if read < 0 then some (completionErrno read)
  else if read ≠ fileSize then some Errno.EIO.value
  else if probe < 0 then some (completionErrno probe)
  else if probe > 0 then some Errno.EIO.value
  else none

section Served

variable {κ : Type} (consumer : Consumer κ)

/-- What the results of its chain make of an item.  When nothing failed, the
slot buffer holds the first `fileSize` bytes of the file. -/
def chainServed (item : BatchItem κ) (opened read probe : Int) : BatchItem κ :=
  match firstFailure item.fileSize opened read probe with
  | some errno => { item with success := false, errnoValue := errno }
  | none =>
      let (feed, accepted) := item.feed.consume consumer (item.view.content.take item.fileSize)
      if accepted then { item with feed }.succeed else { item with feed }.fail Errno.EIO

theorem completionErrno_neg (errno : Errno) :
    completionErrno (-errno.value) = (ringErrno errno).value := by
  unfold completionErrno ringErrno
  by_cases hcanceled : errno = Errno.ECANCELED
  · rw [if_pos hcanceled, if_pos (by rw [hcanceled])]
  · rw [if_neg hcanceled, if_neg, Int.natAbs_neg, Int.natAbs_natCast]
    intro heq
    apply hcanceled
    cases errno
    simp only [Errno.ECANCELED, Errno.mk.injEq] at heq ⊢
    omega

/-! ## the rule of the links -/

/-- The results the four linked operations of a slot can have: once one of
them fails or is short, the later ones are cancelled.  An `openat` into a
given slot returns 0, and a close of an installed file succeeds. -/
structure LinkRule (fileSize : Nat) (opened read probe closed : Int) : Prop where
  opened_le : opened ≤ 0
  read_cancelled : opened < 0 → read = -Errno.ECANCELED.value
  read_le : opened = 0 → read ≤ fileSize
  probe_cancelled : read ≠ fileSize → probe = -Errno.ECANCELED.value
  probe_le : read = fileSize → probe ≤ 1
  close_cancelled : probe ≠ 1 → closed = -Errno.ECANCELED.value
  close_ok : probe = 1 → closed = 0

/-! ## each way a chain can end -/

section Results

variable {consumer} {fileSize : Nat} {read probe : Int} {item : BatchItem κ}

theorem firstFailure_opened (errno : Errno) :
    firstFailure fileSize (-errno.value) read probe = some errno.value := by
  rw [firstFailure, if_pos (neg_value_neg errno), Int.natAbs_neg, Int.natAbs_natCast]

theorem firstFailure_read (errno : Errno) :
    firstFailure fileSize 0 (-errno.value) probe = some (ringErrno errno).value := by
  rw [firstFailure, if_neg (by decide), if_pos (neg_value_neg errno), completionErrno_neg]

theorem firstFailure_short {length : Nat} (hshort : length ≠ fileSize) :
    firstFailure fileSize 0 length probe = some Errno.EIO.value := by
  rw [firstFailure, if_neg (by decide), if_neg (by omega), if_pos (by omega)]

theorem firstFailure_probe (errno : Errno) :
    firstFailure fileSize 0 fileSize (-errno.value) = some (ringErrno errno).value := by
  rw [firstFailure, if_neg (by decide), if_neg (by omega), if_neg (not_not_intro rfl),
    if_pos (neg_value_neg errno), completionErrno_neg]

theorem firstFailure_grown (hgrown : 0 < probe) :
    firstFailure fileSize 0 fileSize probe = some Errno.EIO.value := by
  rw [firstFailure, if_neg (by decide), if_neg (by omega), if_neg (not_not_intro rfl),
    if_neg (by omega), if_pos hgrown]

theorem firstFailure_none : firstFailure fileSize 0 fileSize 0 = none := by
  rw [firstFailure, if_neg (by decide), if_neg (by omega), if_neg (not_not_intro rfl),
    if_neg (by decide), if_neg (by decide)]

theorem chainServed_fail {opened : Int} {errno : Errno}
    (h : firstFailure item.fileSize opened read probe = some errno.value) :
    chainServed consumer item opened read probe = item.fail errno := by
  rw [chainServed, h]
  rfl

theorem LinkRule.openFailed (errno : Errno) :
    LinkRule fileSize (-errno.value) (-Errno.ECANCELED.value) (-Errno.ECANCELED.value)
      (-Errno.ECANCELED.value) := by
  have hneg := neg_value_neg errno
  have hcancelled := neg_value_neg Errno.ECANCELED
  exact ⟨by omega, fun _ => rfl, by omega, fun _ => rfl, by omega, fun _ => rfl, by omega⟩

theorem LinkRule.readEnded (hread : read ≤ fileSize) :
    LinkRule fileSize 0 read (-Errno.ECANCELED.value) (-Errno.ECANCELED.value) := by
  have hcancelled := neg_value_neg Errno.ECANCELED
  exact ⟨by omega, by omega, by omega, fun _ => rfl, by omega, fun _ => rfl, by omega⟩

theorem LinkRule.probeEnded (hprobe : probe ≤ 1) (hne : probe ≠ 1) :
    LinkRule fileSize 0 fileSize probe (-Errno.ECANCELED.value) :=
  ⟨by omega, by omega, by omega, by omega, by omega, fun _ => rfl, fun h => absurd h hne⟩

end Results

/-- The results of an item's chain obey the rule of its links, and what the
handler makes of the item is read off them. -/
theorem linkRule_slotResults (item : BatchItem κ) :
    ∃ opened read probe closed : Int, slotResults item = [opened, read, probe, closed] ∧
      LinkRule item.fileSize opened read probe closed ∧
      ringServed consumer item = chainServed consumer item opened read probe := by
  unfold slotResults ringServed
  cases item.view.ringOpenError with
  | some errno =>
      exact ⟨_, _, _, _, rfl, .openFailed errno,
        (chainServed_fail (firstFailure_opened errno)).symm⟩
  | none =>
      dsimp only
      cases hread : item.view.ringRead.perform item.view.content item.fileSize with
      | error errno =>
          have hneg := neg_value_neg errno
          exact ⟨_, _, _, _, rfl, .readEnded (by omega),
            (chainServed_fail (firstFailure_read errno)).symm⟩
      | ok bytes =>
          obtain ⟨htake, hle⟩ := eq_take_of_perform hread
          dsimp only
          by_cases hlen : bytes.length = item.fileSize
          · rw [if_neg (not_not_intro hlen), if_neg (not_not_intro hlen), hlen]
            cases hprobe : item.view.ringProbe.perform
                (item.view.content.drop item.fileSize) 1 with
            | error errno =>
                have hneg := neg_value_neg errno
                exact ⟨_, _, _, _, rfl, .probeEnded (by omega) (by omega),
                  (chainServed_fail (firstFailure_probe errno)).symm⟩
            | ok extra =>
                have hextraLe := (eq_take_of_perform hprobe).2
                dsimp only
                by_cases hextra : extra.length = 1
                · rw [if_neg (not_not_intro hextra), if_pos (by omega)]
                  exact ⟨_, _, _, _, rfl, ⟨by decide, by omega, by omega, by omega, by omega,
                    fun h => absurd rfl h, fun _ => rfl⟩,
                    (chainServed_fail (firstFailure_grown (by decide))).symm⟩
                · have hnone : extra.length = 0 := by omega
                  rw [if_pos hextra, if_neg (by omega), hnone]
                  refine ⟨_, _, _, _, rfl, .probeEnded (by decide) (by decide), ?_⟩
                  rw [chainServed, Int.natCast_zero, firstFailure_none, ← hlen, ← htake]
                  dsimp only
                  cases (item.feed.consume consumer bytes).2 <;> rfl
          · rw [if_pos hlen, if_pos hlen]
            exact ⟨_, _, _, _, rfl, .readEnded (by omega),
              (chainServed_fail (firstFailure_short hlen)).symm⟩

/-- A negative result is that of an errno. -/
theorem exists_errno {res : Int} (h : res < 0) : ∃ errno : Errno, -(errno.value : Int) = res :=
  ⟨⟨res.natAbs, by omega⟩, by
    change -((res.natAbs : Nat) : Int) = res
    omega⟩

/-- A file of zeros: how its open on the ring ends, and what is read and
probed of it. -/
def FileView.zeros (length : Nat) (ringOpenError : Option Errno)
    (ringRead ringProbe : ReadOutcome) : FileView :=
  ⟨List.replicate length 0, none, none, [], ringOpenError, ringRead, ringProbe⟩

/-- **Every assignment that obeys the rule is that of a file.** -/
theorem exists_view_of_linkRule (item : BatchItem κ) {opened read probe closed : Int}
    (h : LinkRule item.fileSize opened read probe closed) :
    ∃ view : FileView, slotResults { item with view } = [opened, read, probe, closed] := by
  have hcancelled := neg_value_neg Errno.ECANCELED
  have hopenedLe := h.opened_le
  by_cases hopened : opened < 0
  · obtain rfl := h.read_cancelled hopened
    obtain rfl := h.probe_cancelled (by omega)
    obtain rfl := h.close_cancelled (by omega)
    obtain ⟨errno, rfl⟩ := exists_errno hopened
    exact ⟨.zeros 0 (some errno) (.whole 0) (.whole 1), rfl⟩
  obtain rfl : opened = 0 := by omega
  have hreadLe := h.read_le rfl
  by_cases hwhole : read = item.fileSize
  · subst hwhole
    have hprobeLe := h.probe_le rfl
    by_cases hfailed : probe < 0
    · obtain rfl := h.close_cancelled (by omega)
      obtain ⟨errno, rfl⟩ := exists_errno hfailed
      refine ⟨.zeros item.fileSize none (.whole item.fileSize) (.error errno), ?_⟩
      simp [slotResults, FileView.zeros, perform_whole, perform_error]
    · by_cases hend : probe = 0
      · subst hend
        obtain rfl := h.close_cancelled (by omega)
        refine ⟨.zeros item.fileSize none (.whole item.fileSize) (.whole 1), ?_⟩
        simp [slotResults, FileView.zeros, perform_whole]
      · obtain rfl : probe = 1 := by omega
        obtain rfl := h.close_ok rfl
        refine ⟨.zeros (item.fileSize + 1) none (.whole item.fileSize) (.whole 1), ?_⟩
        simp [slotResults, FileView.zeros, perform_whole]
  · obtain rfl := h.probe_cancelled hwhole
    obtain rfl := h.close_cancelled (by omega)
    by_cases hfailed : read < 0
    · obtain ⟨errno, rfl⟩ := exists_errno hfailed
      exact ⟨.zeros 0 none (.error errno) (.whole 1), rfl⟩
    · obtain ⟨length, rfl⟩ := Int.eq_ofNat_of_zero_le (Int.not_lt.mp hfailed)
      have hshort : min item.fileSize length = length := by omega
      have hne : length ≠ item.fileSize := by omega
      refine ⟨.zeros length none (.whole item.fileSize) (.whole 1), ?_⟩
      simp [slotResults, FileView.zeros, perform_whole, hshort, hne]

/-! ## a chunk driven to its end -/

/-- **What a chunk driven to its end leaves.**  An item that has a slot is what
the four results handled for its slot make of it; the others are untouched. -/
structure ChunkServed (items : List (BatchItem κ)) (drive : DriveResult κ) : Prop where
  completed : drive.driven = .completed
  length_items : drive.state.items.length = items.length
  fitting : ∀ (i : Nat) (item : BatchItem κ), items[i]? = some item →
    ringFitsInSlot item = true → ∃ (j : Nat) (opened read probe closed : Int),
      drive.slotToItem[j]? = some i ∧
        (drive.state.handled.filter (fun cqe => ringDecodeSlot cqe.userData = j)).map Cqe.res =
          [opened, read, probe, closed] ∧
        LinkRule item.fileSize opened read probe closed ∧
        drive.state.items[i]? = some (chainServed consumer item opened read probe)
  other : ∀ (i : Nat) (item : BatchItem κ), items[i]? = some item →
    ringFitsInSlot item = false → drive.state.items[i]? = some item

/-- The results of a slot's completions are those of its item. -/
theorem res_slotCompletions (tag : Tag) (slotIndex : Nat) (item : BatchItem κ) (start : Slot) :
    (slotCompletions tag slotIndex item start).map Cqe.res = slotResults item := by
  have hpairs := congrArg (List.map Prod.snd) (slotCompletions_eq tag slotIndex item start)
  obtain ⟨opened, read, probe, closed, hresults, _⟩ :=
    linkRule_slotResults (fun context _ => (context, true)) item
  rw [List.map_map, hresults] at hpairs
  rw [hresults]
  exact hpairs

variable {consumer}

theorem chunkServed_ringDriveChunk {script : ChunkScript} {items : List (BatchItem κ)}
    (hscript : ¬script.FailsOn items) {ring : Ring} (hquiet : ring.Quiescent)
    (hlen : items.length ≤ readerRingSlotCount) (hfresh : ∀ item ∈ items, Fresh item)
    (hreturned : (ringDriveChunk consumer script ring items).driven ≠ .blocked) :
    ChunkServed consumer items (ringDriveChunk consumer script ring items) ∧
      (ringDriveChunk consumer script ring items).state.items =
        items.map fun item => if ringFitsInSlot item then ringServed consumer item else item := by
  obtain ⟨hdriven, _⟩ := @chunkDriven_ringDriveChunk κ consumer script ring hquiet items hlen hfresh
  have hcompleted : (ringDriveChunk consumer script ring items).driven = .completed := by
    cases hend : (ringDriveChunk consumer script ring items).driven with
    | completed => rfl
    | blocked => exact absurd hend hreturned
    | failed => exact absurd ((ringDriveChunk_reaps _ hquiet hlen).2.symm.trans hend) hscript
  refine ⟨⟨hcompleted, hdriven.length_items, fun i item hitem hfits => ?_, hdriven.other⟩, ?_⟩
  · obtain ⟨j, hj⟩ := exists_slot hitem hfits
    obtain ⟨opened, read, probe, closed, hresults, hrule, hserved⟩ :=
      linkRule_slotResults consumer item
    refine ⟨j, opened, read, probe, closed, hdriven.slotToItem ▸ hj, ?_, hrule, ?_⟩
    · rw [handled_ringDriveChunk script hquiet hlen hcompleted hj hitem, res_slotCompletions,
        hresults]
    · rw [← hserved]
      exact hdriven.completed hcompleted i item hitem hfits
  · refine List.ext_getElem? fun i => ?_
    rw [List.getElem?_map]
    cases hitem : items[i]? with
    | none =>
        rw [List.getElem?_eq_none_iff] at hitem
        exact List.getElem?_eq_none_iff.mpr (hdriven.length_items ▸ hitem)
    | some item =>
        cases hfits : ringFitsInSlot item with
        | false => simp [hdriven.other i item hitem hfits, hfits]
        | true => simp [hdriven.completed hcompleted i item hitem hfits, hfits]

/-- **The order between chains does not show.**  A chunk on a quiescent ring
whose submit and waits succeed makes of each item what the item's own results
say, and any other order of the completions, on any quiescent ring, leaves the
same items.  Every assignment of results that obeys the rule of the links is
that of a file.

An `openat` heads its chain, so no link cancels it: its errno is recorded as
it is, where a cancelled read or probe is recorded as `EIO`. -/
theorem chunk_confluent (consumer : Consumer κ) {script : ChunkScript} {items : List (BatchItem κ)}
    (hscript : ¬script.FailsOn items) {ring : Ring} (hquiet : ring.Quiescent)
    (hlen : items.length ≤ readerRingSlotCount) (hfresh : ∀ item ∈ items, Fresh item)
    (hreturned : (ringDriveChunk consumer script ring items).driven ≠ .blocked) :
    ChunkServed consumer items (ringDriveChunk consumer script ring items) ∧
      (∀ (script' : ChunkScript) (ring' : Ring), ¬script'.FailsOn items → ring'.Quiescent →
        (ringDriveChunk consumer script' ring' items).driven ≠ .blocked →
          (ringDriveChunk consumer script' ring' items).state.items =
            (ringDriveChunk consumer script ring items).state.items) ∧
      ∀ (item : BatchItem κ) (opened read probe closed : Int),
        LinkRule item.fileSize opened read probe closed →
          ∃ view : FileView, slotResults { item with view } = [opened, read, probe, closed] := by
  obtain ⟨hserved, hitems⟩ := chunkServed_ringDriveChunk hscript hquiet hlen hfresh hreturned
  refine ⟨hserved, fun script' ring' hscript' hquiet' hreturned' => ?_, fun item _ _ _ _ hrule =>
    exists_view_of_linkRule item hrule⟩
  rw [hitems]
  exact (chunkServed_ringDriveChunk hscript' hquiet' hlen hfresh hreturned').2

end Served

/-! ### two chains -/

/-- A chunk of at most two items, whose operations advance in the given order,
one for each wait. -/
def twoChainsScript (order : List Nat) : ChunkScript where
  submitStatus := .ok 8
  waits := order.map fun chain => ⟨[chain], .ok ()⟩
  stale := noStale

theorem not_failsOn_twoChainsScript (order : List Nat) (items : List (BatchItem Unit)) :
    ¬(twoChainsScript order).FailsOn items := by
  refine not_failsOn_of_ok items rfl fun wait hwait => ?_
  obtain ⟨chain, _, rfl⟩ := List.mem_map.mp hwait
  rfl

/-- An interleaving of two chains and their completions one after the other. -/
theorem chunk_confluent_two_chains :
    ChunkServed acceptAll [plainItem 2 [1, 2], plainItem 1 [3, 4]]
        (ringDriveChunk acceptAll (twoChainsScript [1, 0, 0, 1, 1, 0, 1, 0]) Ring.init
          [plainItem 2 [1, 2], plainItem 1 [3, 4]]) ∧
      (ringDriveChunk acceptAll (twoChainsScript [0, 0, 0, 0, 1, 1, 1, 1]) Ring.init
          [plainItem 2 [1, 2], plainItem 1 [3, 4]]).state.items =
        (ringDriveChunk acceptAll (twoChainsScript [1, 0, 0, 1, 1, 0, 1, 0]) Ring.init
          [plainItem 2 [1, 2], plainItem 1 [3, 4]]).state.items := by
  have hfresh : ∀ item ∈ [plainItem 2 [1, 2], plainItem 1 [3, 4]], Fresh item := by
    intro item hitem
    simp only [List.mem_cons, List.not_mem_nil, or_false] at hitem
    rcases hitem with rfl | rfl <;> exact ⟨rfl, rfl, rfl⟩
  obtain ⟨hserved, hsame, _⟩ := @chunk_confluent Unit acceptAll _
    [plainItem 2 [1, 2], plainItem 1 [3, 4]]
    (not_failsOn_twoChainsScript [1, 0, 0, 1, 1, 0, 1, 0] _) Ring.init Ring.quiescent_init
    (by decide) hfresh (by decide +kernel)
  exact ⟨hserved, hsame _ _ (not_failsOn_twoChainsScript _ _) Ring.quiescent_init (by decide +kernel)⟩

/-- **A cancelled `openat` is not recorded as `EIO`.** -/
theorem cancelled_open_keeps_errno :
    ¬∀ (script : ChunkScript) (items : List (BatchItem Unit)), ¬script.FailsOn items →
      items.length ≤ readerRingSlotCount → (∀ item ∈ items, Fresh item) →
      (ringDriveChunk acceptAll script Ring.init items).driven = .completed →
      ∀ (i : Nat) (item final : BatchItem Unit), items[i]? = some item →
        ringFitsInSlot item = true →
        (ringDriveChunk acceptAll script Ring.init items).state.items[i]? = some final →
        (∀ res ∈ slotResults item, res = -Errno.ECANCELED.value) →
          final.errnoValue = Errno.EIO.value := by
  intro h
  let item : BatchItem Unit := { plainItem 1 [65] with
    view := { FileView.plain [65] with ringOpenError := some Errno.ECANCELED } }
  have hfresh : ∀ other ∈ [item], Fresh other := by
    intro other hother
    rw [List.mem_singleton.mp hother]
    exact ⟨rfl, rfl, rfl⟩
  have herrno := h (twoChainsScript [0, 0, 0, 0]) [item] (not_failsOn_twoChainsScript _ _) (by decide)
    hfresh (by decide +kernel) 0 item (item.fail Errno.ECANCELED) rfl (by decide +kernel)
    (by decide +kernel) (by decide +kernel)
  exact absurd herrno (by decide)

end BcDuplicate
