import BcDuplicate.Ring.Confluence

/-!
# BcDuplicate.Ring.Closing

Whether the fixed file of a slot is closed again.

The close is the last link of its chain, behind the probe for growth.  At the
end of a file the probe reads nothing, which is short of the byte it asked
for, so the close is cancelled: it runs only when the file was read whole and
a byte was found behind it (`closed_iff`), and then the item has failed.  A
slot whose item succeeds keeps its file open (`slots_stay_open`).
-/

namespace BcDuplicate

section Closing

variable {κ : Type} {consumer : Consumer κ}

/-- The completions posted while a chunk was driven. -/
def DriveResult.posted (drive : DriveResult κ) : List Cqe :=
  drive.state.handled ++ drive.state.ring.completionQueue

/-- In every slot of the chunk whose file was opened, the close was executed,
and the slot holds no file any more. -/
def ClosesOpened (drive : DriveResult κ) : Prop :=
  ∀ j < drive.slotToItem.length, ∀ opened ∈ drive.posted, ringDecodeSlot opened.userData = j →
    opened.sqe.operation = .openat → 0 ≤ opened.res →
      (∃ closed ∈ drive.posted, ringDecodeSlot closed.userData = j ∧
        closed.sqe.tag = opened.sqe.tag ∧ closed.sqe.operation = .close ∧
          closed.res ≠ -Errno.ECANCELED.value) ∧
        (drive.state.ring.slots j).file = none

/-- All of the recorded size is read, and a byte behind it. -/
def ReadGrown (item : BatchItem κ) : Prop :=
  (∃ bytes, item.view.ringRead.perform item.view.content item.fileSize = .ok bytes ∧
    bytes.length = item.fileSize) ∧
  ∃ extra, item.view.ringProbe.perform (item.view.content.drop item.fileSize) 1 = .ok extra ∧
    extra.length = 1

/-! ## one slot -/

/-- The open succeeds when the kernel has no error for it, and then the close
is executed exactly when the file has grown. -/
theorem closed_iff {item : BatchItem κ} {opened read probe closed : Int}
    (hresults : slotResults item = [opened, read, probe, closed]) :
    (0 ≤ opened ↔ item.view.ringOpenError = none) ∧
      (0 ≤ opened → (closed ≠ -Errno.ECANCELED.value ↔ ReadGrown item)) := by
  unfold slotResults at hresults
  cases hopen : item.view.ringOpenError with
  | some errno =>
      rw [hopen] at hresults
      simp only [List.cons.injEq, and_true] at hresults
      obtain ⟨rfl, rfl, rfl, rfl⟩ := hresults
      have hneg := neg_value_neg errno
      exact ⟨⟨fun h => by omega, fun h => by cases h⟩, fun h => by omega⟩
  | none =>
      simp only [hopen] at hresults
      unfold ReadGrown
      cases hread : item.view.ringRead.perform item.view.content item.fileSize with
      | error errno =>
          simp only [hread, List.cons.injEq, and_true] at hresults
          obtain ⟨rfl, rfl, rfl, rfl⟩ := hresults
          simp
      | ok bytes =>
          simp only [hread] at hresults
          by_cases hlen : bytes.length = item.fileSize
          · rw [if_neg (not_not_intro hlen)] at hresults
            cases hprobe : item.view.ringProbe.perform
                (item.view.content.drop item.fileSize) 1 with
            | error errno =>
                simp only [hprobe, List.cons.injEq, and_true] at hresults
                obtain ⟨rfl, rfl, rfl, rfl⟩ := hresults
                simp
            | ok extra =>
                simp only [hprobe] at hresults
                by_cases hextra : extra.length = 1
                · rw [if_neg (not_not_intro hextra)] at hresults
                  simp only [List.cons.injEq, and_true] at hresults
                  obtain ⟨rfl, rfl, rfl, rfl⟩ := hresults
                  have hne : (0 : Int) ≠ -Errno.ECANCELED.value := by decide
                  simp [hlen, hextra, hne]
                · rw [if_pos hextra] at hresults
                  simp only [List.cons.injEq, and_true] at hresults
                  obtain ⟨rfl, rfl, rfl, rfl⟩ := hresults
                  simp [hextra]
          · rw [if_pos hlen] at hresults
            simp only [List.cons.injEq, and_true] at hresults
            obtain ⟨rfl, rfl, rfl, rfl⟩ := hresults
            simp [hlen]

/-- When the close is executed, the slot is empty behind it. -/
theorem file_run_slotEntries {item : BatchItem κ} (hopen : item.view.ringOpenError = none)
    (hgrown : ReadGrown item) (tag : Tag) (j : Nat) (start : Slot) :
    (Progress.run ⟨start, false⟩ (slotEntries tag j item)).slot.file = none := by
  obtain ⟨⟨bytes, hread, hlen⟩, extra, hprobe, hextra⟩ := hgrown
  simp only [slotEntries, Progress.run, List.foldl_cons, List.foldl_nil]
  rw [Progress.step_openat rfl, hopen]
  dsimp only
  rw [Progress.step_read rfl rfl, List.drop_zero, hread]
  dsimp only
  rw [hlen, decide_eq_true rfl, Bool.not_true, Progress.step_probe rfl rfl, hprobe]
  dsimp only
  rw [hextra, decide_eq_true rfl, Bool.not_true, Progress.step_close rfl rfl]

/-- Each completion carries the entry it completes. -/
theorem completions_eq_zipWith (progress : Progress) (entries : List Sqe) :
    progress.completions entries =
      List.zipWith (fun sqe res => ⟨sqe.userData, res, sqe⟩) entries
        ((progress.completions entries).map Cqe.res) := by
  induction entries generalizing progress with
  | nil => rfl
  | cons sqe entries ih =>
      rw [Progress.completions, List.map_cons, List.zipWith_cons_cons, ← ih]

/-- The completions of a slot: one for each entry, in their order. -/
theorem exists_slotCompletions (tag : Tag) (j : Nat) (item : BatchItem κ) (start : Slot) :
    ∃ openSqe readSqe probeSqe closeSqe : Sqe, ∃ opened read probe closed : Int,
      slotResults item = [opened, read, probe, closed] ∧
        slotEntries tag j item = [openSqe, readSqe, probeSqe, closeSqe] ∧
        slotCompletions tag j item start =
          [⟨openSqe.userData, opened, openSqe⟩, ⟨readSqe.userData, read, readSqe⟩,
            ⟨probeSqe.userData, probe, probeSqe⟩, ⟨closeSqe.userData, closed, closeSqe⟩] := by
  obtain ⟨opened, read, probe, closed, hresults, _⟩ :=
    linkRule_slotResults (fun context _ => (context, true)) item
  refine ⟨_, _, _, _, opened, read, probe, closed, hresults, rfl, ?_⟩
  rw [slotCompletions, completions_eq_zipWith, ← slotCompletions, res_slotCompletions, hresults]
  rfl

/-- **One slot of a chunk.**  Whether its close runs, read off its
completions. -/
theorem slot_closes_iff {item : BatchItem κ} (tag : Tag) (j : Nat) (start : Slot) :
    (∀ opened ∈ slotCompletions tag j item start, opened.sqe.operation = .openat →
        0 ≤ opened.res →
        ∃ closed ∈ slotCompletions tag j item start, closed.sqe.tag = opened.sqe.tag ∧
          closed.sqe.operation = .close ∧ closed.res ≠ -Errno.ECANCELED.value) ↔
      (item.view.ringOpenError = none → ReadGrown item) := by
  obtain ⟨openSqe, readSqe, probeSqe, closeSqe, opened, read, probe, closed, hresults, hentries,
    hcompletions⟩ := exists_slotCompletions tag j item start
  obtain ⟨hopened, hclosed⟩ := closed_iff hresults
  simp only [slotEntries, List.cons.injEq, and_true] at hentries
  obtain ⟨rfl, rfl, rfl, rfl⟩ := hentries
  have hreads : (∀ opened ∈ slotCompletions tag j item start, opened.sqe.operation = .openat →
      0 ≤ opened.res →
      ∃ closed ∈ slotCompletions tag j item start, closed.sqe.tag = opened.sqe.tag ∧
        closed.sqe.operation = .close ∧ closed.res ≠ -Errno.ECANCELED.value) ↔
      (0 ≤ opened → closed ≠ -Errno.ECANCELED.value) := by
    rw [hcompletions]
    simp
  rw [hreads]
  exact ⟨fun h hopen => (hclosed (hopened.mpr hopen)).mp (h (hopened.mpr hopen)),
    fun h hres => (hclosed hres).mpr (h (hopened.mp hres))⟩

/-- A completed open says whether the kernel had an error for it. -/
theorem opened_iff {item : BatchItem κ} {tag : Tag} {j : Nat} {start : Slot} {opened : Cqe}
    (hmem : opened ∈ slotCompletions tag j item start) (hop : opened.sqe.operation = .openat) :
    0 ≤ opened.res ↔ item.view.ringOpenError = none := by
  obtain ⟨openSqe, readSqe, probeSqe, closeSqe, result, read, probe, closed, hresults, hentries,
    hcompletions⟩ := exists_slotCompletions tag j item start
  simp only [slotEntries, List.cons.injEq, and_true] at hentries
  obtain ⟨rfl, rfl, rfl, rfl⟩ := hentries
  rw [← (closed_iff hresults).1]
  rw [hcompletions] at hmem
  simp only [List.mem_cons, List.not_mem_nil, or_false] at hmem
  rcases hmem with rfl | rfl | rfl | rfl
  · exact Iff.rfl
  · cases hop
  · cases hop
  · cases hop

/-! ## one chunk -/

/-- When all completions are in, every chain has run to its end. -/
theorem DriveInv.slot_end {plan : Plan κ} {state : DriveState κ} {seen : Nat}
    (h : DriveInv consumer plan state seen) (hseen : seen = 4 * plan.slotToItem.length)
    {j i : Nat} {item : BatchItem κ} (hserves : plan.Serves j i item) :
    state.ring.slots j =
      (Progress.run ⟨plan.slots j, false⟩ (slotEntries ⟨plan.chunk, i⟩ j item)).slot := by
  obtain ⟨done, todo, reaped, pending, lane⟩ := h.lanes j i item hserves
  have hreaped := h.length_reaped hseen hserves lane
  have hcompletions := congrArg List.length lane.completions
  rw [Progress.length_completions, List.length_append] at hcompletions
  have hdone : done = slotEntries ⟨plan.chunk, i⟩ j item :=
    lane.done_prefix.eq_of_length_le (show 4 ≤ done.length by omega)
  rw [lane.slot_eq, hdone]

/-- A chunk without an item for a slot opens nothing, on any ring. -/
theorem closesOpened_of_none (script : ChunkScript) (ring : Ring) {items : List (BatchItem κ)}
    (hnone : fittingItems 0 items = []) :
    ClosesOpened (ringDriveChunk consumer script ring items) ↔
      ∀ item ∈ items, ringFitsInSlot item = true → item.view.ringOpenError = none →
        ReadGrown item := by
  obtain ⟨hdriven, _, _⟩ := @chunkDriven_of_none κ consumer script ring items hnone
  constructor
  · intro _ item hitem hfits
    obtain ⟨i, hi⟩ := List.mem_iff_getElem?.mp hitem
    obtain ⟨j, hj⟩ := exists_slot hi hfits
    rw [hnone] at hj
    cases hj
  · intro _ j hj
    rw [hdriven.slotToItem, hnone] at hj
    cases hj

/-- **When a chunk closes what it opened**: every item of the chunk that has a
slot and can be opened has grown. -/
theorem closesOpened_iff (script : ChunkScript) {ring : Ring} (hquiet : ring.Quiescent)
    {items : List (BatchItem κ)} (hlen : items.length ≤ readerRingSlotCount)
    (hcompleted : (ringDriveChunk consumer script ring items).driven = .completed) :
    ClosesOpened (ringDriveChunk consumer script ring items) ↔
      ∀ item ∈ items, ringFitsInSlot item = true → item.view.ringOpenError = none →
        ReadGrown item := by
  by_cases hsome : fittingItems 0 items = []
  · exact closesOpened_of_none script ring hsome
  cases hsubmit : script.submitStatus with
  | error errno =>
      obtain ⟨ring', _, hdrive⟩ :=
        @ringDriveChunk_submit_error κ consumer script ring hquiet items hlen hsome errno hsubmit
      rw [hdrive] at hcompleted
      cases hcompleted
  | ok accepted =>
      obtain ⟨hslots, _, seen, hinv, hseen⟩ :=
        @driveInv_ringDriveChunk κ consumer script ring hquiet items hlen hsome accepted hsubmit
      have hseen := hseen hcompleted
      -- all completions are handled, and those of a slot are its own four
      have hposted : ∀ {j i : Nat} {item : BatchItem κ}, (fittingItems 0 items)[j]? = some i →
          items[i]? = some item → ∀ cqe : Cqe,
            cqe ∈ (ringDriveChunk consumer script ring items).posted ∧
              ringDecodeSlot cqe.userData = j ↔
            cqe ∈ slotCompletions ⟨ring.driven, i⟩ j item (ring.slots j) := by
        intro j i item hslot hitem cqe
        rw [← hinv.handled_slot hseen ⟨hslot, hitem⟩, DriveResult.posted,
          (hinv.quiescent hseen).2.1, List.append_nil, List.mem_filter, decide_eq_true_eq]
      constructor
      · intro hcloses item hmem hfits
        obtain ⟨i, hitem⟩ := List.mem_iff_getElem?.mp hmem
        obtain ⟨j, hslot⟩ := exists_slot hitem hfits
        have hj : j < (ringDriveChunk consumer script ring items).slotToItem.length := by
          rw [hslots]
          exact (List.getElem?_eq_some_iff.mp hslot).1
        refine (slot_closes_iff ⟨ring.driven, i⟩ j (ring.slots j)).mp ?_
        intro opened hopened hop hres
        obtain ⟨hin, hdecode⟩ := (hposted hslot hitem opened).mpr hopened
        obtain ⟨⟨closed, hclosed, hcloseSlot, hrest⟩, _⟩ := hcloses j hj opened hin hdecode hop hres
        exact ⟨closed, (hposted hslot hitem closed).mp ⟨hclosed, hcloseSlot⟩, hrest⟩
      · intro hgrown j hj opened hin hdecode hop hres
        rw [hslots] at hj
        obtain ⟨i, item, hserves⟩ : ∃ i item, (⟨ring.driven, items, ring.slots, accepted⟩ :
            Plan κ).Serves j i item := Plan.exists_serves hj
        obtain ⟨item', hitem', hfits, _⟩ := getElem?_fittingItems 0 0 hserves.slot
        rw [Nat.sub_zero, hserves.item, Option.some.injEq] at hitem'
        subst hitem'
        have hgrows := hgrown item (List.mem_of_getElem? hserves.item) hfits
        have hopened := (hposted hserves.slot hserves.item opened).mp ⟨hin, hdecode⟩
        have hopen := (opened_iff hopened hop).mp hres
        obtain ⟨closed, hclosed, hrest⟩ :=
          (slot_closes_iff ⟨ring.driven, i⟩ j (ring.slots j)).mpr hgrows opened hopened hop hres
        obtain ⟨hclosedIn, hclosedSlot⟩ := (hposted hserves.slot hserves.item closed).mpr hclosed
        refine ⟨⟨closed, hclosedIn, hclosedSlot, hrest⟩, ?_⟩
        rw [hinv.slot_end hseen hserves]
        exact file_run_slotEntries hopen (hgrows hopen) _ _ _

/-! ## runs -/

/-- **When the slots are closed.**  In every sequence of calls on one ring in
which no chunk with an item for a slot follows a chunk whose submit or wait
failed: a chunk that is driven to its end has closed the file of every slot it
opened exactly when all its items that were opened on the ring have grown since
their size was recorded. -/
theorem slots_closed_iff (consumer : Consumer κ) (scripts : Nat → ChunkScript)
    (calls : List (List (BatchItem κ))) (hreuse : NoReuse scripts 0 (callChunks calls))
    (k : Nat) (drive : DriveResult κ) (chunk : List (BatchItem κ))
    (hdrive : ((consumeCalls consumer scripts Ring.init calls).flatMap BatchResult.drives)[k]? =
      some drive)
    (hchunk : (callChunks calls)[k]? = some chunk) (hcompleted : drive.driven = .completed) :
    ClosesOpened drive ↔
      ∀ item ∈ chunk, ringFitsInSlot item = true → item.view.ringOpenError = none →
        ReadGrown item := by
  rw [drives_consumeCalls, List.getElem?_map, Option.map_eq_some_iff] at hdrive
  obtain ⟨result, hresult, rfl⟩ := hdrive
  have hready : ReadyFor scripts Ring.init (callChunks calls) :=
    Or.inl ⟨Ring.quiescent_init, hreuse⟩
  obtain ⟨before, _, hdrive, hstart⟩ :=
    drive_run hready (fun chunk hmem => of_mem_callChunks hmem) hresult hchunk
  have hlen := (of_mem_callChunks (List.mem_of_getElem? hchunk)).1
  rw [hdrive] at hcompleted ⊢
  cases hstart with
  | inl hquiet => exact closesOpened_iff _ hquiet hlen hcompleted
  | inr hnone => exact closesOpened_of_none _ before hnone

end Closing

/-! ### one file -/

/-- A file that has grown by a byte is closed again. -/
theorem slots_closed_iff_grown :
    ∃ drive, ((consumeCalls acceptAll (fun _ => oneChainScript 4) Ring.init
        [[plainItem 1 [65, 66]]]).flatMap BatchResult.drives)[0]? = some drive ∧
      drive.driven = .completed ∧ ClosesOpened drive := by
  have hrun : (((consumeCalls acceptAll (fun _ => oneChainScript 4) Ring.init
      [[plainItem 1 [65, 66]]]).flatMap BatchResult.drives)[0]?.map DriveResult.driven) =
        some .completed := by decide +kernel
  obtain ⟨drive, hdrive, hcompleted⟩ := Option.map_eq_some_iff.mp hrun
  have hreuse : NoReuse (fun _ => oneChainScript 4) 0 (callChunks [[plainItem 1 [65, 66]]]) := by
    intro a b chunk later hab ha hb
    have hlength : (callChunks [[plainItem 1 [65, 66]]]).length = 1 := by decide +kernel
    have hb := (List.getElem?_eq_some_iff.mp hb).1
    omega
  have hchunk : (callChunks [[plainItem 1 [65, 66]]])[0]? =
      some [(plainItem 1 [65, 66]).reset] := by decide +kernel
  refine ⟨drive, hdrive, hcompleted, ?_⟩
  rw [slots_closed_iff acceptAll (fun _ => oneChainScript 4) [[plainItem 1 [65, 66]]] hreuse 0 drive
    [(plainItem 1 [65, 66]).reset] hdrive hchunk hcompleted]
  intro item hitem _ _
  rw [List.mem_singleton] at hitem
  subst hitem
  exact ⟨⟨[65], rfl, rfl⟩, [66], rfl, rfl⟩

/-- **A file read whole keeps its slot open.**  The probe at its end reads
nothing, and the close behind it is cancelled. -/
theorem slots_stay_open :
    ¬∀ (scripts : Nat → ChunkScript) (calls : List (List (BatchItem Unit))) (k : Nat)
        (drive : DriveResult Unit),
      ((consumeCalls acceptAll scripts Ring.init calls).flatMap BatchResult.drives)[k]? =
        some drive →
      drive.driven = .completed → ClosesOpened drive := by
  intro h
  have hrun : (((consumeCalls acceptAll (fun _ => oneChainScript 4) Ring.init
      [[plainItem 1 [65]]]).flatMap BatchResult.drives)[0]?.map fun drive =>
        (drive.driven, drive.slotToItem, drive.posted.map fun cqe =>
          (ringDecodeSlot cqe.userData, cqe.sqe.operation, cqe.res))) =
      some (.completed, [0], [(0, .openat, 0), (0, .read, 1), (0, .probe, 0),
        (0, .close, -125)]) := by decide +kernel
  obtain ⟨drive, hdrive, hdata⟩ := Option.map_eq_some_iff.mp hrun
  simp only [Prod.mk.injEq] at hdata
  obtain ⟨hcompleted, hslots, hposted⟩ := hdata
  have hcloses := h _ _ _ drive hdrive hcompleted
  have hopened : (0, Operation.openat, (0 : Int)) ∈ drive.posted.map fun cqe =>
      (ringDecodeSlot cqe.userData, cqe.sqe.operation, cqe.res) := by
    rw [hposted]
    exact List.mem_cons_self
  obtain ⟨opened, hmem, heq⟩ := List.mem_map.mp hopened
  simp only [Prod.mk.injEq] at heq
  obtain ⟨hslot, hop, hres⟩ := heq
  have hlt : 0 < drive.slotToItem.length := by rw [hslots]; decide
  obtain ⟨⟨closed, hclosed, _, _, hclose, hexecuted⟩, _⟩ :=
    hcloses 0 hlt opened hmem hslot hop (Int.le_of_eq hres.symm)
  have hin := List.mem_map_of_mem (f := fun cqe : Cqe =>
    (ringDecodeSlot cqe.userData, cqe.sqe.operation, cqe.res)) hclosed
  rw [hposted, hclose] at hin
  simp only [List.mem_cons, Prod.mk.injEq, List.not_mem_nil, or_false] at hin
  rcases hin with ⟨_, hop, _⟩ | ⟨_, hop, _⟩ | ⟨_, hop, _⟩ | ⟨_, _, hres⟩
  · cases hop
  · cases hop
  · cases hop
  · exact hexecuted hres

end BcDuplicate
