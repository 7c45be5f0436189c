import BcDuplicate.Ring.Batch
import BcDuplicate.Reader.Stream

/-!
# BcDuplicate.Ring.Calls

Sequences of calls on one ring, from its initialisation on.

A chunk whose submit or wait fails leaves operations behind.  As long as no
later chunk uses the ring (`NoReuse`), every completion a chunk handles is of
an operation it prepared, and a file the ring accepts was fed to its consumer
once (`drives_sound`).  A later chunk that does use the ring handles what was
left behind as its own (`stale_completions_handled`).
-/

namespace BcDuplicate

section Run

variable {κ : Type} {consumer : Consumer κ}

/-- No chunk with an item that fits a slot comes after one that failed; the
first of the chunks is the ring's `first`-th. -/
def NoReuse (scripts : Nat → ChunkScript) (first : Nat) (chunks : List (List (BatchItem κ))) :
    Prop :=
  ∀ (a b : Nat) (chunk later : List (BatchItem κ)), a < b → chunks[a]? = some chunk →
    chunks[b]? = some later → (scripts (first + a)).FailsOn chunk → fittingItems 0 later = []

theorem NoReuse.tail {scripts : Nat → ChunkScript} {first : Nat} {chunk : List (BatchItem κ)}
    {chunks : List (List (BatchItem κ))} (h : NoReuse scripts first (chunk :: chunks)) :
    NoReuse scripts (first + 1) chunks := by
  intro a b chunk' later hab ha hb hfails
  rw [Nat.add_assoc, Nat.add_comm 1 a] at hfails
  exact h (a + 1) (b + 1) chunk' later (Nat.succ_lt_succ hab) ha hb hfails

/-- What is known of the ring before the remaining chunks. -/
def ReadyFor (scripts : Nat → ChunkScript) (ring : Ring) (chunks : List (List (BatchItem κ))) :
    Prop :=
  (ring.Quiescent ∧ NoReuse scripts ring.driven chunks) ∨
    ∀ chunk ∈ chunks, fittingItems 0 chunk = []

/-- Only the slots that chunks need count. -/
theorem ReadyFor.congr {scripts : Nat → ChunkScript} {ring : Ring}
    {chunks chunks' : List (List (BatchItem κ))}
    (hslots : chunks.map (fittingItems 0) = chunks'.map (fittingItems 0))
    (h : ReadyFor scripts ring chunks) : ReadyFor scripts ring chunks' := by
  have hsame : ∀ (k : Nat) (chunk' : List (BatchItem κ)), chunks'[k]? = some chunk' →
      ∃ chunk, chunks[k]? = some chunk ∧ fittingItems 0 chunk = fittingItems 0 chunk' := by
    intro k chunk' hchunk'
    have hk := congrArg (fun slots : List (List Nat) => slots[k]?) hslots
    rw [List.getElem?_map, List.getElem?_map, hchunk', Option.map_some, Option.map_eq_some_iff] at hk
    exact hk
  cases h with
  | inl hquiet =>
      refine Or.inl ⟨hquiet.1, fun a b chunk' later' hab ha hb hfails => ?_⟩
      obtain ⟨chunk, hchunk, heq⟩ := hsame a chunk' ha
      obtain ⟨later, hlater, heq'⟩ := hsame b later' hb
      rw [← heq']
      refine hquiet.2 a b chunk later hab hchunk hlater ?_
      unfold ChunkScript.FailsOn at hfails ⊢
      rwa [heq]
  | inr hnone =>
      refine Or.inr fun chunk' hchunk' => ?_
      obtain ⟨k, hk⟩ := List.mem_iff_getElem?.mp hchunk'
      obtain ⟨chunk, hchunk, heq⟩ := hsame k chunk' hk
      rw [← heq]
      exact hnone chunk (List.mem_of_getElem? hchunk)

/-- **One chunk of a run.**  It behaves, and leaves the ring ready for the rest. -/
theorem chunkDriven_of_readyFor {scripts : Nat → ChunkScript} {ring : Ring}
    {chunk : List (BatchItem κ)} {chunks : List (List (BatchItem κ))}
    (hready : ReadyFor scripts ring (chunk :: chunks))
    (hlen : chunk.length ≤ readerRingSlotCount) (hfresh : ∀ item ∈ chunk, Fresh item) :
    ChunkDriven consumer { ring with driven := ring.driven + 1 } chunk
        (readerServeChunk consumer (scripts ring.driven) ring chunk).drive ∧
      (readerServeChunk consumer (scripts ring.driven) ring chunk).ring.driven = ring.driven + 1 ∧
      ((readerServeChunk consumer (scripts ring.driven) ring chunk).drive.driven ≠ .blocked →
        ReadyFor scripts (readerServeChunk consumer (scripts ring.driven) ring chunk).ring
          chunks) := by
  unfold readerServeChunk
  dsimp only
  cases hready with
  | inr hnone =>
      obtain ⟨hdriven, _, _⟩ := @chunkDriven_of_none κ consumer (scripts ring.driven)
        { ring with driven := ring.driven + 1 } chunk (hnone chunk List.mem_cons_self)
      exact ⟨hdriven, hdriven.driven, fun _ => Or.inr fun later hlater =>
        hnone later (List.mem_cons_of_mem _ hlater)⟩
  | inl hquiet =>
      have hquiet' : ({ ring with driven := ring.driven + 1 } : Ring).Quiescent :=
        hquiet.1.counted _
      obtain ⟨hdriven, hcompleted⟩ := @chunkDriven_ringDriveChunk κ consumer
        (scripts ring.driven) _ hquiet' chunk hlen hfresh
      refine ⟨hdriven, hdriven.driven, fun hreturned => ?_⟩
      cases hend : (ringDriveChunk consumer (scripts ring.driven)
          { ring with driven := ring.driven + 1 } chunk).driven with
      | blocked => exact absurd hend hreturned
      | completed =>
          refine Or.inl ⟨hcompleted hend, ?_⟩
          rw [hdriven.driven]
          exact hquiet.2.tail
      | failed =>
          -- the script failed on a chunk that uses the ring
          right
          intro later hlater
          obtain ⟨b, hb⟩ := List.mem_iff_getElem?.mp hlater
          exact hquiet.2 0 (b + 1) chunk later (Nat.succ_pos b) rfl hb
            ((ringDriveChunk_reaps _ hquiet' hlen).2.symm.trans hend)

/-- Every chunk of a run is driven on a quiescent ring, or has no item for a
slot. -/
theorem drive_run {scripts : Nat → ChunkScript} {ring : Ring}
    {chunks : List (List (BatchItem κ))} (hready : ReadyFor scripts ring chunks)
    (hchunks : ∀ chunk ∈ chunks, chunk.length ≤ readerRingSlotCount ∧ ∀ item ∈ chunk, Fresh item)
    {k : Nat} {result : ChunkResult κ} {chunk : List (BatchItem κ)}
    (hresult : (serveChunks consumer scripts ring chunks)[k]? = some result)
    (hchunk : chunks[k]? = some chunk) :
    ∃ before : Ring, before.driven = ring.driven + k + 1 ∧
      result.drive = ringDriveChunk consumer (scripts (ring.driven + k)) before chunk ∧
      (before.Quiescent ∨ fittingItems 0 chunk = []) := by
  induction chunks generalizing ring k with
  | nil => cases hchunk
  | cons first chunks ih =>
      obtain ⟨hlen, hfresh⟩ := hchunks first List.mem_cons_self
      obtain ⟨_, hnext, hready'⟩ := chunkDriven_of_readyFor hready hlen hfresh
      rw [serveChunks] at hresult
      cases k with
      | zero =>
          cases hchunk
          refine ⟨{ ring with driven := ring.driven + 1 }, rfl, ?_, ?_⟩
          · split at hresult <;> cases hresult <;> rfl
          · cases hready with
            | inl hquiet => exact Or.inl (hquiet.1.counted _)
            | inr hnone => exact Or.inr (hnone chunk List.mem_cons_self)
      | succ k =>
          split at hresult
          · cases hresult
          · next hreturned =>
            obtain ⟨before, hbefore, hdrive, hstart⟩ := ih (hready' hreturned)
              (fun chunk hmem => hchunks chunk (List.mem_cons_of_mem _ hmem)) hresult hchunk
            refine ⟨before, ?_, ?_, hstart⟩
            · rw [hbefore, hnext]
              omega
            · rw [hdrive, hnext, show ring.driven + 1 + k = ring.driven + (k + 1) by omega]

/-- **Every chunk of a run behaves.** -/
theorem chunkDriven_run {scripts : Nat → ChunkScript} {ring : Ring}
    {chunks : List (List (BatchItem κ))} (hready : ReadyFor scripts ring chunks)
    (hchunks : ∀ chunk ∈ chunks, chunk.length ≤ readerRingSlotCount ∧ ∀ item ∈ chunk, Fresh item)
    {k : Nat} {result : ChunkResult κ} {chunk : List (BatchItem κ)}
    (hresult : (serveChunks consumer scripts ring chunks)[k]? = some result)
    (hchunk : chunks[k]? = some chunk) :
    ∃ before : Ring, before.driven = ring.driven + k + 1 ∧
      ChunkDriven consumer before chunk result.drive := by
  obtain ⟨hlen, hfresh⟩ := hchunks chunk (List.mem_of_getElem? hchunk)
  obtain ⟨before, hbefore, hdrive, hstart⟩ := drive_run hready hchunks hresult hchunk
  refine ⟨before, hbefore, ?_⟩
  rw [hdrive]
  cases hstart with
  | inl hquiet => exact (chunkDriven_ringDriveChunk _ hquiet hlen hfresh).1
  | inr hnone => exact (chunkDriven_of_none _ before hnone).1

/-! ## a working ring -/

/-- The script drives every chunk to its end: its submit does not fail, none
of the waits that are made does, and they find all completions. -/
def ChunkScript.Works (script : ChunkScript) : Prop :=
  ∀ slots ≤ readerRingSlotCount, (script.reaps slots).2 = .completed

/-- Everything is submitted and executed in order, and reaped one completion
at a time. -/
def ChunkScript.inOrder : ChunkScript where
  submitStatus := .ok (4 * readerRingSlotCount)
  waits := ⟨(List.range readerRingSlotCount).flatMap fun j => List.replicate 4 j, .ok ()⟩ ::
    List.replicate (4 * readerRingSlotCount) ⟨[], .ok ()⟩
  stale := fun _ => ⟨.close, 0, 0, 0, false, 0, ⟨[], none, none, [], none, .upTo 0, .upTo 0⟩, ⟨0, 0⟩⟩

/-- A kernel that executes what it is given works. -/
theorem works_inOrder : ChunkScript.inOrder.Works := by
  unfold ChunkScript.Works
  decide +kernel

/-! ## completions belong to their chunk -/

/-- The completions handled while a chunk was driven are of its own
operations, and an item the ring marked successful was fed its file once. -/
structure DriveSound (chunkNumber : Nat) (chunk : List (BatchItem κ)) (drive : DriveResult κ) :
    Prop where
  own : ∀ cqe ∈ drive.state.handled,
    ringDecodeSlot cqe.userData < drive.slotToItem.length ∧
      drive.slotToItem[ringDecodeSlot cqe.userData]? = some cqe.sqe.tag.item ∧
      cqe.sqe.tag.chunk = chunkNumber
  fed : ∀ (i : Nat) (item item' : BatchItem κ), chunk[i]? = some item →
    drive.state.items[i]? = some item' → item'.success = true →
      item'.feed.chunks = item.feed.chunks ++ [item.view.content] ∧
        item.view.content.length = item.fileSize

theorem ChunkDriven.sound {before : Ring} {chunk : List (BatchItem κ)} {drive : DriveResult κ}
    (h : ChunkDriven consumer before chunk drive) (hfresh : ∀ item ∈ chunk, Fresh item) :
    DriveSound before.driven chunk drive where
  own cqe hcqe := by
    obtain ⟨hslot, hchunk⟩ := h.handled cqe hcqe
    exact ⟨(List.getElem?_eq_some_iff.mp hslot).1, hslot, hchunk⟩
  fed i item item' hitem hitem' hsuccess := by
    have hitemFresh := (hfresh item (List.mem_of_getElem? hitem)).success
    have huntouched : drive.state.items[i]? = some item → False := by
      intro h'
      rw [h', Option.some.injEq] at hitem'
      rw [← hitem', hitemFresh] at hsuccess
      cases hsuccess
    cases hfits : ringFitsInSlot item with
    | false => exact (huntouched (h.other i item hitem hfits)).elim
    | true =>
        cases h.fitting i item hitem hfits with
        | inl h' => exact (huntouched h').elim
        | inr h' =>
            rw [h', Option.some.injEq] at hitem'
            subst hitem'
            obtain ⟨hlen, hfeed⟩ := ringServed_success hsuccess
            rw [hfeed]
            exact ⟨rfl, hlen⟩

/-- **Runs without reuse of a failed ring.**  In every sequence of calls on
one ring in which no chunk with an item for a slot follows a chunk whose
submit or wait failed, every chunk handles completions of its own operations
only. -/
theorem drives_sound (consumer : Consumer κ) (scripts : Nat → ChunkScript)
    (calls : List (List (BatchItem κ))) (hreuse : NoReuse scripts 0 (callChunks calls))
    (k : Nat) (drive : DriveResult κ) (chunk : List (BatchItem κ))
    (hdrive : ((consumeCalls consumer scripts Ring.init calls).flatMap BatchResult.drives)[k]? =
      some drive)
    (hchunk : (callChunks calls)[k]? = some chunk) :
    DriveSound (k + 1) chunk drive := by
  rw [drives_consumeCalls, List.getElem?_map, Option.map_eq_some_iff] at hdrive
  obtain ⟨result, hresult, rfl⟩ := hdrive
  have hready : ReadyFor scripts Ring.init (callChunks calls) :=
    Or.inl ⟨Ring.quiescent_init, hreuse⟩
  obtain ⟨before, hbefore, hsound⟩ := chunkDriven_run hready
    (fun chunk hmem => of_mem_callChunks hmem) hresult hchunk
  have hnumber : before.driven = k + 1 := by
    rw [hbefore, show Ring.init.driven = 0 from rfl, Nat.zero_add]
  exact hnumber ▸ hsound.sound (of_mem_callChunks (List.mem_of_getElem? hchunk)).2

end Run

/-! ### two calls on one ring -/

/-- A file the system opens, reads and probes without a failure. -/
def FileView.plain (content : Bytes) : FileView :=
  ⟨content, none, none, [], none, .whole readerRingSlotBufferBytes, .whole 1⟩

/-- An item for a plain file whose recorded size is `fileSize`. -/
def plainItem (fileSize : Nat) (content : Bytes) : BatchItem Unit :=
  ⟨[], fileSize, ⟨(), []⟩, false, 0, .plain content, false⟩

/-- The entries nothing fills in, in the runs below. -/
def noStale : Nat → Sqe := fun _ => ⟨.close, 0, 0, 0, false, 0, .plain [], ⟨0, 0⟩⟩

/-- A chunk of one item: the submit takes `accepted` entries, the first chain
runs to its end, and the completions are reaped one after the other. -/
def oneChainScript (accepted : Nat) : ChunkScript :=
  ⟨.ok accepted, [⟨[0, 0, 0, 0], .ok ()⟩, ⟨[], .ok ()⟩, ⟨[], .ok ()⟩, ⟨[], .ok ()⟩], noStale⟩

theorem not_failsOn_oneChainScript {κ : Type} (accepted : Nat) (items : List (BatchItem κ)) :
    ¬(oneChainScript accepted).FailsOn items := by
  refine not_failsOn_of_ok items rfl fun wait hwait => ?_
  simp only [oneChainScript, List.mem_cons, List.not_mem_nil, or_false] at hwait
  rcases hwait with rfl | rfl | rfl | rfl <;> rfl

/-- The first call's submit fails, the second call's does not. -/
def failedSubmitScripts : Nat → ChunkScript
  | 0 => ⟨.error Errno.EIO, [], noStale⟩
  | _ => oneChainScript 8

/-- Every chunk of this run succeeds. -/
theorem drives_sound_two_calls :
    NoReuse (fun _ => oneChainScript 4) 0 (callChunks [[plainItem 1 [65]], [plainItem 1 [66]]]) ∧
      ((consumeCalls acceptAll (fun _ => oneChainScript 4) Ring.init
        [[plainItem 1 [65]], [plainItem 1 [66]]]).flatMap BatchResult.drives).length = 2 ∧
      ∀ (k : Nat) (drive : DriveResult Unit) (chunk : List (BatchItem Unit)),
        ((consumeCalls acceptAll (fun _ => oneChainScript 4) Ring.init
          [[plainItem 1 [65]], [plainItem 1 [66]]]).flatMap BatchResult.drives)[k]? = some drive →
        (callChunks [[plainItem 1 [65]], [plainItem 1 [66]]])[k]? = some chunk →
        DriveSound (k + 1) chunk drive := by
  have hreuse : NoReuse (fun _ => oneChainScript 4) 0
      (callChunks [[plainItem 1 [65]], [plainItem 1 [66]]]) := by
    intro a b chunk later _ _ _ hfails
    exact absurd hfails (not_failsOn_oneChainScript 4 chunk)
  exact ⟨hreuse, by decide +kernel, drives_sound acceptAll (fun _ => oneChainScript 4)
    [[plainItem 1 [65]], [plainItem 1 [66]]] hreuse⟩

/-- **A ring used again after a failed submit.**  The entries of the first
call are submitted with those of the second, whose four waits reap the
completions of the first. -/
theorem stale_completions_handled :
    ¬∀ (scripts : Nat → ChunkScript) (calls : List (List (BatchItem Unit))) (k : Nat)
        (drive : DriveResult Unit) (chunk : List (BatchItem Unit)),
      ((consumeCalls acceptAll scripts Ring.init calls).flatMap BatchResult.drives)[k]? =
        some drive →
      (callChunks calls)[k]? = some chunk → DriveSound (k + 1) chunk drive := by
  intro h
  have hrun : (((consumeCalls acceptAll failedSubmitScripts Ring.init
      [[plainItem 1 [65]], [plainItem 1 [66]]]).flatMap BatchResult.drives)[1]?.map
        fun drive => drive.state.handled.map fun cqe => cqe.sqe.tag.chunk) =
      some [1, 1, 1, 1] := by decide +kernel
  obtain ⟨drive, hdrive, hhandled⟩ := Option.map_eq_some_iff.mp hrun
  have hsound := h failedSubmitScripts [[plainItem 1 [65]], [plainItem 1 [66]]] 1 drive
    [(plainItem 1 [66]).reset] hdrive (by decide +kernel)
  have hmem : 1 ∈ drive.state.handled.map fun cqe => cqe.sqe.tag.chunk := by
    rw [hhandled]
    exact List.mem_cons_self
  obtain ⟨cqe, hcqe, hchunk⟩ := List.mem_map.mp hmem
  have hown := (hsound.own cqe hcqe).2.2
  rw [hchunk] at hown
  cases hown

end BcDuplicate
