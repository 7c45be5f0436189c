import BcDuplicate.Base.Traces
import BcDuplicate.Discovery.Parallel
import BcDuplicate.Discovery.Steps

/-!
# BcDuplicate.Discovery.Owners

Which memory contexts the paths of the entries come from.  The serial walk and
the files among the inputs allocate from the main one (`serial_owner`).  A file
visited on a worker that has a context of its own is allocated from that, and
the merge copies the entry as it is: the parallel walk leaves the owners its
visits had (`parallel_owner`), and where nothing fails each of them
(`exists_parallel_owner`).
-/

namespace BcDuplicate

open Traces

/-! ## the serial walk -/

/-- Every entry's path was allocated from the main context. -/
def WalkState.OwnedByMain (s : WalkState) : Prop := ∀ owned ∈ s.entries, owned.pathOwner = .main

theorem walkInvariant_ownedByMain : WalkInvariant WalkState.OwnedByMain where
  fail _ _ _ hs := hs
  polled hs := hs
  requested hs := hs
  rooted _ hs := hs
  inserted _ hs := hs
  opened _ hs := hs
  appended entry hs := by
    intro owned howned
    rcases List.mem_append.mp howned with hbefore | happended
    · exact hs owned hbefore
    · rw [List.mem_singleton.mp happended]

/-- **The owners of the serial walk.**  Whatever fails, each entry it leaves
was allocated from the main context. -/
theorem serial_owner {env : DiscoveryEnvironment} {fuel : Nat} {inputs : List Bytes}
    {result : DiscoveryResult} {owned : OwnedEntry}
    (hdone : discoveryExpand env fuel inputs = some result) (howned : owned ∈ result.entries) :
    owned.pathOwner = .main := by
  have hinitial : WalkState.initial.OwnedByMain := by
    intro owned howned
    cases howned
  obtain rfl | ⟨s, hs, rfl⟩ := walkInvariant_ownedByMain.of_discoveryExpand hinitial hdone
  · cases howned
  · exact hs owned howned

/-! ## the calls of a discovery -/

section Calls

variable (env : ParallelEnvironment)

/-- The callbacks the library makes for a directory. -/
def walkCalls (s : ParallelState) (inputPath : Bytes) : List (Nat × WalkCallback) :=
  let root := trimTrailingSlashes inputPath
  if root.length ≥ env.maxPathLength then []
  else env.library s.walks (walkConfig env s.rootDeviceId root)

/-- The callbacks while one path is processed. -/
def pathCalls (s : ParallelState) (inputPath : Bytes) : List (Nat × WalkCallback) :=
  match env.fs.statPath env.options.followSymlinks inputPath with
  | .ok (.object (.directory identity)) =>
      if pathIsPseudoFilesystem env.fs inputPath = some true then []
      else walkCalls env (s.rooted identity) inputPath
  | _ => []

/-- The callbacks while an input is processed, path by path of its
expansion. -/
def inputCalls (s : ParallelState) (inputPath : Bytes) : List (Nat × WalkCallback) :=
  trace (parallelProcessInputPath env) (pathCalls env)
    (parallelPaths env.toDiscoveryEnvironment inputPath)
    (s.reported (parallelGlobErrors env.toDiscoveryEnvironment inputPath))

/-- **The callbacks of a parallel discovery**, from its first state on. -/
def discoveryCalls (inputPaths : List Bytes) : List (Nat × WalkCallback) :=
  if env.registersSlot = false then []
  else trace (parallelInput env) (inputCalls env) inputPaths (.initial env.workerCount)

end Calls

/-! ## what calls record -/

/-- The entries of the destination vector and of all workers. -/
def ParallelState.held (s : ParallelState) : List OwnedEntry := s.entries ++ workerEntries s.slots

/-- Calls made `s` into `s'`: entries were only added, each allocated from the
main context or where a file was visited, and where nothing fails each visit of
a file added one. -/
structure Recorded (env : ParallelEnvironment) (calls : List (Nat × WalkCallback))
    (s s' : ParallelState) : Prop where
  workers : s'.slots.length = s.slots.length
  kept : ∀ owned ∈ s.held, owned ∈ s'.held
  origin : ∀ owned ∈ s'.held, owned ∈ s.held ∨ owned.pathOwner = .main ∨
    ∃ call ∈ calls, visitedFile call ≠ [] ∧ owned.pathOwner = walkOwner env call.1
  recorded : (∀ request, env.allocates request = true) → ∀ call ∈ calls,
    call.1 < s.slots.length → visitedFile call ≠ [] →
      ∃ owned ∈ s'.held, owned.pathOwner = walkOwner env call.1

section Recorded

variable {env : ParallelEnvironment} {s s₁ s₂ s₃ : ParallelState}
  {front back : List (Nat × WalkCallback)}

theorem recorded_of_held (hworkers : s₂.slots.length = s₁.slots.length)
    (hheld : ∀ owned, owned ∈ s₂.held ↔ owned ∈ s₁.held) : Recorded env [] s₁ s₂ where
  workers := hworkers
  kept owned h := (hheld owned).mpr h
  origin owned h := Or.inl ((hheld owned).mp h)
  recorded _ _ hcall := by cases hcall

/-- What else a state has does not matter. -/
theorem recorded_of_eq (hentries : s₂.entries = s₁.entries) (hslots : s₂.slots = s₁.slots) :
    Recorded env [] s₁ s₂ :=
  recorded_of_held (by rw [hslots]) fun owned => by
    rw [ParallelState.held, ParallelState.held, hentries, hslots]

theorem Recorded.trans (h₁ : Recorded env front s₁ s₂) (h₂ : Recorded env back s₂ s₃) :
    Recorded env (front ++ back) s₁ s₃ where
  workers := h₂.workers.trans h₁.workers
  kept owned h := h₂.kept owned (h₁.kept owned h)
  origin owned h := by
    rcases h₂.origin owned h with hbefore | hmain | ⟨call, hcall, hvisit⟩
    · rcases h₁.origin owned hbefore with hbefore | hmain | ⟨call, hcall, hvisit⟩
      · exact Or.inl hbefore
      · exact Or.inr (Or.inl hmain)
      · exact Or.inr (Or.inr ⟨call, List.mem_append_left _ hcall, hvisit⟩)
    · exact Or.inr (Or.inl hmain)
    · exact Or.inr (Or.inr ⟨call, List.mem_append_right _ hcall, hvisit⟩)
  recorded hallocates call hcall hworker hvisit := by
    rcases List.mem_append.mp hcall with hfront | hback
    · obtain ⟨owned, howned, howner⟩ := h₁.recorded hallocates call hfront hworker hvisit
      exact ⟨owned, h₂.kept owned howned, howner⟩
    · exact h₂.recorded hallocates call hback (h₁.workers ▸ hworker) hvisit

/-- **A fold records what its steps record.** -/
theorem recorded_foldl {α : Type} {step : ParallelState → α → ParallelState}
    {acts : ParallelState → α → List (Nat × WalkCallback)}
    (hstep : ∀ s x, Recorded env (acts s x) s (step s x)) (xs : List α) (s : ParallelState) :
    Recorded env (trace step acts xs s) s (xs.foldl step s) :=
  foldl_trace (R := Recorded env) (fun _ => recorded_of_eq rfl rfl)
    (fun _ _ _ _ _ => Recorded.trans) hstep xs s

end Recorded

/-! ## one callback -/

section Callback

variable (env : ParallelEnvironment) (s : ParallelState)

/-- Entries appended to the slot of a worker are held. -/
theorem mem_held_withSlot {s : ParallelState} {worker : Nat} {slot slot' : WalkWorkerSlot}
    (hslot : s.slots[worker]? = some slot) {extra : List OwnedEntry}
    (hextra : slot'.fileEntries.getD [] = slot.fileEntries.getD [] ++ extra) (owned : OwnedEntry) :
    owned ∈ (s.withSlot worker slot').held ↔ owned ∈ s.held ∨ owned ∈ extra := by
  have hperm := perm_workerEntries_set hslot hextra
  rw [ParallelState.held, ParallelState.withSlot, List.mem_append, hperm.mem_iff, List.mem_append,
    ParallelState.held, List.mem_append, or_assoc]

/-- A slot that is written with the entries it had. -/
theorem recorded_withSlot {s t : ParallelState} {worker : Nat} {slot slot' : WalkWorkerSlot}
    (hentries : t.entries = s.entries) (hslots : t.slots = s.slots)
    (hslot : s.slots[worker]? = some slot)
    (hsame : slot'.fileEntries.getD [] = slot.fileEntries.getD []) :
    Recorded env [] s (t.withSlot worker slot') := by
  have hslot' : t.slots[worker]? = some slot := hslots ▸ hslot
  have hextra : slot'.fileEntries.getD [] = slot.fileEntries.getD [] ++ [] := by
    rw [hsame, List.append_nil]
  have hheld := mem_held_withSlot hslot' hextra
  refine (recorded_of_eq hentries hslots).trans (recorded_of_held List.length_set fun owned => ?_)
  rw [hheld, or_iff_left List.not_mem_nil]

/-- Ensuring a slot adds no entry, and with every request served and a slot to
ensure it succeeds. -/
theorem recorded_walkEnsureSlot (worker : Nat) :
    Recorded env [] s (walkEnsureSlot env s worker).1 ∧
      (∀ slot, (walkEnsureSlot env s worker).2 = some slot →
        (walkEnsureSlot env s worker).1.slots[worker]? = some slot) ∧
      ((∀ request, env.allocates request = true) → worker < s.slots.length →
        (walkEnsureSlot env s worker).2.isSome) := by
  have hrequested : ∀ (create : Prop) [Decidable create] (t : ParallelState),
      (if create then t.requested 1 else t).entries = t.entries ∧
        (if create then t.requested 1 else t).slots = t.slots := by
    intro create _ t
    split <;> exact ⟨rfl, rfl⟩
  unfold walkEnsureSlot
  split
  · next hnone =>
    refine ⟨recorded_of_eq rfl rfl, by simp, fun _ hlt => ?_⟩
    rw [List.getElem?_eq_getElem hlt] at hnone
    cases hnone
  · next slot hslot =>
    split
    · next hfails =>
      refine ⟨recorded_of_eq rfl rfl, by simp, fun hallocates => ?_⟩
      rw [hallocates] at hfails
      exact absurd hfails.2 Bool.noConfusion
    · dsimp only
      obtain ⟨hentries, hslots⟩ := hrequested (slot.fileEntries = none) s
      generalize (if slot.fileEntries = none then s.requested 1 else s) = s₁ at hentries hslots ⊢
      have hlt : worker < s₁.slots.length := by
        rw [hslots]
        exact (List.getElem?_eq_some_iff.mp hslot).1
      split
      · next hfails =>
        refine ⟨recorded_withSlot env hentries hslots hslot rfl, by simp, fun hallocates => ?_⟩
        rw [hallocates] at hfails
        exact absurd hfails.2 Bool.noConfusion
      · obtain ⟨hentries₂, hslots₂⟩ := hrequested (slot.errors = none) s₁
        generalize (if slot.errors = none then s₁.requested 1 else s₁) = s₂ at hentries₂ hslots₂ ⊢
        refine ⟨recorded_withSlot env (hentries₂.trans hentries) (hslots₂.trans hslots) hslot rfl,
          fun ensured hensured => ?_, fun _ _ => rfl⟩
        rw [← Option.some.inj hensured]
        exact List.getElem?_set_self (by rw [hslots₂]; exact hlt)

variable {env s}

/-- A call that adds no entry: where nothing fails, it visits no file. -/
theorem Recorded.single {s' : ParallelState} {call : Nat × WalkCallback}
    (h : Recorded env [] s s')
    (hnone : (∀ request, env.allocates request = true) → call.1 < s.slots.length →
      visitedFile call = []) : Recorded env [call] s s' where
  workers := h.workers
  kept := h.kept
  origin owned howned := by
    rcases h.origin owned howned with hbefore | hmain | ⟨_, hcall, _⟩
    · exact Or.inl hbefore
    · exact Or.inr (Or.inl hmain)
    · cases hcall
  recorded hallocates other hother hworker hvisit := by
    rw [List.mem_singleton.mp hother] at hworker hvisit
    exact absurd (hnone hallocates hworker) hvisit

/-- A call that visits a file and adds its entry. -/
theorem Recorded.push {s' : ParallelState} {call : Nat × WalkCallback} {pushed : OwnedEntry}
    (h : Recorded env [] s s₁) (hvisit : visitedFile call ≠ [])
    (howner : pushed.pathOwner = walkOwner env call.1)
    (hworkers : s'.slots.length = s₁.slots.length)
    (hheld : ∀ owned, owned ∈ s'.held ↔ owned ∈ s₁.held ∨ owned ∈ [pushed]) :
    Recorded env [call] s s' where
  workers := hworkers.trans h.workers
  kept owned howned := (hheld owned).mpr (Or.inl (h.kept owned howned))
  origin owned howned := by
    rcases (hheld owned).mp howned with hbefore | hpushed
    · rcases h.origin owned hbefore with hbefore | hmain | ⟨_, hcall, _⟩
      · exact Or.inl hbefore
      · exact Or.inr (Or.inl hmain)
      · cases hcall
    · rw [List.mem_singleton.mp hpushed]
      exact Or.inr (Or.inr ⟨call, List.mem_singleton_self call, hvisit, howner⟩)
  recorded _ other hother _ _ := by
    rw [List.mem_singleton.mp hother]
    exact ⟨pushed, (hheld pushed).mpr (Or.inr (List.mem_singleton_self pushed)), howner⟩

variable (env s)

/-- An error that is reported leaves the entries alone. -/
theorem recorded_walkOnError (worker : Nat) (error : DiscoveryError) :
    Recorded env [] s (walkOnError env worker error s) := by
  obtain ⟨hensure, hslot, _⟩ := recorded_walkEnsureSlot env s worker
  unfold walkOnError
  generalize walkEnsureSlot env s worker = ensured at hensure hslot
  obtain ⟨s₁, slot⟩ := ensured
  cases slot with
  | none => exact hensure
  | some slot => exact hensure.trans (recorded_withSlot env rfl rfl (hslot slot rfl) rfl)

/-- A visit records its entry, if that is a file. -/
theorem recorded_walkVisit (worker : Nat) (entry : WalkEntry) :
    Recorded env [(worker, .visit entry)] s (walkVisit env worker entry s) := by
  obtain ⟨hensure, hslot, hserved⟩ := recorded_walkEnsureSlot env s worker
  unfold walkVisit
  split
  · next hkind =>
    have hnofile : visitedFile (worker, .visit entry) = [] := if_neg hkind
    exact (recorded_of_eq rfl rfl).single fun _ _ => hnofile
  · next hkind =>
    have hvisited : visitedFile (worker, .visit entry) = [entry] := if_pos (not_not.mp hkind)
    generalize walkEnsureSlot env s worker = ensured at hensure hslot hserved
    obtain ⟨s₁, slot⟩ := ensured
    cases slot with
    | none =>
        refine hensure.single fun hallocates hworker => ?_
        exact absurd (hserved hallocates hworker) Bool.noConfusion
    | some slot =>
        have hrequested : ∀ count, Recorded env [] s (s₁.requested count) := fun count =>
          hensure.trans (recorded_of_eq rfl rfl)
        dsimp only
        split
        · next hfails =>
          refine (hrequested 1).single fun hallocates _ => ?_
          exact absurd ((hallocates _).symm.trans hfails) Bool.noConfusion
        · split
          · next hfails =>
            refine (hrequested 2).single fun hallocates _ => ?_
            exact absurd ((hallocates _).symm.trans hfails) Bool.noConfusion
          · have hslot₂ : (s₁.requested 2).slots[worker]? = some slot := hslot slot rfl
            refine (hrequested 2).push ?_ rfl List.length_set (mem_held_withSlot hslot₂ rfl)
            rw [hvisited]
            exact List.cons_ne_nil _ _

/-- **One callback** records the file it visits. -/
theorem recorded_walkCallback (call : Nat × WalkCallback) :
    Recorded env [call] s (walkCallback env s call) := by
  obtain ⟨worker, callback⟩ := call
  cases callback with
  | error path stage errno =>
      exact (recorded_walkOnError env s worker ⟨path, stage, errno⟩).single fun _ _ => rfl
  | visit entry => exact recorded_walkVisit env s worker entry

end Callback

/-! ## the parallel walk -/

section Parallel

variable (env : ParallelEnvironment) (s : ParallelState)

/-- A root file is allocated from the main context. -/
theorem recorded_walkAppendRootFile (path : Bytes) (fileSize : Nat) (identity : Identity) :
    Recorded env [] s (walkAppendRootFile env s path fileSize identity) := by
  unfold walkAppendRootFile
  split
  · exact recorded_of_eq rfl rfl
  · split
    · exact recorded_of_eq rfl rfl
    · split
      · exact recorded_of_eq rfl rfl
      · refine ⟨rfl, fun owned howned => ?_, fun owned howned => ?_, fun _ _ hcall => by cases hcall⟩
        · rw [ParallelState.held, List.mem_append] at howned ⊢
          exact howned.imp_left (List.mem_append_left _)
        · rw [ParallelState.held, List.mem_append, List.mem_append, List.mem_singleton] at howned
          rw [ParallelState.held, List.mem_append]
          rcases howned with (hentry | rfl) | hworker
          · exact Or.inl (Or.inl hentry)
          · exact Or.inr (Or.inl rfl)
          · exact Or.inl (Or.inr hworker)

/-- The callbacks of one walk. -/
theorem recorded_walkRunOnDirectory (path : Bytes) :
    Recorded env (walkCalls env s path) s (walkRunOnDirectory env s path) := by
  unfold walkCalls walkRunOnDirectory
  dsimp only
  split
  · exact recorded_of_eq rfl rfl
  · generalize env.library s.walks (walkConfig env s.rootDeviceId (trimTrailingSlashes path)) = calls
    have hcounted : Recorded env [] s { s with walks := s.walks + 1 } := recorded_of_eq rfl rfl
    have hcalls := recorded_foldl (recorded_walkCallback env) calls { s with walks := s.walks + 1 }
    rw [trace_self] at hcalls
    exact hcounted.trans hcalls

/-- One path. -/
theorem recorded_parallelProcessInputPath (path : Bytes) :
    Recorded env (pathCalls env s path) s (parallelProcessInputPath env s path) := by
  unfold pathCalls parallelProcessInputPath
  cases env.fs.statPath env.options.followSymlinks path with
  | error errno => exact recorded_of_eq rfl rfl
  | ok status =>
      match status with
      | .symbolicLink | .object .other => exact recorded_of_eq rfl rfl
      | .object (.regular identity fileSize) =>
          exact recorded_walkAppendRootFile env s path fileSize identity
      | .object (.directory identity) =>
          dsimp only
          split
          · exact recorded_of_eq rfl rfl
          · have hrooted : Recorded env [] s (s.rooted identity) := recorded_of_eq rfl rfl
            exact hrooted.trans (recorded_walkRunOnDirectory env (s.rooted identity) path)

/-- One input, expanded. -/
theorem recorded_parallelInput (input : Bytes) :
    Recorded env (inputCalls env s input) s (parallelInput env s input) := by
  rw [parallelExpanded_eq, inputCalls]
  generalize parallelGlobErrors env.toDiscoveryEnvironment input = errors
  have hreported : Recorded env [] s (s.reported errors) := recorded_of_eq rfl rfl
  exact hreported.trans (recorded_foldl (recorded_parallelProcessInputPath env) _ _)

end Parallel

/-! ## the merge -/

section Merge

variable {env : ParallelEnvironment} {owned : OwnedEntry}

/-- The merge copies entries as they are. -/
theorem mem_walkMergeEntries {pushed : List OwnedEntry} {merge : DiscoveryResult × Nat}
    (h : owned ∈ (walkMergeEntries env pushed merge).1.entries) :
    owned ∈ merge.1.entries ∨ owned ∈ pushed := by
  induction pushed generalizing merge with
  | nil => exact Or.inl h
  | cons first pushed ih =>
      obtain ⟨result, requests⟩ := merge
      rw [walkMergeEntries] at h
      split at h
      · exact Or.inl h
      · rcases ih h with hresult | hpushed
        · rcases List.mem_append.mp hresult with hbefore | hfirst
          · exact Or.inl hbefore
          · exact Or.inr (List.mem_singleton.mp hfirst ▸ List.mem_cons_self)
        · exact Or.inr (List.mem_cons_of_mem _ hpushed)

theorem mem_foldl_walkMergeWorkerSlot {slots : List WalkWorkerSlot}
    {merge : DiscoveryResult × Nat}
    (h : owned ∈ (slots.foldl (walkMergeWorkerSlot env) merge).1.entries) :
    owned ∈ merge.1.entries ∨ owned ∈ workerEntries slots := by
  induction slots generalizing merge with
  | nil => exact Or.inl h
  | cons slot slots ih =>
      rw [List.foldl_cons] at h
      rw [workerEntries, List.flatMap_cons, List.mem_append]
      rcases ih h with hmerged | hlater
      · have hslot : owned ∈ merge.1.entries ∨ owned ∈ slot.fileEntries.getD [] := by
          rw [walkMergeWorkerSlot] at hmerged
          split at hmerged
          · exact Or.inl hmerged
          · dsimp only at hmerged
            split at hmerged <;> exact mem_walkMergeEntries hmerged
        exact hslot.imp_right Or.inl
      · exact Or.inr (Or.inr hlater)

variable {inputs : List Bytes}

/-- The states of the inputs record the calls of the discovery. -/
theorem recorded_inputs (hregisters : env.registersSlot = true) :
    Recorded env (discoveryCalls env inputs) (.initial env.workerCount)
      (inputs.foldl (parallelInput env) (.initial env.workerCount)) := by
  rw [discoveryCalls, if_neg (by rw [hregisters]; exact Bool.noConfusion)]
  exact recorded_foldl (recorded_parallelInput env) _ _

theorem held_initial (workerCount : Nat) : (ParallelState.initial workerCount).held = [] := by
  simp [ParallelState.held, ParallelState.initial, workerEntries, WalkWorkerSlot.zeroed]

/-- **The owners of the parallel walk.**  Whatever fails, an entry it leaves was
allocated from the main context, or where a file was visited. -/
theorem parallel_owner (h : owned ∈ (discoveryExpandParallel env inputs).entries) :
    owned.pathOwner = .main ∨ ∃ call ∈ discoveryCalls env inputs,
      visitedFile call ≠ [] ∧ owned.pathOwner = walkOwner env call.1 := by
  unfold discoveryExpandParallel at h
  split at h
  · cases h
  · next hregisters =>
    have hrecorded := @recorded_inputs env inputs (Bool.not_eq_false _ ▸ hregisters)
    have hheld : owned ∈ (inputs.foldl (parallelInput env) (.initial env.workerCount)).held :=
      List.mem_append.mpr (mem_foldl_walkMergeWorkerSlot h)
    have horigin := hrecorded.origin owned hheld
    rw [held_initial] at horigin
    exact horigin.resolve_left List.not_mem_nil

/-- **Every visit leaves its owner** where nothing fails: the entry of a visited
file reaches the destination with the context it was allocated from. -/
theorem exists_parallel_owner (hallocates : ∀ request, env.allocates request = true)
    {call : Nat × WalkCallback} (hcall : call ∈ discoveryCalls env inputs)
    (hworker : call.1 < env.workerCount) (hvisit : visitedFile call ≠ []) :
    ∃ owned ∈ (discoveryExpandParallel env inputs).entries,
      owned.pathOwner = walkOwner env call.1 := by
  cases hregisters : env.registersSlot with
  | false =>
      rw [discoveryCalls, if_pos hregisters] at hcall
      cases hcall
  | true =>
      obtain ⟨owned, hheld, howner⟩ := (recorded_inputs hregisters).recorded hallocates call hcall
        (by rw [ParallelState.initial, List.length_replicate]; exact hworker) hvisit
      refine ⟨owned, ?_, howner⟩
      rw [discoveryExpandParallel, if_neg (by rw [hregisters]; exact Bool.noConfusion)]
      dsimp only
      rw [(foldl_walkMergeWorkerSlot hallocates rfl _).2]
      exact hheld

end Merge

end BcDuplicate
