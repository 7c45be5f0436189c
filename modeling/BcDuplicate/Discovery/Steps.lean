import BcDuplicate.Discovery.Walk

/-!
# BcDuplicate.Discovery.Steps

What each update of its state keeps, the serial walk keeps, whatever is
stopped or fails on the way (`WalkInvariant.of_discoveryExpand`).
-/

namespace BcDuplicate

/-- An invariant of the serial walk: each update of its state keeps it. -/
structure WalkInvariant (invariant : WalkState → Prop) : Prop where
  fail {s : WalkState} (path : Bytes) (stage : String) (errno : Errno) :
    invariant s → invariant (s.fail path stage errno)
  polled {s : WalkState} : invariant s → invariant s.polled
  requested {s : WalkState} : invariant s → invariant s.requested
  rooted {s : WalkState} (root : Identity) : invariant s → invariant (s.rooted root)
  inserted {s : WalkState} (directory : Identity) : invariant s → invariant (s.inserted directory)
  opened {s : WalkState} (directory : Identity) : invariant s → invariant (s.opened directory)
  appended {s : WalkState} (entry : FileEntry) : invariant s →
    invariant { s with entries := s.entries ++ [⟨entry, .main⟩] }

/-- The walk of a directory that was opened keeps an invariant. -/
def KeepsInvariant (invariant : WalkState → Prop)
    (walk : Identity → Bytes → Bytes → WalkState → Option WalkState) : Prop :=
  ∀ (directory : Identity) (errorPath path : Bytes) (s s' : WalkState),
    invariant s → walk directory errorPath path s = some s' → invariant s'

namespace WalkInvariant

variable {env : DiscoveryEnvironment}
  {walk : Identity → Bytes → Bytes → WalkState → Option WalkState}
  {invariant : WalkState → Prop} {s s' : WalkState} {directory : Identity} {errorPath path : Bytes}
  {fuel : Nat}

theorem of_walkAppendEntry (h : WalkInvariant invariant) (hs : invariant s) (path : Bytes)
    (fileSize : Nat) (identity : Identity) :
    invariant (walkAppendEntry env s path fileSize identity) := by
  have hrequested := h.requested (h.requested hs)
  unfold walkAppendEntry
  split
  · exact hs
  · split
    · exact h.fail path "allocate" .ENOMEM (h.requested hs)
    · split
      · exact h.fail path "enqueue" .ENOMEM hrequested
      · exact h.appended _ hrequested

theorem of_walkDescendChild (h : WalkInvariant invariant) (hwalk : KeepsInvariant invariant walk)
    (hs : invariant s) {name : Bytes}
    (hdone : walkDescendChild env walk directory name path s = some s') : invariant s' := by
  unfold walkDescendChild at hdone
  split at hdone
  · cases hdone
    exact h.fail _ _ _ hs
  · next child _ =>
    split at hdone
    · cases hdone
      exact hs
    · split at hdone
      · cases hdone
        exact h.fail _ _ _ (h.requested hs)
      · split at hdone
        · cases hdone
          exact h.requested hs
        · dsimp only at hdone
          have hinserted := h.inserted child (h.requested hs)
          split at hdone
          · cases hdone
            exact hinserted
          · split at hdone
            · cases hdone
              exact h.fail _ _ _ hinserted
            · exact hwalk child path path _ _ (h.opened child hinserted) hdone
  · cases hdone
    exact h.fail _ _ _ hs

/-- One name of a directory. -/
theorem of_walkHandleEntry (h : WalkInvariant invariant) (hwalk : KeepsInvariant invariant walk)
    (hs : invariant s) {name : Bytes}
    (hdone : walkHandleEntry env walk directory errorPath path name s = some s') : invariant s' := by
  unfold walkHandleEntry at hdone
  split at hdone
  · cases hdone
    exact hs
  · split at hdone
    · cases hdone
      exact h.fail _ _ _ hs
    · split at hdone
      · cases hdone
        exact h.fail _ _ _ hs
      · split at hdone
        · cases hdone
          exact h.of_walkAppendEntry hs _ _ _
        · cases hdone
          exact hs
      · split at hdone
        · exact h.of_walkDescendChild hwalk hs hdone
        · cases hdone
          exact hs
      · cases hdone
        exact hs

/-- The names of a directory, one after the other. -/
theorem of_walkNames (h : WalkInvariant invariant) (hwalk : KeepsInvariant invariant walk)
    (hs : invariant s) {names : List Bytes}
    (hdone : walkNames env walk directory errorPath path names s = some s') : invariant s' := by
  induction names generalizing s with
  | nil =>
      unfold walkNames at hdone
      split at hdone
      · cases hdone
        exact h.fail _ _ _ hs
      · cases hdone
        exact hs
  | cons name names ih =>
      rw [walkNames] at hdone
      split at hdone
      · cases hdone
        exact h.polled hs
      · split at hdone
        · exact ih (h.polled hs) hdone
        · obtain ⟨s₁, hfirst, hrest⟩ := Option.bind_eq_some_iff.mp hdone
          exact ih (h.of_walkHandleEntry hwalk (h.polled hs) hfirst) hrest

theorem of_walkDirectory (h : WalkInvariant invariant) (fuel : Nat) :
    KeepsInvariant invariant (walkDirectory env fuel) := by
  induction fuel with
  | zero => intro directory errorPath path s s' _ hdone; cases hdone
  | succ fuel ih =>
      intro directory errorPath path s s' hs hdone
      unfold walkDirectory at hdone
      split at hdone
      · cases hdone
        exact h.fail _ _ _ hs
      · split at hdone
        · cases hdone
          exact h.fail _ _ _ hs
        · exact h.of_walkNames ih hs hdone

/-- One input path. -/
theorem of_walkProcessInputPath (h : WalkInvariant invariant) (hs : invariant s)
    (hdone : walkProcessInputPath env fuel s path = some s') : invariant s' := by
  unfold walkProcessInputPath at hdone
  split at hdone
  · cases hdone
    exact h.fail _ _ _ hs
  · cases hdone
    exact h.fail _ _ _ hs
  · cases hdone
    exact h.of_walkAppendEntry hs _ _ _
  · next identity _ =>
    split at hdone
    · cases hdone
      exact hs
    · dsimp only at hdone
      have hrequested := h.requested (h.rooted identity hs)
      split at hdone
      · cases hdone
        exact h.fail _ _ _ hrequested
      · split at hdone
        · cases hdone
          exact hrequested
        · have hinserted := h.inserted identity hrequested
          split at hdone
          · cases hdone
            exact h.fail _ _ _ hinserted
          · exact h.of_walkDirectory fuel identity _ _ _ _ (h.opened identity hinserted) hdone
  · cases hdone
    exact h.fail _ _ _ hs

/-- The paths of an expanded pattern, one after the other. -/
theorem of_foldlM (h : WalkInvariant invariant) (hs : invariant s) {paths : List Bytes}
    (hdone : paths.foldlM (walkProcessInputPath env fuel) s = some s') :
    invariant s' := by
  induction paths generalizing s with
  | nil =>
      cases hdone
      exact hs
  | cons path paths ih =>
      rw [List.foldlM_cons] at hdone
      obtain ⟨s₁, hfirst, hrest⟩ := Option.bind_eq_some_iff.mp hdone
      exact ih (h.of_walkProcessInputPath hs hfirst) hrest

theorem of_walkExpandGlob (h : WalkInvariant invariant) (hs : invariant s) {pattern : Bytes}
    (hdone : walkExpandGlob env fuel s pattern = some s') : invariant s' := by
  unfold walkExpandGlob at hdone
  split at hdone
  · cases hdone
    exact h.fail _ _ _ hs
  · split at hdone
    · cases hdone
      exact h.fail _ _ _ hs
    · exact h.of_foldlM hs hdone

/-- The inputs, one after the other. -/
theorem of_walkInputs (h : WalkInvariant invariant) (hs : invariant s) {inputs : List Bytes}
    (hdone : walkInputs env fuel inputs s = some s') : invariant s' := by
  induction inputs generalizing s with
  | nil =>
      cases hdone
      exact hs
  | cons input inputs ih =>
      rw [walkInputs] at hdone
      split at hdone
      · cases hdone
        exact h.polled hs
      · split at hdone
        · obtain ⟨s₁, hfirst, hrest⟩ := Option.bind_eq_some_iff.mp hdone
          exact ih (h.of_walkExpandGlob (h.polled hs) hfirst) hrest
        · obtain ⟨s₁, hfirst, hrest⟩ := Option.bind_eq_some_iff.mp hdone
          exact ih (h.of_walkProcessInputPath (h.polled hs) hfirst) hrest

/-- **A discovery keeps what its steps keep**: it fails at once, or its result
is taken from a state with the invariant. -/
theorem of_discoveryExpand (h : WalkInvariant invariant) (hinitial : invariant .initial)
    {inputs : List Bytes} {result : DiscoveryResult}
    (hdone : discoveryExpand env fuel inputs = some result) :
    result = ⟨false, [], [], []⟩ ∨
      ∃ s, invariant s ∧ result = ⟨true, s.entries, s.errors, []⟩ := by
  unfold discoveryExpand at hdone
  split at hdone
  · cases hdone
    exact Or.inl rfl
  · obtain ⟨s, hinputs, rfl⟩ := Option.map_eq_some_iff.mp hdone
    exact Or.inr ⟨s, h.of_walkInputs (h.requested hinitial) hinputs, rfl⟩

end WalkInvariant

end BcDuplicate
