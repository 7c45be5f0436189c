import BcDuplicate.Discovery.Walk
import Mathlib.Data.Finset.Card

/-!
# BcDuplicate.Discovery.Ends

The serial walk always ends, also when it is stopped, runs out of memory or
meets errors: a directory is entered after it is put into the visited set, so
the recursion is no deeper than the file system has directories
(`exists_discoveryExpand`).
-/

namespace BcDuplicate

section Ends

variable (env : DiscoveryEnvironment)

/-- The directories a walk can still enter. -/
def unvisited (s : WalkState) : Finset Identity :=
  env.fs.directories.filter fun directory => directory ∉ s.visitedDirectories

/-- A step of the walk ends, and forgets no directory it has visited. -/
def Ends (s : WalkState) (result : Option WalkState) : Prop :=
  ∃ s', result = some s' ∧ s.visitedDirectories ⊆ s'.visitedDirectories

variable {env}

theorem Ends.stay {s s' : WalkState} (h : s'.visitedDirectories = s.visitedDirectories) :
    Ends s (some s') := ⟨s', rfl, h ▸ List.Subset.refl _⟩

theorem Ends.bind {s : WalkState} {result : Option WalkState} {next : WalkState → Option WalkState}
    (h : Ends s result)
    (hnext : ∀ s', s.visitedDirectories ⊆ s'.visitedDirectories → Ends s' (next s')) :
    Ends s (result.bind next) := by
  obtain ⟨s', rfl, hsub⟩ := h
  obtain ⟨s'', heq, hsub'⟩ := hnext s' hsub
  exact ⟨s'', heq, List.Subset.trans hsub hsub'⟩

theorem Ends.from {s s' : WalkState} {result : Option WalkState}
    (hsub : s.visitedDirectories ⊆ s'.visitedDirectories) (h : Ends s' result) :
    Ends s result := by
  obtain ⟨s'', heq, hsub'⟩ := h
  exact ⟨s'', heq, List.Subset.trans hsub hsub'⟩

theorem visitedDirectories_walkAppendEntry (env : DiscoveryEnvironment) (s : WalkState)
    (absolutePath : Bytes) (fileSize : Nat) (identity : Identity) :
    (walkAppendEntry env s absolutePath fileSize identity).visitedDirectories =
      s.visitedDirectories := by
  unfold walkAppendEntry
  split
  · rfl
  · split
    · rfl
    · split <;> rfl

theorem card_unvisited_le {s s' : WalkState}
    (hsub : s.visitedDirectories ⊆ s'.visitedDirectories) :
    (unvisited env s').card ≤ (unvisited env s).card :=
  Finset.card_le_card fun directory hmem => by
    simp only [unvisited, Finset.mem_filter] at hmem ⊢
    exact ⟨hmem.1, fun h => hmem.2 (hsub h)⟩

theorem card_unvisited_inserted {s : WalkState} {directory : Identity}
    (hmem : directory ∈ env.fs.directories) (hnew : directory ∉ s.visitedDirectories) :
    (unvisited env (s.inserted directory)).card < (unvisited env s).card := by
  refine Finset.card_lt_card ⟨fun other hother => ?_, fun hsub => ?_⟩
  · simp only [unvisited, WalkState.inserted, Finset.mem_filter, List.mem_cons, not_or] at hother ⊢
    exact ⟨hother.1, hother.2.2⟩
  · have hin : directory ∈ unvisited env s := Finset.mem_filter.mpr ⟨hmem, hnew⟩
    exact (Finset.mem_filter.mp (hsub hin)).2 List.mem_cons_self

/-- The walk of a directory ends as long as fewer directories are left than
there is fuel. -/
def EndsBelow (env : DiscoveryEnvironment) (fuel : Nat)
    (walk : Identity → Bytes → Bytes → WalkState → Option WalkState) : Prop :=
  ∀ directory ∈ env.fs.directories, ∀ errorPath path s, (unvisited env s).card < fuel →
    Ends s (walk directory errorPath path s)

theorem ends_walkDescendChild {fuel : Nat}
    {walk : Identity → Bytes → Bytes → WalkState → Option WalkState}
    (hwalk : EndsBelow env fuel walk) {parent : Identity} (hparent : parent ∈ env.fs.directories)
    (childName childPath : Bytes) {s : WalkState} (hcard : (unvisited env s).card ≤ fuel) :
    Ends s (walkDescendChild env walk parent childName childPath s) := by
  unfold walkDescendChild
  split
  · exact .stay rfl
  · next child hstat =>
    have hchild : child ∈ env.fs.directories :=
      env.fs.link_mem parent hparent childName child (Link.stat_follow hstat)
    split
    · exact .stay rfl
    · split
      · exact .stay rfl
      · split
        · exact .stay rfl
        · next hnew =>
          have hless := card_unvisited_inserted (s := s.requested) hchild hnew
          have hsub : s.visitedDirectories ⊆ (s.requested.inserted child).visitedDirectories :=
            List.subset_cons_self _ _
          refine .from hsub ?_
          dsimp only
          split
          · exact .stay rfl
          · split
            · exact .stay rfl
            · exact .from (List.Subset.refl _) (hwalk child hchild childPath childPath _
                (Nat.lt_of_lt_of_le hless hcard))
  · exact .stay rfl

theorem ends_walkHandleEntry {fuel : Nat}
    {walk : Identity → Bytes → Bytes → WalkState → Option WalkState}
    (hwalk : EndsBelow env fuel walk) {directory : Identity}
    (hdirectory : directory ∈ env.fs.directories) (directoryPath joinedPath entryName : Bytes)
    {s : WalkState} (hcard : (unvisited env s).card ≤ fuel) :
    Ends s (walkHandleEntry env walk directory directoryPath joinedPath entryName s) := by
  unfold walkHandleEntry
  split
  · exact .stay rfl
  · split
    · exact .stay rfl
    · split
      · exact .stay rfl
      · split
        · exact .stay (visitedDirectories_walkAppendEntry env s _ _ _)
        · exact .stay rfl
      · split
        · exact ends_walkDescendChild hwalk hdirectory _ _ hcard
        · exact .stay rfl
      · exact .stay rfl

theorem ends_walkNames {fuel : Nat}
    {walk : Identity → Bytes → Bytes → WalkState → Option WalkState}
    (hwalk : EndsBelow env fuel walk) {directory : Identity}
    (hdirectory : directory ∈ env.fs.directories) (directoryPath joinedPath : Bytes)
    (names : List Bytes) {s : WalkState} (hcard : (unvisited env s).card ≤ fuel) :
    Ends s (walkNames env walk directory directoryPath joinedPath names s) := by
  induction names generalizing s with
  | nil =>
      unfold walkNames
      split <;> exact .stay rfl
  | cons name names ih =>
      unfold walkNames
      split
      · exact .stay rfl
      · split
        · exact .from (List.Subset.refl _) (ih hcard)
        · have hentry : Ends s.polled
              (walkHandleEntry env walk directory directoryPath joinedPath name s.polled) :=
            ends_walkHandleEntry hwalk hdirectory directoryPath joinedPath name hcard
          refine .from (List.Subset.refl _) (hentry.bind fun s' hsub => ih ?_)
          exact (card_unvisited_le hsub).trans hcard

/-- **The recursion**, by induction on the fuel: a child is walked with fewer
directories left. -/
theorem endsBelow_walkDirectory (fuel : Nat) : EndsBelow env fuel (walkDirectory env fuel) := by
  induction fuel with
  | zero => exact fun _ _ _ _ _ hcard => absurd hcard (Nat.not_lt_zero _)
  | succ fuel ih =>
      intro directory hdirectory errorPath path s hcard
      unfold walkDirectory
      split
      · exact .stay rfl
      · split
        · exact .stay rfl
        · exact ends_walkNames ih hdirectory errorPath path _ (Nat.le_of_lt_succ hcard)

/-! ## the inputs -/

variable {fuel : Nat} (hfuel : env.fs.directories.card < fuel)

include hfuel

theorem ends_walkProcessInputPath (s : WalkState) (inputPath : Bytes) :
    Ends s (walkProcessInputPath env fuel s inputPath) := by
  unfold walkProcessInputPath
  split
  · exact .stay rfl
  · exact .stay rfl
  · exact .stay (visitedDirectories_walkAppendEntry env s _ _ _)
  · next identity hstat =>
    have hmem : identity ∈ env.fs.directories := env.fs.resolveDirectory_mem
      (env.fs.resolveDirectory_of_statPath hstat).2
    split
    · exact .stay rfl
    · dsimp only
      split
      · exact .stay rfl
      · split
        · exact .stay rfl
        · have hsub : s.visitedDirectories ⊆
              ((s.rooted identity).requested.inserted identity).visitedDirectories :=
            List.subset_cons_self _ _
          refine .from hsub ?_
          split
          · exact .stay rfl
          · refine .from (List.Subset.refl _) (endsBelow_walkDirectory fuel identity hmem _ _ _ ?_)
            exact Nat.lt_of_le_of_lt (Finset.card_filter_le _ _) hfuel
  · exact .stay rfl

theorem ends_foldlM (paths : List Bytes) (s : WalkState) :
    Ends s (paths.foldlM (walkProcessInputPath env fuel) s) := by
  induction paths generalizing s with
  | nil => exact .stay rfl
  | cons path paths ih =>
      rw [List.foldlM_cons]
      exact (ends_walkProcessInputPath hfuel s path).bind fun s' _ => ih s'

theorem ends_walkInputs (inputs : List Bytes) (s : WalkState) :
    Ends s (walkInputs env fuel inputs s) := by
  induction inputs generalizing s with
  | nil => exact .stay rfl
  | cons input inputs ih =>
      unfold walkInputs
      split
      · exact .stay rfl
      · split
        · have hglob : Ends s.polled (walkExpandGlob env fuel s.polled input) := by
            unfold walkExpandGlob
            split
            · exact .stay rfl
            · split
              · exact .stay rfl
              · exact ends_foldlM hfuel _ _
          exact .from (List.Subset.refl _) (hglob.bind fun s' _ => ih s')
        · exact .from (List.Subset.refl _)
            ((ends_walkProcessInputPath hfuel s.polled input).bind fun s' _ => ih s')

/-- **The serial walk ends**, and fails only when its visited set cannot be
created. -/
theorem exists_discoveryExpand (inputs : List Bytes) :
    ∃ result, discoveryExpand env fuel inputs = some result ∧ result.ok = env.allocates 0 := by
  unfold discoveryExpand
  cases hallocates : env.allocates 0 with
  | false => exact ⟨_, rfl, rfl⟩
  | true =>
      obtain ⟨s, hdone, _⟩ := ends_walkInputs hfuel inputs { WalkState.initial with requests := 1 }
      rw [if_neg Bool.noConfusion, hdone]
      exact ⟨_, rfl, rfl⟩

end Ends
end BcDuplicate
