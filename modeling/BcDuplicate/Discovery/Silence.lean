import BcDuplicate.Discovery.Disturbed
import BcDuplicate.Discovery.Steps

/-!
# BcDuplicate.Discovery.Silence

The serial walk does not lose files silently: where no signal arrives and no
error tells of exhausted memory or of a path that is too long, the walk went as
it would have gone undisturbed (`silent_walk_eq`), and so found everything in
scope.
-/

namespace BcDuplicate

open FileSystem

/-- The error tells of a request that was refused or of a path that did not
fit, not of the file system. -/
def DiscoveryError.OfDisturbance (error : DiscoveryError) : Prop :=
  error.stage ∈ ["allocate", "enqueue", "dedup", "path-too-long"]

/-- The same discovery, undisturbed. -/
def DiscoveryEnvironment.calm (env : DiscoveryEnvironment) : DiscoveryEnvironment :=
  { env with
    shouldStop := fun _ => false
    allocates := fun _ => true
    pathJoin := fun directory name => some (joinPath directory name) }

section Calm

variable (env : DiscoveryEnvironment)

@[simp] theorem calm_fs : env.calm.fs = env.fs := rfl
@[simp] theorem calm_options : env.calm.options = env.options := rfl
@[simp] theorem calm_filter : env.calm.filter = env.filter := rfl
@[simp] theorem calm_fnmatch : env.calm.fnmatch = env.fnmatch := rfl
@[simp] theorem calm_glob : env.calm.glob = env.glob := rfl
@[simp] theorem calm_shouldStop (poll : Nat) : env.calm.shouldStop poll = false := rfl
@[simp] theorem calm_allocates (request : Nat) : env.calm.allocates request = true := rfl
@[simp] theorem calm_pathJoin (directory name : Bytes) :
    env.calm.pathJoin directory name = some (joinPath directory name) := rfl

end Calm

theorem DiscoveryEnvironment.undisturbed_calm (env : DiscoveryEnvironment) :
    env.calm.Undisturbed :=
  ⟨fun _ => rfl, fun _ => rfl, fun _ _ => rfl⟩

/-- The walk reported a disturbance. -/
def Loud (s : WalkState) : Prop := ∃ error ∈ s.errors, error.OfDisturbance

/-- What was reported stays reported. -/
theorem walkInvariant_loud : WalkInvariant Loud where
  fail _ _ _ := fun ⟨error, herror, hloud⟩ => ⟨error, List.mem_append_left _ herror, hloud⟩
  polled := id
  requested := id
  rooted _ := id
  inserted _ := id
  opened _ := id
  appended _ := id

/-- A report of a disturbance. -/
theorem loud_fail (s : WalkState) (path : Bytes) {stage : String} (errno : Errno)
    (hstage : stage ∈ ["allocate", "enqueue", "dedup", "path-too-long"]) :
    Loud (s.fail path stage errno) :=
  ⟨⟨path, stage, errno⟩, List.mem_append_right _ (List.mem_singleton_self _), hstage⟩

/-! ## one directory -/

/-- Where the walk of a directory ends, it reported a disturbance or went as it
does undisturbed. -/
def LoudOrSame (walk calm : Identity → Bytes → Bytes → WalkState → Option WalkState) : Prop :=
  ∀ directory errorPath path s s', walk directory errorPath path s = some s' →
    Loud s' ∨ calm directory errorPath path s = some s'

section Directory

variable {env : DiscoveryEnvironment}
  {walk calm : Identity → Bytes → Bytes → WalkState → Option WalkState}

theorem loud_or_same_walkAppendEntry (s : WalkState) (path : Bytes) (fileSize : Nat)
    (identity : Identity) :
    Loud (walkAppendEntry env s path fileSize identity) ∨
      walkAppendEntry env.calm s path fileSize identity =
        walkAppendEntry env s path fileSize identity := by
  unfold walkAppendEntry
  split
  · next hsize => exact Or.inr (if_pos hsize)
  · next hsize =>
    split
    · exact Or.inl (loud_fail _ _ _ (by decide))
    · split
      · exact Or.inl (loud_fail _ _ _ (by decide))
      · exact Or.inr (if_neg hsize)

variable (hwalk : LoudOrSame walk calm)
include hwalk

theorem loud_or_same_walkDescendChild {directory : Identity} {name path : Bytes}
    {s s' : WalkState} (hdone : walkDescendChild env walk directory name path s = some s') :
    Loud s' ∨ walkDescendChild env.calm calm directory name path s = some s' := by
  unfold walkDescendChild at hdone
  split at hdone
  · next errno hstat => exact Or.inr (by simpa [walkDescendChild, hstat] using hdone)
  · next child hstat =>
    split at hdone
    · next hdevice =>
      refine Or.inr ?_
      rw [walkDescendChild, calm_fs, calm_options, hstat]
      exact (if_pos hdevice).trans hdone
    · next hdevice =>
      split at hdone
      · cases hdone
        exact Or.inl (loud_fail _ _ _ (by decide))
      · rw [walkDescendChild, calm_fs, calm_options, hstat, calm_allocates]
        dsimp only
        rw [if_neg hdevice, if_neg Bool.noConfusion]
        split at hdone
        · next hseen =>
          rw [if_pos hseen]
          exact Or.inr hdone
        · next hseen =>
          rw [if_neg hseen]
          split at hdone
          · next hpseudo =>
            rw [if_pos hpseudo]
            exact Or.inr hdone
          · next hpseudo =>
            rw [if_neg hpseudo]
            split at hdone
            · exact Or.inr hdone
            · exact hwalk _ _ _ _ _ hdone
  · next status hother hstat =>
    refine Or.inr ?_
    rw [walkDescendChild, calm_fs, calm_options, hstat]
    split
    · next hcontra => cases hcontra
    · next child hcontra => exact absurd (Except.ok.inj hcontra) (hother child)
    · exact hdone

variable (hjoins : env.Joins)
include hjoins

/-- One name of a directory. -/
theorem loud_or_same_walkHandleEntry {directory : Identity} {errorPath path name : Bytes}
    {s s' : WalkState}
    (hdone : walkHandleEntry env walk directory errorPath path name s = some s') :
    Loud s' ∨ walkHandleEntry env.calm calm directory errorPath path name s = some s' := by
  unfold walkHandleEntry at hdone
  rw [walkHandleEntry, calm_fs, calm_options, calm_pathJoin, calm_fnmatch, calm_filter]
  dsimp only
  split at hdone
  · next hhidden =>
    rw [if_pos hhidden]
    exact Or.inr hdone
  · next hshown =>
    rw [if_neg hshown]
    split at hdone
    · cases hdone
      exact Or.inl (loud_fail _ _ _ (by decide))
    · next childPath hjoin =>
      obtain rfl := hjoins _ _ _ hjoin
      split at hdone
      · exact Or.inr hdone
      · split at hdone
        · next identity fileSize hstat haccept =>
          cases hdone
          rw [if_pos haccept]
          exact (loud_or_same_walkAppendEntry s _ fileSize identity).imp_right (congrArg some)
        · next haccept =>
          rw [if_neg haccept]
          exact Or.inr hdone
      · split at hdone
        · next haccept =>
          rw [if_pos haccept]
          exact loud_or_same_walkDescendChild hwalk hdone
        · next haccept =>
          rw [if_neg haccept]
          exact Or.inr hdone
      · exact Or.inr hdone

variable (hkeeps : KeepsInvariant Loud walk) (hstop : ∀ poll, env.shouldStop poll = false)
include hkeeps hstop

/-- The names of a directory: a disturbance that was reported stays so. -/
theorem loud_or_same_walkNames {directory : Identity} {errorPath path : Bytes}
    {names : List Bytes} {s s' : WalkState}
    (hdone : walkNames env walk directory errorPath path names s = some s') :
    Loud s' ∨ walkNames env.calm calm directory errorPath path names s = some s' := by
  induction names generalizing s with
  | nil => exact Or.inr hdone
  | cons name names ih =>
      rw [walkNames, hstop, if_neg Bool.noConfusion] at hdone
      rw [walkNames, calm_shouldStop, if_neg Bool.noConfusion]
      split at hdone
      · next hdots =>
        rw [if_pos hdots]
        exact ih hdone
      · next hdots =>
        rw [if_neg hdots]
        obtain ⟨s₁, hfirst, hrest⟩ := Option.bind_eq_some_iff.mp hdone
        rcases loud_or_same_walkHandleEntry hwalk hjoins hfirst with hloud | hsame
        · exact Or.inl (walkInvariant_loud.of_walkNames hkeeps hloud hrest)
        · rw [hsame, Option.bind_some]
          exact ih hrest

end Directory

/-! ## the inputs -/

section Inputs

variable {env : DiscoveryEnvironment} (hjoins : env.Joins)
  (hstop : ∀ poll, env.shouldStop poll = false) {fuel : Nat}
include hjoins hstop

/-- The walk of a directory, by induction on the fuel. -/
theorem loudOrSame_walkDirectory (fuel : Nat) :
    LoudOrSame (walkDirectory env fuel) (walkDirectory env.calm fuel) := by
  induction fuel with
  | zero => intro directory errorPath path s s' hdone; cases hdone
  | succ fuel ih =>
      intro directory errorPath path s s' hdone
      unfold walkDirectory at hdone ⊢
      rw [calm_fs]
      split at hdone
      · exact Or.inr hdone
      · split at hdone
        · exact Or.inr hdone
        · exact loud_or_same_walkNames ih hjoins (walkInvariant_loud.of_walkDirectory fuel) hstop
            hdone

/-- One input path. -/
theorem loud_or_same_walkProcessInputPath {path : Bytes} {s s' : WalkState}
    (hdone : walkProcessInputPath env fuel s path = some s') :
    Loud s' ∨ walkProcessInputPath env.calm fuel s path = some s' := by
  unfold walkProcessInputPath at hdone ⊢
  rw [calm_fs, calm_options]
  split at hdone
  · exact Or.inr hdone
  · exact Or.inr hdone
  · next identity fileSize hstat =>
    cases hdone
    exact (loud_or_same_walkAppendEntry s path fileSize identity).imp_right (congrArg some)
  · next identity hstat =>
    dsimp only at hdone ⊢
    rw [calm_allocates, if_neg (Bool.noConfusion : ¬true = false)]
    split at hdone
    · next hpseudo =>
      rw [if_pos hpseudo]
      exact Or.inr hdone
    · next hpseudo =>
      rw [if_neg hpseudo]
      split at hdone
      · cases hdone
        exact Or.inl (loud_fail _ _ _ (by decide))
      · split at hdone
        · next hseen =>
          rw [if_pos hseen]
          exact Or.inr hdone
        · next hseen =>
          rw [if_neg hseen]
          split at hdone
          · exact Or.inr hdone
          · exact loudOrSame_walkDirectory hjoins hstop fuel _ _ _ _ _ hdone
  · exact Or.inr hdone

/-- Paths processed one after the other. -/
theorem loud_or_same_foldlM {paths : List Bytes} {s s' : WalkState}
    (hdone : paths.foldlM (walkProcessInputPath env fuel) s = some s') :
    Loud s' ∨ paths.foldlM (walkProcessInputPath env.calm fuel) s = some s' := by
  induction paths generalizing s with
  | nil => exact Or.inr hdone
  | cons path paths ih =>
      rw [List.foldlM_cons] at hdone ⊢
      obtain ⟨s₁, hfirst, hrest⟩ := Option.bind_eq_some_iff.mp hdone
      rcases loud_or_same_walkProcessInputPath hjoins hstop hfirst with hloud | hsame
      · exact Or.inl (walkInvariant_loud.of_foldlM hloud hrest)
      · rw [hsame]
        exact ih hrest

/-- The inputs, each expanded. -/
theorem loud_or_same_walkInputs {inputs : List Bytes} {s s' : WalkState}
    (hdone : walkInputs env fuel inputs s = some s') :
    Loud s' ∨ walkInputs env.calm fuel inputs s = some s' := by
  induction inputs generalizing s with
  | nil => exact Or.inr hdone
  | cons input inputs ih =>
      rw [walkInputs, hstop, if_neg Bool.noConfusion, ← apply_ite
        (fun result : Option WalkState => result.bind (walkInputs env fuel inputs)),
        serialExpanded_eq env fuel s.polled input] at hdone
      rw [walkInputs, calm_shouldStop, if_neg Bool.noConfusion, ← apply_ite
        (fun result : Option WalkState => result.bind (walkInputs env.calm fuel inputs)),
        serialExpanded_eq env.calm fuel s.polled input]
      obtain ⟨s₁, hfirst, hrest⟩ := Option.bind_eq_some_iff.mp hdone
      rcases loud_or_same_foldlM hjoins hstop hfirst with hloud | hsame
      · exact Or.inl (walkInvariant_loud.of_walkInputs hloud hrest)
      · have hcalm : (serialPaths env.calm input).foldlM (walkProcessInputPath env.calm fuel)
            (s.polled.reported (serialGlobErrors env.calm input)) = some s₁ := hsame
        rw [hcalm, Option.bind_some]
        exact ih hrest

end Inputs

/-- **A silent walk went undisturbed.**  Where no signal arrives, a walk that
succeeds and reports no disturbance has the result it has undisturbed. -/
theorem silent_walk_eq {env : DiscoveryEnvironment} (hjoins : env.Joins)
    (hstop : ∀ poll, env.shouldStop poll = false) {fuel : Nat} {inputs : List Bytes}
    {result : DiscoveryResult} (hdone : discoveryExpand env fuel inputs = some result)
    (hok : result.ok = true) (hsilent : ∀ error ∈ result.errors, ¬error.OfDisturbance) :
    discoveryExpand env.calm fuel inputs = some result := by
  unfold discoveryExpand at hdone ⊢
  rw [calm_allocates, if_neg Bool.noConfusion]
  split at hdone
  · cases hdone
    cases hok
  · obtain ⟨s, hinputs, rfl⟩ := Option.map_eq_some_iff.mp hdone
    rcases loud_or_same_walkInputs hjoins hstop hinputs with ⟨error, herror, hloud⟩ | hsame
    · exact absurd hloud (hsilent error herror)
    · rw [hsame]
      rfl

/-- **A silent walk found everything in scope**, each directory once. -/
theorem silent_walk_finds {env : DiscoveryEnvironment} (hjoins : env.Joins)
    (hstop : ∀ poll, env.shouldStop poll = false) {inputs : List Bytes} {result : DiscoveryResult}
    (hdone : discoveryExpand env (env.fs.directories.card + 1) inputs = some result)
    (hok : result.ok = true) (hsilent : ∀ error ∈ result.errors, ¬error.OfDisturbance) :
    ∃ directories, FindsScope env (inputs.flatMap (serialPaths env)) result.entries directories ∧
      (directories.filter fun directory => !(filesOf env directory).isEmpty).Nodup := by
  obtain ⟨calmed, directories, hcalm, _, hfinds, honce⟩ :=
    exists_serial_findsScope env.undisturbed_calm inputs
  have hsame := silent_walk_eq hjoins hstop hdone hok hsilent
  rw [calm_fs] at hcalm
  rw [hsame, Option.some.injEq] at hcalm
  subst hcalm
  exact ⟨directories, ⟨hfinds.found, hfinds.walked⟩, honce⟩

end BcDuplicate
