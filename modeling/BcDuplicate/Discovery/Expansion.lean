import BcDuplicate.Discovery.Agreement

/-!
# BcDuplicate.Discovery.Expansion

What the two walks make of an input with metacharacters.

Both ask `glob`, which returns the pattern itself when nothing matches.  The
parallel walk processes all that was returned (`parallelExpanded_eq`).  The
serial walk takes the pattern alone for no match (`serialExpanded_eq`), also
when a file of that name exists, and then passes the file over
(`scansExisting_iff`).
-/

namespace BcDuplicate

open FileSystem

/-- There is something at the path, a symbolic link included. -/
def FileSystem.pathExists (fs : FileSystem) (path : Bytes) : Bool := (fs.statPath false path).toBool

section Expansion

variable (env : DiscoveryEnvironment)

/-- What `glob` is relied on for: it returns the existing paths the pattern
denotes, or the pattern itself when there are none. -/
def GlobMatches (denotes : Bytes → Bytes → Prop) (pattern : Bytes) : Prop :=
  ∀ matched, env.glob pattern = some matched →
    ((∃ path, denotes pattern path ∧ env.fs.pathExists path = true) →
      ∀ path, path ∈ matched ↔ denotes pattern path ∧ env.fs.pathExists path = true) ∧
    ((∀ path, denotes pattern path → env.fs.pathExists path = false) → matched = [pattern])

/-- **Nothing that exists is passed over.**  Every existing path `glob` returns
is processed by both walks, an input is reported as no match only when neither
it nor what it denotes exists, and both walks process the same existing
paths. -/
structure ScansExisting (denotes : Bytes → Bytes → Prop) (input : Bytes) : Prop where
  processed : ∀ matched, globContainsMetacharacter input = true → env.glob input = some matched →
    ∀ path ∈ matched, env.fs.pathExists path = true →
      path ∈ serialPaths env input ∧ path ∈ parallelPaths env input
  noMatch : ⟨input, "glob-no-match", .ENOENT⟩ ∈
      serialGlobErrors env input ++ parallelGlobErrors env input →
    ∀ path, path = input ∨ denotes input path → env.fs.pathExists path = false
  same : (serialPaths env input).filter env.fs.pathExists =
    (parallelPaths env input).filter env.fs.pathExists

variable {env} {denotes : Bytes → Bytes → Prop} {input : Bytes}

/-- A pattern that is no match for the serial walk: `glob` returned it alone. -/
theorem serialPaths_alone (hmeta : globContainsMetacharacter input = true)
    (hglob : env.glob input = some [input]) :
    serialPaths env input = [] ∧
      serialGlobErrors env input = [⟨input, "glob-no-match", .ENOENT⟩] := by
  simp [serialPaths, serialGlobErrors, hmeta, hglob]

/-- Any other input is expanded alike by both walks, and reported by neither as
no match. -/
theorem serialPaths_otherwise
    (hother : ¬(globContainsMetacharacter input = true ∧ env.glob input = some [input])) :
    serialPaths env input = parallelPaths env input ∧
      ⟨input, "glob-no-match", .ENOENT⟩ ∉ serialGlobErrors env input := by
  unfold serialPaths parallelPaths serialGlobErrors
  by_cases hmeta : globContainsMetacharacter input = true
  · cases hglob : env.glob input with
    | none => simp [hmeta]
    | some matched =>
        have hne : matched ≠ [input] := fun h => hother ⟨hmeta, by rw [hglob, h]⟩
        simp [hmeta, hne]
  · simp [hmeta]

/-- The parallel walk reports no input as no match. -/
theorem noMatch_notMem_parallelGlobErrors :
    ⟨input, "glob-no-match", .ENOENT⟩ ∉ parallelGlobErrors env input := by
  unfold parallelGlobErrors
  split <;> simp

/-- Nothing is passed over exactly when the serial walk does not take an
existing file for no match. -/
theorem scansExisting_iff_of_glob (hglob : GlobMatches env denotes input) :
    ScansExisting env denotes input ↔
      ¬(globContainsMetacharacter input = true ∧ env.glob input = some [input] ∧
        env.fs.pathExists input = true) := by
  constructor
  · rintro hscans ⟨hmeta, halone, hexists⟩
    have hserial := (hscans.processed [input] hmeta halone input (List.mem_singleton_self input)
      hexists).1
    rw [(serialPaths_alone hmeta halone).1] at hserial
    cases hserial
  · intro hnot
    by_cases halone : globContainsMetacharacter input = true ∧ env.glob input = some [input]
    · have hmissing : env.fs.pathExists input = false :=
        eq_false_of_ne_true fun hexists => hnot ⟨halone.1, halone.2, hexists⟩
      obtain ⟨hpaths, _⟩ := serialPaths_alone halone.1 halone.2
      refine ⟨?_, ?_, ?_⟩
      · intro matched _ hmatched path hpath hexists
        obtain rfl : [input] = matched := Option.some.inj (halone.2.symm.trans hmatched)
        rw [List.mem_singleton.mp hpath, hmissing] at hexists
        cases hexists
      · intro _ path hdenoted
        rcases hdenoted with rfl | hdenoted
        · exact hmissing
        · -- had it existed, `glob` would have returned no missing path
          by_contra hexists
          have hreturned := (hglob [input] halone.2).1
            ⟨path, hdenoted, eq_true_of_ne_false hexists⟩ input
          have hinput := (hreturned.mp (List.mem_singleton_self input)).2
          rw [hmissing] at hinput
          cases hinput
      · rw [hpaths, parallelPaths, if_pos halone.1, halone.2]
        simp [hmissing]
    · obtain ⟨hpaths, hreported⟩ := serialPaths_otherwise halone
      refine ⟨?_, ?_, by rw [hpaths]⟩
      · intro matched hmeta hmatched path hpath _
        have hparallel : path ∈ parallelPaths env input := by
          rw [parallelPaths, if_pos hmeta, hmatched]
          exact hpath
        exact ⟨hpaths ▸ hparallel, hparallel⟩
      · intro hnoMatch
        rcases List.mem_append.mp hnoMatch with hserial | hparallel
        · exact absurd hserial hreported
        · exact absurd hparallel noMatch_notMem_parallelGlobErrors

end Expansion

/-- **When both walks scan what exists.**  Each walk processes the paths it
expands an input to, behind the errors it reports for the expansion.  Every
existing path `glob` returns is among them, and no input is reported as no
match although something it stands for exists, exactly when the input is not a
pattern that `glob` returns alone and that exists itself. -/
theorem scansExisting_iff (env : ParallelEnvironment) (denotes : Bytes → Bytes → Prop)
    (input : Bytes) (hglob : GlobMatches env.toDiscoveryEnvironment denotes input) :
    (∀ fuel s,
      (if globContainsMetacharacter input then
          walkExpandGlob env.toDiscoveryEnvironment fuel s input
        else walkProcessInputPath env.toDiscoveryEnvironment fuel s input) =
        (serialPaths env.toDiscoveryEnvironment input).foldlM
          (walkProcessInputPath env.toDiscoveryEnvironment fuel)
          (s.reported (serialGlobErrors env.toDiscoveryEnvironment input))) ∧
    (∀ s, parallelInput env s input =
      (parallelPaths env.toDiscoveryEnvironment input).foldl (parallelProcessInputPath env)
        (s.reported (parallelGlobErrors env.toDiscoveryEnvironment input))) ∧
    (ScansExisting env.toDiscoveryEnvironment denotes input ↔
      ¬(globContainsMetacharacter input = true ∧ env.glob input = some [input] ∧
        env.fs.pathExists input = true)) :=
  ⟨fun fuel s => serialExpanded_eq env.toDiscoveryEnvironment fuel s input,
    fun s => parallelExpanded_eq env s input, scansExisting_iff_of_glob hglob⟩

/-! ### a name with a metacharacter -/

/-- One file, whose name is a star. -/
def starFile : Table where
  root := ⟨0, 1⟩
  rows := [⟨⟨0, 1⟩, [42], .object (.regular ⟨0, 3⟩ 5)⟩]
  distinct := by decide
  proper := by decide

/-- `glob` over the files of the root: a star denotes all their names, and any
other pattern nothing. -/
def starGlob (table : Table) : ParallelEnvironment :=
  { table.run with
    glob := fun pattern =>
      if pattern = [42] ∧ table.fileSystem.listing table.root ≠ [] then
        some (table.fileSystem.listing table.root)
      else some [pattern] }

/-- What a star denotes. -/
def starDenotes (table : Table) (pattern path : Bytes) : Prop :=
  pattern = [42] ∧ path ∈ table.fileSystem.listing table.root

theorem globMatches_oneDirectory : GlobMatches (starGlob oneDirectory).toDiscoveryEnvironment
    (starDenotes oneDirectory) [42] := by
  intro matched hmatched
  have hlisting : oneDirectory.fileSystem.listing oneDirectory.root = [[100]] := by decide
  have hreturned : matched = [[100]] := by
    simpa [starGlob, hlisting, eq_comm] using hmatched
  have hexists : (starGlob oneDirectory).fs.pathExists [100] = true := by decide
  constructor
  · intro _ path
    rw [hreturned, starDenotes, hlisting, List.mem_singleton]
    constructor
    · rintro rfl
      exact ⟨⟨rfl, rfl⟩, hexists⟩
    · rintro ⟨⟨_, hpath⟩, _⟩
      exact hpath
  · intro hnone
    have hmissing := hnone [100] ⟨rfl, by rw [hlisting]; exact List.mem_singleton_self _⟩
    rw [hexists] at hmissing
    cases hmissing

/-- A star that matches a directory. -/
theorem scansExisting_iff_oneDirectory :
    ScansExisting (starGlob oneDirectory).toDiscoveryEnvironment (starDenotes oneDirectory)
      [42] := by
  have hiff := (scansExisting_iff (starGlob oneDirectory) (starDenotes oneDirectory) [42]
    globMatches_oneDirectory).2.2
  rw [hiff]
  rintro ⟨_, halone, _⟩
  exact absurd halone (by decide)

/-- **A file named by a star is passed over** by the serial walk and reported
as no match. -/
theorem star_passed_over :
    ¬∀ (env : ParallelEnvironment) (denotes : Bytes → Bytes → Prop) (input : Bytes),
      GlobMatches env.toDiscoveryEnvironment denotes input →
        ScansExisting env.toDiscoveryEnvironment denotes input := by
  intro h
  have hlisting : starFile.fileSystem.listing starFile.root = [[42]] := by decide
  have hexists : (starGlob starFile).fs.pathExists [42] = true := by decide
  have halone : (starGlob starFile).glob [42] = some [[42]] := by decide
  have hglob : GlobMatches (starGlob starFile).toDiscoveryEnvironment (starDenotes starFile)
      [42] := by
    intro matched hmatched
    obtain rfl : [[42]] = matched := Option.some.inj (halone.symm.trans hmatched)
    refine ⟨fun _ path => ?_, fun _ => rfl⟩
    rw [starDenotes, hlisting, List.mem_singleton]
    constructor
    · rintro rfl
      exact ⟨⟨rfl, rfl⟩, hexists⟩
    · exact fun hpath => hpath.1.2
  have hscans := h (starGlob starFile) (starDenotes starFile) [42] hglob
  have hserial := (hscans.processed [[42]] (by decide) halone [42] (List.mem_singleton_self _)
    hexists).1
  have hnone : serialPaths (starGlob starFile).toDiscoveryEnvironment [42] = [] := by decide
  rw [hnone] at hserial
  cases hserial

end BcDuplicate
