import BcDuplicate.Application.Exact
import BcDuplicate.Discovery.Expansion

/-!
# BcDuplicate.Application.Independence

What a report does not depend on: the number of workers, and with it the walk,
the walk library, the schedules and the rings, the sorts, the hash algorithm
and the output.  At rest two runs with one task report the same
(`report_independent`).
-/

namespace BcDuplicate

open FileSystem
open Runs
open Search

/-! ## what both walks are given -/

section Paths

variable {env : DiscoveryEnvironment}

/-- What does not exist is neither a file nor a directory. -/
theorem inputs_of_missing {path : Bytes} (h : env.fs.pathExists path = false) :
    inputFiles env path = [] ∧ inputRoots env path = [] := by
  have hmissing : ∀ follow status, env.fs.statPath follow path ≠ .ok status := by
    intro follow status hstat
    rw [FileSystem.pathExists, FileSystem.statPath] at h
    rw [FileSystem.statPath] at hstat
    cases hlocate : env.fs.locate path with
    | error errno => rw [hlocate] at hstat; cases hstat
    | ok place =>
        rw [hlocate] at h hstat
        cases place with
        | directory identity => cases h
        | entry directory name =>
            dsimp only at h hstat
            cases hlink : env.fs.link directory name with
            | object found => rw [hlink] at h; cases h
            | symbolicLink target => rw [hlink] at h; cases h
            | failing errno => rw [hlink] at hstat; cases hstat
  constructor
  · unfold inputFiles
    split
    · next hstat => exact absurd hstat (hmissing _ _)
    · rfl
  · unfold inputRoots
    split
    · next hstat => exact absurd hstat (hmissing _ _)
    · rfl

/-- No input is a pattern that `glob` returns alone and that exists itself. -/
def NoPatternIsFile (env : DiscoveryEnvironment) (inputs : List Bytes) : Prop :=
  ∀ input ∈ inputs, ¬(globContainsMetacharacter input = true ∧ env.glob input = some [input] ∧
    env.fs.pathExists input = true)

/-- Of what exists, both walks process the same. -/
theorem flatMap_serialPaths_eq {β : Type} (f : Bytes → List β) {inputs : List Bytes}
    (hinputs : NoPatternIsFile env inputs)
    (hf : ∀ path, env.fs.pathExists path = false → f path = []) :
    (inputs.flatMap (serialPaths env)).flatMap f = (inputs.flatMap (parallelPaths env)).flatMap f := by
  rw [List.flatMap_assoc, List.flatMap_assoc]
  refine List.flatMap_congr fun input hinput => ?_
  by_cases halone : globContainsMetacharacter input = true ∧ env.glob input = some [input]
  · have hmissing : env.fs.pathExists input = false :=
      eq_false_of_ne_true fun hexists => hinputs input hinput ⟨halone.1, halone.2, hexists⟩
    rw [(serialPaths_alone halone.1 halone.2).1, parallelPaths, if_pos halone.1, halone.2]
    exact ((List.append_nil _).trans (hf input hmissing)).symm
  · rw [(serialPaths_otherwise halone).1]

/-- **Both walks have one scope.** -/
theorem inScope_serialPaths_iff {inputs : List Bytes} (hinputs : NoPatternIsFile env inputs)
    (file : FoundFile) : InScope env (inputs.flatMap (serialPaths env)) file ↔
      InScope env (inputs.flatMap (parallelPaths env)) file := by
  have hfiles := flatMap_serialPaths_eq (inputFiles env) hinputs fun _ h => (inputs_of_missing h).1
  have hroots := flatMap_serialPaths_eq (inputRoots env) hinputs fun _ h => (inputs_of_missing h).2
  unfold InScope InWalk rootDeviceOf
  rw [hfiles, hroots]

end Paths

/-! ## one task -/

section Task

variable {lib lib' : HashLibrary}

/-- Two runs with one task: the same inputs on the same file system, the same
filter and options of discovery, hardlinks treated alike. -/
structure SameTask (env : ApplicationEnvironment lib) (env' : ApplicationEnvironment lib') :
    Prop where
  inputPaths : env.inputPaths = env'.inputPaths
  matchHardlinks : env.options.matchHardlinks = env'.options.matchHardlinks
  fs : env.discovery.fs = env'.discovery.fs
  discoveryOptions : env.discovery.options = env'.discovery.options
  filter : env.discovery.filter = env'.discovery.filter
  fnmatch : env.discovery.fnmatch = env'.discovery.fnmatch
  glob : env.discovery.glob = env'.discovery.glob

/-- The scope is a matter of the file system, the options and the filter. -/
theorem inScope_congr {env env' : DiscoveryEnvironment} (hfs : env.fs = env'.fs)
    (hoptions : env.options = env'.options) (hfilter : env.filter = env'.filter)
    (hfnmatch : env.fnmatch = env'.fnmatch) (paths : List Bytes) (file : FoundFile) :
    InScope env paths file ↔ InScope env' paths file := by
  obtain ⟨fs, options, filter, fnmatch, glob, pathJoin, shouldStop, allocates⟩ := env
  obtain ⟨fs', options', filter', fnmatch', glob', pathJoin', shouldStop', allocates'⟩ := env'
  cases hfs
  cases hoptions
  cases hfilter
  cases hfnmatch
  exact Iff.rfl

variable {env : ApplicationEnvironment lib} {env' : ApplicationEnvironment lib'}

/-- The files a run is about, by what the parallel walk would process. -/
theorem fileInScope_iff
    (hinputs : NoPatternIsFile env.discovery.toDiscoveryEnvironment env.inputPaths)
    (file : FoundFile) : FileInScope env file ↔ InScope env.discovery.toDiscoveryEnvironment
      (env.inputPaths.flatMap (parallelPaths env.discovery.toDiscoveryEnvironment)) file := by
  unfold FileInScope scannedPaths
  split
  · exact Iff.rfl
  · exact inScope_serialPaths_iff hinputs file

/-- **One task has one scope**, on any numbers of workers. -/
theorem SameTask.fileInScope_iff (h : SameTask env env')
    (hinputs : NoPatternIsFile env.discovery.toDiscoveryEnvironment env.inputPaths)
    (file : FoundFile) : FileInScope env file ↔ FileInScope env' file := by
  have hinputs' : NoPatternIsFile env'.discovery.toDiscoveryEnvironment env'.inputPaths := by
    unfold NoPatternIsFile at hinputs ⊢
    rw [← h.inputPaths, ← h.glob, ← h.fs]
    exact hinputs
  have hpaths : env.inputPaths.flatMap (parallelPaths env.discovery.toDiscoveryEnvironment) =
      env'.inputPaths.flatMap (parallelPaths env'.discovery.toDiscoveryEnvironment) := by
    unfold parallelPaths
    rw [h.inputPaths, h.glob]
  rw [BcDuplicate.fileInScope_iff hinputs, BcDuplicate.fileInScope_iff hinputs', hpaths]
  exact inScope_congr h.fs h.discoveryOptions h.filter h.fnmatch _ file

/-- The duplicates are those of the task. -/
theorem SameTask.duplicates_eq (h : SameTask env env')
    (hinputs : NoPatternIsFile env.discovery.toDiscoveryEnvironment env.inputPaths)
    (content : Identity → Bytes) : duplicateFiles env content = duplicateFiles env' content ∧
      duplicateNames env content = duplicateNames env' content := by
  have hscope : FileInScope env = FileInScope env' :=
    funext fun file => propext (h.fileInScope_iff hinputs file)
  unfold duplicateFiles duplicateNames
  rw [hscope]
  exact ⟨rfl, rfl⟩

end Task

/-- **How a run goes about its task does not show.**  Two runs at rest with one
task, on any numbers of workers, with any walk libraries, schedules, rings,
sorts and hash algorithms that tell the contents apart, report the same files
together; with hardlinks matched and no file found twice, the same names. -/
theorem report_independent {lib lib' : HashLibrary} {reference reference' : HashReference}
    (hlib : lib.Streams reference) (hlib' : lib'.Streams reference')
    (env : ApplicationEnvironment lib) (env' : ApplicationEnvironment lib') (flag flag' : StopFlag)
    (content : Identity → Bytes) (hsame : SameTask env env')
    (hinputs : NoPatternIsFile env.discovery.toDiscoveryEnvironment env.inputPaths)
    (h : env.Undisturbed flag) (h' : env'.Undisturbed flag')
    (hholds : HoldsContent env content) (hholds' : HoldsContent env' content)
    (htells : TellsApart env reference content) (htells' : TellsApart env' reference' content) :
    ∃ discovery discovery' report report', applicationDiscover env flag = some discovery ∧
      applicationDiscover env' flag' = some discovery' ∧
      findings env flag (discovery.entries.map OwnedEntry.entry) = some report ∧
      findings env' flag' (discovery'.entries.map OwnedEntry.entry) = some report' ∧
      (env.options.matchHardlinks = false → reportedBy FileEntry.inode report.duplicates =
        reportedBy FileEntry.inode report'.duplicates) ∧
      (env.options.matchHardlinks = true → FoundOnce env → FoundOnce env' →
        reportedBy (foundFile env.discovery.fs) report.duplicates =
          reportedBy (foundFile env'.discovery.fs) report'.duplicates) := by
  obtain ⟨discovery, _, report, hdiscovered, _, hfound, hcollapsed, hmatched⟩ :=
    exists_classes hlib h hholds htells
  obtain ⟨discovery', _, report', hdiscovered', _, hfound', hcollapsed', hmatched'⟩ :=
    exists_classes hlib' h' hholds' htells'
  obtain ⟨hfiles, hnames⟩ := hsame.duplicates_eq hinputs content
  refine ⟨discovery, discovery', report, report', hdiscovered, hdiscovered', hfound, hfound',
    fun hoption => ?_, fun hoption honce honce' => ?_⟩
  · rw [hcollapsed hoption, hcollapsed' (hsame.matchHardlinks ▸ hoption), hfiles]
  · rw [hmatched hoption honce, hmatched' (hsame.matchHardlinks ▸ hoption) honce', hnames]

/-! ### two copies on two workers -/

/-- The run on two copies, on two workers and with another algorithm. -/
def twoCopiesOnTwo : ApplicationEnvironment .recording :=
  { twoCopiesAtRest with
    options := ⟨.scan, .xxh128, .explicit, .file [114], false⟩
    effectiveWorkerCount := 2 }

theorem sameTask_twoCopies : SameTask twoCopiesAtRest twoCopiesOnTwo :=
  ⟨rfl, rfl, rfl, rfl, rfl, rfl, rfl⟩

theorem noPatternIsFile_twoCopies : NoPatternIsFile
    twoCopiesAtRest.discovery.toDiscoveryEnvironment twoCopiesAtRest.inputPaths := by
  have hliteral : ∀ input ∈ twoCopiesAtRest.inputPaths,
      globContainsMetacharacter input = false := by decide
  rintro input hinput ⟨hmeta, _⟩
  rw [hliteral input hinput] at hmeta
  cases hmeta

theorem undisturbed_twoCopiesOnTwo : twoCopiesOnTwo.Undisturbed .never where
  hasMemoryContext := rfl
  hasParallelContext := rfl
  notInterrupted := rfl
  serial := ⟨fun _ => rfl, fun _ => rfl, fun _ _ => rfl⟩
  parallel _ := twoCopies.undisturbed_run (by decide)
  allocatesEntries := rfl
  pools := rfl
  copies _ _ := Or.inl Copying.moves_memmove
  fast := ⟨fun _ => rfl, rfl, rfl⟩
  full := ⟨⟨fun _ => rfl, fun _ => rfl, fun _ => rfl, rfl, rfl, rfl⟩,
    (undisturbed_full_holding fun _ => [97]).works⟩

theorem holdsContent_twoCopiesOnTwo : HoldsContent twoCopiesOnTwo fun _ => [97] where
  size _ hfile := holdsContent_twoCopiesAtRest.size _
    ((sameTask_twoCopies.fileInScope_iff noPatternIsFile_twoCopies _).mpr hfile)
  fast _ _ _ _ _ := ⟨rfl, rfl, ⟨_, rfl, by decide⟩, ⟨_, rfl, by decide⟩⟩
  full _ _ _ _ _ := ⟨rfl, rfl, nofun, trivial, rfl, ⟨_, rfl, Nat.le_succ _⟩, ⟨_, rfl⟩⟩

/-- One worker and two report the same. -/
theorem report_independent_two_copies : ∃ discovery discovery' report report',
    applicationDiscover twoCopiesAtRest .never = some discovery ∧
    applicationDiscover twoCopiesOnTwo .never = some discovery' ∧
    findings twoCopiesAtRest .never (discovery.entries.map OwnedEntry.entry) = some report ∧
    findings twoCopiesOnTwo .never (discovery'.entries.map OwnedEntry.entry) = some report' ∧
    reportedBy FileEntry.inode report.duplicates =
      reportedBy FileEntry.inode report'.duplicates := by
  obtain ⟨discovery, discovery', report, report', hdiscovered, hdiscovered', hfound, hfound',
    hcollapsed, _⟩ := report_independent streams_recording streams_recording twoCopiesAtRest
      twoCopiesOnTwo .never .never (fun _ => [97]) sameTask_twoCopies noPatternIsFile_twoCopies
      undisturbed_twoCopiesAtRest undisturbed_twoCopiesOnTwo holdsContent_twoCopiesAtRest
      holdsContent_twoCopiesOnTwo (fun _ _ _ _ _ => rfl) (fun _ _ _ _ _ => rfl)
  exact ⟨discovery, discovery', report, report', hdiscovered, hdiscovered', hfound, hfound',
    hcollapsed rfl⟩

end BcDuplicate
