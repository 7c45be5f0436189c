import BcDuplicate.Discovery.Agreement

/-!
# BcDuplicate.Discovery.Scope

The files a discovery is to find, said once for both walks: those among the
paths it is given, and those of the directories that can be reached from the
directories among them.  Undisturbed, either walk finds exactly these
(`FindsScope.mem_iff`), the serial walk each directory once and the parallel
walk each as often as there are inputs it is below.
-/

namespace BcDuplicate

open FileSystem
open Overlap
open Search

section Scope

variable (env : DiscoveryEnvironment) (paths : List Bytes)

/-- The directory can be reached from the directories among the paths. -/
def InWalk (directory : Identity) : Prop :=
  Reached (childrenOf env (rootDeviceOf env paths)) (paths.flatMap (inputRoots env)) directory

/-- The file is to be found: one of the paths names it, or a directory that can
be reached from them holds it. -/
def InScope (file : FoundFile) : Prop :=
  file ∈ paths.flatMap (inputFiles env) ∨
    ∃ directory, InWalk env paths directory ∧ file ∈ filesOf env directory

/-- The entries are the files among the paths and those of these directories,
which are the ones to walk. -/
structure FindsScope (entries : List OwnedEntry) (directories : List Identity) : Prop where
  found : (foundFiles env.fs entries).Perm
    (paths.flatMap (inputFiles env) ++ directories.flatMap (filesOf env))
  walked : ∀ directory, filesOf env directory ≠ [] →
    (directory ∈ directories ↔ InWalk env paths directory)

variable {env paths}

/-- **The files found are the files in scope.** -/
theorem FindsScope.mem_iff {entries : List OwnedEntry} {directories : List Identity}
    (h : FindsScope env paths entries directories) (file : FoundFile) :
    file ∈ foundFiles env.fs entries ↔ InScope env paths file := by
  rw [h.found.mem_iff, List.mem_append, List.mem_flatMap (l := directories)]
  refine or_congr_right (exists_congr fun directory => and_congr_left fun hfile => ?_)
  exact h.walked directory (List.ne_nil_of_mem hfile)

/-- **The serial walk finds what is in scope**, each directory once. -/
theorem exists_serial_findsScope (hquiet : env.Undisturbed) (inputs : List Bytes) :
    ∃ result directories, discoveryExpand env (env.fs.directories.card + 1) inputs = some result ∧
      result.ok = true ∧
      FindsScope env (inputs.flatMap (serialPaths env)) result.entries directories ∧
      (directories.filter fun directory => !(filesOf env directory).isEmpty).Nodup := by
  obtain ⟨result, visited, hdone, hok, hvisited, hfound⟩ :=
    discoveryExpand_found hquiet (Nat.lt_succ_self _) inputs
  exact ⟨result, visited, hdone, hok, ⟨hfound, fun _ _ => hvisited.mem_iff⟩,
    hvisited.nodup_visited.filter _⟩

end Scope

/-- **The parallel walk finds what is in scope**, each directory once exactly
when no directory with files is below two of the inputs. -/
theorem exists_parallel_findsScope {env : ParallelEnvironment} {inputs paths : List Bytes}
    (hpaths : inputs.flatMap (parallelPaths env.toDiscoveryEnvironment) = paths)
    (hquiet : env.Undisturbed paths) :
    ∃ directories, (discoveryExpandParallel env inputs).ok = true ∧
      FindsScope env.toDiscoveryEnvironment paths (discoveryExpandParallel env inputs).entries
        directories ∧
      ((directories.filter fun directory =>
          !(filesOf env.toDiscoveryEnvironment directory).isEmpty).Nodup ↔
        (paths.flatMap (inputRoots env.toDiscoveryEnvironment)).Pairwise
          (ApartRoots env.toDiscoveryEnvironment
            (rootDeviceOf env.toDiscoveryEnvironment paths))) := by
  subst hpaths
  obtain ⟨walks, hok, hwalks, hfound⟩ := discoveryExpandParallel_found hquiet
  refine ⟨walks.flatten, hok, ⟨hfound, fun _ hfiles => hwalks.mem_flatten_iff hfiles⟩, ?_⟩
  rw [nodup_filter_flatten hwalks.nodup, hwalks.pairwise_iff_apartRoots]

end BcDuplicate
