import BcDuplicate.Base.Slots
import BcDuplicate.Throughput.History

/-!
# BcDuplicate.Throughput.Once

Calls that nothing disturbs measure once for each host that takes over the file.

The file at a path is a slot (`Slots`): its owner is the host's signature, and
its value what was measured.  Each call is a request of its host
(`files_eq_slots`), so the host that called last at a path owns the file, and
the constants in it are those of the first call of its streak.
-/

namespace BcDuplicate

/-- A call whose environment refuses nothing. -/
structure UndisturbedCall (numbers : CoreNumbers) extends ThroughputCall where
  path : Bytes
  signature : HostSignature
  measurement : ThroughputConstants
  placed : toThroughputCall.cachePath = some path
  readable : canRead path = true
  identified : throughputCacheReadHostSignature host = some signature
  newlineFree : signature.NewlineFree
  measures : measured = some measurement
  isDouble : measurement.IsDouble
  hasDirectory : throughputCacheEnsureParentDirectory storing path = true
  opens : storing.opens = true
  initialises : storing.output.initialises = true
  delivers : ∀ bytes, (storing.output.deliver bytes).2 = true

/-- The text of a file that was written as a whole. -/
def cacheText (numbers : CoreNumbers) (held : HostSignature × ThroughputConstants) : Bytes :=
  (throughputCacheWrites numbers held.1 held.2).flatten

section Undisturbed

variable {numbers : CoreNumbers} {readLines : Bytes → List Bytes}

/-- What an undisturbed call asks of the file at its path. -/
def UndisturbedCall.request (call : UndisturbedCall numbers) : HostSignature × ThroughputConstants :=
  (call.signature, call.measurement)

/-- The requests to the file at a path, in order. -/
def requestsAt (path : Bytes) (calls : List (UndisturbedCall numbers)) :
    List (HostSignature × ThroughputConstants) :=
  (calls.filter (·.path = path)).map UndisturbedCall.request

/-- An undisturbed call that measures writes its file as a whole. -/
theorem UndisturbedCall.store (call : UndisturbedCall numbers) :
    throughputCacheStore numbers call.storing call.host call.path call.measurement =
      (some (cacheText numbers call.request), call.storing.closes) := by
  have hdelivers := call.delivers (cacheText numbers call.request)
  have hcontent := call.storing.output.complete _ hdelivers
  simp only [cacheText, UndisturbedCall.request] at hcontent hdelivers
  simp only [throughputCacheStore, call.hasDirectory, call.identified, call.opens,
    call.initialises, hcontent, hdelivers, cacheText, UndisturbedCall.request, Bool.true_eq_false,
    if_false, Bool.true_and]

theorem UndisturbedCall.storeMeasured (call : UndisturbedCall numbers) (files : CacheFiles) :
    throughputStoreMeasured numbers call.toThroughputCall call.measurement files =
      Function.update files call.path (some (cacheText numbers call.request)) := by
  simp only [throughputStoreMeasured, call.placed, call.store]

section step

variable (hprints : numbers.Prints) (hreader : ReadsTornLines readLines)
variable (call : UndisturbedCall numbers) {files : CacheFiles}
include hprints hreader

/-- A call of the file's owner returns what is in it. -/
theorem getOrMeasure_of_owner {held : HostSignature × ThroughputConstants}
    (hfile : files call.path = some (cacheText numbers held)) (hnewline : held.1.NewlineFree)
    (hdouble : held.2.IsDouble) (howner : held.1 = call.signature) :
    throughputGetOrMeasure numbers readLines call.toThroughputCall files =
      (files, held.2.reread numbers, true) := by
  have hload : throughputLoadCached numbers readLines call.toThroughputCall files =
      (held.2.reread numbers, true) := by
    simp only [throughputLoadCached, call.placed, call.readable, if_true, hfile, cacheText]
    rw [throughputCacheLoad_written hprints hnewline hdouble hreader, call.identified, howner,
      decide_eq_true rfl]
  simp only [throughputGetOrMeasure, hload, if_true]

/-- A call of anyone else measures, and takes the file. -/
theorem getOrMeasure_of_other {slot : Option (HostSignature × ThroughputConstants)}
    (hfile : files call.path = slot.map (cacheText numbers))
    (hslot : ∀ held, slot = some held → held.1.NewlineFree ∧ held.2.IsDouble)
    (hother : slot.map Prod.fst ≠ some call.signature) :
    throughputGetOrMeasure numbers readLines call.toThroughputCall files =
      (Function.update files call.path (some (cacheText numbers call.request)),
        call.measurement, true) := by
  have hload : (throughputLoadCached numbers readLines call.toThroughputCall files).2 = false := by
    simp only [throughputLoadCached, call.placed, call.readable, if_true, hfile]
    cases slot with
    | none => rfl
    | some held =>
      obtain ⟨hnewline, hdouble⟩ := hslot held rfl
      rw [Option.map_some, cacheText,
        throughputCacheLoad_written hprints hnewline hdouble hreader, call.identified]
      apply decide_eq_false
      intro hsame
      exact hother hsame.symm
  have hnot : ¬(throughputLoadCached numbers readLines call.toThroughputCall files).2 = true := by
    rw [hload]
    decide
  simp only [throughputGetOrMeasure, if_neg hnot, call.measures, call.storeMeasured]

end step

/-! ## calls one after another -/

theorem requestsAt_concat (path : Bytes) (calls : List (UndisturbedCall numbers))
    (call : UndisturbedCall numbers) :
    requestsAt path (calls ++ [call]) =
      requestsAt path calls ++ if call.path = path then [call.request] else [] := by
  rw [requestsAt, List.filter_append, List.map_append, ← requestsAt]
  by_cases hpath : call.path = path
  · rw [if_pos hpath, List.filter_singleton, decide_eq_true hpath]
    rfl
  · rw [if_neg hpath, List.filter_singleton, decide_eq_false hpath]
    rfl

theorem wellFormed_of_mem_requestsAt {path : Bytes} {calls : List (UndisturbedCall numbers)}
    {held : HostSignature × ThroughputConstants} (hheld : held ∈ requestsAt path calls) :
    held.1.NewlineFree ∧ held.2.IsDouble := by
  obtain ⟨call, _, rfl⟩ := List.mem_map.mp hheld
  exact ⟨call.newlineFree, call.isDouble⟩

/-- **The file at a path is the slot of the requests to it.** -/
theorem files_eq_slots (hprints : numbers.Prints) (hreader : ReadsTornLines readLines)
    (calls : List (UndisturbedCall numbers)) (path : Bytes) :
    throughputFiles numbers readLines (calls.map UndisturbedCall.toThroughputCall) path =
      (Slots.run (requestsAt path calls)).map (cacheText numbers) := by
  induction calls using List.reverseRecOn generalizing path with
  | nil => rfl
  | append_singleton calls call ih =>
    rw [List.map_append, List.map_singleton, throughputFiles_concat, requestsAt_concat]
    have hslot : ∀ held, Slots.run (requestsAt call.path calls) = some held →
        held.1.NewlineFree ∧ held.2.IsDouble :=
      fun held hheld => wellFormed_of_mem_requestsAt (Slots.mem_of_run hheld)
    by_cases howner : (Slots.run (requestsAt call.path calls)).map Prod.fst = some call.signature
    · obtain ⟨held, hheld, hsame⟩ := Option.map_eq_some_iff.mp howner
      obtain ⟨hnewline, hdouble⟩ := hslot held hheld
      have hfile := ih call.path
      rw [hheld, Option.map_some] at hfile
      rw [getOrMeasure_of_owner hprints hreader call hfile hnewline hdouble hsame]
      dsimp only
      rw [ih path]
      by_cases hpath : call.path = path
      · subst hpath
        rw [if_pos rfl, Slots.run_concat, hheld, Slots.step_of_owner hsame]
      · rw [if_neg hpath, List.append_nil]
    · rw [getOrMeasure_of_other hprints hreader call (ih call.path) hslot howner]
      dsimp only
      by_cases hpath : call.path = path
      · subst hpath
        rw [if_pos rfl, Slots.run_concat, Slots.step_of_other howner, Function.update_self]
        rfl
      · rw [if_neg hpath, List.append_nil, Function.update_of_ne (Ne.symm hpath), ih path]

/-- **A host measures once.**  Among undisturbed calls, one whose host called
last at its path returns what the first call of this streak of the host
measured, as it was printed, and writes nothing; one whose path was last called
by another host, or by none, measures itself. -/
theorem throughput_measured_once (hprints : numbers.Prints) (hreader : ReadsTornLines readLines)
    (calls : List (UndisturbedCall numbers)) (call : UndisturbedCall numbers) :
    let files := throughputFiles numbers readLines (calls.map UndisturbedCall.toThroughputCall)
    let earlier := calls.filter (·.path = call.path)
    (∀ before first between, earlier = before ++ first :: between →
      before.getLast?.map UndisturbedCall.signature ≠ some call.signature →
      first.signature = call.signature →
      (∀ other ∈ between, other.signature = call.signature) →
      throughputGetOrMeasure numbers readLines call.toThroughputCall files =
        (files, first.measurement.reread numbers, true)) ∧
    (earlier.getLast?.map UndisturbedCall.signature ≠ some call.signature →
      (throughputGetOrMeasure numbers readLines call.toThroughputCall files).2 =
        (call.measurement, true)) := by
  intro files earlier
  have hfile : files call.path = (Slots.run (earlier.map UndisturbedCall.request)).map
      (cacheText numbers) := files_eq_slots hprints hreader calls call.path
  have howners : ∀ asked : List (UndisturbedCall numbers),
      (asked.map UndisturbedCall.request).getLast?.map Prod.fst =
        asked.getLast?.map UndisturbedCall.signature := by
    intro asked
    rw [List.getLast?_map, Option.map_map]
    rfl
  constructor
  · intro before first between hearlier hbefore hfirst hbetween
    have hstreak : Slots.run (earlier.map UndisturbedCall.request) = some first.request := by
      rw [hearlier, List.map_append, List.map_cons]
      apply Slots.run_streak
      · rw [howners]
        exact fun h => hbefore (h.trans (congrArg some hfirst))
      · exact List.forall_mem_map.mpr fun other hother => (hbetween other hother).trans hfirst.symm
    rw [hstreak] at hfile
    exact getOrMeasure_of_owner hprints hreader call hfile first.newlineFree first.isDouble hfirst
  · intro hother
    have hslot : ∀ held, Slots.run (earlier.map UndisturbedCall.request) = some held →
        held.1.NewlineFree ∧ held.2.IsDouble :=
      fun held hheld => wellFormed_of_mem_requestsAt (Slots.mem_of_run hheld)
    rw [← howners, ← Slots.owner_run] at hother
    rw [getOrMeasure_of_other hprints hreader call hfile hslot hother]

end Undisturbed

/-- The concrete call, which nothing disturbs. -/
def undisturbedCall : UndisturbedCall plainNumbers where
  toThroughputCall := storingCall
  path := Json.ascii "/home/a/.cache/bc-duplicate/throughput.txt"
  signature := separatorSignature
  measurement := measuredConstants
  placed := by decide
  readable := rfl
  identified := by decide
  newlineFree := by decide
  measures := rfl
  isDouble := measuredConstants_isDouble
  hasDirectory := by decide
  opens := rfl
  initialises := rfl
  delivers := fun _ => rfl

theorem throughput_measured_once_twice :
    (throughputGetOrMeasure plainNumbers (Lines.readLines newline) storingCall
      (throughputFiles plainNumbers (Lines.readLines newline) [storingCall])).2 =
        (measuredConstants.reread plainNumbers, true) ∧
    (throughputGetOrMeasure plainNumbers (Lines.readLines newline) storingCall
      (throughputFiles plainNumbers (Lines.readLines newline) [])).2 =
        (measuredConstants, true) := by
  have hagain := throughput_measured_once plainNumbers_prints readsTornLines_readLines
    [undisturbedCall] undisturbedCall
  have hfirst := throughput_measured_once plainNumbers_prints readsTornLines_readLines
    [] undisturbedCall
  constructor
  · exact congrArg Prod.snd (hagain.1 [] undisturbedCall [] (by rfl) (by decide) rfl
      (List.forall_mem_nil _))
  · exact hfirst.2 (by decide)

end BcDuplicate
