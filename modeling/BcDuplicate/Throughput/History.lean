import BcDuplicate.Throughput.Torn

/-!
# BcDuplicate.Throughput.History

What a run takes from the runs before it.

Calls of `bc_duplicate_throughput_get_or_measure` follow each other, each on its
own host and with its own environment, and any of them can be cut off while it
writes.  What is in a file was written by one of the calls
(`exists_source_of_file`), so the constants a call returns are its own or an
earlier call's on a host with the same signature.
-/

namespace BcDuplicate

/-! ## the calls -/

/-- The host's answers are read line by line, and no line has a newline. -/
structure Host.NewlineFree (host : Host) : Prop where
  cpuinfo : ∀ lines, host.cpuinfo = some lines → ∀ line ∈ lines, newline ∉ line
  release : ∀ release, host.release = some release → newline ∉ release

/-- A call whose writes, when they fail, leave the start of what was written. -/
structure ThroughputCall.Regular (call : ThroughputCall) : Prop where
  host : call.host.NewlineFree
  measured : ∀ measured, call.measured = some measured → measured.IsDouble
  cut : ∀ bytes, (call.storing.output.deliver bytes).1 <+: bytes

section Calls

variable (numbers : CoreNumbers) (readLines : Bytes → List Bytes)

/-- The files behind calls one after another, when there are none before. -/
def throughputFiles (calls : List ThroughputCall) : CacheFiles :=
  calls.foldl (fun files call => (throughputGetOrMeasure numbers readLines call files).1)
    fun _ => none

/-- The call, after those before it, measured the constants and returned them. -/
def MeasuredBy (calls : List ThroughputCall) (source : ThroughputCall)
    (measured : ThroughputConstants) : Prop :=
  ∃ before later, calls = before ++ source :: later ∧ source.measured = some measured ∧
    (throughputGetOrMeasure numbers readLines source
      (throughputFiles numbers readLines before)).2 = (measured, true)

theorem throughputFiles_concat (calls : List ThroughputCall) (call : ThroughputCall) :
    throughputFiles numbers readLines (calls ++ [call]) =
      (throughputGetOrMeasure numbers readLines call
        (throughputFiles numbers readLines calls)).1 := by
  rw [throughputFiles, List.foldl_append]
  rfl

end Calls

/-! ## signatures -/

theorem newline_notMem_copy {bytes : Bytes} (h : newline ∉ bytes) :
    newline ∉ (SignatureString.copy bytes).bytes := by
  intro hmem
  exact h (List.take_subset _ _ (List.takeWhile_subset _ hmem))

theorem newline_notMem_cpuinfoValue {fieldName line value : Bytes} (hline : newline ∉ line)
    (hvalue : cpuinfoValue fieldName line = some value) : newline ∉ value := by
  have hdrop : ∀ b ∈ (line.drop fieldName.length).dropWhile isBlank, b ∈ line :=
    fun b hb => List.drop_subset _ _ (List.dropWhile_subset _ hb)
  unfold cpuinfoValue at hvalue
  split at hvalue
  · cases hvalue
  · split at hvalue
    · cases hvalue
    · split at hvalue
      · next byte rest hrest =>
        split at hvalue
        · obtain rfl := Option.some.inj hvalue
          intro hmem
          have hrestMem : newline ∈ byte :: rest :=
            List.mem_cons_of_mem byte (List.dropWhile_subset _ hmem)
          exact hline (hdrop newline (hrest ▸ hrestMem))
        · cases hvalue
      · cases hvalue

theorem newline_notMem_cpuinfoField {host : Host} (hhost : host.NewlineFree) {fieldName : Bytes}
    {value : SignatureString}
    (hvalue : throughputCacheReadCpuinfoField host fieldName = some value) :
    newline ∉ value.bytes := by
  obtain ⟨lines, hlines, hcopied⟩ := Option.bind_eq_some_iff.mp hvalue
  obtain ⟨found, hfound, rfl⟩ := Option.map_eq_some_iff.mp hcopied
  obtain ⟨line, hline, hline_value⟩ := List.exists_of_findSome?_eq_some hfound
  exact newline_notMem_copy
    (newline_notMem_cpuinfoValue (hhost.cpuinfo lines hlines line hline) hline_value)

theorem Host.NewlineFree.signature {host : Host} (hhost : host.NewlineFree)
    {signature : HostSignature} (hsignature : throughputCacheReadHostSignature host = some signature) :
    signature.NewlineFree := by
  unfold throughputCacheReadHostSignature at hsignature
  cases hcpu : throughputCacheReadCpuinfoField host (Json.ascii "model name") with
  | none =>
    rw [hcpu] at hsignature
    cases hsignature
  | some cpuModel =>
    rw [hcpu] at hsignature
    cases hrelease : host.release with
    | none =>
      rw [hrelease] at hsignature
      cases hsignature
    | some release =>
      rw [hrelease] at hsignature
      obtain rfl := Option.some.inj hsignature
      refine ⟨newline_notMem_cpuinfoField hhost hcpu, ?_,
        newline_notMem_copy (hhost.release release hrelease)⟩
      cases hmicrocode : throughputCacheReadCpuinfoField host (Json.ascii "microcode") with
      | none => exact newline_notMem_copy List.not_mem_nil
      | some microcode => exact newline_notMem_cpuinfoField hhost hmicrocode

/-! ## what a call writes -/

/-- What is in the file behind a store that opened it. -/
theorem throughputCacheStore_file {numbers : CoreNumbers} {env : ThroughputCacheEnvironment}
    (hcut : ∀ bytes, (env.output.deliver bytes).1 <+: bytes) {host : Host} {path content : Bytes}
    {constants : ThroughputConstants}
    (hstore : (throughputCacheStore numbers env host path constants).1 = some content) :
    ∃ signature, throughputCacheReadHostSignature host = some signature ∧
      content <+: (throughputCacheWrites numbers signature constants).flatten := by
  unfold throughputCacheStore at hstore
  split at hstore
  · cases hstore
  · cases hhost : throughputCacheReadHostSignature host with
    | none =>
      rw [hhost] at hstore
      cases hstore
    | some signature =>
      simp only [hhost] at hstore
      refine ⟨signature, rfl, ?_⟩
      split at hstore
      · cases hstore
      · split at hstore
        · obtain rfl := Option.some.inj hstore
          exact List.nil_prefix
        · obtain rfl := Option.some.inj hstore
          exact hcut _

section Runs

variable {numbers : CoreNumbers} {readLines : Bytes → List Bytes}

/-- A call that returns constants returns the ones of the file, or measured
them and stored them. -/
theorem throughputGetOrMeasure_cases (numbers : CoreNumbers) (readLines : Bytes → List Bytes)
    (call : ThroughputCall) (files : CacheFiles) :
    (∃ path, call.cachePath = some path ∧
      (throughputCacheLoad numbers readLines call.host
        (if call.canRead path then files path else none) call.uninitialised).2 = true ∧
      throughputGetOrMeasure numbers readLines call files =
        (files, (throughputCacheLoad numbers readLines call.host
          (if call.canRead path then files path else none) call.uninitialised).1, true)) ∨
    (∃ measured, call.measured = some measured ∧
      throughputGetOrMeasure numbers readLines call files =
        (throughputStoreMeasured numbers call measured files, measured, true)) ∨
    ∃ loaded, throughputGetOrMeasure numbers readLines call files = (files, loaded, false) := by
  unfold throughputGetOrMeasure throughputLoadCached
  cases hpath : call.cachePath with
  | none =>
    cases hmeasured : call.measured with
    | none => exact Or.inr (Or.inr ⟨_, rfl⟩)
    | some measured => exact Or.inr (Or.inl ⟨measured, rfl, rfl⟩)
  | some path =>
    dsimp only
    by_cases hok : (throughputCacheLoad numbers readLines call.host
        (if call.canRead path then files path else none) call.uninitialised).2 = true
    · rw [if_pos hok]
      exact Or.inl ⟨path, rfl, hok, rfl⟩
    · rw [if_neg hok]
      cases hmeasured : call.measured with
      | none => exact Or.inr (Or.inr ⟨_, rfl⟩)
      | some measured => exact Or.inr (Or.inl ⟨measured, rfl, rfl⟩)

/-- The call that wrote a file: it measured what it wrote, and as much of it is
there as the writer delivered. -/
structure SourceOf (numbers : CoreNumbers) (source : ThroughputCall) (path content : Bytes)
    (signature : HostSignature) (measured : ThroughputConstants) : Prop where
  placed : source.cachePath = some path
  host : throughputCacheReadHostSignature source.host = some signature
  measures : source.measured = some measured
  cut : content <+: (throughputCacheWrites numbers signature measured).flatten
  whole : (throughputCacheStore numbers source.storing source.host path measured).2 = true →
    content = (throughputCacheWrites numbers signature measured).flatten

/-- What one call leaves at a path was there before, or the call wrote it. -/
theorem source_of_call {call : ThroughputCall} (hcall : call.Regular) {files : CacheFiles}
    {path content : Bytes}
    (hcontent : (throughputGetOrMeasure numbers readLines call files).1 path = some content) :
    files path = some content ∨
      ∃ signature measured, SourceOf numbers call path content signature measured ∧
        (throughputGetOrMeasure numbers readLines call files).2 = (measured, true) := by
  obtain ⟨_, _, _, hresult⟩ | ⟨measured, hmeasured, hresult⟩ | ⟨_, hresult⟩ :=
    throughputGetOrMeasure_cases numbers readLines call files
  · rw [hresult] at hcontent
    exact Or.inl hcontent
  · rw [hresult] at hcontent
    unfold throughputStoreMeasured at hcontent
    cases hpath : call.cachePath with
    | none =>
      rw [hpath] at hcontent
      exact Or.inl hcontent
    | some cachePath =>
      simp only [hpath] at hcontent
      cases hstored : (throughputCacheStore numbers call.storing call.host cachePath measured).1 with
      | none =>
        rw [hstored] at hcontent
        exact Or.inl hcontent
      | some written =>
        simp only [hstored] at hcontent
        by_cases hsame : path = cachePath
        · subst hsame
          rw [Function.update_self] at hcontent
          obtain rfl := Option.some.inj hcontent
          obtain ⟨signature, hhost, hcut⟩ := throughputCacheStore_file hcall.cut hstored
          refine Or.inr ⟨signature, measured, ⟨hpath, hhost, hmeasured, hcut, fun hok => ?_⟩,
            congrArg Prod.snd hresult⟩
          obtain ⟨signature', hhost', hwhole⟩ :=
            throughputCacheStore_content (Prod.ext hstored hok)
          rw [hhost] at hhost'
          obtain rfl := Option.some.inj hhost'
          exact hwhole
        · rw [Function.update_of_ne hsame] at hcontent
          exact Or.inl hcontent
  · rw [hresult] at hcontent
    exact Or.inl hcontent

/-- **What is in a file was written by one of the calls**, which had measured
it. -/
theorem exists_source_of_file {calls : List ThroughputCall} (hcalls : ∀ call ∈ calls, call.Regular)
    {path content : Bytes}
    (hcontent : throughputFiles numbers readLines calls path = some content) :
    ∃ source ∈ calls, ∃ signature measured,
      SourceOf numbers source path content signature measured ∧
        MeasuredBy numbers readLines calls source measured := by
  induction calls using List.reverseRecOn with
  | nil => cases hcontent
  | append_singleton calls call ih =>
    obtain ⟨hbefore, hcall⟩ := List.forall_mem_append.mp hcalls
    rw [throughputFiles_concat] at hcontent
    obtain hold | hnew := source_of_call (hcall call (List.mem_singleton_self call)) hcontent
    · obtain ⟨source, hsource, signature, measured, hfound, before, later, rfl, hreturned⟩ :=
        ih hbefore hold
      refine ⟨source, List.mem_append_left [call] hsource, signature, measured, hfound, before,
        later ++ [call], ?_, hreturned⟩
      rw [List.append_assoc, List.cons_append]
    · obtain ⟨signature, measured, hfound, hreturned⟩ := hnew
      exact ⟨call, List.mem_append_right calls (List.mem_singleton_self call), signature, measured,
        hfound, calls, [], rfl, hfound.measures, hreturned⟩

/-- **The constants a call returns are its own, or those of an earlier call on
the same host.**  Whatever the calls before did and wherever they were cut off,
a call that returns constants has measured them, or an earlier call with the
same path and the same signature has: then they are what was printed, unless
that call was cut off while it wrote the cost of a file, which is then read from
the start of its digits. -/
theorem throughput_of_earlier_call (hprints : numbers.Prints)
    (hreader : ReadsTornLines readLines) {calls : List ThroughputCall}
    (hcalls : ∀ call ∈ calls, call.Regular) (call : ThroughputCall)
    {constants : ThroughputConstants}
    (hresult : (throughputGetOrMeasure numbers readLines call
      (throughputFiles numbers readLines calls)).2 = (constants, true)) :
    call.measured = some constants ∨
      ∃ source ∈ calls, ∃ path measured,
        source.cachePath = some path ∧ call.cachePath = some path ∧
        MeasuredBy numbers readLines calls source measured ∧
        throughputCacheReadHostSignature source.host =
          throughputCacheReadHostSignature call.host ∧
        measured.CutFrom numbers constants ∧
        ((throughputCacheStore numbers source.storing source.host path measured).2 = true →
          constants = measured.reread numbers) := by
  obtain ⟨path, hpath, hok, hcase⟩ | ⟨measured, hmeasured, hcase⟩ | ⟨_, hcase⟩ :=
    throughputGetOrMeasure_cases numbers readLines call (throughputFiles numbers readLines calls)
  · rw [hcase] at hresult
    obtain rfl := (Prod.mk.inj hresult).1
    cases hcontent : (if call.canRead path = true then throughputFiles numbers readLines calls path
        else none) with
    | none =>
      rw [hcontent] at hok
      cases hok
    | some content =>
      have hfile : throughputFiles numbers readLines calls path = some content := by
        split at hcontent
        · exact hcontent
        · cases hcontent
      obtain ⟨source, hsource, signature, measured, hfound, hreturned⟩ :=
        exists_source_of_file hcalls hfile
      have hregular := hcalls source hsource
      have hnewline := hregular.host.signature hfound.host
      have hdouble := hregular.measured measured hfound.measures
      rw [hcontent] at hok
      obtain ⟨hhost, hcut⟩ := cutFrom_of_load hprints hnewline hdouble hreader hfound.cut
        (Prod.ext rfl hok)
      refine Or.inr ⟨source, hsource, path, measured, hfound.placed, hpath, hreturned,
        hfound.host.trans hhost.symm, hcut, fun hstored => ?_⟩
      rw [hfound.whole hstored, throughputCacheLoad_written hprints hnewline hdouble hreader]
  · rw [hcase] at hresult
    obtain rfl := (Prod.mk.inj hresult).1
    exact Or.inl hmeasured
  · rw [hcase] at hresult
    cases (Prod.mk.inj hresult).2

end Runs

/-- A call on the concrete host, which keeps its cache below its home. -/
def storingCall : ThroughputCall where
  environ := ⟨none, some (Json.ascii "/home/a")⟩
  host := separatorHost
  canRead := fun _ => true
  storing := workingCacheEnvironment
  measured := some measuredConstants
  uninitialised := measuredConstants

/-- Such a call later on, which cannot measure. -/
def loadingCall : ThroughputCall := { storingCall with measured := none }

theorem separatorHost_newlineFree : separatorHost.NewlineFree where
  cpuinfo := by
    intro lines hlines
    obtain rfl := Option.some.inj hlines
    decide
  release := by
    intro release hrelease
    obtain rfl := Option.some.inj hrelease
    decide

theorem storingCall_regular : storingCall.Regular where
  host := separatorHost_newlineFree
  measured := by
    intro measured hmeasured
    obtain rfl := Option.some.inj hmeasured
    exact measuredConstants_isDouble
  cut := fun bytes => List.prefix_refl bytes

theorem loadingCall_loads :
    (throughputGetOrMeasure plainNumbers (Lines.readLines newline) loadingCall
      (throughputFiles plainNumbers (Lines.readLines newline) [storingCall])).2 =
        (measuredConstants.reread plainNumbers, true) := by
  have hpath : loadingCall.cachePath =
      some (Json.ascii "/home/a/.cache/bc-duplicate/throughput.txt") := by decide
  have hfile : throughputFiles plainNumbers (Lines.readLines newline) [storingCall]
      (Json.ascii "/home/a/.cache/bc-duplicate/throughput.txt") =
        some (throughputCacheWrites plainNumbers separatorSignature measuredConstants).flatten :=
    rfl
  have hhost : throughputCacheReadHostSignature separatorHost = some separatorSignature := by
    decide
  have hload := throughputCacheLoad_written plainNumbers_prints
    (separatorHost_newlineFree.signature hhost) measuredConstants_isDouble readsTornLines_readLines
    separatorHost measuredConstants
  rw [decide_eq_true hhost] at hload
  have hcached : throughputLoadCached plainNumbers (Lines.readLines newline) loadingCall
      (throughputFiles plainNumbers (Lines.readLines newline) [storingCall]) =
        (measuredConstants.reread plainNumbers, true) := by
    simp only [throughputLoadCached, hpath, hfile]
    exact hload
  simp only [throughputGetOrMeasure, hcached, if_true]

theorem throughput_of_earlier_call_stored :
    loadingCall.measured = some (measuredConstants.reread plainNumbers) ∨
      ∃ source ∈ [storingCall], ∃ path measured,
        source.cachePath = some path ∧ loadingCall.cachePath = some path ∧
        MeasuredBy plainNumbers (Lines.readLines newline) [storingCall] source measured ∧
        throughputCacheReadHostSignature source.host =
          throughputCacheReadHostSignature loadingCall.host ∧
        measured.CutFrom plainNumbers (measuredConstants.reread plainNumbers) ∧
        ((throughputCacheStore plainNumbers source.storing source.host path measured).2 = true →
          measuredConstants.reread plainNumbers = measured.reread plainNumbers) :=
  throughput_of_earlier_call plainNumbers_prints readsTornLines_readLines
    (List.forall_mem_singleton.mpr storingCall_regular) loadingCall loadingCall_loads

end BcDuplicate
