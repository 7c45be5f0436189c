import BcDuplicate.Throughput.Cache
import Mathlib.Data.Rat.Floor

/-!
# BcDuplicate.Throughput.Torn

What is loaded from a file whose writing was cut short.

Writing can stop anywhere, and then the file has some lines as a whole and the
start of the next (`Lines.exists_of_prefix_writeLines`).  The start of a line is
skipped, or sets what the line would have set (`throughputCacheLoadLine_start`).
The cost of a file is the last of the lines, so without it the load fails
(`not_perFileCostOk`), and with it only this one number can have been cut
(`cutFrom_of_load`).
-/

namespace BcDuplicate

open Json (ascii)
open Lines (writeLines)

/-! ## what is relied on -/

/-- `DBL_MAX` -/
@[irreducible] def largestDouble : Nat := 2 ^ 1024 - 2 ^ 971

/-- A number in the range of a `double`. -/
def IsDouble (x : ℚ) : Prop := |x| ≤ largestDouble

def ThroughputConstants.IsDouble (constants : ThroughputConstants) : Prop :=
  BcDuplicate.IsDouble constants.xxh3GigabytesPerSecond ∧
  BcDuplicate.IsDouble constants.xxh128GigabytesPerSecond ∧
  BcDuplicate.IsDouble constants.sha256GigabytesPerSecond ∧
  BcDuplicate.IsDouble constants.memoryBandwidthGigabytesPerSecond ∧
  BcDuplicate.IsDouble constants.parallelStartupOverheadMicroseconds ∧
  BcDuplicate.IsDouble constants.perFileCostWarmMicroseconds

/-- What is read of a number that was printed; printing may round. -/
def CoreNumbers.reread (numbers : CoreNumbers) (x : ℚ) : ℚ :=
  (numbers.strtod (numbers.writeDouble x 6)).getD x

/-- A `double` is printed as a short text without line ends, which is read as
some number. -/
structure CoreNumbers.Prints (numbers : CoreNumbers) : Prop where
  storable : ∀ x, IsDouble x → StorableValue (numbers.writeDouble x 6)
  strtod : ∀ x, IsDouble x → (numbers.strtod (numbers.writeDouble x 6)).isSome

/-- The line reader returns written lines that fit its buffer; what follows the
last newline it may return as a line. -/
def ReadsTornLines (readLines : Bytes → List Bytes) : Prop :=
  ∀ (lines : List Bytes) (rest : Bytes),
    (∀ line ∈ lines, newline ∉ line ∧ line.length < throughputCacheLineCapacity) →
    newline ∉ rest ∧ rest.length < throughputCacheLineCapacity →
      readLines (writeLines newline lines ++ rest) = lines ∨
        rest ≠ [] ∧ readLines (writeLines newline lines ++ rest) = lines ++ [rest]

theorem ReadsTornLines.readsLines {readLines : Bytes → List Bytes}
    (hreader : ReadsTornLines readLines) : ReadsLines readLines := by
  intro lines hlines
  have hread := hreader lines [] hlines ⟨List.not_mem_nil, by decide⟩
  rw [List.append_nil] at hread
  obtain hread | ⟨hne, _⟩ := hread
  · exact hread
  · exact absurd rfl hne

/-! ## the lines before the last -/

/-- The entries but the last. -/
def throughputCacheFirstEntries (numbers : CoreNumbers) (signature : HostSignature)
    (constants : ThroughputConstants) : List (Bytes × Bytes) :=
  (throughputCacheEntries numbers signature constants).dropLast

/-- The key of the last entry. -/
def perFileCostKey : Bytes := ascii "per_file_cost_us"

theorem throughputCacheEntries_eq (numbers : CoreNumbers) (signature : HostSignature)
    (constants : ThroughputConstants) :
    throughputCacheEntries numbers signature constants =
      throughputCacheFirstEntries numbers signature constants ++
        [(perFileCostKey, numbers.writeDouble constants.perFileCostWarmMicroseconds 6)] :=
  rfl

theorem ne_perFileCostKey_of_mem {numbers : CoreNumbers} {signature : HostSignature}
    {constants : ThroughputConstants} {entry : Bytes × Bytes}
    (hentry : entry ∈ throughputCacheFirstEntries numbers signature constants) :
    entry.1 ≠ perFileCostKey := by
  have hkeys : ∀ key ∈ (throughputCacheFirstEntries numbers signature constants).map Prod.fst,
      key ≠ perFileCostKey := by
    have hmap : (throughputCacheFirstEntries numbers signature constants).map Prod.fst =
        [ascii "cpu_model", ascii "microcode", ascii "kernel_version", ascii "xxh3_gbps",
          ascii "xxh128_gbps", ascii "sha256_gbps", ascii "mem_bw_gbps",
          ascii "parallel_startup_us"] := rfl
    rw [hmap]
    decide
  exact hkeys entry.1 (List.mem_map_of_mem hentry)

theorem throughputCacheLoadEntry_perFileCostOk (numbers : CoreNumbers) (read : ThroughputCacheRead)
    {key : Bytes} (hkey : key ≠ perFileCostKey) (value : Bytes) :
    (throughputCacheLoadEntry numbers read key value).perFileCostOk = read.perFileCostOk := by
  have hcost : ¬key = ascii "per_file_cost_us" := hkey
  unfold throughputCacheLoadEntry
  rw [if_neg hcost]
  split_ifs <;> rfl

/-! ## the start of a line -/

theorem StorableValue.of_start {value start : Bytes} (hvalue : StorableValue value)
    (hstart : start <+: value) : StorableValue start :=
  ⟨fun h => hvalue.newlineFree (hstart.subset h), fun h => hvalue.noZero (hstart.subset h),
    hstart.length_le.trans hvalue.fits⟩

/-- **The start of a line is skipped, or is a line with the start of the
value.** -/
theorem throughputCacheLoadLine_start (numbers : CoreNumbers) {key value rest : Bytes}
    (hkey : readableKey key = true) (hrest : rest <+: entryLine (key, value)) :
    (∀ read, throughputCacheLoadLine numbers read rest = read) ∨
      ∃ start, start <+: value ∧ rest = entryLine (key, start) := by
  have hbytes := List.all_eq_true.mp (Bool.and_eq_true_iff.mp hkey).2
  -- a start that ends within the key has no separator
  have hskip : rest <+: key → ∀ read, throughputCacheLoadLine numbers read rest = read := by
    intro hkeyStart read
    have hdrop : rest.dropWhile (· ≠ equalsSign) = [] := by
      rw [List.dropWhile_eq_nil_iff]
      intro b hb
      have := hbytes b (hkeyStart.subset hb)
      simp_all
    rw [throughputCacheLoadLine, hdrop]
    split <;> rfl
  obtain hkeyStart | ⟨more, rfl⟩ :=
    List.prefix_or_prefix_of_prefix hrest (List.prefix_append key (equalsSign :: value))
  · exact Or.inl (hskip hkeyStart)
  · cases more with
    | nil =>
      simp only [List.append_nil] at hskip ⊢
      exact Or.inl (hskip (List.prefix_refl key))
    | cons byte start =>
      right
      have hmore : byte :: start <+: equalsSign :: value :=
        (List.prefix_append_right_inj key).mp hrest
      obtain ⟨rfl, hstart⟩ := List.cons_prefix_cons.mp hmore
      exact ⟨start, hstart, rfl⟩

/-! ## what the reader has seen -/

section printed

variable {numbers : CoreNumbers} (hprints : numbers.Prints)
include hprints

theorem CoreNumbers.Prints.strtod_eq {x : ℚ} (hx : IsDouble x) :
    numbers.strtod (numbers.writeDouble x 6) = some (numbers.reread x) := by
  obtain ⟨y, hy⟩ := Option.isSome_iff_exists.mp (hprints.strtod x hx)
  rw [CoreNumbers.reread, hy, Option.getD_some]

theorem throughputCacheParseDouble_reread {x : ℚ} (hx : IsDouble x) (out : ℚ) :
    throughputCacheParseDouble numbers (numbers.writeDouble x 6) out = (numbers.reread x, true) := by
  rw [throughputCacheParseDouble, cString_eq (hprints.storable x hx).noZero, hprints.strtod_eq hx]

theorem storable_printed {signature : HostSignature} (hnewline : signature.NewlineFree)
    {constants : ThroughputConstants} (hdouble : constants.IsDouble) :
    ∀ entry ∈ throughputCacheEntries numbers signature constants, StorableValue entry.2 := by
  obtain ⟨hcpu, hmicrocode, hkernel⟩ := hnewline
  obtain ⟨hxxh3, hxxh128, hsha256, hmemory, hstartup, hfile⟩ := hdouble
  have hprinted := hprints.storable
  simp only [throughputCacheEntries, List.forall_mem_cons]
  exact ⟨SignatureString.storable hcpu, SignatureString.storable hmicrocode,
    SignatureString.storable hkernel, hprinted _ hxxh3, hprinted _ hxxh128, hprinted _ hsha256,
    hprinted _ hmemory, hprinted _ hstartup, hprinted _ hfile, List.forall_mem_nil _⟩

end printed

/-- The branches taken for the first entries, and for the last with any value. -/
theorem foldl_throughputCacheLoadEntry_ending (numbers : CoreNumbers) (signature : HostSignature)
    (constants : ThroughputConstants) (cost : Bytes) (read : ThroughputCacheRead) :
    (throughputCacheFirstEntries numbers signature constants ++ [(perFileCostKey, cost)]).foldl
        (fun read entry => throughputCacheLoadEntry numbers read entry.1 entry.2) read =
      let parsed (member : ThroughputConstants → ℚ) : ℚ × Bool :=
        throughputCacheParseDouble numbers (numbers.writeDouble (member constants) 6)
          (member read.constants)
      let parsedCost :=
        throughputCacheParseDouble numbers cost read.constants.perFileCostWarmMicroseconds
      ⟨⟨(parsed ThroughputConstants.xxh3GigabytesPerSecond).1,
          (parsed ThroughputConstants.xxh128GigabytesPerSecond).1,
          (parsed ThroughputConstants.sha256GigabytesPerSecond).1,
          (parsed ThroughputConstants.memoryBandwidthGigabytesPerSecond).1,
          (parsed ThroughputConstants.parallelStartupOverheadMicroseconds).1, parsedCost.1⟩,
        .copy signature.cpuModel.bytes, .copy signature.microcode.bytes,
        .copy signature.kernelVersion.bytes,
        (parsed ThroughputConstants.xxh3GigabytesPerSecond).2,
        (parsed ThroughputConstants.xxh128GigabytesPerSecond).2,
        (parsed ThroughputConstants.sha256GigabytesPerSecond).2,
        (parsed ThroughputConstants.memoryBandwidthGigabytesPerSecond).2,
        (parsed ThroughputConstants.parallelStartupOverheadMicroseconds).2, parsedCost.2⟩ :=
  rfl

/-- What is left to decide once every line is read. -/
theorem throughputCacheLoad_of_read {numbers : CoreNumbers} {readLines : Bytes → List Bytes}
    {bytes : Bytes} {out loaded : ThroughputConstants} {signature : HostSignature} {costOk : Bool}
    (hread : (readLines bytes).foldl (throughputCacheLoadLine numbers) (.initial out) =
      ⟨loaded, signature.cpuModel, signature.microcode, signature.kernelVersion,
        true, true, true, true, true, costOk⟩) (host : Host) :
    throughputCacheLoad numbers readLines host (some bytes) out =
      (loaded, costOk && decide (throughputCacheReadHostSignature host = some signature)) := by
  simp only [throughputCacheLoad, hread]
  cases costOk with
  | false => rfl
  | true =>
    cases hhost : throughputCacheReadHostSignature host with
    | none => rfl
    | some current =>
      have hiff : some current = some signature ↔ signature.cpuModel = current.cpuModel ∧
          signature.microcode = current.microcode ∧
          signature.kernelVersion = current.kernelVersion := by
        rw [Option.some_inj, HostSignature.ext_iff]
        simp only [eq_comm]
      simp only [hiff]
      by_cases hcpu : signature.cpuModel = current.cpuModel
      · by_cases hmicrocode : signature.microcode = current.microcode
        · by_cases hkernel : signature.kernelVersion = current.kernelVersion <;>
            simp [hcpu, hmicrocode, hkernel]
        · simp [hcpu, hmicrocode]
      · simp [hcpu]

theorem throughputCacheLoad_of_not_perFileCostOk {numbers : CoreNumbers}
    {readLines : Bytes → List Bytes} {bytes : Bytes} {out : ThroughputConstants}
    (hread : ((readLines bytes).foldl (throughputCacheLoadLine numbers)
      (.initial out)).perFileCostOk = false) (host : Host) :
    (throughputCacheLoad numbers readLines host (some bytes) out).2 = false := by
  simp [throughputCacheLoad, hread]

/-! ## loading what was cut short -/

/-- What is read of constants that were printed. -/
def ThroughputConstants.reread (numbers : CoreNumbers) (constants : ThroughputConstants) :
    ThroughputConstants where
  xxh3GigabytesPerSecond := numbers.reread constants.xxh3GigabytesPerSecond
  xxh128GigabytesPerSecond := numbers.reread constants.xxh128GigabytesPerSecond
  sha256GigabytesPerSecond := numbers.reread constants.sha256GigabytesPerSecond
  memoryBandwidthGigabytesPerSecond := numbers.reread constants.memoryBandwidthGigabytesPerSecond
  parallelStartupOverheadMicroseconds :=
    numbers.reread constants.parallelStartupOverheadMicroseconds
  perFileCostWarmMicroseconds := numbers.reread constants.perFileCostWarmMicroseconds

/-- The constants read when only the last number may have been cut. -/
structure ThroughputConstants.CutFrom (numbers : CoreNumbers)
    (constants loaded : ThroughputConstants) : Prop where
  others : loaded = { constants.reread numbers with
    perFileCostWarmMicroseconds := loaded.perFileCostWarmMicroseconds }
  cost : ∃ start, start <+: numbers.writeDouble constants.perFileCostWarmMicroseconds 6 ∧
    numbers.strtod start = some loaded.perFileCostWarmMicroseconds

section torn

variable {numbers : CoreNumbers} (hprints : numbers.Prints)
variable {signature : HostSignature} (hnewline : signature.NewlineFree)
variable {constants : ThroughputConstants} (hdouble : constants.IsDouble)
include hprints hnewline hdouble

/-- Without the last line the cost of a file stays unread. -/
theorem not_perFileCostOk {lines : List Bytes}
    (hlines : ∀ line ∈ lines,
      ∃ entry ∈ throughputCacheFirstEntries numbers signature constants, line <+: entryLine entry)
    (read : ThroughputCacheRead) :
    (lines.foldl (throughputCacheLoadLine numbers) read).perFileCostOk = read.perFileCostOk := by
  induction lines generalizing read with
  | nil => rfl
  | cons line lines ih =>
    obtain ⟨⟨entry, hentry, hline⟩, hlines⟩ := List.forall_mem_cons.mp hlines
    have hmem := List.dropLast_subset _ hentry
    have hkey := readableKey_of_mem hmem
    rw [List.foldl_cons, ih hlines]
    obtain hskip | ⟨start, hstart, rfl⟩ := throughputCacheLoadLine_start numbers hkey hline
    · rw [hskip]
    · have hvalue := (storable_printed hprints hnewline hdouble entry hmem).of_start hstart
      rw [throughputCacheLoadLine_entry numbers read hkey hvalue,
        throughputCacheLoadEntry_perFileCostOk numbers read (ne_perFileCostKey_of_mem hentry)]

/-- Reading the first lines and the start of the last. -/
theorem throughputCacheRead_ending {cost : Bytes}
    (hcost : cost <+: numbers.writeDouble constants.perFileCostWarmMicroseconds 6)
    (read : ThroughputCacheRead) :
    ((throughputCacheFirstEntries numbers signature constants ++ [(perFileCostKey, cost)]).map
        entryLine).foldl (throughputCacheLoadLine numbers) read =
      ⟨{ constants.reread numbers with
          perFileCostWarmMicroseconds := (throughputCacheParseDouble numbers cost
            read.constants.perFileCostWarmMicroseconds).1 },
        signature.cpuModel, signature.microcode, signature.kernelVersion, true, true, true, true,
        true, (throughputCacheParseDouble numbers cost
          read.constants.perFileCostWarmMicroseconds).2⟩ := by
  have hstorable := storable_printed hprints hnewline hdouble
  have hlines : ∀ read, ∀ entry ∈ throughputCacheFirstEntries numbers signature constants ++
      [(perFileCostKey, cost)], throughputCacheLoadLine numbers read (entryLine entry) =
        throughputCacheLoadEntry numbers read entry.1 entry.2 := by
    intro read entry hentry
    obtain hfirst | hlast := List.mem_append.mp hentry
    · have hmem := List.dropLast_subset _ hfirst
      exact throughputCacheLoadLine_entry numbers read (readableKey_of_mem hmem)
        (hstorable entry hmem)
    · obtain rfl := List.mem_singleton.mp hlast
      have hvalue := (hprints.storable _ hdouble.2.2.2.2.2).of_start hcost
      exact throughputCacheLoadLine_entry numbers read (by decide) hvalue
  obtain ⟨hxxh3, hxxh128, hsha256, hmemory, hstartup, hfile⟩ := hdouble
  rw [List.foldl_map, List.foldl_ext _ _ read hlines, foldl_throughputCacheLoadEntry_ending]
  simp only [SignatureString.copy_bytes, throughputCacheParseDouble_reread hprints, hxxh3,
    hxxh128, hsha256, hmemory, hstartup, ThroughputConstants.reread]

theorem fits_written :
    ∀ line ∈ (throughputCacheEntries numbers signature constants).map entryLine,
      newline ∉ line ∧ line.length < throughputCacheLineCapacity := by
  have hstorable := storable_printed hprints hnewline hdouble
  intro line hline
  obtain ⟨entry, hentry, rfl⟩ := List.mem_map.mp hline
  exact fits_entryLine (readableKey_of_mem hentry) (hstorable entry hentry)

/-- **A file that was written as a whole loads exactly on its host**, as the
numbers it was printed with are read. -/
theorem throughputCacheLoad_written {readLines : Bytes → List Bytes}
    (hreader : ReadsTornLines readLines) (host : Host) (out : ThroughputConstants) :
    throughputCacheLoad numbers readLines host
        (some (throughputCacheWrites numbers signature constants).flatten) out =
      (constants.reread numbers,
        decide (throughputCacheReadHostSignature host = some signature)) := by
  have hlines : readLines (throughputCacheWrites numbers signature constants).flatten =
      (throughputCacheEntries numbers signature constants).map entryLine := by
    rw [flatten_throughputCacheWrites]
    exact hreader.readsLines _ (fits_written hprints hnewline hdouble)
  have hread := throughputCacheRead_ending hprints hnewline hdouble (List.prefix_refl _)
    (.initial out)
  rw [← throughputCacheEntries_eq, ← hlines,
    throughputCacheParseDouble_reread hprints hdouble.2.2.2.2.2] at hread
  exact (throughputCacheLoad_of_read hread host).trans (by rw [Bool.true_and]; rfl)

/-- A load that sees no more than starts of the first lines fails. -/
theorem throughputCacheLoad_first {readLines : Bytes → List Bytes} {content : Bytes}
    (hlines : ∀ line ∈ readLines content,
      ∃ entry ∈ throughputCacheFirstEntries numbers signature constants, line <+: entryLine entry)
    (host : Host) (out : ThroughputConstants) :
    (throughputCacheLoad numbers readLines host (some content) out).2 = false := by
  apply throughputCacheLoad_of_not_perFileCostOk
  rw [not_perFileCostOk hprints hnewline hdouble hlines]
  rfl

/-- A load that sees the first lines and the start of the last. -/
theorem cutFrom_of_load_last {readLines : Bytes → List Bytes} {content rest : Bytes}
    (hrest : rest <+: entryLine
      (perFileCostKey, numbers.writeDouble constants.perFileCostWarmMicroseconds 6))
    (hread : readLines content =
      (throughputCacheFirstEntries numbers signature constants).map entryLine ++ [rest])
    {host : Host} {out loaded : ThroughputConstants}
    (hload : throughputCacheLoad numbers readLines host (some content) out = (loaded, true)) :
    throughputCacheReadHostSignature host = some signature ∧ constants.CutFrom numbers loaded := by
  have hkey : readableKey perFileCostKey = true := by decide
  obtain hskip | ⟨start, hstart, rfl⟩ := throughputCacheLoadLine_start numbers hkey hrest
  · -- the last line had no separator left, and its number is missing
    have hstarts : ∀ line ∈ (throughputCacheFirstEntries numbers signature constants).map entryLine,
        ∃ entry ∈ throughputCacheFirstEntries numbers signature constants,
          line <+: entryLine entry :=
      List.forall_mem_map.mpr fun entry hentry => ⟨entry, hentry, List.prefix_refl _⟩
    have hmissing := not_perFileCostOk hprints hnewline hdouble hstarts (.initial out)
    have hfails : ((readLines content).foldl (throughputCacheLoadLine numbers)
        (.initial out)).perFileCostOk = false := by
      rw [hread, List.foldl_append, List.foldl_cons, List.foldl_nil, hskip, hmissing]
      rfl
    have hfalse := throughputCacheLoad_of_not_perFileCostOk hfails host
    rw [hload] at hfalse
    cases hfalse
  · have hlast := throughputCacheRead_ending hprints hnewline hdouble hstart (.initial out)
    rw [List.map_append, List.map_singleton, ← hread] at hlast
    rw [throughputCacheLoad_of_read hlast host] at hload
    obtain ⟨hconstants, hok⟩ := Prod.mk.inj hload
    obtain ⟨hparsed, hhost⟩ := Bool.and_eq_true_iff.mp hok
    refine ⟨of_decide_eq_true hhost, by rw [← hconstants], start, hstart, ?_⟩
    have hzero := ((hprints.storable _ hdouble.2.2.2.2.2).of_start hstart).noZero
    rw [← hconstants]
    rw [throughputCacheParseDouble, cString_eq hzero] at hparsed ⊢
    cases hstrtod : numbers.strtod start with
    | none =>
      rw [hstrtod] at hparsed
      cases hparsed
    | some parsed => rfl

/-- **What loads of a file that was cut short was written on this host**, and
only the cost of a file can be another number than the one written. -/
theorem cutFrom_of_load {readLines : Bytes → List Bytes} (hreader : ReadsTornLines readLines)
    {content : Bytes} (hcontent : content <+: (throughputCacheWrites numbers signature
      constants).flatten) {host : Host} {out loaded : ThroughputConstants}
    (hload : throughputCacheLoad numbers readLines host (some content) out = (loaded, true)) :
    throughputCacheReadHostSignature host = some signature ∧ constants.CutFrom numbers loaded := by
  have hfits := fits_written hprints hnewline hdouble
  rw [flatten_throughputCacheWrites] at hcontent
  obtain ⟨whole, rest, later, hlines, rfl, hrest⟩ :=
    Lines.exists_of_prefix_writeLines newline hcontent
  have hwhole : ∀ line ∈ whole, newline ∉ line ∧ line.length < throughputCacheLineCapacity :=
    fun line hline => hfits line (hlines ▸ List.mem_append_left later hline)
  have hlater : ∀ line ∈ later, newline ∉ line ∧ line.length < throughputCacheLineCapacity :=
    fun line hline => hfits line (hlines ▸ List.mem_append_right whole hline)
  obtain rfl | ⟨between, last, rfl⟩ := List.eq_nil_or_concat' later
  · -- nothing is missing
    obtain rfl := List.prefix_nil.mp hrest
    rw [List.append_nil] at hlines hload
    rw [← hlines, ← flatten_throughputCacheWrites,
      throughputCacheLoad_written hprints hnewline hdouble hreader] at hload
    obtain ⟨rfl, hhost⟩ := Prod.mk.inj hload
    exact ⟨of_decide_eq_true hhost, rfl, _, List.prefix_refl _,
      hprints.strtod_eq hdouble.2.2.2.2.2⟩
  · rw [throughputCacheEntries_eq, List.map_append, List.map_singleton,
      ← List.append_assoc] at hlines
    obtain ⟨hfirst, hlast⟩ := List.append_inj' hlines rfl
    obtain rfl := (List.cons.inj hlast).1
    have hrestFits : newline ∉ rest ∧ rest.length < throughputCacheLineCapacity := by
      obtain ⟨line, hline, hstart⟩ : ∃ line ∈ between ++ [entryLine (perFileCostKey,
          numbers.writeDouble constants.perFileCostWarmMicroseconds 6)], rest <+: line := by
        cases between with
        | nil => exact ⟨_, List.mem_singleton_self _, hrest⟩
        | cons next between => exact ⟨next, List.mem_cons_self, hrest⟩
      obtain ⟨hnewline, hlength⟩ := hlater line hline
      exact ⟨fun h => hnewline (hstart.subset h), hstart.length_le.trans_lt hlength⟩
    have hstarts : ∀ line ∈ whole ++ between,
        ∃ entry ∈ throughputCacheFirstEntries numbers signature constants,
          line <+: entryLine entry := by
      rw [← hfirst]
      exact List.forall_mem_map.mpr fun entry hentry => ⟨entry, hentry, List.prefix_refl _⟩
    have hwholeStarts := fun line hline => hstarts line (List.mem_append_left between hline)
    -- a reader that sees no more than the first lines leaves the cost unread
    have hfails : ∀ seen, readLines (writeLines newline whole ++ rest) = seen →
        (∀ line ∈ seen, ∃ entry ∈ throughputCacheFirstEntries numbers signature constants,
          line <+: entryLine entry) → False := by
      rintro seen rfl hseen
      have hfalse := throughputCacheLoad_first hprints hnewline hdouble hseen host out
      rw [hload] at hfalse
      cases hfalse
    obtain hread | ⟨_, hread⟩ := hreader whole rest hwhole hrestFits
    · exact (hfails whole hread hwholeStarts).elim
    · cases between with
      | nil =>
        obtain rfl := hfirst.trans (List.append_nil whole)
        exact cutFrom_of_load_last hprints hnewline hdouble hrest hread hload
      | cons next between =>
        have hnext := hstarts next (List.mem_append_right whole List.mem_cons_self)
        obtain ⟨entry, hentry, hline⟩ := hnext
        have hrestStarts : ∀ line ∈ [rest],
            ∃ entry ∈ throughputCacheFirstEntries numbers signature constants,
              line <+: entryLine entry :=
          List.forall_mem_singleton.mpr ⟨entry, hentry, List.IsPrefix.trans hrest hline⟩
        exact (hfails _ hread (List.forall_mem_append.mpr ⟨hwholeStarts, hrestStarts⟩)).elim

end torn

/-! ## a concrete host -/

/-- A difference of powers of two, with the exponents as variables. -/
theorem two_pow_sub_bounds {a b c : Nat} (hab : a ≤ b) (hbc : b < c) :
    2 ^ a ≤ 2 ^ c - 2 ^ b ∧ 2 ^ c - 2 ^ b < 2 ^ c := by
  have hsmall : 2 ^ a ≤ 2 ^ b := Nat.pow_le_pow_right Nat.two_pos hab
  have hlarge : 2 ^ (b + 1) ≤ 2 ^ c := Nat.pow_le_pow_right Nat.two_pos hbc
  have hpos : 0 < 2 ^ b := Nat.pow_pos Nat.two_pos
  rw [Nat.pow_succ] at hlarge
  omega

theorem largestDouble_bounds : 2 ^ 64 ≤ largestDouble ∧ largestDouble < 2 ^ 1024 := by
  unfold largestDouble
  exact two_pow_sub_bounds (by decide) (by decide)

theorem readsTornLines_readLines : ReadsTornLines (Lines.readLines newline) :=
  fun _ _ hlines hrest => Or.inl <|
    Lines.readLines_writeLines_append newline (fun line hline => (hlines line hline).1) hrest.1

/-- The millionths a number is rounded down to. -/
theorem natAbs_millionths_lt {x : ℚ} (hx : IsDouble x) :
    (x.num * 10 ^ 6 / x.den : Int).natAbs < 10 ^ 6 * 2 ^ 1024 := by
  have hfloor : x.num * 10 ^ 6 / x.den = ⌊x * (10 ^ 6 : Nat)⌋ := by
    have hcast : x * (10 ^ 6 : Nat) = ((x.num * 10 ^ 6 : Int) : ℚ) / x.den := by
      rw [Int.cast_mul, mul_div_right_comm, Rat.num_div_den]
      norm_num
    rw [hcast, Rat.floor_intCast_div_natCast]
  obtain ⟨hlow, hhigh⟩ := abs_le.mp hx
  have hpos : (0 : ℚ) < (10 ^ 6 : Nat) := by norm_num
  have hle : ⌊x * (10 ^ 6 : Nat)⌋ ≤ (largestDouble * 10 ^ 6 : Nat) := by
    rw [← Int.cast_le (R := ℚ)]
    refine (Int.floor_le _).trans ?_
    rw [Int.cast_natCast, Nat.cast_mul]
    exact mul_le_mul_of_nonneg_right hhigh hpos.le
  have hge : -((largestDouble * 10 ^ 6 : Nat) : Int) ≤ ⌊x * (10 ^ 6 : Nat)⌋ := by
    rw [Int.le_floor, Int.cast_neg, Int.cast_natCast, Nat.cast_mul, ← neg_mul]
    exact mul_le_mul_of_nonneg_right hlow hpos.le
  have hbound : largestDouble * 10 ^ 6 < 10 ^ 6 * 2 ^ 1024 := by
    rw [Nat.mul_comm]
    exact Nat.mul_lt_mul_of_pos_left largestDouble_bounds.2 (by decide)
  rw [hfloor]
  refine Nat.lt_of_le_of_lt ?_ hbound
  generalize largestDouble * 10 ^ 6 = bound at hle hge
  omega

/-- Every `double` is printed by `plainNumbers` as one of the decimals it reads. -/
theorem plainNumbers_prints : plainNumbers.Prints := by
  have hprint : ∀ x, IsDouble x → ∃ millionths : Int, millionths.natAbs < 10 ^ 6 * 2 ^ 1024 ∧
      plainNumbers.writeDouble x 6 = plainNumbers.writeDouble (mkRat millionths (10 ^ 6)) 6 := by
    intro x hx
    exact ⟨_, natAbs_millionths_lt hx, (Decimals.print_mkRat 6 _).symm⟩
  constructor
  · intro x hx
    obtain ⟨millionths, hrange, hsame⟩ := hprint x hx
    rw [hsame]
    exact storable_writeDouble plainNumbers_exact ⟨millionths, hrange, rfl⟩
  · intro x hx
    obtain ⟨millionths, hrange, hsame⟩ := hprint x hx
    obtain ⟨hwritten, hread⟩ := plainNumbers_exact millionths hrange
    rw [hsame, hwritten, hread, Option.isSome_some]

theorem isDouble_mkRat {millionths : Nat} (hlt : millionths < 2 ^ 64) :
    IsDouble (mkRat millionths (10 ^ 6)) := by
  have hvalue : mkRat millionths (10 ^ 6) = (millionths : ℚ) / (10 ^ 6 : Nat) := by
    rw [Rat.mkRat_eq_div, Int.cast_natCast]
  have hnonneg : (0 : ℚ) ≤ (millionths : ℚ) / (10 ^ 6 : Nat) := by positivity
  rw [IsDouble, hvalue, abs_of_nonneg hnonneg]
  have hone : (1 : ℚ) ≤ (10 ^ 6 : Nat) := by norm_num
  exact (div_le_self (Nat.cast_nonneg millionths) hone).trans
    (Nat.cast_le.mpr (hlt.le.trans largestDouble_bounds.1))

theorem measuredConstants_isDouble : measuredConstants.IsDouble :=
  ⟨isDouble_mkRat (by decide), isDouble_mkRat (by decide), isDouble_mkRat (by decide),
    isDouble_mkRat (by decide), isDouble_mkRat (by decide), isDouble_mkRat (by decide)⟩

end BcDuplicate
