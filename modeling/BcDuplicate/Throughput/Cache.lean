import BcDuplicate.Base.Decimals
import BcDuplicate.Base.Lines
import BcDuplicate.Output.Document
import BcDuplicate.Throughput

/-!
# BcDuplicate.Throughput.Cache

Stored constants come back on the host that stored them.

What is stored is nine lines (`flatten_throughputCacheWrites`), each shorter than the
line the loader can copy, with the key before the first separator
(`throughputCacheLoadLine_entry`).  Reading them sets every variable of the
loader (`throughputCacheRead_stored`), so only the host's signature is left to
decide.
-/

namespace BcDuplicate

open Json (ascii)
open Lines (writeLines)

/-- A `double` with six fractional digits, as a number of millionths. -/
def IsDecimal (x : ℚ) : Prop :=
  ∃ millionths : Int, millionths.natAbs < 10 ^ 6 * 2 ^ 1024 ∧ x = mkRat millionths (10 ^ 6)

/-- Decimals with six fractional digits are printed as such, and read exactly. -/
def CoreNumbers.Exact (numbers : CoreNumbers) : Prop :=
  ∀ millionths : Int, millionths.natAbs < 10 ^ 6 * 2 ^ 1024 →
    numbers.writeDouble (mkRat millionths (10 ^ 6)) 6 = Decimals.text 6 millionths ∧
      numbers.strtod (Decimals.text 6 millionths) = some (mkRat millionths (10 ^ 6))

/-- The line reader returns written lines that fit its buffer. -/
def ReadsLines (readLines : Bytes → List Bytes) : Prop :=
  ∀ lines : List Bytes,
    (∀ line ∈ lines, newline ∉ line ∧ line.length < throughputCacheLineCapacity) →
      readLines (writeLines newline lines) = lines

def ThroughputConstants.Decimal (constants : ThroughputConstants) : Prop :=
  IsDecimal constants.xxh3GigabytesPerSecond ∧ IsDecimal constants.xxh128GigabytesPerSecond ∧
  IsDecimal constants.sha256GigabytesPerSecond ∧
  IsDecimal constants.memoryBandwidthGigabytesPerSecond ∧
  IsDecimal constants.parallelStartupOverheadMicroseconds ∧
  IsDecimal constants.perFileCostWarmMicroseconds

/-- The signature has no newline in it. -/
def HostSignature.NewlineFree (signature : HostSignature) : Prop :=
  newline ∉ signature.cpuModel.bytes ∧ newline ∉ signature.microcode.bytes ∧
    newline ∉ signature.kernelVersion.bytes

instance HostSignature.decidableNewlineFree (signature : HostSignature) :
    Decidable signature.NewlineFree := by
  unfold HostSignature.NewlineFree; infer_instance

/-! ## what is stored -/

/-- The keys and values stored, in order. -/
def throughputCacheEntries (numbers : CoreNumbers) (signature : HostSignature)
    (constants : ThroughputConstants) : List (Bytes × Bytes) :=
  [(ascii "cpu_model", signature.cpuModel.bytes),
    (ascii "microcode", signature.microcode.bytes),
    (ascii "kernel_version", signature.kernelVersion.bytes),
    (ascii "xxh3_gbps", numbers.writeDouble constants.xxh3GigabytesPerSecond 6),
    (ascii "xxh128_gbps", numbers.writeDouble constants.xxh128GigabytesPerSecond 6),
    (ascii "sha256_gbps", numbers.writeDouble constants.sha256GigabytesPerSecond 6),
    (ascii "mem_bw_gbps", numbers.writeDouble constants.memoryBandwidthGigabytesPerSecond 6),
    (ascii "parallel_startup_us",
      numbers.writeDouble constants.parallelStartupOverheadMicroseconds 6),
    (ascii "per_file_cost_us", numbers.writeDouble constants.perFileCostWarmMicroseconds 6)]

def entryLine (entry : Bytes × Bytes) : Bytes := entry.1 ++ equalsSign :: entry.2

theorem flatten_throughputCacheWrites (numbers : CoreNumbers) (signature : HostSignature)
    (constants : ThroughputConstants) :
    (throughputCacheWrites numbers signature constants).flatten =
      writeLines newline ((throughputCacheEntries numbers signature constants).map entryLine) := by
  have hline : ∀ key value rest : Bytes,
      entryLine (key, value) ++ newline :: rest =
        key ++ ([equalsSign] ++ (value ++ ([newline] ++ rest))) :=
    fun key value rest => List.append_assoc key (equalsSign :: value) (newline :: rest)
  have hkeys : ascii "cpu_model=" = ascii "cpu_model" ++ [equalsSign] ∧
      ascii "microcode=" = ascii "microcode" ++ [equalsSign] ∧
      ascii "kernel_version=" = ascii "kernel_version" ++ [equalsSign] ∧
      ascii "xxh3_gbps=" = ascii "xxh3_gbps" ++ [equalsSign] ∧
      ascii "xxh128_gbps=" = ascii "xxh128_gbps" ++ [equalsSign] ∧
      ascii "sha256_gbps=" = ascii "sha256_gbps" ++ [equalsSign] ∧
      ascii "mem_bw_gbps=" = ascii "mem_bw_gbps" ++ [equalsSign] ∧
      ascii "parallel_startup_us=" = ascii "parallel_startup_us" ++ [equalsSign] ∧
      ascii "per_file_cost_us=" = ascii "per_file_cost_us" ++ [equalsSign] := by
    decide
  have hnil : writeLines newline [] = [] := rfl
  simp only [throughputCacheWrites, throughputCacheEntries, List.flatten_cons, List.flatten_nil,
    List.map_cons, List.map_nil, Lines.writeLines_cons, hline, hkeys, hnil, List.append_assoc]

/-- A value that makes a line the loader can read: no newline, no zero byte,
and room for the longest key. -/
structure StorableValue (value : Bytes) : Prop where
  newlineFree : newline ∉ value
  noZero : 0 ∉ value
  fits : value.length ≤ 400

theorem SignatureString.storable {field : SignatureString} (hnewline : newline ∉ field.bytes) :
    StorableValue field.bytes :=
  ⟨hnewline, field.noZero, (Nat.le_of_lt field.fits).trans (by decide)⟩

theorem SignatureString.copy_bytes (field : SignatureString) : .copy field.bytes = field := by
  have htake : field.bytes.take (throughputCacheSignatureCapacity - 1) = field.bytes :=
    List.take_of_length_le (Nat.le_pred_of_lt field.fits)
  ext1
  calc (SignatureString.copy field.bytes).bytes
      = cString (field.bytes.take (throughputCacheSignatureCapacity - 1)) := rfl
    _ = field.bytes := by rw [htake, cString_eq field.noZero]

section numbers

variable {numbers : CoreNumbers} (hnumbers : numbers.Exact)
include hnumbers

/-- A printed decimal is a few hundred bytes at most, and they are digits, a
sign and a point. -/
theorem storable_writeDouble {x : ℚ} (hx : IsDecimal x) :
    StorableValue (numbers.writeDouble x 6) := by
  obtain ⟨millionths, hrange, rfl⟩ := hx
  have hpow : (2 ^ 128) ^ 8 ≤ 10 ^ (39 * 8) := by
    rw [pow_mul]
    exact Nat.pow_le_pow_left (by decide) 8
  have hbound := hrange
  rw [show 1024 = 128 * 8 from rfl, pow_mul] at hbound
  have hlength : (Decimals.text 6 millionths).length ≤ 2 + 39 * 8 + 6 :=
    Decimals.length_text_le (k := 39 * 8) (by decide) (by decide)
      (Nat.lt_of_lt_of_le hbound (Nat.mul_le_mul_left _ hpow))
  have hdigit : ∀ b ∈ Decimals.text 6 millionths, b ≠ newline ∧ b ≠ 0 := by
    intro b hb
    rcases Decimals.mem_text hb with hdigit | rfl | rfl
    · exact ⟨Json.ne_of_isDigit hdigit (by decide), Json.ne_of_isDigit hdigit (by decide)⟩
    · decide
    · decide
  rw [(hnumbers millionths hrange).1]
  exact ⟨fun h => (hdigit _ h).1 rfl, fun h => (hdigit _ h).2 rfl, hlength.trans (by decide)⟩

theorem throughputCacheParseDouble_writeDouble {x : ℚ} (hx : IsDecimal x) (out : ℚ) :
    throughputCacheParseDouble numbers (numbers.writeDouble x 6) out = (x, true) := by
  have hzero := (storable_writeDouble hnumbers hx).noZero
  obtain ⟨millionths, hrange, rfl⟩ := hx
  obtain ⟨hprint, hread⟩ := hnumbers millionths hrange
  rw [throughputCacheParseDouble, cString_eq hzero, hprint, hread]

theorem storable_entries {signature : HostSignature} (hnewline : signature.NewlineFree)
    {constants : ThroughputConstants} (hconstants : constants.Decimal) :
    ∀ entry ∈ throughputCacheEntries numbers signature constants, StorableValue entry.2 := by
  obtain ⟨hcpu, hmicrocode, hkernel⟩ := hnewline
  obtain ⟨hxxh3, hxxh128, hsha256, hmemory, hstartup, hfile⟩ := hconstants
  have hdouble := fun x hx => storable_writeDouble hnumbers (x := x) hx
  simp only [throughputCacheEntries, List.forall_mem_cons]
  exact ⟨SignatureString.storable hcpu, SignatureString.storable hmicrocode,
    SignatureString.storable hkernel, hdouble _ hxxh3, hdouble _ hxxh128, hdouble _ hsha256,
    hdouble _ hmemory, hdouble _ hstartup, hdouble _ hfile, List.forall_mem_nil _⟩

end numbers

/-! ## what is loaded -/

/-- A key that the loader reads back: short, and without a byte that ends a
line, a key or a string. -/
def readableKey (key : Bytes) : Bool :=
  decide (key.length ≤ 20) && key.all fun b => b != newline && b != equalsSign && b != 0

theorem readableKey_of_mem {numbers : CoreNumbers} {signature : HostSignature}
    {constants : ThroughputConstants} {entry : Bytes × Bytes}
    (hentry : entry ∈ throughputCacheEntries numbers signature constants) :
    readableKey entry.1 = true := by
  have hkeys : ∀ key ∈ (throughputCacheEntries numbers signature constants).map Prod.fst,
      readableKey key = true := by
    have hmap : (throughputCacheEntries numbers signature constants).map Prod.fst =
        [ascii "cpu_model", ascii "microcode", ascii "kernel_version", ascii "xxh3_gbps",
          ascii "xxh128_gbps", ascii "sha256_gbps", ascii "mem_bw_gbps",
          ascii "parallel_startup_us", ascii "per_file_cost_us"] := rfl
    rw [hmap]
    decide
  exact hkeys entry.1 (List.mem_map_of_mem hentry)

/-- The line of a readable key and a storable value. -/
theorem fits_entryLine {key value : Bytes} (hkey : readableKey key = true)
    (hvalue : StorableValue value) :
    newline ∉ entryLine (key, value) ∧
      (entryLine (key, value)).length < throughputCacheLineCapacity := by
  obtain ⟨hlength, hbytes⟩ := Bool.and_eq_true_iff.mp hkey
  have hlength := of_decide_eq_true hlength
  have hfits := hvalue.fits
  constructor
  · intro hmem
    obtain hkeyByte | hmem := List.mem_append.mp hmem
    · have := List.all_eq_true.mp hbytes newline hkeyByte
      cases this
    · obtain heq | hmem := List.mem_cons.mp hmem
      · exact absurd heq (by decide)
      · exact hvalue.newlineFree hmem
  · simp only [entryLine, List.length_append, List.length_cons, throughputCacheLineCapacity]
    omega

/-- The first separator ends the key, whatever the value holds. -/
theorem throughputCacheLoadLine_entry (numbers : CoreNumbers) (read : ThroughputCacheRead)
    {key value : Bytes} (hkey : readableKey key = true) (hvalue : StorableValue value) :
    throughputCacheLoadLine numbers read (entryLine (key, value)) =
      throughputCacheLoadEntry numbers read key value := by
  have hlength := (fits_entryLine hkey hvalue).2
  have hbytes := List.all_eq_true.mp (Bool.and_eq_true_iff.mp hkey).2
  have hseparator : ∀ b ∈ key, decide (b ≠ equalsSign) = true := by
    intro b hb
    have := hbytes b hb
    simp_all
  have hzero : 0 ∉ key := by
    intro hzero
    have := hbytes 0 hzero
    cases this
  have htake : (entryLine (key, value)).takeWhile (· ≠ equalsSign) = key := by
    rw [entryLine, List.takeWhile_append_of_pos hseparator, List.takeWhile_cons_of_neg (by simp),
      List.append_nil]
  have hdrop : (entryLine (key, value)).dropWhile (· ≠ equalsSign) = equalsSign :: value := by
    rw [entryLine, List.dropWhile_append_of_pos hseparator, List.dropWhile_cons_of_neg (by simp)]
  rw [throughputCacheLoadLine, if_neg (Nat.not_le.mpr hlength), hdrop, htake, cString_eq hzero]

/-- The branches taken for the stored keys. -/
theorem foldl_throughputCacheLoadEntry (numbers : CoreNumbers) (signature : HostSignature)
    (constants : ThroughputConstants) (read : ThroughputCacheRead) :
    (throughputCacheEntries numbers signature constants).foldl
        (fun read entry => throughputCacheLoadEntry numbers read entry.1 entry.2) read =
      let parsed (member : ThroughputConstants → ℚ) : ℚ × Bool :=
        throughputCacheParseDouble numbers (numbers.writeDouble (member constants) 6)
          (member read.constants)
      ⟨⟨(parsed ThroughputConstants.xxh3GigabytesPerSecond).1,
          (parsed ThroughputConstants.xxh128GigabytesPerSecond).1,
          (parsed ThroughputConstants.sha256GigabytesPerSecond).1,
          (parsed ThroughputConstants.memoryBandwidthGigabytesPerSecond).1,
          (parsed ThroughputConstants.parallelStartupOverheadMicroseconds).1,
          (parsed ThroughputConstants.perFileCostWarmMicroseconds).1⟩,
        .copy signature.cpuModel.bytes, .copy signature.microcode.bytes,
        .copy signature.kernelVersion.bytes,
        (parsed ThroughputConstants.xxh3GigabytesPerSecond).2,
        (parsed ThroughputConstants.xxh128GigabytesPerSecond).2,
        (parsed ThroughputConstants.sha256GigabytesPerSecond).2,
        (parsed ThroughputConstants.memoryBandwidthGigabytesPerSecond).2,
        (parsed ThroughputConstants.parallelStartupOverheadMicroseconds).2,
        (parsed ThroughputConstants.perFileCostWarmMicroseconds).2⟩ :=
  rfl

section stored

variable {numbers : CoreNumbers} (hnumbers : numbers.Exact)
variable {signature : HostSignature} (hnewline : signature.NewlineFree)
variable {constants : ThroughputConstants} (hconstants : constants.Decimal)
include hnumbers hnewline hconstants

/-- The line reader's hypothesis applies to what is stored. -/
theorem readLines_stored {readLines : Bytes → List Bytes} (hreader : ReadsLines readLines) :
    readLines (throughputCacheWrites numbers signature constants).flatten =
      (throughputCacheEntries numbers signature constants).map entryLine := by
  have hvalues := storable_entries hnumbers hnewline hconstants
  rw [flatten_throughputCacheWrites]
  apply hreader
  intro line hline
  obtain ⟨entry, hentry, rfl⟩ := List.mem_map.mp hline
  exact fits_entryLine (readableKey_of_mem hentry) (hvalues entry hentry)

/-- **Reading what was stored sets every variable of the loader.** -/
theorem throughputCacheRead_stored (read : ThroughputCacheRead) :
    ((throughputCacheEntries numbers signature constants).map entryLine).foldl
        (throughputCacheLoadLine numbers) read =
      ⟨constants, signature.cpuModel, signature.microcode, signature.kernelVersion,
        true, true, true, true, true, true⟩ := by
  have hvalues := storable_entries hnumbers hnewline hconstants
  have hlines : ∀ read, ∀ entry ∈ throughputCacheEntries numbers signature constants,
      throughputCacheLoadLine numbers read (entryLine entry) =
        throughputCacheLoadEntry numbers read entry.1 entry.2 :=
    fun read entry hentry => throughputCacheLoadLine_entry numbers read
      (readableKey_of_mem hentry) (hvalues entry hentry)
  obtain ⟨hxxh3, hxxh128, hsha256, hmemory, hstartup, hfile⟩ := hconstants
  rw [List.foldl_map, List.foldl_ext _ _ read hlines, foldl_throughputCacheLoadEntry]
  simp only [SignatureString.copy_bytes, throughputCacheParseDouble_writeDouble hnumbers, hxxh3,
    hxxh128, hsha256, hmemory, hstartup, hfile]

/-- Loading what was stored: only the host's signature is left to decide. -/
theorem throughputCacheLoad_stored {readLines : Bytes → List Bytes}
    (hreader : ReadsLines readLines) (host : Host) (out : ThroughputConstants) :
    throughputCacheLoad numbers readLines host
        (some (throughputCacheWrites numbers signature constants).flatten) out =
      (constants, decide (throughputCacheReadHostSignature host = some signature)) := by
  simp only [throughputCacheLoad, readLines_stored hnumbers hnewline hconstants hreader,
    throughputCacheRead_stored hnumbers hnewline hconstants]
  cases hhost : throughputCacheReadHostSignature host with
  | none => rfl
  | some current =>
    have hiff : some current = some signature ↔ signature.cpuModel = current.cpuModel ∧
        signature.microcode = current.microcode ∧
        signature.kernelVersion = current.kernelVersion := by
      rw [Option.some_inj, HostSignature.ext_iff]
      simp only [eq_comm]
    simp only [hiff]
    by_cases hcpu : signature.cpuModel = current.cpuModel
    · by_cases hmicrocode : signature.microcode = current.microcode
      · by_cases hkernel : signature.kernelVersion = current.kernelVersion <;>
          simp [hcpu, hmicrocode, hkernel]
      · simp [hcpu, hmicrocode]
    · simp [hcpu]

end stored

/-- What a store that succeeds leaves in the file. -/
theorem throughputCacheStore_content {numbers : CoreNumbers} {env : ThroughputCacheEnvironment}
    {host : Host} {path content : Bytes} {constants : ThroughputConstants}
    (hstore : throughputCacheStore numbers env host path constants = (some content, true)) :
    ∃ signature, throughputCacheReadHostSignature host = some signature ∧
      content = (throughputCacheWrites numbers signature constants).flatten := by
  rw [throughputCacheStore] at hstore
  split at hstore
  · cases hstore
  · cases hhost : throughputCacheReadHostSignature host with
    | none =>
      rw [hhost] at hstore
      cases hstore
    | some signature =>
      simp only [hhost] at hstore
      split at hstore
      · cases hstore
      · split at hstore
        · cases hstore
        · obtain ⟨hcontent, hok⟩ := Prod.mk.inj hstore
          have hwritten := (Bool.and_eq_true_iff.mp hok).1
          exact ⟨signature, rfl,
            (Option.some.inj hcontent).symm.trans (env.output.complete _ hwritten)⟩

/-- **Constants stored on a host are loaded there, and nowhere else.**  A store
that succeeded on a host whose signature has no newline in it, of constants
with six fractional digits, leaves a file from which a load on that host
returns exactly these constants, whatever its output held.  On a host with
another signature the load fails. -/
theorem throughput_cache_round_trip {numbers : CoreNumbers} (hnumbers : numbers.Exact)
    {readLines : Bytes → List Bytes} (hreader : ReadsLines readLines)
    (env : ThroughputCacheEnvironment) {host : Host} (path : Bytes)
    {constants : ThroughputConstants} (hconstants : constants.Decimal)
    {signature : HostSignature} (hhost : throughputCacheReadHostSignature host = some signature)
    (hnewline : signature.NewlineFree) {content : Bytes}
    (hstore : throughputCacheStore numbers env host path constants = (some content, true)) :
    (∀ out, throughputCacheLoad numbers readLines host (some content) out = (constants, true)) ∧
      ∀ other out, throughputCacheReadHostSignature other ≠ some signature →
        (throughputCacheLoad numbers readLines other (some content) out).2 = false := by
  obtain ⟨stored, hstored, rfl⟩ := throughputCacheStore_content hstore
  obtain rfl : signature = stored := Option.some.inj (hhost.symm.trans hstored)
  have hload := throughputCacheLoad_stored hnumbers hnewline hconstants hreader
  constructor
  · intro out
    rw [hload host out, hhost, decide_eq_true rfl]
  · intro other out hother
    rw [hload other out]
    exact decide_eq_false hother

/-! ## a concrete host -/

/-- Numbers printed with the digits asked for, rounded down, and read with a
sign, digits and a fraction. -/
def plainNumbers : CoreNumbers where
  writeDouble x places := Decimals.print places x
  strtod := Decimals.read

theorem plainNumbers_exact : plainNumbers.Exact :=
  fun millionths _ => ⟨Decimals.print_mkRat 6 millionths, Decimals.read_text (by decide) millionths⟩

theorem readsLines_readLines : ReadsLines (Lines.readLines newline) :=
  fun _ hlines => Lines.readLines_writeLines newline fun line hline => (hlines line hline).1


theorem isDecimal_of_lt (millionths : Nat) (hlt : millionths < 2 ^ 64) :
    IsDecimal (mkRat millionths (10 ^ 6)) := by
  have hpow : 2 ^ 64 ≤ 2 ^ 1024 := pow_le_pow_right₀ (by decide) (by decide)
  have hrange : (millionths : Int).natAbs < 10 ^ 6 * 2 ^ 1024 := by
    rw [Int.natAbs_natCast]
    exact (hlt.trans_le hpow).trans_le (Nat.le_mul_of_pos_left _ (by decide))
  exact ⟨millionths, hrange, rfl⟩

/-- The constants of the test of the cache. -/
def measuredConstants : ThroughputConstants where
  xxh3GigabytesPerSecond := mkRat (18500000 : Nat) (10 ^ 6)
  xxh128GigabytesPerSecond := mkRat (17900000 : Nat) (10 ^ 6)
  sha256GigabytesPerSecond := mkRat (1600000 : Nat) (10 ^ 6)
  memoryBandwidthGigabytesPerSecond := mkRat (35000000 : Nat) (10 ^ 6)
  parallelStartupOverheadMicroseconds := mkRat (40000000 : Nat) (10 ^ 6)
  perFileCostWarmMicroseconds := mkRat (3500000 : Nat) (10 ^ 6)

theorem measuredConstants_decimal : measuredConstants.Decimal :=
  ⟨isDecimal_of_lt 18500000 (by decide), isDecimal_of_lt 17900000 (by decide),
    isDecimal_of_lt 1600000 (by decide), isDecimal_of_lt 35000000 (by decide),
    isDecimal_of_lt 40000000 (by decide), isDecimal_of_lt 3500000 (by decide)⟩

/-- A host whose model name has a separator in it, and no microcode line. -/
def separatorHost : Host where
  cpuinfo := some [ascii "model name : A=B"]
  release := some (ascii "6.1")

def separatorSignature : HostSignature :=
  ⟨.copy (ascii "A=B"), .copy [], .copy (ascii "6.1")⟩

def workingCacheEnvironment : ThroughputCacheEnvironment where
  mkdir := fun _ => some Errno.EEXIST
  opens := true
  output := .working
  closes := true

theorem throughput_cache_round_trip_separator :
    (∀ out, throughputCacheLoad plainNumbers (Lines.readLines newline) separatorHost
        (some (throughputCacheWrites plainNumbers separatorSignature measuredConstants).flatten)
          out = (measuredConstants, true)) ∧
      ∀ other out, throughputCacheReadHostSignature other ≠ some separatorSignature →
        (throughputCacheLoad plainNumbers (Lines.readLines newline) other
          (some (throughputCacheWrites plainNumbers separatorSignature
            measuredConstants).flatten) out).2 = false :=
  have hhost : throughputCacheReadHostSignature separatorHost = some separatorSignature := by
    decide
  throughput_cache_round_trip plainNumbers_exact readsLines_readLines workingCacheEnvironment
    (ascii "/var/cache/throughput.txt") measuredConstants_decimal hhost (by decide) rfl

end BcDuplicate
