import BcDuplicate.Dispatch
import BcDuplicate.Output
import Mathlib.Data.List.TakeWhile
import Mathlib.Logic.Function.Basic

/-!
# BcDuplicate.Throughput

The file in which measured throughputs are kept between runs
(`src/bench/bc_duplicate_throughput_cache.c`): a line for each of the three
strings that identify the host, and a line for each of the six constants.  A
run takes the constants from the file, or measures them and writes the file.
-/

namespace BcDuplicate

open Json (ascii)

/-- `BC_DUPLICATE_THROUGHPUT_CACHE_SIGNATURE_CAPACITY` -/
def throughputCacheSignatureCapacity : Nat := 256

/-- `BC_DUPLICATE_THROUGHPUT_CACHE_LINE_CAPACITY` -/
def throughputCacheLineCapacity : Nat := 512

def equalsSign : UInt8 := 0x3D

/-- How numbers are printed and read: `bc_core_writer_write_double` and
`strtod`, which is `none` when it converts nothing. -/
structure CoreNumbers where
  writeDouble : ℚ → Nat → Bytes
  strtod : Bytes → Option ℚ

/-! ## the host's signature -/

/-- What a buffer of the signature's capacity can hold as a C string. -/
@[ext]
structure SignatureString where
  bytes : Bytes
  fits : bytes.length < throughputCacheSignatureCapacity
  noZero : 0 ∉ bytes
deriving DecidableEq

theorem zero_notMem_cString (bytes : Bytes) : 0 ∉ cString bytes := by
  intro hzero
  have := List.mem_takeWhile_imp hzero
  exact absurd rfl (of_decide_eq_true this)

/-- The bytes copied into such a buffer, as many as leave room for the
terminator, read as a C string. -/
def SignatureString.copy (bytes : Bytes) : SignatureString where
  bytes := cString (bytes.take (throughputCacheSignatureCapacity - 1))
  fits := by
    have htake := List.length_take_le (throughputCacheSignatureCapacity - 1) bytes
    have hstring := (List.takeWhile_prefix (l := bytes.take (throughputCacheSignatureCapacity - 1))
      (· ≠ 0)).length_le
    rw [cString]
    exact Nat.lt_of_le_of_lt (hstring.trans htake) (by decide)
  noZero := zero_notMem_cString _

/-- The strings of `bc_duplicate_throughput_cache_read_host_signature`. -/
@[ext]
structure HostSignature where
  cpuModel : SignatureString
  microcode : SignatureString
  kernelVersion : SignatureString
deriving DecidableEq

/-- What a host answers: the lines of `/proc/cpuinfo`, when it can be opened
and read, and the release that `uname` reports. -/
structure Host where
  cpuinfo : Option (List Bytes)
  release : Option Bytes

def isBlank (byte : UInt8) : Bool := byte == 0x20 || byte == 0x09

/-- The loop's body in `bc_duplicate_throughput_cache_read_cpuinfo_field`: the
value in a line that has the field's name, blanks, and a colon. -/
def cpuinfoValue (fieldName line : Bytes) : Option Bytes :=
  if line.length < fieldName.length then none
  else if line.take fieldName.length ≠ fieldName then none
  else
    match (line.drop fieldName.length).dropWhile isBlank with
    | byte :: rest => if byte = 0x3A then some (rest.dropWhile isBlank) else none
    | [] => none

/-- `bc_duplicate_throughput_cache_read_cpuinfo_field` -/
def throughputCacheReadCpuinfoField (host : Host) (fieldName : Bytes) : Option SignatureString :=
  host.cpuinfo.bind fun lines =>
    (lines.findSome? (cpuinfoValue fieldName)).map SignatureString.copy

/-- `bc_duplicate_throughput_cache_read_host_signature` -/
def throughputCacheReadHostSignature (host : Host) : Option HostSignature :=
  match throughputCacheReadCpuinfoField host (ascii "model name") with
  | none => none
  | some cpuModel =>
      let microcode := (throughputCacheReadCpuinfoField host (ascii "microcode")).getD (.copy [])
      match host.release with
      | none => none
      | some release => some ⟨cpuModel, microcode, .copy release⟩

/-! ## loading -/

/-- The variables of `bc_duplicate_throughput_cache_load` while it reads. -/
structure ThroughputCacheRead where
  constants : ThroughputConstants
  cachedCpuModel : SignatureString
  cachedMicrocode : SignatureString
  cachedKernelVersion : SignatureString
  xxh3Ok : Bool
  xxh128Ok : Bool
  sha256Ok : Bool
  memoryBandwidthOk : Bool
  parallelStartupOk : Bool
  perFileCostOk : Bool

def ThroughputCacheRead.initial (constants : ThroughputConstants) : ThroughputCacheRead :=
  ⟨constants, .copy [], .copy [], .copy [], false, false, false, false, false, false⟩

/-- `bc_duplicate_throughput_cache_parse_double`: what the output then holds,
and the result. -/
def throughputCacheParseDouble (numbers : CoreNumbers) (valueText : Bytes) (out : ℚ) : ℚ × Bool :=
  match numbers.strtod (cString valueText) with
  | none => (out, false)
  | some parsed => (parsed, true)

/-- The branches over the key. -/
def throughputCacheLoadEntry (numbers : CoreNumbers) (read : ThroughputCacheRead)
    (key value : Bytes) : ThroughputCacheRead :=
  if key = ascii "cpu_model" then { read with cachedCpuModel := .copy value }
  else if key = ascii "microcode" then { read with cachedMicrocode := .copy value }
  else if key = ascii "kernel_version" then { read with cachedKernelVersion := .copy value }
  else if key = ascii "xxh3_gbps" then
    let (out, ok) := throughputCacheParseDouble numbers value read.constants.xxh3GigabytesPerSecond
    { read with constants.xxh3GigabytesPerSecond := out, xxh3Ok := ok }
  else if key = ascii "xxh128_gbps" then
    let (out, ok) :=
      throughputCacheParseDouble numbers value read.constants.xxh128GigabytesPerSecond
    { read with constants.xxh128GigabytesPerSecond := out, xxh128Ok := ok }
  else if key = ascii "sha256_gbps" then
    let (out, ok) :=
      throughputCacheParseDouble numbers value read.constants.sha256GigabytesPerSecond
    { read with constants.sha256GigabytesPerSecond := out, sha256Ok := ok }
  else if key = ascii "mem_bw_gbps" then
    let (out, ok) :=
      throughputCacheParseDouble numbers value read.constants.memoryBandwidthGigabytesPerSecond
    { read with constants.memoryBandwidthGigabytesPerSecond := out, memoryBandwidthOk := ok }
  else if key = ascii "parallel_startup_us" then
    let (out, ok) :=
      throughputCacheParseDouble numbers value read.constants.parallelStartupOverheadMicroseconds
    { read with constants.parallelStartupOverheadMicroseconds := out, parallelStartupOk := ok }
  else if key = ascii "per_file_cost_us" then
    let (out, ok) :=
      throughputCacheParseDouble numbers value read.constants.perFileCostWarmMicroseconds
    { read with constants.perFileCostWarmMicroseconds := out, perFileCostOk := ok }
  else read

/-- The loop's body: a line too long for the copy is skipped, and so is a line
without a separator; the first separator ends the key. -/
def throughputCacheLoadLine (numbers : CoreNumbers) (read : ThroughputCacheRead) (line : Bytes) :
    ThroughputCacheRead :=
  if throughputCacheLineCapacity ≤ line.length then read
  else
    match line.dropWhile (· ≠ equalsSign) with
    | [] => read
    | _ :: value =>
        throughputCacheLoadEntry numbers read (cString (line.takeWhile (· ≠ equalsSign))) value

/-- `bc_duplicate_throughput_cache_load`: what the output constants then hold,
and the result.  `content` is the file's, when it can be opened and read, and
`readLines` the line reader. -/
def throughputCacheLoad (numbers : CoreNumbers) (readLines : Bytes → List Bytes) (host : Host)
    (content : Option Bytes) (constants : ThroughputConstants) : ThroughputConstants × Bool :=
  match content with
  | none => (constants, false)
  | some bytes =>
      let read := (readLines bytes).foldl (throughputCacheLoadLine numbers) (.initial constants)
      if !read.xxh3Ok || !read.xxh128Ok || !read.sha256Ok || !read.memoryBandwidthOk ||
          !read.parallelStartupOk || !read.perFileCostOk then (read.constants, false)
      else
        match throughputCacheReadHostSignature host with
        | none => (read.constants, false)
        | some current =>
            if read.cachedCpuModel ≠ current.cpuModel then (read.constants, false)
            else if read.cachedMicrocode ≠ current.microcode then (read.constants, false)
            else if read.cachedKernelVersion ≠ current.kernelVersion then (read.constants, false)
            else (read.constants, true)

/-! ## storing -/

/-- What storing depends on besides the host: `mkdir`'s error, whether the file
opens, the writer, and whether closing succeeds. -/
structure ThroughputCacheEnvironment where
  mkdir : Bytes → Option Errno
  opens : Bool
  output : OutputWriter
  closes : Bool

/-- `bc_duplicate_throughput_cache_ensure_parent_directory` -/
def throughputCacheEnsureParentDirectory (env : ThroughputCacheEnvironment) (path : Bytes) : Bool :=
  let path := cString path
  if path.length + 1 > throughputCacheLineCapacity then false
  else
    -- what the last slash leaves of the path, without it
    match (path.reverse.dropWhile (· ≠ slash)).reverse.dropLast with
    | [] => true
    | byte :: rest =>
        match env.mkdir (byte :: rest) with
        | none => true
        | some errno => decide (errno = Errno.EEXIST)

/-- The writes of `bc_duplicate_throughput_cache_store`, in order. -/
def throughputCacheWrites (numbers : CoreNumbers) (signature : HostSignature)
    (constants : ThroughputConstants) : List Bytes :=
  [ascii "cpu_model=", signature.cpuModel.bytes, [newline],
    ascii "microcode=", signature.microcode.bytes, [newline],
    ascii "kernel_version=", signature.kernelVersion.bytes, [newline],
    ascii "xxh3_gbps=", numbers.writeDouble constants.xxh3GigabytesPerSecond 6, [newline],
    ascii "xxh128_gbps=", numbers.writeDouble constants.xxh128GigabytesPerSecond 6, [newline],
    ascii "sha256_gbps=", numbers.writeDouble constants.sha256GigabytesPerSecond 6, [newline],
    ascii "mem_bw_gbps=", numbers.writeDouble constants.memoryBandwidthGigabytesPerSecond 6,
    [newline],
    ascii "parallel_startup_us=",
    numbers.writeDouble constants.parallelStartupOverheadMicroseconds 6, [newline],
    ascii "per_file_cost_us=", numbers.writeDouble constants.perFileCostWarmMicroseconds 6,
    [newline]]

/-- `bc_duplicate_throughput_cache_store`: what the file then holds, when it
was opened, and the result. -/
def throughputCacheStore (numbers : CoreNumbers) (env : ThroughputCacheEnvironment) (host : Host)
    (path : Bytes) (constants : ThroughputConstants) : Option Bytes × Bool :=
  if throughputCacheEnsureParentDirectory env path = false then (none, false)
  else
    match throughputCacheReadHostSignature host with
    | none => (none, false)
    | some signature =>
        if env.opens = false then (none, false)
        else if env.output.initialises = false then (some [], false)
        else
          let (content, ok) :=
            env.output.deliver (throughputCacheWrites numbers signature constants).flatten
          (some content, ok && env.closes)

/-! ## where the file is -/

/-- `bc_duplicate_throughput_cache_compose_path`, with a terminator to leave
room for. -/
def throughputCacheComposePath (pathCapacity : Nat) (beginning suffix : Bytes) : Option Bytes :=
  if pathCapacity = 0 then none
  else if (beginning ++ suffix).length ≤ pathCapacity - 1 then some (beginning ++ suffix)
  else none

/-- What `getenv` returns for the variables that place the file. -/
structure CacheVariables where
  xdgCacheHome : Option Bytes
  home : Option Bytes
deriving DecidableEq

/-- `bc_duplicate_throughput_cache_default_path` -/
def throughputCacheDefaultPath (environ : CacheVariables) (pathCapacity : Nat) : Option Bytes :=
  let xdgCacheHome := (environ.xdgCacheHome.map cString).getD []
  let home := (environ.home.map cString).getD []
  if xdgCacheHome ≠ [] then
    throughputCacheComposePath pathCapacity xdgCacheHome (ascii "/bc-duplicate/throughput.txt")
  else if home = [] then none
  else throughputCacheComposePath pathCapacity home (ascii "/.cache/bc-duplicate/throughput.txt")

/-! ## loading or measuring -/

/-- What one call depends on besides the files.  `measured` is what
`bc_duplicate_throughput_measure` finds, `none` without a buffer, and
`uninitialised` what the constants hold before. -/
structure ThroughputCall where
  environ : CacheVariables
  host : Host
  canRead : Bytes → Bool
  storing : ThroughputCacheEnvironment
  measured : Option ThroughputConstants
  uninitialised : ThroughputConstants

/-- `cache_path` -/
def ThroughputCall.cachePath (call : ThroughputCall) : Option Bytes :=
  throughputCacheDefaultPath call.environ throughputCacheLineCapacity

/-- The content of the files, by path; `none` where there is no file. -/
abbrev CacheFiles := Bytes → Option Bytes

/-- What `bc_duplicate_throughput_cache_load` does of the call. -/
def throughputLoadCached (numbers : CoreNumbers) (readLines : Bytes → List Bytes)
    (call : ThroughputCall) (files : CacheFiles) : ThroughputConstants × Bool :=
  match call.cachePath with
  | none => (call.uninitialised, false)
  | some path =>
      throughputCacheLoad numbers readLines call.host
        (if call.canRead path then files path else none) call.uninitialised

/-- The files once the call has stored what it measured. -/
def throughputStoreMeasured (numbers : CoreNumbers) (call : ThroughputCall)
    (measured : ThroughputConstants) (files : CacheFiles) : CacheFiles :=
  match call.cachePath with
  | none => files
  | some path =>
      match (throughputCacheStore numbers call.storing call.host path measured).1 with
      | none => files
      | some content => Function.update files path (some content)

/-- `bc_duplicate_throughput_get_or_measure`: the files behind it, what the
output constants then hold, and the result. -/
def throughputGetOrMeasure (numbers : CoreNumbers) (readLines : Bytes → List Bytes)
    (call : ThroughputCall) (files : CacheFiles) : CacheFiles × ThroughputConstants × Bool :=
  let (loaded, ok) := throughputLoadCached numbers readLines call files
  if ok then (files, loaded, true)
  else
    match call.measured with
    | none => (files, loaded, false)
    | some measured => (throughputStoreMeasured numbers call measured files, measured, true)

end BcDuplicate
