import BcDuplicate.Types
import Mathlib.Algebra.Order.Field.Rat

/-!
# BcDuplicate.Dispatch

Whether the full pass is worth its worker threads
(`src/bench/bc_duplicate_dispatch_decision.c`).  A `double` is a rational.
-/

namespace BcDuplicate

/-- `bc_duplicate_throughput_constants_t` -/
structure ThroughputConstants where
  xxh3GigabytesPerSecond : ℚ
  xxh128GigabytesPerSecond : ℚ
  sha256GigabytesPerSecond : ℚ
  memoryBandwidthGigabytesPerSecond : ℚ
  parallelStartupOverheadMicroseconds : ℚ
  perFileCostWarmMicroseconds : ℚ
deriving DecidableEq

/-- `bc_duplicate_dispatch_decision_algorithm_throughput` -/
def dispatchDecisionAlgorithmThroughput (algorithm : Algorithm)
    (constants : ThroughputConstants) : ℚ :=
  match algorithm with
  | .xxh3 => constants.xxh3GigabytesPerSecond
  | .xxh128 => constants.xxh128GigabytesPerSecond
  | .sha256 => constants.sha256GigabytesPerSecond

/-- `bc_duplicate_dispatch_decision_should_go_multithread` -/
def dispatchDecisionShouldGoMultithread (fileCount totalBytes : Nat) (algorithm : Algorithm)
    (constants : ThroughputConstants) (workerCount : Nat) : Bool :=
  if workerCount ≤ 1 then false
  else if fileCount = 0 then false
  else
    let gigabytesPerSecond := dispatchDecisionAlgorithmThroughput algorithm constants
    if gigabytesPerSecond ≤ 0 then true
    else
      let bytesPerMicrosecond := gigabytesPerSecond * 1000000000 / 1000000
      let monoWallMicroseconds :=
        fileCount * constants.perFileCostWarmMicroseconds + totalBytes / bytesPerMicrosecond
      let multiWallMicroseconds :=
        constants.parallelStartupOverheadMicroseconds + monoWallMicroseconds / workerCount
      decide (multiWallMicroseconds < monoWallMicroseconds)

end BcDuplicate
