import BcDuplicate.Dispatch
import Mathlib.Tactic.GCongr
import Mathlib.Tactic.Linarith
import Mathlib.Tactic.Positivity

/-!
# BcDuplicate.Dispatch.Monotone

The dispatch decision is monotone.  Past its three guards it compares the
startup overhead with what the workers save of the single-thread estimate
(`multi_lt_mono_iff`): more work and more workers save more, and a slower
algorithm has a larger estimate to save from.
-/

namespace BcDuplicate

/-- `mono_wall_microseconds`: the estimate for one thread. -/
def monoWallMicroseconds (fileCount totalBytes : Nat) (algorithm : Algorithm)
    (constants : ThroughputConstants) : ℚ :=
  fileCount * constants.perFileCostWarmMicroseconds +
    totalBytes / (dispatchDecisionAlgorithmThroughput algorithm constants * 1000000000 / 1000000)

section Monotone

variable {fileCount totalBytes workerCount : Nat} {algorithm : Algorithm}
  {constants : ThroughputConstants}

/-- **When the decision is for several threads.** -/
theorem shouldGoMultithread_iff :
    dispatchDecisionShouldGoMultithread fileCount totalBytes algorithm constants workerCount =
        true ↔
      1 < workerCount ∧ 0 < fileCount ∧
        (dispatchDecisionAlgorithmThroughput algorithm constants ≤ 0 ∨
          constants.parallelStartupOverheadMicroseconds +
              monoWallMicroseconds fileCount totalBytes algorithm constants / workerCount <
            monoWallMicroseconds fileCount totalBytes algorithm constants) := by
  unfold dispatchDecisionShouldGoMultithread
  by_cases hworkers : workerCount ≤ 1
  · rw [if_pos hworkers]
    exact ⟨nofun, fun h => absurd h.1 (Nat.not_lt.mpr hworkers)⟩
  rw [if_neg hworkers, and_iff_right (Nat.lt_of_not_le hworkers)]
  by_cases hfiles : fileCount = 0
  · rw [if_pos hfiles]
    exact ⟨nofun, fun h => absurd hfiles (Nat.pos_iff_ne_zero.mp h.1)⟩
  rw [if_neg hfiles, and_iff_right (Nat.pos_iff_ne_zero.mpr hfiles)]
  dsimp only
  by_cases hthroughput : dispatchDecisionAlgorithmThroughput algorithm constants ≤ 0
  · rw [if_pos hthroughput]
    exact iff_of_true rfl (Or.inl hthroughput)
  · rw [if_neg hthroughput, or_iff_right hthroughput, decide_eq_true_eq]
    rfl

/-- The workers have to save more than they cost to start. -/
theorem multi_lt_mono_iff (overhead mono : ℚ) (workerCount : Nat) :
    overhead + mono / workerCount < mono ↔ overhead < mono * (1 - 1 / workerCount) := by
  rw [mul_sub, mul_one, mul_one_div, lt_sub_iff_add_lt]

theorem monoWallMicroseconds_nonneg (hcost : 0 ≤ constants.perFileCostWarmMicroseconds)
    (hthroughput : 0 < dispatchDecisionAlgorithmThroughput algorithm constants) :
    0 ≤ monoWallMicroseconds fileCount totalBytes algorithm constants := by
  unfold monoWallMicroseconds
  positivity

/-- More work on a slower algorithm takes one thread longer. -/
theorem monoWallMicroseconds_mono {fileCount' totalBytes' : Nat} {algorithm' : Algorithm}
    {constants' : ThroughputConstants}
    (hcost : 0 ≤ constants.perFileCostWarmMicroseconds)
    (hfiles : fileCount ≤ fileCount') (hbytes : totalBytes ≤ totalBytes')
    (hsame : constants'.perFileCostWarmMicroseconds = constants.perFileCostWarmMicroseconds)
    (hslower : dispatchDecisionAlgorithmThroughput algorithm' constants' ≤
      dispatchDecisionAlgorithmThroughput algorithm constants)
    (hpositive : 0 < dispatchDecisionAlgorithmThroughput algorithm' constants') :
    monoWallMicroseconds fileCount totalBytes algorithm constants ≤
      monoWallMicroseconds fileCount' totalBytes' algorithm' constants' := by
  unfold monoWallMicroseconds
  rw [hsame]
  gcongr

/-- What one of several workers saves of an estimate grows with their number. -/
theorem saved_mono {mono mono' : ℚ} {workerCount' : Nat} (hnonneg : 0 ≤ mono) (hmono : mono ≤ mono')
    (hworkers : 1 < workerCount) (hmore : workerCount ≤ workerCount') :
    mono * (1 - 1 / workerCount) ≤ mono' * (1 - 1 / workerCount') := by
  have hpos : (0 : ℚ) < workerCount := by exact_mod_cast Nat.lt_of_succ_lt hworkers
  have hone : (1 : ℚ) ≤ workerCount := by exact_mod_cast Nat.le_of_succ_le hworkers
  have hshare : (1 : ℚ) / workerCount ≤ 1 := by rwa [div_le_one hpos]
  have hle : (1 : ℚ) / workerCount' ≤ 1 / workerCount :=
    one_div_le_one_div_of_le hpos (by exact_mod_cast hmore)
  calc mono * (1 - 1 / workerCount) ≤ mono' * (1 - 1 / workerCount) :=
        mul_le_mul_of_nonneg_right hmono (by linarith)
    _ ≤ mono' * (1 - 1 / workerCount') :=
        mul_le_mul_of_nonneg_left (by linarith) (by linarith)

end Monotone

/-- **The decision is monotone.**  Chosen once, several threads are chosen for
more files, more bytes and more workers, for a slower algorithm and for a
smaller startup overhead as well; and an overhead of at least the single-thread
estimate rules them out. -/
theorem dispatch_monotone (algorithm : Algorithm) (constants : ThroughputConstants)
    (hcost : 0 ≤ constants.perFileCostWarmMicroseconds) :
    (∀ (fileCount fileCount' totalBytes totalBytes' workerCount workerCount' : Nat)
        (algorithm' : Algorithm) (constants' : ThroughputConstants),
      fileCount ≤ fileCount' → totalBytes ≤ totalBytes' → workerCount ≤ workerCount' →
      constants'.perFileCostWarmMicroseconds = constants.perFileCostWarmMicroseconds →
      dispatchDecisionAlgorithmThroughput algorithm' constants' ≤
        dispatchDecisionAlgorithmThroughput algorithm constants →
      constants'.parallelStartupOverheadMicroseconds ≤
        constants.parallelStartupOverheadMicroseconds →
      dispatchDecisionShouldGoMultithread fileCount totalBytes algorithm constants workerCount =
        true →
      dispatchDecisionShouldGoMultithread fileCount' totalBytes' algorithm' constants'
        workerCount' = true) ∧
    ∀ fileCount totalBytes workerCount : Nat,
      0 < dispatchDecisionAlgorithmThroughput algorithm constants →
      monoWallMicroseconds fileCount totalBytes algorithm constants ≤
        constants.parallelStartupOverheadMicroseconds →
      dispatchDecisionShouldGoMultithread fileCount totalBytes algorithm constants workerCount =
        false := by
  refine ⟨?_, ?_⟩
  · intro fileCount fileCount' totalBytes totalBytes' workerCount workerCount' algorithm'
      constants' hfiles hbytes hmore hsame hslower hoverhead hmulti
    obtain ⟨hworkers, hsome, hchoice⟩ := shouldGoMultithread_iff.mp hmulti
    refine shouldGoMultithread_iff.mpr
      ⟨Nat.lt_of_lt_of_le hworkers hmore, Nat.lt_of_lt_of_le hsome hfiles, ?_⟩
    by_cases hnone : dispatchDecisionAlgorithmThroughput algorithm' constants' ≤ 0
    · exact Or.inl hnone
    have hpositive := lt_of_not_ge hnone
    have hpositive' := lt_of_lt_of_le hpositive hslower
    have hsaved := hchoice.resolve_left (not_le_of_gt hpositive')
    refine Or.inr ((multi_lt_mono_iff _ _ _).mpr ?_)
    calc constants'.parallelStartupOverheadMicroseconds
        ≤ constants.parallelStartupOverheadMicroseconds := hoverhead
      _ < monoWallMicroseconds fileCount totalBytes algorithm constants * (1 - 1 / workerCount) :=
          (multi_lt_mono_iff _ _ _).mp hsaved
      _ ≤ monoWallMicroseconds fileCount' totalBytes' algorithm' constants' *
            (1 - 1 / workerCount') :=
          saved_mono (monoWallMicroseconds_nonneg hcost hpositive')
            (monoWallMicroseconds_mono hcost hfiles hbytes hsame hslower hpositive) hworkers hmore
  · intro fileCount totalBytes workerCount hpositive hlarge
    rw [Bool.eq_false_iff]
    intro hmulti
    obtain ⟨_, _, hchoice⟩ := shouldGoMultithread_iff.mp hmulti
    have hsaved := hchoice.resolve_left (not_le_of_gt hpositive)
    have hshare : 0 ≤ monoWallMicroseconds fileCount totalBytes algorithm constants / workerCount :=
      div_nonneg (monoWallMicroseconds_nonneg hcost hpositive) (Nat.cast_nonneg _)
    linarith

/-- Where XXH3 gains from more threads, the slower SHA-256 does. -/
theorem dispatch_monotone_sha256 :
    dispatchDecisionShouldGoMultithread 1 4000 .sha256 ⟨2, 2, 1, 10, 1, 1⟩ 3 = true := by
  refine (dispatch_monotone .xxh3 ⟨2, 2, 1, 10, 1, 1⟩ (by decide)).1 1 1 4000 4000 3 3 .sha256
    ⟨2, 2, 1, 10, 1, 1⟩ (by decide) (by decide) (by decide) rfl (by decide +kernel) le_rfl ?_
  decide +kernel

end BcDuplicate
