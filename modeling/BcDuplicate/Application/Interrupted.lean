import BcDuplicate.Application.Reported
import BcDuplicate.Discovery.Ends

/-!
# BcDuplicate.Application.Interrupted

Runs under a signal.  The flag stops every stage early, but the run itself
looks at it only once, after discovery, and takes what the passes leave for
complete.  So a signal is honoured when that poll sees it, or when it comes
too late for any poll of the passes (`signalHonoured_of_inTime`); a signal
that a pass sees can turn different files into duplicates
(`interrupted_run_reports`).
-/

namespace BcDuplicate

open Sorting
open Updates

/-! ## passes look at the polls they make -/

section Polls

variable {lib : HashLibrary} {before after beforeLoop afterLoop : Nat → Bool}

/-- Polls that agree make the same run of fast iterations. -/
theorem workerFastRun_congr (env : FastEnvironment) (indices : List Nat) (turn : Nat)
    (order : List (Nat × Nat)) (entries : List FileEntry)
    (h : ∀ k < order.length, before (turn + k) = after (turn + k)) :
    workerFastRun lib { env with shouldStop := before } indices turn order entries =
      workerFastRun lib { env with shouldStop := after } indices turn order entries := by
  induction order generalizing turn entries with
  | nil => rfl
  | cons step order ih =>
      have hfirst : before turn = after turn := h 0 (Nat.succ_pos _)
      have hiter : workerFastIter lib { env with shouldStop := before } indices turn step.1 entries =
          workerFastIter lib { env with shouldStop := after } indices turn step.1 entries := by
        unfold workerFastIter
        rw [show ({ env with shouldStop := before } : FastEnvironment).shouldStop turn =
          ({ env with shouldStop := after } : FastEnvironment).shouldStop turn from hfirst]
      rw [workerFastRun, workerFastRun, hiter]
      refine ih _ _ fun k hk => ?_
      rw [Nat.add_right_comm, Nat.add_assoc]
      exact h (k + 1) (Nat.succ_lt_succ hk)

/-- A fast pass that has no room for its indices polls nothing, and a failed
dispatch loses what its polls decide. -/
theorem workerFastPass_congr (sort : SortFn) (env : FastEnvironment) (entries : List FileEntry)
    (groups : List Group)
    (h : env.allocatesIndices = true → env.dispatchOk = true →
      ∀ turn < totalCandidates groups, before turn = after turn) :
    workerFastPass lib sort { env with shouldStop := before } entries groups =
      workerFastPass lib sort { env with shouldStop := after } entries groups := by
  unfold workerFastPass
  dsimp only
  split
  · rfl
  · split
    · rfl
    · next hallocates =>
      split
      · next hdispatch =>
        have hpolls := h (Bool.eq_true_of_not_eq_false hallocates) hdispatch
        rw [workerFastRun_congr env _ 0 _ _ fun k hk => ?_]
        rw [length_run] at hk
        rw [Nat.zero_add]
        exact hpolls k hk
      · rfl

/-- An iteration of the full pass makes one poll. -/
theorem workerFullIter_congr (env : FullEnvironment) (algorithm : Algorithm) (indices : List Nat)
    (turn iterationIndex worker : Nat) (state : FullState lib) (h : before turn = after turn) :
    workerFullIter { env with shouldStop := before, loopShouldStop := beforeLoop } algorithm
        indices turn iterationIndex worker state =
      workerFullIter { env with shouldStop := after, loopShouldStop := afterLoop } algorithm
        indices turn iterationIndex worker state := by
  unfold workerFullIter
  simp only [h]
  rfl

theorem workerFullRun_congr (env : FullEnvironment) (algorithm : Algorithm) (indices : List Nat)
    (turn : Nat) (order : List (Nat × Nat)) (state : FullState lib)
    (h : ∀ k < order.length, before (turn + k) = after (turn + k)) :
    workerFullRun { env with shouldStop := before, loopShouldStop := beforeLoop } algorithm
        indices turn order state =
      workerFullRun { env with shouldStop := after, loopShouldStop := afterLoop } algorithm
        indices turn order state := by
  induction order generalizing turn state with
  | nil => rfl
  | cons step order ih =>
      have hiter := @workerFullIter_congr lib before after beforeLoop afterLoop env algorithm
        indices turn step.1 step.2 state (h 0 (Nat.succ_pos _))
      rw [workerFullRun, workerFullRun, hiter]
      split
      · rfl
      · refine ih _ _ fun k hk => ?_
        rw [Nat.add_right_comm, Nat.add_assoc]
        exact h (k + 1) (Nat.succ_lt_succ hk)

theorem workerFullLoop_congr (env : FullEnvironment) (algorithm : Algorithm) (indices : List Nat)
    (turn : Nat) (batches : List Nat) (state : FullState lib)
    (h : ∀ k < batches.length, before (turn + k) = after (turn + k))
    (hloop : ∀ k < batches.length, beforeLoop (turn + k) = afterLoop (turn + k)) :
    workerFullLoop { env with shouldStop := before, loopShouldStop := beforeLoop } algorithm
        indices turn batches state =
      workerFullLoop { env with shouldStop := after, loopShouldStop := afterLoop } algorithm
        indices turn batches state := by
  induction batches generalizing turn state with
  | nil => rfl
  | cons batch batches ih =>
      have hiter := @workerFullIter_congr lib before after beforeLoop afterLoop env algorithm
        indices turn batch 0 state (h 0 (Nat.succ_pos _))
      have hpoll : beforeLoop turn = afterLoop turn := hloop 0 (Nat.succ_pos _)
      rw [workerFullLoop, workerFullLoop, hiter]
      simp only [hpoll]
      split
      · rfl
      · split
        · rfl
        · refine ih _ _ (fun k hk => ?_) fun k hk => ?_
          · rw [Nat.add_right_comm, Nat.add_assoc]
            exact h (k + 1) (Nat.succ_lt_succ hk)
          · rw [Nat.add_right_comm, Nat.add_assoc]
            exact hloop (k + 1) (Nat.succ_lt_succ hk)

/-- The batches of a full pass over these groups. -/
def fullBatchCount (groups : List Group) : Nat :=
  (totalCandidates groups + fullBatchItemCapacity - 1) / fullBatchItemCapacity

/-- A full pass without room for its indices or without slots polls nothing. -/
theorem workerFullPass_congr (sort : SortFn) (env : FullEnvironment) (algorithm : Algorithm)
    (entries : List FileEntry) (groups : List Group) (forceSingleThread : Bool)
    (h : env.allocatesIndices = true → env.registersSlot = true →
      ∀ turn < fullBatchCount groups, before turn = after turn ∧ beforeLoop turn = afterLoop turn) :
    workerFullPass lib sort { env with shouldStop := before, loopShouldStop := beforeLoop }
        algorithm entries groups forceSingleThread =
      workerFullPass lib sort { env with shouldStop := after, loopShouldStop := afterLoop }
        algorithm entries groups forceSingleThread := by
  have hcount : pieceCount fullBatchItemCapacity
      (workerSortIndicesBySizeDesc sort entries (candidateIndices groups)) =
        fullBatchCount groups := by
    rw [pieceCount, length_sorted_candidates, fullBatchCount]
  unfold workerFullPass
  dsimp only
  rw [hcount]
  split
  · rfl
  · split
    · rfl
    · next hallocates =>
      split
      · rfl
      · next hregisters =>
        have hpolls := h (Bool.eq_true_of_not_eq_false hallocates)
          (Bool.eq_true_of_not_eq_false hregisters)
        split
        · rw [workerFullLoop_congr env algorithm _ 0 _ _ (fun k hk => ?_) fun k hk => ?_]
          · rw [List.length_range] at hk
            rw [Nat.zero_add]
            exact (hpolls k hk).1
          · rw [List.length_range] at hk
            rw [Nat.zero_add]
            exact (hpolls k hk).2
        · rw [workerFullRun_congr env algorithm _ 0 _ _ fun k hk => ?_]
          rw [length_run] at hk
          rw [Nat.zero_add]
          exact (hpolls k hk).1

end Polls

/-! ## two runs -/

/-- Nothing arrived at standard output, and no output file was opened. -/
def RunOutcome.WroteNothing (outcome : RunOutcome) : Prop :=
  outcome.stdout = [] ∧ outcome.outputFile = none

/-- The groups of the report, path by path; nothing when nothing was reported. -/
def RunOutcome.groupPaths (outcome : RunOutcome) : Option (List (List Bytes)) :=
  outcome.reported.map fun report => report.groups.map fun group =>
    (List.range group.entryCount).map fun offset =>
      absolutePathAt report.entries (group.startIndex + offset)

section Runs

variable {lib : HashLibrary} (env : ApplicationEnvironment lib) (flag : StopFlag)

/-- A run under a signal that returns was given up with exit code 130 and
wrote nothing, or reported what the same run reports without the signal, with
the same exit code. -/
def SignalHonoured : Prop :=
  ∀ outcome, applicationRun env flag = some outcome →
    (outcome.exitCode = 130 ∧ outcome.WroteNothing) ∨
      ∃ undisturbed, applicationRun env .never = some undisturbed ∧
        outcome.exitCode = undisturbed.exitCode ∧ outcome.groupPaths = undisturbed.groupPaths

/-- The run without the signal comes to its passes, with these groups. -/
structure PassesStart (sizes : SizeGrouping) : Prop where
  contexts : env.hasMemoryContext = true ∧ env.hasParallelContext = true
  allocates : env.allocatesEntries = true
  grouped : ∃ discovery, applicationDiscover env .never = some discovery ∧
    discovery.ok = true ∧ discovery.entries ≠ [] ∧
      groupingBySize env.sort env.copy env.pools.bySize (discovery.entries.map OwnedEntry.entry)
        env.options.matchHardlinks = some sizes

/-- No poll that the passes make finds the flag set: one for each candidate of
the fast pass, unless it fails anyway, and one for each batch of the full
pass.  A pass that fails before its first poll makes none. -/
structure PassesUnsignalled (sizes : SizeGrouping) : Prop where
  fast : env.fast.allocatesIndices = true → env.fast.dispatchOk = true →
    ∀ turn < totalCandidates sizes.groups, flag.isSet (.fast turn) = false
  full : env.full.allocatesIndices = true → env.full.registersSlot = true →
    ∀ hashed filesHashed grouped,
      applicationFastPass env .never sizes.entries sizes.groups = .done hashed filesHashed →
      groupingByFastHash env.sort env.pools.byFastHash hashed sizes.groups = some grouped →
        ∀ turn < fullBatchCount grouped.groups, flag.isSet (.fullIter turn) = false

/-- The signal meets neither pass: the poll after discovery sees it, or no
poll of a pass that starts does.  Discovery may fail for lack of memory; where
it does so with the signal, it does so without. -/
structure SignalMeetsNoPass : Prop where
  discovery : ∀ stopped undisturbed, applicationDiscover env flag = some stopped →
    applicationDiscover env .never = some undisturbed → stopped.ok = false → undisturbed.ok = false
  polls : flag.isSet .afterDiscovery = true ∨
    ∀ sizes, PassesStart env sizes → PassesUnsignalled env flag sizes

variable {env flag}

/-! ## discovery -/

/-- Discovery always ends. -/
theorem exists_applicationDiscover (env : ApplicationEnvironment lib) (flag : StopFlag) :
    ∃ discovery, applicationDiscover env flag = some discovery := by
  unfold applicationDiscover
  dsimp only
  split
  · exact ⟨_, rfl⟩
  · obtain ⟨result, hresult, _⟩ := @exists_discoveryExpand
      { env.discovery.toDiscoveryEnvironment with
        shouldStop := fun poll => flag.isSet (.discovery poll) }
      (env.discovery.fs.directories.card + 1) (Nat.lt_succ_self _) env.inputPaths
    exact ⟨result, hresult⟩

/-- On one worker discovery fails with the signal when it does without. -/
theorem ok_of_one_worker (hworkers : env.effectiveWorkerCount < 2)
    (stopped undisturbed : DiscoveryResult) (hstopped : applicationDiscover env flag = some stopped)
    (hundisturbed : applicationDiscover env .never = some undisturbed) :
    stopped.ok = undisturbed.ok := by
  have hok : ∀ (flag : StopFlag) (discovery : DiscoveryResult),
      applicationDiscover env flag = some discovery →
        discovery.ok = env.discovery.allocates 0 := by
    intro flag discovery hdiscovered
    unfold applicationDiscover at hdiscovered
    rw [if_neg (Nat.not_le.mpr hworkers)] at hdiscovered
    obtain ⟨result, hresult, hok⟩ := @exists_discoveryExpand
      { env.discovery.toDiscoveryEnvironment with
        shouldStop := fun poll => flag.isSet (.discovery poll) }
      (env.discovery.fs.directories.card + 1) (Nat.lt_succ_self _) env.inputPaths
    rw [hresult, Option.some.injEq] at hdiscovered
    rw [← hdiscovered]
    exact hok
  rw [hok flag stopped hstopped, hok .never undisturbed hundisturbed]

theorem Poll.discovery_le (poll : Nat) :
    (Poll.discovery poll).time ≤ Poll.afterDiscovery.time :=
  Prod.Lex.toLex_le_toLex.mpr (Or.inl Nat.zero_lt_one)

theorem Poll.fullLoop_le (turn : Nat) : (Poll.fullLoop turn).time ≤ (Poll.fullIter turn).time :=
  Prod.Lex.toLex_le_toLex.mpr (Or.inr ⟨rfl, Nat.le_succ _⟩)

/-- What is unset later was unset before. -/
theorem StopFlag.unset_of_le {earlier later : Poll} (hle : earlier.time ≤ later.time)
    (h : flag.isSet later = false) : flag.isSet earlier = false := by
  cases hearlier : flag.isSet earlier with
  | false => rfl
  | true =>
      rw [flag.monotone earlier later hle hearlier] at h
      cases h

/-- A flag the poll after discovery does not see was not seen before. -/
theorem applicationDiscover_unsignalled (h : flag.isSet .afterDiscovery = false) :
    applicationDiscover env flag = applicationDiscover env .never := by
  have hpolls : (fun poll => flag.isSet (.discovery poll)) =
      fun poll => StopFlag.never.isSet (.discovery poll) :=
    funext fun poll => flag.unset_of_le (Poll.discovery_le poll) h
  unfold applicationDiscover
  rw [hpolls]

/-! ## the passes -/

/-- Stages whose passes make no poll that sees the flag. -/
theorem hashStages_unsignalled {sizes : SizeGrouping} (h : PassesUnsignalled env flag sizes) :
    hashStages env.sort env.pools (workerDigestSize env.options.algorithm)
        (applicationFastPass env flag) (applicationFullPass env flag) sizes.entries sizes.groups =
      hashStages env.sort env.pools (workerDigestSize env.options.algorithm)
        (applicationFastPass env .never) (applicationFullPass env .never) sizes.entries
        sizes.groups := by
  have hfast : applicationFastPass env flag sizes.entries sizes.groups =
      applicationFastPass env .never sizes.entries sizes.groups :=
    workerFastPass_congr env.sort env.fast sizes.entries sizes.groups h.fast
  unfold hashStages
  rw [hfast]
  cases hpass : applicationFastPass env .never sizes.entries sizes.groups with
  | failed => rfl
  | blocked => rfl
  | done hashed filesHashed =>
      dsimp only
      cases hgrouped : groupingByFastHash env.sort env.pools.byFastHash hashed sizes.groups with
      | none => rfl
      | some grouped =>
          -- the single-thread loop polls before its iteration does
          have hfull : applicationFullPass env flag grouped.entries grouped.groups =
              applicationFullPass env .never grouped.entries grouped.groups :=
            workerFullPass_congr env.sort env.full env.options.algorithm grouped.entries
              grouped.groups _ fun hallocates hregisters turn hturn =>
                have hiter := h.full hallocates hregisters hashed filesHashed grouped hpass
                  hgrouped turn hturn
                ⟨hiter, flag.unset_of_le (Poll.fullLoop_le turn) hiter⟩
          dsimp only
          rw [hfull]

/-- **A signal too late for the passes** changes nothing. -/
theorem applicationRun_unsignalled (hafter : flag.isSet .afterDiscovery = false)
    (h : ∀ sizes, PassesStart env sizes → PassesUnsignalled env flag sizes) :
    applicationRun env flag = applicationRun env .never := by
  unfold applicationRun
  rw [applicationDiscover_unsignalled hafter]
  split
  · rfl
  · next hcontexts =>
    obtain ⟨discovery, hdiscovered⟩ := exists_applicationDiscover env .never
    rw [hdiscovered, Option.bind_some, Option.bind_some, hafter,
      show StopFlag.never.isSet .afterDiscovery = false from rfl]
    dsimp only
    split
    · rfl
    · next hok =>
      simp only [Bool.false_eq_true, if_false]
      split
      · rfl
      · next hentries =>
        split
        · rfl
        · next hallocates =>
          -- only here do the passes start
          unfold applicationPipeline
          cases hsizes : groupingBySize env.sort env.copy env.pools.bySize
              (discovery.entries.map OwnedEntry.entry) env.options.matchHardlinks with
          | none => rfl
          | some sizes =>
              have hstart : PassesStart env sizes :=
                { contexts := by simpa using hcontexts
                  allocates := Bool.eq_true_of_not_eq_false hallocates
                  grouped := ⟨discovery, hdiscovered, Bool.eq_true_of_not_eq_false hok,
                    by simpa using hentries, hsizes⟩ }
              dsimp only
              rw [hashStages_unsignalled (h sizes hstart)]

/-- **A signal seen after discovery** ends the run with 130, unless discovery
failed. -/
theorem applicationRun_signalled (hafter : flag.isSet .afterDiscovery = true)
    {outcome : RunOutcome} (hrun : applicationRun env flag = some outcome) :
    (outcome.exitCode = 130 ∧ outcome.WroteNothing) ∨
      ((env.hasMemoryContext = false ∨ env.hasParallelContext = false) ∨
        ∃ discovery, applicationDiscover env flag = some discovery ∧ discovery.ok = false) ∧
      outcome.exitCode = 1 ∧ outcome.groupPaths = none := by
  unfold applicationRun at hrun
  split at hrun
  · next hcontexts =>
    cases hrun
    exact Or.inr ⟨Or.inl hcontexts, rfl, rfl⟩
  · obtain ⟨discovery, hdiscovered, hrun⟩ := Option.bind_eq_some_iff.mp hrun
    dsimp only at hrun
    split at hrun
    · next hok =>
      cases hrun
      exact Or.inr ⟨Or.inr ⟨discovery, hdiscovered, hok⟩, rfl, rfl⟩
    · cases hrun
      exact Or.inl ⟨rfl, rfl, rfl⟩

end Runs

/-- **When a signal is honoured.**  A run whose poll after discovery sees the
flag, or whose started passes make no poll that sees it, is given up with 130
or is the run without the signal. -/
theorem signalHonoured_of_meetsNoPass {lib : HashLibrary} (env : ApplicationEnvironment lib)
    (flag : StopFlag) (h : SignalMeetsNoPass env flag) : SignalHonoured env flag := by
  intro outcome hrun
  cases hafter : flag.isSet .afterDiscovery with
  | false =>
      rw [applicationRun_unsignalled hafter
        (h.polls.resolve_left fun hset => by rw [hafter] at hset; cases hset)] at hrun
      exact Or.inr ⟨outcome, hrun, rfl, rfl⟩
  | true =>
      rcases applicationRun_signalled hafter hrun with hclean | ⟨hfailed, hexit, hgroups⟩
      · exact Or.inl hclean
      · -- the run fails before the poll, with or without the signal
        right
        by_cases hcontexts : env.hasMemoryContext = false ∨ env.hasParallelContext = false
        · refine ⟨.silent 1 false [], ?_, hexit, hgroups⟩
          rw [applicationRun, if_pos hcontexts]
        · obtain ⟨stopped, hstopped, hok⟩ := hfailed.resolve_left hcontexts
          obtain ⟨undisturbed, hundisturbed⟩ := exists_applicationDiscover env .never
          have hfails := h.discovery stopped undisturbed hstopped hundisturbed hok
          refine ⟨.silent 1 false [.errors undisturbed.stderr], ?_, hexit, hgroups⟩
          rw [applicationRun, if_neg hcontexts, hundisturbed, Option.bind_some]
          dsimp only
          rw [if_pos hfails]

/-! ### two different files -/

/-- Two files `a` and `b` of one byte each, which differ. -/
def twoDifferent : Table where
  root := ⟨0, 1⟩
  rows := [⟨⟨0, 1⟩, [97], .object (.regular ⟨0, 2⟩ 1)⟩, ⟨⟨0, 1⟩, [98], .object (.regular ⟨0, 3⟩ 1)⟩]
  distinct := by decide
  proper := by decide

/-- `scan` of both, as plain text on standard output. -/
def twoDifferentRun : ApplicationEnvironment .recording :=
  twoDifferent.application ⟨.scan, .sha256, .auto, .stdout, false⟩ [[97], [98]]

/-- A signal during discovery. -/
theorem signalHonoured_during_discovery :
    SignalHonoured twoDifferentRun (.since (.discovery 1)) ∧
      (applicationRun twoDifferentRun (.since (.discovery 1))).map RunOutcome.exitCode = some 130 :=
  ⟨signalHonoured_of_meetsNoPass twoDifferentRun (.since (.discovery 1))
    ⟨fun stopped undisturbed hstopped hundisturbed hok => by
        rw [← ok_of_one_worker (by decide) stopped undisturbed hstopped hundisturbed]
        exact hok,
      Or.inl (by decide)⟩, by decide +kernel⟩

/-- **A signal during the fast pass** makes duplicates of two different files,
and the run ends with 0. -/
theorem interrupted_run_reports :
    ¬∀ (env : ApplicationEnvironment .recording) (flag : StopFlag), SignalHonoured env flag := by
  intro h
  have hrun : ((applicationRun twoDifferentRun (.since (.fast 0))).map
      fun outcome => (outcome.exitCode, outcome.groupPaths)) = some (0, some [[[97], [98]]]) := by
    decide +kernel
  have hnever : ((applicationRun twoDifferentRun .never).map
      fun outcome => (outcome.exitCode, outcome.groupPaths)) = some (0, some []) := by
    decide +kernel
  obtain ⟨outcome, houtcome, hpair⟩ := Option.map_eq_some_iff.mp hrun
  rw [Prod.mk.injEq] at hpair
  rcases h twoDifferentRun (.since (.fast 0)) outcome houtcome with
    ⟨hexit, _⟩ | ⟨undisturbed, hundisturbed, _, hgroups⟩
  · rw [hpair.1] at hexit
    exact absurd hexit (by decide)
  · rw [hundisturbed, Option.map_some, Option.some.injEq, Prod.mk.injEq] at hnever
    rw [hpair.2, hnever.2] at hgroups
    exact absurd hgroups (by decide)

end BcDuplicate
