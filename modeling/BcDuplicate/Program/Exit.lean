import BcDuplicate.Application.Interrupted
import BcDuplicate.Cli.Binding
import BcDuplicate.Program

/-!
# BcDuplicate.Program.Exit

What the exit code of the program tells.  It is 2 exactly for a command line
that is refused, with the message that says why and no run at all; 130 only
for a run that a signal stopped before it wrote anything; and 0 or 1 otherwise
(`program_exitCode`).
-/

namespace BcDuplicate

open Json (ascii)

/-! ## one run of the application -/

section Run

variable {lib : HashLibrary} {env : ApplicationEnvironment lib} {flag : StopFlag}

/-- A run ends with 0 or 1, or with 130 after a signal, and then wrote nothing. -/
def EndsRegularly (flag : StopFlag) (outcome : RunOutcome) : Prop :=
  outcome.exitCode ∈ [0, 1] ∨
    (outcome.exitCode = 130 ∧ flag.isSet .afterDiscovery = true ∧ outcome.WroteNothing)

theorem endsRegularly_silent {exitCode : Nat} {returned : Bool} {stderr : List Diagnostic}
    (h : exitCode ∈ [0, 1]) : EndsRegularly flag (.silent exitCode returned stderr) := Or.inl h

theorem endsRegularly_applicationReport (stderr : List Diagnostic) (report : Report) :
    EndsRegularly flag (applicationReport env stderr report) := by
  have hcode : ∀ ok : Bool, (if ok then 0 else 1) ∈ [0, 1] := by decide
  unfold applicationReport
  dsimp only
  split
  · split
    · exact endsRegularly_silent (by decide)
    · exact Or.inl (hcode _)
  · exact Or.inl (hcode _)

theorem endsRegularly_applicationPipeline {stderr : List Diagnostic} {entries : List FileEntry}
    {outcome : RunOutcome} (h : applicationPipeline env flag stderr entries = some outcome) :
    EndsRegularly flag outcome := by
  unfold applicationPipeline at h
  split at h
  · cases h
    exact endsRegularly_silent (by decide)
  · split at h
    · cases h
      exact endsRegularly_silent (by decide)
    · split at h
      · cases h
        exact endsRegularly_silent (by decide)
      · cases h
      · cases h
        exact endsRegularly_applicationReport _ _

theorem endsRegularly_applicationRun {outcome : RunOutcome}
    (h : applicationRun env flag = some outcome) : EndsRegularly flag outcome := by
  unfold applicationRun at h
  split at h
  · cases h
    exact endsRegularly_silent (by decide)
  · obtain ⟨discovery, _, h⟩ := Option.bind_eq_some_iff.mp h
    dsimp only at h
    split at h
    · cases h
      exact endsRegularly_silent (by decide)
    · split at h
      · next hset =>
        cases h
        exact Or.inr ⟨rfl, hset, rfl, rfl⟩
      · split at h
        · cases h
          split
          · exact endsRegularly_silent (by decide)
          · exact endsRegularly_silent (by decide)
        · split at h
          · cases h
            exact endsRegularly_silent (by decide)
          · exact endsRegularly_applicationPipeline h

end Run

/-! ## the life of the application -/

/-- What is relied on of `bc_runtime_run`: it calls `init`, then `run` if that
succeeded, and `cleanup` at the end. -/
def Sequences (runtimeRun : RuntimeCallbacks → ApplicationState → Option ApplicationState) : Prop :=
  ∀ callbacks state, runtimeRun callbacks state =
    match callbacks.init state with
    | (state, false) => some (callbacks.cleanup state)
    | (state, true) => (callbacks.run state).map fun ran => callbacks.cleanup ran.1

section Life

variable {lib : HashLibrary} {env : ProgramEnvironment lib} {config : ParallelConfig}
  {flag : StopFlag}

/-- The clean-up keeps how the run ended. -/
theorem ends_applicationCleanupState (state : ApplicationState) :
    (applicationCleanupState env config state).exitCode = state.exitCode ∧
      (applicationCleanupState env config state).outcome = state.outcome := by
  unfold applicationCleanupState
  split
  · exact ⟨rfl, rfl⟩
  · exact ⟨rfl, rfl⟩

/-- A state that is not initialised ends with 1. -/
theorem exitCode_of_applicationInit {state state' : ApplicationState} {ok : Bool}
    (h : applicationInit env config state = (state', ok)) :
    state'.outcome = state.outcome ∧ (ok = false → state'.exitCode = 1) := by
  unfold applicationInit at h
  split at h
  · cases h
    exact ⟨rfl, fun _ => rfl⟩
  · split at h
    · cases h
      exact ⟨rfl, fun _ => rfl⟩
    · dsimp only at h
      split at h
      · cases h
        exact ⟨rfl, fun _ => rfl⟩
      · split at h
        · split at h
          · cases h
            exact ⟨rfl, fun _ => rfl⟩
          · cases h
            exact ⟨rfl, nofun⟩
        · cases h
          exact ⟨rfl, nofun⟩

/-- **The ends of a program** whose command line was bound. -/
theorem ends_programStart (hruntime : Sequences env.runtimeRun) {options : CommandLine}
    {outcome : ProgramOutcome} (h : programStart env flag options = some outcome) :
    (parallelConfig env.logicalProcessorCount env.physicalCoreCount options.threadsMode
        options.explicitWorkerCount = none ∧
      outcome = ⟨2, ascii "bc-duplicate: --threads exceeds online logical processors\n", none⟩) ∨
    (parallelConfig env.logicalProcessorCount env.physicalCoreCount options.threadsMode
        options.explicitWorkerCount ≠ none ∧
      ((outcome.exitCode = 1 ∧ outcome.run = none) ∨
        ∃ run, outcome.run = some run ∧ outcome.exitCode = run.exitCode ∧
          EndsRegularly flag run)) := by
  unfold programStart at h
  split at h
  · next hnone =>
    cases h
    exact Or.inl ⟨hnone, rfl⟩
  · next config hconfig =>
    refine Or.inr ⟨hconfig ▸ Option.some_ne_none _, ?_⟩
    split at h
    · cases h
      exact Or.inl ⟨rfl, rfl⟩
    · obtain ⟨state, hstate, rfl⟩ := Option.map_eq_some_iff.mp h
      rw [hruntime] at hstate
      split at hstate
      · next state' hinit =>
        cases hstate
        obtain ⟨houtcome, hcode⟩ := exitCode_of_applicationInit hinit
        obtain ⟨hkept, hrun⟩ := @ends_applicationCleanupState lib env config state'
        exact Or.inl ⟨hkept.trans (hcode rfl), hrun.trans houtcome⟩
      · next state' hinit =>
        obtain ⟨⟨ran, returned⟩, hrun, rfl⟩ := Option.map_eq_some_iff.mp hstate
        obtain ⟨run, hends, hran⟩ := Option.map_eq_some_iff.mp hrun
        obtain ⟨rfl, _⟩ := Prod.mk.inj hran
        obtain ⟨hcode, houtcome⟩ := @ends_applicationCleanupState lib env config
          { state' with exitCode := run.exitCode, outcome := some run }
        exact Or.inr ⟨run, houtcome, hcode, endsRegularly_applicationRun hends⟩

end Life

/-! ## the exit code -/

/-- The program has the memory and the store to read its command line with. -/
structure ReadsCommandLine {lib : HashLibrary} (env : ProgramEnvironment lib) : Prop where
  createsMemoryContext : env.createsMemoryContext = true
  createsStore : env.createsStore = true

/-- A command line the program reads and refuses, and what it says about it; the
parser writes its own message. -/
inductive RefusedWith {lib : HashLibrary} (env : ProgramEnvironment lib) : Bytes → Prop
  | parse (reads : ReadsCommandLine env) (status : env.parse = .error) : RefusedWith env []
  | value {parsed : CliParsed} {message : Bytes} (reads : ReadsCommandLine env)
      (status : env.parse = .ok parsed) (blames : Blames env.store parsed message) :
      RefusedWith env message
  | threads {parsed : CliParsed} {options : CommandLine} (reads : ReadsCommandLine env)
      (status : env.parse = .ok parsed)
      (bound : cliBindOptions env.parseUnsigned env.store parsed = .ok options)
      (explicit : options.threadsMode = .explicit)
      (exceeds : env.logicalProcessorCount < options.explicitWorkerCount) :
      RefusedWith env (ascii "bc-duplicate: --threads exceeds online logical processors\n")

theorem RefusedWith.reads {lib : HashLibrary} {env : ProgramEnvironment lib} {message : Bytes}
    (h : RefusedWith env message) : ReadsCommandLine env := by
  cases h with
  | parse reads _ => exact reads
  | value reads _ _ => exact reads
  | threads reads _ _ _ _ => exact reads

theorem parallelConfig_eq_none_iff {logical physical count : Nat} {mode : ThreadsMode} :
    parallelConfig logical physical mode count = none ↔ mode = .explicit ∧ logical < count := by
  cases mode with
  | auto => exact ⟨nofun, nofun⟩
  | mono => exact ⟨nofun, nofun⟩
  | io => exact ⟨nofun, nofun⟩
  | explicit =>
      unfold parallelConfig
      dsimp only
      split
      · next hexceeds => exact ⟨fun _ => ⟨rfl, hexceeds⟩, fun _ => rfl⟩
      · next hfits =>
        refine ⟨fun hnone => ?_, fun hexceeds => absurd hexceeds.2 hfits⟩
        split at hnone
        · cases hnone
        · cases hnone

section Main

variable {lib : HashLibrary} {env : ProgramEnvironment lib} {flag : StopFlag}
  (hparse : ParsesDecimal env.parseUnsigned)
  (hparsed : ∀ parsed, env.parse = .ok parsed → Parsed env.store parsed)
include hparse hparsed

/-- A refused command line is answered at once. -/
theorem programMain_of_refused {message : Bytes} (h : RefusedWith env message) :
    programMain env flag = some ⟨2, message, none⟩ := by
  rw [programMain, if_neg (by rw [h.reads.createsMemoryContext]; exact Bool.noConfusion),
    if_neg (by rw [h.reads.createsStore]; exact Bool.noConfusion)]
  cases h with
  | parse _ status => rw [status]
  | value _ status blames =>
      rw [status]
      dsimp only
      rw [(hparsed _ status).bindOptions_of_blames hparse blames]
  | threads _ status bound explicit exceeds =>
      rw [status]
      dsimp only
      rw [bound]
      dsimp only
      rw [programStart, parallelConfig_eq_none_iff.mpr ⟨explicit, exceeds⟩]

/-- **The ends of the program.** -/
theorem refused_or_ends (hruntime : Sequences env.runtimeRun) {outcome : ProgramOutcome}
    (hmain : programMain env flag = some outcome) :
    (∃ message, RefusedWith env message) ∨ (outcome.exitCode ∈ [0, 1] ∧ outcome.run = none) ∨
      ∃ run, outcome.run = some run ∧ outcome.exitCode = run.exitCode ∧
        EndsRegularly flag run := by
  unfold programMain at hmain
  split at hmain
  · cases hmain
    exact Or.inr (Or.inl ⟨by decide, rfl⟩)
  next hmemory =>
  split at hmain
  · cases hmain
    exact Or.inr (Or.inl ⟨by decide, rfl⟩)
  next hstore =>
  have hreads : ReadsCommandLine env :=
    ⟨Bool.eq_true_of_not_eq_false hmemory, Bool.eq_true_of_not_eq_false hstore⟩
  split at hmain
  · cases hmain
    exact Or.inr (Or.inl ⟨by decide, rfl⟩)
  · cases hmain
    exact Or.inr (Or.inl ⟨by decide, rfl⟩)
  · cases hmain
    exact Or.inr (Or.inl ⟨by decide, rfl⟩)
  · next hstatus => exact Or.inl ⟨[], .parse hreads hstatus⟩
  · next parsed hstatus =>
    split at hmain
    · next message hbound =>
      exact Or.inl ⟨message, .value hreads hstatus
        ((hparsed parsed hstatus).blames_of_bindOptions hparse hbound)⟩
    · next options hbound =>
      rcases ends_programStart hruntime hmain with ⟨hnone, _⟩ | ⟨_, ⟨hcode, hrun⟩ | hends⟩
      · obtain ⟨hexplicit, hexceeds⟩ := parallelConfig_eq_none_iff.mp hnone
        exact Or.inl ⟨_, .threads hreads hstatus hbound hexplicit hexceeds⟩
      · exact Or.inr (Or.inl ⟨List.mem_cons_of_mem _ (List.mem_singleton.mpr hcode), hrun⟩)
      · exact Or.inr (Or.inr hends)

end Main

/-- **The exit code tells how far the program came.**  A command line that is
read and refused is answered by its message and exit code 2, without a run, and
nothing else is; 130 means that a signal stopped the run before it wrote
anything; and there are no other codes than these, 0 and 1. -/
theorem program_exitCode {lib : HashLibrary} (env : ProgramEnvironment lib) (flag : StopFlag)
    (hparse : ParsesDecimal env.parseUnsigned)
    (hparsed : ∀ parsed, env.parse = .ok parsed → Parsed env.store parsed)
    (hruntime : Sequences env.runtimeRun) (outcome : ProgramOutcome)
    (hmain : programMain env flag = some outcome) :
    (∀ message, RefusedWith env message → outcome = ⟨2, message, none⟩) ∧
    (outcome.exitCode = 2 → ∃ message, RefusedWith env message) ∧
    (outcome.exitCode = 130 → flag.isSet .afterDiscovery = true ∧
      ∃ run, outcome.run = some run ∧ run.WroteNothing) ∧
    outcome.exitCode ∈ [0, 1, 2, 130] := by
  have hrefuses : ∀ message, RefusedWith env message → outcome = ⟨2, message, none⟩ := by
    intro message hrefused
    have hsame : programMain env flag = some ⟨2, message, none⟩ :=
      programMain_of_refused hparse hparsed hrefused
    exact Option.some.inj (hmain.symm.trans hsame)
  rcases refused_or_ends hparse hparsed hruntime hmain with
    ⟨message, hrefused⟩ | ⟨hcode, hrun⟩ | ⟨run, hrun, hcode, hends⟩
  · rw [hrefuses message hrefused]
    have htwo : 2 ∈ [0, 1, 2, 130] := by decide
    exact ⟨hrefuses message hrefused ▸ hrefuses, fun _ => ⟨message, hrefused⟩, nofun, htwo⟩
  · have hmem : ∀ code ∈ [0, 1], code ≠ 2 ∧ code ≠ 130 ∧ code ∈ [0, 1, 2, 130] := by decide
    obtain ⟨htwo, hsignal, hcodes⟩ := hmem _ hcode
    exact ⟨hrefuses, fun heq => absurd heq htwo, fun heq => absurd heq hsignal, hcodes⟩
  · rw [hcode]
    rcases hends with hplain | ⟨hsignalled, hset, hwrote⟩
    · have hmem : ∀ code ∈ [0, 1], code ≠ 2 ∧ code ≠ 130 ∧ code ∈ [0, 1, 2, 130] := by decide
      obtain ⟨htwo, hsignal, hcodes⟩ := hmem _ hplain
      exact ⟨hrefuses, fun heq => absurd heq htwo, fun heq => absurd heq hsignal, hcodes⟩
    · rw [hsignalled]
      exact ⟨hrefuses, nofun, fun _ => ⟨hset, run, hrun, hwrote⟩, by decide⟩

/-! ### a command line that is refused -/

/-- A runtime that calls the callbacks as it is relied on to. -/
def sequentialRun (callbacks : RuntimeCallbacks) (state : ApplicationState) :
    Option ApplicationState :=
  match callbacks.init state with
  | (state, false) => some (callbacks.cleanup state)
  | (state, true) => (callbacks.run state).map fun ran => callbacks.cleanup ran.1

theorem sequences_sequentialRun : Sequences sequentialRun := fun _ _ => rfl

/-- A program for a command line, on four processors, in which nothing fails. -/
def ProgramEnvironment.ofParsed {lib : HashLibrary} (base : ApplicationEnvironment lib)
    (store : ConfigStore) (parsed : CliParsed) : ProgramEnvironment lib where
  createsMemoryContext := true
  createsStore := true
  parse := .ok parsed
  store := store
  parseUnsigned := parseLongest
  logicalProcessorCount := 4
  physicalCoreCount := 2
  createsRuntime _ := true
  runtimeRun := sequentialRun
  createsErrors := true
  createsEntries := true
  allocatesFilter _ := true
  application _ := base

/-- The program on `--threads=auto-io summary .`. -/
def autoIoProgram : ProgramEnvironment .recording :=
  .ofParsed (twoCopies.application scanToFile []) autoIoStore
    ⟨some (ascii "summary"), [ascii "."]⟩

theorem program_exitCode_autoIo : ∃ outcome, programMain autoIoProgram .never = some outcome ∧
    outcome = ⟨2, ascii "bc-duplicate: invalid value for --threads: 'auto-io'\n", none⟩ := by
  have hparsed : ∀ parsed, autoIoProgram.parse = .ok parsed →
      Parsed autoIoProgram.store parsed := by
    intro parsed hstatus
    obtain rfl := ParseStatus.ok.inj hstatus
    exact parsed_autoIo
  have hthreads : ¬ThreadsValue (ascii "auto-io") := by
    rintro (hword | ⟨_, hdigits, _⟩)
    · exact absurd hword (by decide)
    · exact absurd (hdigits 97 (by decide)) (by decide)
  have hends : (programMain autoIoProgram .never).isSome = true := by decide +kernel
  obtain ⟨outcome, hmain⟩ := Option.isSome_iff_exists.mp hends
  obtain ⟨hrefuses, _⟩ := program_exitCode autoIoProgram .never parsesDecimal_parseLongest
    hparsed sequences_sequentialRun outcome hmain
  exact ⟨outcome, hmain, hrefuses (cliLogInvalidValue (ascii "--threads") (ascii "auto-io"))
    (.value ⟨rfl, rfl⟩ rfl (.threads (by decide) hthreads))⟩

end BcDuplicate
