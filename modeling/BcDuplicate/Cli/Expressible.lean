import BcDuplicate.Cli.Binding

/-!
# BcDuplicate.Cli.Expressible

The options a command line can be written for.  The parser itself is not under
`src/`, so a command line is what is relied on of it (`Accepted`).  A store that
holds the values of the options is bound to the same options again, and no other
options are ever bound (`expressible_iff`).
-/

namespace BcDuplicate

open Json

/-! ## options as text -/

/-- The name of a command. -/
def Command.text : Command → Bytes
  | .scan => ascii "scan"
  | .summary => ascii "summary"

def Algorithm.text : Algorithm → Bytes
  | .xxh3 => ascii "xxh3"
  | .xxh128 => ascii "xxh128"
  | .sha256 => ascii "sha256"

def OutputDestination.text : OutputDestination → Bytes
  | .auto => ascii "auto"
  | .stdout => ascii "-"
  | .file path => path

/-- A destination the command can have: that of a scan, a file under a name that
stands for itself, and standard output of a summary. -/
def NamesOutput : Command → OutputDestination → Prop
  | .scan, .file path => path ∉ [[], ascii "auto", ascii "-"] ∧ 0 ∉ path
  | .scan, .auto => True
  | .scan, .stdout => True
  | .summary, destination => destination = .stdout

namespace CommandLine

variable (options : CommandLine)

/-- The value of `--threads`. -/
def threadsText : Bytes :=
  match options.threadsMode with
  | .auto => ascii "auto"
  | .mono => ascii "mono"
  | .io => ascii "io"
  | .explicit => decimal options.explicitWorkerCount

/-- The values of the options, by their keys. -/
def strings : List (Bytes × Option Bytes) :=
  [(ascii "global.threads", some options.threadsText),
    (options.command.text ++ ascii ".algorithm", some options.algorithm.text),
    (options.command.text ++ ascii ".minimum-size", some (decimal options.minimumFileSize)),
    (options.command.text ++ ascii ".include", options.includeList),
    (options.command.text ++ ascii ".exclude", options.excludeList),
    (ascii "scan.output", some options.outputDestination.text)]

/-- The flags, by their keys. -/
def flags : List (Bytes × Bool) :=
  [(options.command.text ++ ascii ".hidden", options.includeHidden),
    (options.command.text ++ ascii ".follow-symlinks", options.followSymlinks),
    (options.command.text ++ ascii ".match-hardlinks", options.matchHardlinks),
    (options.command.text ++ ascii ".one-file-system", options.oneFileSystem)]

/-- The store a command line for the options leaves, of values that can be
written as arguments. -/
def store : ConfigStore := .ofLists options.strings options.flags

/-- What is parsed of it. -/
def parsed : CliParsed := ⟨some options.command.text, options.positionalArgumentValues⟩

/-- **A command line can be written** for the options. -/
structure Expressible : Prop where
  threads : if options.threadsMode = .explicit then
      0 < options.explicitWorkerCount ∧ options.explicitWorkerCount < 2 ^ 64
    else options.explicitWorkerCount = 0
  minimumFileSize : options.minimumFileSize < 2 ^ 64
  namesOutput : NamesOutput options.command options.outputDestination
  includeList : ∀ list, options.includeList = some list → 0 ∉ list
  excludeList : ∀ list, options.excludeList = some list → 0 ∉ list
  paths : options.positionalArgumentValues ≠ []
  terminated : ∀ path ∈ options.positionalArgumentValues, 0 ∉ path

end CommandLine

/-! ## written and bound again -/

section Store

variable {options : CommandLine}

theorem zero_notMem_decimal (n : Nat) : 0 ∉ decimal n := fun hzero =>
  absurd (isDigit_of_mem_decimal hzero) (by decide)

theorem zero_notMem_threadsText : 0 ∉ options.threadsText := by
  unfold CommandLine.threadsText
  split
  · decide
  · decide
  · decide
  · exact zero_notMem_decimal _

theorem zero_notMem_algorithmText (algorithm : Algorithm) : 0 ∉ algorithm.text := by
  cases algorithm <;> decide

/-- No two options share a key. -/
theorem lookup_strings :
    options.strings.lookup (ascii "global.threads") = some (some options.threadsText) ∧
    options.strings.lookup (options.command.text ++ ascii ".algorithm") =
      some (some options.algorithm.text) ∧
    options.strings.lookup (options.command.text ++ ascii ".minimum-size") =
      some (some (decimal options.minimumFileSize)) ∧
    options.strings.lookup (options.command.text ++ ascii ".include") =
      some options.includeList ∧
    options.strings.lookup (options.command.text ++ ascii ".exclude") =
      some options.excludeList ∧
    options.strings.lookup (ascii "scan.output") = some (some options.outputDestination.text) := by
  unfold CommandLine.strings
  cases options.command with
  | scan => exact ⟨rfl, rfl, rfl, rfl, rfl, rfl⟩
  | summary => exact ⟨rfl, rfl, rfl, rfl, rfl, rfl⟩

theorem lookup_flags :
    options.store.getBoolean (options.command.text ++ ascii ".hidden") =
      some options.includeHidden ∧
    options.store.getBoolean (options.command.text ++ ascii ".follow-symlinks") =
      some options.followSymlinks ∧
    options.store.getBoolean (options.command.text ++ ascii ".match-hardlinks") =
      some options.matchHardlinks ∧
    options.store.getBoolean (options.command.text ++ ascii ".one-file-system") =
      some options.oneFileSystem := by
  show options.flags.lookup _ = _ ∧ options.flags.lookup _ = _ ∧ options.flags.lookup _ = _ ∧
    options.flags.lookup _ = _
  unfold CommandLine.flags
  cases options.command with
  | scan => exact ⟨rfl, rfl, rfl, rfl⟩
  | summary => exact ⟨rfl, rfl, rfl, rfl⟩

/-- A value without a zero byte is stored as it is. -/
theorem getString_of_lookup {key : Bytes} {value : Option Bytes}
    (hlookup : options.strings.lookup key = some value)
    (hvalue : ∀ bytes, value = some bytes → 0 ∉ bytes) : options.store.getString key = value := by
  show ((options.strings.lookup key).getD none).filter _ = value
  rw [hlookup, Option.getD_some]
  cases value with
  | none => rfl
  | some bytes => exact Option.filter_some_pos (decide_eq_true (hvalue bytes rfl))

theorem cliBindCommand_text (command : Command) : cliBindCommand command.text = .ok command := by
  cases command <;> decide

theorem cliBindAlgorithm_text (algorithm : Algorithm) :
    cliBindAlgorithm algorithm.text = some algorithm := by
  cases algorithm <;> decide

theorem algorithmText_mem (algorithm : Algorithm) : algorithm.text ∈ algorithmValues := by
  cases algorithm <;> decide

/-- A decimal is not one of the words. -/
theorem decimal_ne_of_head {n : Nat} {word : Bytes} (h : ∃ b ∈ word, isDigit b = false) :
    decimal n ≠ word := by
  rintro rfl
  obtain ⟨b, hb, hdigit⟩ := h
  rw [isDigit_of_mem_decimal hb] at hdigit
  cases hdigit

variable {parseUnsigned : ParseUnsigned} (hparse : ParsesDecimal parseUnsigned)
  (h : options.Expressible)

include hparse h in
theorem cliBindThreads_text : cliBindThreads parseUnsigned options.threadsText =
    some (options.threadsMode, options.explicitWorkerCount) := by
  have hcount := h.threads
  unfold CommandLine.threadsText
  split
  · next hmode =>
    rw [hmode, if_neg nofun] at hcount
    rw [hmode, hcount]
    rfl
  · next hmode =>
    rw [hmode, if_neg nofun] at hcount
    rw [hmode, hcount]
    rfl
  · next hmode =>
    rw [hmode, if_neg nofun] at hcount
    rw [hmode, hcount]
    rfl
  · next hmode =>
    rw [if_pos hmode] at hcount
    obtain ⟨hpos, hlt⟩ := hcount
    unfold cliBindThreads
    simp only [stringsEqual_iff]
    rw [if_neg (decimal_ne_of_head ⟨109, by decide⟩), if_neg (decimal_ne_of_head ⟨97, by decide⟩),
      if_neg (decimal_ne_of_head ⟨105, by decide⟩), cliParseWhole_decimal hparse hlt, hmode]
    exact if_neg (Nat.ne_of_gt hpos)

include h in
/-- The destination of a scan is stored under its name, and bound to itself. -/
theorem output_of_scan (hscan : options.command = .scan) :
    options.store.getString (ascii "scan.output") = some options.outputDestination.text ∧
      cliBindOutput options.outputDestination.text = some options.outputDestination := by
  obtain ⟨_, _, _, _, _, hlookup⟩ := @lookup_strings options
  have hnames := h.namesOutput
  rw [hscan] at hnames
  have hbound : 0 ∉ options.outputDestination.text ∧
      cliBindOutput options.outputDestination.text = some options.outputDestination := by
    cases hdestination : options.outputDestination with
    | auto => exact ⟨by decide, by decide⟩
    | stdout => exact ⟨by decide, by decide⟩
    | file path =>
        rw [hdestination] at hnames
        obtain ⟨hwords, hzero⟩ := hnames
        simp only [List.mem_cons, List.not_mem_nil, or_false, not_or] at hwords
        refine ⟨hzero, ?_⟩
        unfold cliBindOutput OutputDestination.text
        simp only [stringsEqual_iff]
        rw [if_neg hwords.2.1, if_neg hwords.2.2, if_neg hwords.1]
  exact ⟨getString_of_lookup hlookup fun _ hbytes => Option.some.inj hbytes ▸ hbound.1, hbound.2⟩

include h in
theorem cliBindDestination_store :
    cliBindDestination options.store options.command = .ok options.outputDestination := by
  cases hcommand : options.command with
  | summary =>
      have hnames := h.namesOutput
      rw [hcommand] at hnames
      exact congrArg Except.ok hnames.symm
  | scan =>
      obtain ⟨hstored, hbound⟩ := output_of_scan h hcommand
      rw [cliBindDestination, hstored]
      dsimp only
      rw [hbound]

include h in
/-- The store holds what the parser leaves of the options. -/
theorem parsed_store : Parsed options.store options.parsed := by
  obtain ⟨hthreads, halgorithm, hsize, _⟩ := @lookup_strings options
  have hthreads' := getString_of_lookup hthreads fun _ hbytes =>
    Option.some.inj hbytes ▸ zero_notMem_threadsText
  have halgorithm' := getString_of_lookup halgorithm fun _ hbytes =>
    Option.some.inj hbytes ▸ zero_notMem_algorithmText _
  have hsize' := getString_of_lookup hsize fun _ hbytes =>
    Option.some.inj hbytes ▸ zero_notMem_decimal _
  have hsummary : ∀ option ∈ summaryOptions, option.Stored options.store options.command.text := by
    intro option hoption
    simp only [summaryOptions, List.mem_cons, List.not_mem_nil, or_false] at hoption
    rcases hoption with rfl | rfl | rfl | rfl | rfl | rfl | rfl | rfl
    · refine ⟨_, algorithmText_mem options.algorithm, ?_⟩
      rw [CliOptionSpec.key, List.append_assoc]
      exact halgorithm'
    · refine ⟨decimal options.minimumFileSize, ?_⟩
      rw [CliOptionSpec.key, List.append_assoc]
      exact hsize'
    all_goals exact trivial
  refine ⟨fun option hoption => ?_, ?_⟩
  · rw [List.mem_singleton.mp hoption]
    exact ⟨_, hthreads'⟩
  · cases hcommand : options.command with
    | scan =>
        refine ⟨⟨ascii "scan", scanOptions, 1, 0⟩, List.mem_cons_self, ?_, fun option hoption => ?_⟩
        · rw [CommandLine.parsed, hcommand]
          rfl
        · rcases List.mem_append.mp hoption with hshared | houtput
          · rw [hcommand] at hsummary
            exact hsummary option hshared
          · rw [List.mem_singleton.mp houtput]
            exact ⟨_, (output_of_scan h hcommand).1⟩
    | summary =>
        refine ⟨⟨ascii "summary", summaryOptions, 1, 0⟩, List.mem_cons_of_mem _ List.mem_cons_self,
          ?_, fun option hoption => ?_⟩
        · rw [CommandLine.parsed, hcommand]
          rfl
        · rw [hcommand] at hsummary
          exact hsummary option hoption

/-- Every command takes one path or more. -/
theorem takesPaths_iff {command : CliCommandSpec} (hcommand : command ∈ cliProgramSpec.commands)
    (paths : List Bytes) : command.TakesPaths paths ↔ paths ≠ [] := by
  have hbounds : ∀ command ∈ cliProgramSpec.commands,
      command.positionalMin = 1 ∧ command.positionalMax = 0 := by decide
  obtain ⟨hmin, hmax⟩ := hbounds command hcommand
  rw [CliCommandSpec.TakesPaths, hmin, hmax, Nat.succ_le_iff, List.length_pos_iff]
  exact and_iff_left (Or.inl rfl)

include h in
/-- The parser may accept a command line with this store. -/
theorem accepted_store : Accepted options.store options.parsed where
  toParsed := parsed_store h
  takesPaths _ hcommand _ := (takesPaths_iff hcommand _).mpr h.paths
  terminated := h.terminated

include hparse h in
/-- **What is written is bound again.** -/
theorem bindOptions_store :
    cliBindOptions parseUnsigned options.store options.parsed = .ok options := by
  obtain ⟨hthreads, halgorithm, hsize, hinclude, hexclude, _⟩ := @lookup_strings options
  obtain ⟨hhidden, hfollow, hmatch, hone⟩ := @lookup_flags options
  have hlength : options.command.text.length ≤ 100 := by
    cases options.command <;> decide
  rw [cliBindOptions_eq (getString_of_lookup hthreads fun _ hbytes =>
      Option.some.inj hbytes ▸ zero_notMem_threadsText) (cliBindThreads_text hparse h) rfl
      (cliBindCommand_text _),
    cliBindCommandOptions_eq hlength (getString_of_lookup halgorithm fun _ hbytes =>
      Option.some.inj hbytes ▸ zero_notMem_algorithmText _) (cliBindAlgorithm_text _)
      (getString_of_lookup hsize fun _ hbytes =>
        Option.some.inj hbytes ▸ zero_notMem_decimal _),
    cliBindMinimumSize, cliParseWhole_decimal hparse h.minimumFileSize]
  show (cliBindDestination options.store options.command).bind _ = _
  rw [cliBindDestination_store h]
  refine congrArg Except.ok ?_
  unfold CommandLine.bound
  rw [getString_of_lookup hinclude h.includeList, getString_of_lookup hexclude h.excludeList,
    hhidden, hfollow, hmatch, hone]
  rfl

end Store

/-! ## nothing else is bound -/

section Bound

variable {parseUnsigned : ParseUnsigned} {store : ConfigStore}

theorem exists_of_bind_eq_ok {ε α β : Type} {x : Except ε α} {f : α → Except ε β} {b : β}
    (h : x >>= f = .ok b) : ∃ a, x = .ok a ∧ f a = .ok b := by
  cases x with
  | error e => cases h
  | ok a => exact ⟨a, rfl, h⟩

theorem exists_of_cliBindRequired {α : Type} {bind : Bytes → Option α}
    {commandName suffix optionName : Bytes} {bound : α}
    (h : cliBindRequired store commandName suffix optionName bind = .ok bound) :
    ∃ value, bind value = some bound := by
  obtain ⟨key, _, hrest⟩ := exists_of_bind_eq_ok h
  split at hrest
  · cases hrest
  · next value _ =>
    split at hrest
    · cases hrest
    · next result hbound =>
      cases hrest
      exact ⟨value, hbound⟩

theorem zero_notMem_of_cliBindList {commandName suffix : Bytes} {list : Option Bytes}
    (h : cliBindList store commandName suffix = .ok list) :
    ∀ value, list = some value → 0 ∉ value := by
  obtain ⟨key, _, hrest⟩ := exists_of_bind_eq_ok h
  cases hrest
  exact fun value => store.terminated key value

/-- What the options of a command set, and what they leave. -/
theorem of_cliBindCommandOptions (hparse : ParsesDecimal parseUnsigned) {commandName : Bytes}
    {options bound : CommandLine}
    (h : cliBindCommandOptions parseUnsigned store commandName options = .ok bound) :
    bound.command = options.command ∧ bound.threadsMode = options.threadsMode ∧
      bound.explicitWorkerCount = options.explicitWorkerCount ∧ bound.minimumFileSize < 2 ^ 64 ∧
      (∀ list, bound.includeList = some list → 0 ∉ list) ∧
      ∀ list, bound.excludeList = some list → 0 ∉ list := by
  obtain ⟨_, _, h⟩ := exists_of_bind_eq_ok h
  obtain ⟨_, hsize, h⟩ := exists_of_bind_eq_ok h
  obtain ⟨_, hinclude, h⟩ := exists_of_bind_eq_ok h
  obtain ⟨_, hexclude, h⟩ := exists_of_bind_eq_ok h
  obtain ⟨_, _, h⟩ := exists_of_bind_eq_ok h
  obtain ⟨_, _, h⟩ := exists_of_bind_eq_ok h
  obtain ⟨_, _, h⟩ := exists_of_bind_eq_ok h
  obtain ⟨_, _, h⟩ := exists_of_bind_eq_ok h
  cases h
  obtain ⟨value, hvalue⟩ := exists_of_cliBindRequired hsize
  obtain ⟨hnumber, rfl⟩ := (cliParseWhole_eq_some_iff hparse).mp hvalue
  exact ⟨rfl, rfl, rfl, hnumber.2.2, zero_notMem_of_cliBindList hinclude,
    zero_notMem_of_cliBindList hexclude⟩

/-- The threads that are bound. -/
theorem of_cliBindThreads (hparse : ParsesDecimal parseUnsigned) {value : Bytes}
    {threadsMode : ThreadsMode} {explicitWorkerCount : Nat}
    (h : cliBindThreads parseUnsigned value = some (threadsMode, explicitWorkerCount)) :
    if threadsMode = .explicit then 0 < explicitWorkerCount ∧ explicitWorkerCount < 2 ^ 64
    else explicitWorkerCount = 0 := by
  unfold cliBindThreads at h
  split at h
  · cases h
    rfl
  · split at h
    · cases h
      rfl
    · split at h
      · cases h
        rfl
      · split at h
        · cases h
        · next parsedValue hparsed =>
          split at h
          · cases h
            rfl
          · next hne =>
            cases h
            obtain ⟨hnumber, rfl⟩ := (cliParseWhole_eq_some_iff hparse).mp hparsed
            exact ⟨Nat.pos_of_ne_zero hne, hnumber.2.2⟩

/-- The destination that is bound. -/
theorem of_cliBindDestination {command : Command} {destination : OutputDestination}
    (h : cliBindDestination store command = .ok destination) :
    NamesOutput command destination := by
  cases command with
  | summary => exact (Except.ok.inj h).symm
  | scan =>
      rw [cliBindDestination] at h
      split at h
      · cases h
      · next value hstored =>
        split at h
        · cases h
        · next bound hbound =>
          cases h
          unfold cliBindOutput at hbound
          simp only [stringsEqual_iff] at hbound
          split at hbound
          · cases hbound
            trivial
          · next hauto =>
            split at hbound
            · cases hbound
              trivial
            · next hdash =>
              split at hbound
              · cases hbound
              · next hempty =>
                cases hbound
                have hwords : value ∉ [[], ascii "auto", ascii "-"] := by
                  simp only [List.mem_cons, List.not_mem_nil, or_false, not_or]
                  exact ⟨hempty, hauto, hdash⟩
                exact ⟨hwords, store.terminated _ _ hstored⟩

/-- **Options that are bound can be written.** -/
theorem expressible_of_bindOptions (hparse : ParsesDecimal parseUnsigned) {parsed : CliParsed}
    (haccepted : Accepted store parsed) {options : CommandLine}
    (h : cliBindOptions parseUnsigned store parsed = .ok options) : options.Expressible := by
  obtain ⟨spec, hspec, hname, _⟩ := haccepted.command
  have hpaths := (takesPaths_iff hspec _).mp (haccepted.takesPaths spec hspec hname)
  obtain ⟨⟨threadsMode, explicitWorkerCount⟩, hthreads, h⟩ := exists_of_bind_eq_ok h
  dsimp only at h
  split at h
  · cases h
  · obtain ⟨command, _, h⟩ := exists_of_bind_eq_ok h
    obtain ⟨bound, hbound, h⟩ := exists_of_bind_eq_ok h
    obtain ⟨destination, hdestination, h⟩ := exists_of_bind_eq_ok h
    cases h
    obtain ⟨hcommand, hmode, hcount, hsize, hinclude, hexclude⟩ :=
      of_cliBindCommandOptions hparse hbound
    refine ⟨?_, hsize, ?_, hinclude, hexclude, hpaths, haccepted.terminated⟩
    · show if bound.threadsMode = .explicit then 0 < bound.explicitWorkerCount ∧
        bound.explicitWorkerCount < 2 ^ 64 else bound.explicitWorkerCount = 0
      rw [hmode, hcount]
      rw [cliBindGlobalThreads] at hthreads
      split at hthreads
      · cases hthreads
      · split at hthreads
        · cases hthreads
        · next threads hvalue =>
          cases hthreads
          exact of_cliBindThreads hparse hvalue
    · show NamesOutput bound.command destination
      rw [hcommand]
      exact of_cliBindDestination hdestination

end Bound

/-- **The options of the command line.**  The options that can be bound of what
the parser accepts are exactly those a command line can be written for, and the
store with their values is bound to them. -/
theorem expressible_iff {parseUnsigned : ParseUnsigned} (hparse : ParsesDecimal parseUnsigned)
    (options : CommandLine) :
    (options.Expressible ↔ Accepted options.store options.parsed ∧
      cliBindOptions parseUnsigned options.store options.parsed = .ok options) ∧
    ∀ (store : ConfigStore) (parsed : CliParsed), Accepted store parsed →
      cliBindOptions parseUnsigned store parsed = .ok options → options.Expressible :=
  ⟨⟨fun h => ⟨accepted_store h, bindOptions_store hparse h⟩,
      fun h => expressible_of_bindOptions hparse h.1 h.2⟩,
    fun _ _ haccepted h => expressible_of_bindOptions hparse haccepted h⟩

/-- Scanning with three workers for files of one byte and more, to a file. -/
def scanWithThree : CommandLine :=
  ⟨⟨.scan, .sha256, .explicit, .file [114], false⟩, 3, 1, some [42], none, true, false, true, [[46]]⟩

theorem expressible_iff_scanWithThree :
    cliBindOptions parseLongest scanWithThree.store scanWithThree.parsed = .ok scanWithThree := by
  obtain ⟨hwritten, _⟩ := expressible_iff parsesDecimal_parseLongest scanWithThree
  refine (hwritten.mp ⟨⟨by decide, by decide⟩, by decide, ⟨by decide, by decide⟩, ?_, nofun,
    by decide, by decide⟩).2
  intro list hlist
  obtain rfl := Option.some.inj hlist
  decide

end BcDuplicate
