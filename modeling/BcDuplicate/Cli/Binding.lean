import BcDuplicate.Cli
import Mathlib.Data.List.TakeWhile

/-!
# BcDuplicate.Cli.Binding

The binding of a command line after the parser accepted it.  It fails only on
a value the user gave: the first of `--threads`, `--minimum-size` and
`--output` that is not well formed, which the message names
(`bindOptions_error_iff`).  The options that can be bound are exactly those
that a command line can be written for (`expressible_iff`).
-/

namespace BcDuplicate

open Json

/-! ## numbers -/

/-- What is relied on of `bc_core_parse_unsigned_integer_64_decimal`: it reads
the digits in front as far as they go, and refuses none and too large ones. -/
structure ParsesDecimal (parseUnsigned : ParseUnsigned) : Prop where
  accepts : ∀ digits rest : Bytes, digits ≠ [] → (∀ b ∈ digits, isDigit b = true) → Stops rest →
    digitsValue digits < 2 ^ 64 →
    parseUnsigned (digits ++ rest) = some (digitsValue digits, digits.length)
  refuses : ∀ bytes value consumed, parseUnsigned bytes = some (value, consumed) →
    0 < consumed ∧ (∀ b ∈ bytes.take consumed, isDigit b = true) ∧
      value = digitsValue (bytes.take consumed) ∧ value < 2 ^ 64

/-- A decimal number of 64 bits, and nothing else. -/
def IsNumber (value : Bytes) : Prop :=
  value ≠ [] ∧ (∀ b ∈ value, isDigit b = true) ∧ digitsValue value < 2 ^ 64

theorem decimal_ne_empty (n : Nat) : decimal n ≠ [] := by
  obtain ⟨b, digits, heq, _⟩ := decimal_eq_cons n
  rw [heq]
  exact List.cons_ne_nil _ _

theorem isNumber_decimal {n : Nat} (hn : n < 2 ^ 64) : IsNumber (decimal n) :=
  ⟨decimal_ne_empty n, fun _ hb => isDigit_of_mem_decimal hb, (digitsValue_decimal n).symm ▸ hn⟩

/-- **A whole number** is read exactly from its digits. -/
theorem cliParseWhole_eq_some_iff {parseUnsigned : ParseUnsigned} (h : ParsesDecimal parseUnsigned)
    {value : Bytes} {n : Nat} :
    cliParseWhole parseUnsigned value = some n ↔ IsNumber value ∧ digitsValue value = n := by
  constructor
  · intro hread
    unfold cliParseWhole at hread
    split at hread
    · cases hread
    · next hne =>
      split at hread
      · cases hread
      · next parsedValue consumed hparsed =>
        split at hread
        · cases hread
        · next hwhole =>
          cases hread
          obtain ⟨_, hdigits, hvalue, hlt⟩ := h.refuses value n consumed hparsed
          rw [not_not.mp hwhole, List.take_length] at hdigits hvalue
          exact ⟨⟨hne, hdigits, hvalue ▸ hlt⟩, hvalue.symm⟩
  · rintro ⟨⟨hne, hdigits, hlt⟩, rfl⟩
    have hread := h.accepts value [] hne hdigits nofun hlt
    rw [List.append_nil] at hread
    rw [cliParseWhole, if_neg hne, hread]
    exact if_neg (not_not.mpr rfl)

theorem cliParseWhole_eq_none_iff {parseUnsigned : ParseUnsigned} (h : ParsesDecimal parseUnsigned)
    {value : Bytes} : cliParseWhole parseUnsigned value = none ↔ ¬IsNumber value := by
  rw [Option.eq_none_iff_forall_ne_some]
  constructor
  · intro hnone hnumber
    exact hnone _ ((cliParseWhole_eq_some_iff h).mpr ⟨hnumber, rfl⟩)
  · intro hnumber n hread
    exact hnumber ((cliParseWhole_eq_some_iff h).mp hread).1

theorem cliParseWhole_decimal {parseUnsigned : ParseUnsigned} (h : ParsesDecimal parseUnsigned)
    {n : Nat} (hn : n < 2 ^ 64) : cliParseWhole parseUnsigned (decimal n) = some n :=
  (cliParseWhole_eq_some_iff h).mpr ⟨isNumber_decimal hn, digitsValue_decimal n⟩

/-! ## values -/

@[simp] theorem stringsEqual_iff {left right : Bytes} :
    stringsEqual left right = true ↔ left = right := by
  unfold stringsEqual
  split
  · next hlength => exact ⟨nofun, fun heq => absurd (congrArg List.length heq) hlength⟩
  · exact decide_eq_true_iff

/-- A value of `--threads`. -/
def ThreadsValue (value : Bytes) : Prop :=
  value ∈ [ascii "mono", ascii "auto", ascii "io"] ∨ IsNumber value

theorem cliBindThreads_eq_none_iff {parseUnsigned : ParseUnsigned} (h : ParsesDecimal parseUnsigned)
    {value : Bytes} : cliBindThreads parseUnsigned value = none ↔ ¬ThreadsValue value := by
  unfold cliBindThreads ThreadsValue
  simp only [stringsEqual_iff, List.mem_cons, List.not_mem_nil, or_false]
  split
  · next hmono => simp [hmono]
  · next hmono =>
    split
    · next hauto => simp [hauto]
    · next hauto =>
      split
      · next hio => simp [hio]
      · next hio =>
        rw [or_iff_right (by rintro (heq | heq | heq) <;> contradiction),
          ← cliParseWhole_eq_none_iff h]
        split
        · next hnone => simp [hnone]
        · next n hsome =>
          rw [hsome]
          split <;> simp

theorem cliBindOutput_eq_none_iff {value : Bytes} : cliBindOutput value = none ↔ value = [] := by
  unfold cliBindOutput
  simp only [stringsEqual_iff]
  split
  · next hauto => simp [hauto, ascii]
  · split
    · next hdash => simp [hdash, ascii]
    · simp

/-- Every allowed value of `--algorithm` is bound. -/
theorem exists_cliBindAlgorithm {value : Bytes} (h : value ∈ algorithmValues) :
    ∃ algorithm, cliBindAlgorithm value = some algorithm := by
  simp only [algorithmValues, List.mem_cons, List.not_mem_nil, or_false] at h
  rcases h with rfl | rfl | rfl
  · exact ⟨.xxh3, by decide⟩
  · exact ⟨.xxh128, by decide⟩
  · exact ⟨.sha256, by decide⟩

/-! ## the options of a command -/

/-- The options of a command, bound from the store. -/
def CommandLine.bound (options : CommandLine) (store : ConfigStore) (commandName : Bytes)
    (algorithm : Algorithm) (minimumFileSize : Nat) : CommandLine :=
  { options with
    algorithm, minimumFileSize
    includeList := store.getString (commandName ++ ascii ".include")
    excludeList := store.getString (commandName ++ ascii ".exclude")
    includeHidden := (store.getBoolean (commandName ++ ascii ".hidden")).getD false
    followSymlinks := (store.getBoolean (commandName ++ ascii ".follow-symlinks")).getD false
    matchHardlinks := (store.getBoolean (commandName ++ ascii ".match-hardlinks")).getD false
    oneFileSystem := (store.getBoolean (commandName ++ ascii ".one-file-system")).getD false }

section Command

variable {store : ConfigStore} {commandName suffix : Bytes}

theorem cliCommandKey_eq (h : (commandName ++ suffix).length < cliKeyCapacity) :
    cliCommandKey commandName suffix = .ok (commandName ++ suffix) := by
  rw [cliCommandKey, cliFormatCommandKey, if_pos (Nat.le_sub_one_of_lt h)]

theorem ok_bind {ε α β : Type} (a : α) (f : α → Except ε β) : (Except.ok a >>= f) = f a := rfl

theorem cliBindRequired_eq {α : Type} {bind : Bytes → Option α} {optionName value : Bytes}
    (hkey : (commandName ++ suffix).length < cliKeyCapacity)
    (hvalue : store.getString (commandName ++ suffix) = some value) :
    cliBindRequired store commandName suffix optionName bind =
      (bind value).elim (.error (cliLogInvalidValue optionName value)) .ok := by
  rw [cliBindRequired, cliCommandKey_eq hkey, ok_bind]
  simp only [hvalue]
  cases bind value with
  | none => rfl
  | some bound => rfl

theorem cliBindList_eq (hkey : (commandName ++ suffix).length < cliKeyCapacity) :
    cliBindList store commandName suffix = .ok (store.getString (commandName ++ suffix)) := by
  rw [cliBindList, cliCommandKey_eq hkey]
  rfl

theorem cliBindFlag_eq (hkey : (commandName ++ suffix).length < cliKeyCapacity) :
    cliBindFlag store commandName suffix =
      .ok ((store.getBoolean (commandName ++ suffix)).getD false) := by
  rw [cliBindFlag, cliCommandKey_eq hkey]
  rfl

/-- The options of a command whose name leaves room for the longest key. -/
theorem cliBindCommandOptions_eq {parseUnsigned : ParseUnsigned} {options : CommandLine}
    (hname : commandName.length ≤ 100) {algorithm : Algorithm} {algorithmValue sizeValue : Bytes}
    (halgorithm : store.getString (commandName ++ ascii ".algorithm") = some algorithmValue)
    (hbound : cliBindAlgorithm algorithmValue = some algorithm)
    (hsize : store.getString (commandName ++ ascii ".minimum-size") = some sizeValue) :
    cliBindCommandOptions parseUnsigned store commandName options =
      (cliBindMinimumSize parseUnsigned sizeValue).elim
        (.error (cliLogInvalidValue (ascii "--minimum-size") sizeValue))
        fun minimumFileSize =>
          .ok (options.bound store commandName algorithm minimumFileSize) := by
  have hkey : ∀ suffix : Bytes, suffix.length ≤ 20 →
      (commandName ++ suffix).length < cliKeyCapacity := by
    intro suffix hsuffix
    rw [List.length_append, cliKeyCapacity]
    omega
  rw [cliBindCommandOptions, cliBindRequired_eq (hkey _ (by decide)) halgorithm, hbound,
    cliBindRequired_eq (hkey _ (by decide)) hsize]
  cases cliBindMinimumSize parseUnsigned sizeValue with
  | none => rfl
  | some minimumFileSize =>
      rw [cliBindList_eq (hkey _ (by decide)), cliBindList_eq (hkey _ (by decide)),
        cliBindFlag_eq (hkey _ (by decide)), cliBindFlag_eq (hkey _ (by decide)),
        cliBindFlag_eq (hkey _ (by decide)), cliBindFlag_eq (hkey _ (by decide))]
      rfl

end Command

/-! ## after the parser -/

/-- The key under which the parser stores an option. -/
def CliOptionSpec.key (option : CliOptionSpec) (section_ : Bytes) : Bytes :=
  section_ ++ ascii "." ++ option.longName

/-- The parser stored a value for the option: a string has one, its default if
no other, and that of an enumeration is an allowed one. -/
def CliOptionSpec.Stored (option : CliOptionSpec) (store : ConfigStore) (section_ : Bytes) : Prop :=
  match option.type with
  | .string => ∃ value, store.getString (option.key section_) = some value
  | .enum => ∃ value ∈ option.allowedValues, store.getString (option.key section_) = some value
  | .list => True
  | .flag => True

/-- The store of some values by their keys, those that can be C strings. -/
def ConfigStore.ofLists (strings : List (Bytes × Option Bytes)) (flags : List (Bytes × Bool)) :
    ConfigStore where
  getString key := ((strings.lookup key).getD none).filter fun value => decide (0 ∉ value)
  getBoolean key := flags.lookup key
  terminated _ _ hstored := of_decide_eq_true (Option.filter_eq_some_iff.mp hstored).2

/-- What is relied on of `bc_runtime_cli_parse` about the options when it accepts
a command line for the tables of the program. -/
structure Parsed (store : ConfigStore) (parsed : CliParsed) : Prop where
  globals : ∀ option ∈ cliProgramSpec.globalOptions, option.Stored store (ascii "global")
  command : ∃ command ∈ cliProgramSpec.commands, parsed.command = some command.name ∧
    ∀ option ∈ command.options, option.Stored store command.name

/-- The command takes so many paths. -/
def CliCommandSpec.TakesPaths (command : CliCommandSpec) (paths : List Bytes) : Prop :=
  command.positionalMin ≤ paths.length ∧
    (command.positionalMax = 0 ∨ paths.length ≤ command.positionalMax)

/-- What is relied on of it about the paths as well: they are C strings, as many
as the command takes. -/
structure Accepted (store : ConfigStore) (parsed : CliParsed) : Prop
    extends Parsed store parsed where
  takesPaths : ∀ command ∈ cliProgramSpec.commands, parsed.command = some command.name →
    command.TakesPaths parsed.positionalValues
  terminated : ∀ path ∈ parsed.positionalValues, 0 ∉ path

/-- The message about a value of the command line: the first of the three that
is not well formed. -/
inductive Blames (store : ConfigStore) (parsed : CliParsed) : Bytes → Prop
  | threads {value : Bytes} (stored : store.getString (ascii "global.threads") = some value)
      (malformed : ¬ThreadsValue value) :
      Blames store parsed (cliLogInvalidValue (ascii "--threads") value)
  | minimumSize {threads commandName value : Bytes}
      (threadsStored : store.getString (ascii "global.threads") = some threads)
      (threadsFormed : ThreadsValue threads) (command : parsed.command = some commandName)
      (stored : store.getString (commandName ++ ascii ".minimum-size") = some value)
      (malformed : ¬IsNumber value) :
      Blames store parsed (cliLogInvalidValue (ascii "--minimum-size") value)
  | output {threads size : Bytes}
      (threadsStored : store.getString (ascii "global.threads") = some threads)
      (threadsFormed : ThreadsValue threads) (command : parsed.command = some (ascii "scan"))
      (sizeStored : store.getString (ascii "scan.minimum-size") = some size)
      (sizeFormed : IsNumber size) (stored : store.getString (ascii "scan.output") = some []) :
      Blames store parsed (cliLogInvalidValue (ascii "--output") [])

section Parsed

variable {store : ConfigStore} {parsed : CliParsed} (h : Parsed store parsed)
include h

theorem Parsed.exists_threads : ∃ value, store.getString (ascii "global.threads") = some value :=
  h.globals _ (List.mem_singleton_self _)

/-- The two commands, each with the values of its options. -/
theorem Parsed.command_cases : ∃ commandName algorithmValue algorithm sizeValue,
    parsed.command = some commandName ∧
      store.getString (commandName ++ ascii ".algorithm") = some algorithmValue ∧
      cliBindAlgorithm algorithmValue = some algorithm ∧
      store.getString (commandName ++ ascii ".minimum-size") = some sizeValue ∧
      ((commandName = ascii "scan" ∧
          ∃ value, store.getString (ascii "scan.output") = some value) ∨
        commandName = ascii "summary") := by
  obtain ⟨command, hmem, hname, hstored⟩ := h.command
  simp only [cliProgramSpec, List.mem_cons, List.not_mem_nil, or_false] at hmem
  have hshared : ∀ option ∈ summaryOptions, option ∈ command.options := by
    intro option hoption
    rcases hmem with rfl | rfl
    · exact List.mem_append_left _ hoption
    · exact hoption
  obtain ⟨algorithmValue, hallowed, halgorithm⟩ :=
    hstored _ (hshared _ (List.mem_cons_self (l := summaryOptions.tail)))
  obtain ⟨sizeValue, hsize⟩ := hstored _ (hshared _ (List.mem_cons_of_mem _ List.mem_cons_self))
  obtain ⟨algorithm, hbound⟩ := exists_cliBindAlgorithm hallowed
  rw [CliOptionSpec.key, List.append_assoc] at halgorithm hsize
  refine ⟨command.name, algorithmValue, algorithm, sizeValue, hname, halgorithm, hbound, hsize, ?_⟩
  rcases hmem with rfl | rfl
  · exact Or.inl ⟨rfl, hstored _ (List.mem_append_right summaryOptions List.mem_cons_self)⟩
  · exact Or.inr rfl

end Parsed

section Bind

variable {parseUnsigned : ParseUnsigned} (hparse : ParsesDecimal parseUnsigned)
  {store : ConfigStore} {parsed : CliParsed}
include hparse

/-- Threads that are not well formed stop the binding at once. -/
theorem cliBindOptions_of_threads {threads : Bytes}
    (hstored : store.getString (ascii "global.threads") = some threads)
    (hmalformed : ¬ThreadsValue threads) :
    cliBindOptions parseUnsigned store parsed =
      .error (cliLogInvalidValue (ascii "--threads") threads) := by
  have hthreads : cliBindGlobalThreads parseUnsigned store =
      .error (cliLogInvalidValue (ascii "--threads") threads) := by
    rw [cliBindGlobalThreads, hstored]
    dsimp only
    rw [(cliBindThreads_eq_none_iff hparse).mpr hmalformed]
  rw [cliBindOptions, hthreads]
  rfl

omit hparse in
/-- Past the threads and the name of the command. -/
theorem cliBindOptions_eq {threads commandName : Bytes} {command : Command}
    {threadsMode : ThreadsMode} {explicitWorkerCount : Nat}
    (hstored : store.getString (ascii "global.threads") = some threads)
    (hthreads : cliBindThreads parseUnsigned threads = some (threadsMode, explicitWorkerCount))
    (hcommand : parsed.command = some commandName)
    (hname : cliBindCommand commandName = .ok command) :
    cliBindOptions parseUnsigned store parsed =
      (cliBindCommandOptions parseUnsigned store commandName
        { CommandLine.zeroed with command, threadsMode, explicitWorkerCount }).bind fun options =>
          (cliBindDestination store command).bind fun outputDestination =>
            .ok { options with
              outputDestination
              positionalArgumentValues := parsed.positionalValues } := by
  have hglobal : cliBindGlobalThreads parseUnsigned store =
      .ok (threadsMode, explicitWorkerCount) := by
    rw [cliBindGlobalThreads, hstored]
    dsimp only
    rw [hthreads]
  rw [cliBindOptions, hglobal, ok_bind]
  dsimp only
  rw [hcommand]
  dsimp only
  rw [hname]
  rfl

variable (h : Parsed store parsed)
include h

/-- Past the options of the command, when its minimum size is well formed. -/
theorem Parsed.exists_bindOptions_eq {threads commandName size : Bytes}
    (hstored : store.getString (ascii "global.threads") = some threads)
    (hformed : ThreadsValue threads) (hcommand : parsed.command = some commandName)
    (hsize : store.getString (commandName ++ ascii ".minimum-size") = some size) :
    ∃ command, cliBindCommand commandName = .ok command ∧
      (¬IsNumber size → cliBindOptions parseUnsigned store parsed =
        .error (cliLogInvalidValue (ascii "--minimum-size") size)) ∧
      (IsNumber size → ∃ options : CommandLine, cliBindOptions parseUnsigned store parsed =
        (cliBindDestination store command).bind fun outputDestination =>
          .ok { options with outputDestination }) := by
  obtain ⟨commandName', algorithmValue, algorithm, size', hcommand', halgorithm, hbound, hsize',
    hnames⟩ := h.command_cases
  rw [hcommand, Option.some.injEq] at hcommand'
  subst hcommand'
  rw [hsize, Option.some.injEq] at hsize'
  subst hsize'
  obtain ⟨command, hname, hlength⟩ : ∃ command, cliBindCommand commandName = .ok command ∧
      commandName.length ≤ 100 := by
    rcases hnames with ⟨rfl, _⟩ | rfl
    · exact ⟨.scan, by decide, by decide⟩
    · exact ⟨.summary, by decide, by decide⟩
  obtain ⟨⟨threadsMode, explicitWorkerCount⟩, hthreads⟩ := Option.ne_none_iff_exists'.mp
    fun hnone => (cliBindThreads_eq_none_iff hparse).mp hnone hformed
  have hbind := cliBindOptions_eq hstored hthreads hcommand hname
  rw [cliBindCommandOptions_eq hlength halgorithm hbound hsize] at hbind
  refine ⟨command, hname, fun hmalformed => ?_, fun hnumber => ?_⟩
  · rw [hbind, cliBindMinimumSize, (cliParseWhole_eq_none_iff hparse).mpr hmalformed]
    rfl
  · rw [hbind, cliBindMinimumSize, (cliParseWhole_eq_some_iff hparse).mpr ⟨hnumber, rfl⟩]
    exact ⟨{ CommandLine.bound { CommandLine.zeroed with
        command, threadsMode, explicitWorkerCount } store commandName algorithm
          (digitsValue size) with
      positionalArgumentValues := parsed.positionalValues }, rfl⟩

/-- The message names the value that is to blame. -/
theorem Parsed.bindOptions_of_blames {message : Bytes} (hblames : Blames store parsed message) :
    cliBindOptions parseUnsigned store parsed = .error message := by
  cases hblames with
  | threads stored malformed => exact cliBindOptions_of_threads hparse stored malformed
  | minimumSize threadsStored threadsFormed command stored malformed =>
      obtain ⟨_, _, hmalformed, _⟩ :=
        h.exists_bindOptions_eq hparse threadsStored threadsFormed command stored
      exact hmalformed malformed
  | output threadsStored threadsFormed command sizeStored sizeFormed stored =>
      obtain ⟨bound, hname, _, hnumber⟩ :=
        h.exists_bindOptions_eq hparse threadsStored threadsFormed command sizeStored
      obtain ⟨options, hbind⟩ := hnumber sizeFormed
      have hscan : cliBindCommand (ascii "scan") = .ok .scan := by decide
      rw [hscan, Except.ok.injEq] at hname
      rw [hbind, ← hname, cliBindDestination, stored]
      rfl

/-- A value is to blame, or the options are bound. -/
theorem Parsed.blames_or_binds :
    (∃ message, Blames store parsed message) ∨
      ∃ options, cliBindOptions parseUnsigned store parsed = .ok options := by
  obtain ⟨threads, hthreads⟩ := h.exists_threads
  obtain ⟨commandName, _, _, size, hcommand, _, _, hsize, hnames⟩ := h.command_cases
  by_cases hformed : ThreadsValue threads
  · by_cases hnumber : IsNumber size
    · obtain ⟨command, hname, _, hbinds⟩ :=
        h.exists_bindOptions_eq hparse hthreads hformed hcommand hsize
      obtain ⟨options, hbind⟩ := hbinds hnumber
      rcases hnames with ⟨rfl, value, houtput⟩ | rfl
      · have hscan : cliBindCommand (ascii "scan") = .ok .scan := by decide
        rw [hscan, Except.ok.injEq] at hname
        by_cases hempty : value = []
        · subst hempty
          exact Or.inl ⟨_, .output hthreads hformed hcommand hsize hnumber houtput⟩
        · obtain ⟨destination, hdestination⟩ := Option.ne_none_iff_exists'.mp
            (mt cliBindOutput_eq_none_iff.mp hempty)
          refine Or.inr ⟨{ options with outputDestination := destination }, ?_⟩
          rw [hbind, ← hname, cliBindDestination, houtput]
          dsimp only
          rw [hdestination]
          rfl
      · have hsummary : cliBindCommand (ascii "summary") = .ok .summary := by decide
        rw [hsummary, Except.ok.injEq] at hname
        exact Or.inr ⟨_, hname ▸ hbind⟩
    · exact Or.inl ⟨_, .minimumSize hthreads hformed hcommand hsize hnumber⟩
  · exact Or.inl ⟨_, .threads hthreads hformed⟩

/-- A binding that fails blames a value. -/
theorem Parsed.blames_of_bindOptions {message : Bytes}
    (hfailed : cliBindOptions parseUnsigned store parsed = .error message) :
    Blames store parsed message := by
  rcases h.blames_or_binds hparse with ⟨blamed, hblames⟩ | ⟨options, hbinds⟩
  · have hsame := (h.bindOptions_of_blames hparse hblames).symm.trans hfailed
    exact Except.error.inj hsame ▸ hblames
  · rw [hbinds] at hfailed
    cases hfailed

end Bind

/-- **The binding fails only on what the user gave.**  After the parser it
fails exactly when `--threads`, `--minimum-size` or `--output` is not well
formed, with the message about the first of them. -/
theorem bindOptions_error_iff {parseUnsigned : ParseUnsigned} (hparse : ParsesDecimal parseUnsigned)
    {store : ConfigStore} {parsed : CliParsed} (h : Parsed store parsed) (message : Bytes) :
    cliBindOptions parseUnsigned store parsed = .error message ↔ Blames store parsed message :=
  ⟨h.blames_of_bindOptions hparse, h.bindOptions_of_blames hparse⟩

/-! ### a word that is no number of threads -/

/-- The digits in front, as far as they go. -/
def parseLongest : ParseUnsigned := fun bytes =>
  let digits := bytes.takeWhile isDigit
  if digits = [] ∨ 2 ^ 64 ≤ digitsValue digits then none
  else some (digitsValue digits, digits.length)

theorem parsesDecimal_parseLongest : ParsesDecimal parseLongest where
  accepts digits rest hne hdigits hstops hlt := by
    have hfront : (digits ++ rest).takeWhile isDigit = digits := by
      rw [List.takeWhile_append_of_pos hdigits]
      cases rest with
      | nil => exact List.append_nil _
      | cons b rest =>
          rw [List.takeWhile_cons_of_neg (by rw [hstops b rfl]; exact Bool.noConfusion)]
          exact List.append_nil _
    unfold parseLongest
    rw [hfront]
    exact if_neg (not_or.mpr ⟨hne, Nat.not_le_of_lt hlt⟩)
  refuses bytes value consumed hread := by
    unfold parseLongest at hread
    dsimp only at hread
    split at hread
    · cases hread
    · next hfits =>
      cases hread
      obtain ⟨hne, hlt⟩ := not_or.mp hfits
      have htake : bytes.take (bytes.takeWhile isDigit).length = bytes.takeWhile isDigit :=
        List.prefix_iff_eq_take.mp (List.takeWhile_prefix _) |>.symm
      rw [htake]
      exact ⟨List.length_pos_of_ne_nil hne, fun b hb => List.mem_takeWhile_imp hb, rfl,
        Nat.lt_of_not_le hlt⟩

/-- What is left of `--threads=auto-io summary .`. -/
def autoIoStore : ConfigStore :=
  .ofLists [(ascii "global.threads", some (ascii "auto-io")),
    (ascii "summary.algorithm", some (ascii "xxh3")),
    (ascii "summary.minimum-size", some (ascii "1"))] []

theorem parsed_autoIo : Parsed autoIoStore ⟨some (ascii "summary"), [ascii "."]⟩ := by
  refine ⟨fun option hoption => ?_, ⟨_, List.mem_cons_of_mem _ List.mem_cons_self, rfl,
    fun option hoption => ?_⟩⟩
  · rw [List.mem_singleton.mp hoption]
    exact ⟨ascii "auto-io", by decide⟩
  · simp only [summaryOptions, List.mem_cons, List.not_mem_nil, or_false] at hoption
    rcases hoption with rfl | rfl | rfl | rfl | rfl | rfl | rfl | rfl
    · exact ⟨ascii "xxh3", by decide, by decide⟩
    · exact ⟨ascii "1", by decide⟩
    all_goals exact trivial

theorem bindOptions_error_iff_autoIo :
    cliBindOptions parseLongest autoIoStore ⟨some (ascii "summary"), [ascii "."]⟩ =
      .error (ascii "bc-duplicate: invalid value for --threads: 'auto-io'\n") := by
  refine (bindOptions_error_iff parsesDecimal_parseLongest parsed_autoIo _).mpr ?_
  have hmessage : ascii "bc-duplicate: invalid value for --threads: 'auto-io'\n" =
      cliLogInvalidValue (ascii "--threads") (ascii "auto-io") := by decide
  rw [hmessage]
  refine .threads (by decide) ?_
  rintro (hword | ⟨_, hdigits, _⟩)
  · exact absurd hword (by decide)
  · exact absurd (hdigits 97 (by decide)) (by decide)

end BcDuplicate
