import BcDuplicate.Output

/-!
# BcDuplicate.Cli

The command line (`src/cli/bc_duplicate_cli_spec.c`): the options the program
has, and the binding of what was parsed to the options of a run.

The parser of the runtime library is given the tables and leaves a store of
values and the parsed command; the store and the library's reader of decimal
numbers are parameters.  Of the tables, the texts that only `--help` prints are
left out.  A binding that fails has written the message it returns to standard
error.
-/

namespace BcDuplicate

open Json (ascii)

/-! ## the tables -/

inductive CliOptionType
  | string
  | enum
  | list
  | flag
deriving DecidableEq, Repr

/-- `bc_runtime_cli_option_spec_t` -/
structure CliOptionSpec where
  longName : Bytes
  type : CliOptionType
  allowedValues : List Bytes
  defaultValue : Option Bytes
deriving DecidableEq, Repr

/-- `bc_runtime_cli_command_spec_t`; a `positionalMax` of zero is no bound. -/
structure CliCommandSpec where
  name : Bytes
  options : List CliOptionSpec
  positionalMin : Nat
  positionalMax : Nat
deriving DecidableEq, Repr

/-- `bc_runtime_cli_program_spec_t` -/
structure CliProgramSpec where
  globalOptions : List CliOptionSpec
  commands : List CliCommandSpec
deriving DecidableEq, Repr

/-- `bc_duplicate_algorithm_values` -/
def algorithmValues : List Bytes := [ascii "xxh3", ascii "xxh128", ascii "sha256"]

/-- `bc_duplicate_global_options` -/
def globalOptions : List CliOptionSpec := [⟨ascii "threads", .string, [], some (ascii "auto")⟩]

/-- `bc_duplicate_summary_options` -/
def summaryOptions : List CliOptionSpec :=
  [⟨ascii "algorithm", .enum, algorithmValues, some (ascii "xxh3")⟩,
    ⟨ascii "minimum-size", .string, [], some (ascii "1")⟩,
    ⟨ascii "include", .list, [], none⟩,
    ⟨ascii "exclude", .list, [], none⟩,
    ⟨ascii "hidden", .flag, [], none⟩,
    ⟨ascii "follow-symlinks", .flag, [], none⟩,
    ⟨ascii "match-hardlinks", .flag, [], none⟩,
    ⟨ascii "one-file-system", .flag, [], none⟩]

/-- `bc_duplicate_scan_options`: those of `summary`, and the destination. -/
def scanOptions : List CliOptionSpec :=
  summaryOptions ++ [⟨ascii "output", .string, [], some (ascii "auto")⟩]

/-- `bc_duplicate_cli_program_spec` -/
def cliProgramSpec : CliProgramSpec where
  globalOptions := globalOptions
  commands :=
    [⟨ascii "scan", scanOptions, 1, 0⟩,
      ⟨ascii "summary", summaryOptions, 1, 0⟩]

/-! ## what the parser leaves -/

/-- `bc_runtime_config_store_t`, by its two getters.  Its strings are C
strings. -/
structure ConfigStore where
  getString : Bytes → Option Bytes
  getBoolean : Bytes → Option Bool
  terminated : ∀ key value, getString key = some value → 0 ∉ value

/-- `bc_runtime_cli_parsed_t`: the name of the command, and the paths. -/
structure CliParsed where
  command : Option Bytes
  positionalValues : List Bytes
deriving DecidableEq, Repr

/-- `bc_core_parse_unsigned_integer_64_decimal`: the number, and how many bytes
it takes. -/
abbrev ParseUnsigned := Bytes → Option (Nat × Nat)

/-- `bc_duplicate_cli_options_t`: the options of the pipeline, and those that
reach it by other ways. -/
structure CommandLine extends CliOptions where
  explicitWorkerCount : Nat
  minimumFileSize : Nat
  includeList : Option Bytes
  excludeList : Option Bytes
  includeHidden : Bool
  followSymlinks : Bool
  oneFileSystem : Bool
  positionalArgumentValues : List Bytes
deriving DecidableEq, Repr

/-- The options after `bc_core_zero`. -/
def CommandLine.zeroed : CommandLine :=
  ⟨⟨.scan, .xxh3, .auto, .auto, false⟩, 0, 0, none, none, false, false, false, []⟩

/-! ## messages -/

/-- `bc_duplicate_cli_log_invalid_value` -/
def cliLogInvalidValue (optionName value : Bytes) : Bytes :=
  ascii "bc-duplicate: invalid value for " ++ optionName ++ ascii ": '" ++ value ++ ascii "'\n"

/-- `bc_duplicate_cli_log_internal_missing` -/
def cliLogInternalMissing (key : Bytes) : Bytes :=
  ascii "bc-duplicate: internal error: missing " ++ key ++ [newline]

/-! ## binding one value -/

/-- `bc_duplicate_strings_equal` -/
def stringsEqual (left right : Bytes) : Bool :=
  if left.length ≠ right.length then false else decide (left = right)

/-- `bc_duplicate_cli_bind_algorithm` -/
def cliBindAlgorithm (value : Bytes) : Option Algorithm :=
  if stringsEqual value (ascii "xxh3") then some .xxh3
  else if stringsEqual value (ascii "xxh128") then some .xxh128
  else if stringsEqual value (ascii "sha256") then some .sha256
  else none

section Numbers

variable (parseUnsigned : ParseUnsigned)

/-- The lines `bc_duplicate_cli_bind_threads` and
`bc_duplicate_cli_bind_minimum_size` share: a number that takes the whole
value. -/
def cliParseWhole (value : Bytes) : Option Nat :=
  if value = [] then none
  else
    match parseUnsigned value with
    | none => none
    | some (parsedValue, consumed) => if consumed ≠ value.length then none else some parsedValue

/-- `bc_duplicate_cli_bind_threads`: the mode and the explicit worker count. -/
def cliBindThreads (value : Bytes) : Option (ThreadsMode × Nat) :=
  if stringsEqual value (ascii "mono") then some (.mono, 0)
  else if stringsEqual value (ascii "auto") then some (.auto, 0)
  else if stringsEqual value (ascii "io") then some (.io, 0)
  else
    match cliParseWhole parseUnsigned value with
    | none => none
    | some parsedValue => if parsedValue = 0 then some (.mono, 0) else some (.explicit, parsedValue)

/-- `bc_duplicate_cli_bind_minimum_size` -/
def cliBindMinimumSize (value : Bytes) : Option Nat := cliParseWhole parseUnsigned value

end Numbers

/-- `bc_duplicate_cli_bind_output` -/
def cliBindOutput (value : Bytes) : Option OutputDestination :=
  if stringsEqual value (ascii "auto") then some .auto
  else if stringsEqual value (ascii "-") then some .stdout
  else if value = [] then none
  else some (.file value)

/-! ## binding the options -/

/-- `bc_duplicate_cli_format_command_key`, with a terminator to leave room for. -/
def cliFormatCommandKey (capacity : Nat) (commandName suffix : Bytes) : Option Bytes :=
  if (commandName ++ suffix).length ≤ capacity - 1 then some (commandName ++ suffix) else none

/-- The capacity of `key_buffer`. -/
def cliKeyCapacity : Nat := 128

section Bind

variable (parseUnsigned : ParseUnsigned) (store : ConfigStore)

/-- `bc_duplicate_cli_bind_global_threads` -/
def cliBindGlobalThreads : Except Bytes (ThreadsMode × Nat) :=
  match store.getString (ascii "global.threads") with
  | none => .error (ascii "bc-duplicate: internal error: missing global.threads\n")
  | some threadsValue =>
      match cliBindThreads parseUnsigned threadsValue with
      | none => .error (cliLogInvalidValue (ascii "--threads") threadsValue)
      | some threads => .ok threads

/-- A key of the command, of which `bc_duplicate_cli_bind_command_options`
makes one for each option.  No message is written when it does not fit. -/
def cliCommandKey (commandName suffix : Bytes) : Except Bytes Bytes :=
  match cliFormatCommandKey cliKeyCapacity commandName suffix with
  | none => .error []
  | some key => .ok key

/-- An option that has to be there and to have a value `bind` accepts. -/
def cliBindRequired {α : Type} (commandName suffix optionName : Bytes) (bind : Bytes → Option α) :
    Except Bytes α := do
  let key ← cliCommandKey commandName suffix
  match store.getString key with
  | none => .error (cliLogInternalMissing key)
  | some value =>
      match bind value with
      | none => .error (cliLogInvalidValue optionName value)
      | some bound => .ok bound

/-- A list of patterns, which may be missing. -/
def cliBindList (commandName suffix : Bytes) : Except Bytes (Option Bytes) := do
  let key ← cliCommandKey commandName suffix
  .ok (store.getString key)

/-- A flag, `false` when it is missing. -/
def cliBindFlag (commandName suffix : Bytes) : Except Bytes Bool := do
  let key ← cliCommandKey commandName suffix
  .ok ((store.getBoolean key).getD false)

/-- `bc_duplicate_cli_bind_command_options` -/
def cliBindCommandOptions (commandName : Bytes) (options : CommandLine) :
    Except Bytes CommandLine := do
  let algorithm ← cliBindRequired store commandName (ascii ".algorithm") (ascii "--algorithm")
    cliBindAlgorithm
  let minimumFileSize ← cliBindRequired store commandName (ascii ".minimum-size")
    (ascii "--minimum-size") (cliBindMinimumSize parseUnsigned)
  let includeList ← cliBindList store commandName (ascii ".include")
  let excludeList ← cliBindList store commandName (ascii ".exclude")
  let includeHidden ← cliBindFlag store commandName (ascii ".hidden")
  let followSymlinks ← cliBindFlag store commandName (ascii ".follow-symlinks")
  let matchHardlinks ← cliBindFlag store commandName (ascii ".match-hardlinks")
  let oneFileSystem ← cliBindFlag store commandName (ascii ".one-file-system")
  .ok { options with
    algorithm, minimumFileSize, includeList, excludeList, includeHidden, followSymlinks,
    matchHardlinks, oneFileSystem }

/-- The command of `bc_duplicate_cli_bind_options`, by its name. -/
def cliBindCommand (commandName : Bytes) : Except Bytes Command :=
  if stringsEqual commandName (ascii "scan") then .ok .scan
  else if stringsEqual commandName (ascii "summary") then .ok .summary
  else .error (ascii "bc-duplicate: internal error: unknown command '" ++ commandName ++
    ascii "'\n")

/-- The destination: `--output` of `scan`, and standard output of `summary`. -/
def cliBindDestination (command : Command) : Except Bytes OutputDestination :=
  match command with
  | .scan =>
      match store.getString (ascii "scan.output") with
      | none => .error (ascii "bc-duplicate: internal error: missing scan.output\n")
      | some outputValue =>
          match cliBindOutput outputValue with
          | none => .error (cliLogInvalidValue (ascii "--output") outputValue)
          | some destination => .ok destination
  | .summary => .ok .stdout

/-- `bc_duplicate_cli_bind_options` -/
def cliBindOptions (parsed : CliParsed) : Except Bytes CommandLine := do
  let (threadsMode, explicitWorkerCount) ← cliBindGlobalThreads parseUnsigned store
  match parsed.command with
  | none => .error (ascii "bc-duplicate: internal error: no command parsed\n")
  | some commandName =>
      let command ← cliBindCommand commandName
      let options ← cliBindCommandOptions parseUnsigned store commandName
        { CommandLine.zeroed with command, threadsMode, explicitWorkerCount }
      let outputDestination ← cliBindDestination store command
      .ok { options with
        outputDestination
        positionalArgumentValues := parsed.positionalValues }

end Bind

end BcDuplicate
