import Bourse.CommandLine
import Bourse.Picture
import Bourse.Settings.Address
import Bourse.Yaml.Mapping
import Bourse.Word

/-!
# Settings

What the service needs to know is taken from the command line, what is not given
there from the settings file, and what is not given there either from defaults.
-/

namespace Bourse

/-- How the service writes its log. -/
inductive LogFormat where
  | pretty
  | json
  | compact
  deriving DecidableEq, Repr

/-- The names of the log formats. -/
def LogFormat.names : List (String × LogFormat) :=
  [("pretty", .pretty), ("json", .json), ("compact", .compact)]

/-- The settings of the service. -/
structure Settings where
  httpAddress : SocketAddress
  /-- Milliseconds from one sweep to the next. -/
  sweepInterval : Nat
  /-- The greatest number of records in a picture. -/
  maxRecords : Nat
  /-- Where pictures are sent as datagrams, if anywhere. -/
  datagramTarget : Option SocketAddress
  logFormat : LogFormat
  /-- Whether commands are read from an operator. -/
  console : Bool
  deriving DecidableEq, Repr

/-- What one source says about the settings. -/
structure PartialSettings where
  httpAddress : Option String
  sweepInterval : Option Nat
  maxRecords : Option Nat
  datagramTarget : Option String
  logFormat : Option LogFormat
  deriving DecidableEq, Repr

/-- What the command line says. -/
structure Arguments where
  file : Option String
  settings : PartialSettings
  noConsole : Bool
  deriving DecidableEq, Repr

/-- Why settings cannot be used. -/
inductive SettingsError where
  | zeroInterval
  | maxRecordsOutOfRange (value : Nat)
  | invalidAddress (field value : String)
  deriving DecidableEq, Repr

/-- The wording of an error in the settings. -/
def SettingsError.message : SettingsError → String
  | .zeroInterval => "snapshot interval must be greater than zero"
  | .maxRecordsOutOfRange value =>
    "snapshot max records must be between 1 and 10, got " ++ Text.natural value
  | .invalidAddress field value => "invalid " ++ field ++ " address: " ++ value

namespace Arguments

/-- The command line of the service. -/
def grammar : Grammar where
  options := [
    ⟨"config", none, .value .path⟩,
    ⟨"http-addr", none, .value .any⟩,
    ⟨"snapshot-interval-ms", none, .value .natural⟩,
    ⟨"snapshot-max-records", none, .value .natural⟩,
    ⟨"udp-target", none, .value .any⟩,
    ⟨"log-format", none, .value (.oneOf (LogFormat.names.map (·.1)))⟩,
    ⟨"no-console", none, .flag⟩,
    CommandLine.helpRule,
    CommandLine.versionRule]
  positionals := []
  subcommands := []

/-- A number that was given. -/
def natural? (given : List (String × String)) (name : String) : Option Nat := do
  let text ← given.lookup name
  (Text.readNatural Word.limit text.toList).toOption

/-- What a command line says. -/
def read (arguments : List String) : Except Halt Arguments := do
  let given ← CommandLine.read grammar arguments
  pure {
    file := given.lookup "config"
    settings := {
      httpAddress := given.lookup "http-addr"
      sweepInterval := natural? given "snapshot-interval-ms"
      maxRecords := natural? given "snapshot-max-records"
      datagramTarget := given.lookup "udp-target"
      logFormat := (given.lookup "log-format").bind fun word => LogFormat.names.lookup word }
    noConsole := (given.lookup "no-console").isSome }

end Arguments

namespace PartialSettings

/-- What a source says that says nothing. -/
def empty : PartialSettings := ⟨none, none, none, none, none⟩

/-- The names that a settings file may use. -/
def fileNames : List String :=
  ["http_addr", "snapshot_interval_ms", "snapshot_max_records", "udp_target", "log_format"]

/-- A number in digits of a radix. -/
def radixNumber (radix : Nat) (digits : List Char) : Option Nat :=
  match SocketAddress.number? radix Word.limit none true digits with
  | some (value, []) => some value
  | _ => none

/-- The number that a plain scalar of a settings file stands for: decimal without
leading zeros, or hexadecimal, octal or binary behind a mark, with an optional plus
sign. -/
def scalarNumber (text : String) : Option Nat :=
  let unsigned :=
    match text.toList with
    | '+' :: rest => rest
    | cs => cs
  match unsigned with
  | '0' :: 'x' :: digits => radixNumber 16 digits
  | '0' :: 'o' :: digits => radixNumber 8 digits
  | '0' :: 'b' :: digits => radixNumber 2 digits
  | '0' :: _ :: _ => none
  | digits => radixNumber 10 digits

/-- A number in a settings file. Quoted scalars are no numbers. -/
def fileNumber : Yaml.Scalar → Option (Option Nat)
  | .quoted _ => none
  | .plain text =>
    if (Yaml.Scalar.plain text).isNull then some none else (scalarNumber text).map some

/-- A text in a settings file. -/
def fileText (scalar : Yaml.Scalar) : Option String :=
  if scalar.isNull then none else some scalar.text

/-- A log format in a settings file. -/
def fileFormat (scalar : Yaml.Scalar) : Option (Option LogFormat) :=
  if scalar.isNull then some none else (LogFormat.names.lookup scalar.text).map some

/-- What a settings file says. Names that no setting has are refused, and so are
names that are given twice. -/
def ofFile (text : String) : Option PartialSettings := do
  let pairs ← Yaml.mapping text
  let named := pairs.map fun (name, value) => (name.text, value)
  let names := named.map (·.1)
  if !names.all fileNames.contains || !decide names.Nodup then none
  else
    let scalar (name : String) : Yaml.Scalar := (named.lookup name).getD (.plain "")
    pure {
      httpAddress := fileText (scalar "http_addr")
      sweepInterval := ← fileNumber (scalar "snapshot_interval_ms")
      maxRecords := ← fileNumber (scalar "snapshot_max_records")
      datagramTarget := fileText (scalar "udp_target")
      logFormat := ← fileFormat (scalar "log_format") }

end PartialSettings

namespace Settings

/-- Where the service listens unless it is told otherwise. -/
def defaultHttpAddress : String := "0.0.0.0:8080"

/-- The time between sweeps unless the service is told otherwise. -/
def defaultSweepInterval : Nat := 1000

/-- The address that a text stands for. -/
def address (field text : String) : Except SettingsError SocketAddress :=
  match SocketAddress.parse? text with
  | some address => .ok address
  | none => .error (.invalidAddress field text)

/-- The settings that the command line and the settings file give together. -/
def resolve (arguments : Arguments) (file : PartialSettings) : Except SettingsError Settings := do
  let given := arguments.settings
  let interval := (given.sweepInterval.or file.sweepInterval).getD defaultSweepInterval
  let records := (given.maxRecords.or file.maxRecords).getD Bourse.maxRecords
  if interval = 0 then throw .zeroInterval
  if records < 1 ∨ Bourse.maxRecords < records then throw (.maxRecordsOutOfRange records)
  let target ←
    match given.datagramTarget.or file.datagramTarget with
    | none => pure none
    | some text => (address "udp_target" text).map some
  let http ←
    address "http_addr" ((given.httpAddress.or file.httpAddress).getD defaultHttpAddress)
  pure {
    httpAddress := http
    sweepInterval := interval
    maxRecords := records
    datagramTarget := target
    logFormat := (given.logFormat.or file.logFormat).getD .pretty
    console := !arguments.noConsole }

end Settings

end Bourse
