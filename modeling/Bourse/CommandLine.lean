import Bourse.Text.Decimal
import Bourse.Word

/-!
# Command lines

A command line is read from left to right against a grammar of options, positional
arguments and subcommands. `--name value`, `--name=value`, `-n value`, `-nvalue` and
`-n=value` give an option its value; flags may be bundled behind one dash. An
argument of its own that begins with a dash is never a value, apart from the dash
alone. Behind `--` everything is positional.

An option's value is looked at when the next option or positional begins, or at the
end of the line, so of two faults the one that is met first in this order is
reported: a missing value, then a repeated option, then an unfit value.
-/

namespace Bourse

/-- Why the reading of a command line ends early. -/
inductive Halt where
  | unknownArgument
  | unknownSubcommand
  | missingSubcommand
  | missingArgument
  | invalidValue
  | unfitValue
  | repeated
  | valueForFlag
  | help
  | version
  deriving DecidableEq, Repr

/-- The test that a value has to pass. -/
abbrev ValueCheck := String → Except Halt Unit

namespace ValueCheck

/-- Any text. -/
def any : ValueCheck := fun _ => .ok ()

/-- A path, which is not empty. -/
def path : ValueCheck := fun text => if text.isEmpty then .error .invalidValue else .ok ()

/-- An unsigned integer of 64 bits. -/
def natural : ValueCheck := fun text =>
  match Text.readNatural Word.limit text.toList with
  | .ok _ => .ok ()
  | .error _ => .error .unfitValue

/-- A signed integer of 64 bits. -/
def integer : ValueCheck := fun text =>
  if (Text.readInteger text.toList).isSome then .ok () else .error .unfitValue

/-- One of several words. -/
def oneOf (words : List String) : ValueCheck := fun text =>
  if words.contains text then .ok () else .error .invalidValue

/-- A text that a reader accepts. -/
def readBy {ε α : Type} (read : String → Except ε α) : ValueCheck := fun text =>
  match read text with
  | .ok _ => .ok ()
  | .error _ => .error .unfitValue

end ValueCheck

/-- What an option does. -/
inductive OptionAction where
  | help
  | version
  | flag
  | value (check : ValueCheck)

/-- An option: its name behind two dashes, its letter behind one, and what it does. -/
structure OptionRule where
  name : String
  letter : Option Char
  action : OptionAction

/-- An argument by its place. -/
structure PositionalRule where
  name : String
  check : ValueCheck

/-- What a command line may hold. -/
structure Grammar where
  options : List OptionRule
  positionals : List PositionalRule
  subcommands : List String

namespace CommandLine

/-- The option that shows the help. -/
def helpRule : OptionRule := ⟨"help", some 'h', .help⟩

/-- The option that shows the version. -/
def versionRule : OptionRule := ⟨"version", some 'V', .version⟩

/-- An argument whose value is still to be looked at. -/
structure Pending where
  name : String
  check : ValueCheck
  value : Option String

/-- How far a command line has been read. -/
structure Progress where
  /-- The values given so far, and the flags with an empty one. -/
  given : List (String × String)
  pending : Option Pending
  /-- How many positional arguments were met. -/
  positionals : Nat

/-- A command line before its first argument. -/
def Progress.start : Progress := ⟨[], none, 0⟩

/-- Whether the next argument is the value of an option. -/
def Progress.awaitsValue (progress : Progress) : Bool :=
  progress.pending.any (·.value.isNone)

/-- The line with a further argument, which is not there yet. -/
def Progress.give (progress : Progress) (name value : String) : Except Halt Progress :=
  if progress.given.any (·.1 == name) then .error .repeated
  else .ok { progress with given := progress.given ++ [(name, value)] }

/-- The line with nothing left to be looked at. -/
def Progress.resolve (progress : Progress) : Except Halt Progress :=
  match progress.pending with
  | none => .ok progress
  | some pending =>
    match pending.value with
    | none => .error .invalidValue
    | some value => do
      let progress ← { progress with pending := none }.give pending.name value
      pending.check value
      pure progress

/-- The line after an option without a value. -/
def Progress.act (progress : Progress) (rule : OptionRule) : Except Halt Progress := do
  let progress ← progress.resolve
  match rule.action with
  | .help => .error .help
  | .version => .error .version
  | _ => progress.give rule.name ""

/-- The line after an option with its value attached, or in front of its value. -/
def Progress.begin (progress : Progress) (rule : OptionRule) (check : ValueCheck) :
    Option String → Except Halt Progress
  | some value => do
    let progress ← progress.resolve
    Progress.resolve { progress with pending := some ⟨rule.name, check, some value⟩ }
  | none => do
    let progress ← progress.resolve
    pure { progress with pending := some ⟨rule.name, check, none⟩ }

/-- The line after an option by its name. -/
def long (grammar : Grammar) (progress : Progress) (argument : List Char) :
    Except Halt Progress :=
  let name := String.ofList (argument.takeWhile (· != '='))
  let value : Option String :=
    match argument.dropWhile (· != '=') with
    | [] => none
    | _ :: value => some (String.ofList value)
  match grammar.options.find? (·.name == name) with
  | none => .error .unknownArgument
  | some rule =>
    match rule.action with
    | .value check => progress.begin rule check value
    | _ => if value.isSome then .error .valueForFlag else progress.act rule

/-- The line after options by their letters. -/
def letters (grammar : Grammar) (progress : Progress) : List Char → Except Halt Progress
  | [] => .ok progress
  | letter :: rest =>
    match grammar.options.find? (·.letter == some letter) with
    | none => .error .unknownArgument
    | some rule =>
      match rule.action with
      | .value check =>
        let value : Option (List Char) :=
          match rest with
          | [] => none
          | '=' :: value => some value
          | value => some value
        progress.begin rule check (value.map String.ofList)
      | _ => do
        let progress ← progress.act rule
        letters grammar progress rest

/-- The line after an argument by its place. -/
def positional (grammar : Grammar) (progress : Progress) (argument : String) :
    Except Halt Progress :=
  match grammar.positionals[progress.positionals]? with
  | none =>
    .error (if grammar.subcommands.isEmpty then .unknownArgument else .unknownSubcommand)
  | some rule => do
    let progress ← progress.resolve
    pure { progress with
      pending := some ⟨rule.name, rule.check, some argument⟩
      positionals := progress.positionals + 1 }

/-- The whole line behind what has been read. It stops at a subcommand, which takes
the rest. -/
def scan (grammar : Grammar) (progress : Progress) (onlyPositionals : Bool) :
    List String → Except Halt (Progress × Option (String × List String))
  | [] => .ok (progress, none)
  | argument :: rest =>
    if onlyPositionals then do
      let progress ← positional grammar progress argument
      scan grammar progress true rest
    else if !progress.awaitsValue && grammar.subcommands.contains argument then
      .ok (progress, some (argument, rest))
    else
      match argument.toList with
      | ['-', '-'] => scan grammar progress true rest
      | '-' :: '-' :: name => do
        let progress ← long grammar progress name
        scan grammar progress false rest
      | '-' :: first :: more => do
        let progress ← letters grammar progress (first :: more)
        scan grammar progress false rest
      | _ =>
        match progress.pending with
        | some ⟨name, check, none⟩ =>
          scan grammar { progress with pending := some ⟨name, check, some argument⟩ } false rest
        | _ => do
          let progress ← positional grammar progress argument
          scan grammar progress false rest

/-- The values of a command line without subcommands. -/
def read (grammar : Grammar) (arguments : List String) : Except Halt (List (String × String)) := do
  let (progress, _) ← scan grammar .start false arguments
  let progress ← progress.resolve
  pure progress.given

end CommandLine

end Bourse
