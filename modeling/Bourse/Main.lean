import Bourse.Settings.Basic
import Bourse.Terminal

/-!
# The program

The program takes its settings from the command line and a settings file, and serves
one exchange at the terminal until its input ends or the operator quits. It only
reads and prints; everything it answers is worked out by the library.
-/

namespace Bourse.Program

/-- The word for the end of a command line. -/
def haltMessage : Halt → String
  | .help => "usage: bourse [--config FILE] [--snapshot-max-records N] [--no-console]"
  | .version => "bourse " ++ Service.version
  | _ => "the command line cannot be read; try --help"

/-- What the settings file says, if one is named. -/
def readFile (file : Option String) : IO (Option PartialSettings) :=
  match file with
  | none => pure (some .empty)
  | some path => do pure (PartialSettings.ofFile (← IO.FS.readFile path))

/-- The terminal from one line to the next. -/
partial def serve (service : Service) : IO Unit := do
  let text ← (← IO.getStdin).getLine
  if !text.isEmpty then
    let outcome := Terminal.line service (← IO.monoMsNow) text
    IO.print outcome.output
    if outcome.continues then serve outcome.service

/-- The program behind its command line. -/
def start (arguments : Arguments) : IO UInt32 := do
  match ← readFile arguments.file with
  | none =>
    IO.eprintln "the settings file cannot be read"
    pure 1
  | some file =>
    match Settings.resolve arguments file with
    | .error error =>
      IO.eprintln error.message
      pure 1
    | .ok settings =>
      let now ← IO.monoMsNow
      if settings.console then
        IO.println Console.usage
        serve (Terminal.serviceOf settings.maxRecords ⟨now.toUInt64⟩)
      pure 0

end Bourse.Program

/-- The program on its command line. -/
def main (arguments : List String) : IO UInt32 :=
  match Bourse.Arguments.read arguments with
  | .error halt => do
    IO.eprintln (Bourse.Program.haltMessage halt)
    pure (if halt = .help ∨ halt = .version then 0 else 2)
  | .ok arguments => Bourse.Program.start arguments
