import Bourse.Market
import Bourse.Text.LetterCase
import Bourse.Text.Utf8

/-!
# The operator console

The console opens and closes the market and ends the service. It reads one command
from each line; a line that is no command is answered with the usage. It ends with
the first line that quits, at the first line that is no text, or with its input.
-/

namespace Bourse.Console

/-- What an operator can ask for. -/
inductive Command where
  | start
  | stop
  | quit
  | help
  deriving DecidableEq, Repr

/-- The names of the commands. -/
def names : List (String × Command) :=
  [("start", .start), ("stop", .stop), ("quit", .quit), ("q", .quit)]

/-- The command of a line; a line that names none asks for help. -/
def Command.parse (line : String) : Command := (Text.lookup names line).getD .help

/-- The answer to a line that is no command. -/
def usage : String := "commands: start | stop | quit (q)"

/-- What a command leads to. -/
structure Outcome where
  market : Market
  reports : List Report
  /-- The lines printed. -/
  printed : List String
  /-- Whether the console goes on. -/
  continues : Bool

/-- What a command does to the market. Quitting closes it. -/
def apply (market : Market) : Command → Outcome
  | .start => ⟨market.start, [], [], true⟩
  | .stop => let (market, reports) := market.stop; ⟨market, reports, [], true⟩
  | .quit => let (market, reports) := market.stop; ⟨market, reports, [], false⟩
  | .help => ⟨market, [], [usage], true⟩

/-- The lines of an input. A line feed ends a line, with a carriage return in front
of it or without; what stands behind the last one is a line if there is anything. -/
def lines : List UInt8 → List (List UInt8)
  | [] => []
  | 13 :: 10 :: rest => [] :: lines rest
  | b :: rest =>
    if b = 10 then [] :: lines rest
    else
      match lines rest with
      | [] => [[b]]
      | line :: others => (b :: line) :: others

/-- The console from one line to the next, with what it printed so far. It ends
with a line that quits or that is no text. -/
def runLines (market : Market) : List (List UInt8) → Outcome
  | [] => ⟨market, [], [], true⟩
  | line :: rest =>
    match Text.readUtf8? line with
    | none => ⟨market, [], [], true⟩
    | some line =>
      let outcome := apply market (Command.parse line)
      if !outcome.continues then outcome
      else
        let later := runLines outcome.market rest
        { later with
          reports := outcome.reports ++ later.reports
          printed := outcome.printed ++ later.printed }

/-- The console on an input. It prints the usage first and asks for a shutdown if
it does not continue to the end. -/
def run (market : Market) (input : List UInt8) : Outcome :=
  let outcome := runLines market (lines input)
  { outcome with printed := usage :: outcome.printed }

/-- Printed lines as one text. -/
def printedText (printed : List String) : String :=
  String.join (printed.map (· ++ "\n"))

end Bourse.Console
