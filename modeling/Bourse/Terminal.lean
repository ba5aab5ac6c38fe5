import Bourse.Client.Output

/-!
# The terminal

A terminal serves an exchange that runs in the same process. A line that begins with
a command of the client is carried out by the client; every other line goes to the
operator console.
-/

namespace Bourse.Terminal

/-- The words of a line, which stand between blanks. -/
def words (line : String) : List String :=
  let spaced := line.toList.map fun c => if Text.isBlank c then ' ' else c
  ((Text.pieces ' ' spaced).filter (!·.isEmpty)).map String.ofList

/-- What a line leads to. -/
structure Outcome where
  service : Service
  output : String
  /-- Whether the terminal goes on. -/
  continues : Bool

/-- The service after a line at a time in milliseconds. -/
def line (service : Service) (now : Nat) (text : String) : Outcome :=
  if (words text).head?.any fun word => Client.grammar.subcommands.contains word then
    let (outcome, service) := Client.run service now (words text)
    ⟨service, outcome.output, true⟩
  else
    let (outcome, service) := service.console text
    ⟨service, Console.printedText outcome.printed, outcome.continues⟩

/-- The service of settings, with identifiers from a number on. -/
def serviceOf (maxRecords : Nat) (firstId : OrderId) : Service :=
  .ofMarket (.opened firstId maxRecords) 4096 256

end Bourse.Terminal
