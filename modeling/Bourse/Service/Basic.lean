import Bourse.Console
import Bourse.Service.Channel

/-!
# The service

The service is a market whose reports and pictures go out on two channels.
-/

namespace Bourse

/-- A market and its two channels. -/
structure Service where
  market : Market
  reports : Channel Report
  pictures : Channel Picture

namespace Service

/-- The service around a market, with the capacities of its channels. -/
def ofMarket (market : Market) (reportCapacity pictureCapacity : Nat) : Service where
  market := market
  reports := .ofCapacity reportCapacity
  pictures := .ofCapacity pictureCapacity

/-- The service around a market, if there are channels of the capacities. -/
def create (market : Market) (reportCapacity pictureCapacity : Nat) :
    Except CapacityFault Service := do
  let reports ← Channel.make reportCapacity
  let pictures ← Channel.make pictureCapacity
  pure { market, reports, pictures }

/-- The service with another market, after reports went out. -/
def advance (service : Service) (market : Market) (reports : List Report) : Service :=
  { service with market, reports := service.reports.sendAll reports }

/-- The service after a sweep, and how many records were published. -/
def sweep (service : Service) : Nat × Service :=
  let (published, market) := service.market.sweep
  (published.count,
    { service with market, pictures := service.pictures.sendAll published.pictures })

/-- The service after a line of the console, with what came of the line. -/
def console (service : Service) (line : String) : Console.Outcome × Service :=
  let outcome := Console.apply service.market (Console.Command.parse line)
  (outcome, service.advance outcome.market outcome.reports)

end Service

end Bourse
