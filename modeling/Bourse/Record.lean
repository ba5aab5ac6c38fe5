import Bourse.Queue.Depth
import Bourse.Word

/-!
# Records

A record sums up a security's day: its reference prices, its trades and the depth
of its book. The totals of the day stop at the greatest signed word of 64 bits.
-/

namespace Bourse

/-- The last trade's price against the one before it. -/
inductive Trend where
  | up
  | down
  | flat
  deriving DecidableEq, Repr, Inhabited

/-- One row of the published depth: a level of the purchases beside one of the sales. -/
structure DepthRow where
  buy : Level
  sell : Level
  deriving DecidableEq, Repr, Inhabited

/-- The sum of a security's day. Reference prices of minus one stand for none. -/
structure Record where
  security : String
  openPrice : Int
  closePrice : Int
  highPrice : Int
  lowPrice : Int
  trades : Int
  volume : Int
  value : Int
  lastQuantity : Int
  lastPrice : Int
  totalBuy : Int
  totalSell : Int
  trend : Trend
  lowerLimit : Int
  upperLimit : Int
  weightedAverage : Int
  depth : Vector DepthRow depthLevels
  deriving DecidableEq, Repr

namespace Record

/-- The record of a security without reference prices. -/
def blank (security : String) : Record where
  security := security
  openPrice := -1
  closePrice := -1
  highPrice := -1
  lowPrice := -1
  trades := 0
  volume := 0
  value := 0
  lastQuantity := 0
  lastPrice := 0
  totalBuy := 0
  totalSell := 0
  trend := .flat
  lowerLimit := 0
  upperLimit := 0
  weightedAverage := 0
  depth := Vector.replicate depthLevels ⟨Level.blank, Level.blank⟩

/-- The record of a security whose reference prices are those of its first order,
with limits a tenth below and above, truncated to a tick. -/
def seeded (security : String) (price : Int) : Record :=
  { blank security with
    openPrice := price
    closePrice := price
    highPrice := price
    lowPrice := price
    lowerLimit := (price * 9).tdiv 10
    upperLimit := (price * 11).tdiv 10 }

/-- Whether a trade was recorded. -/
def hasTraded (record : Record) : Bool := 0 < record.trades

/-- The trend of a trade: flat for the first one and at an unchanged price. -/
def trendTo (record : Record) (price : Int) : Trend :=
  if !record.hasTraded || price == record.lastPrice then .flat
  else if record.lastPrice < price then .up
  else .down

/-- The record after a trade. The average price is truncated to a tick; a negative
low stands for none. -/
def trade (record : Record) (price quantity : Int) : Record :=
  let volume := Word.saturated (record.volume + quantity)
  let value := Word.saturated (record.value + quantity * price)
  { record with
    trend := record.trendTo price
    trades := record.trades + 1
    volume := volume
    value := value
    lastPrice := price
    lastQuantity := quantity
    weightedAverage := value.tdiv volume
    highPrice := if record.highPrice < price then price else record.highPrice
    lowPrice := if record.lowPrice < 0 ∨ price < record.lowPrice then price else record.lowPrice }

/-- Whether the day's volume after a trade has an average price. -/
def averages (record : Record) (quantity : Int) : Bool :=
  Word.saturated (record.volume + quantity) ≠ 0

/-- The record with the depth of both sides. -/
def withDepth (record : Record) (buys sells : Depth) : Record :=
  { record with
    depth := Vector.zipWith DepthRow.mk buys sells
    totalBuy := buys.total
    totalSell := sells.total }

end Record

end Bourse
