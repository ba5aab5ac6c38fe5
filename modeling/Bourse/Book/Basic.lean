import Bourse.Queue.Depth
import Bourse.Record
import Bourse.Report

/-!
# Books

A book holds the orders of one security in four queues. Orders that can trade rest
in one queue per flow; stop orders are parked in another one, under their stop
price, until the last trade reaches it. With the orders goes the record of the
security's day.

What holds for one flow holds for the other with better and worse exchanged, so the
queues are reached through the flow.
-/

namespace Bourse

namespace Flow

/-- Purchases rest with the highest price first, sales with the lowest. -/
def restingDirection : Flow → Direction
  | .buying => .highestFirst
  | .selling => .lowestFirst

/-- Stop purchases wait for a rise, stop sales for a fall; the first to be reached
is first. -/
def parkingDirection : Flow → Direction
  | .buying => .lowestFirst
  | .selling => .highestFirst

/-- Whether a trade price reaches the stop price of an order of the flow. -/
def reaches : Flow → (traded stop : Int) → Bool
  | .buying, traded, stop => stop ≤ traded
  | .selling, traded, stop => traded ≤ stop

end Flow

/-- How many orders each queue of a book holds. -/
structure Counts where
  buys : Nat
  sells : Nat
  stopBuys : Nat
  stopSells : Nat
  deriving DecidableEq, Repr, Inhabited

/-- The orders of one security and the record of its day. -/
structure Book where
  security : String
  buys : Queue .highestFirst
  sells : Queue .lowestFirst
  stopBuys : Queue .lowestFirst
  stopSells : Queue .highestFirst
  record : Record
  /-- Whether new orders and replacements are accepted. -/
  isActive : Bool
  /-- Whether anything happened since the record was published. -/
  hasChanged : Bool
  deriving DecidableEq, Repr

namespace Book

/-- The empty book of a security, with reference prices from its first order. -/
def ofFirst (first : Order) : Book where
  security := first.security
  buys := .empty
  sells := .empty
  stopBuys := .empty
  stopSells := .empty
  record := .seeded first.security first.price
  isActive := true
  hasChanged := false

/-- The queue in which a flow rests. -/
def resting (book : Book) : (flow : Flow) → Queue flow.restingDirection
  | .buying => book.buys
  | .selling => book.sells

/-- The queue in which the stop orders of a flow are parked. -/
def parked (book : Book) : (flow : Flow) → Queue flow.parkingDirection
  | .buying => book.stopBuys
  | .selling => book.stopSells

/-- The book with another queue in which a flow rests. -/
def withResting (book : Book) : (flow : Flow) → Queue flow.restingDirection → Book
  | .buying, queue => { book with buys := queue }
  | .selling, queue => { book with sells := queue }

/-- The book with another queue in which the stop orders of a flow are parked. -/
def withParked (book : Book) : (flow : Flow) → Queue flow.parkingDirection → Book
  | .buying, queue => { book with stopBuys := queue }
  | .selling, queue => { book with stopSells := queue }

/-- The best price of a flow. -/
def best? (book : Book) (flow : Flow) : Option Int := (book.resting flow).first?.map (·.price)

/-- How many orders each queue holds. -/
def counts (book : Book) : Counts where
  buys := book.buys.size
  sells := book.sells.size
  stopBuys := book.stopBuys.size
  stopSells := book.stopSells.size

/-- The record with the depth as it is now. -/
def picture (book : Book) : Record := book.record.withDepth book.buys.depth book.sells.depth

/-- The record with the depth as it is now, and the book after that is published. -/
def publish (book : Book) : Record × Book :=
  (book.picture, { book with record := book.picture, hasChanged := false })

end Book

end Bourse
