import Bourse.Text.Blank
import Bourse.Text.Decimal

/-!
# Orders

An order carries what its sender asked for and how far it has been filled. Prices
are counted in ticks. The types of an order's attributes are here as well: its
side, its type, how long it stays in force, and its identifier.
-/

namespace Bourse

/-- The two flows that meet in a book. -/
inductive Flow where
  | buying
  | selling
  deriving DecidableEq, Repr, Inhabited

/-- The flow that an order trades against. -/
def Flow.contra : Flow → Flow
  | .buying => .selling
  | .selling => .buying

/-- The side of an order. -/
inductive Side where
  | buy
  | sell
  | sellShort
  deriving DecidableEq, Repr, Inhabited

/-- Short sales queue and trade with the other sales. -/
def Side.flow : Side → Flow
  | .buy => .buying
  | .sell => .selling
  | .sellShort => .selling

/-- The type of an order. -/
inductive OrderType where
  | market
  | limit
  | stop
  | stopLimit
  deriving DecidableEq, Repr, Inhabited

/-- Whether orders of a type wait for the last trade to reach their stop price. -/
def OrderType.isStop : OrderType → Bool
  | .market => false
  | .limit => false
  | .stop => true
  | .stopLimit => true

/-- How long an order stays in force: for the day, or for the moment of its arrival. -/
inductive TimeInForce where
  | day
  | immediateOrCancel
  deriving DecidableEq, Repr, Inhabited

/-- The identifier of an order, a word of 64 bits. -/
structure OrderId where
  value : UInt64
  deriving DecidableEq, Repr, Inhabited

namespace OrderId

/-- The identifier behind this one; behind the last one comes zero. -/
def next (id : OrderId) : OrderId := ⟨id.value + 1⟩

/-- `count` identifiers from this one on, and the one behind them. -/
def take (id : OrderId) : Nat → List OrderId × OrderId
  | 0 => ([], id)
  | count + 1 =>
    let (later, rest) := id.next.take count
    (id :: later, rest)

/-- The decimal text of an identifier, padded to ten digits. -/
def render (id : OrderId) : String :=
  String.ofList (Text.padZeros 10 (Text.digits id.value.toNat))

/-- The identifier that a text stands for, with any blanks around it. -/
def parse (text : String) : Except Text.NumberFault OrderId :=
  (Text.readNatural Word.limit (Text.trimmed text.toList)).map fun value => ⟨value.toUInt64⟩

end OrderId

/-- An order as a book holds it. -/
structure Order where
  /-- The identifier that the market gave to the order. -/
  id : OrderId
  /-- The security that the order is for. -/
  security : String
  /-- The sender's name for the order, as of the last accepted request. -/
  clientOrderId : String
  /-- The sender's name for the order before the last accepted request. -/
  previousClientOrderId : String
  /-- To whom reports on the order go. -/
  sender : String
  side : Side
  type : OrderType
  timeInForce : TimeInForce
  /-- The whole quantity, filled or not. -/
  quantity : Int
  /-- The limit in ticks, zero for an order without one. -/
  price : Int
  /-- The stop price in ticks, zero for an order without one. -/
  stopPrice : Int
  /-- The quantity shown at a time; zero or less shows all that is pending. -/
  disclosed : Int
  /-- The quantity filled so far. -/
  filled : Int
  /-- The value of the fills: each quantity times its price. -/
  fillValue : Int
  /-- The price of the last fill. -/
  lastPrice : Int
  /-- The quantity of the last fill. -/
  lastQuantity : Int
  deriving DecidableEq, Repr, Inhabited

namespace Order

/-- The flow that the order belongs to. -/
def flow (order : Order) : Flow := order.side.flow

/-- The quantity not yet filled, shown or not. -/
def unfilled (order : Order) : Int := order.quantity - order.filled

/-- The quantity that the order shows and can trade at once. -/
def pending (order : Order) : Int :=
  if 0 < order.disclosed ∧ order.disclosed < order.unfilled then order.disclosed
  else order.unfilled

/-- The mean price of the fills, truncated to a tick, and zero before the first. -/
def averagePrice (order : Order) : Int :=
  if order.filled = 0 then 0 else order.fillValue.tdiv order.filled

/-- Whether nothing is left to fill. -/
def isFilled (order : Order) : Bool := order.unfilled == 0

/-- The order after a fill at a price. No more is filled than is left. -/
def fill (order : Order) (price quantity : Int) : Order :=
  let quantity := min quantity order.unfilled
  { order with
    fillValue := order.fillValue + price * quantity
    lastPrice := price
    lastQuantity := quantity
    filled := order.filled + quantity }

/-- The order after a fill, counted in signed words: a product or a sum that no word holds
loses its carry. -/
def fillInWords (order : Order) (price quantity : Int) : Order :=
  let quantity := min quantity (Word.wrapped order.unfilled)
  { order with
    fillValue := Word.wrapped (order.fillValue + Word.wrapped (price * quantity))
    lastPrice := price
    lastQuantity := quantity
    filled := Word.wrapped (order.filled + quantity) }

/-- The order under the name that a request gives it; its own name becomes the
previous one. -/
def renamed (order request : Order) : Order :=
  { order with
    previousClientOrderId := order.clientOrderId
    clientOrderId := request.clientOrderId }

/-- Whether a replaced order keeps its place in the queue. -/
inductive Priority where
  | kept
  | lost
  deriving DecidableEq, Repr

/-- The order with the attributes of a replacement. The limit is kept where the
replacement has none to give. -/
def replacedBy (order image : Order) : Order :=
  { order.renamed image with
    quantity := image.quantity
    disclosed := image.disclosed
    timeInForce := image.timeInForce
    price := if image.type = .market ∨ image.type = .stop then order.price else image.price
    type := image.type
    stopPrice := image.stopPrice }

/-- A replacement costs the place in the queue if it asks for a market or a stop
order or changes the limit, the type or the stop price. -/
def priorityUnder (order image : Order) : Priority :=
  if image.type = .market ∨ image.type = .stop ∨ order.price ≠ image.price ∨
      order.type ≠ image.type ∨ order.stopPrice ≠ image.stopPrice then .lost
  else .kept

/-- The order after a replacement and what becomes of its place in the queue. A
quantity that is not above the filled one is refused. -/
def replace (order image : Order) : Option (Order × Priority) :=
  if image.quantity ≤ order.filled then none
  else some (order.replacedBy image, order.priorityUnder image)

/-- The order after its stop price is reached: what waited becomes live. -/
def trigger (order : Order) : Order :=
  match order.type with
  | .stopLimit => { order with type := .limit }
  | .stop => { order with type := .market }
  | _ => order

/-- What is left of a market order as a limit order at a price. -/
def limitedAt (order : Order) (price : Int) : Order :=
  { order with type := .limit, price := price }

/-- Whether the order accepts a trade at a price: a market order any, a purchase
none above its limit, a sale none below. -/
def accepts (order : Order) (price : Int) : Bool :=
  match order.type, order.flow with
  | .market, _ => true
  | _, .buying => price ≤ order.price
  | _, .selling => order.price ≤ price

end Order

end Bourse
