import Bourse.Order.Basic
import Bourse.Text.LetterCase
import Bourse.Word

/-!
# Requests

What a sender asks for: a new order, the cancellation of an order, or its
replacement. A request becomes an order in the shape of the book: a fresh order,
or the image that a cancellation or a replacement names its order by. Prices and
quantities are held below bounds that keep every product of the two inside a
signed word of 64 bits.

Sides, types and times in force are read from their names or from the numbers that
trading protocols use for them.
-/

namespace Bourse

/-- A request for a new order. -/
structure NewOrder where
  security : String
  clientOrderId : String
  sender : String
  side : Side
  type : OrderType
  quantity : Int
  price : Option Int
  stopPrice : Option Int
  timeInForce : TimeInForce
  disclosed : Option Int
  deriving DecidableEq, Repr, Inhabited

/-- A request to cancel an order. -/
structure Cancellation where
  order : OrderId
  previousClientOrderId : String
  security : String
  clientOrderId : String
  sender : String
  side : Side
  type : OrderType
  quantity : Int
  deriving DecidableEq, Repr, Inhabited

/-- A request to replace an order. The quantity is what the sender still wants to
trade, on top of what it has seen filled. -/
structure Replacement where
  order : OrderId
  previousClientOrderId : String
  security : String
  clientOrderId : String
  sender : String
  side : Side
  type : OrderType
  quantity : Int
  seenFilled : Int
  price : Option Int
  stopPrice : Option Int
  timeInForce : TimeInForce
  disclosed : Option Int
  deriving DecidableEq, Repr, Inhabited

/-- One of the two prices of a request. -/
inductive PriceField where
  | price
  | stopPrice
  deriving DecidableEq, Repr

/-- The name of a price in messages. -/
def PriceField.name : PriceField → String
  | .price => "price"
  | .stopPrice => "stop_price"

/-- Why a request is no order. -/
inductive RequestError where
  | unknownSide (text : String)
  | unknownType (text : String)
  | unknownTimeInForce (text : String)
  | missing (field : PriceField)
  | priceOutOfRange (field : PriceField) (value : Int)
  | quantityOutOfRange (value : Int)
  deriving DecidableEq, Repr

/-- The wording of a refused request. -/
def RequestError.message : RequestError → String
  | .unknownSide text => "Side not handled : " ++ text
  | .unknownType text => "Order Type Not Handled : " ++ text
  | .unknownTimeInForce text => "TimeInForce Not Handled : " ++ text
  | .missing field => "Missing field : " ++ field.name
  | .priceOutOfRange field value =>
    "Price out of range : " ++ field.name ++ " " ++ Text.integer value
  | .quantityOutOfRange value => "Qty out of range : " ++ Text.integer value

/-- The names and numbers of the sides. -/
def Side.names : List (String × Side) :=
  [("buy", .buy), ("bid", .buy), ("1", .buy),
   ("sell", .sell), ("ask", .sell), ("2", .sell),
   ("sell_short", .sellShort), ("sellshort", .sellShort), ("5", .sellShort)]

/-- The names and numbers of the order types. -/
def OrderType.names : List (String × OrderType) :=
  [("market", .market), ("1", .market),
   ("limit", .limit), ("2", .limit),
   ("stop", .stop), ("3", .stop),
   ("stop_limit", .stopLimit), ("stoplimit", .stopLimit), ("4", .stopLimit)]

/-- The names and numbers of the times in force. -/
def TimeInForce.names : List (String × TimeInForce) :=
  [("day", .day), ("0", .day),
   ("ioc", .immediateOrCancel), ("immediate_or_cancel", .immediateOrCancel),
   ("3", .immediateOrCancel)]

/-- The side that a text names. -/
def Side.parse (text : String) : Except RequestError Side :=
  ((Text.lookup Side.names text).map .ok).getD (.error (.unknownSide text))

/-- The order type that a text names. -/
def OrderType.parse (text : String) : Except RequestError OrderType :=
  ((Text.lookup OrderType.names text).map .ok).getD (.error (.unknownType text))

/-- The time in force that a text names. -/
def TimeInForce.parse (text : String) : Except RequestError TimeInForce :=
  ((Text.lookup TimeInForce.names text).map .ok).getD (.error (.unknownTimeInForce text))

/-- The highest price of a request, in ticks. -/
def maxPrice : Int := 1000000000

/-- The largest quantity of an order. -/
def maxQuantity : Int := 1000000000

/-- A price that the type of the order calls for. -/
def requiredPrice (field : PriceField) : Option Int → Except RequestError Int
  | none => .error (.missing field)
  | some value =>
    if 1 ≤ value ∧ value ≤ maxPrice then .ok value else .error (.priceOutOfRange field value)

/-- The limit and the stop price of an order; what its type does not call for is
left at zero, whatever the request says. -/
def requiredPrices (type : OrderType) (price stopPrice : Option Int) :
    Except RequestError (Int × Int) :=
  match type with
  | .market => .ok (0, 0)
  | .limit => do
    let price ← requiredPrice .price price
    pure (price, 0)
  | .stop => do
    let stopPrice ← requiredPrice .stopPrice stopPrice
    pure (0, stopPrice)
  | .stopLimit => do
    let price ← requiredPrice .price price
    let stopPrice ← requiredPrice .stopPrice stopPrice
    pure (price, stopPrice)

/-- A quantity that is not too large. One that is not positive is left to the book,
which reports it. -/
def boundedQuantity (quantity : Int) : Except RequestError Int :=
  if maxQuantity < quantity then .error (.quantityOutOfRange quantity) else .ok quantity

/-- The whole quantity that a replacement asks for. A sum that no signed word of 64
bits holds is reported by the quantity still wanted, any other by the sum. -/
def Replacement.total (request : Replacement) : Except RequestError Int :=
  if request.seenFilled < 0 ∨ maxQuantity < request.seenFilled then
    .error (.quantityOutOfRange request.seenFilled)
  else if Word.greatest < request.quantity + request.seenFilled then
    .error (.quantityOutOfRange request.quantity)
  else boundedQuantity (request.quantity + request.seenFilled)

namespace Order

/-- A fresh order from a request, under an identifier of its own. -/
def ofNew (id : OrderId) (request : NewOrder) : Except RequestError Order := do
  let (price, stopPrice) ← requiredPrices request.type request.price request.stopPrice
  let quantity ← boundedQuantity request.quantity
  pure {
    id := id
    security := request.security
    clientOrderId := request.clientOrderId
    previousClientOrderId := ""
    sender := request.sender
    side := request.side
    type := request.type
    timeInForce := request.timeInForce
    quantity := quantity
    price := price
    stopPrice := stopPrice
    disclosed := request.disclosed.getD 0
    filled := 0
    fillValue := 0
    lastPrice := 0
    lastQuantity := 0 }

/-- The image of a cancellation. -/
def ofCancellation (request : Cancellation) : Order where
  id := request.order
  security := request.security
  clientOrderId := request.clientOrderId
  previousClientOrderId := request.previousClientOrderId
  sender := request.sender
  side := request.side
  type := request.type
  timeInForce := .day
  quantity := request.quantity
  price := 0
  stopPrice := 0
  disclosed := 0
  filled := 0
  fillValue := 0
  lastPrice := 0
  lastQuantity := 0

/-- The image of a replacement, with the whole quantity that it asks for. -/
def ofReplacement (request : Replacement) : Except RequestError Order := do
  let (price, stopPrice) ← requiredPrices request.type request.price request.stopPrice
  let quantity ← request.total
  pure {
    id := request.order
    security := request.security
    clientOrderId := request.clientOrderId
    previousClientOrderId := request.previousClientOrderId
    sender := request.sender
    side := request.side
    type := request.type
    timeInForce := request.timeInForce
    quantity := quantity
    price := price
    stopPrice := stopPrice
    disclosed := request.disclosed.getD 0
    filled := 0
    fillValue := 0
    lastPrice := 0
    lastQuantity := 0 }

end Order

end Bourse
