import Bourse.Json.Fields
import Bourse.Wire.Request

/-!
# Request bodies

The body of a request over HTTP carries side, type and time in force as free text.
Their names are looked up one after the other, in this order, once the body has been
read; the first text that names nothing is reported.
-/

namespace Bourse

open Json (Fields toText toInt64)

/-- The body of a request for a new order. -/
structure NewOrderBody where
  security : String
  clientOrderId : String
  sender : String
  side : String
  type : String
  quantity : Int
  price : Option Int
  stopPrice : Option Int
  timeInForce : Option String
  disclosed : Option Int
  deriving DecidableEq, Repr

/-- The body of a cancellation. -/
structure CancellationBody where
  previousClientOrderId : String
  security : String
  clientOrderId : String
  sender : String
  side : String
  type : String
  quantity : Int
  deriving DecidableEq, Repr

/-- The body of a replacement. -/
structure ReplacementBody where
  previousClientOrderId : String
  security : String
  clientOrderId : String
  sender : String
  side : String
  type : String
  quantity : Int
  seenFilled : Int
  price : Option Int
  stopPrice : Option Int
  timeInForce : Option String
  disclosed : Option Int
  deriving DecidableEq, Repr

/-- The time in force that a body asks for: the day unless it says otherwise. -/
def timeInForceOf : Option String → Except RequestError TimeInForce
  | none => .ok .day
  | some text => TimeInForce.parse text

namespace NewOrderBody

/-- The fields of the body of a request for a new order. -/
def fields : Fields NewOrderBody :=
  NewOrderBody.mk
    <$> .required "security_id" toText
    <*> .required "client_order_id" toText
    <*> .required "sender_id" toText
    <*> .required "side" toText
    <*> .required "order_type" toText
    <*> .required "qty" toInt64
    <*> .optional "price" toInt64
    <*> .optional "stop_price" toInt64
    <*> .optional "time_in_force" toText
    <*> .optional "disclosed_qty" toInt64

/-- The request that the body stands for. -/
def request (body : NewOrderBody) : Except RequestError NewOrder := do
  let side ← Side.parse body.side
  let type ← OrderType.parse body.type
  let timeInForce ← timeInForceOf body.timeInForce
  pure {
    security := body.security
    clientOrderId := body.clientOrderId
    sender := body.sender
    side := side
    type := type
    quantity := body.quantity
    price := body.price
    stopPrice := body.stopPrice
    timeInForce := timeInForce
    disclosed := body.disclosed }

end NewOrderBody

namespace CancellationBody

/-- The fields of the body of a cancellation. -/
def fields : Fields CancellationBody :=
  CancellationBody.mk
    <$> .required "original_client_order_id" toText
    <*> .required "security_id" toText
    <*> .required "client_order_id" toText
    <*> .required "sender_id" toText
    <*> .required "side" toText
    <*> .required "order_type" toText
    <*> .defaulted "qty" toInt64 0

/-- The request that the body stands for, on an order. -/
def request (body : CancellationBody) (order : OrderId) : Except RequestError Cancellation := do
  let side ← Side.parse body.side
  let type ← OrderType.parse body.type
  pure {
    order := order
    previousClientOrderId := body.previousClientOrderId
    security := body.security
    clientOrderId := body.clientOrderId
    sender := body.sender
    side := side
    type := type
    quantity := body.quantity }

end CancellationBody

namespace ReplacementBody

/-- The fields of the body of a replacement. -/
def fields : Fields ReplacementBody :=
  ReplacementBody.mk
    <$> .required "original_client_order_id" toText
    <*> .required "security_id" toText
    <*> .required "client_order_id" toText
    <*> .required "sender_id" toText
    <*> .required "side" toText
    <*> .required "order_type" toText
    <*> .required "qty" toInt64
    <*> .defaulted "cum_qty" toInt64 0
    <*> .optional "price" toInt64
    <*> .optional "stop_price" toInt64
    <*> .optional "time_in_force" toText
    <*> .optional "disclosed_qty" toInt64

/-- The request that the body stands for, on an order. -/
def request (body : ReplacementBody) (order : OrderId) : Except RequestError Replacement := do
  let side ← Side.parse body.side
  let type ← OrderType.parse body.type
  let timeInForce ← timeInForceOf body.timeInForce
  pure {
    order := order
    previousClientOrderId := body.previousClientOrderId
    security := body.security
    clientOrderId := body.clientOrderId
    sender := body.sender
    side := side
    type := type
    quantity := body.quantity
    seenFilled := body.seenFilled
    price := body.price
    stopPrice := body.stopPrice
    timeInForce := timeInForce
    disclosed := body.disclosed }

end ReplacementBody

end Bourse
