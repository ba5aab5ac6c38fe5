import Bourse.Json.Fields
import Bourse.Order.Request
import Bourse.Wire.Attribute

/-!
# Orders and requests in JSON

Requests are written with all their fields, the optional ones as null where they are
absent, and read back with the optional ones left out, null or given.
-/

namespace Bourse

open Json (Fields Route toText toInt64 toName)

/-- An order in a document. -/
def Order.toJson (order : Order) : Json :=
  .record [
    ("id", order.id.toJson),
    ("security_id", .text order.security),
    ("client_order_id", .text order.clientOrderId),
    ("original_client_order_id", .text order.previousClientOrderId),
    ("sender_id", .text order.sender),
    ("side", order.side.toJson),
    ("order_type", order.type.toJson),
    ("time_in_force", order.timeInForce.toJson),
    ("order_qty", .int order.quantity),
    ("px_ticks", .int order.price),
    ("stop_px", .int order.stopPrice),
    ("disclosed_qty", .int order.disclosed),
    ("filled_qty", .int order.filled),
    ("fill_value", .int order.fillValue),
    ("last_px", .int order.lastPrice),
    ("last_qty", .int order.lastQuantity)]

/-- A request for a new order in a document. -/
def NewOrder.toJson (request : NewOrder) : Json :=
  .record [
    ("security_id", .text request.security),
    ("client_order_id", .text request.clientOrderId),
    ("sender_id", .text request.sender),
    ("side", request.side.toJson),
    ("order_type", request.type.toJson),
    ("qty", .int request.quantity),
    ("price", .nullable .int request.price),
    ("stop_price", .nullable .int request.stopPrice),
    ("time_in_force", request.timeInForce.toJson),
    ("disclosed_qty", .nullable .int request.disclosed)]

/-- The fields of a request for a new order. -/
def NewOrder.fields (route : Route) : Fields NewOrder :=
  NewOrder.mk
    <$> .required "security_id" toText
    <*> .required "client_order_id" toText
    <*> .required "sender_id" toText
    <*> .required "side" (toName Side.wireNames route)
    <*> .required "order_type" (toName OrderType.wireNames route)
    <*> .required "qty" toInt64
    <*> .optional "price" toInt64
    <*> .optional "stop_price" toInt64
    <*> .defaulted "time_in_force" (toName TimeInForce.wireNames route) .day
    <*> .optional "disclosed_qty" toInt64

/-- A cancellation in a document. -/
def Cancellation.toJson (request : Cancellation) : Json :=
  .record [
    ("order_id", request.order.toJson),
    ("original_client_order_id", .text request.previousClientOrderId),
    ("security_id", .text request.security),
    ("client_order_id", .text request.clientOrderId),
    ("sender_id", .text request.sender),
    ("side", request.side.toJson),
    ("order_type", request.type.toJson),
    ("qty", .int request.quantity)]

/-- The fields of a cancellation. -/
def Cancellation.fields (route : Route) : Fields Cancellation :=
  Cancellation.mk
    <$> .required "order_id" OrderId.ofJson
    <*> .required "original_client_order_id" toText
    <*> .required "security_id" toText
    <*> .required "client_order_id" toText
    <*> .required "sender_id" toText
    <*> .required "side" (toName Side.wireNames route)
    <*> .required "order_type" (toName OrderType.wireNames route)
    <*> .required "qty" toInt64

/-- A replacement in a document. -/
def Replacement.toJson (request : Replacement) : Json :=
  .record [
    ("order_id", request.order.toJson),
    ("original_client_order_id", .text request.previousClientOrderId),
    ("security_id", .text request.security),
    ("client_order_id", .text request.clientOrderId),
    ("sender_id", .text request.sender),
    ("side", request.side.toJson),
    ("order_type", request.type.toJson),
    ("qty", .int request.quantity),
    ("cum_qty", .int request.seenFilled),
    ("price", .nullable .int request.price),
    ("stop_price", .nullable .int request.stopPrice),
    ("time_in_force", request.timeInForce.toJson),
    ("disclosed_qty", .nullable .int request.disclosed)]

/-- The fields of a replacement. -/
def Replacement.fields (route : Route) : Fields Replacement :=
  Replacement.mk
    <$> .required "order_id" OrderId.ofJson
    <*> .required "original_client_order_id" toText
    <*> .required "security_id" toText
    <*> .required "client_order_id" toText
    <*> .required "sender_id" toText
    <*> .required "side" (toName Side.wireNames route)
    <*> .required "order_type" (toName OrderType.wireNames route)
    <*> .required "qty" toInt64
    <*> .defaulted "cum_qty" toInt64 0
    <*> .optional "price" toInt64
    <*> .optional "stop_price" toInt64
    <*> .defaulted "time_in_force" (toName TimeInForce.wireNames route) .day
    <*> .optional "disclosed_qty" toInt64

end Bourse
