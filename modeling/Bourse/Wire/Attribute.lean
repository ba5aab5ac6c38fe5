import Bourse.Json.Decoder
import Bourse.Order.Basic

/-!
# Attributes in JSON

The attributes of orders have one name each in documents, and identifiers are plain
numbers there.
-/

namespace Bourse

/-- The sides by their names in documents. -/
def Side.wireNames : List (String × Side) :=
  [("buy", .buy), ("sell", .sell), ("sell_short", .sellShort)]

/-- The name of a side in documents. -/
def Side.wireName : Side → String
  | .buy => "buy"
  | .sell => "sell"
  | .sellShort => "sell_short"

/-- The order types by their names in documents. -/
def OrderType.wireNames : List (String × OrderType) :=
  [("market", .market), ("limit", .limit), ("stop", .stop), ("stop_limit", .stopLimit)]

/-- The name of an order type in documents. -/
def OrderType.wireName : OrderType → String
  | .market => "market"
  | .limit => "limit"
  | .stop => "stop"
  | .stopLimit => "stop_limit"

/-- The times in force by their names in documents. -/
def TimeInForce.wireNames : List (String × TimeInForce) :=
  [("day", .day), ("immediate_or_cancel", .immediateOrCancel)]

/-- The name of a time in force in documents. -/
def TimeInForce.wireName : TimeInForce → String
  | .day => "day"
  | .immediateOrCancel => "immediate_or_cancel"

/-- A side in a document. -/
def Side.toJson (side : Side) : Json := .text side.wireName

/-- An order type in a document. -/
def OrderType.toJson (type : OrderType) : Json := .text type.wireName

/-- A time in force in a document. -/
def TimeInForce.toJson (time : TimeInForce) : Json := .text time.wireName

/-- An identifier in a document. -/
def OrderId.toJson (id : OrderId) : Json := .nat id.value.toNat

/-- The identifier in a document. -/
def OrderId.ofJson (document : Json) : Except Json.Fault OrderId :=
  (Json.toNat64 document).map fun value => ⟨value.toUInt64⟩

end Bourse
