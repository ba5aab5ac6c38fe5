import Bourse.Book.Basic
import Bourse.Json.Fields
import Bourse.Picture

/-!
# Records and pictures in JSON

The depth of a record has as many rows in a document as in the record; a document
with more or fewer is refused.
-/

namespace Bourse

open Json (Fields Route toText toInt64 toNat64 toName toVector)

/-- The trends by their names in documents. -/
def Trend.wireNames : List (String × Trend) := [("up", .up), ("down", .down), ("flat", .flat)]

/-- The name of a trend in documents. -/
def Trend.wireName : Trend → String
  | .up => "up"
  | .down => "down"
  | .flat => "flat"

/-- A trend in a document. -/
def Trend.toJson (trend : Trend) : Json := .text trend.wireName

/-- A row of the depth in a document. -/
def DepthRow.toJson (row : DepthRow) : Json :=
  .record [
    ("best_buy_px", .int row.buy.price),
    ("total_buy_qty", .int row.buy.quantity),
    ("best_sell_px", .int row.sell.price),
    ("total_sell_qty", .int row.sell.quantity)]

/-- The row of the depth with two prices and two quantities. -/
def DepthRow.of (buyPrice buyQuantity sellPrice sellQuantity : Int) : DepthRow :=
  ⟨⟨buyPrice, buyQuantity⟩, ⟨sellPrice, sellQuantity⟩⟩

/-- The fields of a row of the depth. -/
def DepthRow.fields : Fields DepthRow :=
  DepthRow.of
    <$> .required "best_buy_px" toInt64
    <*> .required "total_buy_qty" toInt64
    <*> .required "best_sell_px" toInt64
    <*> .required "total_sell_qty" toInt64

/-- A record in a document. -/
def Record.toJson (record : Record) : Json :=
  .record [
    ("scrip_code", .text record.security),
    ("open_px", .int record.openPrice),
    ("close_px", .int record.closePrice),
    ("high_px", .int record.highPrice),
    ("low_px", .int record.lowPrice),
    ("no_of_trades", .int record.trades),
    ("volume", .int record.volume),
    ("value", .int record.value),
    ("last_trade_qty", .int record.lastQuantity),
    ("last_trade_px", .int record.lastPrice),
    ("total_buy_qty", .int record.totalBuy),
    ("total_sell_qty", .int record.totalSell),
    ("trend", record.trend.toJson),
    ("lower_ckt_limit", .int record.lowerLimit),
    ("upper_ckt_limit", .int record.upperLimit),
    ("weighted_avg_px", .int record.weightedAverage),
    ("depth", .array (record.depth.toList.map DepthRow.toJson))]

/-- The fields of a record. -/
def Record.fields (route : Route) : Fields Record :=
  Record.mk
    <$> .required "scrip_code" toText
    <*> .required "open_px" toInt64
    <*> .required "close_px" toInt64
    <*> .required "high_px" toInt64
    <*> .required "low_px" toInt64
    <*> .required "no_of_trades" toInt64
    <*> .required "volume" toInt64
    <*> .required "value" toInt64
    <*> .required "last_trade_qty" toInt64
    <*> .required "last_trade_px" toInt64
    <*> .required "total_buy_qty" toInt64
    <*> .required "total_sell_qty" toInt64
    <*> .required "trend" (toName Trend.wireNames route)
    <*> .required "lower_ckt_limit" toInt64
    <*> .required "upper_ckt_limit" toInt64
    <*> .required "weighted_avg_px" toInt64
    <*> .required "depth" (toVector DepthRow.fields.decode depthLevels)

/-- The members of a picture in a document. -/
def Picture.members (picture : Picture) : List (String × Json) :=
  [("sequence_no", .nat picture.sequence),
   ("records", .array (picture.records.map Record.toJson))]

/-- A picture in a document. -/
def Picture.toJson (picture : Picture) : Json := .record picture.members

/-- The fields of a picture. -/
def Picture.fields (route : Route) : Fields Picture :=
  Picture.mk
    <$> .required "sequence_no" toNat64
    <*> .required "records" (Json.toList (Record.fields route).decode)

/-- Counts in a document. -/
def Counts.toJson (counts : Counts) : Json :=
  .record [
    ("buys", .nat counts.buys),
    ("sells", .nat counts.sells),
    ("stop_buys", .nat counts.stopBuys),
    ("stop_sells", .nat counts.stopSells)]

/-- The fields of counts. -/
def Counts.fields : Fields Counts :=
  Counts.mk
    <$> .required "buys" toNat64
    <*> .required "sells" toNat64
    <*> .required "stop_buys" toNat64
    <*> .required "stop_sells" toNat64

end Bourse
