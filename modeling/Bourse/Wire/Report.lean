import Bourse.Json.Fields
import Bourse.Report
import Bourse.Wire.Attribute

/-!
# Reports in JSON

A report is written without its text where it has none.
-/

namespace Bourse

open Json (Fields Route toText toInt64 toName)

/-- The kinds of reports by their names in documents. -/
def ReportKind.wireNames : List (String × ReportKind) :=
  [("new", .new), ("replaced", .replaced), ("cancelled", .cancelled), ("rejected", .rejected),
   ("replace_rejected", .replaceRejected), ("cancel_rejected", .cancelRejected),
   ("restated", .restated), ("triggered", .triggered), ("partial_fill", .partialFill),
   ("fill", .fill)]

/-- The name of a kind of report in documents. -/
def ReportKind.wireName : ReportKind → String
  | .new => "new"
  | .replaced => "replaced"
  | .cancelled => "cancelled"
  | .rejected => "rejected"
  | .replaceRejected => "replace_rejected"
  | .cancelRejected => "cancel_rejected"
  | .restated => "restated"
  | .triggered => "triggered"
  | .partialFill => "partial_fill"
  | .fill => "fill"

/-- A kind of report in a document. -/
def ReportKind.toJson (kind : ReportKind) : Json := .text kind.wireName

namespace Report

/-- The members of a report in a document. -/
def members (report : Report) : List (String × Json) :=
  [("kind", report.kind.toJson),
   ("order_id", report.order.toJson),
   ("client_order_id", .text report.clientOrderId),
   ("original_client_order_id", .text report.previousClientOrderId),
   ("security_id", .text report.security),
   ("sender_id", .text report.sender),
   ("side", report.side.toJson),
   ("order_type", report.type.toJson),
   ("price", .int report.price),
   ("leaves_qty", .int report.leaves),
   ("cum_qty", .int report.filled),
   ("avg_px", .int report.averagePrice),
   ("last_px", .int report.lastPrice),
   ("last_qty", .int report.lastQuantity)] ++
  match report.text with
  | some text => [("text", .text text)]
  | none => []

/-- A report in a document. -/
def toJson (report : Report) : Json := .record report.members

/-- The fields of a report. -/
def fields (route : Route) : Fields Report :=
  Report.mk
    <$> .required "kind" (toName ReportKind.wireNames route)
    <*> .required "order_id" OrderId.ofJson
    <*> .required "client_order_id" toText
    <*> .required "original_client_order_id" toText
    <*> .required "security_id" toText
    <*> .required "sender_id" toText
    <*> .required "side" (toName Side.wireNames route)
    <*> .required "order_type" (toName OrderType.wireNames route)
    <*> .required "price" toInt64
    <*> .required "leaves_qty" toInt64
    <*> .required "cum_qty" toInt64
    <*> .required "avg_px" toInt64
    <*> .required "last_px" toInt64
    <*> .required "last_qty" toInt64
    <*> .optional "text" toText

end Report

end Bourse
