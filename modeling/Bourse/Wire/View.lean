import Bourse.Market
import Bourse.Wire.Attribute
import Bourse.Wire.Picture

/-!
# Answers to queries in JSON
-/

namespace Bourse

/-- What a query shows of a book, in a document. -/
def BookView.toJson (view : BookView) : Json :=
  .record [
    ("is_active", .bool view.isActive),
    ("resting", view.resting.toJson),
    ("record", view.record.toJson)]

/-- The answer to a request that reached its book. -/
def acceptedJson (id : OrderId) : Json :=
  .record [("order_id", id.toJson), ("status", .text "accepted")]

/-- The answer to the question for the securities. -/
def securitiesJson (securities : List String) : Json :=
  .record [("securities", .array (securities.map Json.text))]

end Bourse
