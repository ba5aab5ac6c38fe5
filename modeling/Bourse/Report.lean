import Bourse.Order.Basic

/-!
# Reports

A report tells the sender of an order what happened to it and shows the order as it
stands after that.
-/

namespace Bourse

/-- What happened to an order. -/
inductive ReportKind where
  | new
  | replaced
  | cancelled
  | rejected
  | replaceRejected
  | cancelRejected
  | restated
  | triggered
  | partialFill
  | fill
  deriving DecidableEq, Repr, Inhabited

/-- What happened to an order, and the order after it. -/
structure Report where
  kind : ReportKind
  order : OrderId
  clientOrderId : String
  previousClientOrderId : String
  security : String
  sender : String
  side : Side
  type : OrderType
  price : Int
  /-- The quantity not yet filled, shown or not. -/
  leaves : Int
  /-- The quantity filled so far. -/
  filled : Int
  averagePrice : Int
  lastPrice : Int
  lastQuantity : Int
  /-- The reason, if there is one. -/
  text : Option String
  deriving DecidableEq, Repr, Inhabited

namespace Report

/-- The report on an order, with a reason unless that is empty. -/
def of (kind : ReportKind) (order : Order) (reason : String) : Report where
  kind := kind
  order := order.id
  clientOrderId := order.clientOrderId
  previousClientOrderId := order.previousClientOrderId
  security := order.security
  sender := order.sender
  side := order.side
  type := order.type
  price := order.price
  leaves := order.unfilled
  filled := order.filled
  averagePrice := order.averagePrice
  lastPrice := order.lastPrice
  lastQuantity := order.lastQuantity
  text := if reason.isEmpty then none else some reason

/-- The report on a fill: the last one when nothing is left to show. -/
def ofFill (order : Order) : Report :=
  of (if order.pending = 0 then .fill else .partialFill) order ""

end Report

/-- The reasons that reports give. -/
inductive Reason where
  | requested
  | notImmediate
  | noLastTrade
  | closing
  | closedForNew
  | closedForReplace
  | notPositive
  deriving DecidableEq, Repr

/-- The wording of a reason. -/
def Reason.text : Reason → String
  | .requested => "order cancelled"
  | .notImmediate => "IOC order cancelled"
  | .noLastTrade => "market order cancelled, no last traded price"
  | .closing => "order cancelled as system is shutting down"
  | .closedForNew => "new orders are not accepted while the market is closed"
  | .closedForReplace => "replaces are not accepted while the market is closed"
  | .notPositive => "order qty must be positive"

end Bourse
