import Bourse.Book.Execution

/-!
# Operations on a book

A book takes new orders, replacements and cancellations, and it opens and closes.
Every operation gives the book after it and the reports it sends, in their order.
An operation that is refused sends one report and leaves the book as it is.
-/

namespace Bourse.Book

/-- The book with a stop order: released at once if the last trade reaches its stop
price already, and parked otherwise. -/
def park (book : Book) (order : Order) : Book × List Report :=
  if book.record.hasTraded && order.flow.reaches book.record.lastPrice order.stopPrice then
    let released := order.trigger
    let (book, reports) := book.execute released
    (book, Report.of .triggered released "" :: reports)
  else
    (book.withParked order.flow ((book.parked order.flow).insert order.stopPrice order), [])

/-- The book with an order wherever its type takes it. -/
def route (book : Book) (order : Order) : Book × List Report :=
  if order.type.isStop then book.park order else book.execute order

/-- The book with a new order. A closed book refuses it, and a quantity that is not
positive is refused too. -/
def insert (book : Book) (order : Order) : Book × List Report :=
  if !book.isActive then (book, [Report.of .rejected order Reason.closedForNew.text])
  else if order.quantity ≤ 0 then (book, [Report.of .rejected order Reason.notPositive.text])
  else
    let (book, reports) := book.route order
    ({ book with hasChanged := true }, Report.of .new order "" :: reports)

/-- The order that a replacement names, what became of its place, and the book with
the queue that held it. The resting orders are looked through first; only an
order that is not there is looked for among the parked ones. -/
def amend (book : Book) (image : Order) : Except Refusal (Order × Order.Priority × Book) :=
  match (book.resting image.flow).amend image with
  | .ok (order, queue, priority) => .ok (order, priority, book.withResting image.flow queue)
  | .error (.unknownOrder _) =>
    ((book.parked image.flow).amend image).map fun (order, queue, priority) =>
      (order, priority, book.withParked image.flow queue)
  | .error refusal => .error refusal

/-- The book without a resting order that a replacement made immediate. A parked
order stays. -/
def dropImmediate (book : Book) (order : Order) : Book × List Report :=
  match (book.resting order.flow).erase order.id with
  | .ok (dropped, queue) =>
    (book.withResting order.flow queue, [Report.of .cancelled dropped Reason.notImmediate.text])
  | .error _ => (book, [])

/-- What follows a replacement. An order that keeps its place stays in it unless it
became immediate; one that loses it is routed like a new one. -/
def settleReplaced (book : Book) (order : Order) : Order.Priority → Book × List Report
  | .lost => book.route order
  | .kept => if order.timeInForce = .immediateOrCancel then book.dropImmediate order else (book, [])

/-- The book with the order that a replacement names replaced. -/
def replace (book : Book) (image : Order) : Book × List Report :=
  if !book.isActive then
    (book, [Report.of .replaceRejected image Reason.closedForReplace.text])
  else
    match book.amend image with
    | .error refusal => (book, [Report.of .replaceRejected image refusal.message])
    | .ok (order, priority, book) =>
      let (book, reports) := book.settleReplaced order priority
      ({ book with hasChanged := true }, Report.of .replaced order "" :: reports)

/-- The order that a cancellation names, and the book without it, among the resting
orders of a flow. -/
def cancelResting (book : Book) (image : Order) : Except Refusal (Order × Book) :=
  ((book.resting image.flow).cancel image).map fun (order, queue) =>
    (order, book.withResting image.flow queue)

/-- The order that a cancellation names, and the book without it, among the parked
orders of a flow. -/
def cancelParked (book : Book) (image : Order) : Except Refusal (Order × Book) :=
  ((book.parked image.flow).cancel image).map fun (order, queue) =>
    (order, book.withParked image.flow queue)

/-- The first of two outcomes that succeeds; the second one if neither does. -/
def orElse {α : Type} (first second : Except Refusal α) : Except Refusal α :=
  match first with
  | .ok value => .ok value
  | .error _ => second

/-- The order that a cancellation names, and the book without it. The order may be
parked or resting, whatever type the cancellation gives it; the type decides which
of the two is tried first. -/
def withdraw (book : Book) (image : Order) : Except Refusal (Order × Book) :=
  if image.type.isStop then orElse (book.cancelParked image) (book.cancelResting image)
  else orElse (book.cancelResting image) (book.cancelParked image)

/-- The book without the order that a cancellation names. A closed book cancels
too. -/
def cancel (book : Book) (image : Order) : Book × List Report :=
  match book.withdraw image with
  | .ok (order, book) =>
    ({ book with hasChanged := true }, [Report.of .cancelled order Reason.requested.text])
  | .error refusal => (book, [Report.of .cancelRejected image refusal.message])

/-- The book as it accepts new orders and replacements again. -/
def start (book : Book) : Book := { book with isActive := true }

/-- The reports on orders cancelled because the market closes. -/
def closingReports (orders : List Order) : List Report :=
  orders.map fun order => Report.of .cancelled order Reason.closing.text

/-- The closed book: every order is cancelled, those that rest before those that are
parked, purchases before sales, best first. -/
def stop (book : Book) : Book × List Report :=
  ({ book with
      buys := book.buys.cleared
      sells := book.sells.cleared
      stopBuys := book.stopBuys.cleared
      stopSells := book.stopSells.cleared
      isActive := false
      hasChanged := true },
    closingReports
      (book.buys.orders ++ book.sells.orders ++ book.stopBuys.orders ++ book.stopSells.orders))

end Bourse.Book
