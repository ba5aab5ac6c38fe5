import Bourse.Book.Basic

/-!
# Execution

An order that can trade does so against the best order of the other flow, at the
price of that order, until nothing is left of it or no order is acceptable; what is
left rests or is cancelled. After every trade the parked stop orders are checked:
those that the price of the trade reaches are released one by one, and each trades
to its end before the next one is looked at and before the order that set it off
goes on.

The work that is still to be done is a list of tasks, the next one first. A step
does one of them and may put others in front. The potential of a book and its tasks
bounds the steps: a trade lowers the unfilled quantity by two or more, a release
lowers the number of parked orders, and every other step drops a task.
-/

namespace Bourse

/-- Something still to be done in an execution. -/
inductive Task where
  /-- Trade the order once more, or rest what is left of it. -/
  | trade (order : Order)
  /-- Release parked orders, beginning with those of the flow. -/
  | check (flow : Flow)
  deriving DecidableEq, Repr

namespace Book

/-- One trade of an order against the best of the other flow, at the price of that
one: the order after it, the book, and the reports on the two fills. There is no
trade without a quantity to trade on both sides. -/
def tradeOnce (book : Book) (taker : Order) : Option (Order × Book × List Report) :=
  let queue := book.resting taker.flow.contra
  match queue.first? with
  | none => none
  | some best =>
    let quantity := min taker.pending best.pending
    if quantity ≤ 0 ∨ !taker.accepts best.price then none
    else
      (queue.fillFirst? best.price quantity).map fun (maker, queue) =>
        let taker := taker.fill best.price quantity
        (taker,
          { book.withResting taker.flow.contra queue with
            record := book.record.trade best.price quantity },
          [Report.ofFill maker, Report.ofFill taker])

/-- The book with an order resting at its price, behind everything there. -/
def rest (book : Book) (order : Order) : Book :=
  book.withResting order.flow ((book.resting order.flow).insert order.price order)

/-- What becomes of an order that finds nothing more to trade with. An immediate
order is cancelled. A market order becomes a limit order at the last price, or is
cancelled where there is none. Any other order rests. -/
def restRemainder (book : Book) (order : Order) : Book × List Report :=
  if order.timeInForce = .immediateOrCancel then
    (book, [Report.of .cancelled order Reason.notImmediate.text])
  else if order.type = .market then
    if book.record.lastPrice ≤ 0 then
      (book, [Report.of .cancelled order Reason.noLastTrade.text])
    else
      let limited := order.limitedAt book.record.lastPrice
      (book.rest limited, [Report.of .restated limited ""])
  else (book.rest order, [])

/-- The first parked order of a flow, live again, and the book without it, if the
last price reaches its stop price. -/
def releaseFrom (book : Book) (flow : Flow) : Option (Order × Book) :=
  match (book.parked flow).popFirst? with
  | none => none
  | some (order, queue) =>
    if flow.reaches book.record.lastPrice order.stopPrice then
      some (order.trigger, book.withParked flow queue)
    else none

/-- The next order to be released, and the flow it is from. Purchases go first; a
check that has come to the sales does not go back. -/
def release (book : Book) : Flow → Option (Flow × Order × Book)
  | .buying =>
    match book.releaseFrom .buying with
    | some (order, book) => some (.buying, order, book)
    | none => (book.releaseFrom .selling).map fun (order, book) => (.selling, order, book)
  | .selling => (book.releaseFrom .selling).map fun (order, book) => (.selling, order, book)

/-- One task: the book and the tasks after it, and what it reports. -/
def step (book : Book) : List Task → Option (Book × List Task × List Report)
  | [] => none
  | .trade order :: tasks =>
    match book.tradeOnce order with
    | some (order, book, reports) =>
      some (book, .check .buying :: .trade order :: tasks, reports)
    | none =>
      if 0 < order.unfilled then
        let (book, reports) := book.restRemainder order
        some (book, tasks, reports)
      else some (book, tasks, [])
  | .check flow :: tasks =>
    match book.release flow with
    | some (flow, order, book) =>
      some (book, .trade order :: .check flow :: tasks, [Report.of .triggered order ""])
    | none => some (book, tasks, [])

end Book

/-- The unfilled quantity of orders. -/
def unfilledTotal : List Order → Nat
  | [] => 0
  | order :: rest => order.unfilled.toNat + unfilledTotal rest

/-- The order that a task trades. -/
def Task.order? : Task → Option Order
  | .trade order => some order
  | .check _ => none

namespace Book

/-- A bound on the steps that the tasks can take. -/
def potential (book : Book) (tasks : List Task) : Nat :=
  unfilledTotal book.buys.orders + unfilledTotal book.sells.orders +
    unfilledTotal book.stopBuys.orders + unfilledTotal book.stopSells.orders +
    unfilledTotal (tasks.filterMap Task.order?) +
    2 * (book.stopBuys.size + book.stopSells.size) + tasks.length

/-- The book after at most `fuel` steps, and the reports on the way. -/
def run : (fuel : Nat) → Book → List Task → Book × List Report
  | 0, book, _ => (book, [])
  | fuel + 1, book, tasks =>
    match book.step tasks with
    | none => (book, [])
    | some (book, tasks, reports) =>
      let (book, later) := run fuel book tasks
      (book, reports ++ later)

/-- The book after an order that can trade has done so to its end, with every parked
order that it set off. -/
def execute (book : Book) (order : Order) : Book × List Report :=
  run (book.potential [.trade order]) book [.trade order]

end Book

end Bourse
