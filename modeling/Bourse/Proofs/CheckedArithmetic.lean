import Bourse.Proofs.Runs

/-!
# Checked arithmetic

Prices, quantities and totals are whole numbers here, while a machine holds them in signed
words of 64 bits. This is what a book does once more, as a machine does it that checks its
arithmetic: a sum, a difference or a product that no word holds is a fault, and so is a
division by zero. A fill of nothing, or of more than is left, is a fault as well.

Every operation is that of the book in each other respect. Comparisons and choices compute
nothing that could fail, nor do additions that are meant to stop at the greatest word. The
number of an arrival in its queue is not counted by a signed word, and the bound on the
steps of an execution belongs to its proof; neither is checked.
-/

namespace Bourse

/-- What ends a checked computation early. -/
inductive WordFault where
  /-- No signed word holds the result. -/
  | overflow
  | zeroDivision
  /-- A fill of nothing, or of more than is left. -/
  | overfill
  deriving DecidableEq, Repr

namespace Word

/-- A number that a signed word holds. -/
def Fits (value : Int) : Prop := least ≤ value ∧ value ≤ greatest

instance (value : Int) : Decidable (Fits value) :=
  inferInstanceAs (Decidable (least ≤ value ∧ value ≤ greatest))

/-- The result of an operation, if a word holds it. -/
def checked (value : Int) : Except WordFault Int :=
  if Fits value then pure value else throw .overflow

/-- A truncated quotient. -/
def quotient (value divisor : Int) : Except WordFault Int :=
  if divisor = 0 then throw .zeroDivision else checked (value.tdiv divisor)

end Word

namespace Order

/-- The quantity not yet filled. -/
def checkedUnfilled (order : Order) : Except WordFault Int :=
  Word.checked (order.quantity - order.filled)

/-- The quantity that the order shows. -/
def checkedPending (order : Order) : Except WordFault Int := do
  let unfilled ← order.checkedUnfilled
  pure (if 0 < order.disclosed ∧ order.disclosed < unfilled then order.disclosed else unfilled)

/-- The mean price of the fills. -/
def checkedAveragePrice (order : Order) : Except WordFault Int :=
  if order.filled = 0 then pure 0 else Word.quotient order.fillValue order.filled

/-- The order after a fill. -/
def checkedFill (order : Order) (price quantity : Int) : Except WordFault Order := do
  let unfilled ← order.checkedUnfilled
  if 0 < quantity ∧ quantity ≤ unfilled then
    let quantity := min quantity unfilled
    let value ← Word.checked (price * quantity)
    let fillValue ← Word.checked (order.fillValue + value)
    let filled ← Word.checked (order.filled + quantity)
    pure { order with fillValue, lastPrice := price, lastQuantity := quantity, filled }
  else throw .overfill

end Order

namespace Report

/-- The report on an order. -/
def checkedOf (kind : ReportKind) (order : Order) (reason : String) : Except WordFault Report := do
  let leaves ← order.checkedUnfilled
  let averagePrice ← order.checkedAveragePrice
  pure { of kind order reason with leaves, averagePrice }

/-- The report on a fill. -/
def checkedOfFill (order : Order) : Except WordFault Report := do
  let pending ← order.checkedPending
  checkedOf (if pending = 0 then .fill else .partialFill) order ""

end Report

namespace Record

/-- The record of a security with the reference prices of its first order. -/
def checkedSeeded (security : String) (price : Int) : Except WordFault Record := do
  let below ← Word.checked (price * 9)
  let lowerLimit ← Word.quotient below 10
  let above ← Word.checked (price * 11)
  let upperLimit ← Word.quotient above 10
  pure { blank security with
    openPrice := price
    closePrice := price
    highPrice := price
    lowPrice := price
    lowerLimit
    upperLimit }

/-- The record after a trade. -/
def checkedTrade (record : Record) (price quantity : Int) : Except WordFault Record := do
  let trades ← Word.checked (record.trades + 1)
  let volume := Word.saturated (record.volume + quantity)
  let amount ← Word.checked (quantity * price)
  let value := Word.saturated (record.value + amount)
  let weightedAverage ← Word.quotient value volume
  pure { record with
    trend := record.trendTo price
    trades
    volume
    value
    lastPrice := price
    lastQuantity := quantity
    weightedAverage
    highPrice := if record.highPrice < price then price else record.highPrice
    lowPrice := if record.lowPrice < 0 ∨ price < record.lowPrice then price else record.lowPrice }

end Record

/-- The levels of orders in a row, beginning with one that has been opened, and no more
than `further` others. An order behind the last level is not looked at. -/
def checkedLevels (level : Level) (further : Nat) : List Order → Except WordFault (List Level)
  | [] => pure [level]
  | order :: rest =>
    if level.price = order.price then do
      let pending ← order.checkedPending
      let quantity ← Word.checked (level.quantity + pending)
      checkedLevels ⟨level.price, quantity⟩ further rest
    else
      match further with
      | 0 => pure [level]
      | further + 1 => do
        let pending ← order.checkedPending
        let levels ← checkedLevels ⟨order.price, pending⟩ further rest
        pure (level :: levels)

/-- What a queue shows. -/
def Queue.checkedDepth {direction : Direction} (queue : Queue direction) : Except WordFault Depth :=
  match queue.orders with
  | [] => pure (Depth.ofLevels [])
  | order :: rest => do
    let pending ← order.checkedPending
    let levels ← checkedLevels ⟨order.price, pending⟩ (depthLevels - 1) rest
    pure (Depth.ofLevels levels)

/-- The quantity shown at all levels together. -/
def Depth.checkedTotal (depth : Depth) : Except WordFault Int :=
  (depth.toList.map (·.quantity)).foldlM (fun total quantity => Word.checked (total + quantity)) 0

/-- The first order after a fill, and the queue. -/
def Queue.checkedFillFirst {direction : Direction} (queue : Queue direction)
    (price quantity : Int) : Except WordFault (Option (Order × Queue direction)) :=
  match queue.entries with
  | [] => pure none
  | entry :: rest => do
    let filled ← entry.order.checkedFill price quantity
    let pending ← filled.checkedPending
    let entries := if pending = 0 then rest else { entry with order := filled } :: rest
    pure (some (filled, { queue with entries }))

namespace Book

/-- The empty book of a security, with reference prices from its first order. -/
def checkedOfFirst (first : Order) : Except WordFault Book := do
  let record ← Record.checkedSeeded first.security first.price
  pure { ofFirst first with record }

/-- The record with the depth as it is now. -/
def checkedPicture (book : Book) : Except WordFault Record := do
  let buys ← book.buys.checkedDepth
  let sells ← book.sells.checkedDepth
  let totalBuy ← buys.checkedTotal
  let totalSell ← sells.checkedTotal
  pure { book.record with depth := Vector.zipWith DepthRow.mk buys sells, totalBuy, totalSell }

/-- The book after its record is published. -/
def checkedPublish (book : Book) : Except WordFault Book := do
  let record ← book.checkedPicture
  pure { book with record, hasChanged := false }

/-- One trade of an order against the best of the other flow. Only the order that is traded
is asked whether it shows anything. -/
def checkedTradeOnce (book : Book) (taker : Order) :
    Except WordFault (Option (Order × Book × List Report)) := do
  let shown ← taker.checkedPending
  if shown ≤ 0 then pure none
  else
    let queue := book.resting taker.flow.contra
    match queue.first? with
    | none => pure none
    | some best =>
      if !taker.accepts best.price then pure none
      else
        let offered ← best.checkedPending
        let quantity := min shown offered
        match ← queue.checkedFillFirst best.price quantity with
        | none => pure none
        | some (maker, queue) =>
          let after ← taker.checkedFill best.price quantity
          let ofMaker ← Report.checkedOfFill maker
          let ofTaker ← Report.checkedOfFill after
          let record ← book.record.checkedTrade best.price quantity
          pure (some (after, { book.withResting taker.flow.contra queue with record },
            [ofMaker, ofTaker]))

/-- What becomes of an order that finds nothing more to trade with. -/
def checkedRestRemainder (book : Book) (order : Order) : Except WordFault (Book × List Report) :=
  if order.timeInForce = .immediateOrCancel then do
    let report ← Report.checkedOf .cancelled order Reason.notImmediate.text
    pure (book, [report])
  else if order.type = .market then
    if book.record.lastPrice ≤ 0 then do
      let report ← Report.checkedOf .cancelled order Reason.noLastTrade.text
      pure (book, [report])
    else do
      let limited := order.limitedAt book.record.lastPrice
      let report ← Report.checkedOf .restated limited ""
      pure (book.rest limited, [report])
  else pure (book.rest order, [])

/-- One task. -/
def checkedStep (book : Book) : List Task → Except WordFault (Option (Book × List Task × List Report))
  | [] => pure none
  | .trade order :: tasks => do
    match ← book.checkedTradeOnce order with
    | some (order, book, reports) =>
      pure (some (book, .check .buying :: .trade order :: tasks, reports))
    | none =>
      let unfilled ← order.checkedUnfilled
      if 0 < unfilled then
        let (book, reports) ← book.checkedRestRemainder order
        pure (some (book, tasks, reports))
      else pure (some (book, tasks, []))
  | .check flow :: tasks =>
    match book.release flow with
    | some (flow, order, book) => do
      let report ← Report.checkedOf .triggered order ""
      pure (some (book, .trade order :: .check flow :: tasks, [report]))
    | none => pure (some (book, tasks, []))

/-- The book after at most `fuel` steps. -/
def checkedRun : (fuel : Nat) → Book → List Task → Except WordFault (Book × List Report)
  | 0, book, _ => pure (book, [])
  | fuel + 1, book, tasks => do
    match ← book.checkedStep tasks with
    | none => pure (book, [])
    | some (book, tasks, reports) =>
      let (book, later) ← checkedRun fuel book tasks
      pure (book, reports ++ later)

/-- The book after an order that can trade has done so to its end. -/
def checkedExecute (book : Book) (order : Order) : Except WordFault (Book × List Report) :=
  checkedRun (book.potential [.trade order]) book [.trade order]

/-- The book with a stop order. -/
def checkedPark (book : Book) (order : Order) : Except WordFault (Book × List Report) :=
  if book.record.hasTraded && order.flow.reaches book.record.lastPrice order.stopPrice then do
    let released := order.trigger
    let report ← Report.checkedOf .triggered released ""
    let (book, reports) ← book.checkedExecute released
    pure (book, report :: reports)
  else
    pure (book.withParked order.flow ((book.parked order.flow).insert order.stopPrice order), [])

/-- The book with an order wherever its type takes it. -/
def checkedRoute (book : Book) (order : Order) : Except WordFault (Book × List Report) :=
  if order.type.isStop then book.checkedPark order else book.checkedExecute order

/-- The book with a new order. -/
def checkedInsert (book : Book) (order : Order) : Except WordFault (Book × List Report) :=
  if !book.isActive then do
    let report ← Report.checkedOf .rejected order Reason.closedForNew.text
    pure (book, [report])
  else if order.quantity ≤ 0 then do
    let report ← Report.checkedOf .rejected order Reason.notPositive.text
    pure (book, [report])
  else do
    let report ← Report.checkedOf .new order ""
    let (book, reports) ← book.checkedRoute order
    pure ({ book with hasChanged := true }, report :: reports)

/-- The book without a resting order that a replacement made immediate. -/
def checkedDropImmediate (book : Book) (order : Order) : Except WordFault (Book × List Report) :=
  match (book.resting order.flow).erase order.id with
  | .ok (dropped, queue) => do
    let report ← Report.checkedOf .cancelled dropped Reason.notImmediate.text
    pure (book.withResting order.flow queue, [report])
  | .error _ => pure (book, [])

/-- What follows a replacement. -/
def checkedSettleReplaced (book : Book) (order : Order) :
    Order.Priority → Except WordFault (Book × List Report)
  | .lost => book.checkedRoute order
  | .kept =>
    if order.timeInForce = .immediateOrCancel then book.checkedDropImmediate order
    else pure (book, [])

/-- The book with the order that a replacement names replaced. -/
def checkedReplace (book : Book) (image : Order) : Except WordFault (Book × List Report) :=
  if !book.isActive then do
    let report ← Report.checkedOf .replaceRejected image Reason.closedForReplace.text
    pure (book, [report])
  else
    match book.amend image with
    | .error refusal => do
      let report ← Report.checkedOf .replaceRejected image refusal.message
      pure (book, [report])
    | .ok (order, priority, book) => do
      let report ← Report.checkedOf .replaced order ""
      let (book, reports) ← book.checkedSettleReplaced order priority
      pure ({ book with hasChanged := true }, report :: reports)

/-- The book without the order that a cancellation names. -/
def checkedCancel (book : Book) (image : Order) : Except WordFault (Book × List Report) :=
  match book.withdraw image with
  | .ok (order, book) => do
    let report ← Report.checkedOf .cancelled order Reason.requested.text
    pure ({ book with hasChanged := true }, [report])
  | .error refusal => do
    let report ← Report.checkedOf .cancelRejected image refusal.message
    pure (book, [report])

/-- The closed book. -/
def checkedStop (book : Book) : Except WordFault (Book × List Report) := do
  let orders := book.buys.orders ++ book.sells.orders ++ book.stopBuys.orders ++
    book.stopSells.orders
  let reports ← orders.mapM fun order => Report.checkedOf .cancelled order Reason.closing.text
  pure (book.stop.1, reports)

/-- The book after an operation. -/
def checkedPerform (book : Book) : Operation → Except WordFault (Book × List Report)
  | .insert id request =>
    match Order.ofNew id request with
    | .ok order => book.checkedInsert order
    | .error _ => pure (book, [])
  | .replace request =>
    match Order.ofReplacement request with
    | .ok image => book.checkedReplace image
    | .error _ => pure (book, [])
  | .cancel request => book.checkedCancel (Order.ofCancellation request)
  | .start => pure (book.start, [])
  | .stop => book.checkedStop
  | .publish => do
    let book ← book.checkedPublish
    pure (book, [])

/-- The book after operations in a row. -/
def checkedPerformAll (book : Book) : List Operation → Except WordFault (Book × List Report)
  | [] => pure (book, [])
  | operation :: operations => do
    let (next, reports) ← book.checkedPerform operation
    let (final, later) ← next.checkedPerformAll operations
    pure (final, reports ++ later)

end Book

/-- An order at the highest price overflows once it is larger than any request may be. -/
example :
    let order : Order := { (default : Order) with quantity := 10000000000 }
    order.checkedFill maxPrice 10000000000 = .error .overflow ∧
      order.checkedFill 1 10000000001 = .error .overfill := by
  decide

end Bourse
