import Bourse.Book.Operations
import Bourse.Order.Request
import Bourse.Proofs.Moves

/-!
# Runs of operations

What a book goes through is a list of operations on it, with the orders of the requests
that name them. A request that is no order never comes to the book.

Every operation does something at once, which may leave one order to be traded, then
works that off in moves, and marks the book as changed unless it was refused. The
outset of an operation is what it does at once: `perform_eq` says that nothing else
happens. `Opens` lists what an outset can be, so that what every operation keeps is
shown for each outset and each move, and then holds of every run: `run_keeps`.
-/

namespace Bourse

/-- An operation on a book. -/
inductive Operation where
  | insert (id : OrderId) (request : NewOrder)
  | replace (request : Replacement)
  | cancel (request : Cancellation)
  | start
  | stop
  | publish
  deriving DecidableEq, Repr

/-- The book that an operation leaves for its moves, the tasks for them, what it has
reported by then, and whether the book counts as changed afterwards. -/
structure Outset where
  book : Book
  tasks : List Task
  reports : List Report
  changes : Bool
  deriving DecidableEq, Repr

namespace Outset

/-- An outset that leaves the book as it is. -/
def unchanged (book : Book) (reports : List Report) : Outset := ⟨book, [], reports, false⟩

/-- An outset that leaves nothing to trade. -/
def settled (book : Book) (reports : List Report) : Outset := ⟨book, [], reports, true⟩

/-- The outset with a report before the others. -/
def after (report : Report) (outset : Outset) : Outset :=
  { outset with reports := report :: outset.reports }

/-- The book with a mark for its changes, unless there were none. -/
def marked (changes : Bool) (book : Book) : Book :=
  { book with hasChanged := book.hasChanged || changes }

/-- The operation that begins with an outset, done to its end. -/
def finish (outset : Outset) : Book × List Report :=
  (marked outset.changes (outset.book.work outset.tasks).1,
    outset.reports ++ (outset.book.work outset.tasks).2)

end Outset

namespace Book

/-- The book after an operation, and its reports. -/
def perform (book : Book) : Operation → Book × List Report
  | .insert id request =>
    match Order.ofNew id request with
    | .ok order => book.insert order
    | .error _ => (book, [])
  | .replace request =>
    match Order.ofReplacement request with
    | .ok image => book.replace image
    | .error _ => (book, [])
  | .cancel request => book.cancel (Order.ofCancellation request)
  | .start => (book.start, [])
  | .stop => book.stop
  | .publish => (book.publish.2, [])

/-- The book after operations in a row, and their reports. -/
def performAll (book : Book) : List Operation → Book × List Report
  | [] => (book, [])
  | operation :: operations =>
    let (next, reports) := book.perform operation
    let (final, later) := next.performAll operations
    (final, reports ++ later)

/-- An order is about to be traded, to be released at once, or is parked. -/
def routeOutset (book : Book) (order : Order) : Outset :=
  if order.type.isStop then
    if book.record.hasTraded && order.flow.reaches book.record.lastPrice order.stopPrice then
      ⟨book, [.trade order.trigger], [Report.of .triggered order.trigger ""], true⟩
    else
      .settled (book.withParked order.flow ((book.parked order.flow).insert order.stopPrice order))
        []
  else ⟨book, [.trade order], [], true⟩

/-- What a new order does at once. -/
def insertOutset (book : Book) (order : Order) : Outset :=
  if !book.isActive then .unchanged book [Report.of .rejected order Reason.closedForNew.text]
  else if order.quantity ≤ 0 then
    .unchanged book [Report.of .rejected order Reason.notPositive.text]
  else (book.routeOutset order).after (Report.of .new order "")

/-- What a replacement does at once. -/
def replaceOutset (book : Book) (image : Order) : Outset :=
  if !book.isActive then
    .unchanged book [Report.of .replaceRejected image Reason.closedForReplace.text]
  else
    match book.amend image with
    | .error refusal => .unchanged book [Report.of .replaceRejected image refusal.message]
    | .ok (order, .lost, rest) => (rest.routeOutset order).after (Report.of .replaced order "")
    | .ok (order, .kept, next) =>
      let dropped :=
        if order.timeInForce = .immediateOrCancel then next.dropImmediate order else (next, [])
      .settled dropped.1 (Report.of .replaced order "" :: dropped.2)

/-- What a cancellation does at once, and altogether. -/
def cancelOutset (book : Book) (image : Order) : Outset :=
  match book.withdraw image with
  | .ok (order, rest) => .settled rest [Report.of .cancelled order Reason.requested.text]
  | .error refusal => .unchanged book [Report.of .cancelRejected image refusal.message]

/-- What an operation does at once. -/
def outset (book : Book) : Operation → Outset
  | .insert id request =>
    match Order.ofNew id request with
    | .ok order => book.insertOutset order
    | .error _ => .unchanged book []
  | .replace request =>
    match Order.ofReplacement request with
    | .ok image => book.replaceOutset image
    | .error _ => .unchanged book []
  | .cancel request => book.cancelOutset (Order.ofCancellation request)
  | .start => .unchanged book.start []
  | .stop => .settled book.stop.1 book.stop.2
  | .publish => .unchanged book.publish.2 []

/-- Without tasks there is nothing to do. -/
@[simp] theorem work_nil (book : Book) : book.work [] = (book, []) := by
  have chain := (finishes_iff book book [] []).mp (.done book)
  exact chain

/-- Nothing is left of an operation that leaves the book as it is. -/
theorem finish_unchanged (book : Book) (reports : List Report) :
    (Outset.unchanged book reports).finish = (book, reports) := by
  simp [Outset.finish, Outset.unchanged, Outset.marked]

/-- Nothing but the mark is left of an operation without a trade. -/
theorem finish_settled (book : Book) (reports : List Report) :
    (Outset.settled book reports).finish = ({ book with hasChanged := true }, reports) := by
  simp [Outset.finish, Outset.settled, Outset.marked]

/-- An order goes where its type takes it, and the book is marked afterwards. -/
theorem finish_route (book : Book) (order : Order) (report : Report) :
    ((book.routeOutset order).after report).finish =
      ({ (book.route order).1 with hasChanged := true }, report :: (book.route order).2) := by
  unfold routeOutset route park
  split
  · split
    · simp [Outset.finish, Outset.after, Outset.marked, execute, work]
    · simp [Outset.finish, Outset.after, Outset.settled, Outset.marked]
  · simp [Outset.finish, Outset.after, Outset.marked, execute, work]

/-- A new order is a first change of the book, and then the tasks that it leaves. -/
theorem insert_eq (book : Book) (order : Order) :
    book.insert order = (book.insertOutset order).finish := by
  unfold insert insertOutset
  split
  · rw [finish_unchanged]
  · split
    · rw [finish_unchanged]
    · rw [finish_route]

/-- So is a replacement. -/
theorem replace_eq (book : Book) (image : Order) :
    book.replace image = (book.replaceOutset image).finish := by
  unfold replace replaceOutset
  split
  · rw [finish_unchanged]
  · cases amended : book.amend image with
    | error refusal => simp only [finish_unchanged]
    | ok result =>
      obtain ⟨order, priority, next⟩ := result
      cases priority with
      | lost => simp only [settleReplaced, finish_route]
      | kept => simp only [settleReplaced, finish_settled]

/-- So is a cancellation. -/
theorem cancel_eq (book : Book) (image : Order) :
    book.cancel image = (book.cancelOutset image).finish := by
  cases withdrawn : book.withdraw image with
  | error refusal => simp only [cancel, cancelOutset, withdrawn, finish_unchanged]
  | ok result => simp only [cancel, cancelOutset, withdrawn, finish_settled]

/-- An operation is its outset and the moves that this leaves to be made. -/
theorem perform_eq (book : Book) (operation : Operation) :
    book.perform operation = (book.outset operation).finish := by
  cases operation with
  | insert id request =>
    cases built : Order.ofNew id request with
    | error error => simp only [perform, outset, built, finish_unchanged]
    | ok order => simp only [perform, outset, built, insert_eq]
  | replace request =>
    cases built : Order.ofReplacement request with
    | error error => simp only [perform, outset, built, finish_unchanged]
    | ok image => simp only [perform, outset, built, replace_eq]
  | cancel request => exact book.cancel_eq _
  | start => simp only [perform, outset, finish_unchanged]
  | stop => simp only [perform, outset, finish_settled, stop]
  | publish => simp only [perform, outset, finish_unchanged]

/-- Where an order goes that is new, or that a replacement took out of its queue. -/
inductive Routes (book : Book) (order : Order) : Outset → Prop where
  /-- An order that waits for no stop price is traded. -/
  | live (live : order.type.isStop = false) : Routes book order ⟨book, [.trade order], [], true⟩
  /-- A stop order whose price is reached already is released and traded. -/
  | reached (waits : order.type.isStop = true) (traded : book.record.hasTraded = true)
      (reached : order.flow.reaches book.record.lastPrice order.stopPrice = true) :
      Routes book order
        ⟨book, [.trade order.trigger], [Report.of .triggered order.trigger ""], true⟩
  /-- Any other stop order is parked behind everything at its stop price. -/
  | parked (waits : order.type.isStop = true)
      (unreached : book.record.hasTraded = true →
        order.flow.reaches book.record.lastPrice order.stopPrice = false) :
      Routes book order (.settled
        (book.withParked order.flow ((book.parked order.flow).insert order.stopPrice order)) [])

/-- Everything that an operation can do at once. -/
inductive Opens (book : Book) : Operation → Outset → Prop where
  /-- The request is no order and does not come to the book. -/
  | absent {operation : Operation} : Opens book operation (.unchanged book [])
  /-- The operation is refused with one report. -/
  | refused {operation : Operation} (kind : ReportKind) (image : Order) (reason : String)
      (rejects : kind = .rejected ∨ kind = .replaceRejected ∨ kind = .cancelRejected) :
      Opens book operation (.unchanged book [Report.of kind image reason])
  /-- A new order is accepted. -/
  | insert {id : OrderId} {request : NewOrder} {order : Order} {outset : Outset}
      (built : Order.ofNew id request = .ok order) (active : book.isActive = true)
      (positive : 0 < order.quantity) (routes : book.Routes order outset) :
      Opens book (.insert id request) (outset.after (Report.of .new order ""))
  /-- A replaced order loses its place and is routed like a new one. -/
  | requeue {request : Replacement} {image order : Order} {rest : Book} {outset : Outset}
      (built : Order.ofReplacement request = .ok image) (active : book.isActive = true)
      (amended : book.amend image = .ok (order, .lost, rest)) (routes : rest.Routes order outset) :
      Opens book (.replace request) (outset.after (Report.of .replaced order ""))
  /-- A replaced order keeps its place. -/
  | keep {request : Replacement} {image order : Order} {next : Book}
      (built : Order.ofReplacement request = .ok image) (active : book.isActive = true)
      (amended : book.amend image = .ok (order, .kept, next))
      (stays : order.timeInForce = .day) :
      Opens book (.replace request) (.settled next [Report.of .replaced order ""])
  /-- A replaced order keeps its place and has become immediate. -/
  | expire {request : Replacement} {image order : Order} {next : Book}
      (built : Order.ofReplacement request = .ok image) (active : book.isActive = true)
      (amended : book.amend image = .ok (order, .kept, next))
      (immediate : order.timeInForce = .immediateOrCancel) :
      Opens book (.replace request) (.settled (next.dropImmediate order).1
        (Report.of .replaced order "" :: (next.dropImmediate order).2))
  /-- An order is cancelled on request. -/
  | cancel {request : Cancellation} {order : Order} {rest : Book}
      (withdrawn : book.withdraw (Order.ofCancellation request) = .ok (order, rest)) :
      Opens book (.cancel request)
        (.settled rest [Report.of .cancelled order Reason.requested.text])
  | start : Opens book .start (.unchanged book.start [])
  | stop : Opens book .stop (.settled book.stop.1 book.stop.2)
  | publish : Opens book .publish (.unchanged book.publish.2 [])

/-- What an order begins with on its way to the market is one of the ways that it can go. -/
theorem routes_outset (book : Book) (order : Order) :
    book.Routes order (book.routeOutset order) := by
  unfold routeOutset
  split
  case isTrue waits =>
    split
    case isTrue reached =>
      obtain ⟨traded, reached⟩ := Bool.and_eq_true_iff.mp reached
      exact .reached waits traded reached
    case isFalse unreached =>
      refine .parked waits fun traded => ?_
      simpa only [traded, Bool.true_and, Bool.not_eq_true] using unreached
  case isFalse live => exact .live (by simpa using live)

/-- What an operation does at once is one of the cases. -/
theorem opens_outset (book : Book) (operation : Operation) :
    book.Opens operation (book.outset operation) := by
  cases operation with
  | insert id request =>
    cases built : Order.ofNew id request with
    | error error => simpa only [outset, built] using Opens.absent
    | ok order =>
      simp only [outset, built, insertOutset]
      split
      · exact .refused _ _ _ (.inl rfl)
      case isFalse closed =>
        split
        · exact .refused _ _ _ (.inl rfl)
        case isFalse positive =>
          exact .insert built (by simpa using closed) (by omega) (book.routes_outset order)
  | replace request =>
    cases built : Order.ofReplacement request with
    | error error => simpa only [outset, built] using Opens.absent
    | ok image =>
      simp only [outset, built, replaceOutset]
      split
      · exact .refused _ _ _ (.inr (.inl rfl))
      case isFalse closed =>
        have active : book.isActive = true := by simpa using closed
        cases amended : book.amend image with
        | error refusal => exact .refused _ _ _ (.inr (.inl rfl))
        | ok result =>
          obtain ⟨order, priority, next⟩ := result
          cases priority with
          | lost => exact .requeue built active amended (next.routes_outset order)
          | kept =>
            cases force : order.timeInForce with
            | day => simpa [force] using Opens.keep built active amended force
            | immediateOrCancel =>
              simpa [force] using Opens.expire built active amended force
  | cancel request =>
    cases withdrawn : book.withdraw (Order.ofCancellation request) with
    | error refusal =>
      simpa only [outset, cancelOutset, withdrawn] using
        Opens.refused .cancelRejected _ refusal.message (.inr (.inr rfl))
    | ok result => simpa only [outset, cancelOutset, withdrawn] using Opens.cancel withdrawn
  | start => exact .start
  | stop => exact .stop
  | publish => exact .publish

/-- What holds of a book without tasks, and is kept by every outset, every move and
every mark for a change, holds after every run. It may speak of the reports sent so
far. -/
theorem run_keeps {P : Book → List Task → List Report → Prop}
    (opens : ∀ {book : Book} {operation : Operation} {outset : Outset} {sent : List Report},
      book.Opens operation outset → P book [] sent →
        P outset.book outset.tasks (sent ++ outset.reports))
    (moves : ∀ {book next : Book} {tasks later : List Task} {reports sent : List Report},
      book.Move tasks next later reports → P book tasks sent → P next later (sent ++ reports))
    (marks : ∀ {book : Book} {sent : List Report} (changes : Bool),
      P book [] sent → P (Outset.marked changes book) [] sent)
    (operations : List Operation) (book : Book) (sent : List Report) (start : P book [] sent) :
    P (book.performAll operations).1 [] (sent ++ (book.performAll operations).2) := by
  induction operations generalizing book sent with
  | nil => simpa only [performAll, List.append_nil] using start
  | cons operation operations induction =>
    have opened := opens (book.opens_outset operation) start
    have worked := (work_finishes (book.outset operation).book _).keeps moves _ opened
    have performed := marks (book.outset operation).changes worked
    simp only [performAll]
    rw [perform_eq, ← List.append_assoc]
    refine induction _ _ ?_
    simpa only [Outset.finish, List.append_assoc] using performed

end Book

end Bourse
