import Bourse.Book.Operations
import Bourse.Proofs.Moves

/-!
# Plain books

How much an order shows at a time decides into how many trades its fills are cut. The traces
of that are few: what the order shows, the quantity of its last fill, and in the record the
number of trades, the last of their quantities, the trend and the depth. To look at something
plainly is to leave these out.

Everything that a request does with the queues is the same plainly: it makes no difference
whether a book is looked at plainly before or after. A trade is cut into others, so that only
what comes after it can be compared: `Order.fill_twice` and `Record.trade_twice` say that two
trades in a row at one price are plainly one trade of both quantities.
-/

namespace Bourse

namespace Order

/-- The order without what it shows at a time and the quantity of its last fill. -/
def plain (order : Order) : Order := { order with disclosed := 0, lastQuantity := 0 }

variable (order image : Order)

/-- As much is left of the plain order. -/
@[simp] theorem unfilled_plain : order.plain.unfilled = order.unfilled := rfl

/-- An order shows all that is left of it, plainly. -/
@[simp] theorem pending_plain : order.plain.pending = order.unfilled := by
  simp [pending, plain, unfilled]

/-- The plain order is filled as the order is. -/
theorem fill_plain (price quantity : Int) :
    (order.plain.fill price quantity).plain = (order.fill price quantity).plain := rfl

/-- It is replaced as the order is, with the same loss of priority. -/
theorem replace_plain :
    order.plain.replace image.plain =
      (order.replace image).map fun (order, priority) => (order.plain, priority) := by
  unfold replace
  have refused : image.plain.quantity ≤ order.plain.filled ↔ image.quantity ≤ order.filled := .rfl
  by_cases above : image.quantity ≤ order.filled
  · rw [if_pos above, if_pos (refused.mpr above)]
    rfl
  · rw [if_neg above, if_neg (mt refused.mp above)]
    rfl

/-- Two fills at one price are plainly one fill of both quantities. -/
theorem fill_twice (price : Int) {first second : Int} (positive : 0 ≤ second)
    (left : first + second ≤ order.unfilled) :
    ((order.fill price first).fill price second).plain =
      (order.fill price (first + second)).plain := by
  have before : first ≤ order.unfilled := by omega
  have after : second ≤ (order.fill price first).unfilled := by
    rw [unfilled_fill _ _ _ before]
    omega
  rw [fill_eq _ _ _ after, fill_eq _ _ _ before, fill_eq _ _ _ left]
  simp only [plain, Int.mul_add, Int.add_assoc]

end Order

namespace Report

/-- The report without the quantity of the last fill. -/
def plain (report : Report) : Report := { report with lastQuantity := 0 }

/-- What reports tell plainly: all but the partial fills. -/
def told (reports : List Report) : List Report :=
  (reports.map plain).filter (·.kind ≠ .partialFill)

/-- What later reports tell stands behind what the first tell. -/
@[simp] theorem told_append (reports later : List Report) :
    told (reports ++ later) = told reports ++ told later := by
  simp only [told, List.map_append, List.filter_append]

/-- Reports are told by what they are plainly. -/
@[simp] theorem told_plain (reports : List Report) : told (reports.map plain) = told reports := by
  rw [told, List.map_map]
  rfl

/-- What is told of one kind is told by the reports of that kind. -/
theorem told_of_kind (reports : List Report) {kind : ReportKind} (other : kind ≠ .partialFill) :
    (told reports).filter (·.kind = kind) = (reports.filter (·.kind = kind)).map plain := by
  have kinds : (fun report : Report => decide (report.kind = kind) &&
      decide (report.kind ≠ .partialFill)) = fun report => decide (report.kind = kind) := by
    funext report
    by_cases same : report.kind = kind
    · simp [same, other]
    · simp [same]
  rw [told, List.filter_filter, kinds, List.filter_map]
  rfl

/-- What is told of one report does not hang on the others. -/
theorem told_cons (report : Report) (reports : List Report) :
    told (report :: reports) = told [report] ++ told reports :=
  told_append [report] reports

/-- A fill that leaves something is not told. -/
theorem told_partial {order : Order} (left : 0 < order.unfilled) : told [ofFill order] = [] := by
  have shown : order.pending ≠ 0 := by
    have := order.pending_pos_iff.mpr left
    omega
  simp [told, plain, ofFill, of, shown]

/-- A fill is reported by what the order is plainly. -/
theorem fill_plain (order : Order) : (ofFill order.plain).plain = (ofFill order).plain := by
  simp only [ofFill, Order.pending_eq_zero_iff, Order.unfilled_plain]
  rfl

/-- Orders that are plainly the same tell the same of their fills. -/
theorem told_fill {order other : Order} (same : order.plain = other.plain) :
    told [ofFill order] = told [ofFill other] := by
  have report : (ofFill order).plain = (ofFill other).plain := by
    rw [← fill_plain, same, fill_plain]
  simp only [told, List.map_cons, List.map_nil, report]

end Report

namespace Record

/-- The record without its depth and what it says of single trades. -/
def plain (record : Record) : Record :=
  { record with
    trades := 0
    lastQuantity := 0
    trend := .flat
    totalBuy := 0
    totalSell := 0
    depth := Vector.replicate depthLevels ⟨Level.blank, Level.blank⟩ }

variable (record : Record)

/-- A plain record is plain. -/
@[simp] theorem plain_plain : record.plain.plain = record.plain := rfl

/-- The plain record trades as the record does. -/
theorem trade_plain (price quantity : Int) :
    (record.plain.trade price quantity).plain = (record.trade price quantity).plain := rfl

end Record

/-- What is added in two steps to a total that stops at the bounds of a word is added as if in
one step, as long as it lets the total grow. -/
theorem saturated_twice {total first second : Int} (fits : Word.least ≤ total) (grows : 0 ≤ first)
    (again : 0 ≤ second) :
    Word.saturated (Word.saturated (total + first) + second) =
      Word.saturated (total + (first + second)) := by
  simp only [Word.saturated, Word.least, Word.greatest] at fits ⊢
  omega

/-- Two trades at one price are plainly one trade of both quantities. -/
theorem Record.trade_twice (record : Record) {price first second : Int}
    (volume : Word.least ≤ record.volume) (value : Word.least ≤ record.value)
    (priced : 0 ≤ price) (positive : 0 ≤ first) (more : 0 ≤ second) :
    ((record.trade price first).trade price second).plain =
      (record.trade price (first + second)).plain := by
  have volumes := saturated_twice volume positive more
  have values := saturated_twice value (Int.mul_nonneg positive priced) (Int.mul_nonneg more priced)
  rw [← Int.add_mul] at values
  simp only [plain, trade, volumes, values, mk.injEq, true_and, and_true]
  -- a price that is the highest or the lowest after the first trade stays so in the second
  constructor
  · split_ifs <;> omega
  · split_ifs <;> omega

namespace Queue

variable {direction : Direction}

/-- An entry with its order looked at plainly. -/
def Entry.plain (entry : Entry) : Entry := { entry with order := entry.order.plain }

/-- A queue with its orders looked at plainly. -/
def plain (queue : Queue direction) : Queue direction :=
  { queue with entries := queue.entries.map Entry.plain }

variable (queue : Queue direction)

/-- A plain queue is plain. -/
@[simp] theorem plain_plain : queue.plain.plain = queue.plain := by
  unfold plain
  rw [List.map_map]
  rfl

/-- The orders of the plain queue are the plain orders. -/
theorem orders_plain : queue.plain.orders = queue.orders.map Order.plain := by
  simp only [orders, plain, List.map_map]
  rfl

/-- An order is found in the plain queue as in the queue. -/
theorem get_plain (id : OrderId) : queue.plain.get? id = (queue.get? id).map Order.plain := by
  rw [get?, orders_plain, List.find?_map]
  rfl

/-- It is taken out of plain entries as out of the entries. -/
theorem without_plain (id : OrderId) (entries : List Entry) :
    without id (entries.map Entry.plain) = (without id entries).map Entry.plain :=
  without_map Entry.plain (fun _ => rfl) id entries

/-- An order joins the plain queue as it joins the queue. -/
theorem insert_plain (key : Int) (order : Order) :
    queue.plain.insert key order.plain = (queue.insert key order).plain := by
  have placed : place direction (Entry.plain ⟨key, queue.nextArrival, order⟩)
      ((without order.id queue.entries).map Entry.plain) =
      (place direction ⟨key, queue.nextArrival, order⟩
        (without order.id queue.entries)).map Entry.plain :=
    place_map Entry.plain (fun _ _ => rfl) _ _
  rw [← without_plain] at placed
  exact congrArg (fun entries => (⟨entries, queue.nextArrival + 1⟩ : Queue direction)) placed

/-- It is erased from the plain queue as from the queue. -/
theorem erase_plain (id : OrderId) :
    queue.plain.erase id = (queue.erase id).map fun (order, rest) => (order.plain, rest.plain) := by
  unfold erase
  rw [get_plain]
  cases queue.get? id with
  | none => rfl
  | some order =>
    have rest := without_plain id queue.entries
    simp only [Option.map_some, plain, rest]
    rfl

/-- It is cancelled there as in the queue. -/
theorem cancel_plain (image : Order) :
    queue.plain.cancel image.plain =
      (queue.cancel image).map fun (order, rest) => (order.plain, rest.plain) := by
  have erased := queue.erase_plain image.id
  change (queue.plain.erase image.id).map _ = _
  rw [erased, cancel]
  cases queue.erase image.id <;> rfl

/-- It is replaced there as in the queue. -/
theorem replace_plain (image : Order) :
    queue.plain.replace image.plain =
      (queue.replace image).map fun (order, rest, priority) =>
        (order.plain, rest.plain, priority) := by
  unfold replace
  have found : queue.plain.get? image.plain.id = (queue.get? image.id).map Order.plain :=
    queue.get_plain image.id
  rw [found]
  cases queue.get? image.id with
  | none => rfl
  | some order =>
    simp only [Option.map_some, Order.replace_plain]
    cases order.replace image with
    | none => rfl
    | some result =>
      have changed := with_order_map Entry.plain result.1 result.1.plain (fun _ => rfl) rfl
        (fun _ => rfl) queue.entries
      simp only [Option.map_some, plain, changed]
      rfl

/-- A replacement does the same to a queue plainly. -/
theorem amend_plain (image : Order) :
    queue.plain.amend image.plain =
      (queue.amend image).map fun (order, rest, priority) =>
        (order.plain, rest.plain, priority) := by
  rw [amend, replace_plain, amend]
  cases queue.replace image with
  | error refusal => rfl
  | ok result =>
    obtain ⟨order, changed, priority⟩ := result
    cases priority with
    | kept => rfl
    | lost =>
      have rest := without_plain image.id changed.entries
      exact congrArg (fun entries => Except.ok (order.plain,
        ({ changed with entries } : Queue direction), Order.Priority.lost)) rest

end Queue

namespace Book

/-- A book with its orders and its record looked at plainly. -/
def plain (book : Book) : Book :=
  { book with
    buys := book.buys.plain
    sells := book.sells.plain
    stopBuys := book.stopBuys.plain
    stopSells := book.stopSells.plain
    record := book.record.plain }

variable (book : Book) (flow : Flow)

/-- A plain book is plain. -/
@[simp] theorem plain_plain : book.plain.plain = book.plain := by
  simp only [plain, Queue.plain_plain, Record.plain_plain]

/-- The orders that rest in the plain book are the plain ones. -/
@[simp] theorem resting_plain : book.plain.resting flow = (book.resting flow).plain := by
  cases flow <;> rfl

/-- So are those that wait in it. -/
@[simp] theorem parked_plain : book.plain.parked flow = (book.parked flow).plain := by
  cases flow <;> rfl

/-- A book with other resting orders is plainly the plain book with those. -/
theorem plain_with_resting (queue : Queue flow.restingDirection) :
    (book.withResting flow queue).plain = book.plain.withResting flow queue.plain := by
  cases flow <;> rfl

/-- So is a book with other parked orders. -/
theorem plain_with_parked (queue : Queue flow.parkingDirection) :
    (book.withParked flow queue).plain = book.plain.withParked flow queue.plain := by
  cases flow <;> rfl

/-- An order comes to rest in the plain book as in the book. -/
theorem rest_plain (order : Order) : book.plain.rest order.plain = (book.rest order).plain := by
  change book.plain.withResting order.flow
    ((book.plain.resting order.flow).insert order.price order.plain) = _
  rw [resting_plain, Queue.insert_plain, ← plain_with_resting, rest]

/-- What is left of an order is settled the same way plainly. -/
theorem rest_remainder_plain (order : Order) :
    book.plain.restRemainder order.plain =
      ((book.restRemainder order).1.plain, (book.restRemainder order).2.map Report.plain) := by
  have force : order.plain.timeInForce = order.timeInForce := rfl
  have type : order.plain.type = order.type := rfl
  have last : book.plain.record.lastPrice = book.record.lastPrice := rfl
  simp only [restRemainder, force, type, last]
  split
  case isTrue immediate => rfl
  case isFalse day =>
    split
    case isTrue market =>
      split
      case isTrue unpriced => rfl
      case isFalse priced =>
        exact Prod.ext (book.rest_plain (order.limitedAt book.record.lastPrice)) rfl
    case isFalse limited => exact Prod.ext (book.rest_plain order) rfl

/-- An order is replaced in the plain book as in the book. -/
theorem amend_plain (image : Order) :
    book.plain.amend image.plain =
      (book.amend image).map fun (order, priority, next) =>
        (order.plain, priority, next.plain) := by
  have resting : (book.plain.resting image.plain.flow).amend image.plain =
      ((book.resting image.flow).amend image).map fun result =>
        (result.1.plain, result.2.1.plain, result.2.2) := by
    rw [resting_plain]
    exact Queue.amend_plain _ image
  have parked : (book.plain.parked image.plain.flow).amend image.plain =
      ((book.parked image.flow).amend image).map fun result =>
        (result.1.plain, result.2.1.plain, result.2.2) := by
    rw [parked_plain]
    exact Queue.amend_plain _ image
  rw [amend, resting, parked, amend]
  cases (book.resting image.flow).amend image with
  | ok result => simp only [Except.map, plain_with_resting]; rfl
  | error refusal =>
    cases refusal with
    | unknownOrder id =>
      cases (book.parked image.flow).amend image with
      | ok result => simp only [Except.map, plain_with_parked]; rfl
      | error refusal => rfl
    | notReplaceable reason => rfl
    | unknownSecurity security => rfl

/-- A resting order is cancelled there as in the book. -/
theorem cancel_resting_plain (image : Order) :
    book.plain.cancelResting image.plain =
      (book.cancelResting image).map fun (order, next) => (order.plain, next.plain) := by
  have cancelled : (book.plain.resting image.plain.flow).cancel image.plain =
      ((book.resting image.flow).cancel image).map fun result =>
        (result.1.plain, result.2.plain) := by
    rw [resting_plain]
    exact Queue.cancel_plain _ image
  rw [cancelResting, cancelled, cancelResting]
  cases (book.resting image.flow).cancel image with
  | ok result => simp only [Except.map, plain_with_resting]; rfl
  | error refusal => rfl

/-- So is a parked order. -/
theorem cancel_parked_plain (image : Order) :
    book.plain.cancelParked image.plain =
      (book.cancelParked image).map fun (order, next) => (order.plain, next.plain) := by
  have cancelled : (book.plain.parked image.plain.flow).cancel image.plain =
      ((book.parked image.flow).cancel image).map fun result =>
        (result.1.plain, result.2.plain) := by
    rw [parked_plain]
    exact Queue.cancel_plain _ image
  rw [cancelParked, cancelled, cancelParked]
  cases (book.parked image.flow).cancel image with
  | ok result => simp only [Except.map, plain_with_parked]; rfl
  | error refusal => rfl

/-- What is made of the first success of two attempts is the first success of what is made of them.
-/
theorem or_else_map {α β : Type} (change : α → β) (first second : Except Refusal α) :
    orElse (first.map change) (second.map change) = (orElse first second).map change := by
  cases first <;> rfl

/-- A cancellation takes the same order out plainly. -/
theorem withdraw_plain (image : Order) :
    book.plain.withdraw image.plain =
      (book.withdraw image).map fun (order, next) => (order.plain, next.plain) := by
  have type : image.plain.type = image.type := rfl
  rw [withdraw, type, cancel_resting_plain, cancel_parked_plain, or_else_map, or_else_map, withdraw]
  split <;> rfl

/-- An order that became immediate is dropped the same plainly. -/
theorem drop_immediate_plain (order : Order) :
    book.plain.dropImmediate order.plain =
      ((book.dropImmediate order).1.plain, (book.dropImmediate order).2.map Report.plain) := by
  have erased : (book.plain.resting order.plain.flow).erase order.plain.id =
      ((book.resting order.flow).erase order.id).map fun result =>
        (result.1.plain, result.2.plain) := by
    rw [resting_plain]
    exact Queue.erase_plain _ order.id
  rw [dropImmediate, erased, dropImmediate]
  cases (book.resting order.flow).erase order.id with
  | ok result => simp only [Except.map, plain_with_resting]; rfl
  | error refusal => rfl

end Book

end Bourse
