import Bourse.Proofs.DayRecord
import Bourse.Proofs.WholeTrades

/-!
# Disclosure

What an order shows at a time is the business of its sender. It decides into how many trades
the fills of the order are cut, and how the depth looks, but no order gets more or less for
it, and none gets it earlier or later than another.

Two runs are compared: one of any operations that ask for no stop type, and one of the same
operations with all requests disclosed in full. The books of both stay calm, and every operation
on one of them does plainly what it does on the plain book. So two books that are plainly the
same stay so.
-/

namespace Bourse

/-- The operation with a request that shows all of its order. -/
def Operation.undisclosed : Operation → Operation
  | .insert id request => .insert id { request with disclosed := some 0 }
  | .replace request => .replace { request with disclosed := some 0 }
  | operation => operation

/-- Disclosure is none of the types. -/
theorem asks_undisclosed (operation : Operation) :
    operation.undisclosed.asksForStop = operation.asksForStop := by
  cases operation <;> rfl

namespace Order

/-- A request that shows all of its order makes the plain order. -/
theorem new_undisclosed (id : OrderId) (request : NewOrder) :
    ofNew id { request with disclosed := some 0 } = (ofNew id request).map plain := by
  simp only [ofNew]
  cases requiredPrices request.type request.price request.stopPrice with
  | error error => rfl
  | ok prices =>
    cases boundedQuantity request.quantity with
    | error error => rfl
    | ok quantity => rfl

/-- A replacement that discloses nothing is the replacement without its disclosure. -/
theorem replacement_undisclosed (request : Replacement) :
    ofReplacement { request with disclosed := some 0 } = (ofReplacement request).map plain := by
  have total : ({ request with disclosed := some 0 } : Replacement).total = request.total := rfl
  simp only [ofReplacement, total]
  cases requiredPrices request.type request.price request.stopPrice with
  | error error => rfl
  | ok prices =>
    cases request.total with
    | error error => rfl
    | ok quantity => rfl

end Order

namespace Book

section Calm

variable {book next : Book}

/-- A sound book stays calm as long as nothing is parked and no total falls out of its word. -/
theorem Sound.calm (sound : book.Sound) (unparked : ∀ flow, (book.parked flow).entries = [])
    (volume : Word.least ≤ book.record.volume) (value : Word.least ≤ book.record.value) :
    book.Calm where
  unparked := unparked
  volume := volume
  value := value
  priced := fun flow entry member => by
    have allowed := ((sound.resting flow).lawful entry member).price.positive
    omega

/-- A book is calm if it has the record of a calm one and no new price. -/
theorem Calm.no_new_price (calm : book.Calm) (prices : book.NoNewPrice next)
    (volume : next.record.volume = book.record.volume)
    (value : next.record.value = book.record.value) : next.Calm where
  unparked := by
    intro flow
    apply List.eq_nil_iff_forall_not_mem.mpr
    intro entry member
    obtain ⟨old, present, -⟩ := prices.parked flow entry member
    rw [calm.unparked flow] at present
    contradiction
  volume := volume ▸ calm.volume
  value := value ▸ calm.value
  priced := by
    intro flow entry member
    obtain ⟨old, present, same⟩ := prices.resting flow entry member
    exact same ▸ calm.priced flow old present

/-- A calm book stays so when it is marked. -/
theorem Calm.marked (calm : book.Calm) (changes : Bool) : (Outset.marked changes book).Calm :=
  calm.no_new_price (.marked book changes) rfl rfl

/-- Every move leaves a calm book. There is no parked order to be released. -/
theorem Move.calm {tasks later : List Task} {reports : List Report}
    (move : book.Move tasks next later reports) (sound : book.Sound)
    (ready : ∀ task ∈ tasks, task.Sound) (calm : book.Calm) : next.Calm := by
  have still := (move.sound sound ready).1
  cases move with
  | trade traded =>
    obtain ⟨maker, behind, meets, rfl, rfl, rfl⟩ := (trade_once_iff ..).mp traded
    exact calm.traded meets
  | @settle order _ stuck left =>
    have record := book.record_rest_remainder order
    refine still.calm (fun flow => ?_) (record ▸ calm.volume) (record ▸ calm.value)
    rw [parked_rest_remainder]
    exact calm.unparked flow
  | finish stuck spent => exact calm
  | release released =>
    obtain ⟨entry, behind, releases, -⟩ := releases_of_release released
    have first := releases.first
    rw [calm.unparked] at first
    contradiction
  | pass unreached => exact calm

/-- A sound book that is calm. -/
structure Quiet (book : Book) : Prop where
  calm : book.Calm
  sound : book.Sound

/-- A new book is quiet. -/
theorem quiet_of_first (first : Order) : (ofFirst first).Quiet where
  calm := (sound_of_first first).calm (fun flow => by cases flow <;> rfl)
    (by decide : Word.least ≤ 0) (by decide : Word.least ≤ 0)
  sound := sound_of_first first

/-- An operation that asks for no stop type leaves a quiet book. -/
theorem Quiet.performed (quiet : book.Quiet) {operation : Operation}
    (live : operation.asksForStop = false) : (book.perform operation).1.Quiet := by
  have opens := book.opens_outset operation
  have prices := opens.no_new_price quiet.sound live
  have begun : (book.outset operation).book.Calm := by
    rcases opens.record_kept with kept | published
    · exact quiet.calm.no_new_price prices (by rw [kept]) (by rw [kept])
    · exact quiet.calm.no_new_price prices (by rw [published]; rfl) (by rw [published]; rfl)
  have worked := (work_finishes (book.outset operation).book (book.outset operation).tasks).keeps
    (P := fun book tasks _ => (book.Sound ∧ ∀ task ∈ tasks, task.Sound) ∧ book.Calm)
    (fun move holds => ⟨move.sound holds.1.1 holds.1.2, move.calm holds.1.1 holds.1.2 holds.2⟩)
    [] ⟨opens.sound quiet.sound, begun⟩
  rw [perform_eq]
  exact ⟨worked.2.marked _, worked.1.1.marked _⟩

/-- So do operations in a row. -/
theorem Quiet.performed_all (quiet : book.Quiet) {operations : List Operation}
    (live : ∀ operation ∈ operations, operation.asksForStop = false) :
    (book.performAll operations).1.Quiet := by
  induction operations generalizing book with
  | nil => exact quiet
  | cons operation operations induction =>
    obtain ⟨first, others⟩ := List.forall_mem_cons.mp live
    exact induction (quiet.performed first) others

end Calm

section Plain

variable {book : Book}

/-- A mark for a change is made plainly too. -/
theorem Alike.marked {result other : Book × List Report} (alike : Alike result other) :
    Alike ({ result.1 with hasChanged := true }, result.2)
      ({ other.1 with hasChanged := true }, other.2) :=
  ⟨congrArg (fun book : Book => { book with hasChanged := true }) alike.books, alike.reports⟩

/-- A result is plainly the same as what it is plainly. -/
theorem alike_plain (result : Book × List Report) :
    Alike result (result.1.plain, result.2.map Report.plain) :=
  ⟨(plain_plain _).symm, (Report.told_plain _).symm⟩

/-- A new order that waits for no stop price. -/
theorem Calm.insert_plain (calm : book.Calm) {order : Order} (live : order.type.isStop = false) :
    Alike (book.insert order) (book.plain.insert order.plain) := by
  have waits : order.plain.type.isStop = false := live
  have active : book.plain.isActive = book.isActive := rfl
  have quantity : order.plain.quantity = order.quantity := rfl
  simp only [insert, route, waits, live, active, quantity]
  split
  case isTrue closed => exact alike_plain _
  case isFalse accepting =>
    split
    case isTrue nothing => exact alike_plain _
    case isFalse positive =>
      have told : Report.told [Report.of .new order ""] =
          Report.told [Report.of .new order.plain ""] := rfl
      exact ((calm.execute_plain order).after told).marked

/-- A replacement. One that costs the place in the queue takes the order out of a calm book and
trades it like a new one. -/
theorem Calm.replace_plain (calm : book.Calm) {image : Order} (live : image.type.isStop = false) :
    Alike (book.replace image) (book.plain.replace image.plain) := by
  have active : book.plain.isActive = book.isActive := rfl
  rw [replace, replace, active]
  split
  case isTrue closed => exact alike_plain _
  case isFalse accepting =>
    rw [amend_plain]
    cases amended : book.amend image with
    | error refusal => exact alike_plain (book, [Report.of .replaceRejected image refusal.message])
    | ok result =>
      obtain ⟨order, priority, next⟩ := result
      have told : Report.told [Report.of .replaced order ""] =
          Report.told [Report.of .replaced order.plain ""] := rfl
      have settled : Alike (next.settleReplaced order priority)
          (next.plain.settleReplaced order.plain priority) := by
        obtain ⟨old, above, same, -, named⟩ := amend_ok amended
        cases priority with
        | kept =>
          have force : order.plain.timeInForce = order.timeInForce := rfl
          rw [settleReplaced, settleReplaced, force, drop_immediate_plain]
          split
          · exact alike_plain _
          · exact alike_plain (next, [])
        | lost =>
          have type : order.type.isStop = false := by rwa [same]
          have waits : order.plain.type.isStop = false := type
          have rest : next.Calm := calm.no_new_price (.without named)
            (by rw [named.record_kept]) (by rw [named.record_kept])
          simp only [settleReplaced, route, type, waits]
          exact rest.execute_plain order
      exact (settled.after told).marked

/-- A cancellation takes the same order out. -/
theorem cancel_plain (book : Book) (image : Order) :
    Alike (book.cancel image) (book.plain.cancel image.plain) := by
  rw [cancel, cancel, withdraw_plain]
  cases book.withdraw image with
  | error refusal => exact alike_plain (book, [Report.of .cancelRejected image refusal.message])
  | ok result => exact (alike_plain (result.2, [Report.of .cancelled result.1 _])).marked

/-- A closed book tells of the same orders. -/
theorem stop_plain (book : Book) : Alike book.stop book.plain.stop := by
  have closing (orders : List Order) :
      closingReports (orders.map Order.plain) = (closingReports orders).map Report.plain := by
    rw [closingReports, closingReports, List.map_map, List.map_map]
    rfl
  refine ⟨rfl, ?_⟩
  change _ = Report.told (closingReports (book.buys.plain.orders ++ book.sells.plain.orders ++
    book.stopBuys.plain.orders ++ book.stopSells.plain.orders))
  simp only [Queue.orders_plain, ← List.map_append, closing, Report.told_plain]
  rfl

/-- An operation that asks for no stop type does to a calm book plainly what it does to the
plain book when its request shows all of its order. -/
theorem Calm.perform_plain (calm : book.Calm) {operation : Operation}
    (live : operation.asksForStop = false) :
    Alike (book.perform operation) (book.plain.perform operation.undisclosed) := by
  cases operation with
  | insert id request =>
    rw [perform, Operation.undisclosed, perform, Order.new_undisclosed]
    cases built : Order.ofNew id request with
    | error error => exact alike_plain (book, [])
    | ok order =>
      obtain ⟨-, -, -, type, -⟩ := Order.new_ok built
      exact calm.insert_plain (type ▸ live)
  | replace request =>
    rw [perform, Operation.undisclosed, perform, Order.replacement_undisclosed]
    cases built : Order.ofReplacement request with
    | error error => exact alike_plain (book, [])
    | ok image =>
      obtain ⟨-, -, -, type, -⟩ := Order.replacement_ok built
      exact calm.replace_plain (type ▸ live)
  | cancel request => exact book.cancel_plain (Order.ofCancellation request)
  | start => exact ⟨(plain_plain book.start).symm, rfl⟩
  | stop => exact book.stop_plain
  | publish => exact ⟨(plain_plain book.publish.2).symm, rfl⟩

end Plain

/-- A run that asks for no stop type, and the run of the same operations disclosed in full, from
two books that are plainly the same. -/
theorem perform_all_plain {shown hidden : Book} (same : shown.plain = hidden.plain)
    (quiet : shown.Quiet) (also : hidden.Quiet) (operations : List Operation)
    (live : ∀ operation ∈ operations, operation.asksForStop = false) :
    Alike (shown.performAll operations)
      (hidden.performAll (operations.map Operation.undisclosed)) := by
  induction operations generalizing shown hidden with
  | nil => exact ⟨same, rfl⟩
  | cons operation operations induction =>
    obtain ⟨first, others⟩ := List.forall_mem_cons.mp live
    have hiddenFirst := (asks_undisclosed operation).trans first
    have twice : operation.undisclosed.undisclosed = operation.undisclosed := by
      cases operation <;> rfl
    have one := quiet.calm.perform_plain first
    have other := also.calm.perform_plain hiddenFirst
    rw [twice, ← same] at other
    have both := one.trans other.symm
    have later := induction both.books (quiet.performed first) (also.performed hiddenFirst) others
    exact later.after both.reports

/-- What two runs have in common that differ only in how their orders are disclosed. -/
structure SameOutcomes (result other : Book × List Report) : Prop where
  /-- The same orders rest in the same order. They differ at most in what they show and in the
  quantity of their last fill. -/
  resting : ∀ flow, (result.1.resting flow).orders.map Order.plain =
    (other.1.resting flow).orders.map Order.plain
  /-- No order waits for a stop price. -/
  parked : ∀ flow, (result.1.parked flow).orders = [] ∧ (other.1.parked flow).orders = []
  /-- The same orders are accepted, replaced, cancelled, refused and filled to the end. -/
  reported : ∀ kind, kind ≠ .partialFill →
    (result.2.filter (·.kind = kind)).map Report.plain =
      (other.2.filter (·.kind = kind)).map Report.plain
  volume : result.1.record.volume = other.1.record.volume
  value : result.1.record.value = other.1.record.value
  lastPrice : result.1.record.lastPrice = other.1.record.lastPrice
  highPrice : result.1.record.highPrice = other.1.record.highPrice
  lowPrice : result.1.record.lowPrice = other.1.record.lowPrice
  weightedAverage : result.1.record.weightedAverage = other.1.record.weightedAverage
  /-- Whatever else the records say is the same, apart from single trades and the depth. -/
  record : result.1.record.plain = other.1.record.plain
  isActive : result.1.isActive = other.1.isActive
  hasChanged : result.1.hasChanged = other.1.hasChanged

/-- Calm books that are plainly the same, after reports that tell the same. -/
theorem Alike.outcomes {result other : Book × List Report} (alike : Alike result other)
    (calm : result.1.Calm) (also : other.1.Calm) : SameOutcomes result other where
  resting := by
    intro flow
    have queues := congrArg (fun book => (book.resting flow).orders) alike.books
    simpa only [resting_plain, Queue.orders_plain] using queues
  parked := fun flow =>
    ⟨congrArg (List.map _) (calm.unparked flow), congrArg (List.map _) (also.unparked flow)⟩
  reported := by
    intro kind other
    rw [← Report.told_of_kind _ other, ← Report.told_of_kind _ other, alike.reports]
  volume := congrArg (·.record.volume) alike.books
  value := congrArg (·.record.value) alike.books
  lastPrice := congrArg (·.record.lastPrice) alike.books
  highPrice := congrArg (·.record.highPrice) alike.books
  lowPrice := congrArg (·.record.lowPrice) alike.books
  weightedAverage := congrArg (·.record.weightedAverage) alike.books
  record := congrArg (·.record) alike.books
  isActive := congrArg (·.isActive) alike.books
  hasChanged := congrArg (·.hasChanged) alike.books

/-- Whatever a day asks for, as long as it asks for no stop type: if all of its orders had been
shown in full, the same orders would rest in the same order with the same fills, the same ones
would have been accepted, cancelled and filled to the end, and the record would say the same of
the day's volume, value and prices. Only single trades and the depth tell the two days apart. -/
theorem disclosure_changes_no_outcome (first : Order) (operations : List Operation)
    (live : ∀ operation ∈ operations, operation.asksForStop = false) :
    SameOutcomes ((ofFirst first).performAll operations)
      ((ofFirst first).performAll (operations.map Operation.undisclosed)) := by
  have quiet := quiet_of_first first
  have also : ∀ operation ∈ operations.map Operation.undisclosed,
      operation.asksForStop = false := by
    rintro _ member
    obtain ⟨operation, asked, rfl⟩ := List.mem_map.mp member
    exact (asks_undisclosed operation).trans (live operation asked)
  have alike := perform_all_plain rfl quiet quiet operations live
  exact alike.outcomes (quiet.performed_all live).calm (quiet.performed_all also).calm

/-- A day on which a purchase that shows five takes a sale that shows three, and some more. -/
def slicedDay : List Operation :=
  let enter id side quantity disclosed : Operation :=
    .insert ⟨id⟩ ⟨"", "a", "", side, .limit, quantity, some 10, none, .day, disclosed⟩
  [enter 1 .sell 10 (some 3), enter 2 .sell 4 none, enter 3 .buy 12 (some 5)]

/-- It takes five trades, and two if all is shown. -/
theorem sliced_day_outcomes :
    let shown := (ofFirst default).performAll slicedDay
    let hidden := (ofFirst default).performAll (slicedDay.map Operation.undisclosed)
    (∀ operation ∈ slicedDay, operation.asksForStop = false) ∧
      shown.1.record.trades = 5 ∧ hidden.1.record.trades = 2 ∧ shown.1.record.volume = 12 ∧
      SameOutcomes shown hidden :=
  ⟨by decide, by decide, by decide, by decide,
    disclosure_changes_no_outcome default slicedDay (by decide)⟩

end Book

end Bourse
