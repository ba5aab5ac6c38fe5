import Bourse.Proofs.Amounts
import Bourse.Proofs.Positions
import Bourse.Proofs.Sides

/-!
# Moves of an execution

A move is one task done: a trade, the settling of what is left of an order, or the
release of a parked one. `Move` says everything that a step can do, so that a proof
about executions has one case for each kind of move and never opens the step itself.

The potential of the book and its tasks falls with every move. An execution therefore
comes to its end with no task left, within the steps that it is given, and it is the
only chain of moves from where it begins: `finishes_iff`.
-/

namespace Bourse

namespace Book

/-- An order meets the first entry of the other flow in a trade: both show a
quantity, and the order accepts the price of the entry. -/
structure Meets (book : Book) (taker : Order) (maker : Queue.Entry)
    (behind : List Queue.Entry) : Prop where
  first : (book.resting taker.flow.contra).entries = maker :: behind
  shown : 0 < min taker.pending maker.order.pending
  accepted : taker.accepts maker.order.price = true

/-- The quantity of a trade is all that both orders show. -/
def tradedQuantity (taker maker : Order) : Int := min taker.pending maker.pending

/-- The book after the trade of an order with the first entry of the other flow. -/
def traded (book : Book) (taker : Order) (maker : Queue.Entry)
    (behind : List Queue.Entry) : Book :=
  let price := maker.order.price
  let quantity := tradedQuantity taker maker.order
  { book.withResting taker.flow.contra
      { book.resting taker.flow.contra with
        entries := Queue.filledFirst maker behind price quantity } with
    record := book.record.trade price quantity }

/-- The fills that a trade reports, the maker's before the taker's. -/
def fills (taker maker : Order) : List Report :=
  [Report.ofFill (maker.fill maker.price (tradedQuantity taker maker)),
   Report.ofFill (taker.fill maker.price (tradedQuantity taker maker))]

/-- Orders that meet trade, and nothing else makes a trade. -/
theorem trade_once_iff (book : Book) (taker after : Order) (next : Book)
    (reports : List Report) :
    book.tradeOnce taker = some (after, next, reports) ↔
      ∃ maker behind, book.Meets taker maker behind ∧
        after = taker.fill maker.order.price (tradedQuantity taker maker.order) ∧
        next = book.traded taker maker behind ∧ reports = fills taker maker.order := by
  cases entries : (book.resting taker.flow.contra).entries with
  | nil =>
    have none : book.tradeOnce taker = none := by
      simp [tradeOnce, Queue.first?, Queue.orders, entries]
    constructor
    · intro trade
      simp [none] at trade
    · rintro ⟨maker, behind, meets, -⟩
      exact absurd (entries.symm.trans meets.first) (by simp)
  | cons maker behind =>
    by_cases refused : min taker.pending maker.order.pending ≤ 0 ∨
        (!taker.accepts maker.order.price) = true
    · have none : book.tradeOnce taker = none := by
        simp only [tradeOnce, Queue.first?, Queue.orders, entries, List.map_cons,
          List.head?_cons, if_pos refused]
      constructor
      · intro trade
        simp [none] at trade
      · rintro ⟨other, others, meets, -⟩
        obtain ⟨rfl, rfl⟩ := List.cons.inj (entries.symm.trans meets.first)
        rcases refused with unshown | unaccepted
        · exact absurd meets.shown (by omega)
        · simp [meets.accepted] at unaccepted
    · have some : book.tradeOnce taker = some
          (taker.fill maker.order.price (tradedQuantity taker maker.order),
            book.traded taker maker behind, fills taker maker.order) := by
        simp only [tradeOnce, Queue.first?, Queue.orders, entries, List.map_cons,
          List.head?_cons, if_neg refused, Queue.fill_first_eq _ entries, Option.map_some]
        rfl
      have meets : book.Meets taker maker behind := by
        obtain ⟨shown, accepted⟩ := not_or.mp refused
        exact ⟨entries, by omega, by simpa using accepted⟩
      constructor
      · intro trade
        obtain ⟨rfl, rfl, rfl⟩ : _ ∧ _ ∧ _ := by simpa [some] using trade
        exact ⟨maker, behind, meets, rfl, rfl, rfl⟩
      · rintro ⟨other, others, met, rfl, rfl, rfl⟩
        obtain ⟨rfl, rfl⟩ := List.cons.inj (entries.symm.trans met.first)
        exact some

/-- The order that a release takes from the parked ones, and the entries behind it. -/
structure Releases (book : Book) (flow : Flow) (entry : Queue.Entry)
    (behind : List Queue.Entry) : Prop where
  first : (book.parked flow).entries = entry :: behind
  reached : flow.reaches book.record.lastPrice entry.order.stopPrice = true

/-- The book without the first parked order of a flow. -/
def released (book : Book) (flow : Flow) (behind : List Queue.Entry) : Book :=
  book.withParked flow { book.parked flow with entries := behind }

/-- The first parked order is released exactly if the last price reaches it. -/
theorem release_from_iff (book : Book) (flow : Flow) (order : Order) (next : Book) :
    book.releaseFrom flow = some (order, next) ↔
      ∃ entry behind, book.Releases flow entry behind ∧ order = entry.order.trigger ∧
        next = book.released flow behind := by
  cases entries : (book.parked flow).entries with
  | nil =>
    constructor
    · intro release
      simp [releaseFrom, Queue.popFirst?, entries] at release
    · rintro ⟨entry, behind, releases, -⟩
      exact absurd (entries.symm.trans releases.first) (by simp)
  | cons entry behind =>
    by_cases reached : flow.reaches book.record.lastPrice entry.order.stopPrice = true
    · have some : book.releaseFrom flow =
          some (entry.order.trigger, book.released flow behind) := by
        simp only [releaseFrom, Queue.popFirst?, entries, if_pos reached]
        rfl
      constructor
      · intro release
        obtain ⟨rfl, rfl⟩ : _ ∧ _ := by simpa [some] using release
        exact ⟨entry, behind, ⟨entries, reached⟩, rfl, rfl⟩
      · rintro ⟨other, others, releases, rfl, rfl⟩
        obtain ⟨rfl, rfl⟩ := List.cons.inj (entries.symm.trans releases.first)
        exact some
    · constructor
      · intro release
        simp [releaseFrom, Queue.popFirst?, entries, reached] at release
      · rintro ⟨other, others, releases, -⟩
        obtain ⟨rfl, rfl⟩ := List.cons.inj (entries.symm.trans releases.first)
        exact absurd releases.reached reached

/-- A check that has begun with purchases comes to the sales when no purchase is
reached; one that has begun with sales only looks at them. -/
theorem release_iff (book : Book) (flow side : Flow) (order : Order) (next : Book) :
    book.release flow = some (side, order, next) ↔
      book.releaseFrom side = some (order, next) ∧
        (flow = side ∨ flow = .buying ∧ side = .selling ∧ book.releaseFrom .buying = none) := by
  cases flow with
  | buying =>
    cases first : book.releaseFrom .buying with
    | none => cases side <;> simp [release, first]
    | some found => cases side <;> simp [release, first, Prod.ext_iff]
  | selling => cases side <;> simp [release]

/-- What is released is the first parked order of its flow. -/
theorem releases_of_release {book next : Book} {flow side : Flow} {order : Order}
    (released : book.release flow = some (side, order, next)) :
    ∃ entry behind, book.Releases side entry behind ∧ order = entry.order.trigger ∧
      next = book.released side behind := by
  obtain ⟨fromSide, -⟩ := (release_iff ..).mp released
  exact (release_from_iff ..).mp fromSide

/-- Nothing is released when no flow that the check looks at has an order to release. -/
theorem release_none_iff (book : Book) (flow : Flow) :
    book.release flow = none ↔
      book.releaseFrom .selling = none ∧ (flow = .buying → book.releaseFrom .buying = none) := by
  cases flow with
  | buying =>
    cases first : book.releaseFrom .buying with
    | none => simp [release, first]
    | some found => simp [release, first]
  | selling => simp [release]

/-- What becomes of an order that finds nothing more to trade with: the book after it and what
is reported. -/
inductive Settles (book : Book) (order : Order) : Book × List Report → Prop where
  /-- An immediate order is cancelled. -/
  | expired (immediate : order.timeInForce = .immediateOrCancel) :
      Settles book order (book, [Report.of .cancelled order Reason.notImmediate.text])
  /-- A market order is cancelled where nothing was traded before. -/
  | unpriced (day : order.timeInForce = .day) (market : order.type = .market)
      (untraded : book.record.lastPrice ≤ 0) :
      Settles book order (book, [Report.of .cancelled order Reason.noLastTrade.text])
  /-- A market order rests as a limit order at the last price. -/
  | restated (day : order.timeInForce = .day) (market : order.type = .market)
      (priced : 0 < book.record.lastPrice) :
      Settles book order (book.rest (order.limitedAt book.record.lastPrice),
        [Report.of .restated (order.limitedAt book.record.lastPrice) ""])
  /-- Any other order rests. -/
  | rested (day : order.timeInForce = .day) (limited : order.type ≠ .market) :
      Settles book order (book.rest order, [])

/-- What becomes of the remainder of an order is one of the ways to settle it. -/
theorem settles (book : Book) (order : Order) : book.Settles order (book.restRemainder order) := by
  unfold restRemainder
  cases force : order.timeInForce with
  | immediateOrCancel => exact .expired force
  | day =>
    by_cases market : order.type = .market
    · by_cases untraded : book.record.lastPrice ≤ 0
      · simpa [market, untraded] using Settles.unpriced force market untraded
      · simpa [market, untraded] using Settles.restated force market (Int.not_le.mp untraded)
    · simpa [market] using Settles.rested force market

/-- What is left of an order is settled without a change of the parked orders. -/
theorem parked_rest_remainder (book : Book) (order : Order) (flow : Flow) :
    (book.restRemainder order).1.parked flow = book.parked flow := by
  have settles := book.settles order
  generalize book.restRemainder order = settled at settles ⊢
  cases settles with
  | expired immediate => rfl
  | unpriced day market untraded => rfl
  | restated day market priced => exact parked_with_resting ..
  | rested day limited => exact parked_with_resting ..

/-- What is left of an order is settled without a change of the record. -/
theorem record_rest_remainder (book : Book) (order : Order) :
    (book.restRemainder order).1.record = book.record := by
  have settles := book.settles order
  generalize book.restRemainder order = settled at settles ⊢
  cases settles with
  | expired immediate => rfl
  | unpriced day market untraded => rfl
  | restated day market priced => exact record_with_resting ..
  | rested day limited => exact record_with_resting ..

/-- One task done: from a book and the tasks before it to the book and the tasks after
it, with the reports that it sends. -/
inductive Move (book : Book) : List Task → Book → List Task → List Report → Prop where
  /-- The order trades once more, and the parked orders are checked before it goes on. -/
  | trade {taker after : Order} {next : Book} {reports : List Report} {tasks : List Task}
      (traded : book.tradeOnce taker = some (after, next, reports)) :
      Move book (.trade taker :: tasks) next (.check .buying :: .trade after :: tasks) reports
  /-- The order finds nothing to trade with, and what is left of it is settled. -/
  | settle {order : Order} {tasks : List Task} (stuck : book.tradeOnce order = none)
      (left : 0 < order.unfilled) :
      Move book (.trade order :: tasks) (book.restRemainder order).1 tasks
        (book.restRemainder order).2
  /-- The order has nothing left to trade. -/
  | finish {order : Order} {tasks : List Task} (stuck : book.tradeOnce order = none)
      (spent : order.unfilled ≤ 0) : Move book (.trade order :: tasks) book tasks []
  /-- A parked order is released, and the check goes on after it has traded. -/
  | release {flow side : Flow} {order : Order} {next : Book} {tasks : List Task}
      (released : book.release flow = some (side, order, next)) :
      Move book (.check flow :: tasks) next (.trade order :: .check side :: tasks)
        [Report.of .triggered order ""]
  /-- No parked order is reached. -/
  | pass {flow : Flow} {tasks : List Task} (unreached : book.release flow = none) :
      Move book (.check flow :: tasks) book tasks []

/-- A step is a move, and there is no other move. -/
theorem step_iff (book next : Book) (tasks later : List Task) (reports : List Report) :
    book.step tasks = some (next, later, reports) ↔ book.Move tasks next later reports := by
  constructor
  · intro stepped
    cases tasks with
    | nil => simp [step] at stepped
    | cons task tasks =>
      cases task with
      | trade order =>
        cases traded : book.tradeOnce order with
        | some trade =>
          obtain ⟨rfl, rfl, rfl⟩ : _ ∧ _ ∧ _ := by simpa [step, traded] using stepped
          exact .trade traded
        | none =>
          by_cases left : 0 < order.unfilled
          · obtain ⟨rfl, rfl, rfl⟩ : _ ∧ _ ∧ _ := by simpa [step, traded, left] using stepped
            exact .settle traded left
          · obtain ⟨rfl, rfl, rfl⟩ : _ ∧ _ ∧ _ := by simpa [step, traded, left] using stepped
            exact .finish traded (by omega)
      | check flow =>
        cases released : book.release flow with
        | some release =>
          obtain ⟨rfl, rfl, rfl⟩ : _ ∧ _ ∧ _ := by simpa [step, released] using stepped
          exact .release released
        | none =>
          obtain ⟨rfl, rfl, rfl⟩ : _ ∧ _ ∧ _ := by simpa [step, released] using stepped
          exact .pass released
  · intro move
    cases move with
    | trade traded => simp only [step, traded]
    | settle stuck left => simp only [step, stuck, if_pos left]
    | finish stuck spent => simp only [step, stuck, if_neg (Int.not_lt.mpr spent)]
    | release released => simp only [step, released]
    | pass unreached => simp only [step, unreached]

end Book

/-- Another order at the front adds what is left of it. -/
theorem unfilled_total_place (direction : Direction) (entry : Queue.Entry)
    (entries : List Queue.Entry) :
    unfilledTotal ((Queue.place direction entry entries).map (·.order)) =
      entry.order.unfilled.toNat + unfilledTotal (entries.map (·.order)) := by
  induction entries with
  | nil => rfl
  | cons other rest induction =>
    unfold Queue.place
    split
    · rfl
    · simp only [List.map_cons, unfilledTotal, induction]
      omega

/-- Fewer orders leave no more to fill. -/
theorem unfilled_total_without (id : OrderId) (entries : List Queue.Entry) :
    unfilledTotal ((Queue.without id entries).map (·.order)) ≤
      unfilledTotal (entries.map (·.order)) := by
  induction entries with
  | nil => exact Nat.le_refl 0
  | cons entry rest induction =>
    unfold Queue.without at induction ⊢
    by_cases kept : (entry.order.id != id) = true
    · simp only [List.filter_cons, if_pos kept, List.map_cons, unfilledTotal]
      omega
    · simp only [List.filter_cons, if_neg kept, List.map_cons, unfilledTotal]
      omega

/-- A queued order adds no more than what is left of it. -/
theorem unfilled_total_insert {direction : Direction} (queue : Queue direction) (key : Int)
    (order : Order) :
    unfilledTotal (queue.insert key order).orders ≤
      order.unfilled.toNat + unfilledTotal queue.orders := by
  have placed := unfilled_total_place direction ⟨key, queue.nextArrival, order⟩
    (Queue.without order.id queue.entries)
  have kept := unfilled_total_without order.id queue.entries
  simp only [Queue.orders, Queue.insert] at placed ⊢
  omega

/-- A fill takes its quantity off the unfilled quantity of the queue. -/
theorem unfilled_total_filled (maker : Queue.Entry) (behind : List Queue.Entry)
    (price quantity : Int) (positive : 0 < quantity) (left : quantity ≤ maker.order.unfilled) :
    unfilledTotal ((Queue.filledFirst maker behind price quantity).map (·.order)) +
        quantity.toNat = unfilledTotal ((maker :: behind).map (·.order)) := by
  have rest := Order.unfilled_fill maker.order price quantity left
  unfold Queue.filledFirst
  split
  case isTrue gone =>
    rw [Order.pending_eq_zero_iff] at gone
    simp only [List.map_cons, unfilledTotal]
    omega
  case isFalse =>
    simp only [List.map_cons, unfilledTotal, rest]
    omega

namespace Book

/-- The quantity that the orders in the queues and in the tasks have not filled yet. -/
def unfilledQuantity (book : Book) (tasks : List Task) : Nat :=
  unfilledTotal book.buys.orders + unfilledTotal book.sells.orders +
    unfilledTotal book.stopBuys.orders + unfilledTotal book.stopSells.orders +
    unfilledTotal (tasks.filterMap Task.order?)

/-- How many stop orders are parked. -/
def parkedCount (book : Book) : Nat := book.stopBuys.size + book.stopSells.size

/-- The potential counts what is left to fill, the parked orders twice, and the tasks. -/
theorem potential_eq (book : Book) (tasks : List Task) :
    book.potential tasks =
      book.unfilledQuantity tasks + 2 * book.parkedCount + tasks.length := rfl

/-- The unfilled quantity, with the queues of one flow before those of the other. -/
theorem unfilled_by_flow (book : Book) (flow : Flow) (tasks : List Task) :
    book.unfilledQuantity tasks =
      unfilledTotal (book.resting flow).orders + unfilledTotal (book.resting flow.contra).orders +
      unfilledTotal (book.parked flow).orders + unfilledTotal (book.parked flow.contra).orders +
      unfilledTotal (tasks.filterMap Task.order?) := by
  cases flow with
  | buying => rfl
  | selling =>
    change book.unfilledQuantity tasks =
      unfilledTotal book.sells.orders + unfilledTotal book.buys.orders +
      unfilledTotal book.stopSells.orders + unfilledTotal book.stopBuys.orders +
      unfilledTotal (tasks.filterMap Task.order?)
    unfold unfilledQuantity
    omega

/-- The parked orders are those of a flow and those of the other. -/
theorem parked_by_flow (book : Book) (flow : Flow) :
    book.parkedCount = (book.parked flow).size + (book.parked flow.contra).size := by
  cases flow with
  | buying => rfl
  | selling => exact Nat.add_comm _ _

/-- What is traded is no more than what is left of either order. -/
theorem Meets.bounded {book : Book} {taker : Order} {maker : Queue.Entry}
    {behind : List Queue.Entry} (meets : book.Meets taker maker behind) :
    0 < tradedQuantity taker maker.order ∧
      tradedQuantity taker maker.order ≤ taker.unfilled ∧
      tradedQuantity taker maker.order ≤ maker.order.unfilled := by
  have := taker.pending_le_unfilled
  have := maker.order.pending_le_unfilled
  have := meets.shown
  unfold tradedQuantity
  omega

/-- What a move makes of what is left to be done: it trades, or it releases a parked order,
or it is done with a task and adds nothing. -/
inductive Progress (book : Book) (tasks : List Task) (next : Book) (later : List Task) : Prop where
  /-- Both orders of a trade have less left than before. -/
  | traded (less : next.unfilledQuantity later + 2 ≤ book.unfilledQuantity tasks)
      (parked : next.parkedCount = book.parkedCount) (more : later.length = tasks.length + 1)
  /-- A parked order becomes one that is traded, with as much left as before. -/
  | released (same : next.unfilledQuantity later = book.unfilledQuantity tasks)
      (fewer : next.parkedCount + 1 = book.parkedCount) (more : later.length = tasks.length + 1)
  /-- A task is done. -/
  | done (most : next.unfilledQuantity later ≤ book.unfilledQuantity tasks)
      (parked : next.parkedCount = book.parkedCount) (fewer : later.length + 1 = tasks.length)

/-- A task that is done without a change leaves no more to fill. -/
theorem progress_dropped (book : Book) (task : Task) (tasks : List Task) :
    book.Progress (task :: tasks) book tasks := by
  refine .done ?_ rfl rfl
  cases task with
  | trade order =>
    simp only [unfilledQuantity, List.filterMap_cons, Task.order?, unfilledTotal]
    omega
  | check flow => exact Nat.le_refl _

/-- An order that comes to rest, with a limit of its own or with a new one, brings no more
than what is left of it. -/
theorem progress_rest (book : Book) {order limited : Order} (tasks : List Task)
    (same : limited.unfilled = order.unfilled) :
    book.Progress (.trade order :: tasks) (book.rest limited) tasks := by
  have queued := unfilled_total_insert (book.resting limited.flow) limited.price limited
  refine .done ?_ ?_ rfl
  · rw [unfilled_by_flow _ limited.flow, unfilled_by_flow _ limited.flow]
    simp only [rest, resting_with_resting, contra_with_resting, parked_with_resting,
      List.filterMap_cons, Task.order?, unfilledTotal, ← same]
    omega
  · simp only [parked_by_flow _ limited.flow, rest, parked_with_resting]

/-- A trade fills something of both orders. -/
theorem Meets.progress {book : Book} {taker : Order} {maker : Queue.Entry}
    {behind : List Queue.Entry} (meets : book.Meets taker maker behind) (tasks : List Task) :
    book.Progress (.trade taker :: tasks) (book.traded taker maker behind)
      (.check .buying ::
        .trade (taker.fill maker.order.price (tradedQuantity taker maker.order)) :: tasks) := by
  obtain ⟨positive, ofTaker, ofMaker⟩ := meets.bounded
  have first : (book.resting taker.flow.contra).orders = (maker :: behind).map (·.order) := by
    rw [Queue.orders, meets.first]
  have queue := unfilled_total_filled maker behind maker.order.price
    (tradedQuantity taker maker.order) positive ofMaker
  have left := Order.unfilled_fill taker maker.order.price _ ofTaker
  refine .traded ?_ ?_ rfl
  · rw [unfilled_by_flow _ taker.flow, unfilled_by_flow _ taker.flow, first]
    simp only [Book.traded, resting_with_record, parked_with_record, resting_with_resting,
      resting_with_contra, parked_with_resting, Queue.orders, List.filterMap_cons, Task.order?,
      unfilledTotal, left]
    omega
  · simp only [parked_by_flow _ taker.flow, Book.traded, parked_with_record, parked_with_resting]

/-- A release fills nothing. -/
theorem Releases.progress {book : Book} {flow side : Flow} {entry : Queue.Entry}
    {behind : List Queue.Entry} (releases : book.Releases side entry behind) (tasks : List Task) :
    book.Progress (.check flow :: tasks) (book.released side behind)
      (.trade entry.order.trigger :: .check side :: tasks) := by
  have first : (book.parked side).orders = (entry :: behind).map (·.order) := by
    rw [Queue.orders, releases.first]
  have size : (book.parked side).size = behind.length + 1 := by
    rw [Queue.size, releases.first, List.length_cons]
  refine .released ?_ ?_ rfl
  · rw [unfilled_by_flow _ side, unfilled_by_flow _ side, first]
    simp only [Book.released, resting_with_parked, parked_with_parked, contra_with_parked,
      Queue.orders, List.map_cons, List.filterMap_cons, Task.order?, unfilledTotal,
      Order.unfilled_trigger]
    omega
  · rw [parked_by_flow _ side, parked_by_flow _ side, size]
    simp only [Book.released, parked_with_parked, contra_with_parked, Queue.size]
    omega

/-- Every task makes progress. -/
theorem Move.progress {book next : Book} {tasks later : List Task} {reports : List Report}
    (move : book.Move tasks next later reports) : book.Progress tasks next later := by
  cases move with
  | trade traded =>
    obtain ⟨maker, behind, meets, rfl, rfl, rfl⟩ := (trade_once_iff ..).mp traded
    exact meets.progress _
  | @settle order _ stuck left =>
    have settles := book.settles order
    generalize book.restRemainder order = settled at settles ⊢
    cases settles with
    | expired immediate => exact book.progress_dropped _ later
    | unpriced day market untraded => exact book.progress_dropped _ later
    | restated day market priced => exact book.progress_rest later rfl
    | rested day limited => exact book.progress_rest later rfl
  | finish stuck spent => exact book.progress_dropped _ later
  | release released =>
    obtain ⟨entry, behind, releases, rfl, rfl⟩ := releases_of_release released
    exact releases.progress _
  | pass unreached => exact book.progress_dropped _ later

/-- The potential falls with every move. -/
theorem Move.potential_lt {book next : Book} {tasks later : List Task} {reports : List Report}
    (move : book.Move tasks next later reports) :
    next.potential later < book.potential tasks := by
  rw [potential_eq, potential_eq]
  rcases move.progress with ⟨less, parked, more⟩ | ⟨same, fewer, more⟩ | ⟨most, parked, fewer⟩ <;>
    omega

/-- A chain of moves that leaves no task. -/
inductive Finishes : Book → List Task → Book → List Report → Prop where
  | done (book : Book) : Finishes book [] book []
  | move {book next final : Book} {tasks later : List Task} {reports others : List Report}
      (first : book.Move tasks next later reports) (rest : Finishes next later final others) :
      Finishes book tasks final (reports ++ others)

/-- With no less fuel than the potential, a run does every task. -/
theorem run_finishes (fuel : Nat) (book : Book) (tasks : List Task)
    (enough : book.potential tasks ≤ fuel) :
    book.Finishes tasks (run fuel book tasks).1 (run fuel book tasks).2 := by
  induction fuel generalizing book tasks with
  | zero =>
    cases tasks with
    | nil => exact .done book
    | cons task tasks => simp [potential] at enough
  | succ fuel induction =>
    cases stepped : book.step tasks with
    | none =>
      cases tasks with
      | nil => simpa only [run, stepped] using Finishes.done book
      | cons task tasks =>
        cases task with
        | trade order =>
          cases traded : book.tradeOnce order <;> simp [step, traded] at stepped
          split at stepped <;> simp at stepped
        | check flow => cases released : book.release flow <;> simp [step, released] at stepped
    | some result =>
      obtain ⟨next, later, reports⟩ := result
      have move := (step_iff ..).mp stepped
      have lower := move.potential_lt
      simpa only [run, stepped] using Finishes.move move (induction next later (by omega))

/-- Where a chain of moves begins decides where it ends and what it reports. -/
theorem Finishes.unique {book final other : Book} {tasks : List Task}
    {reports others : List Report} (chain : book.Finishes tasks final reports)
    (chain' : book.Finishes tasks other others) : final = other ∧ reports = others := by
  induction chain generalizing other others with
  | done =>
    cases chain' with
    | done => exact ⟨rfl, rfl⟩
    | move first rest => cases first
  | move first rest induction =>
    cases chain' with
    | done => cases first
    | move first' rest' =>
      have same := ((step_iff ..).mpr first).symm.trans ((step_iff ..).mpr first')
      obtain ⟨rfl, rfl, rfl⟩ : _ ∧ _ ∧ _ := by simpa using same
      obtain ⟨rfl, rfl⟩ := induction rest'
      exact ⟨rfl, rfl⟩

/-- The book after every task is done, and the reports on the way. -/
def work (book : Book) (tasks : List Task) : Book × List Report :=
  run (book.potential tasks) book tasks

/-- What is left after all steps is what the tasks finish with. -/
theorem work_finishes (book : Book) (tasks : List Task) :
    book.Finishes tasks (book.work tasks).1 (book.work tasks).2 :=
  run_finishes (book.potential tasks) book tasks (Nat.le_refl _)

/-- Doing every task is the one chain of moves that leaves none. -/
theorem finishes_iff (book final : Book) (tasks : List Task) (reports : List Report) :
    book.Finishes tasks final reports ↔ book.work tasks = (final, reports) := by
  have whole := book.work_finishes tasks
  constructor
  · intro chain
    obtain ⟨rfl, rfl⟩ := whole.unique chain
    rfl
  · intro done
    rw [done] at whole
    exact whole

/-- What every move keeps is kept to the end of a chain. -/
theorem Finishes.keeps {P : Book → List Task → List Report → Prop}
    (moves : ∀ {book next : Book} {tasks later : List Task} {reports sent : List Report},
      book.Move tasks next later reports → P book tasks sent → P next later (sent ++ reports))
    {book final : Book} {tasks : List Task} {reports : List Report}
    (chain : book.Finishes tasks final reports) (sent : List Report)
    (start : P book tasks sent) : P final [] (sent ++ reports) := by
  induction chain generalizing sent with
  | done => simpa only [List.append_nil] using start
  | move first rest induction =>
    simpa only [List.append_assoc] using induction _ (moves first start)

end Book

end Bourse
