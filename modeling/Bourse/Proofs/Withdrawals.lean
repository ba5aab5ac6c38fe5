import Bourse.Proofs.Consistency
import Bourse.Proofs.QuantityChanges
import Bourse.Proofs.Rejections
import Bourse.Proofs.TimePriority

/-!
# Withdrawn orders

A cancellation names an order by its identifier and its side, and takes it out of whichever
queue of that side holds it. A stop-limit order that was released rests among the limit orders,
and a resting order may be parked by a replacement, so the type that a cancellation gives says
nothing of where its order is: it decides which queue is tried first, and no more.

Two orders of one identifier would make that a difference. Where new orders bear identifiers of
their own there is one at most, in one queue: `one_home`. So the book without the order is the
same whichever queue was tried first, and the outcome of a cancellation is a matter of three
things that it says: the identifier, the flow and the sender's new name. Neither the flag of a
closed book nor anything else of the request has a part in it: `cancellation_finds_order`.
-/

namespace Bourse

namespace Queue

variable {direction : Direction} {queue : Queue direction} {id : OrderId}

/-- The queue with no order by an identifier. -/
def dropping (queue : Queue direction) (id : OrderId) : Queue direction :=
  { queue with entries := without id queue.entries }

/-- An order is found only where one bears the identifier. -/
theorem get_none_iff : queue.get? id = none ↔ id ∉ queue.orders.map (·.id) := by
  simp only [get?, List.find?_eq_none, beq_iff_eq, List.mem_map, not_exists, not_and]

/-- Nothing is dropped where no order is found. -/
theorem dropping_absent (absent : queue.get? id = none) : queue.dropping id = queue := by
  unfold dropping
  rw [without_absent (get_none_iff.mp absent)]

end Queue

/-- The report that an order was cancelled as its sender asked, under the new name that the
sender gives it. All else is as the order stood. -/
def Report.withdrawn (order : Order) (clientOrderId : String) : Report :=
  { Report.of .cancelled order Reason.requested.text with
    clientOrderId := clientOrderId
    previousClientOrderId := order.clientOrderId }

namespace Book

/-- The book with no order of a flow by an identifier, in neither of its queues. -/
def dropping (book : Book) (flow : Flow) (id : OrderId) : Book :=
  (book.withResting flow ((book.resting flow).dropping id)).withParked flow
    ((book.parked flow).dropping id)

/-- The orders of a flow: those that rest and those that are parked. -/
def ordersOn (book : Book) (flow : Flow) : List Order :=
  (book.resting flow).orders ++ (book.parked flow).orders

section Homes

variable {book : Book} {flow : Flow} {id : OrderId} {order image : Order}

/-- The order that a request names is the first by its identifier, resting orders before parked
ones. -/
theorem named_eq_find (book : Book) (image : Order) :
    book.named? image = (book.ordersOn image.flow).find? (·.id == image.id) :=
  List.find?_append.symm

/-- The orders of a flow are among those of the book, each in a place of its own. -/
theorem orders_on_distinct (distinct : (book.orders.map (·.id)).Nodup) (flow : Flow) :
    ((book.ordersOn flow).map (·.id)).Nodup := by
  have split := book.outstanding_resting_perm flow []
  have others := (book.withResting flow .empty).outstanding_parked_perm flow []
  rw [parked_with_resting] at others
  have all := (split.trans (others.append_left _)).map (·.id)
  rw [outstanding_nil, ← List.append_assoc, List.map_append] at all
  exact (List.nodup_append.mp (all.nodup_iff.mp distinct)).1

/-- Where no two orders share an identifier, none by that of a resting order is parked. -/
theorem one_home (distinct : (book.orders.map (·.id)).Nodup)
    (rests : (book.resting flow).get? id ≠ none) : (book.parked flow).get? id = none := by
  by_contra parks
  rw [ne_eq, Queue.get_none_iff, not_not] at rests
  rw [Queue.get_none_iff, not_not] at parks
  have apart := orders_on_distinct distinct flow
  rw [ordersOn, List.map_append] at apart
  exact (List.nodup_append.mp apart).2.2 id rests id parks rfl

/-- Whichever queue an order is taken out of, the book is the one without it. -/
theorem Named.eq_dropping {next : Book}
    (named : book.Named flow id order (fun queue => queue.dropping id) next)
    (distinct : (book.orders.map (·.id)).Nodup) : next = book.dropping flow id := by
  unfold dropping
  cases named with
  | resting found =>
    have elsewhere := one_home distinct (by rw [found]; exact Option.some_ne_none order)
    rw [Queue.dropping_absent elsewhere, ← book.parked_with_resting flow flow
      ((book.resting flow).dropping id), with_parked_self]
  | parked found =>
    have elsewhere : (book.resting flow).get? id = none := by
      by_contra rests
      rw [one_home distinct rests] at found
      contradiction
    rw [Queue.dropping_absent elsewhere, with_resting_self]

/-- Where an order of the flow bears the identifier, some order is named. -/
theorem named_of_held (held : order ∈ book.ordersOn image.flow) (same : order.id = image.id) :
    ∃ found, book.named? image = some found := by
  rw [named_eq_find, ← Option.isSome_iff_exists, List.find?_isSome]
  exact ⟨order, held, beq_iff_eq.mpr same⟩

/-- An order is named by its identifier and its flow. -/
theorem named_of_mem (distinct : (book.orders.map (·.id)).Nodup)
    (held : order ∈ book.ordersOn image.flow) (same : order.id = image.id) :
    book.named? image = some order := by
  rw [named_eq_find, ← same, ← List.head?_filter,
    Market.only_order (orders_on_distinct distinct image.flow) held]
  rfl

/-- No order is named where none of the flow bears the identifier. -/
theorem unnamed_of_absent (absent : ∀ order ∈ book.ordersOn image.flow, order.id ≠ image.id) :
    book.named? image = none := by
  rw [named_eq_find, List.find?_eq_none]
  simpa only [beq_iff_eq] using absent

/-- An order that is taken out of a queue was one of its flow. -/
theorem Named.mem_orders_on {next : Book}
    {change : {direction : Direction} → Queue direction → Queue direction}
    (named : book.Named flow id order change next) : order ∈ book.ordersOn flow := by
  cases named with
  | resting found => exact List.mem_append_left _ (List.mem_of_find?_eq_some found)
  | parked found => exact List.mem_append_right _ (List.mem_of_find?_eq_some found)

/-- An order by the identifier that a cancellation names is taken out of a queue of its flow, and
reported as withdrawn. -/
theorem cancel_named (held : order ∈ book.ordersOn image.flow) (same : order.id = image.id) :
    ∃ found next, book.Named image.flow image.id found (fun queue => queue.dropping image.id) next ∧
      book.cancel image = ({ next with hasChanged := true },
        [Report.withdrawn found image.clientOrderId]) := by
  obtain ⟨found, named⟩ := named_of_held held same
  obtain ⟨renamed, next, withdrawn⟩ := withdraw_named named
  obtain ⟨old, rfl, place⟩ := withdraw_ok withdrawn
  refine ⟨old, next, place, ?_⟩
  rw [cancel, withdrawn]
  rfl

/-- Where no two orders share an identifier, the order that is taken out is the one that the
cancellation names, and the book is the one without it. -/
theorem cancel_distinct (distinct : (book.orders.map (·.id)).Nodup)
    (held : order ∈ book.ordersOn image.flow) (same : order.id = image.id) :
    book.Named image.flow image.id order (fun queue => queue.dropping image.id)
        (book.dropping image.flow image.id) ∧
      book.cancel image = ({ book.dropping image.flow image.id with hasChanged := true },
        [Report.withdrawn order image.clientOrderId]) := by
  obtain ⟨found, next, place, cancelled⟩ := cancel_named held same
  obtain rfl := place.eq_dropping distinct
  have named := named_of_mem distinct place.mem_orders_on place.id
  rw [named_of_mem distinct held same] at named
  obtain rfl := Option.some.inj named
  exact ⟨place, cancelled⟩

/-- A cancellation of an order that no queue of the flow holds is refused. -/
theorem cancel_absent (absent : ∀ order ∈ book.ordersOn image.flow, order.id ≠ image.id) :
    book.cancel image =
      (book, [Report.of .cancelRejected image (Refusal.unknownOrder image.id).message]) := by
  rw [cancel, withdraw_unnamed (unnamed_of_absent absent)]

end Homes

/-- In every book that a run reaches, open or closed, a cancellation of an identifier that a flow
has takes an order by it out of its queue, and leaves all else in its place. One report says so,
with the sender's new and former name for the order and its fills as they stood. If the flow has
no order by the identifier, the book stays as it is, and the cancellation is refused.

If new orders bear identifiers of their own, that order is the one that bears the identifier, and
none is left that does. A second cancellation that agrees in the identifier, the flow and the new
name then has the same outcome, whatever else it says of the order: only a refusal shows the
request as it came. -/
theorem cancellation_finds_order (first : Order) (operations : List Operation) (image : Order) :
    let book := ((ofFirst first).performAll operations).1
    let after := book.dropping image.flow image.id
    let unknown := (Refusal.unknownOrder image.id).message
    (∀ order ∈ book.ordersOn image.flow, order.id = image.id → ∃ found next,
      book.Named image.flow image.id found (fun queue => queue.dropping image.id) next ∧
        book.cancel image = ({ next with hasChanged := true },
          [Report.withdrawn found image.clientOrderId])) ∧
    ((∀ order ∈ book.ordersOn image.flow, order.id ≠ image.id) →
      book.cancel image = (book, [Report.of .cancelRejected image unknown])) ∧
    (Fresh operations →
      (∀ order ∈ book.ordersOn image.flow, order.id = image.id →
        book.cancel image =
          ({ after with hasChanged := true }, [Report.withdrawn order image.clientOrderId]) ∧
        book.orders.Perm (order :: after.orders) ∧ image.id ∉ after.orders.map (·.id)) ∧
      ∀ other : Order, other.id = image.id → other.flow = image.flow →
        other.clientOrderId = image.clientOrderId →
        (book.cancel other).1 = (book.cancel image).1 ∧
        ((book.cancel other).2 = (book.cancel image).2 ∨
          (book.cancel image).2 = [Report.of .cancelRejected image unknown] ∧
            (book.cancel other).2 = [Report.of .cancelRejected other unknown])) := by
  intro book after unknown
  refine ⟨fun order => cancel_named, cancel_absent, fun fresh => ?_⟩
  have distinct : (book.orders.map (·.id)).Nodup := (run_ledger first fresh).distinct
  have sound : book.Sound := run_sound first operations
  constructor
  · intro order held same
    obtain ⟨place, cancelled⟩ := cancel_distinct distinct held same
    have taken := place.outstanding_without sound rfl []
    rw [outstanding_nil, outstanding_nil] at taken
    exact ⟨cancelled, taken, place.absent sound rfl distinct⟩
  · intro other id flow name
    by_cases held : ∃ order ∈ book.ordersOn image.flow, order.id = image.id
    · obtain ⟨order, held, same⟩ := held
      have here := (cancel_distinct distinct held same).2
      have there := (cancel_distinct distinct (flow ▸ held) (same.trans id.symm)).2
      rw [id, flow, name, ← here] at there
      rw [there]
      exact ⟨rfl, .inl rfl⟩
    · have absent : ∀ order ∈ book.ordersOn image.flow, order.id ≠ image.id := by
        intro order member same
        exact held ⟨order, member, same⟩
      have here := cancel_absent absent
      have there : book.cancel other = _ := cancel_absent (flow ▸ id ▸ absent)
      rw [id] at there
      rw [here, there]
      exact ⟨rfl, .inr ⟨rfl, rfl⟩⟩

/-- The first purchase waited for its stop price and was released. A cancellation takes it out
whether it asks for a stop-limit order or a limit order, of whatever quantity and sender; as a
sale nothing goes by its identifier. -/
theorem released_day_cancellations :
    let book := ((ofFirst default).performAll releasedDay).1
    let image sender side type quantity : Order :=
      .ofCancellation ⟨⟨1⟩, "a", "X", "b", sender, side, type, quantity⟩
    let asWaiting := book.cancel (image "s" .buy .stopLimit 10)
    let asResting := book.cancel (image "t" .buy .limit 99)
    let asSale := book.cancel (image "s" .sellShort .stopLimit 10)
    Fresh releasedDay ∧ book.buys.ids = [⟨1⟩, ⟨4⟩, ⟨5⟩] ∧ asWaiting.1.buys.ids = [⟨4⟩, ⟨5⟩] ∧
      asWaiting.2.map (·.previousClientOrderId) = ["a"] ∧
      asResting.1 = asWaiting.1 ∧ asResting.2 = asWaiting.2 ∧ asSale.1 = book := by
  intro book image asWaiting asResting asSale
  have fresh : Fresh releasedDay := by decide
  have finds (image : Order) := cancellation_finds_order default releasedDay image
  obtain ⟨-, -, own⟩ := finds (image "s" .buy .stopLimit 10)
  obtain ⟨-, refused, -⟩ := finds (image "s" .sellShort .stopLimit 10)
  obtain ⟨-, agrees⟩ := own fresh
  obtain ⟨same, reports⟩ := agrees (image "t" .buy .limit 99) rfl rfl rfl
  have unchanged := congrArg Prod.fst (refused (by decide))
  refine ⟨fresh, by decide, by decide, by decide, same, ?_, unchanged⟩
  rcases reports with equal | ⟨unknown, -⟩
  · exact equal
  · exact absurd unknown (by decide)

end Book

end Bourse
