import Bourse.Proofs.MirroredExecution

/-!
# Requests seen from the other side

A replacement or a cancellation finds the same order from either side, or is refused for the
same reason. What every instruction to a book does at once is therefore the mirror of what the
mirrored instruction does, and the executions that begin there are those of
`Finishes.mirrored`: an outset and its mirror come to their end in mirrored books.
-/

namespace Bourse

/-- Two outcomes of what is asked for in two books: it is carried out in both, with results
that are related, or refused in both for the same reason. -/
inductive SameOutcome {α β : Type} (related : α → β → Prop) :
    Except Refusal α → Except Refusal β → Prop where
  | ok {value : α} {other : β} (same : related value other) :
      SameOutcome related (.ok value) (.ok other)
  | error (refusal : Refusal) : SameOutcome related (.error refusal) (.error refusal)

namespace SameOutcome

variable {α β γ δ : Type} {related : α → β → Prop}

/-- What is made of two outcomes that are the same is the same. -/
theorem map {also : γ → δ → Prop} {change : α → γ} {changes : β → δ}
    {outcome : Except Refusal α} {other : Except Refusal β}
    (same : SameOutcome related outcome other)
    (each : ∀ value image, related value image → also (change value) (changes image)) :
    SameOutcome also (outcome.map change) (other.map changes) := by
  cases same with
  | ok same => exact .ok (each _ _ same)
  | error refusal => exact .error refusal

/-- Where one outcome is a success, the other one is, with a related value. -/
theorem ok_inv {value : α} {outcome : Except Refusal β}
    (same : SameOutcome related (.ok value) outcome) :
    ∃ other, outcome = .ok other ∧ related value other := by
  cases same with
  | ok same => exact ⟨_, rfl, same⟩

/-- Where one outcome is a refusal, the other one is that refusal. -/
theorem error_inv {refusal : Refusal} {outcome : Except Refusal β}
    (same : SameOutcome related (.error refusal) outcome) : outcome = .error refusal := by
  cases same with
  | error => rfl

/-- The first success of two attempts is the same if both attempts are. -/
theorem or_else {first second : Except Refusal α} {first' second' : Except Refusal β}
    (same : SameOutcome related first first') (also : SameOutcome related second second') :
    SameOutcome related (Book.orElse first second) (Book.orElse first' second') := by
  cases same with
  | ok same => exact .ok same
  | error refusal => exact also

end SameOutcome

namespace Order

/-- A replacement is refused, or changes an order, as its mirror does. -/
theorem Priced.replace_mirrored {bound : Int} {order image : Order}
    (priced : order.Priced bound) (asked : image.Priced bound) :
    (order.mirrored bound).replace (image.mirrored bound) =
      (order.replace image).map fun (replaced, priority) =>
        (replaced.mirrored bound, priority) := by
  have priority := priced.priority_mirrored asked
  have replaced := order.mirrored_replaced bound image
  unfold replace
  rw [priority, ← replaced]
  change (if image.quantity ≤ order.filled then _ else _) = _
  split <;> rfl

/-- An order as it may be asked for below a bound, with a stop type for one flow only. -/
structure AskedBelow (bound : Int) (stops : Flow) (order : Order) : Prop where
  priced : order.Priced bound
  stop : order.type.isStop = true → order.flow = stops

instance (bound : Int) (stops : Flow) (order : Order) :
    Decidable (order.AskedBelow bound stops) :=
  decidable_of_iff (order.Priced bound ∧ (order.type.isStop = true → order.flow = stops))
    ⟨fun holds => ⟨holds.1, holds.2⟩, fun asked => ⟨asked.priced, asked.stop⟩⟩

end Order

namespace Queue

variable {direction other : Direction} {bound : Int} {queue : Queue direction}
  {mirror : Queue other}

/-- From mirrored queues, mirrored orders are taken out, or neither has the order. -/
theorem Mirrors.erase (mirrors : queue.Mirrors bound mirror) (id : OrderId) :
    SameOutcome
      (fun found image => image.1 = found.1.mirrored bound ∧ found.2.Mirrors bound image.2)
      (queue.erase id) (mirror.erase id) := by
  unfold Queue.erase
  rw [mirrors.get]
  cases queue.get? id with
  | none => exact .error _
  | some order => exact .ok ⟨rfl, mirrors.without id⟩

/-- In mirrored queues, mirrored orders are cancelled, or neither has the order. -/
theorem Mirrors.cancel (mirrors : queue.Mirrors bound mirror) (image : Order) :
    SameOutcome
      (fun found image => image.1 = found.1.mirrored bound ∧ found.2.Mirrors bound image.2)
      (queue.cancel image) (mirror.cancel (image.mirrored bound)) := by
  apply (mirrors.erase image.id).map
  rintro ⟨order, rest⟩ ⟨_, others⟩ ⟨rfl, same⟩
  exact ⟨(order.mirrored_renamed bound image).symm, same⟩

/-- A replacement that finds an order below the bound changes it as its mirror does. -/
theorem Mirrors.replace (mirrors : queue.Mirrors bound mirror)
    (priced : ∀ entry ∈ queue.entries, entry.order.Priced bound) {image : Order}
    (asked : image.Priced bound) :
    SameOutcome
      (fun found image => image.1 = found.1.mirrored bound ∧ image.2.2 = found.2.2 ∧
        found.2.1.Mirrors bound image.2.1)
      (queue.replace image) (mirror.replace (image.mirrored bound)) := by
  have id : (image.mirrored bound).id = image.id := rfl
  unfold Queue.replace
  rw [id, mirrors.get]
  cases found : queue.get? image.id with
  | none => exact .error _
  | some order =>
    obtain ⟨entry, member, rfl⟩ := List.mem_map.mp (List.mem_of_find?_eq_some found)
    have same := (priced entry member).replace_mirrored asked
    simp only [Option.map_some, same]
    cases entry.order.replace image with
    | none => exact .error _
    | some result =>
      refine .ok ⟨rfl, rfl, mirrors.with_entries ?_⟩
      rw [mirrors.entries, with_order_mirrored]

/-- A replacement that is carried out to the end. -/
theorem Mirrors.amend (mirrors : queue.Mirrors bound mirror)
    (priced : ∀ entry ∈ queue.entries, entry.order.Priced bound) {image : Order}
    (asked : image.Priced bound) :
    SameOutcome
      (fun found image => image.1 = found.1.mirrored bound ∧ image.2.2 = found.2.2 ∧
        found.2.1.Mirrors bound image.2.1)
      (queue.amend image) (mirror.amend (image.mirrored bound)) := by
  apply (mirrors.replace priced asked).map
  rintro ⟨order, next, priority⟩ ⟨_, others, also⟩ ⟨rfl, kept, same⟩
  obtain rfl : also = priority := kept
  cases also with
  | kept => exact ⟨rfl, rfl, same⟩
  | lost => exact ⟨rfl, rfl, same.without image.id⟩

/-- What a replacement leaves of a queue keeps the law of the queue if the replaced order
satisfies it wherever it stays. -/
theorem Keeps.amended {key : Order → Int} {law : Order → Prop} (keeps : queue.Keeps key law)
    {old order : Order} {priority : Order.Priority} (found : queue.get? order.id = some old)
    (stays : priority = .kept → key order = key old ∧ law order) :
    (queue.amended order priority).Keeps key law := by
  cases priority with
  | kept => exact keeps.with_order found (stays rfl).1 (stays rfl).2
  | lost => exact keeps.sublist List.filter_sublist

end Queue

namespace Book

variable {bound : Int} {stops : Flow} {book mirror : Book}

section Requests

variable {image : Order}

/-- A replacement finds the same order, where it rests before where it is parked. -/
theorem Mirrors.amend (mirrors : book.Mirrors bound mirror) (priced : book.Priced bound stops)
    (asked : image.Priced bound) :
    SameOutcome
      (fun found image => image.1 = found.1.mirrored bound ∧ image.2.1 = found.2.1 ∧
        found.2.2.Mirrors bound image.2.2)
      (book.amend image) (mirror.amend (image.mirrored bound)) := by
  have opposite := image.flow_mirrored bound
  have rests := (mirrors.resting_of opposite).amend
    (fun entry member => ((priced.resting image.flow).lawful entry member).priced) asked
  have waits := (mirrors.parked_of opposite).amend
    (fun entry member => ((priced.parked image.flow).lawful entry member).priced) asked
  unfold Book.amend
  generalize (book.resting image.flow).amend image = resting at rests ⊢
  generalize (mirror.resting (image.mirrored bound).flow).amend (image.mirrored bound) =
    resting' at rests ⊢
  cases rests with
  | ok same =>
    obtain ⟨order, priority, queue⟩ := same
    exact .ok ⟨order, priority, mirrors.with_resting opposite queue⟩
  | error refusal =>
    cases refusal with
    | unknownOrder id =>
      apply waits.map
      rintro ⟨order, queue, priority⟩ ⟨order', queue', priority'⟩ ⟨orders, priorities, queues⟩
      exact ⟨orders, priorities, mirrors.with_parked opposite queues⟩
    | notReplaceable reason => exact .error _
    | unknownSecurity security => exact .error _

/-- A cancellation finds the same order, whichever type it gives it. -/
theorem Mirrors.withdraw (mirrors : book.Mirrors bound mirror) (image : Order) :
    SameOutcome
      (fun found image => image.1 = found.1.mirrored bound ∧ found.2.Mirrors bound image.2)
      (book.withdraw image) (mirror.withdraw (image.mirrored bound)) := by
  have opposite := image.flow_mirrored bound
  have rests : SameOutcome
      (fun found image => image.1 = found.1.mirrored bound ∧ found.2.Mirrors bound image.2)
      (book.cancelResting image) (mirror.cancelResting (image.mirrored bound)) := by
    apply ((mirrors.resting_of opposite).cancel image).map
    rintro ⟨order, queue⟩ ⟨order', queue'⟩ ⟨orders, queues⟩
    exact ⟨orders, mirrors.with_resting opposite queues⟩
  have waits : SameOutcome
      (fun found image => image.1 = found.1.mirrored bound ∧ found.2.Mirrors bound image.2)
      (book.cancelParked image) (mirror.cancelParked (image.mirrored bound)) := by
    apply ((mirrors.parked_of opposite).cancel image).map
    rintro ⟨order, queue⟩ ⟨order', queue'⟩ ⟨orders, queues⟩
    exact ⟨orders, mirrors.with_parked opposite queues⟩
  have type : (image.mirrored bound).type = image.type := rfl
  unfold Book.withdraw
  rw [type]
  split
  · exact waits.or_else rests
  · exact rests.or_else waits

/-- The same order is dropped as immediate. -/
theorem Mirrors.drop_immediate (mirrors : book.Mirrors bound mirror) (order : Order) :
    (book.dropImmediate order).1.Mirrors bound (mirror.dropImmediate (order.mirrored bound)).1 ∧
      List.Forall₂ (Report.Mirrors bound) (book.dropImmediate order).2
        (mirror.dropImmediate (order.mirrored bound)).2 := by
  have opposite := order.flow_mirrored bound
  have rests := (mirrors.resting_of opposite).erase order.id
  have id : (order.mirrored bound).id = order.id := rfl
  unfold Book.dropImmediate
  rw [id]
  generalize (book.resting order.flow).erase order.id = resting at rests ⊢
  generalize (mirror.resting (order.mirrored bound).flow).erase order.id = resting' at rests ⊢
  cases rests with
  | @ok found image same =>
    obtain ⟨dropped, queue⟩ := found
    obtain ⟨_, queue'⟩ := image
    obtain ⟨rfl, queues⟩ := same
    exact ⟨mirrors.with_resting opposite queues, .cons (Report.mirrors_of ..) .nil⟩
  | error refusal => exact ⟨mirrors, .nil⟩

/-- An order that is taken out leaves a book below the bound. -/
theorem Priced.without (priced : book.Priced bound stops) {next : Book} {flow : Flow}
    {id gone : OrderId} {old : Order}
    (named : book.Named flow id old
      (fun queue => { queue with entries := Queue.without gone queue.entries }) next) :
    next.Priced bound stops := by
  cases named with
  | resting found => exact priced.with_resting ((priced.resting flow).sublist List.filter_sublist)
  | parked found => exact priced.with_parked ((priced.parked flow).sublist List.filter_sublist)

/-- What a replacement below the bound leaves is below it, the order that is replaced as well
as the book. -/
theorem Priced.amended (priced : book.Priced bound stops) (asked : image.Priced bound)
    {next : Book} {order : Order} {priority : Order.Priority}
    (amended : book.amend image = .ok (order, priority, next)) :
    next.Priced bound stops ∧ order.Priced bound ∧ order.flow = image.flow ∧
      order.type = image.type := by
  obtain ⟨old, -, rfl, rfl, named⟩ := amend_ok amended
  cases named with
  | resting found =>
    obtain ⟨same, ⟨entry, member, rfl⟩, -⟩ := (priced.resting image.flow).ordered.get found
    have rests := (priced.resting image.flow).lawful entry member
    have replaced := rests.priced.replaced asked
    refine ⟨priced.with_resting ((priced.resting image.flow).amended (same.symm ▸ found) ?_),
      replaced, rests.side, rfl⟩
    intro kept
    obtain ⟨price, -⟩ := Order.kept_attributes kept
    exact ⟨price, replaced, rests.side, price ▸ rests.set⟩
  | parked found =>
    obtain ⟨same, ⟨entry, member, rfl⟩, -⟩ := (priced.parked image.flow).ordered.get found
    have waits := (priced.parked image.flow).lawful entry member
    have replaced := waits.priced.replaced asked
    refine ⟨priced.with_parked ((priced.parked image.flow).amended (same.symm ▸ found) ?_),
      replaced, waits.side, rfl⟩
    intro kept
    obtain ⟨-, -, stopPrice⟩ := Order.kept_attributes kept
    exact ⟨stopPrice, replaced, waits.side, waits.only, stopPrice ▸ waits.set⟩

/-- A book stays within the bound without an order that became immediate. -/
theorem Priced.dropped (priced : book.Priced bound stops) (order : Order) :
    (book.dropImmediate order).1.Priced bound stops := by
  rcases book.drop_immediate_cases order with ⟨same, -⟩ | ⟨old, -, dropped, -⟩
  · rw [same]
    exact priced
  · rw [dropped]
    exact priced.with_resting ((priced.resting order.flow).sublist List.filter_sublist)

end Requests

end Book

/-- Two outsets that mirror each other, with all prices below the bound, so that the
executions that begin there mirror each other too. -/
structure Outset.Mirrors (bound : Int) (stops : Flow) (outset mirror : Outset) : Prop where
  book : outset.book.Mirrors bound mirror.book
  tasks : List.Forall₂ (Task.Mirrors bound stops) outset.tasks mirror.tasks
  reports : List.Forall₂ (Report.Mirrors bound) outset.reports mirror.reports
  changes : mirror.changes = outset.changes
  priced : outset.book.Priced bound stops
  ready : ∀ task ∈ outset.tasks, task.Below bound outset.book.record.lastPrice

namespace Outset

variable {bound : Int} {stops : Flow} {outset other : Outset} {book mirror : Book}

/-- An outset that leaves nothing to trade. -/
theorem mirrors_settled (mirrors : book.Mirrors bound mirror) (priced : book.Priced bound stops)
    {reports reported : List Report} (same : List.Forall₂ (Report.Mirrors bound) reports reported) :
    (settled book reports).Mirrors bound stops (settled mirror reported) :=
  ⟨mirrors, .nil, same, rfl, priced, List.forall_mem_nil _⟩

/-- An outset that leaves the book as it is, with one report on an order. -/
theorem mirrors_unchanged (mirrors : book.Mirrors bound mirror) (priced : book.Priced bound stops)
    (kind : ReportKind) (order : Order) (reason : String) :
    (unchanged book [Report.of kind order reason]).Mirrors bound stops
      (unchanged mirror [Report.of kind (order.mirrored bound) reason]) :=
  ⟨mirrors, .nil, .cons (Report.mirrors_of ..) .nil, rfl, priced, List.forall_mem_nil _⟩

/-- A mirrored report in front leaves the rest of mirrored operations mirrored. -/
theorem Mirrors.after (mirrors : outset.Mirrors bound stops other) {report image : Report}
    (same : report.Mirrors bound image) :
    (outset.after report).Mirrors bound stops (other.after image) :=
  { mirrors with reports := .cons same mirrors.reports }

/-- What begins in mirrored outsets ends in mirrored books. -/
theorem Mirrors.finish (mirrors : outset.Mirrors bound stops other) :
    outset.finish.1.Mirrors bound other.finish.1 ∧ outset.finish.1.Priced bound stops ∧
      List.Forall₂ (Report.Mirrors bound) outset.finish.2 other.finish.2 := by
  obtain ⟨books, priced, reports⟩ := mirrors.book.work mirrors.priced mirrors.ready mirrors.tasks
  have changed := books.hasChanged
  refine ⟨⟨?_, ?_, books.record, books.isActive, ?_⟩, ⟨?_, ?_, priced.record⟩,
    List.rel_append mirrors.reports reports⟩
  · intro flow
    simpa only [Outset.finish, Outset.marked, Book.resting_marked] using books.resting flow
  · intro flow
    simpa only [Outset.finish, Outset.marked, Book.parked_marked] using books.parked flow
  · simp only [Outset.finish, Outset.marked, changed, mirrors.changes]
  · intro flow
    simpa only [Outset.finish, Outset.marked, Book.resting_marked] using priced.resting flow
  · intro flow
    simpa only [Outset.finish, Outset.marked, Book.parked_marked] using priced.parked flow

end Outset

namespace Book

variable {bound : Int} {stops : Flow} {book mirror : Book}

section Outsets

variable {order image : Order}

/-- The last trade reaches the stop price of an order or does not, from either side. -/
theorem Mirrors.reached (mirrors : book.Mirrors bound mirror) (priced : book.Priced bound stops)
    (asked : order.Priced bound) (waits : order.type.isStop = true) :
    (mirror.record.hasTraded && (order.mirrored bound).flow.reaches mirror.record.lastPrice
        (order.mirrored bound).stopPrice) =
      (book.record.hasTraded && order.flow.reaches book.record.lastPrice order.stopPrice) := by
  rw [mirrors.record.has_traded, mirrors.record.lastPrice, order.flow_mirrored]
  cases traded : book.record.hasTraded with
  | false => rfl
  | true =>
    have reaches := order.flow.reaches_mirrored bound (priced.record.traded traded)
      (asked.waits waits)
    rw [Bool.true_and, Bool.true_and]
    exact reaches

/-- An order goes where its mirror goes. -/
theorem Mirrors.route_outset (mirrors : book.Mirrors bound mirror)
    (priced : book.Priced bound stops) (asked : order.AskedBelow bound stops) :
    (book.routeOutset order).Mirrors bound stops (mirror.routeOutset (order.mirrored bound)) := by
  have type : (order.mirrored bound).type = order.type := rfl
  unfold routeOutset
  rw [type]
  by_cases waits : order.type.isStop = true
  · have reached := mirrors.reached priced asked.priced waits
    rw [if_pos waits, if_pos waits, reached]
    split
    · rw [← order.mirrored_trigger bound]
      exact ⟨mirrors, .cons (.trade _) .nil, .cons (Report.mirrors_of ..) .nil, rfl, priced,
        List.forall_mem_singleton.mpr ⟨asked.priced.trigger, order.trigger_not_stop⟩⟩
    · have opposite := order.flow_mirrored bound
      have reversed : (order.mirrored bound).flow.parkingDirection =
          order.flow.parkingDirection.reversed := by
        rw [opposite]
        exact order.flow.parking_direction_contra
      have set := asked.priced.waits waits
      have queue := (mirrors.parked_of opposite).insert reversed order.stopPrice order
      rw [← mirrored_price_set bound set] at queue
      have parks : order.WaitsBelow bound stops order.flow :=
        ⟨asked.priced, rfl, asked.stop waits, set⟩
      exact Outset.mirrors_settled (mirrors.with_parked opposite queue)
        (priced.with_parked ((priced.parked order.flow).insert parks)) .nil
  · rw [if_neg waits, if_neg waits]
    exact ⟨mirrors, .cons (.trade _) .nil, .nil, rfl, priced,
      List.forall_mem_singleton.mpr ⟨asked.priced, by simpa using waits⟩⟩

/-- A new order is refused or accepted as its mirror is. -/
theorem Mirrors.insert_outset (mirrors : book.Mirrors bound mirror)
    (priced : book.Priced bound stops) (asked : order.AskedBelow bound stops) :
    (book.insertOutset order).Mirrors bound stops
      (mirror.insertOutset (order.mirrored bound)) := by
  have quantity : (order.mirrored bound).quantity = order.quantity := rfl
  unfold insertOutset
  rw [mirrors.isActive, quantity]
  split
  · exact Outset.mirrors_unchanged mirrors priced ..
  · split
    · exact Outset.mirrors_unchanged mirrors priced ..
    · exact (mirrors.route_outset priced asked).after (Report.mirrors_of ..)

/-- A replacement is refused for the same reason as its mirror, or leaves its order in its
place where the mirror does. -/
theorem Mirrors.replace_outset (mirrors : book.Mirrors bound mirror)
    (priced : book.Priced bound stops) (asked : image.AskedBelow bound stops) :
    (book.replaceOutset image).Mirrors bound stops
      (mirror.replaceOutset (image.mirrored bound)) := by
  have outcomes := mirrors.amend priced asked.priced
  unfold replaceOutset
  rw [mirrors.isActive]
  split
  · exact Outset.mirrors_unchanged mirrors priced ..
  · cases amended : book.amend image with
    | error refusal =>
      rw [amended] at outcomes
      rw [outcomes.error_inv]
      exact Outset.mirrors_unchanged mirrors priced ..
    | ok found =>
      obtain ⟨order, priority, next⟩ := found
      obtain ⟨below, own, side, type⟩ := priced.amended asked.priced amended
      rw [amended] at outcomes
      obtain ⟨⟨order', priority', next'⟩, done, orders, priorities, books⟩ := outcomes.ok_inv
      obtain rfl : order' = order.mirrored bound := orders
      obtain rfl : priority' = priority := priorities
      rw [done]
      cases priority' with
      | lost =>
        have routed : order.AskedBelow bound stops :=
          ⟨own, fun waits => side.trans (asked.stop (type ▸ waits))⟩
        exact (books.route_outset below routed).after (Report.mirrors_of ..)
      | kept =>
        have force : (order.mirrored bound).timeInForce = order.timeInForce := rfl
        simp only [force]
        split
        · obtain ⟨dropped, reports⟩ := books.drop_immediate order
          exact Outset.mirrors_settled dropped (below.dropped order)
            (.cons (Report.mirrors_of ..) reports)
        · exact Outset.mirrors_settled books below (.cons (Report.mirrors_of ..) .nil)

/-- A cancellation is refused for the same reason as its mirror, or finds the same order. -/
theorem Mirrors.cancel_outset (mirrors : book.Mirrors bound mirror)
    (priced : book.Priced bound stops) (image : Order) :
    (book.cancelOutset image).Mirrors bound stops
      (mirror.cancelOutset (image.mirrored bound)) := by
  have outcomes := mirrors.withdraw image
  unfold cancelOutset
  cases withdrawn : book.withdraw image with
  | error refusal =>
    rw [withdrawn] at outcomes
    rw [outcomes.error_inv]
    exact Outset.mirrors_unchanged mirrors priced ..
  | ok found =>
    obtain ⟨order, rest⟩ := found
    obtain ⟨old, -, named⟩ := withdraw_ok withdrawn
    rw [withdrawn] at outcomes
    obtain ⟨⟨order', rest'⟩, done, orders, books⟩ := outcomes.ok_inv
    obtain rfl : order' = order.mirrored bound := orders
    rw [done]
    exact Outset.mirrors_settled books (priced.without named) (.cons (Report.mirrors_of ..) .nil)

end Outsets

end Book

end Bourse
