import Bourse.Proofs.Soundness

/-!
# Outstanding orders

An order is outstanding from its acceptance until it is filled or cancelled. Between
operations the outstanding orders are those in the four queues. In the middle of an
execution there are others, in no queue: the order that is being traded, and those that
wait for it to come to its end.

In which order the outstanding orders are listed means nothing. So what an operation or a
move makes of them is said up to a permutation, by the orders that it takes out and those
that it puts in: the laws here do so for each way in which a book changes one of its
queues.
-/

namespace Bourse

/-- An order that has something left to fill. -/
def Order.outstanding? (order : Order) : Option Order :=
  if 0 < order.unfilled then some order else none

/-- The order that a task holds outside the queues. One with nothing left to fill is
outstanding no longer, though its task is still to be done. -/
def Task.outstanding? : Task → Option Order
  | .trade order => order.outstanding?
  | .check _ => none

namespace Order

/-- An order with something left is outstanding. -/
theorem outstanding_of_left {order : Order} (left : 0 < order.unfilled) :
    order.outstanding? = some order :=
  if_pos left

/-- An order with nothing left is not. -/
theorem outstanding_of_spent {order : Order} (spent : order.unfilled ≤ 0) :
    order.outstanding? = none :=
  if_neg (Int.not_lt.mpr spent)

end Order

namespace Queue

variable {direction : Direction}

/-- No order is taken out where none has the identifier. -/
theorem without_absent {id : OrderId} {entries : List Entry}
    (absent : id ∉ (entries.map (·.order)).map (·.id)) : without id entries = entries := by
  apply List.filter_eq_self.mpr
  intro entry member
  have other : entry.order.id ≠ id := by
    rintro rfl
    exact absent (List.mem_map_of_mem (List.mem_map_of_mem member))
  simpa using other

/-- An order that is new to a queue joins the others. -/
theorem orders_insert_perm (queue : Queue direction) (key : Int) {order : Order}
    (absent : order.id ∉ queue.orders.map (·.id)) :
    (queue.insert key order).orders.Perm (order :: queue.orders) := by
  have placed := (@place_perm direction ⟨key, queue.nextArrival, order⟩
    queue.entries).map (·.order)
  simpa only [orders, insert, without_absent absent, List.map_cons] using placed

/-- Where no two orders share an identifier, it takes out the one order that is found by
it. -/
theorem orders_without_perm {id : OrderId} {old : Order} {entries : List Entry}
    (distinct : (entries.map (·.order.id)).Nodup)
    (found : (entries.map (·.order)).find? (·.id == id) = some old) :
    (entries.map (·.order)).Perm (old :: (without id entries).map (·.order)) := by
  induction entries with
  | nil => simp at found
  | cons entry rest induction =>
    rw [List.map_cons, List.nodup_cons] at distinct
    rw [List.map_cons, List.find?_cons] at found
    by_cases named : (entry.order.id == id) = true
    · have same : entry.order.id = id := eq_of_beq named
      obtain rfl : entry.order = old := by simpa only [named, Option.some.injEq] using found
      have others : without id rest = rest :=
        without_absent (by rw [List.map_map]; exact same ▸ distinct.1)
      have gone : without id (entry :: rest) = without id rest :=
        List.filter_cons_of_neg (by simp [same])
      rw [gone, others, List.map_cons]
    · have other : (entry.order.id == id) = false := Bool.eq_false_iff.mpr named
      have kept : without id (entry :: rest) = entry :: without id rest :=
        List.filter_cons_of_pos (by simpa only [bne, Bool.not_eq_true'] using other)
      simp only [other] at found
      rw [kept, List.map_cons, List.map_cons]
      exact ((induction distinct.2 found).cons _).trans (.swap _ _ _)

/-- In an ordered queue an identifier takes out the one order that is found by it. -/
theorem Ordered.orders_perm {queue : Queue direction} (ordered : queue.Ordered) {id : OrderId}
    {old : Order} (found : queue.get? id = some old) :
    queue.orders.Perm
      (old :: ({ queue with entries := without id queue.entries } : Queue direction).orders) :=
  orders_without_perm ordered.distinct found

/-- An order in the place of the one with its identifier leaves a queue ordered. -/
theorem Ordered.amended {queue : Queue direction} (ordered : queue.Ordered) (order : Order) :
    (queue.amended order .kept).Ordered :=
  ordered.of_slots (slots_with_order order queue.entries ▸ .refl _)

/-- An order takes the place of the one with its identifier. -/
theorem Ordered.orders_amended_perm {queue : Queue direction} (ordered : queue.Ordered)
    {order old : Order} (found : queue.get? order.id = some old) :
    (queue.amended order .kept).orders.Perm
      (order :: ({ queue with entries := without order.id queue.entries } :
        Queue direction).orders) := by
  have taken := orders_without_perm (ordered.amended order).distinct
    (get_amended queue order old found)
  simp only [Queue.amended, without_with_order] at taken
  exact taken

/-- What a fill leaves of the first order stays in front of the others. -/
theorem orders_filled_first (maker : Entry) (behind : List Entry) (price quantity : Int)
    (left : quantity ≤ maker.order.unfilled) :
    (filledFirst maker behind price quantity).map (·.order) =
      (maker.order.fill price quantity).outstanding?.toList ++ behind.map (·.order) := by
  have rest := maker.order.unfilled_fill price quantity left
  unfold filledFirst
  split
  case isTrue gone =>
    rw [Order.pending_eq_zero_iff] at gone
    rw [Order.outstanding_of_spent (by omega)]
    rfl
  case isFalse stays =>
    rw [Order.pending_eq_zero_iff] at stays
    rw [Order.outstanding_of_left (by omega)]
    rfl

end Queue

namespace Book

/-- The orders in the queues. -/
def orders (book : Book) : List Order :=
  book.buys.orders ++ book.sells.orders ++ book.stopBuys.orders ++ book.stopSells.orders

/-- The outstanding orders of a book and the tasks that are still to be done. -/
def outstanding (book : Book) (tasks : List Task) : List Order :=
  book.orders ++ tasks.filterMap Task.outstanding?

/-- Between operations every outstanding order is in a queue. -/
@[simp] theorem outstanding_nil (book : Book) : book.outstanding [] = book.orders :=
  List.append_nil _

/-- A check holds no order. -/
@[simp] theorem outstanding_check (book : Book) (flow : Flow) (tasks : List Task) :
    book.outstanding (.check flow :: tasks) = book.outstanding tasks := rfl

/-- A task that trades an order holds it as long as it has something left. -/
theorem outstanding_trade_perm (book : Book) (order : Order) (tasks : List Task) :
    (book.outstanding (.trade order :: tasks)).Perm
      (order.outstanding?.toList ++ book.outstanding tasks) := by
  rw [List.perm_iff_count]
  intro other
  by_cases left : 0 < order.unfilled
  · simp only [outstanding, List.filterMap_cons, Task.outstanding?,
      Order.outstanding_of_left left, Option.toList_some, List.count_append, List.count_cons,
      List.count_nil]
    omega
  · simp only [outstanding, List.filterMap_cons, Task.outstanding?,
      Order.outstanding_of_spent (Int.not_lt.mp left), Option.toList_none, List.nil_append]

/-- The orders that rest for a flow, and all others. -/
theorem outstanding_resting_perm (book : Book) (flow : Flow) (tasks : List Task) :
    (book.outstanding tasks).Perm
      ((book.resting flow).orders ++ (book.withResting flow .empty).outstanding tasks) := by
  rw [List.perm_iff_count]
  intro order
  cases flow <;>
    simp only [outstanding, orders, resting, withResting, Queue.orders, Queue.empty,
      List.map_nil, List.count_append, List.count_nil] <;>
    omega

/-- The orders that are parked for a flow, and all others. -/
theorem outstanding_parked_perm (book : Book) (flow : Flow) (tasks : List Task) :
    (book.outstanding tasks).Perm
      ((book.parked flow).orders ++ (book.withParked flow .empty).outstanding tasks) := by
  rw [List.perm_iff_count]
  intro order
  cases flow <;>
    simp only [outstanding, orders, parked, withParked, Queue.orders, Queue.empty,
      List.map_nil, List.count_append, List.count_nil] <;>
    omega

/-- Of two changes to the parked orders of a flow, the later one counts. -/
@[simp] theorem with_parked_twice (book : Book) (flow : Flow)
    (first queue : Queue flow.parkingDirection) :
    (book.withParked flow first).withParked flow queue = book.withParked flow queue := by
  cases flow <;> rfl

/-- A book is the same with the resting orders that it has. -/
@[simp] theorem with_resting_self (book : Book) (flow : Flow) :
    book.withResting flow (book.resting flow) = book := by
  cases flow <;> rfl

/-- It is the same with the parked orders that it has. -/
@[simp] theorem with_parked_self (book : Book) (flow : Flow) :
    book.withParked flow (book.parked flow) = book := by
  cases flow <;> rfl

/-- A queue of resting orders that holds one more order than another. -/
theorem outstanding_with_resting (book : Book) {flow : Flow}
    {queue other : Queue flow.restingDirection} {order : Order}
    (more : queue.orders.Perm (order :: other.orders)) (tasks : List Task) :
    ((book.withResting flow queue).outstanding tasks).Perm
      (order :: (book.withResting flow other).outstanding tasks) := by
  have first := (book.withResting flow queue).outstanding_resting_perm flow tasks
  have second := (book.withResting flow other).outstanding_resting_perm flow tasks
  simp only [resting_with_resting, with_resting_twice] at first second
  exact first.trans ((more.append_right _).trans (second.symm.cons order))

/-- A queue of parked orders that holds one more order than another. -/
theorem outstanding_with_parked (book : Book) {flow : Flow}
    {queue other : Queue flow.parkingDirection} {order : Order}
    (more : queue.orders.Perm (order :: other.orders)) (tasks : List Task) :
    ((book.withParked flow queue).outstanding tasks).Perm
      (order :: (book.withParked flow other).outstanding tasks) := by
  have first := (book.withParked flow queue).outstanding_parked_perm flow tasks
  have second := (book.withParked flow other).outstanding_parked_perm flow tasks
  simp only [parked_with_parked, with_parked_twice] at first second
  exact first.trans ((more.append_right _).trans (second.symm.cons order))

section Absent

variable {book : Book} {order : Order} {tasks : List Task}

/-- An order that comes to rest joins the outstanding orders. -/
theorem outstanding_rest (absent : order.id ∉ (book.outstanding tasks).map (·.id)) :
    ((book.rest order).outstanding tasks).Perm (order :: book.outstanding tasks) := by
  have elsewhere : order.id ∉ (book.resting order.flow).orders.map (·.id) := by
    intro member
    have all := (book.outstanding_resting_perm order.flow tasks).map (·.id)
    have inside : order.id ∈ (book.outstanding tasks).map (·.id) := by
      rw [all.mem_iff]
      simp only [List.map_append, List.mem_append, member, true_or]
    exact absent inside
  have more := Queue.orders_insert_perm (book.resting order.flow) order.price elsewhere
  simpa only [rest, with_resting_self] using book.outstanding_with_resting more tasks

/-- An order that is parked joins the outstanding orders. -/
theorem outstanding_park (absent : order.id ∉ (book.outstanding tasks).map (·.id)) :
    ((book.withParked order.flow
      ((book.parked order.flow).insert order.stopPrice order)).outstanding tasks).Perm
        (order :: book.outstanding tasks) := by
  have elsewhere : order.id ∉ (book.parked order.flow).orders.map (·.id) := by
    intro member
    have all := (book.outstanding_parked_perm order.flow tasks).map (·.id)
    have inside : order.id ∈ (book.outstanding tasks).map (·.id) := by
      rw [all.mem_iff]
      simp only [List.map_append, List.mem_append, member, true_or]
    exact absent inside
  have more := Queue.orders_insert_perm (book.parked order.flow) order.stopPrice elsewhere
  simpa only [with_parked_self] using book.outstanding_with_parked more tasks

end Absent

section Named

variable {book next : Book} {flow : Flow} {id : OrderId} {old order : Order}

/-- An order that is taken out of a queue is outstanding no longer. -/
theorem Named.outstanding_without {gone : OrderId}
    (named : book.Named flow id old
      (fun queue => { queue with entries := Queue.without gone queue.entries }) next)
    (sound : book.Sound) (same : gone = id) (tasks : List Task) :
    (book.outstanding tasks).Perm (old :: next.outstanding tasks) := by
  subst same
  cases named with
  | resting found =>
    have more := (sound.resting flow).ordered.orders_perm found
    simpa only [with_resting_self] using book.outstanding_with_resting more tasks
  | parked found =>
    have more := (sound.parked flow).ordered.orders_perm found
    simpa only [with_parked_self] using book.outstanding_with_parked more tasks

/-- An order that takes the place of another with its identifier does so among the
outstanding orders. -/
theorem Named.outstanding_amended
    (named : book.Named flow id old (fun queue => queue.amended order .kept) next)
    (sound : book.Sound) (same : order.id = id) (tasks : List Task) :
    ∃ others, (book.outstanding tasks).Perm (old :: others) ∧
      (next.outstanding tasks).Perm (order :: others) := by
  subst same
  cases named with
  | resting found =>
    have before := (sound.resting flow).ordered.orders_perm found
    have after := (sound.resting flow).ordered.orders_amended_perm found
    exact ⟨_, by simpa only [with_resting_self] using book.outstanding_with_resting before tasks,
      book.outstanding_with_resting after tasks⟩
  | parked found =>
    have before := (sound.parked flow).ordered.orders_perm found
    have after := (sound.parked flow).ordered.orders_amended_perm found
    exact ⟨_, by simpa only [with_parked_self] using book.outstanding_with_parked before tasks,
      book.outstanding_with_parked after tasks⟩

/-- An order that keeps its place leaves the queues of resting orders ordered. -/
theorem Named.ordered_amended
    (named : book.Named flow id old (fun queue => queue.amended order .kept) next)
    (sound : book.Sound) (other : Flow) : (next.resting other).Ordered := by
  cases named with
  | resting found =>
    refine Flow.forall_of_contra (P := fun other => (Book.resting _ other).Ordered) flow ?_ ?_ other
    · rw [resting_with_resting]
      exact (sound.resting flow).ordered.amended order
    · rw [contra_with_resting]
      exact (sound.resting flow.contra).ordered
  | parked found =>
    rw [resting_with_parked]
    exact (sound.resting other).ordered

end Named

end Book

end Bourse
