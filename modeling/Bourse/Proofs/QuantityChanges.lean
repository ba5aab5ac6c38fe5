import Bourse.Proofs.Lifecycle
import Bourse.Proofs.StopReleases
import Bourse.Proofs.Uncrossed
import Bourse.Proofs.WholeTrades

/-!
# Changes of a quantity

A limit order that asks for another quantity at its own price keeps its place in the queue,
however it came to rest, unless it still has a stop price. A request for a limit order gives no
stop price, so that an order which has one changes its stop price with its quantity, and goes
to the back of its price.

Only an order that waited for its stop price can have one when it rests: `Accounts` says that
each of them was reported as released, and every outset and every move of a run keeps this. An
order that goes to the back does not trade on its way there, since the book that it left was
not crossed.
-/

namespace Bourse

namespace Order

/-- An order as it is after a request that changes its quantity and nothing else. -/
def requantified (order image : Order) : Order :=
  { order.renamed image with quantity := image.quantity, disclosed := image.disclosed }

/-- A request for the same limit order with another quantity changes the quantity, and takes
the stop price away. -/
theorem replaced_by_quantity {order image : Order} (limit : order.type = .limit)
    (day : order.timeInForce = .day) (asked : image.type = .limit)
    (stays : image.timeInForce = .day) (price : image.price = order.price)
    (unstopped : image.stopPrice = 0) :
    order.replacedBy image = { order.requantified image with stopPrice := 0 } := by
  simp only [replacedBy, requantified, renamed, asked, stays, price, unstopped, limit, day,
    reduceCtorEq, or_self, if_false]

/-- Such a request costs the place in the queue exactly if there is a stop price to take
away. -/
theorem priority_under_quantity {order image : Order} (limit : order.type = .limit)
    (asked : image.type = .limit) (price : image.price = order.price)
    (unstopped : image.stopPrice = 0) :
    order.priorityUnder image = if order.stopPrice = 0 then .kept else .lost := by
  by_cases stopless : order.stopPrice = 0
  · rw [if_pos stopless, priority_kept_iff]
    exact ⟨by rw [asked]; decide, by rw [asked]; decide, price.symm, limit.trans asked.symm,
      stopless.trans unstopped.symm⟩
  · rw [if_neg stopless]
    cases kept : order.priorityUnder image with
    | lost => rfl
    | kept =>
      obtain ⟨-, -, -, -, same⟩ := (priority_kept_iff ..).mp kept
      exact absurd (same.trans unstopped) stopless

/-- An order has no stop price, or it was reported as released. -/
def Accounted (sent : List Report) (order : Order) : Prop :=
  order.stopPrice ≠ 0 → Reported order.id .triggered sent

/-- An order that is accounted for is so after later reports. -/
theorem Accounted.append {sent : List Report} {order : Order} (accounted : order.Accounted sent)
    (later : List Report) : order.Accounted (sent ++ later) := by
  intro stopped
  obtain ⟨report, member, same⟩ := accounted stopped
  exact ⟨report, List.mem_append_left later member, same⟩

/-- What a release reports accounts for the order. -/
theorem accounted_of_report (sent : List Report) (order : Order) :
    order.Accounted (sent ++ [Report.of .triggered order ""]) :=
  fun _ => ⟨_, List.mem_append_right sent List.mem_cons_self, rfl, rfl⟩

end Order

/-- A request for no stop type gives no stop price. -/
theorem required_stop_price_unused {type : OrderType} {limit stop : Option Int}
    {price stopPrice : Int} (live : type.isStop = false)
    (named : requiredPrices type limit stop = .ok (price, stopPrice)) : stopPrice = 0 := by
  cases type with
  | market =>
    obtain ⟨-, rfl⟩ : 0 = price ∧ 0 = stopPrice := by simpa [requiredPrices] using named
    rfl
  | limit =>
    cases first : requiredPrice .price limit with
    | error error => simp [requiredPrices, first, bind, Except.bind] at named
    | ok found =>
      obtain ⟨-, rfl⟩ : found = price ∧ 0 = stopPrice := by
        simpa [requiredPrices, first, bind, Except.bind, pure, Except.pure] using named
      rfl
  | stop => contradiction
  | stopLimit => contradiction

namespace Book

/-- Every order that rests or is about to be traded is accounted for. -/
structure Accounts (book : Book) (tasks : List Task) (sent : List Report) : Prop where
  resting : ∀ flow, ∀ entry ∈ (book.resting flow).entries, entry.order.Accounted sent
  tasks : ∀ task ∈ tasks, ∀ order ∈ task.order?, order.Accounted sent

section Accounts

variable {book next : Book} {tasks later : List Task} {sent : List Report} {flow : Flow}

/-- Reports account for no fewer orders than before. -/
theorem Accounts.append (accounts : book.Accounts tasks sent) (reports : List Report) :
    book.Accounts tasks (sent ++ reports) where
  resting := fun flow entry member => (accounts.resting flow entry member).append reports
  tasks := fun task member order held => (accounts.tasks task member order held).append reports

/-- Fewer tasks may be left. -/
theorem Accounts.of_tasks (accounts : book.Accounts tasks sent)
    (fewer : ∀ task ∈ later, task ∈ tasks) : book.Accounts later sent where
  resting := accounts.resting
  tasks := fun task member => accounts.tasks task (fewer task member)

/-- An order that is accounted for may be about to be traded. -/
theorem Accounts.with_task (accounts : book.Accounts tasks sent) {order : Order}
    (accounted : order.Accounted sent) : book.Accounts (.trade order :: tasks) sent where
  resting := accounts.resting
  tasks := by
    refine List.forall_mem_cons.mpr ⟨?_, accounts.tasks⟩
    intro traded held
    obtain rfl := Option.some.inj held
    exact accounted

/-- Only the resting orders matter. -/
theorem Accounts.same (accounts : book.Accounts tasks sent)
    (resting : ∀ flow, next.resting flow = book.resting flow) : next.Accounts tasks sent where
  resting := fun flow => resting flow ▸ accounts.resting flow
  tasks := accounts.tasks

/-- The orders of another queue rested before, or are accounted for themselves. -/
theorem Accounts.with_resting (accounts : book.Accounts tasks sent)
    {queue : Queue flow.restingDirection}
    (known : ∀ entry ∈ queue.entries,
      entry ∈ (book.resting flow).entries ∨ entry.order.Accounted sent) :
    (book.withResting flow queue).Accounts tasks sent where
  resting := by
    refine Flow.forall_of_contra flow ?_ ?_
    · rw [resting_with_resting]
      intro entry member
      rcases known entry member with before | accounted
      · exact accounts.resting flow entry before
      · exact accounted
    · rw [contra_with_resting]
      exact accounts.resting flow.contra
  tasks := accounts.tasks

/-- An order comes to rest. -/
theorem Accounts.rest (accounts : book.Accounts tasks sent) {order : Order}
    (accounted : order.Accounted sent) : (book.rest order).Accounts tasks sent := by
  refine accounts.with_resting fun entry member => ?_
  rcases (Queue.mem_insert ..).mp member with rfl | ⟨before, -⟩
  · exact .inr accounted
  · exact .inl before

/-- An order may be taken out of its queue. -/
theorem Accounts.without (accounts : book.Accounts tasks sent) {id gone : OrderId} {old : Order}
    (named : book.Named flow id old
      (fun queue => { queue with entries := Queue.without gone queue.entries }) next) :
    next.Accounts tasks sent := by
  cases named with
  | resting found =>
    exact accounts.with_resting fun entry member => .inl (List.mem_of_mem_filter member)
  | parked found => exact accounts.same (resting_with_parked book flow · _)

/-- A replaced order that keeps its place keeps its stop price. -/
theorem Accounts.kept (accounts : book.Accounts tasks sent) (sound : book.Sound) {id : OrderId}
    {old image : Order} (kept : old.priorityUnder image = .kept)
    (named : book.Named flow id old
      (fun queue => queue.amended (old.replacedBy image) .kept) next) :
    next.Accounts tasks sent := by
  cases named with
  | resting found =>
    obtain ⟨-, ⟨place, there, rfl⟩, -⟩ := (sound.resting flow).ordered.get found
    refine accounts.with_resting fun entry member => ?_
    obtain ⟨before, present, rfl⟩ := List.mem_map.mp member
    split
    case isTrue =>
      right
      intro stopped
      exact accounts.resting flow place there ((Order.kept_attributes kept).2.2 ▸ stopped)
    case isFalse => exact .inl present
  | parked found => exact accounts.same (resting_with_parked book flow · _)

/-- A resting order that became immediate leaves. -/
theorem Accounts.dropped (accounts : book.Accounts tasks sent) (order : Order) :
    (book.dropImmediate order).1.Accounts tasks sent := by
  rcases book.drop_immediate_cases order with ⟨same, -⟩ | ⟨old, -, dropped, -⟩
  · rw [same]
    exact accounts
  · rw [dropped]
    exact accounts.with_resting fun entry member => .inl (List.mem_of_mem_filter member)

/-- After a trade both orders have the stop prices of before. -/
theorem Meets.accounts {taker : Order} {maker : Queue.Entry} {behind : List Queue.Entry}
    (meets : book.Meets taker maker behind)
    (accounts : book.Accounts (.trade taker :: tasks) sent) :
    (book.traded taker maker behind).Accounts (.check .buying ::
      .trade (taker.fill maker.order.price (tradedQuantity taker maker.order)) :: tasks) sent := by
  have first : maker ∈ (book.resting taker.flow.contra).entries :=
    meets.first ▸ List.mem_cons_self
  have makers := accounts.resting taker.flow.contra maker first
  obtain ⟨takers, others⟩ := List.forall_mem_cons.mp accounts.tasks
  have queue : (book.withResting taker.flow.contra { book.resting taker.flow.contra with
      entries := Queue.filledFirst maker behind maker.order.price
        (tradedQuantity taker maker.order) }).Accounts (.trade taker :: tasks) sent := by
    refine accounts.with_resting fun entry member => ?_
    simp only [Queue.filledFirst] at member
    split at member
    · exact .inl (meets.first ▸ List.mem_cons_of_mem maker member)
    · rcases List.mem_cons.mp member with rfl | member
      · exact .inr makers
      · exact .inl (meets.first ▸ List.mem_cons_of_mem maker member)
  constructor
  · intro flow
    rw [Book.traded, resting_with_record]
    exact queue.resting flow
  · refine List.forall_mem_cons.mpr ⟨by simp [Task.order?], List.forall_mem_cons.mpr ⟨?_, others⟩⟩
    intro order held
    obtain rfl := Option.some.inj held
    exact takers taker rfl

/-- What is left of an order leaves a book that is accounted for. -/
theorem Accounts.settled {order : Order} (accounts : book.Accounts (.trade order :: tasks) sent) :
    (book.restRemainder order).1.Accounts tasks sent := by
  have others : book.Accounts tasks sent :=
    accounts.of_tasks fun task => List.mem_cons_of_mem (Task.trade order)
  have accounted : order.Accounted sent := accounts.tasks _ List.mem_cons_self order rfl
  have settles := book.settles order
  generalize book.restRemainder order = settled at settles ⊢
  cases settles with
  | expired immediate => exact others
  | unpriced day market untraded => exact others
  | restated day market priced => exact others.rest accounted
  | rested day limited => exact others.rest accounted

/-- Every move accounts for the orders that it leaves. -/
theorem Move.accounts {reports : List Report} (move : book.Move tasks next later reports)
    (accounts : book.Accounts tasks sent) : next.Accounts later (sent ++ reports) := by
  cases move with
  | trade traded =>
    obtain ⟨maker, behind, meets, rfl, rfl, rfl⟩ := (trade_once_iff ..).mp traded
    exact (meets.accounts accounts).append _
  | settle stuck left => exact accounts.settled.append _
  | finish stuck spent =>
    exact (accounts.of_tasks fun task => List.mem_cons_of_mem _).append _
  | @release _ side _ _ rest released =>
    obtain ⟨entry, behind, releases, rfl, rfl⟩ := releases_of_release released
    have others : (book.released side behind).Accounts (.check side :: rest) sent :=
      ⟨(accounts.same (resting_with_parked book side · _)).resting,
        List.forall_mem_cons.mpr
          ⟨by simp [Task.order?], (List.forall_mem_cons.mp accounts.tasks).2⟩⟩
    exact (others.append _).with_task (Order.accounted_of_report sent entry.order.trigger)
  | pass unreached =>
    exact (accounts.of_tasks fun task => List.mem_cons_of_mem _).append _

/-- An order without a stop price, unless its type waits for one, is traded or parked. -/
theorem Routes.accounts {order : Order} {outset : Outset} (routes : book.Routes order outset)
    (accounts : book.Accounts [] sent)
    (stopless : order.type.isStop = false → order.stopPrice = 0) :
    outset.book.Accounts outset.tasks (sent ++ outset.reports) := by
  cases routes with
  | live live =>
    exact (accounts.with_task fun stopped => absurd (stopless live) stopped).append _
  | reached waits traded reached =>
    exact (accounts.append _).with_task (Order.accounted_of_report sent order.trigger)
  | parked waits unreached =>
    exact (accounts.same (resting_with_parked book order.flow · _)).append _

/-- Every operation accounts for the orders that it leaves at once. -/
theorem Opens.accounts {operation : Operation} {outset : Outset}
    (opens : book.Opens operation outset) (sound : book.Sound) (accounts : book.Accounts [] sent) :
    outset.book.Accounts outset.tasks (sent ++ outset.reports) := by
  cases opens with
  | absent => exact accounts.append _
  | refused kind image reason rejects => exact accounts.append _
  | @insert _ _ order _ built active positive routes =>
    obtain ⟨prices, -, -, type, -⟩ := Order.new_ok built
    have routed := routes.accounts (accounts.append [Report.of .new order ""])
      fun live => required_stop_price_unused (type ▸ live) prices
    rw [List.append_assoc] at routed
    exact routed
  | @requeue _ image _ _ _ built active amended routes =>
    obtain ⟨old, above, rfl, lost, named⟩ := amend_ok amended
    obtain ⟨prices, -, -, type, -⟩ := Order.replacement_ok built
    have left := (accounts.without named).append [Report.of .replaced (old.replacedBy image) ""]
    have routed := routes.accounts left
      fun live => required_stop_price_unused (type ▸ live) prices
    rw [List.append_assoc] at routed
    exact routed
  | keep built active amended stays =>
    obtain ⟨old, above, rfl, kept, named⟩ := amend_ok amended
    exact (accounts.kept sound kept.symm named).append _
  | expire built active amended immediate =>
    obtain ⟨old, above, rfl, kept, named⟩ := amend_ok amended
    exact ((accounts.kept sound kept.symm named).dropped _).append _
  | cancel withdrawn =>
    obtain ⟨old, rfl, named⟩ := withdraw_ok withdrawn
    exact (accounts.without named).append _
  | start => exact (accounts.same fun flow => by cases flow <;> rfl).append _
  | stop =>
    refine Accounts.append ⟨fun flow => ?_, accounts.tasks⟩ _
    cases flow <;> simp [Book.stop, Outset.settled, resting, Queue.cleared]
  | publish => exact (accounts.same fun flow => by cases flow <;> rfl).append _

/-- In every book that a run reaches, the orders that rest are accounted for. -/
theorem run_accounts (first : Order) (operations : List Operation) :
    ((ofFirst first).performAll operations).1.Accounts []
      ((ofFirst first).performAll operations).2 := by
  have kept := sound_run_keeps (P := Accounts)
    (fun opens sound accounts => opens.accounts sound accounts)
    (fun move _ _ accounts => move.accounts accounts)
    (fun changes accounts => accounts.same (resting_marked _ · _))
    first operations ⟨fun flow => by cases flow <;> simp [ofFirst, resting, Queue.empty], by simp⟩
  exact kept.2

end Accounts

section Requeued

variable {book : Book} {order : Order}

/-- An order that stays clear of the other flow finds nothing to trade with. -/
theorem stuck_of_clear (limited : order.type ≠ .market)
    (clear : ∀ other ∈ (book.resting order.flow.contra).entries,
      order.flow.Clear order.price other.order.price) : book.tradeOnce order = none := by
  cases traded : book.tradeOnce order with
  | none => rfl
  | some result =>
    obtain ⟨maker, behind, meets, -⟩ := (trade_once_iff ..).mp traded
    have first : maker ∈ (book.resting order.flow.contra).entries :=
      meets.first ▸ List.mem_cons_self
    have refused := (refuses_iff_clear ..).mpr ⟨limited, clear maker first⟩
    rw [meets.accepted] at refused
    contradiction

/-- A limit order for the day that stays clear of the other flow comes to rest at once. -/
theorem execute_clear (limit : order.type = .limit) (day : order.timeInForce = .day)
    (left : 0 < order.unfilled)
    (clear : ∀ other ∈ (book.resting order.flow.contra).entries,
      order.flow.Clear order.price other.order.price) :
    book.execute order = (book.rest order, []) := by
  have limited : order.type ≠ .market := by simp [limit]
  rw [execute_stuck (stuck_of_clear limited clear), if_pos left, restRemainder,
    if_neg (by simp [day]), if_neg limited]

end Requeued

section Replaced

variable {book : Book} {image order : Order}

/-- The book with a changed order in the place of one that rests. -/
def withInPlace (book : Book) (flow : Flow) (order : Order) : Book :=
  let queue := book.resting flow
  { book.withResting flow { queue with entries := Queue.withOrder order queue.entries } with
    hasChanged := true }

/-- The book with a changed order taken out of its place and put behind all that are no worse. -/
def withAtBack (book : Book) (flow : Flow) (order : Order) : Book :=
  let queue := book.resting flow
  let entry : Queue.Entry := ⟨order.price, queue.nextArrival, order⟩
  let others := Queue.without order.id queue.entries
  { book.withResting flow
      { entries := Queue.joined flow.restingDirection entry others
        nextArrival := queue.nextArrival + 1 } with
    hasChanged := true }

/-- An order comes to rest behind all others that are no worse. -/
theorem rest_at_back (sound : book.Sound) :
    ({ book.rest order with hasChanged := true } : Book) = book.withAtBack order.flow order := by
  have queue := (sound.resting order.flow).ordered.insert_entries order.price order
  have entries : (book.resting order.flow).insert order.price order =
      { entries := Queue.joined order.flow.restingDirection
          ⟨order.price, (book.resting order.flow).nextArrival, order⟩
          (Queue.without order.id (book.resting order.flow).entries)
        nextArrival := (book.resting order.flow).nextArrival + 1 } := by
    rw [← queue]
    rfl
  rw [rest, entries, withAtBack]

/-- An order that was taken out of its queue rests as if it were still there. -/
theorem rest_after_without (book : Book) (order : Order) :
    (book.withResting order.flow ((book.resting order.flow).amended order .lost)).rest order =
      book.rest order := by
  have again := (book.resting order.flow).insert_after_without order.price order
  rw [rest, resting_with_resting, with_resting_twice, rest]
  exact congrArg _ again

/-- A resting order is replaced where it is. -/
theorem amend_resting (found : (book.resting image.flow).get? image.id = some order)
    (above : order.filled < image.quantity) :
    book.amend image = .ok (order.replacedBy image, order.priorityUnder image,
      book.withResting image.flow ((book.resting image.flow).amended (order.replacedBy image)
        (order.priorityUnder image))) := by
  have amended := (Queue.amend_ok_iff ..).mpr ⟨order, found, above, rfl, rfl, rfl⟩
  simp only [amend, amended]

/-- A replacement that keeps the place of a resting order, for the day. -/
theorem replace_in_place (active : book.isActive = true)
    (found : (book.resting image.flow).get? image.id = some order)
    (above : order.filled < image.quantity) (kept : order.priorityUnder image = .kept)
    (stays : image.timeInForce = .day) :
    book.replace image = (book.withInPlace image.flow (order.replacedBy image),
      [Report.of .replaced (order.replacedBy image) ""]) := by
  have amended := amend_resting found above
  have day : (order.replacedBy image).timeInForce ≠ .immediateOrCancel := by
    change image.timeInForce ≠ .immediateOrCancel
    simp [stays]
  rw [kept] at amended
  simp only [replace, active, amended, settleReplaced, if_neg day, Bool.not_true,
    Bool.false_eq_true, if_false]
  rfl

/-- A replacement that costs a limit order its place, and leaves its price alone, in a book that is
not crossed: the order goes to the back of its price without a trade. -/
theorem replace_at_back (sound : book.Sound) (apart : book.Apart) (active : book.isActive = true)
    (found : (book.resting image.flow).get? image.id = some order)
    (above : order.filled < image.quantity) (lost : order.priorityUnder image = .lost)
    (limit : image.type = .limit) (stays : image.timeInForce = .day)
    (price : image.price = order.price) :
    book.replace image = (book.withAtBack image.flow (order.replacedBy image),
      [Report.of .replaced (order.replacedBy image) ""]) := by
  have amended := amend_resting found above
  obtain ⟨named, ⟨entry, member, rfl⟩, -⟩ := (sound.resting image.flow).ordered.get found
  have rests := (sound.resting image.flow).lawful entry member
  generalize moved : entry.order.replacedBy image = changed at amended ⊢
  have side : changed.flow = image.flow := moved ▸ rests.side
  have same : changed.id = image.id := moved ▸ named
  have own : changed.price = entry.order.price := by
    rw [← moved, Order.replacedBy, limit]
    simp [price]
  have limited : changed.type = .limit := moved ▸ limit
  have left : 0 < changed.unfilled := moved ▸ Order.unfilled_replaced above
  have clear : ∀ other ∈ (book.resting changed.flow.contra).entries,
      changed.flow.Clear changed.price other.order.price := by
    rw [side, own]
    exact (apart_iff book image.flow).mp apart entry member
  rw [← side, lost] at amended
  rw [← side]
  have live : changed.type.isStop = false := by
    rw [limited]
    rfl
  have executed : (book.withResting changed.flow
      ((book.resting changed.flow).amended changed .lost)).execute changed =
        (book.rest changed, []) := by
    rw [execute_clear limited (moved ▸ stays) left (by rwa [contra_with_resting]),
      rest_after_without]
  rw [← rest_at_back sound]
  simp only [replace, active, amended, settleReplaced, route, live, executed, Bool.not_true,
    Bool.false_eq_true, if_false]

end Replaced

/-- In every book that a run reaches, a request for a limit order at the price of a resting order,
for the day and for more than is filled, changes the quantities and the names of the order and
leaves it in its place, and the book is otherwise as it was, provided that the order has no stop
price. One that has a stop price was released before; it loses the stop price, and it goes to
the back of its price, without a trade. -/
theorem quantity_change_keeps_place (first : Order) (operations : List Operation) {book : Book}
    {sent : List Report} (reached : (ofFirst first).performAll operations = (book, sent))
    (active : book.isActive = true) {request : Replacement} {image order : Order}
    (built : Order.ofReplacement request = .ok image) (limit : image.type = .limit)
    (stays : image.timeInForce = .day)
    (found : (book.resting image.flow).get? image.id = some order)
    (price : image.price = order.price) (above : order.filled < image.quantity) :
    let changed := order.requantified image
    let unstopped := { changed with stopPrice := 0 }
    (order.stopPrice = 0 →
      book.replace image = (book.withInPlace image.flow changed,
        [Report.of .replaced changed ""]) ∧
      ((book.replace image).1.resting image.flow).ids = (book.resting image.flow).ids) ∧
    (order.stopPrice ≠ 0 →
      book.replace image = (book.withAtBack image.flow unstopped,
        [Report.of .replaced unstopped ""]) ∧
      Reported order.id .triggered sent) := by
  intro changed unstopped
  obtain rfl : ((ofFirst first).performAll operations).1 = book := congrArg Prod.fst reached
  obtain rfl : ((ofFirst first).performAll operations).2 = sent := congrArg Prod.snd reached
  have sound := run_sound first operations
  have apart := run_apart first operations
  have accounts := run_accounts first operations
  obtain ⟨named, ⟨entry, member, own⟩, -⟩ := (sound.resting image.flow).ordered.get found
  have rests : order.Rests image.flow := own ▸ (sound.resting image.flow).lawful entry member
  have unasked : image.stopPrice = 0 := by
    obtain ⟨prices, -, -, type, -⟩ := Order.replacement_ok built
    exact required_stop_price_unused (by rw [← type, limit]; rfl) prices
  have replaced : order.replacedBy image = unstopped :=
    Order.replaced_by_quantity rests.limit rests.day limit stays price unasked
  have priority := Order.priority_under_quantity rests.limit limit price unasked
  constructor
  · intro stopless
    have same : unstopped = changed := by
      simp only [unstopped, ← stopless]
      rfl
    rw [if_pos stopless] at priority
    have kept := replace_in_place active found above priority stays
    rw [replaced, same] at kept
    refine ⟨kept, ?_⟩
    rw [kept, withInPlace, resting_marked, resting_with_resting]
    exact Queue.ids_with_order ..
  · intro stopped
    rw [if_neg stopped] at priority
    have moved := replace_at_back sound apart active found above priority limit stays price
    rw [replaced] at moved
    have accounted := own ▸ accounts.resting image.flow entry member
    exact ⟨moved, accounted stopped⟩

/-- Three purchases that rest at fifty-eight: the first was parked until a trade at sixty released
it, the second asked for that price, and so did the third. -/
def releasedDay : List Operation :=
  let enter id side price quantity : Operation :=
    .insert ⟨id⟩ ⟨"X", "a", "", side, .limit, quantity, some price, none, .day, none⟩
  [.insert ⟨1⟩ ⟨"X", "a", "", .buy, .stopLimit, 10, some 58, some 60, .day, none⟩,
    enter 2 .sell 60 1, enter 3 .buy 60 1, enter 4 .buy 58 10, enter 5 .buy 58 10]

/-- A request for twenty at fifty-eight. -/
def twentyAt (id : OrderId) : Replacement :=
  ⟨id, "a", "X", "b", "", .buy, .limit, 20, 0, some 58, none, .day, none⟩

/-- The second purchase keeps its place between the two others. The first one, which was released,
goes to the back. -/
theorem released_day_quantities :
    let run := (ofFirst default).performAll releasedDay
    let image id := (Order.ofReplacement (twentyAt id)).toOption.getD default
    run.1.buys.ids = [⟨1⟩, ⟨4⟩, ⟨5⟩] ∧
      (run.1.replace (image ⟨4⟩)).1.buys.ids = [⟨1⟩, ⟨4⟩, ⟨5⟩] ∧
      (run.1.replace (image ⟨1⟩)).1.buys.ids = [⟨4⟩, ⟨5⟩, ⟨1⟩] ∧
      Reported ⟨1⟩ .triggered run.2 := by
  intro run image
  let resting (id : OrderId) := (run.1.buys.get? id).getD default
  have change (id : OrderId) (built : Order.ofReplacement (twentyAt id) = .ok (image id))
      (found : (run.1.resting (image id).flow).get? (image id).id = some (resting id)) :=
    quantity_change_keeps_place default releasedDay (rfl : _ = (run.1, run.2)) (by decide) built
      rfl rfl found
  have ids : run.1.buys.ids = [⟨1⟩, ⟨4⟩, ⟨5⟩] := by decide
  obtain ⟨kept, -⟩ := change ⟨4⟩ (by rfl) (by decide) (by decide) (by decide)
  obtain ⟨-, moved⟩ := change ⟨1⟩ (by rfl) (by decide) (by decide) (by decide)
  obtain ⟨back, triggered⟩ := moved (by decide)
  refine ⟨ids, (kept (by decide)).2.trans ids, ?_, triggered⟩
  rw [back]
  decide

/-- The first purchase asks for a limit order at its own price and for more than is filled, and
does not keep its place. -/
theorem released_order_loses_place :
    let book := ((ofFirst default).performAll releasedDay).1
    let image := (Order.ofReplacement (twentyAt ⟨1⟩)).toOption.getD default
    let order := (book.buys.get? ⟨1⟩).getD default
    Order.ofReplacement (twentyAt ⟨1⟩) = .ok image ∧ book.isActive = true ∧
      image.flow = .buying ∧ image.type = .limit ∧ image.timeInForce = .day ∧
      book.buys.get? image.id = some order ∧ image.price = order.price ∧
      order.filled < image.quantity ∧ (book.replace image).1.buys.ids ≠ book.buys.ids := by
  decide

end Book

end Bourse
