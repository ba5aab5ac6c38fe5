import Bourse.Proofs.Requests
import Bourse.Proofs.Runs

/-!
# Sound books

What rests in a book are limit orders for the day, each on the side of its flow and
under its own price; what is parked are stop orders under their own stop price. Every
one of them has something left to fill. A book that begins empty stays so through every
operation and in the middle of every execution, where orders that are being traded are
in no queue at all: `sound_run_keeps`.

A replacement is the only thing that changes an order where it stands. It keeps the
place of an order only if it keeps the price that the order is queued under, and an
order that it makes immediate leaves at once.
-/

namespace Bourse

namespace Order

/-- An order that rests in the queue of a flow. -/
structure Rests (flow : Flow) (order : Order) : Prop where
  side : order.flow = flow
  limit : order.type = .limit
  day : order.timeInForce = .day
  sound : order.Sound
  left : 0 < order.unfilled

/-- A stop order that is parked in the queue of a flow. -/
structure Waits (flow : Flow) (order : Order) : Prop where
  side : order.flow = flow
  stop : order.type.isStop = true
  sound : order.Sound
  left : 0 < order.unfilled

/-- An order that is being traded. -/
structure Trades (order : Order) : Prop where
  live : order.type.isStop = false
  sound : order.Sound

/-- The price of a resting order is one that a request may give. -/
theorem Rests.price {flow : Flow} {order : Order} (rests : order.Rests flow) :
    PriceAllowed order.price :=
  rests.sound.price (by rw [rests.limit]; rfl)

/-- An order that keeps its place keeps what it is queued under. -/
theorem kept_attributes {order image : Order} (kept : order.priorityUnder image = .kept) :
    (order.replacedBy image).price = order.price ∧ (order.replacedBy image).type = order.type ∧
      (order.replacedBy image).stopPrice = order.stopPrice := by
  obtain ⟨market, stop, price, type, stopPrice⟩ := (priority_kept_iff ..).mp kept
  refine ⟨?_, type.symm, stopPrice.symm⟩
  simp only [replacedBy, if_neg (not_or.mpr ⟨market, stop⟩), price]

/-- A replaced order has something left, since the replacement asks for more than is
filled. -/
theorem unfilled_replaced {order image : Order} (above : order.filled < image.quantity) :
    0 < (order.replacedBy image).unfilled := by
  simp only [unfilled, replacedBy, renamed]
  omega

end Order

/-- Whether the order of a task may be traded. -/
def Task.Sound : Task → Prop
  | .trade order => order.Trades
  | .check _ => True

namespace Book

/-- The queues of a book keep what belongs in them, and its last price is that of a
trade. -/
structure Sound (book : Book) : Prop where
  resting : ∀ flow, (book.resting flow).Keeps Order.price (Order.Rests flow)
  parked : ∀ flow, (book.parked flow).Keeps Order.stopPrice (Order.Waits flow)
  counted : 0 ≤ book.record.trades
  priced : book.record.hasTraded = true → PriceAllowed book.record.lastPrice
  unpriced : book.record.hasTraded = false → book.record.lastPrice = 0

/-- A new book is sound. -/
theorem sound_of_first (first : Order) : (ofFirst first).Sound where
  resting := by
    intro flow
    cases flow <;> exact Queue.keeps_empty
  parked := by
    intro flow
    cases flow <;> exact Queue.keeps_empty
  counted := Int.le_refl 0
  priced := by
    intro traded
    simp [ofFirst, Record.seeded, Record.blank, Record.hasTraded] at traded
  unpriced := fun _ => rfl

/-- Only the queues, the number of trades and the last price matter. -/
theorem Sound.same {book other : Book} (sound : book.Sound)
    (resting : ∀ flow, other.resting flow = book.resting flow)
    (parked : ∀ flow, other.parked flow = book.parked flow)
    (trades : other.record.trades = book.record.trades)
    (lastPrice : other.record.lastPrice = book.record.lastPrice) : other.Sound where
  resting := fun flow => resting flow ▸ sound.resting flow
  parked := fun flow => parked flow ▸ sound.parked flow
  counted := trades ▸ sound.counted
  priced := by
    simpa only [Record.hasTraded, trades, lastPrice] using sound.priced
  unpriced := by
    simpa only [Record.hasTraded, trades, lastPrice] using sound.unpriced

/-- It stays so when it is marked. -/
theorem Sound.marked {book : Book} (sound : book.Sound) (changes : Bool) :
    (Outset.marked changes book).Sound :=
  sound.same (resting_marked book · _) (parked_marked book · _) rfl rfl

/-- It stays so with resting orders that are in their places. -/
theorem Sound.with_resting {book : Book} (sound : book.Sound) {flow : Flow}
    {queue : Queue flow.restingDirection} (keeps : queue.Keeps Order.price (Order.Rests flow)) :
    (book.withResting flow queue).Sound where
  resting := Flow.forall_of_contra flow (by simpa only [resting_with_resting] using keeps)
    (by simpa only [contra_with_resting] using sound.resting flow.contra)
  parked := fun other => by simpa only [parked_with_resting] using sound.parked other
  counted := by simpa only [record_with_resting] using sound.counted
  priced := by simpa only [record_with_resting] using sound.priced
  unpriced := by simpa only [record_with_resting] using sound.unpriced

/-- It stays so with parked orders that are in their places. -/
theorem Sound.with_parked {book : Book} (sound : book.Sound) {flow : Flow}
    {queue : Queue flow.parkingDirection}
    (keeps : queue.Keeps Order.stopPrice (Order.Waits flow)) :
    (book.withParked flow queue).Sound where
  resting := fun other => by simpa only [resting_with_parked] using sound.resting other
  parked := Flow.forall_of_contra flow (by simpa only [parked_with_parked] using keeps)
    (by simpa only [contra_with_parked] using sound.parked flow.contra)
  counted := by simpa only [record_with_parked] using sound.counted
  priced := by simpa only [record_with_parked] using sound.priced
  unpriced := by simpa only [record_with_parked] using sound.unpriced

/-- After a trade there has been one. -/
theorem has_traded_trade {record : Record} (counted : 0 ≤ record.trades) (price quantity : Int) :
    (record.trade price quantity).hasTraded = true := by
  have more : 0 < record.trades + 1 := by omega
  exact decide_eq_true more

/-- A trade at an allowed price leaves a sound record. -/
theorem Sound.with_trade {book : Book} (sound : book.Sound) {price : Int}
    (allowed : PriceAllowed price) (quantity : Int) :
    ({ book with record := book.record.trade price quantity } : Book).Sound where
  resting := fun flow => by simpa only [resting_with_record] using sound.resting flow
  parked := fun flow => by simpa only [parked_with_record] using sound.parked flow
  counted := by
    have := sound.counted
    simp only [Record.trade]
    omega
  priced := fun _ => allowed
  unpriced := by
    intro untraded
    rw [has_traded_trade sound.counted] at untraded
    contradiction

/-- The order that rested in a sound book, before a trade and after it. It leaves the queue when
it has nothing left. -/
theorem Meets.maker_sound {book : Book} (sound : book.Sound) {taker : Order}
    {maker : Queue.Entry} {behind : List Queue.Entry} (meets : book.Meets taker maker behind) :
    maker.order.Rests taker.flow.contra ∧
      (maker.order.fill maker.order.price (tradedQuantity taker maker.order)).Sound := by
  obtain ⟨positive, -, ofMaker⟩ := meets.bounded
  have rests := (sound.resting taker.flow.contra).lawful maker
    (meets.first ▸ List.mem_cons_self)
  exact ⟨rests, rests.sound.fill rests.price positive ofMaker⟩

/-- Both orders of a trade in a sound book, after it. The one that is traded may have
nothing left. -/
theorem Meets.orders {book : Book} (sound : book.Sound) {taker : Order} (trades : taker.Trades)
    {maker : Queue.Entry} {behind : List Queue.Entry} (meets : book.Meets taker maker behind) :
    maker.order.Rests taker.flow.contra ∧
      (taker.fill maker.order.price (tradedQuantity taker maker.order)).Trades ∧
      (maker.order.fill maker.order.price (tradedQuantity taker maker.order)).Sound := by
  obtain ⟨positive, ofTaker, -⟩ := meets.bounded
  obtain ⟨rests, filled⟩ := meets.maker_sound sound
  exact ⟨rests, ⟨trades.live, trades.sound.fill rests.price positive ofTaker⟩, filled⟩

/-- It stays so after a trade. -/
theorem Sound.traded {book : Book} (sound : book.Sound) {taker : Order} {maker : Queue.Entry}
    {behind : List Queue.Entry} (meets : book.Meets taker maker behind) :
    (book.traded taker maker behind).Sound := by
  obtain ⟨rests, filled⟩ := meets.maker_sound sound
  obtain ⟨positive, -, ofMaker⟩ := meets.bounded
  have left := maker.order.unfilled_fill maker.order.price _ ofMaker
  have shown := (maker.order.fill maker.order.price
    (tradedQuantity taker maker.order)).pending_pos_iff
  have gone := (maker.order.fill maker.order.price
    (tradedQuantity taker maker.order)).pending_eq_zero_iff
  have after (some : 0 < (maker.order.fill maker.order.price
      (tradedQuantity taker maker.order)).pending) :
      (maker.order.fill maker.order.price (tradedQuantity taker maker.order)).Rests
        taker.flow.contra :=
    ⟨rests.side, rests.limit, rests.day, filled, shown.mp some⟩
  have queue := (sound.resting taker.flow.contra).filled_first meets.first rfl after (by omega)
  simpa only [Book.traded, record_with_resting] using
    (sound.with_resting queue).with_trade rests.price (tradedQuantity taker maker.order)

/-- A limit order for the day comes to rest. -/
theorem Sound.rest {book : Book} (sound : book.Sound) {order : Order}
    (rests : order.Rests order.flow) : (book.rest order).Sound :=
  sound.with_resting ((sound.resting order.flow).insert rests)

/-- What is left of an order is settled: it comes to rest only as a limit order for the
day, at the last price if it had no limit. -/
theorem Sound.settled {book : Book} (sound : book.Sound) {order : Order} (trades : order.Trades)
    (left : 0 < order.unfilled) : (book.restRemainder order).1.Sound := by
  have settles := book.settles order
  generalize book.restRemainder order = settled at settles ⊢
  cases settles with
  | expired immediate => exact sound
  | unpriced day market untraded => exact sound
  | restated day market priced =>
    have allowed : PriceAllowed book.record.lastPrice := by
      cases traded : book.record.hasTraded with
      | true => exact sound.priced traded
      | false => exact absurd (sound.unpriced traded) (by omega)
    exact sound.rest ⟨rfl, rfl, day, trades.sound.limited allowed, left⟩
  | rested day limited =>
    have limit : order.type = .limit := by
      have live := trades.live
      cases type : order.type <;> simp_all [OrderType.isStop]
    exact sound.rest ⟨rfl, limit, day, trades.sound, left⟩

/-- The first parked order of a flow becomes live, and the others stay parked. -/
theorem Sound.released {book : Book} (sound : book.Sound) {flow : Flow} {entry : Queue.Entry}
    {behind : List Queue.Entry} (releases : book.Releases flow entry behind) :
    (book.released flow behind).Sound ∧ entry.order.trigger.Trades := by
  have waits := (sound.parked flow).lawful entry (releases.first ▸ List.mem_cons_self)
  refine ⟨sound.with_parked ((sound.parked flow).sublist ?_),
    entry.order.trigger_not_stop, waits.sound.trigger⟩
  exact releases.first ▸ List.sublist_cons_self entry behind

/-- Every move leaves a sound book and tasks whose orders may be traded. -/
theorem Move.sound {book next : Book} {tasks later : List Task} {reports : List Report}
    (move : book.Move tasks next later reports) (sound : book.Sound)
    (ready : ∀ task ∈ tasks, task.Sound) : next.Sound ∧ ∀ task ∈ later, task.Sound := by
  cases move with
  | trade traded =>
    obtain ⟨maker, behind, meets, rfl, rfl, rfl⟩ := (trade_once_iff ..).mp traded
    obtain ⟨trades, others⟩ := List.forall_mem_cons.mp ready
    refine ⟨sound.traded meets, ?_⟩
    exact List.forall_mem_cons.mpr
      ⟨trivial, List.forall_mem_cons.mpr ⟨(meets.orders sound trades).2.1, others⟩⟩
  | settle stuck left =>
    obtain ⟨trades, others⟩ := List.forall_mem_cons.mp ready
    exact ⟨sound.settled trades left, others⟩
  | finish stuck spent => exact ⟨sound, (List.forall_mem_cons.mp ready).2⟩
  | release released =>
    obtain ⟨entry, behind, releases, rfl, rfl⟩ := releases_of_release released
    obtain ⟨kept, trades⟩ := sound.released releases
    obtain ⟨check, others⟩ := List.forall_mem_cons.mp ready
    exact ⟨kept, List.forall_mem_cons.mpr ⟨trades, List.forall_mem_cons.mpr ⟨check, others⟩⟩⟩
  | pass unreached => exact ⟨sound, (List.forall_mem_cons.mp ready).2⟩

/-- A new order, or one that a replacement took out of its queue, is traded or parked. -/
theorem Routes.sound {book : Book} {order : Order} {outset : Outset}
    (routes : book.Routes order outset) (sound : book.Sound) (own : order.Sound)
    (left : 0 < order.unfilled) : outset.book.Sound ∧ ∀ task ∈ outset.tasks, task.Sound := by
  cases routes with
  | live live => exact ⟨sound, List.forall_mem_singleton.mpr ⟨live, own⟩⟩
  | reached waits traded reached =>
    exact ⟨sound, List.forall_mem_singleton.mpr ⟨order.trigger_not_stop, own.trigger⟩⟩
  | parked waits unreached =>
    have parked : order.Waits order.flow := ⟨rfl, waits, own, left⟩
    exact ⟨sound.with_parked ((sound.parked order.flow).insert parked),
      by simp [Outset.settled]⟩

/-- Orders that are taken out of a queue leave a sound book. -/
theorem Named.sound_without {book next : Book} {flow : Flow} {id gone : OrderId} {old : Order}
    (named : book.Named flow id old
      (fun queue => { queue with entries := Queue.without gone queue.entries }) next)
    (sound : book.Sound) : next.Sound := by
  cases named with
  | resting found => exact sound.with_resting ((sound.resting flow).sublist List.filter_sublist)
  | parked found => exact sound.with_parked ((sound.parked flow).sublist List.filter_sublist)

/-- Where an order is found, it is sound and has something left. -/
theorem Named.order_sound {book next : Book} {flow : Flow} {id : OrderId} {old : Order}
    {change : {direction : Direction} → Queue direction → Queue direction}
    (named : book.Named flow id old change next) (sound : book.Sound) :
    old.Sound ∧ old.id = id ∧ old.flow = flow := by
  cases named with
  | resting found =>
    obtain ⟨same, ⟨entry, member, rfl⟩, -⟩ := (sound.resting flow).ordered.get found
    have rests := (sound.resting flow).lawful entry member
    exact ⟨rests.sound, same, rests.side⟩
  | parked found =>
    obtain ⟨same, ⟨entry, member, rfl⟩, -⟩ := (sound.parked flow).ordered.get found
    have waits := (sound.parked flow).lawful entry member
    exact ⟨waits.sound, same, waits.side⟩

/-- No order but one that rests is dropped as immediate, and the others stay. -/
theorem Sound.dropped {book : Book} (sound : book.Sound) (order : Order) :
    (book.dropImmediate order).1.Sound := by
  rcases book.drop_immediate_cases order with ⟨same, -⟩ | ⟨old, -, dropped, -⟩
  · rw [same]
    exact sound
  · rw [dropped]
    exact sound.with_resting ((sound.resting order.flow).sublist List.filter_sublist)

section Kept

variable {book next : Book} {flow : Flow} {id : OrderId} {old image : Order}

/-- A replaced order that keeps its place among the parked ones. -/
theorem Sound.kept_parked (sound : book.Sound)
    (found : (book.parked flow).get? id = some old) (asked : image.Image)
    (above : old.filled < image.quantity) (kept : old.priorityUnder image = .kept) :
    (book.withParked flow ((book.parked flow).amended (old.replacedBy image) .kept)).Sound := by
  obtain ⟨rfl, ⟨entry, member, rfl⟩, -⟩ := (sound.parked flow).ordered.get found
  have waits := (sound.parked flow).lawful entry member
  obtain ⟨-, type, stopPrice⟩ := Order.kept_attributes kept
  have changed : (entry.order.replacedBy image).Waits flow :=
    ⟨waits.side, by rw [type]; exact waits.stop, waits.sound.replaced asked above,
      Order.unfilled_replaced above⟩
  exact sound.with_parked ((sound.parked flow).with_order found stopPrice changed)

/-- A replaced order that keeps its place among the resting ones, and stays for the
day. -/
theorem Sound.kept_resting (sound : book.Sound)
    (found : (book.resting flow).get? id = some old) (asked : image.Image)
    (above : old.filled < image.quantity) (kept : old.priorityUnder image = .kept)
    (stays : image.timeInForce = .day) :
    (book.withResting flow ((book.resting flow).amended (old.replacedBy image) .kept)).Sound := by
  obtain ⟨rfl, ⟨entry, member, rfl⟩, -⟩ := (sound.resting flow).ordered.get found
  have rests := (sound.resting flow).lawful entry member
  obtain ⟨price, type, -⟩ := Order.kept_attributes kept
  have changed : (entry.order.replacedBy image).Rests flow :=
    ⟨rests.side, type.trans rests.limit, stays, rests.sound.replaced asked above,
      Order.unfilled_replaced above⟩
  exact sound.with_resting ((sound.resting flow).with_order found price changed)

/-- A replaced order that would keep its place among the resting ones, had it not become
immediate, leaves with no other change. -/
theorem Sound.kept_expired (sound : book.Sound)
    (found : (book.resting flow).get? id = some old) :
    ((book.withResting flow
      ((book.resting flow).amended (old.replacedBy image) .kept)).dropImmediate
        (old.replacedBy image)).1.Sound := by
  obtain ⟨same, ⟨entry, member, rfl⟩, -⟩ := (sound.resting flow).ordered.get found
  have side := ((sound.resting flow).lawful entry member).side
  obtain rfl : (entry.order.replacedBy image).flow = flow := side
  obtain rfl : (entry.order.replacedBy image).id = id := same
  generalize entry.order.replacedBy image = order at found ⊢
  have present := Queue.get_amended _ order entry.order found
  rcases drop_immediate_cases (book.withResting order.flow
    ((book.resting order.flow).amended order .kept)) order with ⟨-, -, absent⟩ | ⟨_, -, dropped, -⟩
  · rw [resting_with_resting, present] at absent
    contradiction
  · rw [dropped, resting_with_resting, with_resting_twice]
    simp only [Queue.amended, Queue.without_with_order]
    exact sound.with_resting ((sound.resting order.flow).sublist List.filter_sublist)

end Kept

/-- Every operation leaves a sound book at once, and an order that may be traded. -/
theorem Opens.sound {book : Book} {operation : Operation} {outset : Outset}
    (opens : book.Opens operation outset) (sound : book.Sound) :
    outset.book.Sound ∧ ∀ task ∈ outset.tasks, task.Sound := by
  cases opens with
  | absent => exact ⟨sound, by simp [Outset.unchanged]⟩
  | refused kind image reason rejects => exact ⟨sound, by simp [Outset.unchanged]⟩
  | insert built active positive routes =>
    obtain ⟨own, unfilled⟩ := Order.sound_of_new built positive
    exact routes.sound sound own (by unfold Order.unfilled; omega)
  | requeue built active amended routes =>
    obtain ⟨old, above, rfl, lost, named⟩ := amend_ok amended
    have asked := Order.image_of_replacement built
    have own := (named.order_sound sound).1.replaced asked above
    exact routes.sound (named.sound_without sound) own (Order.unfilled_replaced above)
  | keep built active amended stays =>
    obtain ⟨old, above, rfl, kept, named⟩ := amend_ok amended
    have asked := Order.image_of_replacement built
    refine ⟨?_, by simp [Outset.settled]⟩
    cases named with
    | resting found => exact sound.kept_resting found asked above kept.symm stays
    | parked found => exact sound.kept_parked found asked above kept.symm
  | expire built active amended immediate =>
    obtain ⟨old, above, rfl, kept, named⟩ := amend_ok amended
    have asked := Order.image_of_replacement built
    refine ⟨?_, by simp [Outset.settled]⟩
    cases named with
    | resting found => exact sound.kept_expired found
    | parked found => exact (sound.kept_parked found asked above kept.symm).dropped _
  | cancel withdrawn =>
    obtain ⟨old, rfl, named⟩ := withdraw_ok withdrawn
    exact ⟨named.sound_without sound, by simp [Outset.settled]⟩
  | start => exact ⟨sound.same (fun flow => by cases flow <;> rfl)
      (fun flow => by cases flow <;> rfl) rfl rfl, by simp [Outset.unchanged]⟩
  | stop =>
    refine ⟨⟨fun flow => ?_, fun flow => ?_, sound.counted, sound.priced, sound.unpriced⟩,
      by simp [Outset.settled]⟩
    · cases flow
      · exact (sound.resting .buying).sublist (List.nil_sublist _)
      · exact (sound.resting .selling).sublist (List.nil_sublist _)
    · cases flow
      · exact (sound.parked .buying).sublist (List.nil_sublist _)
      · exact (sound.parked .selling).sublist (List.nil_sublist _)
  | publish => exact ⟨sound.same (fun flow => by cases flow <;> rfl)
      (fun flow => by cases flow <;> rfl) rfl rfl, by simp [Outset.unchanged]⟩

/-- What holds of the first book of a run, and is kept by every outset, every move and
every mark for a change in a sound book, holds after the run, and the book is sound. -/
theorem sound_run_keeps {P : Book → List Task → List Report → Prop}
    (opens : ∀ {book : Book} {operation : Operation} {outset : Outset} {sent : List Report},
      book.Opens operation outset → book.Sound → P book [] sent →
        P outset.book outset.tasks (sent ++ outset.reports))
    (moves : ∀ {book next : Book} {tasks later : List Task} {reports sent : List Report},
      book.Move tasks next later reports → book.Sound → (∀ task ∈ tasks, task.Sound) →
        P book tasks sent → P next later (sent ++ reports))
    (marks : ∀ {book : Book} {sent : List Report} (changes : Bool),
      P book [] sent → P (Outset.marked changes book) [] sent)
    (first : Order) (operations : List Operation) (start : P (ofFirst first) [] []) :
    ((ofFirst first).performAll operations).1.Sound ∧
      P ((ofFirst first).performAll operations).1 []
        ((ofFirst first).performAll operations).2 := by
  have kept := run_keeps (P := fun book tasks sent =>
      (book.Sound ∧ ∀ task ∈ tasks, task.Sound) ∧ P book tasks sent)
    (fun open' holds => ⟨open'.sound holds.1.1, opens open' holds.1.1 holds.2⟩)
    (fun move holds => ⟨move.sound holds.1.1 holds.1.2, moves move holds.1.1 holds.1.2 holds.2⟩)
    (fun changes holds => ⟨⟨holds.1.1.marked changes, by simp⟩, marks changes holds.2⟩)
    operations (ofFirst first) [] ⟨⟨sound_of_first first, by simp⟩, start⟩
  exact ⟨kept.1.1, kept.2⟩

/-- Every book that a run reaches is sound. -/
theorem run_sound (first : Order) (operations : List Operation) :
    ((ofFirst first).performAll operations).1.Sound :=
  (sound_run_keeps (P := fun _ _ _ => True) (fun _ _ _ => trivial) (fun _ _ _ _ => trivial)
    (fun _ _ => trivial) first operations trivial).1

end Book

end Bourse
