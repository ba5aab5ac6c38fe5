import Bourse.Proofs.Soundness

/-!
# Prices in the queues

Little of what happens to a book brings a price into a queue that was not in it before.
Orders are taken out, and an order that is changed where it stands keeps the price that it
is queued under. `Leaves` says what that comes to for operations: apart from the order that
is left to be traded, the one new price is that of a stop order that is parked because its
stop price is not reached.
-/

namespace Bourse

/-- Whether an operation asks for an order that waits for a stop price. -/
def Operation.asksForStop : Operation → Bool
  | .insert _ request => request.type.isStop
  | .replace request => request.type.isStop
  | _ => false

namespace Queue

variable {direction : Direction} {key : Order → Int}

/-- The orders of a queue have no key that those of an earlier queue had not. -/
def NoNewKey (key : Order → Int) (before after : Queue direction) : Prop :=
  ∀ entry ∈ after.entries, ∃ old ∈ before.entries, key old.order = key entry.order

/-- A queue has no new keys over itself. -/
theorem NoNewKey.refl (queue : Queue direction) : NoNewKey key queue queue :=
  fun entry member => ⟨entry, member, rfl⟩

/-- A queue without new keys over one without new keys has none over the first. -/
theorem NoNewKey.trans {first next last : Queue direction} (before : NoNewKey key first next)
    (after : NoNewKey key next last) : NoNewKey key first last := by
  intro entry member
  obtain ⟨between, present, same⟩ := after entry member
  obtain ⟨old, there, earlier⟩ := before between present
  exact ⟨old, there, earlier.trans same⟩

/-- Some of the entries of a queue. -/
theorem no_new_key_of_mem {queue : Queue direction} {entries : List Entry}
    (kept : ∀ entry ∈ entries, entry ∈ queue.entries) :
    NoNewKey key queue { queue with entries := entries } :=
  fun entry member => ⟨entry, kept entry member, rfl⟩

/-- An order in the place of another one with its key. -/
theorem no_new_key_with_order {queue : Queue direction} (ordered : queue.Ordered) {id : OrderId}
    {old order : Order} (found : queue.get? id = some old) (same : key order = key old) :
    NoNewKey key queue { queue with entries := withOrder order queue.entries } := by
  obtain ⟨-, ⟨place, there, rfl⟩, -⟩ := ordered.get found
  intro entry member
  obtain ⟨before, present, rfl⟩ := List.mem_map.mp member
  split
  · exact ⟨place, there, same.symm⟩
  · exact ⟨before, present, rfl⟩

/-- A fill takes the first entry down or out. -/
theorem no_new_key_filled {queue : Queue direction} {maker : Entry} {behind : List Entry}
    (first : queue.entries = maker :: behind) {price quantity : Int}
    (same : key (maker.order.fill price quantity) = key maker.order) :
    NoNewKey key queue { queue with entries := filledFirst maker behind price quantity } := by
  intro entry member
  simp only [filledFirst] at member
  split at member
  · exact ⟨entry, first ▸ List.mem_cons_of_mem maker member, rfl⟩
  · rcases List.mem_cons.mp member with rfl | member
    · exact ⟨maker, first ▸ List.mem_cons_self, same.symm⟩
    · exact ⟨entry, first ▸ List.mem_cons_of_mem maker member, rfl⟩

end Queue

namespace Book

/-- No parked order of a book has a stop price that none had in an earlier book, and the
last trade is the same. -/
structure NoNewStopPrice (book next : Book) : Prop where
  parked : ∀ flow, Queue.NoNewKey Order.stopPrice (book.parked flow) (next.parked flow)
  trades : next.record.trades = book.record.trades
  lastPrice : next.record.lastPrice = book.record.lastPrice

/-- No order of a book, resting or parked, has a price that none had in the same queue of
an earlier book, and the last trade is the same. -/
structure NoNewPrice (book next : Book) : Prop extends NoNewStopPrice book next where
  resting : ∀ flow, Queue.NoNewKey Order.price (book.resting flow) (next.resting flow)

/-- What comes to rest changes no parked order. -/
theorem NoNewStopPrice.with_resting (book : Book) (flow : Flow)
    (queue : Queue flow.restingDirection) :
    book.NoNewStopPrice (book.withResting flow queue) where
  parked := fun other => by simpa only [parked_with_resting] using Queue.NoNewKey.refl _
  trades := by rw [record_with_resting]
  lastPrice := by rw [record_with_resting]

namespace NoNewPrice

/-- Only the queues, the number of trades and the last price matter. -/
theorem same {book next : Book} (resting : ∀ flow, next.resting flow = book.resting flow)
    (parked : ∀ flow, next.parked flow = book.parked flow)
    (trades : next.record.trades = book.record.trades)
    (lastPrice : next.record.lastPrice = book.record.lastPrice) : book.NoNewPrice next where
  resting := fun flow => resting flow ▸ .refl _
  parked := fun flow => parked flow ▸ .refl _
  trades := trades
  lastPrice := lastPrice

/-- A book has no new prices over itself. -/
theorem refl (book : Book) : book.NoNewPrice book := same (fun _ => rfl) (fun _ => rfl) rfl rfl

/-- A book without new prices over one without new prices has none over the first. -/
theorem trans {book next last : Book} (first : book.NoNewPrice next)
    (second : next.NoNewPrice last) : book.NoNewPrice last where
  resting := fun flow => (first.resting flow).trans (second.resting flow)
  parked := fun flow => (first.parked flow).trans (second.parked flow)
  trades := second.trades.trans first.trades
  lastPrice := second.lastPrice.trans first.lastPrice

/-- It has none if its resting orders are at no new keys. -/
theorem with_resting {book : Book} {flow : Flow} {queue : Queue flow.restingDirection}
    (keys : Queue.NoNewKey Order.price (book.resting flow) queue) :
    book.NoNewPrice (book.withResting flow queue) where
  toNoNewStopPrice := .with_resting book flow queue
  resting := Flow.forall_of_contra flow (by simpa only [resting_with_resting] using keys)
    (by simpa only [contra_with_resting] using Queue.NoNewKey.refl _)

/-- It has none if its parked orders are at no new keys. -/
theorem with_parked {book : Book} {flow : Flow} {queue : Queue flow.parkingDirection}
    (keys : Queue.NoNewKey Order.stopPrice (book.parked flow) queue) :
    book.NoNewPrice (book.withParked flow queue) where
  resting := fun other => by simpa only [resting_with_parked] using Queue.NoNewKey.refl _
  parked := Flow.forall_of_contra flow (by simpa only [parked_with_parked] using keys)
    (by simpa only [contra_with_parked] using Queue.NoNewKey.refl _)
  trades := by rw [record_with_parked]
  lastPrice := by rw [record_with_parked]

/-- Orders that are taken out of a queue. -/
theorem without {book next : Book} {flow : Flow} {id gone : OrderId} {old : Order}
    (named : book.Named flow id old
      (fun queue => { queue with entries := Queue.without gone queue.entries }) next) :
    book.NoNewPrice next := by
  cases named with
  | resting found =>
    exact with_resting (Queue.no_new_key_of_mem fun _ => List.mem_of_mem_filter)
  | parked found =>
    exact with_parked (Queue.no_new_key_of_mem fun _ => List.mem_of_mem_filter)

/-- An order that keeps its place keeps its prices. -/
theorem kept {book next : Book} {flow : Flow} {id : OrderId} {old image : Order}
    (sound : book.Sound) (kept : old.priorityUnder image = .kept)
    (named : book.Named flow id old
      (fun queue => queue.amended (old.replacedBy image) .kept) next) :
    book.NoNewPrice next := by
  obtain ⟨price, -, stopPrice⟩ := Order.kept_attributes kept
  cases named with
  | resting found =>
    exact with_resting (Queue.no_new_key_with_order (sound.resting flow).ordered found price)
  | parked found =>
    exact with_parked (Queue.no_new_key_with_order (sound.parked flow).ordered found stopPrice)

/-- A resting order that became immediate leaves. -/
theorem dropped (book : Book) (order : Order) :
    book.NoNewPrice (book.dropImmediate order).1 := by
  rcases book.drop_immediate_cases order with ⟨nothing, -⟩ | ⟨old, -, dropped, -⟩
  · rw [nothing]
    exact refl book
  · rw [dropped]
    exact with_resting (Queue.no_new_key_of_mem fun _ => List.mem_of_mem_filter)

/-- A closed book has no orders. -/
theorem stopped (book : Book) : book.NoNewPrice book.stop.1 where
  resting := by
    intro flow entry member
    cases flow <;> exact absurd member List.not_mem_nil
  parked := by
    intro flow entry member
    cases flow <;> exact absurd member List.not_mem_nil
  trades := rfl
  lastPrice := rfl

/-- A mark for a change is no price. -/
theorem marked (book : Book) (changes : Bool) :
    book.NoNewPrice (Outset.marked changes book) :=
  same (resting_marked book · _) (parked_marked book · _) rfl rfl

end NoNewPrice

/-- What is left of an order may come to rest and changes no parked order. -/
theorem rest_remainder_parked (book : Book) (order : Order) :
    book.NoNewStopPrice (book.restRemainder order).1 := by
  have settles := book.settles order
  generalize book.restRemainder order = settled at settles ⊢
  cases settles with
  | expired immediate => exact (NoNewPrice.refl book).toNoNewStopPrice
  | unpriced day market untraded => exact (NoNewPrice.refl book).toNoNewStopPrice
  | restated day market priced => exact .with_resting book _ _
  | rested day limited => exact .with_resting book _ _

/-- A trade brings no new price into a queue of resting orders. -/
theorem Meets.no_new_price {book : Book} {taker : Order} {maker : Queue.Entry}
    {behind : List Queue.Entry} (meets : book.Meets taker maker behind) (flow : Flow) :
    Queue.NoNewKey Order.price (book.resting flow)
      ((book.traded taker maker behind).resting flow) := by
  have queue : Queue.NoNewKey Order.price (book.resting taker.flow.contra)
      { book.resting taker.flow.contra with
        entries := Queue.filledFirst maker behind maker.order.price
          (tradedQuantity taker maker.order) } := Queue.no_new_key_filled meets.first rfl
  have prices := (NoNewPrice.with_resting queue).resting flow
  simpa only [Book.traded, resting_with_record] using prices

/-- A parked order that is released leaves the others where they are. -/
theorem Releases.prices {book : Book} {flow : Flow} {entry : Queue.Entry}
    {behind : List Queue.Entry} (releases : book.Releases flow entry behind) :
    book.NoNewPrice (book.released flow behind) := by
  refine .with_parked (Queue.no_new_key_of_mem fun other member => ?_)
  rw [releases.first]
  exact List.mem_cons_of_mem entry member

/-- What an operation makes of the prices of a book at once, and the tasks that it
leaves. -/
inductive Leaves (book : Book) : Book → List Task → Prop where
  /-- Nothing is left to be traded. -/
  | settled {next : Book} (prices : book.NoNewPrice next) : Leaves book next []
  /-- An order is left to be traded. -/
  | live {next : Book} {order : Order} (prices : book.NoNewPrice next) :
      Leaves book next [.trade order]
  /-- A stop order is parked that the last price does not reach. -/
  | parked {next : Book} {order : Order} (prices : book.NoNewPrice next)
      (unreached : next.record.hasTraded = true →
        order.flow.reaches next.record.lastPrice order.stopPrice = false) :
      Leaves book
        (next.withParked order.flow ((next.parked order.flow).insert order.stopPrice order)) []

/-- What leaves tasks to do has not traded yet. -/
theorem Leaves.trades {book next : Book} {tasks : List Task} (leaves : book.Leaves next tasks) :
    next.record.trades = book.record.trades := by
  cases leaves with
  | settled prices => exact prices.trades
  | live prices => exact prices.trades
  | parked prices unreached =>
    rw [record_with_parked]
    exact prices.trades

/-- An order on its way to the market leaves itself to do, with no new price. -/
theorem Routes.leaves {book start : Book} {order : Order} {outset : Outset}
    (routes : start.Routes order outset) (prices : book.NoNewPrice start) :
    book.Leaves outset.book outset.tasks := by
  cases routes with
  | live live => exact .live prices
  | reached waits traded reached => exact .live prices
  | parked waits unreached => exact .parked prices unreached

/-- An order that is no stop order finds the book as it was. -/
theorem Routes.book_of_live {book : Book} {order : Order} {outset : Outset}
    (routes : book.Routes order outset) (live : order.type.isStop = false) :
    outset.book = book := by
  cases routes with
  | live => rfl
  | reached waits => exact absurd (live.symm.trans waits) (by decide)
  | parked waits => exact absurd (live.symm.trans waits) (by decide)

section Opens

variable {book : Book} {operation : Operation} {outset : Outset}

/-- An operation brings no price at once, apart from those of an order that it routes. -/
theorem Opens.settles_or_routes (opens : book.Opens operation outset) (sound : book.Sound) :
    outset.tasks = [] ∧ book.NoNewPrice outset.book ∨
      ∃ start order routed report, book.NoNewPrice start ∧ start.Routes order routed ∧
        outset = routed.after report ∧ order.type.isStop = operation.asksForStop := by
  cases opens with
  | absent => exact .inl ⟨rfl, .refl book⟩
  | refused kind image reason rejects => exact .inl ⟨rfl, .refl book⟩
  | insert built active positive routes =>
    obtain ⟨-, -, -, type, -⟩ := Order.new_ok built
    exact .inr ⟨book, _, _, _, .refl book, routes, rfl, congrArg OrderType.isStop type⟩
  | requeue built active amended routes =>
    obtain ⟨old, above, rfl, lost, named⟩ := amend_ok amended
    obtain ⟨-, -, -, type, -⟩ := Order.replacement_ok built
    exact .inr ⟨_, _, _, _, .without named, routes, rfl, congrArg OrderType.isStop type⟩
  | keep built active amended stays =>
    obtain ⟨old, above, rfl, kept, named⟩ := amend_ok amended
    exact .inl ⟨rfl, .kept sound kept.symm named⟩
  | expire built active amended immediate =>
    obtain ⟨old, above, rfl, kept, named⟩ := amend_ok amended
    exact .inl ⟨rfl, (NoNewPrice.kept sound kept.symm named).trans (.dropped _ _)⟩
  | cancel withdrawn =>
    obtain ⟨old, rfl, named⟩ := withdraw_ok withdrawn
    exact .inl ⟨rfl, .without named⟩
  | start =>
    exact .inl ⟨rfl, .same (fun flow => by cases flow <;> rfl) (fun flow => by cases flow <;> rfl)
      rfl rfl⟩
  | stop => exact .inl ⟨rfl, .stopped book⟩
  | publish =>
    exact .inl ⟨rfl, .same (fun flow => by cases flow <;> rfl) (fun flow => by cases flow <;> rfl)
      rfl rfl⟩

/-- No operation brings a price at once but that of a stop order that is parked. -/
theorem Opens.leaves (opens : book.Opens operation outset) (sound : book.Sound) :
    book.Leaves outset.book outset.tasks := by
  rcases opens.settles_or_routes sound with ⟨nothing, prices⟩ | ⟨_, _, _, _, prices, routes, rfl, -⟩
  · rw [nothing]
    exact .settled prices
  · exact routes.leaves prices

/-- An operation that asks for no stop type brings no price at once. -/
theorem Opens.no_new_price (opens : book.Opens operation outset) (sound : book.Sound)
    (live : operation.asksForStop = false) : book.NoNewPrice outset.book := by
  rcases opens.settles_or_routes sound with
    ⟨-, prices⟩ | ⟨start, order, routed, report, prices, routes, rfl, type⟩
  · exact prices
  · have same : (routed.after report).book = start := routes.book_of_live (type.trans live)
    exact same ▸ prices

end Opens

end Book

end Bourse
