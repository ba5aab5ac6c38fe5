import Bourse.Proofs.Mirror

/-!
# Executions seen from the other side

Two books mirror each other if what one of them buys is what the other one sells, with the
mirrored prices. Where all prices are below the bound, mirrored orders meet the same orders
and trade the same quantities, and what is left of them is settled in the same way.

A check of the parked orders looks at the purchases before the sales in either book, so that
two books with stop orders on both sides release them in a different order. With stop orders
on one side only the other queue is empty, and the checks come to the same order. That the
checks need not be for the flow that the orders are parked in is what `Task.Mirrors` says.

`Move.mirrored` is the one step of the simulation: whatever move a book makes, its mirror
makes one that reports the same and leaves them mirrored.
-/

namespace Bourse

/-- Whether a check that begins with a flow looks at the parked orders of a side. -/
def Flow.Checks (flow side : Flow) : Prop := flow = side ∨ flow = .buying

/-- A rise seen from the other side is a fall. -/
def Trend.mirrored : Trend → Trend
  | .up => .down
  | .down => .up
  | .flat => .flat

namespace Record

/-- Two records of the same trades, at mirrored prices. -/
structure Mirrors (bound : Int) (record mirror : Record) : Prop where
  trades : mirror.trades = record.trades
  volume : mirror.volume = record.volume
  lastQuantity : mirror.lastQuantity = record.lastQuantity
  lastPrice : mirror.lastPrice = mirroredPrice bound record.lastPrice
  trend : mirror.trend = record.trend.mirrored

/-- A record whose last price is below a bound, and set once there was a trade. -/
structure Priced (bound : Int) (record : Record) : Prop where
  last : PriceWithin bound record.lastPrice
  traded : record.hasTraded = true → record.lastPrice ≠ 0

variable {bound : Int} {record mirror : Record}

/-- A mirrored record has traded exactly if the record has. -/
theorem Mirrors.has_traded (mirrors : record.Mirrors bound mirror) :
    mirror.hasTraded = record.hasTraded := by
  simp only [hasTraded, mirrors.trades]

/-- A price that is above the last one is below it in the mirror. -/
theorem Mirrors.trend_to (mirrors : record.Mirrors bound mirror) (priced : record.Priced bound)
    {price : Int} (within : PriceWithin bound price) (set : price ≠ 0) :
    mirror.trendTo (mirroredPrice bound price) = (record.trendTo price).mirrored := by
  have equal := within.mirrored_eq_iff priced.last
  have same : (mirroredPrice bound price == mirror.lastPrice) = (price == record.lastPrice) := by
    rw [mirrors.lastPrice, Bool.eq_iff_iff, beq_iff_eq, beq_iff_eq]
    exact equal
  unfold trendTo
  rw [mirrors.has_traded, same]
  split
  case isTrue => rfl
  case isFalse moved =>
    simp only [Bool.or_eq_true, Bool.not_eq_true', beq_iff_eq, not_or] at moved
    have last := priced.traded (by simpa using moved.1)
    rw [mirrors.lastPrice, mirrored_price_set bound last, mirrored_price_set bound set]
    by_cases rise : record.lastPrice < price
    · rw [if_pos rise, if_neg (by omega)]
      rfl
    · rw [if_neg rise, if_pos (by omega)]
      rfl

/-- Mirrored records stay so after mirrored trades. -/
theorem Mirrors.trade (mirrors : record.Mirrors bound mirror) (priced : record.Priced bound)
    {price : Int} (within : PriceWithin bound price) (set : price ≠ 0) (quantity : Int) :
    (record.trade price quantity).Mirrors bound
      (mirror.trade (mirroredPrice bound price) quantity) where
  trades := congrArg (· + 1) mirrors.trades
  volume := congrArg (fun volume => Word.saturated (volume + quantity)) mirrors.volume
  lastQuantity := rfl
  lastPrice := rfl
  trend := mirrors.trend_to priced within set

end Record

namespace Order

/-- An order that rests in the queue of a flow, at a price below a bound. -/
structure RestsBelow (bound : Int) (flow : Flow) (order : Order) : Prop where
  priced : order.Priced bound
  side : order.flow = flow
  set : order.price ≠ 0

/-- An order that is parked in the queue of the one flow that has stop orders, under a stop
price below a bound. -/
structure WaitsBelow (bound : Int) (stops flow : Flow) (order : Order) : Prop where
  priced : order.Priced bound
  side : order.flow = flow
  only : flow = stops
  set : order.stopPrice ≠ 0

/-- An order that is being traded, with a limit below a bound if it has one. -/
structure TradesBelow (bound : Int) (order : Order) : Prop where
  priced : order.Priced bound
  live : order.type.isStop = false

/-- A fill leaves the prices of an order within the bound. -/
theorem Priced.fill {bound : Int} {order : Order} (priced : order.Priced bound)
    (price quantity : Int) : (order.fill price quantity).Priced bound :=
  ⟨priced.price, priced.stopPrice, priced.limited, priced.waits⟩

/-- What is left of a market order as a limit order at a price below the bound. -/
theorem Priced.limited_at {bound : Int} {order : Order} (priced : order.Priced bound)
    {price : Int} (within : PriceWithin bound price) (set : price ≠ 0) :
    (order.limitedAt price).Priced bound :=
  ⟨within, priced.stopPrice, fun _ => set,
    fun stop => by simp [limitedAt, OrderType.isStop] at stop⟩

/-- An order that is traded and is no market order has a limit. -/
theorem TradesBelow.set {bound : Int} {order : Order} (trades : order.TradesBelow bound)
    (limited : order.type ≠ .market) : order.price ≠ 0 := by
  apply trades.priced.limited
  have live := trades.live
  cases type : order.type <;> simp_all [OrderType.isStop, OrderType.isLimited]

end Order

namespace Task

/-- Whether the order of a task may be traded below a bound. The parked orders are checked
only after a trade. -/
def Below (bound last : Int) : Task → Prop
  | .trade order => order.TradesBelow bound
  | .check _ => last ≠ 0

/-- Two tasks that come to the same: to trade an order and its mirror, or to check the parked
orders, beginning with a flow from which the check comes to them. -/
inductive Mirrors (bound : Int) (stops : Flow) : Task → Task → Prop where
  | trade (order : Order) : Mirrors bound stops (.trade order) (.trade (order.mirrored bound))
  | check {flow other : Flow} (checks : flow.Checks stops) (also : other.Checks stops.contra) :
      Mirrors bound stops (.check flow) (.check other)

end Task

namespace Book

/-- Two books that mirror each other: what rests and what is parked in one flow of the first
book rests and is parked in the contra flow of the second one, in the same order. -/
structure Mirrors (bound : Int) (book mirror : Book) : Prop where
  resting : ∀ flow, (book.resting flow).Mirrors bound (mirror.resting flow.contra)
  parked : ∀ flow, (book.parked flow).Mirrors bound (mirror.parked flow.contra)
  record : book.record.Mirrors bound mirror.record
  isActive : mirror.isActive = book.isActive
  hasChanged : mirror.hasChanged = book.hasChanged

/-- A book whose prices are below a bound, and whose stop orders are all of one flow. -/
structure Priced (bound : Int) (stops : Flow) (book : Book) : Prop where
  resting : ∀ flow, (book.resting flow).Keeps Order.price (Order.RestsBelow bound flow)
  parked : ∀ flow, (book.parked flow).Keeps Order.stopPrice (Order.WaitsBelow bound stops flow)
  record : book.record.Priced bound

variable {bound : Int} {stops : Flow} {book mirror : Book}

section Frame

/-- Mirrored books have mirrored orders rest on opposite sides. -/
theorem Mirrors.resting_of (mirrors : book.Mirrors bound mirror) {flow contra : Flow}
    (opposite : contra = flow.contra) :
    (book.resting flow).Mirrors bound (mirror.resting contra) :=
  opposite ▸ mirrors.resting flow

/-- They have mirrored orders wait on opposite sides. -/
theorem Mirrors.parked_of (mirrors : book.Mirrors bound mirror) {flow contra : Flow}
    (opposite : contra = flow.contra) :
    (book.parked flow).Mirrors bound (mirror.parked contra) :=
  opposite ▸ mirrors.parked flow

/-- They stay mirrored with mirrored resting orders. -/
theorem Mirrors.with_resting (mirrors : book.Mirrors bound mirror) {flow contra : Flow}
    (opposite : contra = flow.contra) {queue : Queue flow.restingDirection}
    {image : Queue contra.restingDirection} (same : queue.Mirrors bound image) :
    (book.withResting flow queue).Mirrors bound (mirror.withResting contra image) := by
  subst opposite
  have isActive := mirrors.isActive
  have hasChanged := mirrors.hasChanged
  constructor
  · refine Flow.forall_of_contra (P := fun side => ((book.withResting flow queue).resting
      side).Mirrors bound ((mirror.withResting flow.contra image).resting side.contra)) flow ?_ ?_
    · simpa only [resting_with_resting] using same
    · have kept := mirrors.resting flow.contra
      cases flow <;> exact kept
  · intro side
    simpa only [parked_with_resting] using mirrors.parked side
  · simpa only [record_with_resting] using mirrors.record
  · cases flow <;> exact isActive
  · cases flow <;> exact hasChanged

/-- They stay mirrored with mirrored parked orders. -/
theorem Mirrors.with_parked (mirrors : book.Mirrors bound mirror) {flow contra : Flow}
    (opposite : contra = flow.contra) {queue : Queue flow.parkingDirection}
    {image : Queue contra.parkingDirection} (same : queue.Mirrors bound image) :
    (book.withParked flow queue).Mirrors bound (mirror.withParked contra image) := by
  subst opposite
  have isActive := mirrors.isActive
  have hasChanged := mirrors.hasChanged
  constructor
  · intro side
    simpa only [resting_with_parked] using mirrors.resting side
  · refine Flow.forall_of_contra (P := fun side => ((book.withParked flow queue).parked
      side).Mirrors bound ((mirror.withParked flow.contra image).parked side.contra)) flow ?_ ?_
    · simpa only [parked_with_parked] using same
    · have kept := mirrors.parked flow.contra
      cases flow <;> exact kept
  · simpa only [record_with_parked] using mirrors.record
  · cases flow <;> exact isActive
  · cases flow <;> exact hasChanged

/-- They stay mirrored with mirrored records. -/
theorem Mirrors.with_record (mirrors : book.Mirrors bound mirror) {record image : Record}
    (same : record.Mirrors bound image) :
    ({ book with record := record } : Book).Mirrors bound { mirror with record := image } where
  resting := fun flow => by simpa only [resting_with_record] using mirrors.resting flow
  parked := fun flow => by simpa only [parked_with_record] using mirrors.parked flow
  record := same
  isActive := mirrors.isActive
  hasChanged := mirrors.hasChanged

/-- A book stays within the bound with resting orders that are. -/
theorem Priced.with_resting (priced : book.Priced bound stops) {flow : Flow}
    {queue : Queue flow.restingDirection}
    (keeps : queue.Keeps Order.price (Order.RestsBelow bound flow)) :
    (book.withResting flow queue).Priced bound stops where
  resting := Flow.forall_of_contra flow (by simpa only [resting_with_resting] using keeps)
    (by simpa only [contra_with_resting] using priced.resting flow.contra)
  parked := fun other => by simpa only [parked_with_resting] using priced.parked other
  record := by simpa only [record_with_resting] using priced.record

/-- It stays so with parked orders that are. -/
theorem Priced.with_parked (priced : book.Priced bound stops) {flow : Flow}
    {queue : Queue flow.parkingDirection}
    (keeps : queue.Keeps Order.stopPrice (Order.WaitsBelow bound stops flow)) :
    (book.withParked flow queue).Priced bound stops where
  resting := fun other => by simpa only [resting_with_parked] using priced.resting other
  parked := Flow.forall_of_contra flow (by simpa only [parked_with_parked] using keeps)
    (by simpa only [contra_with_parked] using priced.parked flow.contra)
  record := by simpa only [record_with_parked] using priced.record

/-- It stays so with a record that is. -/
theorem Priced.with_record (priced : book.Priced bound stops) {record : Record}
    (below : record.Priced bound) :
    ({ book with record := record } : Book).Priced bound stops where
  resting := fun flow => by simpa only [resting_with_record] using priced.resting flow
  parked := fun flow => by simpa only [parked_with_record] using priced.parked flow
  record := below

end Frame

section Trade

variable {taker : Order} {maker : Queue.Entry} {behind : List Queue.Entry}

/-- The queue that an order trades with holds the mirrors of those that its mirror trades
with. -/
theorem Mirrors.against (mirrors : book.Mirrors bound mirror) (taker : Order) :
    (book.resting taker.flow.contra).Mirrors bound
      (mirror.resting (taker.mirrored bound).flow.contra) :=
  mirrors.resting_of (congrArg Flow.contra (taker.flow_mirrored bound))

/-- The order that is traded against rests within the bound. -/
theorem Priced.first_rests (priced : book.Priced bound stops)
    (first : (book.resting taker.flow.contra).entries = maker :: behind) :
    maker.order.RestsBelow bound taker.flow.contra :=
  (priced.resting taker.flow.contra).lawful maker (first ▸ List.mem_cons_self)

/-- An order meets the first entry of the other flow if its mirror meets the mirror of that
entry, and only then. -/
theorem Mirrors.meets_iff (mirrors : book.Mirrors bound mirror)
    (priced : book.Priced bound stops) (trades : taker.TradesBelow bound)
    (first : (book.resting taker.flow.contra).entries = maker :: behind) :
    mirror.Meets (taker.mirrored bound) (maker.mirrored bound)
        (behind.map (Queue.Entry.mirrored bound)) ↔ book.Meets taker maker behind := by
  have accepts := trades.priced.accepts_mirrored trades.live (priced.first_rests first).set
  constructor
  · intro meets
    exact ⟨first, meets.shown, accepts ▸ meets.accepted⟩
  · intro meets
    refine ⟨?_, meets.shown, accepts.trans meets.accepted⟩
    rw [(mirrors.against taker).entries, first, List.map_cons]

/-- Mirrored orders that trade leave mirrored books. -/
theorem Mirrors.traded (mirrors : book.Mirrors bound mirror) (priced : book.Priced bound stops)
    (first : (book.resting taker.flow.contra).entries = maker :: behind) :
    (book.traded taker maker behind).Mirrors bound
      (mirror.traded (taker.mirrored bound) (maker.mirrored bound)
        (behind.map (Queue.Entry.mirrored bound))) := by
  have rests := priced.first_rests first
  have opposite : (taker.mirrored bound).flow.contra = taker.flow.contra.contra :=
    congrArg Flow.contra (taker.flow_mirrored bound)
  have queue := (mirrors.against taker).with_entries
    (Queue.filled_first_mirrored bound maker behind rests.set
      (tradedQuantity taker maker.order))
  have record := mirrors.record.trade priced.record rests.priced.price rests.set
    (tradedQuantity taker maker.order)
  exact (mirrors.with_resting opposite queue).with_record record

/-- Mirrored orders that trade report mirrored fills. -/
theorem fills_mirrored (bound : Int) (taker : Order) {maker : Order} (set : maker.price ≠ 0) :
    List.Forall₂ (Report.Mirrors bound) (fills taker maker)
      (fills (taker.mirrored bound) (maker.mirrored bound)) := by
  have ofMaker := maker.mirrored_fill bound set (tradedQuantity taker maker)
  have ofTaker := taker.mirrored_fill bound set (tradedQuantity taker maker)
  have fromMaker :=
    Report.mirrors_of_fill bound (maker.fill maker.price (tradedQuantity taker maker))
  have fromTaker :=
    Report.mirrors_of_fill bound (taker.fill maker.price (tradedQuantity taker maker))
  rw [ofMaker] at fromMaker
  rw [ofTaker] at fromTaker
  exact .cons fromMaker (.cons fromTaker .nil)

/-- Where an order trades, its mirror trades as much, and they leave mirrored books. -/
theorem Mirrors.trade_once (mirrors : book.Mirrors bound mirror)
    (priced : book.Priced bound stops) (trades : taker.TradesBelow bound) {after : Order}
    {next : Book} {reports : List Report}
    (traded : book.tradeOnce taker = some (after, next, reports)) :
    ∃ image reported,
      mirror.tradeOnce (taker.mirrored bound) = some (after.mirrored bound, image, reported) ∧
        next.Mirrors bound image ∧ List.Forall₂ (Report.Mirrors bound) reports reported := by
  obtain ⟨maker, behind, meets, rfl, rfl, rfl⟩ := (trade_once_iff ..).mp traded
  have met := (mirrors.meets_iff priced trades meets.first).mpr meets
  have set := (priced.first_rests meets.first).set
  refine ⟨_, _, (trade_once_iff ..).mpr ⟨_, _, met, ?_, rfl, rfl⟩,
    mirrors.traded priced meets.first, fills_mirrored bound taker set⟩
  exact taker.mirrored_fill bound set _

/-- Where an order finds nothing to trade with, its mirror finds nothing either. -/
theorem Mirrors.stuck (mirrors : book.Mirrors bound mirror) (priced : book.Priced bound stops)
    (trades : taker.TradesBelow bound) (stuck : book.tradeOnce taker = none) :
    mirror.tradeOnce (taker.mirrored bound) = none := by
  apply Option.eq_none_iff_forall_ne_some.mpr
  rintro ⟨after, next, reports⟩ traded
  obtain ⟨image, images, met, -⟩ := (trade_once_iff ..).mp traded
  obtain ⟨maker, behind, first, rfl, rfl⟩ := (mirrors.against taker).first met.first
  have meets := (mirrors.meets_iff priced trades first).mp met
  have trade := (trade_once_iff ..).mpr ⟨maker, behind, meets, rfl, rfl, rfl⟩
  rw [stuck] at trade
  contradiction

/-- What a trade leaves is below the bound again, and its price is set. -/
theorem Priced.traded (priced : book.Priced bound stops) (meets : book.Meets taker maker behind) :
    (book.traded taker maker behind).Priced bound stops ∧
      (book.traded taker maker behind).record.lastPrice ≠ 0 := by
  have rests := priced.first_rests meets.first
  obtain ⟨positive, -, ofMaker⟩ := meets.bounded
  have left := maker.order.unfilled_fill maker.order.price _ ofMaker
  have shown := (maker.order.fill maker.order.price
    (tradedQuantity taker maker.order)).pending_pos_iff
  have gone := (maker.order.fill maker.order.price
    (tradedQuantity taker maker.order)).pending_eq_zero_iff
  have after : (maker.order.fill maker.order.price
      (tradedQuantity taker maker.order)).RestsBelow bound taker.flow.contra :=
    ⟨rests.priced.fill .., rests.side, rests.set⟩
  have queue := (priced.resting taker.flow.contra).filled_first meets.first rfl
    (fun _ => after) (by omega)
  refine ⟨?_, rests.set⟩
  exact (priced.with_resting queue).with_record ⟨rests.priced.price, fun _ => rests.set⟩

end Trade

section Rest

variable {order : Order}

/-- An order comes to rest where its mirror does. -/
theorem Mirrors.rest (mirrors : book.Mirrors bound mirror) (set : order.price ≠ 0) :
    (book.rest order).Mirrors bound (mirror.rest (order.mirrored bound)) := by
  have opposite := order.flow_mirrored bound
  have reversed : (order.mirrored bound).flow.restingDirection =
      order.flow.restingDirection.reversed := by
    rw [opposite]
    exact order.flow.resting_direction_contra
  have inserted := (mirrors.resting_of opposite).insert reversed order.price order
  rw [← mirrored_price_set bound set] at inserted
  exact mirrors.with_resting opposite inserted

/-- A book stays within the bound when an order comes to rest within it. -/
theorem Priced.rest (priced : book.Priced bound stops)
    (rests : order.RestsBelow bound order.flow) : (book.rest order).Priced bound stops :=
  priced.with_resting ((priced.resting order.flow).insert rests)

/-- What is left of an order is settled as what is left of its mirror is. -/
theorem Mirrors.rest_remainder (mirrors : book.Mirrors bound mirror)
    (priced : book.Priced bound stops) (trades : order.TradesBelow bound) :
    (book.restRemainder order).1.Mirrors bound (mirror.restRemainder (order.mirrored bound)).1 ∧
      List.Forall₂ (Report.Mirrors bound) (book.restRemainder order).2
        (mirror.restRemainder (order.mirrored bound)).2 := by
  have force : (order.mirrored bound).timeInForce = order.timeInForce := rfl
  have type : (order.mirrored bound).type = order.type := rfl
  have unpriced : mirror.record.lastPrice ≤ 0 ↔ book.record.lastPrice ≤ 0 := by
    rw [mirrors.record.lastPrice]
    exact priced.record.last.mirrored_nonpos_iff
  simp only [restRemainder, force, type, unpriced]
  split
  · exact ⟨mirrors, .cons (Report.mirrors_of ..) .nil⟩
  · split
    · split
      · exact ⟨mirrors, .cons (Report.mirrors_of ..) .nil⟩
      case isFalse traded =>
        have set : book.record.lastPrice ≠ 0 := by omega
        rw [mirrors.record.lastPrice, ← Order.mirrored_limited]
        refine ⟨mirrors.rest set, .cons (Report.mirrors_of ..) .nil⟩
    case isFalse limited => exact ⟨mirrors.rest (trades.set limited), .nil⟩

/-- It stays so when the remainder of an order finds its place. -/
theorem Priced.settled (priced : book.Priced bound stops) (trades : order.TradesBelow bound) :
    (book.restRemainder order).1.Priced bound stops := by
  have settles := book.settles order
  generalize book.restRemainder order = settled at settles ⊢
  cases settles with
  | expired immediate => exact priced
  | unpriced day market untraded => exact priced
  | restated day market traded =>
    have set : book.record.lastPrice ≠ 0 := by omega
    exact priced.rest ⟨trades.priced.limited_at priced.record.last set, rfl, set⟩
  | rested day limited => exact priced.rest ⟨trades.priced, rfl, trades.set limited⟩

end Rest

section Release

/-- Where stop orders are parked in one flow only, every check that looks there releases what
it finds there. -/
theorem release_eq_of_checks (book : Book) {flow side : Flow} (checks : flow.Checks side)
    (empty : (book.parked side.contra).entries = []) :
    book.release flow = (book.releaseFrom side).map fun (order, next) => (side, order, next) := by
  have nothing : book.releaseFrom side.contra = none := by
    simp only [releaseFrom, Queue.popFirst?, empty]
  rcases checks with rfl | rfl
  · cases flow with
    | buying =>
      cases found : book.releaseFrom .buying with
      | none =>
        have also : book.releaseFrom .selling = none := nothing
        simp [release, found, also]
      | some result => simp [release, found]
    | selling => rfl
  · cases side with
    | buying =>
      have also : book.releaseFrom .selling = none := nothing
      cases found : book.releaseFrom .buying <;> simp [release, found, also]
    | selling =>
      have first : book.releaseFrom .buying = none := nothing
      simp [release, first]

/-- No order waits on the side that stop orders are not on. -/
theorem Priced.unparked (priced : book.Priced bound stops) :
    (book.parked stops.contra).entries = [] := by
  apply List.eq_nil_iff_forall_not_mem.mpr
  intro entry member
  have same := ((priced.parked stops.contra).lawful entry member).only
  cases stops <;> contradiction

/-- In the mirror none waits on the other side. -/
theorem Mirrors.unparked (mirrors : book.Mirrors bound mirror) (priced : book.Priced bound stops) :
    (mirror.parked stops.contra.contra).entries = [] := by
  rw [(mirrors.parked stops.contra).entries, priced.unparked]
  rfl

variable {entry : Queue.Entry} {behind : List Queue.Entry}

/-- The first parked order is released exactly if its mirror is. -/
theorem Mirrors.releases_iff (mirrors : book.Mirrors bound mirror)
    (priced : book.Priced bound stops) (traded : book.record.lastPrice ≠ 0)
    (first : (book.parked stops).entries = entry :: behind) :
    mirror.Releases stops.contra (entry.mirrored bound)
        (behind.map (Queue.Entry.mirrored bound)) ↔ book.Releases stops entry behind := by
  have set := ((priced.parked stops).lawful entry (first ▸ List.mem_cons_self)).set
  have reaches := stops.reaches_mirrored bound traded set
  rw [← mirrors.record.lastPrice] at reaches
  constructor
  · intro releases
    exact ⟨first, reaches ▸ releases.reached⟩
  · intro releases
    refine ⟨?_, reaches.trans releases.reached⟩
    rw [(mirrors.parked stops).entries, first, List.map_cons]

/-- Checks that come to the parked orders after a trade release the same one, whatever flow
they begin with, and go on with the flow of that order. -/
theorem Mirrors.release (mirrors : book.Mirrors bound mirror) (priced : book.Priced bound stops)
    (traded : book.record.lastPrice ≠ 0) {flow other side : Flow} (checks : flow.Checks stops)
    (also : other.Checks stops.contra) {order : Order} {next : Book}
    (released : book.release flow = some (side, order, next)) :
    side = stops ∧ ∃ image,
      mirror.release other = some (stops.contra, order.mirrored bound, image) ∧
        next.Mirrors bound image := by
  rw [book.release_eq_of_checks checks priced.unparked] at released
  obtain ⟨⟨_, _⟩, found, same⟩ := Option.map_eq_some_iff.mp released
  obtain ⟨rfl, rfl, rfl⟩ : _ ∧ _ ∧ _ := by simpa using same
  obtain ⟨entry, behind, releases, rfl, rfl⟩ := (release_from_iff ..).mp found
  have images := (mirrors.releases_iff priced traded releases.first).mpr releases
  refine ⟨rfl, _, ?_, mirrors.with_parked rfl ((mirrors.parked stops).with_entries rfl)⟩
  rw [mirror.release_eq_of_checks also (mirrors.unparked priced),
    (release_from_iff ..).mpr ⟨_, _, images, rfl, rfl⟩, entry.order.mirrored_trigger bound]
  rfl

/-- Where no parked order is reached, no mirror of one is. -/
theorem Mirrors.unreached (mirrors : book.Mirrors bound mirror)
    (priced : book.Priced bound stops) (traded : book.record.lastPrice ≠ 0) {flow other : Flow}
    (checks : flow.Checks stops) (also : other.Checks stops.contra)
    (unreached : book.release flow = none) : mirror.release other = none := by
  rw [book.release_eq_of_checks checks priced.unparked, Option.map_eq_none_iff] at unreached
  rw [mirror.release_eq_of_checks also (mirrors.unparked priced), Option.map_eq_none_iff]
  apply Option.eq_none_iff_forall_ne_some.mpr
  rintro ⟨order, next⟩ released
  obtain ⟨image, images, reached, -⟩ := (release_from_iff ..).mp released
  obtain ⟨entry, behind, first, rfl, rfl⟩ := (mirrors.parked stops).first reached.first
  have releases := (mirrors.releases_iff priced traded first).mp reached
  have found := (release_from_iff ..).mpr ⟨entry, behind, releases, rfl, rfl⟩
  rw [unreached] at found
  contradiction

/-- A book stays within the bound when an order is released, and that order trades within it. -/
theorem Priced.released (priced : book.Priced bound stops) {side : Flow}
    (releases : book.Releases side entry behind) :
    (book.released side behind).Priced bound stops ∧ entry.order.trigger.TradesBelow bound := by
  have waits := (priced.parked side).lawful entry (releases.first ▸ List.mem_cons_self)
  refine ⟨priced.with_parked ((priced.parked side).sublist ?_), waits.priced.trigger,
    entry.order.trigger_not_stop⟩
  exact releases.first ▸ List.sublist_cons_self entry behind

end Release

section Moves

variable {next : Book} {tasks later : List Task} {reports : List Report}

/-- Every move leaves a book below the bound, and tasks that can be done there. -/
theorem Move.priced (move : book.Move tasks next later reports) (priced : book.Priced bound stops)
    (ready : ∀ task ∈ tasks, task.Below bound book.record.lastPrice) :
    next.Priced bound stops ∧ ∀ task ∈ later, task.Below bound next.record.lastPrice := by
  cases move with
  | trade traded =>
    obtain ⟨maker, behind, meets, rfl, rfl, rfl⟩ := (trade_once_iff ..).mp traded
    obtain ⟨trades, others⟩ := List.forall_mem_cons.mp ready
    obtain ⟨kept, set⟩ := priced.traded meets
    refine ⟨kept, List.forall_mem_cons.mpr ⟨set, List.forall_mem_cons.mpr
      ⟨⟨trades.priced.fill .., trades.live⟩, ?_⟩⟩⟩
    intro task member
    cases task with
    | trade order => exact others _ member
    | check flow => exact set
  | settle stuck left =>
    obtain ⟨trades, others⟩ := List.forall_mem_cons.mp ready
    rw [record_rest_remainder]
    exact ⟨priced.settled trades, others⟩
  | finish stuck spent => exact ⟨priced, (List.forall_mem_cons.mp ready).2⟩
  | release released =>
    obtain ⟨entry, behind, releases, rfl, rfl⟩ := releases_of_release released
    obtain ⟨kept, trades⟩ := priced.released releases
    obtain ⟨traded, others⟩ := List.forall_mem_cons.mp ready
    refine ⟨kept, ?_⟩
    rw [Book.released, record_with_parked]
    exact List.forall_mem_cons.mpr ⟨trades, List.forall_mem_cons.mpr ⟨traded, others⟩⟩
  | pass unreached => exact ⟨priced, (List.forall_mem_cons.mp ready).2⟩

/-- Whatever a book does next, its mirror does, with the same reports. -/
theorem Move.mirrored (move : book.Move tasks next later reports)
    (mirrors : book.Mirrors bound mirror) (priced : book.Priced bound stops)
    (ready : ∀ task ∈ tasks, task.Below bound book.record.lastPrice) {images : List Task}
    (same : List.Forall₂ (Task.Mirrors bound stops) tasks images) :
    ∃ image others reported,
      mirror.Move images image others reported ∧ next.Mirrors bound image ∧
        List.Forall₂ (Task.Mirrors bound stops) later others ∧
        List.Forall₂ (Report.Mirrors bound) reports reported := by
  obtain ⟨task, rest, rfl⟩ : ∃ task rest, tasks = task :: rest := by
    cases move <;> exact ⟨_, _, rfl⟩
  obtain ⟨task', rest', first, others, rfl⟩ := List.forall₂_cons_left_iff.mp same
  have now := (List.forall_mem_cons.mp ready).1
  cases first with
  | trade order =>
    cases move with
    | trade traded =>
      obtain ⟨image, reported, trade, books, reports⟩ := mirrors.trade_once priced now traded
      exact ⟨_, _, _, .trade trade, books,
        .cons (.check (.inr rfl) (.inr rfl)) (.cons (.trade _) others), reports⟩
    | settle stuck left =>
      obtain ⟨books, reports⟩ := mirrors.rest_remainder priced now
      exact ⟨_, _, _, .settle (mirrors.stuck priced now stuck) left, books, others, reports⟩
    | finish stuck spent =>
      exact ⟨_, _, _, .finish (mirrors.stuck priced now stuck) spent, mirrors, others, .nil⟩
  | check checks also =>
    cases move with
    | release released =>
      obtain ⟨rfl, image, release, books⟩ := mirrors.release priced now checks also released
      exact ⟨_, _, _, .release release, books,
        .cons (.trade _) (.cons (.check (.inl rfl) (.inl rfl)) others),
        .cons (Report.mirrors_of ..) .nil⟩
    | pass unreached =>
      exact ⟨_, _, _, .pass (mirrors.unreached priced now checks also unreached), mirrors, others,
        .nil⟩

/-- An execution and its mirror send the same reports and end in mirrored books. -/
theorem Finishes.mirrored {final : Book} (chain : book.Finishes tasks final reports)
    (mirrors : book.Mirrors bound mirror) (priced : book.Priced bound stops)
    (ready : ∀ task ∈ tasks, task.Below bound book.record.lastPrice) {images : List Task}
    (same : List.Forall₂ (Task.Mirrors bound stops) tasks images) :
    ∃ image reported, mirror.Finishes images image reported ∧ final.Mirrors bound image ∧
      final.Priced bound stops ∧ List.Forall₂ (Report.Mirrors bound) reports reported := by
  induction chain generalizing mirror images with
  | done book =>
    obtain rfl := List.forall₂_nil_left_iff.mp same
    exact ⟨mirror, [], .done mirror, mirrors, priced, .nil⟩
  | move first rest induction =>
    obtain ⟨next, others, now, move, books, left, reported⟩ :=
      first.mirrored mirrors priced ready same
    obtain ⟨kept, able⟩ := first.priced priced ready
    obtain ⟨image, later, chain, ends, below, also⟩ := induction books kept able left
    exact ⟨image, now ++ later, .move move chain, ends, below, List.rel_append reported also⟩

/-- Doing every task, and the mirror of every task. -/
theorem Mirrors.work (mirrors : book.Mirrors bound mirror) (priced : book.Priced bound stops)
    (ready : ∀ task ∈ tasks, task.Below bound book.record.lastPrice) {images : List Task}
    (same : List.Forall₂ (Task.Mirrors bound stops) tasks images) :
    (book.work tasks).1.Mirrors bound (mirror.work images).1 ∧
      (book.work tasks).1.Priced bound stops ∧
      List.Forall₂ (Report.Mirrors bound) (book.work tasks).2 (mirror.work images).2 := by
  obtain ⟨image, reported, chain, ends, below, reports⟩ :=
    (book.work_finishes tasks).mirrored mirrors priced ready same
  rw [(finishes_iff ..).mp chain]
  exact ⟨ends, below, reports⟩

end Moves

end Book

end Bourse
