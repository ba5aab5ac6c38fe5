import Bourse.Market
import Bourse.Proofs.Conservation

/-!
# The range of a day's prices

The highest and the lowest price of a record begin with the price of the order that its book
was created for, and every trade widens the range between them to its own price. `Spans` says
so of the reports sent so far; every move of an execution keeps it: `Move.spans`.

An order without a limit has no price, which it writes as zero, and a record takes only a
negative lowest price for none. So whether the lowest price of a day is the price of anything
depends on the first order alone: it is, for good, if that order has a limit. Otherwise it is
zero throughout the day, whatever is traded, while the highest price is right from the first
trade on.
-/

namespace Bourse

/-- A trade raises the highest price to its own. -/
theorem Record.high_trade (record : Record) (price quantity : Int) :
    (record.trade price quantity).highPrice = max record.highPrice price := by
  simp only [Record.trade]
  split <;> omega

/-- A trade lowers the lowest price to its own, if there is a lowest price. -/
theorem Record.low_trade {record : Record} (known : 0 ≤ record.lowPrice) (price quantity : Int) :
    (record.trade price quantity).lowPrice = min record.lowPrice price := by
  simp only [Record.trade]
  split <;> omega

/-- A fresh order has no price exactly if it has no limit of its own. -/
theorem Order.unpriced_iff_of_new {id : OrderId} {request : NewOrder} {order : Order}
    (built : ofNew id request = .ok order) :
    order.price = 0 ↔ order.type.isLimited = false := by
  obtain ⟨prices, -, -, type, -⟩ := new_ok built
  rw [type]
  cases limited : request.type.isLimited with
  | true =>
    have := ((required_prices_allowed prices).1 limited).positive
    simp only [reduceCtorEq, iff_false]
    omega
  | false => simp [required_price_unused limited prices]

/-- The range of a record, which began with a price, has grown to the prices of all fills that
reports tell of, and to no other. -/
structure Spans (seed : Int) (sent : List Report) (record : Record) : Prop where
  covers : ∀ report ∈ sent, report.kind.isFill = true →
    PriceAllowed report.lastPrice ∧ record.lowPrice ≤ report.lastPrice ∧
      report.lastPrice ≤ record.highPrice
  bounded : record.highPrice ≤ maxPrice
  /-- The lowest price is the first price or the price of a trade, and it was never negative. -/
  lowest : 0 ≤ record.lowPrice ∧ (record.lowPrice = 0 ↔ seed = 0)

namespace Spans

variable {seed : Int} {sent : List Report} {record : Record} {moment : Moment}

/-- A day begins with the price of its first order. -/
theorem seeded (security : String) {price : Int} (priced : 0 ≤ price ∧ price ≤ maxPrice) :
    Spans price [] (.seeded security price) :=
  ⟨by simp, priced.2, priced.1, Iff.rfl⟩

/-- The depth is no price of a trade. -/
theorem with_depth (spans : Spans seed sent record) (buys sells : Depth) :
    Spans seed sent (record.withDepth buys sells) :=
  ⟨spans.covers, spans.bounded, spans.lowest⟩

/-- Reports without a fill widen nothing. -/
theorem tradeless (spans : Spans seed sent record) (tradeless : moment.Tradeless) :
    Spans seed (sent ++ moment.reports) record where
  covers := by
    intro report member filled
    rcases List.mem_append.mp member with before | now
    · exact spans.covers report before filled
    · rw [tradeless.reports report now] at filled
      contradiction
  bounded := spans.bounded
  lowest := spans.lowest

/-- A trade widens the range to its price. -/
theorem trade {maker : Queue.Entry} {taker : Order} {ofMaker ofTaker : Report}
    (spans : Spans seed sent moment.before.record)
    (trade : moment.Trade maker taker ofMaker ofTaker) (allowed : PriceAllowed ofMaker.lastPrice) :
    Spans seed (sent ++ moment.reports) moment.after.record := by
  have bounded := spans.bounded
  obtain ⟨nonneg, unset⟩ := spans.lowest
  have positive := allowed.positive
  have atMost := allowed.bounded
  have high : moment.after.record.highPrice =
      max moment.before.record.highPrice ofMaker.lastPrice := by
    rw [trade.recorded, Record.high_trade]
  have low : moment.after.record.lowPrice =
      min moment.before.record.lowPrice ofMaker.lastPrice := by
    rw [trade.recorded, Record.low_trade nonneg]
  refine ⟨?_, by omega, by omega⟩
  intro report member filled
  rcases List.mem_append.mp member with before | now
  · obtain ⟨priced, above, below⟩ := spans.covers report before filled
    exact ⟨priced, by omega, by omega⟩
  · have same : report.lastPrice = ofMaker.lastPrice := by
      rw [trade.reports] at now
      rcases List.mem_cons.mp now with rfl | now
      · rfl
      · rw [List.mem_singleton.mp now, trade.samePrice]
    rw [same]
    exact ⟨allowed, by omega, by omega⟩

end Spans

namespace Book

section Spans

variable {book next : Book} {seed : Int} {sent : List Report}

/-- What an operation does at once trades nothing. -/
theorem Opens.spans {operation : Operation} {outset : Outset}
    (opens : book.Opens operation outset) (sound : book.Sound)
    (spans : Spans seed sent book.record) :
    Spans seed (sent ++ outset.reports) outset.book.record := by
  have same : Spans seed (sent ++ outset.reports) book.record :=
    spans.tradeless (opens.tradeless sound)
  rcases opens.record_kept with kept | published
  · rw [kept]
    exact same
  · rw [published]
    exact same.with_depth ..

/-- Every move widens the range to the price of its trade, if it is one. -/
theorem Move.spans {tasks later : List Task} {reports : List Report}
    (move : book.Move tasks next later reports) (sound : book.Sound)
    (spans : Spans seed sent book.record) : Spans seed (sent ++ reports) next.record := by
  rcases move.legal sound with tradeless | ⟨maker, taker, ofMaker, ofTaker, trade⟩
  · rw [move.record_kept tradeless.trades]
    exact spans.tradeless tradeless
  · have rests := (sound.resting ofMaker.side.flow).lawful maker trade.present
    exact spans.trade trade (trade.price ▸ rests.price)

end Spans

/-- Along a run the range of the record is that of its first price and of its trades. -/
theorem run_spans {first : Order} (priced : 0 ≤ first.price ∧ first.price ≤ maxPrice)
    (operations : List Operation) :
    Spans first.price ((ofFirst first).performAll operations).2
      ((ofFirst first).performAll operations).1.record :=
  (sound_run_keeps (P := fun book _ sent => Spans first.price sent book.record)
    (fun opens sound spans => opens.spans sound spans)
    (fun move sound _ spans => move.spans sound spans)
    (fun _ spans => spans) first operations (.seeded first.security priced)).2

end Book

namespace Market

/-- A book that a closed market creates goes on like one that is closed as soon as it is
created. -/
theorem first_book_run (market : Market) (first : Order) (operations : List Operation) :
    ∃ more, (market.firstBook first).performAll operations =
      (Book.ofFirst first).performAll more := by
  unfold firstBook
  split
  · exact ⟨operations, rfl⟩
  · exact ⟨.stop :: operations, rfl⟩

/-- In every run of a book that a market creates for the first order of a security, the prices
of all trades so far lie between the lowest and the highest price of its picture, and they are
prices that an order may ask for, as is the highest one. The lowest one is such a price, with
or without a trade, exactly if the first order has a limit of its own; if it has none the
lowest price of the day stays zero. -/
theorem range_of_the_day (market : Market) {id : OrderId} {request : NewOrder} {first : Order}
    (built : Order.ofNew id request = .ok first) (operations : List Operation) :
    let run := (market.firstBook first).performAll operations
    (∀ report ∈ run.2, report.kind.isFill = true →
        1 ≤ report.lastPrice ∧ run.1.picture.lowPrice ≤ report.lastPrice ∧
          report.lastPrice ≤ run.1.picture.highPrice ∧ report.lastPrice ≤ maxPrice) ∧
      run.1.picture.highPrice ≤ maxPrice ∧
      (1 ≤ run.1.picture.lowPrice ↔ first.type.isLimited = true) ∧
      (first.type.isLimited = false → run.1.picture.lowPrice = 0) := by
  intro run
  obtain ⟨more, same⟩ := market.first_book_run first operations
  have spans : Spans first.price run.2 run.1.picture := by
    simp only [run, same]
    exact (Book.run_spans (Order.price_of_new built) more).with_depth ..
  obtain ⟨nonneg, unset⟩ := spans.lowest
  have priced : first.price = 0 ↔ first.type.isLimited = false :=
    Order.unpriced_iff_of_new built
  refine ⟨?_, spans.bounded, ?_, ?_⟩
  · intro report member filled
    obtain ⟨allowed, low, high⟩ := spans.covers report member filled
    exact ⟨allowed.positive, low, high, allowed.bounded⟩
  · rw [← Bool.not_eq_false, ← priced, ← unset]
    omega
  · intro unlimited
    exact unset.mpr (priced.mpr unlimited)

/-- A day that begins with a sale at ten and trades at ten and nine has nine as its lowest
price. -/
theorem eventful_day_range :
    let run := ((opened ⟨1⟩ 10).firstBook openingOrder).performAll eventfulDay
    Order.ofNew ⟨1⟩ firstSale = .ok openingOrder ∧
      (run.2.filter (·.kind.isFill)).map (·.lastPrice) = [10, 10, 9, 9] ∧
      run.1.picture.lowPrice = 9 ∧ run.1.picture.highPrice = 10 ∧
      1 ≤ run.1.picture.lowPrice ∧ run.1.picture.highPrice ≤ maxPrice := by
  intro run
  have built : Order.ofNew ⟨1⟩ firstSale = .ok openingOrder := by rfl
  obtain ⟨-, bounded, priced, -⟩ := (opened ⟨1⟩ 10).range_of_the_day built eventfulDay
  exact ⟨built, by decide, by decide, by decide, priced.mpr rfl, bounded⟩

/-- A purchase at any price. -/
def unpricedPurchase : NewOrder := ⟨"X", "a", "", .buy, .market, 1, none, none, .day, none⟩

/-- A day that begins with a purchase at any price, finds no sale, and then trades at fifty: the
lowest price of the day is zero, which nothing was traded at. -/
theorem unpriced_day_range :
    let first := (Order.ofNew ⟨1⟩ unpricedPurchase).toOption.getD default
    let enter id side : Operation :=
      .insert ⟨id⟩ ⟨"X", "a", "", side, .limit, 1, some 50, none, .day, none⟩
    let run := ((opened ⟨1⟩ 10).firstBook first).performAll
      [.insert ⟨1⟩ unpricedPurchase, enter 2 .sell, enter 3 .buy]
    Order.ofNew ⟨1⟩ unpricedPurchase = .ok first ∧ run.1.record.hasTraded = true ∧
      (run.2.filter (·.kind.isFill)).map (·.lastPrice) = [50, 50] ∧
      run.1.picture.highPrice = 50 ∧ run.1.picture.lowPrice = 0 ∧
      ¬ 1 ≤ run.1.picture.lowPrice := by
  decide

end Market

end Bourse
