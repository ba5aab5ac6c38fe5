import Bourse.Proofs.Trades
import Mathlib.Algebra.Ring.Int.Defs

/-!
# The record of a day

The figures of a record, apart from its depth, are those that it was seeded with and what
became of them in trades. `SumsUp` says what a record shows after trades in a row, without
going through them one by one: their number, their sums, the last of them, and the highest
and the lowest of their prices. The totals stop at the greatest signed word, and stay there.

A trade of a book is the only thing that changes these figures, and a publication the only
other thing that touches the record: `Move.record_kept`, `Opens.record_kept`. So no total
of a run ever becomes negative, and the number of trades never falls: `Move.steady`,
`perform_all_steady`.
-/

namespace Bourse

/-- What a trade comes to: a quantity at a price. -/
structure Deal where
  price : Int
  quantity : Int
  deriving DecidableEq, Repr

/-- The value of a trade. -/
def Deal.value (deal : Deal) : Int := deal.quantity * deal.price

/-- The quantity of trades together. -/
def totalQuantity (deals : List Deal) : Int := (deals.map (·.quantity)).sum

/-- The value of trades together. -/
def totalValue (deals : List Deal) : Int := (deals.map Deal.value).sum

/-- A further deal adds its quantity. -/
theorem total_quantity_append (deals : List Deal) (deal : Deal) :
    totalQuantity (deals ++ [deal]) = totalQuantity deals + deal.quantity := by
  simp [totalQuantity]

/-- It adds its value. -/
theorem total_value_append (deals : List Deal) (deal : Deal) :
    totalValue (deals ++ [deal]) = totalValue deals + deal.value := by
  simp [totalValue]

/-- The direction from one price to another. -/
def Trend.towards (earlier later : Int) : Trend :=
  if earlier < later then .up else if later < earlier then .down else .flat

/-- The direction from the last price but one to the last price; flat for a single trade. -/
def trendOf (deals : List Deal) : Trend :=
  match deals.reverse with
  | last :: before :: _ => .towards before.price last.price
  | _ => .flat

/-- The record of a day that began with another record and saw trades in a row. Without a
trade the average is zero, as the volume is. -/
structure SumsUp (seed : Record) (deals : List Deal) (record : Record) : Prop where
  trades : record.trades = deals.length
  volume : record.volume = min Word.greatest (totalQuantity deals)
  value : record.value = min Word.greatest (totalValue deals)
  divisible : deals ≠ [] → 0 < record.volume
  average : record.weightedAverage = record.value.tdiv record.volume
  lastPrice : record.lastPrice = (deals.getLast?.map (·.price)).getD 0
  lastQuantity : record.lastQuantity = (deals.getLast?.map (·.quantity)).getD 0
  highest : record.highPrice = (deals.map (·.price)).foldl max seed.highPrice
  lowest : record.lowPrice = (deals.map (·.price)).foldl min seed.lowPrice
  trend : record.trend = trendOf deals
  seeded : record.openPrice = seed.openPrice ∧ record.closePrice = seed.closePrice ∧
    record.lowerLimit = seed.lowerLimit ∧ record.upperLimit = seed.upperLimit

/-- The trend of one more trade is its direction from the last one. -/
theorem trend_of_append (deals : List Deal) (last deal : Deal) :
    trendOf (deals ++ [last] ++ [deal]) = .towards last.price deal.price := by
  simp [trendOf]

namespace SumsUp

variable {seed record : Record} {deals : List Deal} {deal : Deal}

/-- A seeded record is that of a day without trades. -/
theorem nil (security : String) (price : Int) :
    SumsUp (.seeded security price) [] (.seeded security price) :=
  ⟨rfl, rfl, rfl, fun some => absurd rfl some, rfl, rfl, rfl, rfl, rfl, rfl, rfl, rfl, rfl, rfl⟩

/-- The depth is none of the figures of a day. -/
theorem with_depth (sums : SumsUp seed deals record) (buys sells : Depth) :
    SumsUp seed deals (record.withDepth buys sells) :=
  ⟨sums.trades, sums.volume, sums.value, sums.divisible, sums.average, sums.lastPrice,
    sums.lastQuantity, sums.highest, sums.lowest, sums.trend, sums.seeded⟩

/-- The direction in which a trade moves the last price is the trend of the day with it. -/
theorem trend_to (sums : SumsUp seed deals record) (deal : Deal) :
    record.trendTo deal.price = trendOf (deals ++ [deal]) := by
  rcases List.eq_nil_or_concat deals with rfl | ⟨before, last, rfl⟩
  · have untraded : record.hasTraded = false := by simp [Record.hasTraded, sums.trades]
    simp [Record.trendTo, untraded, trendOf]
  · rw [List.concat_eq_append] at sums ⊢
    have traded : record.hasTraded = true := by simp [Record.hasTraded, sums.trades]
    have price : record.lastPrice = last.price := by simp [sums.lastPrice]
    rw [trend_of_append, Record.trendTo, traded, price, Trend.towards]
    rcases Int.lt_trichotomy last.price deal.price with less | same | greater
    · simp [less, Int.ne_of_gt less]
    · simp [same]
    · simp [greater, Int.ne_of_lt greater, Int.lt_asymm greater]

end SumsUp

/-- A total that stops at the greatest word takes a positive amount as if it had not. -/
theorem saturated_total {total sum amount : Int} (stopped : total = min Word.greatest sum)
    (nonneg : 0 ≤ total) (positive : 0 < amount) :
    Word.saturated (total + amount) = min Word.greatest (sum + amount) := by
  simp only [Word.saturated, Word.greatest, Word.least] at stopped ⊢
  omega

/-- A total that stops at the greatest word is positive behind a positive amount. -/
theorem saturated_pos {total amount : Int} (nonneg : 0 ≤ total) (positive : 0 < amount) :
    0 < Word.saturated (total + amount) := by
  simp only [Word.saturated, Word.greatest, Word.least]
  omega

/-- What no trade makes negative. -/
structure Record.Sound (record : Record) : Prop where
  volume_nonneg : 0 ≤ record.volume
  value_nonneg : 0 ≤ record.value
  low_nonneg : 0 ≤ record.lowPrice

namespace Record

variable {record : Record} {price quantity : Int}

/-- A record that begins with a price is sound. -/
theorem sound_of_seeded (security : String) (nonneg : 0 ≤ price) : (seeded security price).Sound :=
  ⟨Int.le_refl 0, Int.le_refl 0, nonneg⟩

/-- It is sound with any depth. -/
theorem Sound.with_depth (sound : record.Sound) (buys sells : Depth) :
    (record.withDepth buys sells).Sound :=
  ⟨sound.volume_nonneg, sound.value_nonneg, sound.low_nonneg⟩

/-- It is sound after a trade of something at a price. -/
theorem Sound.trade (sound : record.Sound) (price_pos : 0 < price) (quantity_pos : 0 < quantity) :
    (record.trade price quantity).Sound where
  volume_nonneg := Int.le_of_lt (saturated_pos sound.volume_nonneg quantity_pos)
  value_nonneg :=
    Int.le_of_lt (saturated_pos sound.value_nonneg (Int.mul_pos quantity_pos price_pos))
  low_nonneg := by
    have := sound.low_nonneg
    simp only [Record.trade]
    split <;> omega

end Record

/-- One more trade. -/
theorem SumsUp.trade {seed record : Record} {deals : List Deal} (sums : SumsUp seed deals record)
    (sound : record.Sound) {deal : Deal} (price : 0 < deal.price) (quantity : 0 < deal.quantity) :
    SumsUp seed (deals ++ [deal]) (record.trade deal.price deal.quantity) where
  trades := by
    rw [List.length_append]
    exact congrArg (· + 1) sums.trades
  volume := by
    rw [total_quantity_append]
    exact saturated_total sums.volume sound.volume_nonneg quantity
  value := by
    rw [total_value_append]
    exact saturated_total sums.value sound.value_nonneg (Int.mul_pos quantity price)
  divisible := fun _ => saturated_pos sound.volume_nonneg quantity
  average := rfl
  lastPrice := by simp [Record.trade]
  lastQuantity := by simp [Record.trade]
  highest := by
    simp only [List.map_append, List.map_cons, List.map_nil, List.foldl_append, List.foldl_cons,
      List.foldl_nil, ← sums.highest, Record.trade]
    split <;> omega
  lowest := by
    have := sound.low_nonneg
    simp only [List.map_append, List.map_cons, List.map_nil, List.foldl_append, List.foldl_cons,
      List.foldl_nil, ← sums.lowest, Record.trade]
    split <;> omega
  trend := sums.trend_to deal
  seeded := sums.seeded

/-- A trade in a sound book has a price. -/
theorem Moment.Trade.price_pos {moment : Moment} {maker : Queue.Entry} {taker : Order}
    {ofMaker ofTaker : Report} (trade : moment.Trade maker taker ofMaker ofTaker)
    (sound : moment.before.Sound) : 0 < ofMaker.lastPrice := by
  have rests := (sound.resting ofMaker.side.flow).lawful maker trade.present
  rw [trade.price]
  exact rests.price.positive

namespace Book

variable {book next : Book}

/-- A request changes a queue, and not the record. -/
theorem Named.record_kept {flow : Flow} {id : OrderId} {old : Order}
    {change : {direction : Direction} → Queue direction → Queue direction}
    (named : book.Named flow id old change next) : next.record = book.record := by
  cases named with
  | resting found => exact record_with_resting ..
  | parked found => exact record_with_parked ..

/-- An order on its way to the market leaves the record as it is. -/
theorem Routes.record_kept {order : Order} {outset : Outset} (routes : book.Routes order outset) :
    outset.book.record = book.record := by
  cases routes with
  | live live => rfl
  | reached waits traded reached => rfl
  | parked waits unreached => exact record_with_parked ..

/-- What an operation does at once leaves the record as it is, or publishes it. -/
theorem Opens.record_kept {operation : Operation} {outset : Outset}
    (opens : book.Opens operation outset) :
    outset.book.record = book.record ∨ outset.book = book.publish.2 := by
  cases opens with
  | absent => exact .inl rfl
  | refused kind image reason rejects => exact .inl rfl
  | insert built active positive routes => exact .inl routes.record_kept
  | requeue built active amended routes =>
    obtain ⟨old, -, -, -, named⟩ := amend_ok amended
    exact .inl (routes.record_kept.trans named.record_kept)
  | keep built active amended stays =>
    obtain ⟨old, -, -, -, named⟩ := amend_ok amended
    exact .inl named.record_kept
  | @expire _ _ order next built active amended immediate =>
    obtain ⟨old, -, -, -, named⟩ := amend_ok amended
    refine .inl (.trans ?_ named.record_kept)
    rcases next.drop_immediate_cases order with ⟨same, -⟩ | ⟨_, -, dropped, -⟩
    · exact congrArg Book.record same
    · exact (congrArg Book.record dropped).trans (record_with_resting ..)
  | cancel withdrawn =>
    obtain ⟨old, -, named⟩ := withdraw_ok withdrawn
    exact .inl named.record_kept
  | start => exact .inl rfl
  | stop => exact .inl rfl
  | publish => exact .inr rfl

/-- A move that is counted as no trade leaves the record as it is. -/
theorem Move.record_kept {tasks later : List Task} {reports : List Report}
    (move : book.Move tasks next later reports)
    (untraded : next.record.trades = book.record.trades) : next.record = book.record := by
  cases move with
  | @trade taker _ _ _ _ traded =>
    obtain ⟨maker, behind, -, -, rfl, -⟩ := (trade_once_iff ..).mp traded
    have counted : book.record.trades + 1 = book.record.trades := untraded
    omega
  | settle stuck left => exact record_rest_remainder ..
  | finish stuck spent => rfl
  | release released =>
    obtain ⟨entry, behind, -, -, rfl⟩ := releases_of_release released
    exact record_with_parked ..
  | pass unreached => rfl

/-- A sound book with a sound record, in the middle of a run, and tasks whose orders may be
traded. -/
structure Steady (book : Book) (tasks : List Task) : Prop where
  sound : book.Sound
  counts : book.record.Sound
  ready : ∀ task ∈ tasks, task.Sound

/-- A book without tasks stays steady under a mark. -/
theorem Steady.marked {book : Book} (steady : book.Steady []) (changes : Bool) :
    (Outset.marked changes book).Steady [] :=
  ⟨steady.sound.marked changes, steady.counts, steady.ready⟩

/-- Every move leaves a steady book, and no fewer trades. -/
theorem Move.steady {book next : Book} {tasks later : List Task} {reports : List Report}
    (move : book.Move tasks next later reports) (steady : book.Steady tasks) :
    next.Steady later ∧ book.record.trades ≤ next.record.trades := by
  obtain ⟨sound, ready⟩ := move.sound steady.sound steady.ready
  rcases move.legal steady.sound with tradeless | ⟨maker, taker, ofMaker, ofTaker, trade⟩
  · have kept : next.record = book.record := move.record_kept tradeless.trades
    exact ⟨⟨sound, kept ▸ steady.counts, ready⟩, Int.le_of_eq tradeless.trades.symm⟩
  · have recorded : next.record = book.record.trade ofMaker.lastPrice ofMaker.lastQuantity :=
      trade.recorded
    rw [recorded]
    refine ⟨⟨sound, ?_, ready⟩, Int.le_of_lt (Int.lt_succ _)⟩
    rw [recorded]
    exact steady.counts.trade (trade.price_pos steady.sound) trade.positive

/-- So do the steps of a run. -/
theorem run_steady (fuel : Nat) {book : Book} {tasks : List Task} (steady : book.Steady tasks) :
    (run fuel book tasks).1.Steady [] ∧
      book.record.trades ≤ (run fuel book tasks).1.record.trades := by
  have still : book.Steady [] := ⟨steady.sound, steady.counts, by simp⟩
  induction fuel generalizing book tasks with
  | zero => exact ⟨still, Int.le_refl _⟩
  | succ fuel induction =>
    cases stepped : book.step tasks with
    | none =>
      simp only [run, stepped]
      exact ⟨still, Int.le_refl _⟩
    | some result =>
      obtain ⟨next, later, reports⟩ := result
      obtain ⟨moved, more⟩ := ((step_iff ..).mp stepped).steady steady
      obtain ⟨final, most⟩ := induction moved ⟨moved.sound, moved.counts, by simp⟩
      simp only [run, stepped]
      exact ⟨final, Int.le_trans more most⟩

/-- An operation leaves a steady book at once, and as many trades as before. -/
theorem Opens.steady {book : Book} {operation : Operation} {outset : Outset}
    (opens : book.Opens operation outset) (steady : book.Steady []) :
    outset.book.Steady outset.tasks ∧ outset.book.record.trades = book.record.trades := by
  obtain ⟨sound, ready⟩ := opens.sound steady.sound
  rcases opens.record_kept with kept | published
  · exact ⟨⟨sound, kept ▸ steady.counts, ready⟩, by rw [kept]⟩
  · refine ⟨⟨sound, ?_, ready⟩, by rw [published]; rfl⟩
    rw [published]
    exact steady.counts.with_depth ..

/-- A settled book stays so under every operation, and counts no fewer trades after it. -/
theorem perform_steady {book : Book} (steady : book.Steady []) (operation : Operation) :
    (book.perform operation).1.Steady [] ∧
      book.record.trades ≤ (book.perform operation).1.record.trades := by
  obtain ⟨opened, same⟩ := (book.opens_outset operation).steady steady
  obtain ⟨worked, more⟩ := run_steady
    ((book.outset operation).book.potential (book.outset operation).tasks) opened
  rw [perform_eq, ← same]
  exact ⟨worked.marked _, more⟩

/-- Operations in a row leave a steady book, and no fewer trades. -/
theorem perform_all_steady {book : Book} (steady : book.Steady []) (operations : List Operation) :
    (book.performAll operations).1.Steady [] ∧
      book.record.trades ≤ (book.performAll operations).1.record.trades := by
  induction operations generalizing book with
  | nil => exact ⟨steady, Int.le_refl _⟩
  | cons operation operations induction =>
    obtain ⟨performed, more⟩ := perform_steady steady operation
    obtain ⟨final, most⟩ := induction performed
    exact ⟨final, Int.le_trans more most⟩

end Book

end Bourse
