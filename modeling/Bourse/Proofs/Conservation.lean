import Bourse.Proofs.Bookkeeping
import Bourse.Proofs.DayRecord

/-!
# What is bought is sold

Every trade is reported on both of its sides, and counted in the record of the day. So the
fills that the reports tell of, taken for the purchases alone or for the sales alone, are the
same trades in the same order, and the record sums up just these.

That the reports and the record agree rests on the fills being of the quantity that was
traded. A fill of more than is left of an order would be cut down to that in the report and
would be recorded in full; no trade is of more than is left of either order.
-/

namespace Bourse

/-- Whether a report tells of a fill for a flow. -/
def Report.fills (flow : Flow) (report : Report) : Bool :=
  report.kind.isFill && report.side.flow == flow

/-- What was filled for a flow, in the order of the reports. -/
def dealsOf (flow : Flow) (sent : List Report) : List Deal :=
  (sent.filter (·.fills flow)).map fun report => ⟨report.lastPrice, report.lastQuantity⟩

/-- The deals in more reports stand behind those in the first. -/
theorem deals_of_append (flow : Flow) (sent later : List Report) :
    dealsOf flow (sent ++ later) = dealsOf flow sent ++ dealsOf flow later := by
  simp only [dealsOf, List.filter_append, List.map_append]

/-- Where nothing is filled there is no trade. -/
theorem Moment.Tradeless.deals {moment : Moment} (tradeless : moment.Tradeless) (flow : Flow) :
    dealsOf flow moment.reports = [] := by
  have none : moment.reports.filter (·.fills flow) = [] := by
    apply List.filter_eq_nil_iff.mpr
    intro report member
    simp [Report.fills, tradeless.reports report member]
  rw [dealsOf, none, List.map_nil]

/-- Both sides of a trade tell of it. -/
theorem Moment.Trade.deals {moment : Moment} {maker : Queue.Entry} {taker : Order}
    {ofMaker ofTaker : Report} (trade : moment.Trade maker taker ofMaker ofTaker) (flow : Flow) :
    dealsOf flow moment.reports = [⟨ofMaker.lastPrice, ofMaker.lastQuantity⟩] := by
  obtain ⟨fillsMaker, fillsTaker⟩ := trade.fills
  have one : ofTaker.side.flow = flow ↔ ¬ ofMaker.side.flow = flow := by
    rw [trade.opposite]
    cases ofMaker.side.flow <;> cases flow <;> decide
  by_cases own : ofMaker.side.flow = flow
  · have other : ¬ ofTaker.side.flow = flow := fun same => one.mp same own
    simp [trade.reports, dealsOf, Report.fills, fillsMaker, own, other]
  · have other : ofTaker.side.flow = flow := one.mpr own
    simp [trade.reports, dealsOf, Report.fills, fillsTaker, own, other, trade.samePrice,
      trade.sameQuantity]

/-- The reports of both sides tell of the same trades, and the record sums them up. -/
structure Conserved (seed : Record) (sent : List Report) (record : Record) : Prop where
  balanced : dealsOf .buying sent = dealsOf .selling sent
  sums : SumsUp seed (dealsOf .buying sent) record

namespace Conserved

variable {seed record : Record} {sent : List Report} {moment : Moment}

/-- Reports without a fill add nothing. -/
theorem tradeless (conserved : Conserved seed sent record) (tradeless : moment.Tradeless) :
    Conserved seed (sent ++ moment.reports) record := by
  have same (flow : Flow) : dealsOf flow (sent ++ moment.reports) = dealsOf flow sent := by
    rw [deals_of_append, tradeless.deals, List.append_nil]
  constructor
  · rw [same, same, conserved.balanced]
  · rw [same]
    exact conserved.sums

/-- A trade is added on both sides and to the record. -/
theorem trade {maker : Queue.Entry} {taker : Order} {ofMaker ofTaker : Report}
    (conserved : Conserved seed sent moment.before.record) (counts : moment.before.record.Sound)
    (trade : moment.Trade maker taker ofMaker ofTaker) (price : 0 < ofMaker.lastPrice) :
    Conserved seed (sent ++ moment.reports) moment.after.record := by
  constructor
  · rw [deals_of_append, deals_of_append, trade.deals, trade.deals, conserved.balanced]
  · rw [deals_of_append, trade.deals, trade.recorded]
    exact conserved.sums.trade counts price trade.positive

end Conserved

namespace Book

section Conserved

variable {book next : Book} {seed : Record} {sent : List Report}

/-- Whatever an operation does at once trades nothing. -/
theorem Opens.conserved {operation : Operation} {outset : Outset}
    (opens : book.Opens operation outset) (sound : book.Sound)
    (conserved : Conserved seed sent book.record) :
    Conserved seed (sent ++ outset.reports) outset.book.record := by
  have same : Conserved seed (sent ++ outset.reports) book.record :=
    conserved.tradeless (opens.tradeless sound)
  rcases opens.record_kept with kept | published
  · rw [kept]
    exact same
  · rw [published]
    exact ⟨same.balanced, same.sums.with_depth ..⟩

/-- Every move adds a trade to both sides and to the record, or nothing to any of them. -/
theorem Move.conserved {tasks later : List Task} {reports : List Report}
    (move : book.Move tasks next later reports) (sound : book.Sound) (counts : book.record.Sound)
    (conserved : Conserved seed sent book.record) :
    Conserved seed (sent ++ reports) next.record := by
  rcases move.legal sound with tradeless | ⟨maker, taker, ofMaker, ofTaker, trade⟩
  · rw [move.record_kept tradeless.trades]
    exact conserved.tradeless tradeless
  · exact conserved.trade counts trade (trade.price_pos sound)

end Conserved

/-- A run from a record without a negative price conserves what is traded. -/
theorem run_conserved {first : Order} (priced : 0 ≤ first.price) (operations : List Operation) :
    Conserved (.seeded first.security first.price) ((ofFirst first).performAll operations).2
      ((ofFirst first).performAll operations).1.record := by
  have kept := sound_run_keeps
    (P := fun book _ sent => book.record.Sound ∧
      Conserved (.seeded first.security first.price) sent book.record)
    (fun opens sound holds =>
      ⟨(opens.steady ⟨sound, holds.1, by simp⟩).1.counts, opens.conserved sound holds.2⟩)
    (fun move sound ready holds =>
      ⟨(move.steady ⟨sound, holds.1, ready⟩).1.counts, move.conserved sound holds.1 holds.2⟩)
    (fun _ holds => holds) first operations
    ⟨Record.sound_of_seeded _ priced, rfl, .nil ..⟩
  exact kept.2.2

/-- In every run of a book that a request opened, the purchases and the sales that the
reports tell of come to the same quantity and the same value, being the same trades; and
the picture of the book sums them up. -/
theorem trades_are_conserved {id : OrderId} {request : NewOrder} {first : Order}
    (built : Order.ofNew id request = .ok first) (operations : List Operation) :
    let sent := ((ofFirst first).performAll operations).2
    totalQuantity (dealsOf .buying sent) = totalQuantity (dealsOf .selling sent) ∧
      totalValue (dealsOf .buying sent) = totalValue (dealsOf .selling sent) ∧
      dealsOf .buying sent = dealsOf .selling sent ∧
      SumsUp (.seeded first.security first.price) (dealsOf .buying sent)
        ((ofFirst first).performAll operations).1.picture := by
  intro sent
  have conserved := run_conserved (Order.price_of_new built).1 operations
  exact ⟨congrArg totalQuantity conserved.balanced, congrArg totalValue conserved.balanced,
    conserved.balanced, conserved.sums.with_depth ..⟩

/-- The market order trades at ten, which sets off the stop order that trades at nine with
the order that was replaced. -/
theorem eventful_day_conserved :
    Order.ofNew ⟨1⟩ firstSale = .ok openingOrder ∧
      let sent := ((ofFirst openingOrder).performAll eventfulDay).2
      dealsOf .selling sent = [⟨10, 3⟩, ⟨9, 3⟩] ∧
        totalValue (dealsOf .buying sent) = totalValue (dealsOf .selling sent) ∧
        SumsUp (.seeded openingOrder.security openingOrder.price) (dealsOf .buying sent)
          ((ofFirst openingOrder).performAll eventfulDay).1.picture := by
  have built : Order.ofNew ⟨1⟩ firstSale = .ok openingOrder := by rfl
  have conserved := trades_are_conserved built eventfulDay
  exact ⟨built, by decide, conserved.2.1, conserved.2.2.2⟩

end Book

end Bourse
