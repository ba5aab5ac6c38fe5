import Bourse.Proofs.Prices

/-!
# No reached stop order stays parked

Between operations the last price is beyond the stop price of no parked order. While an
order is traded this need not hold: the last price may have moved past a parked order, but
then a check is still to come. What is known of a flow therefore depends on the tasks that
are still to be done. A check that begins with purchases settles both flows, and a check
that has come to the sales settles these alone, so the purchases have to be known by then.
Every trade on the way puts another whole check in front, so nothing needs to be known
after it.
-/

namespace Bourse

namespace Book

/-- The last price, if there is one, reaches no parked order of a flow. -/
def Unreached (book : Book) (flow : Flow) : Prop :=
  book.record.hasTraded = true → ∀ entry ∈ (book.parked flow).entries,
    flow.reaches book.record.lastPrice entry.order.stopPrice = false

/-- Once there was a trade, every parked purchase waits for a higher price than the last
one, and every parked sale for a lower price. -/
def StopsWait (book : Book) : Prop :=
  book.record.hasTraded = true →
    (∀ entry ∈ book.stopBuys.entries, book.record.lastPrice < entry.order.stopPrice) ∧
      ∀ entry ∈ book.stopSells.entries, entry.order.stopPrice < book.record.lastPrice

/-- The stop orders of both flows wait if neither flow has one that is reached. -/
theorem stops_wait_of_unreached {book : Book} (unreached : ∀ flow, book.Unreached flow) :
    book.StopsWait := by
  intro traded
  constructor
  · intro entry member
    have purchase := unreached .buying traded entry member
    simpa [Flow.reaches] using purchase
  · intro entry member
    have sale := unreached .selling traded entry member
    simpa [Flow.reaches] using sale

/-- What is known of the parked orders before some tasks are done. -/
def Known (book : Book) : List Task → Prop
  | [] => ∀ flow, book.Unreached flow
  | .trade _ :: tasks => book.Known tasks
  | .check .buying :: _ => True
  | .check .selling :: _ => book.Unreached .buying

/-- Where no parked order is reached, whatever tasks may follow. -/
theorem known_of_unreached {book : Book} (unreached : ∀ flow, book.Unreached flow)
    (tasks : List Task) : book.Known tasks := by
  induction tasks with
  | nil => exact unreached
  | cons task tasks induction =>
    cases task with
    | trade order => exact induction
    | check flow =>
      cases flow with
      | buying => trivial
      | selling => exact unreached .buying

/-- Parked orders with old stop prices are reached as little as before. -/
theorem Unreached.no_new_stop_price {book next : Book} {flow : Flow}
    (unreached : book.Unreached flow) (prices : book.NoNewStopPrice next) :
    next.Unreached flow := by
  intro traded entry member
  simp only [Record.hasTraded, prices.trades] at traded
  obtain ⟨old, there, same⟩ := prices.parked flow entry member
  rw [prices.lastPrice, ← same]
  exact unreached traded old there

/-- What is known to wait is still known if there is no new stop price. -/
theorem known_no_new_stop_price {book next : Book} (prices : book.NoNewStopPrice next)
    {tasks : List Task} (known : book.Known tasks) : next.Known tasks := by
  induction tasks with
  | nil => exact fun flow => (known flow).no_new_stop_price prices
  | cons task tasks induction =>
    cases task with
    | trade order => exact induction known
    | check flow =>
      cases flow with
      | buying => trivial
      | selling => exact Unreached.no_new_stop_price known prices

/-- A stop price beyond one that is not reached is not reached either. -/
theorem unreached_beyond {flow : Flow} {traded stop beyond : Int}
    (unreached : flow.reaches traded stop = false)
    (further : flow.parkingDirection.better stop beyond = true ∨ stop = beyond) :
    flow.reaches traded beyond = false := by
  rcases further with better | rfl
  · cases flow with
    | buying =>
      simp only [Flow.reaches, Flow.parkingDirection, Direction.better, decide_eq_true_eq,
        decide_eq_false_iff_not] at unreached better ⊢
      omega
    | selling =>
      simp only [Flow.reaches, Flow.parkingDirection, Direction.better, decide_eq_true_eq,
        decide_eq_false_iff_not] at unreached better ⊢
      omega
  · exact unreached

/-- Where no order of a flow is released, the first parked one is not reached, and so none
behind it. -/
theorem unreached_of_release_none {book : Book} (sound : book.Sound) {flow : Flow}
    (nothing : book.releaseFrom flow = none) : book.Unreached flow := by
  intro traded entry member
  cases entries : (book.parked flow).entries with
  | nil => simp [entries] at member
  | cons first behind =>
    have unreached : flow.reaches book.record.lastPrice first.order.stopPrice = false := by
      by_contra reached
      have releases : book.Releases flow first behind := ⟨entries, by simpa using reached⟩
      have released := (release_from_iff ..).mpr ⟨first, behind, releases, rfl, rfl⟩
      rw [nothing] at released
      contradiction
    rcases (sound.parked flow).first_best entries entry member with rfl | better | ⟨same, -⟩
    · exact unreached
    · exact unreached_beyond unreached (.inl better)
    · exact unreached_beyond unreached (.inr same)

/-- A stop order that is parked because it is not reached joins others that are not. -/
theorem Unreached.parked {book : Book} {order : Order}
    (unreached : ∀ flow, book.Unreached flow)
    (waits : book.record.hasTraded = true →
      order.flow.reaches book.record.lastPrice order.stopPrice = false) (flow : Flow) :
    (book.withParked order.flow
      ((book.parked order.flow).insert order.stopPrice order)).Unreached flow := by
  refine Flow.forall_of_contra (P := fun flow => Unreached _ flow) order.flow ?_ ?_ flow
  · intro traded entry member
    rw [record_with_parked] at traded ⊢
    rw [parked_with_parked] at member
    rcases (Queue.mem_insert ..).mp member with rfl | ⟨before, -⟩
    · exact waits traded
    · exact unreached order.flow traded entry before
  · intro traded entry member
    rw [record_with_parked] at traded ⊢
    rw [contra_with_parked] at member
    exact unreached order.flow.contra traded entry member

/-- An operation parks no order that is reached. -/
theorem Leaves.known {book next : Book} {tasks : List Task} (leaves : book.Leaves next tasks)
    (known : ∀ flow, book.Unreached flow) : next.Known tasks := by
  cases leaves with
  | settled prices => exact fun flow => (known flow).no_new_stop_price prices.toNoNewStopPrice
  | live prices => exact fun flow => (known flow).no_new_stop_price prices.toNoNewStopPrice
  | parked prices unreached =>
    have before flow := (known flow).no_new_stop_price prices.toNoNewStopPrice
    exact Unreached.parked before unreached

/-- Every move leaves as much known as the tasks after it need. -/
theorem Move.known {book next : Book} {tasks later : List Task} {reports : List Report}
    (move : book.Move tasks next later reports) (sound : book.Sound)
    (known : book.Known tasks) : next.Known later := by
  cases move with
  | trade traded => trivial
  | settle stuck left => exact known_no_new_stop_price (book.rest_remainder_parked _) known
  | finish stuck spent => exact known
  | @release flow side order next _ released =>
    obtain ⟨fromSide, begun⟩ := (release_iff ..).mp released
    obtain ⟨entry, behind, releases, rfl, rfl⟩ := (release_from_iff ..).mp fromSide
    cases side with
    | buying => trivial
    | selling =>
      have purchases : book.Unreached .buying := by
        rcases begun with rfl | ⟨rfl, -, nothing⟩
        · exact known
        · exact unreached_of_release_none sound nothing
      exact purchases.no_new_stop_price releases.prices.toNoNewStopPrice
  | @pass flow _ nothing =>
    obtain ⟨sales, purchases⟩ := (release_none_iff ..).mp nothing
    refine known_of_unreached (fun side => ?_) _
    cases side with
    | buying =>
      cases flow with
      | buying => exact unreached_of_release_none sound (purchases rfl)
      | selling => exact known
    | selling => exact unreached_of_release_none sound sales

/-- Between operations no stop order is parked whose stop price is reached, whatever the
operations are and whatever order the book began with. -/
theorem stops_wait (first : Order) (operations : List Operation) :
    ((ofFirst first).performAll operations).1.StopsWait := by
  have kept := sound_run_keeps (P := fun book tasks _ => book.Known tasks)
    (fun opens sound known => (opens.leaves sound).known known)
    (fun move sound _ known => move.known sound known)
    (fun changes known =>
      known_no_new_stop_price (NoNewPrice.marked _ changes).toNoNewStopPrice known)
    first operations
    (by
      intro flow traded
      simp [ofFirst, Record.seeded, Record.blank, Record.hasTraded] at traded)
  exact stops_wait_of_unreached kept.2

end Book

end Bourse
