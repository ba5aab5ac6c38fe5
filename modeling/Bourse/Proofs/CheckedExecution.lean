import Bourse.Proofs.CheckedAmounts

/-!
# Executions within words

An execution of orders that come from requests computes nothing that a signed word does not
hold, divides by no zero and fills no order with nothing or with more than is left. The
checked execution therefore comes to its end, and to the same book and the same reports.

The bounds on orders hold because books stay sound, and those on totals because no total
becomes negative. That the number of trades stays within a word is a condition on what an
execution comes to. It carries over to every moment of it, since the number never falls.
-/

namespace Bourse

namespace Queue

/-- A fill of the first order that fits into words. -/
theorem checked_fill_first {direction : Direction} {queue : Queue direction}
    {entry : Queue.Entry} {behind : List Queue.Entry} (entries : queue.entries = entry :: behind)
    {price quantity : Int} (sound : entry.order.Sound) (allowed : PriceAllowed price)
    (positive : 0 < quantity) (left : quantity ≤ entry.order.unfilled) :
    queue.checkedFillFirst price quantity = pure (queue.fillFirst? price quantity) := by
  have after := (sound.fill allowed positive left).reportable
  simp only [checkedFillFirst, fillFirst?, entries, sound.checked_fill allowed positive left,
    after.checked_pending, pure_bind]

end Queue

namespace Book

/-- Two orders that meet in a sound book trade within words, if theirs is not one trade too
many. -/
theorem Meets.checked_trade_once {book : Book} {taker : Order} {maker : Queue.Entry}
    {behind : List Queue.Entry} (meets : book.Meets taker maker behind) (sound : book.Sound)
    (counts : book.record.Sound) (trades : taker.Trades)
    (few : book.record.trades < Word.greatest) :
    book.checkedTradeOnce taker = pure (some (taker.fill maker.order.price
      (tradedQuantity taker maker.order), book.traded taker maker behind,
        fills taker maker.order)) := by
  obtain ⟨rests, ⟨-, ofTaker⟩, ofMaker⟩ := meets.orders sound trades
  obtain ⟨positive, leftTaker, leftMaker⟩ := meets.bounded
  have bounded : tradedQuantity taker maker.order ≤ maxQuantity :=
    Int.le_trans leftTaker trades.sound.unfilled_le
  have recorded := counts.checked_trade sound.counted few rests.price positive bounded
  have shown : ¬ taker.pending ≤ 0 := by
    have := meets.shown
    omega
  rw [checkedTradeOnce, trades.sound.reportable.checked_pending, pure_bind, if_neg shown]
  unfold tradedQuantity at *
  simp only [Queue.first?, Queue.orders, meets.first, List.map_cons, List.head?_cons,
    meets.accepted, rests.sound.reportable.checked_pending,
    Queue.checked_fill_first meets.first rests.sound rests.price positive leftMaker,
    Queue.fill_first_eq _ meets.first, trades.sound.checked_fill rests.price positive leftTaker,
    Report.checked_of_fill ofMaker.reportable, Report.checked_of_fill ofTaker.reportable,
    recorded, pure_bind]
  rfl

/-- An order that meets no other one is not traded with words either. -/
theorem Sound.checked_trade_none {book : Book} (sound : book.Sound) {taker : Order}
    (trades : taker.Trades) (stuck : book.tradeOnce taker = none) :
    book.checkedTradeOnce taker = pure none := by
  rw [checkedTradeOnce, trades.sound.reportable.checked_pending, pure_bind]
  by_cases unshown : taker.pending ≤ 0
  · rw [if_pos unshown]
  · rw [if_neg unshown]
    cases entries : (book.resting taker.flow.contra).entries with
    | nil => simp [Queue.first?, Queue.orders, entries]
    | cons maker behind =>
      cases accepted : taker.accepts maker.order.price with
      | false => simp [Queue.first?, Queue.orders, entries, accepted]
      | true =>
        -- what rests shows something, so the two would meet
        have rests := (sound.resting taker.flow.contra).lawful maker (by simp [entries])
        have shown := maker.order.pending_pos_iff.mpr rests.left
        have meets : book.Meets taker maker behind := ⟨entries, by omega, accepted⟩
        have traded := (trade_once_iff ..).mpr ⟨maker, behind, meets, rfl, rfl, rfl⟩
        rw [stuck] at traded
        contradiction

/-- The reports on what is left of an order are within words. -/
theorem checked_rest_remainder (book : Book) {order : Order} (reportable : order.Reportable) :
    book.checkedRestRemainder order = pure (book.restRemainder order) := by
  have limited : (order.limitedAt book.record.lastPrice).Reportable :=
    ⟨reportable.unfilled, reportable.average⟩
  unfold checkedRestRemainder restRemainder
  split
  · rw [Report.checked_of reportable, pure_bind]
  · split
    · split
      · rw [Report.checked_of reportable, pure_bind]
      · simp only [Report.checked_of limited, pure_bind]
    · rfl

/-- A step that leads to no more trades than a word counts is within words. -/
theorem Steady.checked_step {book : Book} {tasks : List Task} (steady : book.Steady tasks)
    (few : ∀ next later reports, book.step tasks = some (next, later, reports) →
      next.record.trades ≤ Word.greatest) :
    book.checkedStep tasks = pure (book.step tasks) := by
  cases tasks with
  | nil => rfl
  | cons task tasks =>
    cases task with
    | trade order =>
      have trades : order.Trades := steady.ready _ List.mem_cons_self
      cases traded : book.tradeOnce order with
      | some result =>
        obtain ⟨after, next, reports⟩ := result
        obtain ⟨maker, behind, meets, rfl, rfl, rfl⟩ := (trade_once_iff ..).mp traded
        have counted : book.record.trades + 1 ≤ Word.greatest :=
          few _ _ _ ((step_iff ..).mpr (.trade traded))
        rw [checkedStep, meets.checked_trade_once steady.sound steady.counts trades
          (by omega), pure_bind, step, traded]
      | none =>
        rw [checkedStep, steady.sound.checked_trade_none trades traded, pure_bind, step, traded]
        simp only [trades.sound.reportable.checked_unfilled, pure_bind]
        split
        · rw [checked_rest_remainder book trades.sound.reportable, pure_bind]
        · rfl
    | check flow =>
      cases released : book.release flow with
      | some result =>
        obtain ⟨side, order, next⟩ := result
        obtain ⟨entry, behind, releases, rfl, rfl⟩ := releases_of_release released
        have trades := (steady.sound.released releases).2
        simp only [checkedStep, step, released, Report.checked_of trades.sound.reportable,
          pure_bind]
      | none => simp only [checkedStep, step, released]

/-- A run that leads to no more trades than a word counts is within words. -/
theorem Steady.checked_run (fuel : Nat) {book : Book} {tasks : List Task}
    (steady : book.Steady tasks) (few : (run fuel book tasks).1.record.trades ≤ Word.greatest) :
    checkedRun fuel book tasks = pure (run fuel book tasks) := by
  induction fuel generalizing book tasks with
  | zero => rfl
  | succ fuel induction =>
    have fewer : ∀ next later reports, book.step tasks = some (next, later, reports) →
        next.Steady later ∧ (run fuel next later).1.record.trades ≤ Word.greatest := by
      intro next later reports stepped
      obtain ⟨moved, -⟩ := ((step_iff ..).mp stepped).steady steady
      simp only [run, stepped] at few
      exact ⟨moved, few⟩
    have checked := steady.checked_step fun next later reports stepped => by
      obtain ⟨moved, most⟩ := fewer next later reports stepped
      exact Int.le_trans (run_steady fuel moved).2 most
    rw [checkedRun, checked, pure_bind, run]
    cases stepped : book.step tasks with
    | none => rfl
    | some result =>
      obtain ⟨next, later, reports⟩ := result
      obtain ⟨moved, most⟩ := fewer next later reports stepped
      simp only [induction moved most, pure_bind]

/-- An order that can trade does so within words. -/
theorem Steady.checked_execute {book : Book} {order : Order} (steady : book.Steady [])
    (trades : order.Trades)
    (few : (book.execute order).1.record.trades ≤ Word.greatest) :
    book.checkedExecute order = pure (book.execute order) := by
  have ready : book.Steady [.trade order] :=
    ⟨steady.sound, steady.counts, List.forall_mem_singleton.mpr trades⟩
  exact ready.checked_run _ few

end Book

end Bourse
