import Bourse.Proofs.Moves

/-!
# Executions as nested calls

An execution keeps what is still to be done in a list of tasks. The same can be said
without the list, as three procedures that call each other: an order trades and calls
a check after every trade; a check releases the orders of one flow after those of the
other; and a release inserts the order it released before it looks for the next one.
The depth of the calls is that of the cascade.

The two agree on every book and every order, on the book that they end with as well
as on every report and its place. The list of tasks is what is left of the calls: the
first task is the innermost of them, and every other one waits for its return.
-/

namespace Bourse.Book

mutual

/-- A live order trades as long as it finds another to trade with, and the parked
orders are checked after every trade. What is left of it is settled. -/
inductive InsertsLive : Book → Order → Book → List Report → Prop where
  | trade {book next checked final : Book} {order after : Order}
      {fills releases later : List Report}
      (traded : book.tradeOnce order = some (after, next, fills))
      (check : ChecksParked next checked releases)
      (again : InsertsLive checked after final later) :
      InsertsLive book order final (fills ++ releases ++ later)
  | settle {book : Book} {order : Order} (stuck : book.tradeOnce order = none)
      (left : 0 < order.unfilled) :
      InsertsLive book order (book.restRemainder order).1 (book.restRemainder order).2
  | finish {book : Book} {order : Order} (stuck : book.tradeOnce order = none)
      (spent : order.unfilled ≤ 0) : InsertsLive book order book []

/-- A check releases purchases until the first of them is not reached, and then sales.
It does not go back to the purchases. -/
inductive ChecksParked : Book → Book → List Report → Prop where
  | check {book between final : Book} {purchases sales : List Report}
      (first : ReleasesReached .buying book between purchases)
      (second : ReleasesReached .selling between final sales) :
      ChecksParked book final (purchases ++ sales)

/-- As long as the last price reaches the first parked order of a flow, it is released
and inserted as a live one. -/
inductive ReleasesReached : Flow → Book → Book → List Report → Prop where
  | next {flow : Flow} {book without after final : Book} {order : Order}
      {trades later : List Report}
      (released : book.releaseFrom flow = some (order, without))
      (inserted : InsertsLive without order after trades)
      (others : ReleasesReached flow after final later) :
      ReleasesReached flow book final (Report.of .triggered order "" :: (trades ++ later))
  | unreached {flow : Flow} {book : Book} (nothing : book.releaseFrom flow = none) :
      ReleasesReached flow book book []

end

/-- A release comes to an end only where the first parked order is not reached. -/
theorem ReleasesReached.end_unreached {flow : Flow} {book final : Book} {reports : List Report} :
    ReleasesReached flow book final reports → final.releaseFrom flow = none
  | .next _ _ others => others.end_unreached
  | .unreached nothing => nothing

/-- Where no purchase is reached, a check that begins with purchases does what one does
that begins with sales. -/
theorem Finishes.from_purchases {book final : Book} {tasks : List Task} {reports : List Report}
    (unreached : book.releaseFrom .buying = none)
    (chain : book.Finishes (.check .selling :: tasks) final reports) :
    book.Finishes (.check .buying :: tasks) final reports := by
  cases chain with
  | move first rest =>
    cases first with
    | @release _ side _ _ _ released =>
      obtain ⟨fromSide, same | ⟨impossible, -⟩⟩ := (release_iff ..).mp released
      · subst same
        exact .move (.release ((release_iff ..).mpr ⟨fromSide, .inr ⟨rfl, rfl, unreached⟩⟩)) rest
      · contradiction
    | pass nothing =>
      have sales := ((release_none_iff ..).mp nothing).1
      exact .move (.pass ((release_none_iff ..).mpr ⟨sales, fun _ => unreached⟩)) rest

mutual

/-- A nested call does what its task does, whatever tasks wait behind it. -/
theorem InsertsLive.finishes {book mid : Book} {order : Order} {reports : List Report} :
    InsertsLive book order mid reports → ∀ {tasks : List Task} {final : Book}
      {later : List Report}, mid.Finishes tasks final later →
        book.Finishes (.trade order :: tasks) final (reports ++ later)
  | .trade traded check again, _, _, _, rest => by
    have checked := check.finishes (again.finishes rest)
    simpa only [List.append_assoc] using Finishes.move (.trade traded) checked
  | .settle stuck left, _, _, _, rest => .move (.settle stuck left) rest
  | .finish stuck spent, _, _, _, rest => .move (.finish stuck spent) rest

/-- A nested check does what the task of a check does that begins with purchases. -/
theorem ChecksParked.finishes {book mid : Book} {reports : List Report} :
    ChecksParked book mid reports → ∀ {tasks : List Task} {final : Book}
      {later : List Report}, mid.Finishes tasks final later →
        book.Finishes (.check .buying :: tasks) final (reports ++ later)
  | .check first second, _, _, _, rest => by
    have unreached : mid.release .selling = none :=
      (release_none_iff ..).mpr ⟨second.end_unreached, fun purchases => by contradiction⟩
    have sales := second.finishes (Finishes.move (.pass unreached) rest)
    have purchases := first.finishes (Finishes.from_purchases first.end_unreached sales)
    simpa only [List.append_assoc, List.nil_append] using purchases

/-- A nested release does what the task of a check does until it has released the last
order of the flow. -/
theorem ReleasesReached.finishes {flow : Flow} {book mid : Book} {reports : List Report} :
    ReleasesReached flow book mid reports → ∀ {tasks : List Task} {final : Book}
      {later : List Report}, mid.Finishes (.check flow :: tasks) final later →
        book.Finishes (.check flow :: tasks) final (reports ++ later)
  | .next released inserted others, _, _, _, rest => by
    have trades := inserted.finishes (others.finishes rest)
    have released := (release_iff ..).mpr ⟨released, .inl rfl⟩
    simpa only [List.cons_append, List.nil_append, List.append_assoc] using
      Finishes.move (.release released) trades
  | .unreached _, _, _, _, rest => rest

end

/-- The nested call that a task stands for. -/
def CallOf : Task → Book → Book → List Report → Prop
  | .trade order, book, final, reports => InsertsLive book order final reports
  | .check .buying, book, final, reports => ChecksParked book final reports
  | .check .selling, book, final, reports => ReleasesReached .selling book final reports

/-- The calls that tasks stand for, one after the other. -/
def CallsOf : List Task → Book → Book → List Report → Prop
  | [], book, final, reports => final = book ∧ reports = []
  | task :: tasks, book, final, reports =>
    ∃ mid first later, CallOf task book mid first ∧ CallsOf tasks mid final later ∧
      reports = first ++ later

/-- A release in front of the rest of its check. The check has looked at the purchases
already if it comes to a sale. -/
theorem CallOf.release {book next after final : Book} {flow side : Flow} {order : Order}
    {trades later : List Report} (released : book.release flow = some (side, order, next))
    (inserted : InsertsLive next order after trades)
    (check : CallOf (.check side) after final later) :
    CallOf (.check flow) book final (Report.of .triggered order "" :: (trades ++ later)) := by
  obtain ⟨fromSide, same | ⟨rfl, rfl, unreached⟩⟩ := (release_iff ..).mp released
  · subst same
    cases flow with
    | buying =>
      obtain ⟨first, second⟩ := check
      simpa only [CallOf, List.cons_append, List.append_assoc] using
        ChecksParked.check (.next fromSide inserted first) second
    | selling => exact .next fromSide inserted check
  · exact .check (.unreached unreached) (.next fromSide inserted check)

/-- A check that passes releases nothing from either flow. -/
theorem CallOf.pass {book : Book} {flow : Flow} (unreached : book.release flow = none) :
    CallOf (.check flow) book book [] := by
  obtain ⟨sales, purchases⟩ := (release_none_iff ..).mp unreached
  cases flow with
  | buying => exact .check (.unreached (purchases rfl)) (.unreached sales)
  | selling => exact .unreached sales

/-- A chain of moves is the calls that its tasks stand for. A trade opens a check inside
the call of its order, a release opens the call of the order it released inside the
check, and every other move returns from a call. -/
theorem Finishes.calls {book final : Book} {tasks : List Task} {reports : List Report}
    (chain : book.Finishes tasks final reports) : CallsOf tasks book final reports := by
  induction chain with
  | done => exact ⟨rfl, rfl⟩
  | move first rest induction =>
    cases first with
    | trade traded =>
      obtain ⟨checked, releases, _, check, ⟨mid, again, later, live, waiting, rfl⟩, rfl⟩ :=
        induction
      exact ⟨mid, _, later, .trade traded check live, waiting, by simp only [List.append_assoc]⟩
    | settle stuck left => exact ⟨_, _, _, .settle stuck left, induction, rfl⟩
    | finish stuck spent => exact ⟨_, _, _, .finish stuck spent, induction, rfl⟩
    | release released =>
      obtain ⟨after, trades, _, inserted, ⟨mid, others, later, check, waiting, rfl⟩, rfl⟩ :=
        induction
      exact ⟨mid, _, later, .release released inserted check, waiting,
        by simp only [List.cons_append, List.nil_append, List.append_assoc]⟩
    | pass unreached => exact ⟨_, _, _, .pass unreached, induction, rfl⟩

/-- An execution ends with a book and sends reports exactly if the nested calls do. So
the calls come to an end for every book and order, in one way only, and the list of
tasks changes neither a queue, nor the record, nor the order of the reports. -/
theorem execute_iff_nested (book final : Book) (order : Order) (reports : List Report) :
    book.execute order = (final, reports) ↔ InsertsLive book order final reports := by
  constructor
  · intro executed
    have chain := (finishes_iff book final [.trade order] reports).mpr executed
    obtain ⟨mid, first, later, live, ⟨rfl, rfl⟩, rfl⟩ := chain.calls
    simpa only [List.append_nil, CallOf] using live
  · intro live
    have chain := live.finishes (.done final)
    rw [List.append_nil] at chain
    exact (finishes_iff book final [.trade order] reports).mp chain

end Bourse.Book
