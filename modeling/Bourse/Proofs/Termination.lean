import Bourse.Proofs.Soundness
import Mathlib.Data.Prod.Lex

/-!
# Executions come to an end

An execution is a loop that takes the first of its tasks for as long as there is one. A round
may leave more tasks than it found, and an order that it releases may set off others, so
nothing that is known beforehand bounds the number of tasks or the length of a cascade.

The loop here is the bare one: nothing counts its rounds, and a trade asks only whether the
order that is traded shows something, not whether the order that it meets does. Between an
order that shows something and one that shows nothing the loop would trade nothing for ever.
That this does not happen is a law of sound books, where every order that rests has something
left to fill, and therefore shows something, however little is disclosed at a time.

What ends the loop is that every round lowers its load: the quantity that is not filled yet,
then the number of parked orders, then the number of tasks, compared in this order.
-/

namespace Bourse

namespace Book

/-- One trade of an order with the best of the other flow, whatever that one shows. -/
def tradeRegardless (book : Book) (taker : Order) : Option (Order × Book × List Report) :=
  if taker.pending ≤ 0 then none
  else
    let queue := book.resting taker.flow.contra
    match queue.first? with
    | none => none
    | some best =>
      if !taker.accepts best.price then none
      else
        let quantity := min taker.pending best.pending
        (queue.fillFirst? best.price quantity).map fun (maker, queue) =>
          let taker := taker.fill best.price quantity
          (taker,
            { book.withResting taker.flow.contra queue with
              record := book.record.trade best.price quantity },
            [Report.ofFill maker, Report.ofFill taker])

/-- One round of the loop: the book and the tasks after the first task, and what it
reports. -/
def round (book : Book) (tasks : List Task) : Task → Book × List Task × List Report
  | .trade order =>
    match book.tradeRegardless order with
    | some (order, book, reports) => (book, .check .buying :: .trade order :: tasks, reports)
    | none =>
      if 0 < order.unfilled then
        let (book, reports) := book.restRemainder order
        (book, tasks, reports)
      else (book, tasks, [])
  | .check flow =>
    match book.release flow with
    | some (flow, order, book) =>
      (book, .trade order :: .check flow :: tasks, [Report.of .triggered order ""])
    | none => (book, tasks, [])

/-- The book, the tasks that are left and the reports after some rounds of the loop. There
is no round without a task. -/
def rounds : (count : Nat) → Book → List Task → Book × List Task × List Report
  | 0, book, tasks => (book, tasks, [])
  | _ + 1, book, [] => (book, [], [])
  | count + 1, book, task :: tasks =>
    let (next, later, reports) := book.round tasks task
    let (final, left, others) := rounds count next later
    (final, left, reports ++ others)

/-- What a book and its tasks leave to be done: the quantity that is not filled yet decides,
then the number of parked orders, then the number of tasks. -/
def load (book : Book) (tasks : List Task) : Nat ×ₗ Nat ×ₗ Nat :=
  toLex (book.unfilledQuantity tasks, toLex (book.parkedCount, tasks.length))

/-- A load is smaller if less is left to fill, or as much and fewer orders are parked, or as many
and fewer tasks are left. -/
theorem load_lt_iff (book next : Book) (tasks later : List Task) :
    next.load later < book.load tasks ↔
      next.unfilledQuantity later < book.unfilledQuantity tasks ∨
        next.unfilledQuantity later = book.unfilledQuantity tasks ∧
          (next.parkedCount < book.parkedCount ∨
            next.parkedCount = book.parkedCount ∧ later.length < tasks.length) := by
  simp only [load, Prod.Lex.toLex_lt_toLex]

/-- Every move lowers the load. -/
theorem Move.load_lt {book next : Book} {tasks later : List Task} {reports : List Report}
    (move : book.Move tasks next later reports) : next.load later < book.load tasks := by
  rw [load_lt_iff]
  rcases move.progress with ⟨less, -, -⟩ | ⟨same, fewer, -⟩ | ⟨most, parked, fewer⟩ <;> omega

/-- In a sound book the order that is met shows something, so it makes no difference that the
bare loop does not ask. -/
theorem trade_regardless_eq {book : Book} (sound : book.Sound) (taker : Order) :
    book.tradeRegardless taker = book.tradeOnce taker := by
  unfold tradeRegardless tradeOnce
  cases entries : (book.resting taker.flow.contra).entries with
  | nil => simp [Queue.first?, Queue.orders, entries]
  | cons maker behind =>
    have rests := (sound.resting taker.flow.contra).lawful maker (entries ▸ List.mem_cons_self)
    have shown := maker.order.pending_pos_iff.mpr rests.left
    simp only [Queue.first?, Queue.orders, entries, List.map_cons, List.head?_cons]
    by_cases spent : taker.pending ≤ 0
    · have nothing : min taker.pending maker.order.pending ≤ 0 := by omega
      rw [if_pos spent, if_pos (.inl nothing)]
    · have something : ¬ min taker.pending maker.order.pending ≤ 0 := by omega
      simp only [if_neg spent, something, false_or]

/-- In a sound book a round of the bare loop is a move. -/
theorem round_move {book : Book} (sound : book.Sound) (task : Task) (tasks : List Task) :
    book.Move (task :: tasks) (book.round tasks task).1 (book.round tasks task).2.1
      (book.round tasks task).2.2 := by
  cases task with
  | trade order =>
    simp only [round, trade_regardless_eq sound]
    cases traded : book.tradeOnce order with
    | some trade => exact .trade traded
    | none =>
      by_cases left : 0 < order.unfilled
      · simp only [if_pos left]
        exact .settle traded left
      · simp only [if_neg left]
        exact .finish traded (Int.not_lt.mp left)
  | check flow =>
    simp only [round]
    cases released : book.release flow with
    | some release => exact .release released
    | none => exact .pass released

/-- The loop stays within sound books and tasks that may be done. -/
theorem rounds_sound {book : Book} {tasks : List Task} (sound : book.Sound)
    (ready : ∀ task ∈ tasks, task.Sound) (count : Nat) :
    (rounds count book tasks).1.Sound ∧ ∀ task ∈ (rounds count book tasks).2.1, task.Sound := by
  induction count generalizing book tasks with
  | zero => exact ⟨sound, ready⟩
  | succ count induction =>
    cases tasks with
    | nil => exact ⟨sound, ready⟩
    | cons task tasks =>
      obtain ⟨kept, others⟩ := (round_move sound task tasks).sound sound ready
      exact induction kept others

/-- From a sound book the loop comes to a round after which no task is left.

Proof: by induction on the load, which the first round lowers. -/
theorem rounds_finish {book : Book} {tasks : List Task} (sound : book.Sound)
    (ready : ∀ task ∈ tasks, task.Sound) :
    ∃ count final reports,
      rounds count book tasks = (final, [], reports) ∧ book.Finishes tasks final reports := by
  generalize measured : book.load tasks = load
  induction load using WellFoundedLT.induction generalizing book tasks with
  | ind load induction =>
    cases tasks with
    | nil => exact ⟨0, book, [], rfl, .done book⟩
    | cons task tasks =>
      have move := round_move sound task tasks
      obtain ⟨kept, others⟩ := move.sound sound ready
      obtain ⟨count, final, reports, finished, chain⟩ :=
        induction _ (measured ▸ move.load_lt) kept others rfl
      refine ⟨count + 1, final, _, ?_, .move move chain⟩
      simp only [rounds, finished]

/-- Every execution ends: whatever a run made of the book and whatever operation comes next,
the loop over the tasks that the operation leaves comes to a round after which no task is
left, with the book and the reports of the operation, and until then each of its rounds
lowers the load. -/
theorem every_execution_ends (first : Order) (operations : List Operation)
    (operation : Operation) :
    let book := ((ofFirst first).performAll operations).1
    let outset := book.outset operation
    (∃ count final reports,
      rounds count outset.book outset.tasks = (final, [], reports) ∧
        book.perform operation =
          (Outset.marked outset.changes final, outset.reports ++ reports)) ∧
      ∀ count next task tasks reports,
        rounds count outset.book outset.tasks = (next, task :: tasks, reports) →
          (next.round tasks task).1.load (next.round tasks task).2.1 < next.load (task :: tasks) := by
  intro book outset
  obtain ⟨opened, ready⟩ := (book.opens_outset operation).sound (run_sound first operations)
  constructor
  · obtain ⟨count, final, reports, finished, chain⟩ := rounds_finish opened ready
    refine ⟨count, final, reports, finished, ?_⟩
    rw [perform_eq, Outset.finish, (finishes_iff ..).mp chain]
  · intro count next task tasks reports reached
    obtain ⟨kept, -⟩ := rounds_sound opened ready count
    rw [reached] at kept
    exact (round_move kept task tasks).load_lt

end Book

end Bourse
