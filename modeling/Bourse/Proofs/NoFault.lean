import Bourse.Proofs.Bookkeeping
import Bourse.Proofs.CheckedDepth
import Bourse.Proofs.CheckedExecution
import Mathlib.Data.List.Infix

/-!
# Runs without a fault

A book that a request opened goes through any operations without a fault, and ends as it
does with whole numbers: `run_without_fault`. The quantities of the requests may be any
words, also negative ones and ones that are refused. The two conditions on the run are that
no side ever rests 9 · 10⁹ orders or more between operations, and that there are not too
many trades for a word to count.
-/

namespace Bourse

/-- The quantity that the request of an operation names, and zero for one without a request. -/
def Operation.quantity : Operation → Int
  | .insert _ request => request.quantity
  | .replace request => request.quantity
  | .cancel request => request.quantity
  | _ => 0

/-- What a request names is a signed word, whether or not the request is accepted. -/
def Operation.Fits (operation : Operation) : Prop := Word.Fits operation.quantity

instance (operation : Operation) : Decidable operation.Fits :=
  inferInstanceAs (Decidable (Word.Fits operation.quantity))

/-- What is computed of elements one by one is computed of all of them. -/
theorem map_m_pure {α β ε : Type} {checked : α → Except ε β} {value : α → β} {list : List α}
    (each : ∀ element ∈ list, checked element = pure (value element)) :
    list.mapM checked = pure (list.map value) := by
  induction list with
  | nil => rfl
  | cons first rest induction =>
    obtain ⟨own, others⟩ := List.forall_mem_cons.mp each
    rw [List.mapM_cons, own, pure_bind, induction others, pure_bind, List.map_cons]

namespace Order

/-- A new order whose quantity a word holds can be reported on. -/
theorem reportable_of_new {id : OrderId} {request : NewOrder} {order : Order}
    (built : ofNew id request = .ok order) (fits : Word.Fits request.quantity) :
    order.Reportable := by
  obtain ⟨-, bounded, -, -, untouched, -⟩ := new_ok built
  apply reportable_of_untouched untouched
  rw [(bounded_quantity_ok bounded).1]
  exact fits

/-- The whole quantity that a replacement asks for is no less than the quantity that it
names, and bounded. -/
theorem reportable_of_replacement {request : Replacement} {image : Order}
    (built : ofReplacement request = .ok image) (fits : Word.Fits request.quantity) :
    image.Reportable := by
  obtain ⟨-, total, -, -, untouched⟩ := replacement_ok built
  obtain ⟨same, bounded, seen⟩ := total_ok total
  apply reportable_of_untouched untouched
  unfold Word.Fits Word.least Word.greatest maxQuantity at *
  omega

/-- A name is no part of what is computed. -/
theorem Reportable.renamed {order : Order} (reportable : order.Reportable) (image : Order) :
    (order.renamed image).Reportable :=
  ⟨reportable.unfilled, reportable.average⟩

end Order

namespace Book

variable {book : Book}

/-- A stop order is released or parked within words. -/
theorem Steady.checked_park {order : Order} (steady : book.Steady []) (own : order.Sound)
    (few : (book.park order).1.record.trades ≤ Word.greatest) :
    book.checkedPark order = pure (book.park order) := by
  by_cases reached : (book.record.hasTraded &&
      order.flow.reaches book.record.lastPrice order.stopPrice) = true
  · rw [park, if_pos reached] at few ⊢
    have executed := steady.checked_execute ⟨order.trigger_not_stop, own.trigger⟩ few
    rw [checkedPark, if_pos reached]
    simp only [Report.checked_of own.trigger.reportable, executed, pure_bind]
  · rw [checkedPark, park, if_neg reached, if_neg reached]

/-- An order goes where its type takes it within words. -/
theorem Steady.checked_route {order : Order} (steady : book.Steady []) (own : order.Sound)
    (few : (book.route order).1.record.trades ≤ Word.greatest) :
    book.checkedRoute order = pure (book.route order) := by
  by_cases waits : order.type.isStop = true
  · rw [route, if_pos waits] at few ⊢
    rw [checkedRoute, if_pos waits]
    exact steady.checked_park own few
  · rw [route, if_neg waits] at few ⊢
    rw [checkedRoute, if_neg waits]
    exact steady.checked_execute ⟨Bool.eq_false_iff.mpr waits, own⟩ few

/-- A new order is accepted or rejected within words. -/
theorem Steady.checked_insert {id : OrderId} {request : NewOrder} {order : Order}
    (steady : book.Steady []) (built : Order.ofNew id request = .ok order)
    (fits : Word.Fits request.quantity)
    (few : (book.insert order).1.record.trades ≤ Word.greatest) :
    book.checkedInsert order = pure (book.insert order) := by
  have reportable := Order.reportable_of_new built fits
  by_cases closed : (!book.isActive) = true
  · rw [checkedInsert, insert, if_pos closed, if_pos closed, Report.checked_of reportable,
      pure_bind]
  · by_cases empty : order.quantity ≤ 0
    · rw [checkedInsert, insert, if_neg closed, if_neg closed, if_pos empty, if_pos empty,
        Report.checked_of reportable, pure_bind]
    · obtain ⟨own, -⟩ := Order.sound_of_new built (by omega)
      rw [insert, if_neg closed, if_neg empty] at few ⊢
      rw [checkedInsert, if_neg closed, if_neg empty, Report.checked_of reportable, pure_bind,
        steady.checked_route own few, pure_bind]

/-- An order is dropped within words where all resting ones are sound. -/
theorem checked_drop_immediate {order : Order}
    (sound : ∀ other ∈ (book.resting order.flow).orders, other.Sound) :
    book.checkedDropImmediate order = pure (book.dropImmediate order) := by
  unfold checkedDropImmediate dropImmediate Queue.erase
  cases found : (book.resting order.flow).get? order.id with
  | none => rfl
  | some old =>
    have own := sound old (List.mem_of_find?_eq_some found)
    simp only [Report.checked_of own.reportable, pure_bind]

/-- A replacement leaves sound orders in the queues of resting ones, even where it makes one
of them immediate. -/
theorem Named.resting_sound {next : Book} {flow : Flow} {id : OrderId} {old order : Order}
    (named : book.Named flow id old (fun queue => queue.amended order .kept) next)
    (sound : book.Sound) (own : order.Sound) (side : Flow) :
    ∀ other ∈ (next.resting side).orders, other.Sound := by
  have before (side : Flow) : ∀ other ∈ (book.resting side).orders, other.Sound := by
    intro other member
    exact ((sound.resting side).lawful_orders other member).sound
  cases named with
  | resting found =>
    refine Flow.forall_of_contra
      (P := fun side => ∀ other ∈ (Book.resting _ side).orders, other.Sound) flow ?_ ?_ side
    · rw [resting_with_resting]
      rintro _ member
      obtain ⟨_, among, rfl⟩ := List.mem_map.mp member
      obtain ⟨place, present, rfl⟩ := List.mem_map.mp among
      split
      · exact own
      · exact before flow _ (List.mem_map_of_mem present)
    · rw [contra_with_resting]
      exact before flow.contra
  | parked found =>
    rw [resting_with_parked]
    exact before side

/-- What follows a replacement does so within words. -/
theorem Steady.checked_settle {image old order : Order} {priority : Order.Priority} {next : Book}
    (steady : book.Steady []) (own : order.Sound)
    (named : book.Named image.flow image.id old (fun queue => queue.amended order priority) next)
    (few : (next.settleReplaced order priority).1.record.trades ≤ Word.greatest) :
    next.checkedSettleReplaced order priority = pure (next.settleReplaced order priority) := by
  cases priority with
  | lost =>
    have rest : next.Steady [] :=
      ⟨named.sound_without steady.sound, named.record_kept ▸ steady.counts, by simp⟩
    exact rest.checked_route own few
  | kept =>
    by_cases immediate : order.timeInForce = .immediateOrCancel
    · rw [checkedSettleReplaced, settleReplaced, if_pos immediate, if_pos immediate]
      apply checked_drop_immediate
      exact named.resting_sound steady.sound own order.flow
    · rw [checkedSettleReplaced, settleReplaced, if_neg immediate, if_neg immediate]

/-- An order is replaced, or the replacement is rejected, within words. -/
theorem Steady.checked_replace {request : Replacement} {image : Order} (steady : book.Steady [])
    (built : Order.ofReplacement request = .ok image) (fits : Word.Fits request.quantity)
    (few : (book.replace image).1.record.trades ≤ Word.greatest) :
    book.checkedReplace image = pure (book.replace image) := by
  have reportable := Order.reportable_of_replacement built fits
  by_cases closed : (!book.isActive) = true
  · rw [checkedReplace, replace, if_pos closed, if_pos closed, Report.checked_of reportable,
      pure_bind]
  · rw [replace, if_neg closed] at few ⊢
    rw [checkedReplace, if_neg closed]
    cases amended : book.amend image with
    | error refusal => simp only [Report.checked_of reportable, pure_bind]
    | ok result =>
      obtain ⟨order, priority, next⟩ := result
      obtain ⟨old, above, rfl, -, named⟩ := amend_ok amended
      have own := (named.order_sound steady.sound).1.replaced
        (Order.image_of_replacement built) above
      simp only [amended] at few
      simp only [Report.checked_of own.reportable, steady.checked_settle own named few, pure_bind]

/-- An order is cancelled, or the cancellation is rejected, within words. -/
theorem Sound.checked_cancel (sound : book.Sound) {image : Order}
    (reportable : image.Reportable) : book.checkedCancel image = pure (book.cancel image) := by
  unfold checkedCancel cancel
  cases withdrawn : book.withdraw image with
  | error refusal => simp only [Report.checked_of reportable, pure_bind]
  | ok result =>
    obtain ⟨order, next⟩ := result
    obtain ⟨old, rfl, named⟩ := withdraw_ok withdrawn
    have own := (named.order_sound sound).1.reportable.renamed image
    simp only [Report.checked_of own, pure_bind]

/-- A book closes within words. -/
theorem Sound.checked_stop (sound : book.Sound) : book.checkedStop = pure book.stop := by
  have resting (flow : Flow) : ∀ order ∈ (book.resting flow).orders, order.Reportable := by
    intro order member
    exact ((sound.resting flow).lawful_orders order member).sound.reportable
  have parked (flow : Flow) : ∀ order ∈ (book.parked flow).orders, order.Reportable := by
    intro order member
    exact ((sound.parked flow).lawful_orders order member).sound.reportable
  have all : ∀ order ∈ book.buys.orders ++ book.sells.orders ++ book.stopBuys.orders ++
      book.stopSells.orders, order.Reportable := by
    simp only [List.forall_mem_append]
    exact ⟨⟨⟨resting .buying, resting .selling⟩, parked .buying⟩, parked .selling⟩
  have reports := map_m_pure fun order member =>
    Report.checked_of (all order member) .cancelled Reason.closing.text
  simp only [checkedStop, reports, pure_bind]
  rfl

/-- A book shows its picture within words, as long as neither side rests 9 · 10⁹ orders. -/
theorem Sound.checked_picture (sound : book.Sound)
    (few : ∀ flow, (book.resting flow).size < 9000000000) :
    book.checkedPicture = pure book.picture := by
  obtain ⟨buys, totalBuy⟩ : book.buys.checkedDepth = pure book.buys.depth ∧ _ :=
    Queue.checked_depth (sound.resting .buying) (few .buying)
  obtain ⟨sells, totalSell⟩ : book.sells.checkedDepth = pure book.sells.depth ∧ _ :=
    Queue.checked_depth (sound.resting .selling) (few .selling)
  simp only [checkedPicture, buys, sells, totalBuy, totalSell, pure_bind]
  rfl

/-- An operation on a steady book is within words. -/
theorem Steady.checked_perform (steady : book.Steady []) {operation : Operation}
    (words : operation.Fits) (few : ∀ flow, (book.resting flow).size < 9000000000)
    (counted : (book.perform operation).1.record.trades ≤ Word.greatest) :
    book.checkedPerform operation = pure (book.perform operation) := by
  cases operation with
  | insert id request =>
    cases built : Order.ofNew id request with
    | error error => simp only [checkedPerform, perform, built]
    | ok order =>
      simp only [perform, built] at counted
      simp only [checkedPerform, perform, built, steady.checked_insert built words counted]
  | replace request =>
    cases built : Order.ofReplacement request with
    | error error => simp only [checkedPerform, perform, built]
    | ok image =>
      simp only [perform, built] at counted
      simp only [checkedPerform, perform, built, steady.checked_replace built words counted]
  | cancel request =>
    exact steady.sound.checked_cancel (Order.reportable_of_untouched rfl words)
  | start => rfl
  | stop => exact steady.sound.checked_stop
  | publish =>
    simp only [checkedPerform, checkedPublish, steady.sound.checked_picture few, pure_bind]
    rfl

/-- Operations in a row on a steady book are within words. -/
theorem Steady.checked_perform_all (steady : book.Steady []) {operations : List Operation}
    (words : ∀ operation ∈ operations, operation.Fits)
    (few : ∀ done, done <+: operations → ∀ flow,
      ((book.performAll done).1.resting flow).size < 9000000000)
    (counted : (book.performAll operations).1.record.trades ≤ Word.greatest) :
    book.checkedPerformAll operations = pure (book.performAll operations) := by
  induction operations generalizing book with
  | nil => rfl
  | cons operation operations induction =>
    obtain ⟨own, others⟩ := List.forall_mem_cons.mp words
    obtain ⟨performed, -⟩ := perform_steady steady operation
    have counted' : ((book.perform operation).1.performAll operations).1.record.trades ≤
        Word.greatest := counted
    have now := steady.checked_perform own (few [] List.nil_prefix)
      (Int.le_trans (perform_all_steady performed operations).2 counted')
    have later := induction performed others
      (fun done first => few (operation :: done) (List.cons_prefix_cons.mpr ⟨rfl, first⟩)) counted'
    simp only [checkedPerformAll, now, later, performAll, pure_bind]

/-- A run of a book that a request opened has no fault: with words that are checked it comes
to the same book and the same reports, and shows the same picture, as long as the sides do
not rest too many orders between operations and there are not too many trades. -/
theorem run_without_fault {id : OrderId} {request : NewOrder} {first : Order}
    (built : Order.ofNew id request = .ok first) (operations : List Operation)
    (words : ∀ operation ∈ operations, operation.Fits)
    (few : ∀ done, done <+: operations → ∀ flow,
      (((ofFirst first).performAll done).1.resting flow).size < 9000000000)
    (counted : ((ofFirst first).performAll operations).1.record.trades < 9223372036854775808) :
    (checkedOfFirst first >>= fun book => book.checkedPerformAll operations) =
        .ok ((ofFirst first).performAll operations) ∧
      ((ofFirst first).performAll operations).1.checkedPicture =
        .ok ((ofFirst first).performAll operations).1.picture := by
  obtain ⟨nonneg, bounded⟩ := Order.price_of_new built
  have opened : checkedOfFirst first = pure (ofFirst first) := by
    rw [checkedOfFirst, Record.checked_seeded _ nonneg bounded, pure_bind]
    rfl
  have steady : (ofFirst first).Steady [] :=
    ⟨sound_of_first first, Record.sound_of_seeded _ nonneg, by simp⟩
  obtain ⟨final, -⟩ := perform_all_steady steady operations
  constructor
  · rw [opened, pure_bind]
    exact steady.checked_perform_all words few (Int.le_of_lt_add_one counted)
  · exact final.sound.checked_picture (few operations (List.prefix_refl operations))

/-- Both trades of the day are within words, and so is the depth that is published between
them and the end. -/
theorem eventful_day_without_fault :
    Order.ofNew ⟨1⟩ firstSale = .ok openingOrder ∧
      (∀ operation ∈ eventfulDay, operation.Fits) ∧
      (∀ done, done <+: eventfulDay → ∀ flow,
        (((ofFirst openingOrder).performAll done).1.resting flow).size < 9000000000) ∧
      ((ofFirst openingOrder).performAll eventfulDay).1.record.trades = 2 ∧
      (checkedOfFirst openingOrder >>= fun book => book.checkedPerformAll eventfulDay) =
        .ok ((ofFirst openingOrder).performAll eventfulDay) := by
  have built : Order.ofNew ⟨1⟩ firstSale = .ok openingOrder := by rfl
  have words : ∀ operation ∈ eventfulDay, operation.Fits := by decide
  have each : ∀ done ∈ eventfulDay.inits, ∀ flow ∈ [Flow.buying, Flow.selling],
      (((ofFirst openingOrder).performAll done).1.resting flow).size < 9000000000 := by decide
  have few : ∀ done, done <+: eventfulDay → ∀ flow,
      (((ofFirst openingOrder).performAll done).1.resting flow).size < 9000000000 := by
    intro done first flow
    exact each done ((List.mem_inits ..).mpr first) flow (by cases flow <;> decide)
  exact ⟨built, words, few, by decide,
    (run_without_fault built eventfulDay words few (by decide)).1⟩

end Book

end Bourse
