import Bourse.Book.Operations
import Bourse.Proofs.Positions
import Bourse.Proofs.Sides

/-!
# What requests do to queues

A cancellation or a replacement names an order by its identifier and its flow. Where
the order is found decides which queue changes: `Named` says that it rests, or that it
is parked. The laws here tell of every request that is carried out which order it named,
what the order has become, and what is left of the queue.
-/

namespace Bourse

/-- An order keeps its place exactly if only quantities, the time in force or the name
change. -/
theorem Order.priority_kept_iff (order image : Order) :
    order.priorityUnder image = .kept ↔
      image.type ≠ .market ∧ image.type ≠ .stop ∧ order.price = image.price ∧
        order.type = image.type ∧ order.stopPrice = image.stopPrice := by
  unfold priorityUnder
  split
  case isTrue lost =>
    constructor
    · intro kept
      simp at kept
    · rintro ⟨market, stop, price, type, stopPrice⟩
      rcases lost with lost | lost | lost | lost | lost <;> contradiction
  case isFalse kept =>
    simp only [not_or, ne_eq, not_not] at kept
    simpa using kept

namespace Queue

variable {direction : Direction}

/-- What a replacement leaves of a queue: the replaced order in the place of the old one,
or no order in that place. -/
def amended (queue : Queue direction) (order : Order) : Order.Priority → Queue direction
  | .kept => { queue with entries := withOrder order queue.entries }
  | .lost => { queue with entries := without order.id queue.entries }

/-- It makes no difference to the others which order is taken out of a place. -/
theorem without_with_order (order : Order) (entries : List Entry) :
    without order.id (withOrder order entries) = without order.id entries := by
  induction entries with
  | nil => rfl
  | cons entry rest induction =>
    unfold without withOrder at induction ⊢
    by_cases same : (entry.order.id == order.id) = true
    · have named : entry.order.id = order.id := eq_of_beq same
      rw [List.map_cons, if_pos same, List.filter_cons_of_neg (by simp),
        List.filter_cons_of_neg (by simp [named]), induction]
    · have other : (entry.order.id != order.id) = true := by
        simpa only [bne, Bool.not_eq_true'] using Bool.eq_false_iff.mpr same
      simp only [List.map_cons, if_neg same, List.filter_cons, if_pos other, induction]

/-- An order that took the place of the one with its identifier is found there. -/
theorem get_amended (queue : Queue direction) (order old : Order)
    (found : queue.get? order.id = some old) :
    (queue.amended order .kept).get? order.id = some order := by
  obtain ⟨entry, first, -⟩ : ∃ entry, queue.entries.find?
      (fun entry => entry.order.id == order.id) = some entry ∧ entry.order = old := by
    simpa only [get?, orders, List.find?_map, Option.map_eq_some_iff, Function.comp_def]
      using found
  have same : (entry.order.id == order.id) = true := by simpa using List.find?_some first
  -- the identifiers are those of before, so the same place is found
  have ids : (fun entry : Entry =>
      (if entry.order.id == order.id then { entry with order } else entry).order.id == order.id) =
      fun entry : Entry => entry.order.id == order.id := by
    funext other
    by_cases named : (other.order.id == order.id) = true
    · rw [if_pos named, named, beq_self_eq_true]
    · simp only [if_neg named]
  simp only [get?, orders, amended, withOrder, List.map_map, List.find?_map, Function.comp_def,
    ids, first, Option.map_some, if_pos same]

/-- A cancellation finds its order under its identifier, takes it out and gives it the new name. -/
theorem cancel_ok_iff (queue rest : Queue direction) (image order : Order) :
    queue.cancel image = .ok (order, rest) ↔
      ∃ old, queue.get? image.id = some old ∧ order = old.renamed image ∧
        rest = { queue with entries := without image.id queue.entries } := by
  unfold cancel erase
  cases found : queue.get? image.id with
  | none => simp [Except.map]
  | some old => simp [Except.map, eq_comm]

/-- A replacement is carried out if its order is there and asks for more than is
filled. -/
theorem amend_ok_iff (queue next : Queue direction) (image order : Order)
    (priority : Order.Priority) :
    queue.amend image = .ok (order, next, priority) ↔
      ∃ old, queue.get? image.id = some old ∧ old.filled < image.quantity ∧
        order = old.replacedBy image ∧ priority = old.priorityUnder image ∧
        next = queue.amended order priority := by
  unfold amend replace Order.replace
  cases found : queue.get? image.id with
  | none => simp [Except.map]
  | some old =>
    have named : (old.replacedBy image).id = image.id := by
      have first := List.find?_some found
      exact eq_of_beq first
    by_cases refused : image.quantity ≤ old.filled
    · simp only [if_pos refused, Except.map, Option.some.injEq]
      constructor
      · intro impossible
        simp at impossible
      · rintro ⟨_, rfl, above, -⟩
        omega
    · simp only [if_neg refused, Except.map, Option.some.injEq]
      constructor
      · intro carried
        refine ⟨old, rfl, by omega, ?_⟩
        cases kept : old.priorityUnder image with
        | kept =>
          obtain ⟨rfl, rfl, rfl⟩ : _ ∧ _ ∧ _ := by simpa [kept] using carried
          exact ⟨rfl, rfl, rfl⟩
        | lost =>
          obtain ⟨rfl, rfl, rfl⟩ : _ ∧ _ ∧ _ := by simpa [kept] using carried
          refine ⟨rfl, rfl, ?_⟩
          simp only [amended, named]
          rw [← named, without_with_order]
      · rintro ⟨_, rfl, above, rfl, rfl, rfl⟩
        cases old.priorityUnder image with
        | kept => rfl
        | lost =>
          simp only [amended, named]
          rw [← named, without_with_order]

end Queue

namespace Book

/-- Where the order is that a request names, and what is left of the book when its queue
is changed. -/
inductive Named (book : Book) (flow : Flow) (id : OrderId) (old : Order)
    (change : {direction : Direction} → Queue direction → Queue direction) : Book → Prop where
  | resting (found : (book.resting flow).get? id = some old) :
      Named book flow id old change (book.withResting flow (change (book.resting flow)))
  | parked (found : (book.parked flow).get? id = some old) :
      Named book flow id old change (book.withParked flow (change (book.parked flow)))

/-- The order that a replacement changed, and the book with it changed. -/
theorem amend_ok {book next : Book} {image order : Order} {priority : Order.Priority}
    (amended : book.amend image = .ok (order, priority, next)) :
    ∃ old, old.filled < image.quantity ∧ order = old.replacedBy image ∧
      priority = old.priorityUnder image ∧
      book.Named image.flow image.id old (fun queue => queue.amended order priority) next := by
  unfold amend at amended
  cases resting : (book.resting image.flow).amend image with
  | ok result =>
    obtain ⟨found, queue, place⟩ := result
    obtain ⟨rfl, rfl, rfl⟩ : _ ∧ _ ∧ _ := by simpa [resting] using amended
    obtain ⟨old, present, above, rfl, rfl, rfl⟩ := (Queue.amend_ok_iff ..).mp resting
    exact ⟨old, above, rfl, rfl, .resting present⟩
  | error refusal =>
    cases refusal with
    | unknownOrder id =>
      cases parked : (book.parked image.flow).amend image with
      | error refusal => simp [resting, parked, Except.map] at amended
      | ok result =>
        obtain ⟨found, queue, place⟩ := result
        obtain ⟨rfl, rfl, rfl⟩ : _ ∧ _ ∧ _ := by
          simpa [resting, parked, Except.map] using amended
        obtain ⟨old, present, above, rfl, rfl, rfl⟩ := (Queue.amend_ok_iff ..).mp parked
        exact ⟨old, above, rfl, rfl, .parked present⟩
    | notReplaceable reason => simp [resting] at amended
    | unknownSecurity security => simp [resting] at amended

/-- The order that a queue cancels, and what a book becomes with the rest of the queue. -/
theorem cancelled_from {direction : Direction} {queue : Queue direction}
    {put : Queue direction → Book} {next : Book} {image order : Order}
    (cancelled : (queue.cancel image).map (fun (order, rest) => (order, put rest)) =
      .ok (order, next)) :
    ∃ old, queue.get? image.id = some old ∧ order = old.renamed image ∧
      next = put { queue with entries := Queue.without image.id queue.entries } := by
  cases result : queue.cancel image with
  | error refusal => simp [result, Except.map] at cancelled
  | ok found =>
    obtain ⟨gone, rest⟩ := found
    obtain ⟨rfl, rfl⟩ : _ ∧ _ := by simpa [result, Except.map] using cancelled
    obtain ⟨old, present, rfl, rfl⟩ := (Queue.cancel_ok_iff ..).mp result
    exact ⟨old, present, rfl, rfl⟩

/-- A resting order that is cancelled is the one that the request names. -/
theorem cancel_resting_ok {book next : Book} {image order : Order}
    (cancelled : book.cancelResting image = .ok (order, next)) :
    ∃ old, order = old.renamed image ∧ book.Named image.flow image.id old
      (fun queue => { queue with entries := Queue.without image.id queue.entries }) next := by
  obtain ⟨old, present, rfl, rfl⟩ := cancelled_from cancelled
  exact ⟨old, rfl, .resting present⟩

/-- So is a parked order. -/
theorem cancel_parked_ok {book next : Book} {image order : Order}
    (cancelled : book.cancelParked image = .ok (order, next)) :
    ∃ old, order = old.renamed image ∧ book.Named image.flow image.id old
      (fun queue => { queue with entries := Queue.without image.id queue.entries }) next := by
  obtain ⟨old, present, rfl, rfl⟩ := cancelled_from cancelled
  exact ⟨old, rfl, .parked present⟩

/-- What succeeds is the first attempt or the second. -/
theorem or_else_ok {α : Type} {first second : Except Refusal α} {value : α}
    (succeeded : orElse first second = .ok value) : first = .ok value ∨ second = .ok value := by
  cases first with
  | ok found => exact .inl succeeded
  | error refusal => exact .inr succeeded

/-- The order that a cancellation took out, and the book without it. -/
theorem withdraw_ok {book next : Book} {image order : Order}
    (withdrawn : book.withdraw image = .ok (order, next)) :
    ∃ old, order = old.renamed image ∧ book.Named image.flow image.id old
      (fun queue => { queue with entries := Queue.without image.id queue.entries }) next := by
  unfold withdraw at withdrawn
  split at withdrawn
  · rcases or_else_ok withdrawn with parked | resting
    · exact cancel_parked_ok parked
    · exact cancel_resting_ok resting
  · rcases or_else_ok withdrawn with resting | parked
    · exact cancel_resting_ok resting
    · exact cancel_parked_ok parked

/-- What is left of a book whose resting orders lose the one that became immediate. -/
theorem drop_immediate_cases (book : Book) (order : Order) :
    (book.dropImmediate order).1 = book ∧ (book.dropImmediate order).2 = [] ∧
        (book.resting order.flow).get? order.id = none ∨
      ∃ old, (book.resting order.flow).get? order.id = some old ∧
        (book.dropImmediate order).1 = book.withResting order.flow
          { book.resting order.flow with
            entries := Queue.without order.id (book.resting order.flow).entries } ∧
        (book.dropImmediate order).2 = [Report.of .cancelled old Reason.notImmediate.text] := by
  unfold dropImmediate Queue.erase
  cases found : (book.resting order.flow).get? order.id with
  | none => exact .inl ⟨rfl, rfl, rfl⟩
  | some old => exact .inr ⟨old, rfl, rfl, rfl⟩

end Book

end Bourse
