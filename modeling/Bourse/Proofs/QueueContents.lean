import Bourse.Proofs.Trades

/-!
# What is in the queues

Whatever happens to a book, an order rests only as a limit order for the day and under its own
price, and it is parked only as a stop order and under its own stop price; each is on the side
of its flow and has something left to fill. So neither an immediate order nor a market order
ever rests.

This is said of every book that a run reaches, and of the book after every moment of whatever
is done to it next, in the middle of an execution as well. A replacement that takes an order
out of its queue, or that makes a resting order immediate, is one moment together with what it
does to the queue: there is no moment at which a queue holds an order that belongs elsewhere.
-/

namespace Bourse

/-- The entry of an order in the queue in which a flow rests. Short sales rest with the other
sales. -/
structure Queue.Entry.Resting (flow : Flow) (entry : Queue.Entry) : Prop where
  side : entry.order.side.flow = flow
  type : entry.order.type = .limit
  timeInForce : entry.order.timeInForce = .day
  price : 1 ≤ entry.order.price ∧ entry.order.price ≤ maxPrice
  filled : 0 ≤ entry.order.filled ∧ entry.order.filled < entry.order.quantity
  key : entry.key = entry.order.price

/-- The entry of an order in the queue in which the stop orders of a flow are parked. -/
structure Queue.Entry.Parked (flow : Flow) (entry : Queue.Entry) : Prop where
  side : entry.order.side.flow = flow
  type : entry.order.type = .stop ∨ entry.order.type = .stopLimit
  filled : 0 ≤ entry.order.filled ∧ entry.order.filled < entry.order.quantity
  key : entry.key = entry.order.stopPrice

/-- Every order in a queue belongs there, and stands under its own key. -/
structure Book.WellFormed (book : Book) : Prop where
  resting : ∀ flow, ∀ entry ∈ (book.resting flow).entries, entry.Resting flow
  parked : ∀ flow, ∀ entry ∈ (book.parked flow).entries, entry.Parked flow

/-- Only the types of stop orders wait. -/
theorem OrderType.is_stop_iff (type : OrderType) :
    type.isStop = true ↔ type = .stop ∨ type = .stopLimit := by
  cases type <;> simp [isStop]

/-- A sound order with something left is not filled to its end. -/
theorem Order.Sound.filled_lt {order : Order} (sound : order.Sound) (left : 0 < order.unfilled) :
    0 ≤ order.filled ∧ order.filled < order.quantity := by
  unfold unfilled at left
  constructor
  · exact sound.filled_nonneg
  · omega

namespace Book

/-- A sound book is well-formed. -/
theorem Sound.well_formed {book : Book} (sound : book.Sound) : book.WellFormed where
  resting := by
    intro flow entry member
    have rests := (sound.resting flow).lawful entry member
    exact ⟨rests.side, rests.limit, rests.day, ⟨rests.price.positive, rests.price.bounded⟩,
      rests.sound.filled_lt rests.left, (sound.resting flow).keyed entry member⟩
  parked := by
    intro flow entry member
    have waits := (sound.parked flow).lawful entry member
    exact ⟨waits.side, (OrderType.is_stop_iff _).mp waits.stop,
      waits.sound.filled_lt waits.left, (sound.parked flow).keyed entry member⟩

/-- Whatever is done to a sound book, every moment of it leaves a sound one. -/
theorem moments_of_sound {book : Book} (sound : book.Sound) (operation : Operation) :
    ∀ moment ∈ book.momentsOf operation, moment.after.Sound := by
  obtain ⟨opened, ready⟩ := (book.opens_outset operation).sound sound
  obtain ⟨worked, left, final⟩ := run_moments_keep
    (P := fun book tasks => book.Sound ∧ ∀ task ∈ tasks, task.Sound)
    (Q := fun moment => moment.after.Sound)
    (fun move holds => ⟨move.sound holds.1 holds.2, (move.sound holds.1 holds.2).1⟩)
    ((book.outset operation).book.potential (book.outset operation).tasks) _ _ ⟨opened, ready⟩
  intro moment member
  rcases List.mem_cons.mp member with rfl | member
  · exact opened
  · rcases List.mem_append.mp member with member | member
    · exact worked moment member
    · obtain rfl := List.mem_singleton.mp member
      exact final.1.marked _

/-- Every book that a run reaches is well-formed, and so is the book after every moment of
whatever is done to it next. -/
theorem queues_well_formed (first : Order) (operations : List Operation) (operation : Operation) :
    let book := ((ofFirst first).performAll operations).1
    book.WellFormed ∧ ∀ moment ∈ book.momentsOf operation, moment.after.WellFormed := by
  intro book
  have sound : book.Sound := run_sound first operations
  constructor
  · exact sound.well_formed
  · intro moment member
    exact (moments_of_sound sound operation moment member).well_formed

end Book

end Bourse
