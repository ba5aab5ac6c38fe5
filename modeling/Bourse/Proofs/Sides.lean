import Bourse.Book.Execution

/-!
# The sides of a book

A book has two queues for each flow, and an operation changes one of them at a time.
The laws here say which queue a change reaches and that it leaves the others, the
record and the flags alone, so that no later proof looks at the four queues one by
one.
-/

namespace Bourse

namespace Flow

/-- The other flow of the other flow is the flow. -/
@[simp] theorem contra_contra (flow : Flow) : flow.contra.contra = flow := by
  cases flow <;> rfl

/-- There is no third flow. -/
theorem eq_or_contra (flow other : Flow) : other = flow ∨ other = flow.contra := by
  cases flow <;> cases other <;> simp [contra]

/-- What holds for a flow and for its contra flow holds for both flows. -/
theorem forall_of_contra {P : Flow → Prop} (flow : Flow) (same : P flow)
    (contra : P flow.contra) : ∀ other, P other := by
  intro other
  rcases eq_or_contra flow other with rfl | rfl
  · exact same
  · exact contra

end Flow

namespace Book

variable (book : Book) (flow other : Flow) (record : Record) (mark : Bool)

/-- The resting orders that a flow is given are those that it has. -/
@[simp] theorem resting_with_resting (queue : Queue flow.restingDirection) :
    (book.withResting flow queue).resting flow = queue := by
  cases flow <;> rfl

/-- Of two changes to the resting orders of a flow, the later one counts. -/
@[simp] theorem with_resting_twice (first queue : Queue flow.restingDirection) :
    (book.withResting flow first).withResting flow queue = book.withResting flow queue := by
  cases flow <;> rfl

/-- The other flow keeps its resting orders when a flow is given others. -/
@[simp] theorem contra_with_resting (queue : Queue flow.restingDirection) :
    (book.withResting flow queue).resting flow.contra = book.resting flow.contra := by
  cases flow <;> rfl

/-- A flow keeps its resting orders when the other flow is given others. -/
@[simp] theorem resting_with_contra (queue : Queue flow.contra.restingDirection) :
    (book.withResting flow.contra queue).resting flow = book.resting flow := by
  cases flow <;> rfl

/-- No parked order changes with the resting orders. -/
@[simp] theorem parked_with_resting (queue : Queue flow.restingDirection) :
    (book.withResting flow queue).parked other = book.parked other := by
  cases flow <;> cases other <;> rfl

/-- The record does not change with the resting orders. -/
@[simp] theorem record_with_resting (queue : Queue flow.restingDirection) :
    (book.withResting flow queue).record = book.record := by
  cases flow <;> rfl

/-- The parked orders that a flow is given are those that it has. -/
@[simp] theorem parked_with_parked (queue : Queue flow.parkingDirection) :
    (book.withParked flow queue).parked flow = queue := by
  cases flow <;> rfl

/-- The other flow keeps its parked orders when a flow is given others. -/
@[simp] theorem contra_with_parked (queue : Queue flow.parkingDirection) :
    (book.withParked flow queue).parked flow.contra = book.parked flow.contra := by
  cases flow <;> rfl

/-- No resting order changes with the parked orders. -/
@[simp] theorem resting_with_parked (queue : Queue flow.parkingDirection) :
    (book.withParked flow queue).resting other = book.resting other := by
  cases flow <;> cases other <;> rfl

/-- The record does not change with the parked orders. -/
@[simp] theorem record_with_parked (queue : Queue flow.parkingDirection) :
    (book.withParked flow queue).record = book.record := by
  cases flow <;> rfl

/-- No resting order changes with the record. -/
@[simp] theorem resting_with_record :
    ({ book with record := record }).resting flow = book.resting flow := by
  cases flow <;> rfl

/-- No parked order changes with the record. -/
@[simp] theorem parked_with_record :
    ({ book with record := record }).parked flow = book.parked flow := by
  cases flow <;> rfl

/-- No resting order changes with the mark. -/
@[simp] theorem resting_marked :
    ({ book with hasChanged := mark }).resting flow = book.resting flow := by
  cases flow <;> rfl

/-- No parked order changes with the mark. -/
@[simp] theorem parked_marked :
    ({ book with hasChanged := mark }).parked flow = book.parked flow := by
  cases flow <;> rfl

end Book

end Bourse
