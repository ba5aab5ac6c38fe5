import Bourse.Proofs.Bookkeeping
import Bourse.Proofs.MirroredRequests

/-!
# Runs seen from the other side

A run of instructions and the run in which every one of them is mirrored go the same way, as
long as all prices stay below a bound and only one side has stop orders.

The instructions are those of a book, with the orders that requests become, so that nothing
but the bound limits their prices.
-/

namespace Bourse

/-- An instruction to a book, with the order that it is about. -/
inductive Instruction where
  | insert (order : Order)
  | replace (image : Order)
  | cancel (image : Order)
  deriving DecidableEq, Repr

namespace Instruction

/-- An instruction seen from the other side. -/
def mirrored (bound : Int) : Instruction → Instruction
  | .insert order => .insert (order.mirrored bound)
  | .replace image => .replace (image.mirrored bound)
  | .cancel image => .cancel (image.mirrored bound)

/-- Whether an instruction asks for prices below a bound, and for a stop type on one side
only. A cancellation asks for neither. -/
def Below (bound : Int) (stops : Flow) : Instruction → Prop
  | .insert order => order.AskedBelow bound stops
  | .replace image => image.AskedBelow bound stops
  | .cancel _ => True

instance (bound : Int) (stops : Flow) (instruction : Instruction) :
    Decidable (instruction.Below bound stops) :=
  match instruction with
  | .insert order => inferInstanceAs (Decidable (order.AskedBelow bound stops))
  | .replace image => inferInstanceAs (Decidable (image.AskedBelow bound stops))
  | .cancel _ => inferInstanceAs (Decidable True)

end Instruction

/-- The instruction that an operation is, unless its request is no order. -/
def Operation.instruction? : Operation → Option Instruction
  | .insert id request => (Order.ofNew id request).toOption.map .insert
  | .replace request => (Order.ofReplacement request).toOption.map .replace
  | .cancel request => some (.cancel (Order.ofCancellation request))
  | _ => none

namespace Book

/-- The book after an instruction, and its reports. -/
def follow (book : Book) : Instruction → Book × List Report
  | .insert order => book.insert order
  | .replace image => book.replace image
  | .cancel image => book.cancel image

/-- The book after instructions in a row, and their reports. -/
def followAll (book : Book) : List Instruction → Book × List Report
  | [] => (book, [])
  | instruction :: instructions =>
    let (next, reports) := book.follow instruction
    let (final, later) := next.followAll instructions
    (final, reports ++ later)

/-- An operation whose request is an order is the instruction that it becomes. -/
theorem perform_of_instruction (book : Book) {operation : Operation} {instruction : Instruction}
    (asked : operation.instruction? = some instruction) :
    book.perform operation = book.follow instruction := by
  cases operation with
  | insert id request =>
    cases built : Order.ofNew id request with
    | error error => simp [Operation.instruction?, built, Except.toOption] at asked
    | ok order =>
      obtain rfl : .insert order = instruction := by
        simpa [Operation.instruction?, built, Except.toOption] using asked
      simp only [perform, built, follow]
  | replace request =>
    cases built : Order.ofReplacement request with
    | error error => simp [Operation.instruction?, built, Except.toOption] at asked
    | ok image =>
      obtain rfl : .replace image = instruction := by
        simpa [Operation.instruction?, built, Except.toOption] using asked
      simp only [perform, built, follow]
  | cancel request =>
    obtain rfl : .cancel (Order.ofCancellation request) = instruction := Option.some.inj asked
    rfl
  | start => simp [Operation.instruction?] at asked
  | stop => simp [Operation.instruction?] at asked
  | publish => simp [Operation.instruction?] at asked

/-- A run of operations whose requests are orders is the run of their instructions. -/
theorem perform_all_of_instructions (book : Book) (operations : List Operation)
    (instructions : List Instruction)
    (asked : operations.map Operation.instruction? = instructions.map some) :
    book.performAll operations = book.followAll instructions := by
  induction operations generalizing book instructions with
  | nil =>
    obtain rfl : instructions = [] := by simpa using asked
    rfl
  | cons operation operations induction =>
    cases instructions with
    | nil => simp at asked
    | cons instruction instructions =>
      obtain ⟨first, others⟩ := List.cons.inj asked
      simp only [performAll, followAll, book.perform_of_instruction first, induction _ _ others]

variable {bound : Int} {stops : Flow} {book mirror : Book}

/-- An instruction and its mirror. -/
theorem Mirrors.follow (mirrors : book.Mirrors bound mirror) (priced : book.Priced bound stops)
    {instruction : Instruction} (below : instruction.Below bound stops) :
    (book.follow instruction).1.Mirrors bound (mirror.follow (instruction.mirrored bound)).1 ∧
      (book.follow instruction).1.Priced bound stops ∧
      List.Forall₂ (Report.Mirrors bound) (book.follow instruction).2
        (mirror.follow (instruction.mirrored bound)).2 := by
  cases instruction with
  | insert order =>
    simp only [Book.follow, Instruction.mirrored, insert_eq]
    exact (mirrors.insert_outset priced below).finish
  | replace image =>
    simp only [Book.follow, Instruction.mirrored, replace_eq]
    exact (mirrors.replace_outset priced below).finish
  | cancel image =>
    simp only [Book.follow, Instruction.mirrored, cancel_eq]
    exact (mirrors.cancel_outset priced image).finish

/-- Instructions in a row and their mirrors, from any two books that mirror each other. -/
theorem Mirrors.follow_all (mirrors : book.Mirrors bound mirror)
    (priced : book.Priced bound stops) (instructions : List Instruction)
    (below : ∀ instruction ∈ instructions, instruction.Below bound stops) :
    (book.followAll instructions).1.Mirrors bound
        (mirror.followAll (instructions.map (Instruction.mirrored bound))).1 ∧
      List.Forall₂ (Report.Mirrors bound) (book.followAll instructions).2
        (mirror.followAll (instructions.map (Instruction.mirrored bound))).2 := by
  induction instructions generalizing book mirror with
  | nil => exact ⟨mirrors, .nil⟩
  | cons instruction instructions induction =>
    obtain ⟨first, others⟩ := List.forall_mem_cons.mp below
    obtain ⟨books, kept, reports⟩ := mirrors.follow priced first
    obtain ⟨ends, later⟩ := induction books kept others
    exact ⟨ends, List.rel_append reports later⟩

/-- New books mirror each other. -/
theorem mirrors_of_first (bound : Int) (first other : Order) :
    (ofFirst first).Mirrors bound (ofFirst other) where
  resting := fun flow => by cases flow <;> exact ⟨rfl, rfl⟩
  parked := fun flow => by cases flow <;> exact ⟨rfl, rfl⟩
  record := ⟨rfl, rfl, rfl, rfl, rfl⟩
  isActive := rfl
  hasChanged := rfl

/-- A new book is within any bound. -/
theorem priced_of_first (bound : Int) (stops : Flow) (first : Order) :
    (ofFirst first).Priced bound stops where
  resting := fun flow => by cases flow <;> exact Queue.keeps_empty
  parked := fun flow => by cases flow <;> exact Queue.keeps_empty
  record := ⟨.inl rfl, fun traded => by
    simp [ofFirst, Record.seeded, Record.blank, Record.hasTraded] at traded⟩

/-- A run of instructions with prices below a bound, in which stop types are asked for on one
side only, and the run in which every instruction is mirrored. Whatever orders the two books
were opened with, they mirror each other in the end, and the reports of one run are those of
the other as they are seen from the other side, one by one. -/
theorem runs_are_mirrored (bound : Int) (stops : Flow) (first other : Order)
    (instructions : List Instruction)
    (below : ∀ instruction ∈ instructions, instruction.Below bound stops) :
    let run := (ofFirst first).followAll instructions
    let mirror := (ofFirst other).followAll (instructions.map (Instruction.mirrored bound))
    run.1.Mirrors bound mirror.1 ∧ List.Forall₂ (Report.Mirrors bound) run.2 mirror.2 := by
  intro run mirror
  have begun := mirrors_of_first bound first other
  have priced := priced_of_first bound stops first
  exact begun.follow_all priced instructions below

/-- The stop order of the day is a sale that a fall sets off; in the mirror it is a purchase
that a rise sets off. -/
theorem eventful_day_mirrored :
    let instructions := eventfulDay.filterMap Operation.instruction?
    let run := (ofFirst default).followAll instructions
    let mirror := (ofFirst default).followAll (instructions.map (Instruction.mirrored 30))
    (∀ instruction ∈ instructions, instruction.Below 30 .selling) ∧
      (reportsOn ⟨2⟩ run.2).map (fun report => (report.kind, report.lastPrice)) =
        [(.new, 0), (.triggered, 0), (.fill, 9)] ∧
      (reportsOn ⟨2⟩ mirror.2).map (fun report => (report.kind, report.lastPrice)) =
        [(.new, 0), (.triggered, 0), (.fill, 21)] ∧
      run.1.Mirrors 30 mirror.1 ∧ List.Forall₂ (Report.Mirrors 30) run.2 mirror.2 :=
  ⟨by decide, by decide, by decide, runs_are_mirrored 30 .selling default default _ (by decide)⟩

end Book

end Bourse
