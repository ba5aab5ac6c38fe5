import Bourse.Proofs.MirroredRuns
import Bourse.Proofs.Trades

/-!
# What a book refuses

A new order is refused while the book is closed, and if it asks for nothing. A replacement is
refused while the book is closed, if neither queue of its side has the order, and if it asks
for no more than is filled already. A cancellation is refused only if neither queue of its side
has the order. Nothing else is refused: `refused_exactly`.

One report tells of a refusal and shows the order as the request gave it; the book is the same
as before, with every queue, the record and both flags. Whatever is not refused is answered by
another kind of report, and no refusal is sent in the execution that it may begin.
-/

namespace Bourse

namespace Instruction

/-- The order that an instruction gives or names its order by. -/
def image : Instruction → Order
  | .insert order => order
  | .replace image => image
  | .cancel image => image

/-- The kind of report that refuses an instruction. -/
def refusal : Instruction → ReportKind
  | .insert _ => .rejected
  | .replace _ => .replaceRejected
  | .cancel _ => .cancelRejected

/-- The kind of report that answers an instruction that is carried out. -/
def acceptance : Instruction → ReportKind
  | .insert _ => .new
  | .replace _ => .replaced
  | .cancel _ => .cancelled

end Instruction

namespace Queue

variable {direction : Direction} {queue : Queue direction} {image old : Order}

/-- What is found by an identifier bears it. -/
theorem id_of_get {id : OrderId} (found : queue.get? id = some old) : old.id = id := by
  have first := List.find?_some found
  exact eq_of_beq first

/-- An order that is not there is not replaced. -/
theorem amend_absent (absent : queue.get? image.id = none) :
    queue.amend image = .error (.unknownOrder image.id) := by
  simp [amend, replace, absent, Except.map]

/-- An order that is there is not replaced by one of no more than is filled. -/
theorem amend_not_above (found : queue.get? image.id = some old)
    (low : image.quantity ≤ old.filled) : queue.amend image = .error .notAboveFilled := by
  simp [amend, replace, found, Order.replace, low, Except.map]

/-- An order that is not there is not cancelled. -/
theorem cancel_absent (absent : queue.get? image.id = none) :
    queue.cancel image = .error (.unknownOrder image.id) := by
  simp [cancel, erase, absent, Except.map]

/-- An order that is there is cancelled. -/
theorem cancel_found (found : queue.get? image.id = some old) :
    ∃ rest, queue.cancel image = .ok (old.renamed image, rest) :=
  ⟨_, (cancel_ok_iff ..).mpr ⟨old, found, rfl, rfl⟩⟩

end Queue

namespace Book

/-- The order that a request names on its side: the one that rests, and if there is none the
one that is parked. -/
def named? (book : Book) (image : Order) : Option Order :=
  ((book.resting image.flow).get? image.id).or ((book.parked image.flow).get? image.id)

/-- Whether a book refuses an instruction. -/
def Refuses (book : Book) : Instruction → Prop
  | .insert order => book.isActive = false ∨ order.quantity ≤ 0
  | .replace image =>
    book.isActive = false ∨
      ((book.resting image.flow).get? image.id = none ∧
        (book.parked image.flow).get? image.id = none) ∨
      ∃ order ∈ book.named? image, image.quantity ≤ order.filled
  | .cancel image =>
    (book.resting image.flow).get? image.id = none ∧
      (book.parked image.flow).get? image.id = none

instance (book : Book) (instruction : Instruction) : Decidable (book.Refuses instruction) :=
  match instruction with
  | .insert _ => inferInstanceAs (Decidable (_ ∨ _))
  | .replace _ => inferInstanceAs (Decidable (_ ∨ _ ∨ _))
  | .cancel _ => inferInstanceAs (Decidable (_ ∧ _))

/-- The reason that is given for a refusal. -/
def refusalText (book : Book) : Instruction → String
  | .insert _ => if book.isActive then Reason.notPositive.text else Reason.closedForNew.text
  | .replace image =>
    if book.isActive then
      match book.named? image with
      | some _ => Refusal.notAboveFilled.message
      | none => (Refusal.unknownOrder image.id).message
    else Reason.closedForReplace.text
  | .cancel image => (Refusal.unknownOrder image.id).message

section Found

variable {book : Book} {image order : Order}

/-- No order is named where neither queue has it. -/
theorem named_none_iff (book : Book) (image : Order) :
    book.named? image = none ↔
      (book.resting image.flow).get? image.id = none ∧
        (book.parked image.flow).get? image.id = none :=
  Option.or_eq_none_iff

/-- An order that is named rests, or is parked and no order rests by its identifier. -/
theorem named_some_iff (book : Book) (image order : Order) :
    book.named? image = some order ↔
      (book.resting image.flow).get? image.id = some order ∨
        (book.resting image.flow).get? image.id = none ∧
          (book.parked image.flow).get? image.id = some order :=
  Option.or_eq_some_iff

/-- An order that is named bears the identifier that it is named by. -/
theorem id_of_named (named : book.named? image = some order) : order.id = image.id := by
  rcases (named_some_iff ..).mp named with resting | ⟨-, parked⟩
  · exact Queue.id_of_get resting
  · exact Queue.id_of_get parked

/-- Wherever the order of a request is found, it bears the identifier of the request. -/
theorem Named.id {next : Book} {flow : Flow} {id : OrderId} {old : Order}
    {change : {direction : Direction} → Queue direction → Queue direction}
    (named : book.Named flow id old change next) : old.id = id := by
  cases named with
  | resting found => exact Queue.id_of_get found
  | parked found => exact Queue.id_of_get found

/-- An order that neither queue has is not replaced. -/
theorem amend_unnamed (unnamed : book.named? image = none) :
    book.amend image = .error (.unknownOrder image.id) := by
  obtain ⟨resting, parked⟩ := (named_none_iff ..).mp unnamed
  simp only [amend, Queue.amend_absent resting, Queue.amend_absent parked]
  rfl

/-- The order that is named is not replaced by one of no more than is filled, in whichever
queue it is. -/
theorem amend_not_above (named : book.named? image = some order)
    (low : image.quantity ≤ order.filled) : book.amend image = .error .notAboveFilled := by
  rcases (named_some_iff ..).mp named with resting | ⟨absent, parked⟩
  · simp only [amend, Queue.amend_not_above resting low]
    rfl
  · simp only [amend, Queue.amend_absent absent, Queue.amend_not_above parked low]
    rfl

/-- The order that is named is replaced by one of more than is filled. -/
theorem amend_above (named : book.named? image = some order)
    (above : order.filled < image.quantity) :
    ∃ next, book.amend image = .ok (order.replacedBy image, order.priorityUnder image, next) := by
  rcases (named_some_iff ..).mp named with resting | ⟨absent, parked⟩
  · have amended := (Queue.amend_ok_iff ..).mpr ⟨order, resting, above, rfl, rfl, rfl⟩
    exact ⟨_, by simp only [amend, amended]; rfl⟩
  · have amended := (Queue.amend_ok_iff ..).mpr ⟨order, parked, above, rfl, rfl, rfl⟩
    exact ⟨_, by simp only [amend, Queue.amend_absent absent, amended]; rfl⟩

/-- An order that neither queue has is not cancelled. -/
theorem withdraw_unnamed (unnamed : book.named? image = none) :
    book.withdraw image = .error (.unknownOrder image.id) := by
  obtain ⟨resting, parked⟩ := (named_none_iff ..).mp unnamed
  have first : book.cancelResting image = .error (.unknownOrder image.id) := by
    rw [cancelResting, Queue.cancel_absent resting]
    rfl
  have second : book.cancelParked image = .error (.unknownOrder image.id) := by
    rw [cancelParked, Queue.cancel_absent parked]
    rfl
  simp only [withdraw, first, second, orElse, ite_self]

/-- An order that one of the queues has is cancelled, whichever is tried first. -/
theorem withdraw_named (named : book.named? image = some order) :
    ∃ found next, book.withdraw image = .ok (found, next) := by
  have tried : (∃ result, book.cancelResting image = .ok result) ∨
      ∃ result, book.cancelParked image = .ok result := by
    rcases (named_some_iff ..).mp named with resting | ⟨-, parked⟩
    · obtain ⟨rest, cancelled⟩ := Queue.cancel_found resting
      exact .inl ⟨_, by rw [cancelResting, cancelled]; rfl⟩
    · obtain ⟨rest, cancelled⟩ := Queue.cancel_found parked
      exact .inr ⟨_, by rw [cancelParked, cancelled]; rfl⟩
  unfold withdraw
  cases first : book.cancelResting image with
  | ok result =>
    cases second : book.cancelParked image <;> split <;> exact ⟨_, _, rfl⟩
  | error refusal =>
    cases second : book.cancelParked image with
    | ok result => split <;> exact ⟨_, _, rfl⟩
    | error other => simp [first, second] at tried

end Found

section Refused

variable {book : Book}

/-- What is refused sends one report and leaves the book as it is. -/
theorem follow_refused {instruction : Instruction} (refused : book.Refuses instruction) :
    book.follow instruction = (book,
      [Report.of instruction.refusal instruction.image (book.refusalText instruction)]) := by
  cases instruction with
  | insert order =>
    cases active : book.isActive with
    | false => simp [follow, insert, refusalText, active, Instruction.refusal, Instruction.image]
    | true =>
      have low : order.quantity ≤ 0 := refused.resolve_left (by simp [active])
      simp [follow, insert, refusalText, active, low, Instruction.refusal, Instruction.image]
  | replace image =>
    cases active : book.isActive with
    | false => simp [follow, replace, refusalText, active, Instruction.refusal, Instruction.image]
    | true =>
      rcases refused.resolve_left (by simp [active]) with absent | ⟨order, named, low⟩
      · have unnamed := (named_none_iff ..).mpr absent
        simp [follow, replace, refusalText, active, amend_unnamed unnamed, unnamed,
          Instruction.refusal, Instruction.image]
      · have named : book.named? image = some order := named
        simp [follow, replace, refusalText, active, amend_not_above named low, named,
          Instruction.refusal, Instruction.image]
  | cancel image =>
    have unnamed := (named_none_iff ..).mpr refused
    simp [follow, cancel, refusalText, withdraw_unnamed unnamed, Instruction.refusal,
      Instruction.image]

/-- No move refuses anything. -/
theorem Move.refuses_none {next : Book} {tasks later : List Task} {reports : List Report}
    (move : book.Move tasks next later reports) :
    ∀ report ∈ reports, report.kind.isRefusal = false := by
  have of_fill (order : Order) : (Report.ofFill order).kind.isRefusal = false := by
    unfold Report.ofFill
    split <;> rfl
  cases move with
  | trade traded =>
    obtain ⟨maker, behind, -, -, -, rfl⟩ := (trade_once_iff ..).mp traded
    simp [fills, of_fill]
  | @settle order _ stuck left =>
    have settles := book.settles order
    generalize book.restRemainder order = settled at settles ⊢
    cases settles <;> simp [ReportKind.isRefusal]
  | finish stuck spent => simp
  | release released => simp [ReportKind.isRefusal]
  | pass unreached => simp

/-- Nothing that tasks lead to is a refusal. -/
theorem work_refuses_none (book : Book) (tasks : List Task) :
    ∀ report ∈ (book.work tasks).2, report.kind.isRefusal = false := by
  have kept := (work_finishes book tasks).keeps
    (P := fun _ _ sent => ∀ report ∈ sent, report.kind.isRefusal = false)
    (fun move before => List.forall_mem_append.mpr ⟨before, move.refuses_none⟩) [] (by simp)
  exact kept

/-- What is done after an outset refuses nothing. -/
theorem finish_refuses_none {outset : Outset}
    (opened : ∀ report ∈ outset.reports, report.kind.isRefusal = false) :
    ∀ report ∈ outset.finish.2, report.kind.isRefusal = false :=
  List.forall_mem_append.mpr ⟨opened, outset.book.work_refuses_none outset.tasks⟩

/-- Neither is what is reported of an order on its way to the market. -/
theorem Routes.refuses_none {order : Order} {outset : Outset}
    (routes : book.Routes order outset) :
    ∀ report ∈ outset.reports, report.kind.isRefusal = false := by
  cases routes <;> simp [Outset.settled, ReportKind.isRefusal]

/-- Neither is what is reported of an order that became immediate. -/
theorem drop_immediate_refuses_none (book : Book) (order : Order) :
    ∀ report ∈ (book.dropImmediate order).2, report.kind.isRefusal = false := by
  rcases book.drop_immediate_cases order with ⟨-, nothing, -⟩ | ⟨old, -, -, dropped⟩
  · simp [nothing]
  · simp [dropped, ReportKind.isRefusal]

end Refused

/-- What is carried out is answered first, by a report on the order of the instruction, and
nothing is refused after that. -/
structure Answers (instruction : Instruction) (sent : List Report) : Prop where
  first : ∃ order reason later,
    sent = Report.of instruction.acceptance order reason :: later ∧
      order.id = instruction.image.id
  unrefused : ∀ report ∈ sent, report.kind.isRefusal = false

section Answers

variable {book : Book}

/-- An order that is routed was answered before. -/
theorem Routes.answers {order : Order} {outset : Outset} (routes : book.Routes order outset)
    (instruction : Instruction) (same : order.id = instruction.image.id) :
    Answers instruction
      (outset.after (Report.of instruction.acceptance order "")).finish.2 where
  first := ⟨order, "", _, rfl, same⟩
  unrefused := by
    refine finish_refuses_none (List.forall_mem_cons.mpr ⟨?_, routes.refuses_none⟩)
    cases instruction <;> rfl

/-- An accepted order is answered as a new one. -/
theorem insert_answers {order : Order} (accepted : ¬ book.Refuses (.insert order)) :
    Answers (.insert order) (book.insert order).2 := by
  obtain ⟨active, positive⟩ := not_or.mp accepted
  have opened : book.insertOutset order =
      (book.routeOutset order).after (Report.of .new order "") := by
    simp [insertOutset, active, positive]
  rw [insert_eq, opened]
  exact (book.routes_outset order).answers (.insert order) rfl

/-- A replacement that is carried out is answered by the order as it leaves it. -/
theorem replace_answers {image : Order} (accepted : ¬ book.Refuses (.replace image)) :
    Answers (.replace image) (book.replace image).2 := by
  obtain ⟨active, accepted⟩ := not_or.mp accepted
  obtain ⟨present, above⟩ := not_or.mp accepted
  rw [← named_none_iff] at present
  obtain ⟨order, named⟩ := Option.ne_none_iff_exists'.mp present
  have enough : order.filled < image.quantity := by
    by_contra low
    exact above ⟨order, named, Int.not_lt.mp low⟩
  obtain ⟨next, amended⟩ := amend_above named enough
  have same : order.id = image.id := id_of_named named
  rw [replace_eq]
  cases priority : order.priorityUnder image with
  | lost =>
    have opened : book.replaceOutset image = (next.routeOutset (order.replacedBy image)).after
        (Report.of .replaced (order.replacedBy image) "") := by
      simp [replaceOutset, active, amended, priority]
    rw [opened]
    exact (next.routes_outset _).answers (.replace image) same
  | kept =>
    let dropped := if (order.replacedBy image).timeInForce = .immediateOrCancel then
      next.dropImmediate (order.replacedBy image) else (next, [])
    have opened : book.replaceOutset image = .settled dropped.1
        (Report.of .replaced (order.replacedBy image) "" :: dropped.2) := by
      simp [replaceOutset, active, amended, priority, dropped]
    have others : ∀ report ∈ dropped.2, report.kind.isRefusal = false := by
      simp only [dropped]
      split
      · exact next.drop_immediate_refuses_none _
      · simp
    rw [opened, finish_settled]
    exact ⟨⟨_, "", _, rfl, same⟩, List.forall_mem_cons.mpr ⟨rfl, others⟩⟩

/-- A cancellation that is carried out is answered by the order as it leaves it. -/
theorem cancel_answers {image : Order} (accepted : ¬ book.Refuses (.cancel image)) :
    Answers (.cancel image) (book.cancel image).2 := by
  have present : book.named? image ≠ none := (named_none_iff ..).not.mpr accepted
  obtain ⟨order, named⟩ := Option.ne_none_iff_exists'.mp present
  obtain ⟨found, next, withdrawn⟩ := withdraw_named named
  have same : found.id = image.id := by
    obtain ⟨old, rfl, there⟩ := withdraw_ok withdrawn
    exact there.id
  simp only [cancel, withdrawn]
  exact ⟨⟨found, _, [], rfl, same⟩, List.forall_mem_singleton.mpr rfl⟩

/-- What is not refused is answered by another kind of report. -/
theorem follow_answers {instruction : Instruction} (accepted : ¬ book.Refuses instruction) :
    Answers instruction (book.follow instruction).2 := by
  cases instruction with
  | insert order => exact insert_answers accepted
  | replace image => exact replace_answers accepted
  | cancel image => exact cancel_answers accepted

end Answers

/-- A book sends a refusal exactly if it refuses the instruction. Then that is its only report,
with the order of the instruction, and the whole book is as it was before; otherwise the first
report tells that the instruction is carried out. -/
theorem refused_exactly (book : Book) (instruction : Instruction) :
    ((∃ report ∈ (book.follow instruction).2, report.kind.isRefusal = true) ↔
        book.Refuses instruction) ∧
      (book.Refuses instruction → book.follow instruction =
        (book, [Report.of instruction.refusal instruction.image (book.refusalText instruction)])) ∧
      (¬ book.Refuses instruction → ∃ order reason later,
        (book.follow instruction).2 = Report.of instruction.acceptance order reason :: later ∧
          order.id = instruction.image.id) := by
  refine ⟨?_, follow_refused, fun accepted => (follow_answers accepted).first⟩
  constructor
  · rintro ⟨report, member, refuses⟩
    by_contra accepted
    rw [(follow_answers accepted).unrefused report member] at refuses
    contradiction
  · intro refused
    rw [follow_refused refused]
    refine ⟨_, List.mem_singleton_self _, ?_⟩
    cases instruction <;> rfl

end Book

end Bourse
