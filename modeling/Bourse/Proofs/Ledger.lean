import Bourse.Proofs.Outstanding

/-!
# Reports as a ledger

The reports of a run are entries of a ledger: each of them says how one order came to
stand as it does. What is said of one order alone is its history. It begins with the
acceptance of the order, goes on with changes that leave it outstanding, and is concluded
by its last fill or by its cancellation. A report on a refused request belongs to no
history.

`Ledger` relates the reports sent so far to the outstanding orders: every one of them has
a history that ends with the order as it stands, and whatever else was accepted is
concluded. Every outset and every move of a run keeps this, provided that an order that
comes to the book bears an identifier that no order bore before: `run_ledger`. What holds
of a history is then a matter of its few kinds of entries.
-/

namespace Bourse

/-- Whether a report of a kind refuses a request. -/
def ReportKind.isRefusal : ReportKind → Bool
  | .rejected => true
  | .replaceRejected => true
  | .cancelRejected => true
  | _ => false

/-- Whether a report of a kind answers a new order. -/
def ReportKind.isAnswer : ReportKind → Bool
  | .new => true
  | .rejected => true
  | _ => false

/-- Whether a report tells of what happened to the order with an identifier. -/
def Report.concerns (id : OrderId) (report : Report) : Bool :=
  report.order == id && !report.kind.isRefusal

/-- The reports on what happened to the order with an identifier. -/
def reportsOn (id : OrderId) (sent : List Report) : List Report :=
  sent.filter (·.concerns id)

/-- The orders that were answered when they came to the book, one for each answer. -/
def answered (sent : List Report) : List OrderId :=
  (sent.filter (·.kind.isAnswer)).map (·.order)

namespace Order

/-- How an order changes with a report of a kind, and stays outstanding. -/
inductive Changes (old : Order) : ReportKind → Order → Prop where
  | replaced (image : Order) (above : old.filled < image.quantity) :
      Changes old .replaced (old.replacedBy image)
  | triggered : Changes old .triggered old.trigger
  | restated (price : Int) : Changes old .restated (old.limitedAt price)
  | filled (price quantity : Int) (positive : 0 < quantity) (less : quantity < old.unfilled) :
      Changes old .partialFill (old.fill price quantity)

/-- With what report an order ceases to be outstanding. -/
inductive Ends (old : Order) : Report → Prop where
  | filled (price : Int) (left : 0 < old.unfilled) :
      Ends old (Report.of .fill (old.fill price old.unfilled) "")
  | requested (image : Order) :
      Ends old (Report.of .cancelled (old.renamed image) Reason.requested.text)
  | cancelled (reason : Reason) (unasked : reason ≠ .requested) :
      Ends old (Report.of .cancelled old reason.text)

/-- A release changes the type of an order and nothing else. -/
theorem trigger_cases (order : Order) : ∃ type, order.trigger = { order with type } := by
  unfold trigger
  split
  · exact ⟨_, rfl⟩
  · exact ⟨_, rfl⟩
  · exact ⟨order.type, rfl⟩

/-- A change is no change of the identifier, and no refusal. -/
theorem Changes.same {old order : Order} {kind : ReportKind} (change : old.Changes kind order) :
    order.id = old.id ∧ kind.isRefusal = false := by
  cases change with
  | replaced image above => exact ⟨rfl, rfl⟩
  | triggered =>
    obtain ⟨type, same⟩ := old.trigger_cases
    rw [same]
    exact ⟨rfl, rfl⟩
  | restated price => exact ⟨rfl, rfl⟩
  | filled price quantity positive less => exact ⟨rfl, rfl⟩

/-- The report that ends an order is on that order, and is no refusal. -/
theorem Ends.same {old : Order} {report : Report} (ends : old.Ends report) :
    report.order = old.id ∧ report.kind.isRefusal = false := by
  cases ends <;> exact ⟨rfl, rfl⟩

end Order

/-- The reports on an order that is outstanding, and how it stands after them. -/
inductive History : List Report → Order → Prop where
  | accepted (order : Order) (untouched : order.filled = 0) :
      History [Report.of .new order ""] order
  | changed {reports : List Report} {old order : Order} {kind : ReportKind}
      (before : History reports old) (change : old.Changes kind order) :
      History (reports ++ [Report.of kind order ""]) order

/-- The reports on an order that was outstanding and is so no longer. -/
inductive Concluded : List Report → Prop where
  | ended {reports : List Report} {old : Order} {report : Report}
      (before : History reports old) (ends : old.Ends report) : Concluded (reports ++ [report])

/-- A history begins with the acceptance of its order. -/
theorem History.accepted_first {reports : List Report} {order : Order}
    (history : History reports order) :
    ∃ first later, reports = first :: later ∧ first.kind = .new := by
  induction history with
  | accepted order untouched => exact ⟨_, [], rfl, rfl⟩
  | changed before change induction =>
    obtain ⟨first, later, rfl, new⟩ := induction
    exact ⟨first, _, List.cons_append, new⟩

/-- The reports on an order that is gone begin with its acceptance. -/
theorem Concluded.accepted_first {reports : List Report} (concluded : Concluded reports) :
    ∃ first later, reports = first :: later ∧ first.kind = .new := by
  cases concluded with
  | ended before ends =>
    obtain ⟨first, later, rfl, new⟩ := before.accepted_first
    exact ⟨first, _, List.cons_append, new⟩

section Reports

variable (sent : List Report) {report : Report} {id : OrderId}

/-- A report is on the order that it is made for. -/
theorem order_of (kind : ReportKind) (order : Order) (reason : String) :
    (Report.of kind order reason).order = order.id := rfl

/-- The later reports on an order stand behind the first. -/
theorem reports_on_append (id : OrderId) (later : List Report) :
    reportsOn id (sent ++ later) = reportsOn id sent ++ reportsOn id later :=
  List.filter_append ..

/-- A report on an order comes behind the others on it. -/
theorem reports_on_own (same : report.order = id) (tells : report.kind.isRefusal = false) :
    reportsOn id (sent ++ [report]) = reportsOn id sent ++ [report] := by
  have concerns : report.concerns id = true := by simp [Report.concerns, same, tells]
  rw [reports_on_append]
  exact congrArg _ (List.filter_cons_of_pos concerns)

/-- A report on another order, or on a refusal, tells nothing of an order. -/
theorem reports_on_other (other : report.order ≠ id ∨ report.kind.isRefusal = true) :
    reportsOn id (sent ++ [report]) = reportsOn id sent := by
  have concerns : report.concerns id = false := by
    rcases other with different | refuses
    · simp [Report.concerns, different]
    · simp [Report.concerns, refuses]
  rw [reports_on_append]
  simp [reportsOn, concerns]

/-- The later answers stand behind the first. -/
theorem answered_append (later : List Report) :
    answered (sent ++ later) = answered sent ++ answered later := by
  simp only [answered, List.filter_append, List.map_append]

end Reports

/-- The reports sent so far account for the outstanding orders. -/
structure Ledger (sent : List Report) (outstanding : List Order) : Prop where
  distinct : (outstanding.map (·.id)).Nodup
  running : ∀ order ∈ outstanding, History (reportsOn order.id sent) order
  concluded : ∀ id, id ∉ outstanding.map (·.id) →
    reportsOn id sent = [] ∨ Concluded (reportsOn id sent)

namespace Ledger

variable {sent : List Report} {orders others : List Order} {old order : Order} {report : Report}

/-- Before the first report there is nothing to account for. -/
theorem empty : Ledger [] [] where
  distinct := List.nodup_nil
  running := by simp
  concluded := fun _ _ => .inl rfl

/-- In which order the outstanding orders are listed does not matter. -/
theorem perm (ledger : Ledger sent orders) (same : orders.Perm others) : Ledger sent others where
  distinct := (same.map _).nodup_iff.mp ledger.distinct
  running := fun order member => ledger.running order (same.mem_iff.mpr member)
  concluded := fun id absent =>
    ledger.concluded id fun member => absent ((same.map _).mem_iff.mp member)

/-- Only reports on what happened to orders are entered. -/
theorem refused (ledger : Ledger sent orders) (refuses : report.kind.isRefusal = true) :
    Ledger (sent ++ [report]) orders where
  distinct := ledger.distinct
  running := by
    intro order member
    rw [reports_on_other sent (.inr refuses)]
    exact ledger.running order member
  concluded := by
    intro id absent
    rw [reports_on_other sent (.inr refuses)]
    exact ledger.concluded id absent

/-- An order that nothing was reported of is not outstanding. -/
theorem unheld (ledger : Ledger sent orders) {id : OrderId} (unreported : reportsOn id sent = []) :
    id ∉ orders.map (·.id) := by
  intro member
  obtain ⟨held, present, rfl⟩ := List.mem_map.mp member
  obtain ⟨first, later, begins, -⟩ := (ledger.running held present).accepted_first
  rw [unreported] at begins
  contradiction

/-- An order that nothing was reported of is accepted. -/
theorem accepted (ledger : Ledger sent orders) (unreported : reportsOn order.id sent = [])
    (untouched : order.filled = 0) :
    Ledger (sent ++ [Report.of .new order ""]) (order :: orders) := by
  have fresh := ledger.unheld unreported
  have own : reportsOn order.id (sent ++ [Report.of .new order ""]) =
      [Report.of .new order ""] := by
    rw [reports_on_own sent (order_of ..) (by rfl), unreported, List.nil_append]
  refine ⟨List.nodup_cons.mpr ⟨fresh, ledger.distinct⟩, ?_, ?_⟩
  · intro other member
    rcases List.mem_cons.mp member with rfl | member
    · rw [own]
      exact .accepted other untouched
    · have different : order.id ≠ other.id := by
        intro same
        exact fresh (same ▸ List.mem_map_of_mem member)
      rw [reports_on_other sent (.inl different)]
      exact ledger.running other member
  · intro id absent
    obtain ⟨different, absent⟩ := not_or.mp (List.mem_cons.not.mp absent)
    rw [reports_on_other sent (.inl (Ne.symm different))]
    exact ledger.concluded id absent

/-- The orders besides one bear other identifiers. -/
theorem apart (ledger : Ledger sent (old :: others)) :
    ∀ other ∈ others, old.id ≠ other.id := by
  intro other member same
  refine (List.nodup_cons.mp ledger.distinct).1 ?_
  exact List.mem_map.mpr ⟨other, member, same.symm⟩

/-- An outstanding order changes. -/
theorem changed {kind : ReportKind} (ledger : Ledger sent (old :: others))
    (change : old.Changes kind order) :
    Ledger (sent ++ [Report.of kind order ""]) (order :: others) := by
  obtain ⟨same, tells⟩ := change.same
  refine ⟨?_, ?_, ?_⟩
  · have distinct := ledger.distinct
    rw [List.map_cons] at distinct ⊢
    rwa [same]
  · intro other member
    rcases List.mem_cons.mp member with rfl | member
    · rw [reports_on_own sent (order_of ..) (by exact tells), same]
      exact .changed (ledger.running old List.mem_cons_self) change
    · have different : order.id ≠ other.id := same ▸ ledger.apart other member
      rw [reports_on_other sent (.inl (by exact different))]
      exact ledger.running other (List.mem_cons_of_mem _ member)
  · intro id absent
    obtain ⟨different, -⟩ := not_or.mp (List.mem_cons.not.mp absent)
    rw [reports_on_other sent (.inl (Ne.symm different))]
    refine ledger.concluded id ?_
    rwa [List.map_cons, ← same]

/-- An outstanding order comes to its end. -/
theorem ended (ledger : Ledger sent (old :: others)) (ends : old.Ends report) :
    Ledger (sent ++ [report]) others := by
  obtain ⟨same, tells⟩ := ends.same
  refine ⟨(List.nodup_cons.mp ledger.distinct).2, ?_, ?_⟩
  · intro other member
    rw [reports_on_other sent (.inl (same ▸ ledger.apart other member))]
    exact ledger.running other (List.mem_cons_of_mem _ member)
  · intro id absent
    by_cases named : old.id = id
    · subst named
      rw [reports_on_own sent same tells]
      exact .inr (.ended (ledger.running old List.mem_cons_self) ends)
    · rw [reports_on_other sent (.inl (same ▸ named))]
      exact ledger.concluded id fun member =>
        (List.mem_cons.mp member).elim (fun same => named same.symm) absent

/-- A fill leaves an order outstanding that has something left, and ends it otherwise. -/
theorem filled (ledger : Ledger sent (old :: others)) (price : Int) {quantity : Int}
    (positive : 0 < quantity) (left : quantity ≤ old.unfilled) :
    Ledger (sent ++ [Report.ofFill (old.fill price quantity)])
      ((old.fill price quantity).outstanding?.toList ++ others) := by
  have rest := old.unfilled_fill price quantity left
  unfold Report.ofFill
  by_cases spent : quantity = old.unfilled
  · have gone : (old.fill price quantity).unfilled = 0 := by omega
    rw [if_pos ((Order.pending_eq_zero_iff _).mpr gone), Order.outstanding_of_spent (by omega),
      spent]
    exact ledger.ended (.filled price (by omega))
  · have some : 0 < (old.fill price quantity).unfilled := by omega
    have shown : ¬ (old.fill price quantity).pending = 0 := by
      rw [Order.pending_eq_zero_iff]
      omega
    rw [if_neg shown, Order.outstanding_of_left some]
    exact ledger.changed (.filled price quantity positive (by omega))

/-- All orders are cancelled as a book closes. -/
theorem closed (ledger : Ledger sent orders) : Ledger (sent ++ Book.closingReports orders) [] := by
  induction orders generalizing sent with
  | nil => simpa [Book.closingReports] using ledger
  | cons order others induction =>
    have first := ledger.ended (.cancelled .closing (by decide))
    simpa [Book.closingReports] using induction first

/-- Nothing was reported of an order that was not answered. -/
theorem unreported (ledger : Ledger sent orders) {id : OrderId} (absent : id ∉ answered sent) :
    reportsOn id sent = [] := by
  have first : reportsOn id sent = [] ∨
      ∃ first later, reportsOn id sent = first :: later ∧ first.kind = .new := by
    by_cases held : id ∈ orders.map (·.id)
    · obtain ⟨order, member, rfl⟩ := List.mem_map.mp held
      exact .inr (ledger.running order member).accepted_first
    · exact (ledger.concluded id held).imp_right Concluded.accepted_first
  rcases first with nothing | ⟨first, later, begins, new⟩
  · exact nothing
  · obtain ⟨member, concerns⟩ := List.mem_filter.mp (begins ▸ List.mem_cons_self :
      first ∈ reportsOn id sent)
    have same : first.order = id := by
      simp only [Report.concerns, Bool.and_eq_true, beq_iff_eq] at concerns
      exact concerns.1
    refine absurd ?_ absent
    exact same ▸ List.mem_map_of_mem (List.mem_filter.mpr ⟨member, by rw [new]; rfl⟩)

end Ledger

end Bourse
