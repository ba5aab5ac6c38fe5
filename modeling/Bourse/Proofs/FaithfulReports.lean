import Bourse.Proofs.Bookkeeping
import Bourse.Proofs.Trades
import Mathlib.Algebra.Ring.Int.Defs
import Mathlib.Data.List.Chain

/-!
# Faithful reports

Whoever reads the reports on an order knows how the order stands. The last report on an
order in a queue shows that order as it is. In every report the filled quantity is what the
fills up to then come to, the whole quantity is that of the report before unless this one
tells of a replacement, and the sender's name for the order is that of the report before
unless this one tells of a request that was carried out, which then gives the earlier name
as the previous one.

All this is a matter of one entry of a history and the entry before it. The quantity of a
fill is reported as it was asked for because no fill asks for more than is left.
-/

namespace Bourse

/-- What the fills among reports come to. -/
def executed (reports : List Report) : Int :=
  ((reports.filter (·.kind.isFill)).map (·.lastQuantity)).sum

/-- What later reports execute comes on top of what the first did. -/
theorem executed_append (reports later : List Report) :
    executed (reports ++ later) = executed reports + executed later := by
  simp only [executed, List.filter_append, List.map_append, List.sum_append]

namespace Report

/-- A report tells that a request gave its order another name: a replacement, or a
cancellation that was asked for. -/
def Renames (report : Report) : Prop :=
  report.kind = .replaced ∨
    report.kind = .cancelled ∧ report.text = some Reason.requested.text

/-- What a report on an order says beside the report before it on the same order. -/
structure Follows (earlier later : Report) : Prop where
  whole : later.kind ≠ .replaced → later.leaves + later.filled = earlier.leaves + earlier.filled
  renamed : later.Renames → later.previousClientOrderId = earlier.clientOrderId
  named : ¬ later.Renames → later.clientOrderId = earlier.clientOrderId ∧
    later.previousClientOrderId = earlier.previousClientOrderId

/-- A report without a reason renames its order only if it tells of a replacement. -/
theorem renames_of {kind : ReportKind} {order : Order} :
    (Report.of kind order "").Renames ↔ kind = .replaced := by
  simp [Renames, Report.of]

/-- A cancellation for any reason but a request leaves the name alone. -/
theorem not_renames_of {order : Order} {reason : Reason} (unasked : reason ≠ .requested) :
    ¬ (Report.of .cancelled order reason.text).Renames := by
  cases reason with
  | requested => contradiction
  | _ => simp [Renames, Report.of, Reason.text]

/-- A report that renames nothing follows the one before it if the order has the quantity
and the names that it had. -/
theorem Follows.of_unnamed {before kind : ReportKind} {old order : Order} {text : String}
    (silent : ¬ (Report.of kind order text).Renames)
    (whole : order.unfilled + order.filled = old.unfilled + old.filled)
    (named : order.clientOrderId = old.clientOrderId)
    (previous : order.previousClientOrderId = old.previousClientOrderId) :
    (Report.of before old "").Follows (Report.of kind order text) where
  whole := by
    intro _
    exact whole
  renamed := by
    intro renames
    exact absurd renames silent
  named := by
    intro _
    exact ⟨named, previous⟩

end Report

/-- The reports on an order, one after the other, agree with each other and with the fills
among them. -/
structure Faithful (reports : List Report) : Prop where
  tallies : ∀ earlier report, earlier ++ [report] <+: reports →
    report.filled = executed (earlier ++ [report])
  follows : reports.IsChain Report.Follows

namespace Faithful

/-- No reports are faithful. -/
theorem nil : Faithful [] where
  tallies := by simp
  follows := .nil

/-- One more report that tells of all fills and follows the last one. -/
theorem append {reports : List Report} {report : Report} (faithful : Faithful reports)
    (tallied : report.filled = executed (reports ++ [report]))
    (follows : ∀ last ∈ reports.getLast?, last.Follows report) :
    Faithful (reports ++ [report]) where
  tallies := by
    intro earlier other first
    rcases List.prefix_concat_iff.mp first with same | before
    · obtain ⟨rfl, rfl⟩ : earlier = reports ∧ other = report := by simpa using same
      exact tallied
    · exact faithful.tallies earlier other before
  follows := by
    refine List.isChain_append.mpr ⟨faithful.follows, .singleton report, ?_⟩
    intro last member next first
    obtain rfl : report = next := by simpa using first
    exact follows last member

end Faithful

namespace Order

variable {old order : Order} {kind : ReportKind} {report : Report}

/-- A fill is reported with its quantity, which is taken from what was left. -/
theorem fill_reported (old : Order) (before : ReportKind) (fills : kind.isFill = true)
    (price : Int) {quantity : Int} (left : quantity ≤ old.unfilled) :
    (old.fill price quantity).filled =
        old.filled + executed [Report.of kind (old.fill price quantity) ""] ∧
      (Report.of before old "").Follows (Report.of kind (old.fill price quantity) "") := by
  have filled : (old.fill price quantity).filled = old.filled + quantity := by
    rw [old.fill_eq price quantity left]
  have last : (old.fill price quantity).lastQuantity = quantity := by
    rw [old.fill_eq price quantity left]
  constructor
  · simp [executed, Report.of, fills, last, filled]
  · refine .of_unnamed ?_ ?_ rfl rfl
    · rw [Report.renames_of]
      rintro rfl
      contradiction
    · rw [old.unfilled_fill price quantity left, filled]
      omega

/-- A change is reported with what it fills, and otherwise leaves the report before it as
it was. -/
theorem Changes.reported (change : old.Changes kind order) (before : ReportKind) :
    order.filled = old.filled + executed [Report.of kind order ""] ∧
      (Report.of before old "").Follows (Report.of kind order "") := by
  cases change with
  | replaced image above =>
    have renames : (Report.of .replaced (old.replacedBy image) "").Renames :=
      Report.renames_of.mpr rfl
    refine ⟨(Int.add_zero _).symm, ?_, ?_, ?_⟩
    · intro other
      contradiction
    · intro _
      rfl
    · intro other
      contradiction
  | triggered =>
    obtain ⟨type, same⟩ := old.trigger_cases
    rw [same]
    constructor
    · exact (Int.add_zero _).symm
    · exact .of_unnamed (by simp [Report.renames_of]) rfl rfl rfl
  | restated price =>
    constructor
    · exact (Int.add_zero _).symm
    · exact .of_unnamed (by simp [Report.renames_of]) rfl rfl rfl
  | filled price quantity positive less =>
    exact old.fill_reported before rfl price (Int.le_of_lt less)

/-- So is the end of an order. -/
theorem Ends.reported (ends : old.Ends report) (before : ReportKind) :
    report.filled = old.filled + executed [report] ∧
      (Report.of before old "").Follows report := by
  cases ends with
  | filled price left =>
    exact old.fill_reported before rfl price (Int.le_refl _)
  | requested image =>
    refine ⟨(Int.add_zero _).symm, ?_, ?_, ?_⟩
    · intro _
      rfl
    · intro _
      rfl
    · intro other
      exact absurd (.inr ⟨rfl, rfl⟩) other
  | cancelled reason unasked =>
    constructor
    · exact (Int.add_zero _).symm
    · exact .of_unnamed (Report.not_renames_of unasked) rfl rfl rfl

end Order

/-- A history is faithful. It ends with the order as it stands, which is filled as far as its
fills come to. -/
theorem History.faithful {reports : List Report} {order : Order}
    (history : History reports order) :
    Faithful reports ∧ order.filled = executed reports ∧
      ∃ kind, reports.getLast? = some (Report.of kind order "") := by
  induction history with
  | accepted order untouched =>
    refine ⟨Faithful.nil.append untouched (by simp), untouched, .new, rfl⟩
  | @changed reports old order kind before change induction =>
    obtain ⟨faithful, filled, last, shown⟩ := induction
    obtain ⟨more, follows⟩ := change.reported last
    have tallied : order.filled = executed (reports ++ [Report.of kind order ""]) := by
      rw [executed_append, more, filled]
    refine ⟨faithful.append tallied ?_, tallied, kind, List.getLast?_concat ..⟩
    intro other member
    obtain rfl : Report.of last old "" = other := by simpa [shown] using member
    exact follows

/-- The reports on an order that is gone are faithful. -/
theorem Concluded.faithful {reports : List Report} (concluded : Concluded reports) :
    Faithful reports := by
  cases concluded with
  | @ended reports old report before ends =>
    obtain ⟨faithful, filled, last, shown⟩ := before.faithful
    obtain ⟨more, follows⟩ := ends.reported last
    refine faithful.append (by rw [executed_append, more, filled]) ?_
    intro other member
    obtain rfl : Report.of last old "" = other := by simpa [shown] using member
    exact follows

namespace Book

/-- After every run whose new orders bear identifiers of their own, the last report on an
order in a queue shows the order as it stands, and the reports on every order agree with
each other and with its fills. -/
theorem reports_are_faithful (first : Order) (operations : List Operation)
    (fresh : Fresh operations) :
    let sent := ((ofFirst first).performAll operations).2
    (∀ order ∈ ((ofFirst first).performAll operations).1.orders,
      ∃ kind, (reportsOn order.id sent).getLast? = some (Report.of kind order "")) ∧
    ∀ id, Faithful (reportsOn id sent) := by
  intro sent
  have ledger := run_ledger first fresh
  constructor
  · intro order member
    exact (ledger.running order member).faithful.2.2
  · intro id
    by_cases held : id ∈ ((ofFirst first).performAll operations).1.orders.map (·.id)
    · obtain ⟨order, member, rfl⟩ := List.mem_map.mp held
      exact (ledger.running order member).faithful.1
    · rcases ledger.concluded id held with nothing | concluded
      · rw [nothing]
        exact .nil
      · exact concluded.faithful

/-- Before the book closes, two orders rest that were filled in part, and one of them was
replaced. Afterwards the other one was cancelled under a new name. -/
theorem eventful_day_faithful :
    Fresh (eventfulDay.take 5) ∧ Fresh eventfulDay ∧
      (let morning := (ofFirst default).performAll (eventfulDay.take 5)
      morning.1.orders.map (fun order => (order.id.value, order.filled)) = [(3, 3), (1, 3)] ∧
        ∀ order ∈ morning.1.orders,
          ∃ kind, (reportsOn order.id morning.2).getLast? = some (Report.of kind order "")) ∧
      let reports := reportsOn ⟨1⟩ ((ofFirst default).performAll eventfulDay).2
      reports.map (fun report => (report.leaves, report.filled, report.clientOrderId)) =
          [(4, 0, "a"), (1, 3, "a"), (1, 3, "c")] ∧ Faithful reports :=
  ⟨by decide, by decide, ⟨by decide, (reports_are_faithful default _ (by decide)).1⟩,
    by decide, (reports_are_faithful default eventfulDay (by decide)).2 ⟨1⟩⟩

end Book

end Bourse
