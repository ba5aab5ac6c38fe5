import Bourse.Proofs.Bookkeeping

/-!
# The life of an order

An order that is accepted is reported of in one way only: it is new, it changes as often as
it may, and it is filled or cancelled at most once, with no report after that. As long as
it is not, it is in one of the queues between operations, and in no queue twice; after that,
and before its acceptance, it is in none. An order that is rejected never enters a queue.
So no order is lost, held twice or reported as finished twice, whatever stop orders it sets
off, whatever replaces it and however the book closes.

The reports alone tell all this. For the orders in the queues it follows from the ledger of
the run, and for the others from the kinds of reports that a concluded history ends with.
-/

namespace Bourse

/-- Whether an order stays outstanding after a report of a kind on it. -/
def ReportKind.isChange : ReportKind → Bool
  | .replaced => true
  | .restated => true
  | .triggered => true
  | .partialFill => true
  | _ => false

/-- Whether an order is outstanding no longer after a report of a kind on it. -/
def ReportKind.isLast : ReportKind → Bool
  | .fill => true
  | .cancelled => true
  | _ => false

/-- The kinds of reports on an order, in their order: it is accepted, it changes, and it
may have come to its end. -/
def Lifecycle (kinds : List ReportKind) : Prop :=
  ∃ changes, ∃ last : Option ReportKind, kinds = .new :: (changes ++ last.toList) ∧
    (∀ kind ∈ changes, kind.isChange = true) ∧ ∀ kind ∈ last, kind.isLast = true

/-- A report of a kind was sent on an order. -/
def Reported (id : OrderId) (kind : ReportKind) (sent : List Report) : Prop :=
  ∃ report ∈ sent, report.order = id ∧ report.kind = kind

instance (id : OrderId) (kind : ReportKind) (sent : List Report) :
    Decidable (Reported id kind sent) :=
  inferInstanceAs (Decidable (∃ report ∈ sent, report.order = id ∧ report.kind = kind))

/-- An order was reported as filled to its end, or as cancelled. -/
def Ended (id : OrderId) (sent : List Report) : Prop :=
  Reported id .fill sent ∨ Reported id .cancelled sent

/-- A report on a change is of a kind that goes on. -/
theorem Order.Changes.is_change {old order : Order} {kind : ReportKind}
    (change : old.Changes kind order) : kind.isChange = true := by
  cases change <;> rfl

/-- A report on an end is of a kind that is the last. -/
theorem Order.Ends.is_last {old : Order} {report : Report} (ends : old.Ends report) :
    report.kind.isLast = true := by
  cases ends <;> rfl

/-- A kind that goes on is not the last. -/
theorem ReportKind.not_last_of_change {kind : ReportKind} (change : kind.isChange = true) :
    kind.isLast = false := by
  revert change
  cases kind <;> decide

/-- A history is an acceptance and changes. -/
theorem History.kinds {reports : List Report} {order : Order} (history : History reports order) :
    ∃ changes, reports.map (·.kind) = .new :: changes ∧ ∀ kind ∈ changes, kind.isChange = true := by
  induction history with
  | accepted order untouched => exact ⟨[], rfl, by simp⟩
  | @changed _ _ _ kind before change induction =>
    obtain ⟨changes, spelled, all⟩ := induction
    refine ⟨changes ++ [kind], by rw [List.map_append, spelled]; rfl, ?_⟩
    intro other member
    rcases List.mem_append.mp member with member | member
    · exact all other member
    · obtain rfl := List.mem_singleton.mp member
      exact change.is_change

/-- Nothing ends an order whose history goes on. -/
theorem History.not_last {reports : List Report} {order : Order} (history : History reports order) :
    ∀ report ∈ reports, report.kind.isLast = false := by
  obtain ⟨changes, spelled, all⟩ := history.kinds
  intro report member
  have kind : report.kind ∈ .new :: changes := spelled ▸ List.mem_map_of_mem member
  rcases List.mem_cons.mp kind with new | change
  · rw [new]
    rfl
  · exact ReportKind.not_last_of_change (all _ change)

/-- The kinds of the reports on an order that is there make a life. -/
theorem History.lifecycle {reports : List Report} {order : Order}
    (history : History reports order) : Lifecycle (reports.map (·.kind)) := by
  obtain ⟨changes, spelled, all⟩ := history.kinds
  exact ⟨changes, none, by rw [spelled, Option.toList_none, List.append_nil], all, by simp⟩

/-- So do those of the reports on an order that is gone. -/
theorem Concluded.lifecycle {reports : List Report} (concluded : Concluded reports) :
    Lifecycle (reports.map (·.kind)) := by
  cases concluded with
  | @ended _ _ report before ends =>
    obtain ⟨changes, spelled, all⟩ := before.kinds
    refine ⟨changes, some report.kind, by rw [List.map_append, spelled]; rfl, all, ?_⟩
    intro kind last
    obtain rfl := Option.some.inj last
    exact ends.is_last

/-- The last report of a concluded history ends its order. -/
theorem Concluded.last {reports : List Report} (concluded : Concluded reports) :
    ∃ report ∈ reports, report.kind.isLast = true := by
  cases concluded with
  | ended before ends =>
    exact ⟨_, List.mem_append_right _ List.mem_cons_self, ends.is_last⟩

section Reported

variable {id : OrderId} {kind : ReportKind} {sent : List Report} {orders : List Order}

/-- A report that refuses nothing is one on its order. -/
theorem reported_iff (tells : kind.isRefusal = false) :
    Reported id kind sent ↔ ∃ report ∈ reportsOn id sent, report.kind = kind := by
  constructor
  · rintro ⟨report, member, named, same⟩
    refine ⟨report, List.mem_filter.mpr ⟨member, ?_⟩, same⟩
    simp [Report.concerns, named, same, tells]
  · rintro ⟨report, member, same⟩
    obtain ⟨member, concerns⟩ := List.mem_filter.mp member
    simp only [Report.concerns, Bool.and_eq_true, beq_iff_eq] at concerns
    exact ⟨report, member, concerns.1, same⟩

/-- An order has ended exactly if a last report on it was sent. -/
theorem ended_iff : Ended id sent ↔ ∃ report ∈ reportsOn id sent, report.kind.isLast = true := by
  rw [Ended, reported_iff rfl, reported_iff rfl]
  constructor
  · rintro (⟨report, member, same⟩ | ⟨report, member, same⟩)
    · exact ⟨report, member, by rw [same]; rfl⟩
    · exact ⟨report, member, by rw [same]; rfl⟩
  · rintro ⟨report, member, last⟩
    cases kind : report.kind with
    | fill => exact .inl ⟨report, member, kind⟩
    | cancelled => exact .inr ⟨report, member, kind⟩
    | _ => simp [kind, ReportKind.isLast] at last

/-- Where there are reports on an order, the first of them is its acceptance. -/
theorem reported_new_of_first
    (first : ∃ first later, reportsOn id sent = first :: later ∧ first.kind = .new) :
    Reported id .new sent := by
  obtain ⟨first, later, begins, new⟩ := first
  exact (reported_iff rfl).mpr ⟨first, begins ▸ List.mem_cons_self, new⟩

namespace Ledger

/-- What is reported of an order is its life so far. -/
theorem lifecycle (ledger : Ledger sent orders) (accepted : Reported id .new sent) :
    Lifecycle ((reportsOn id sent).map (·.kind)) := by
  by_cases held : id ∈ orders.map (·.id)
  · obtain ⟨order, member, rfl⟩ := List.mem_map.mp held
    exact (ledger.running order member).lifecycle
  · rcases ledger.concluded id held with nothing | concluded
    · obtain ⟨report, member, -⟩ := (reported_iff rfl).mp accepted
      simp [nothing] at member
    · exact concluded.lifecycle

/-- An order that was not accepted is not reported of. -/
theorem silent (ledger : Ledger sent orders) (unaccepted : ¬ Reported id .new sent) :
    reportsOn id sent = [] := by
  by_cases held : id ∈ orders.map (·.id)
  · obtain ⟨order, member, rfl⟩ := List.mem_map.mp held
    exact absurd (reported_new_of_first (ledger.running order member).accepted_first) unaccepted
  · rcases ledger.concluded id held with nothing | concluded
    · exact nothing
    · exact absurd (reported_new_of_first concluded.accepted_first) unaccepted

/-- The outstanding orders are those that were accepted and have not come to their end. -/
theorem held_iff (ledger : Ledger sent orders) :
    id ∈ orders.map (·.id) ↔ Reported id .new sent ∧ ¬ Ended id sent := by
  constructor
  · intro held
    obtain ⟨order, member, rfl⟩ := List.mem_map.mp held
    have history := ledger.running order member
    constructor
    · exact reported_new_of_first history.accepted_first
    · intro ended
      obtain ⟨report, member, last⟩ := ended_iff.mp ended
      rw [history.not_last report member] at last
      contradiction
  · rintro ⟨accepted, going⟩
    by_contra gone
    rcases ledger.concluded id gone with nothing | concluded
    · obtain ⟨report, member, -⟩ := (reported_iff rfl).mp accepted
      simp [nothing] at member
    · exact going (ended_iff.mpr concluded.last)

end Ledger

end Reported

/-- No order is both accepted and rejected where every answer is to another order. -/
theorem not_accepted_of_rejected {id : OrderId} {sent : List Report}
    (distinct : (answered sent).Nodup) (rejected : Reported id .rejected sent) :
    ¬ Reported id .new sent := by
  rintro ⟨report, member, named, new⟩
  obtain ⟨other, present, same, refused⟩ := rejected
  have equal := List.inj_on_of_nodup_map distinct
    (List.mem_filter.mpr ⟨member, by rw [new]; rfl⟩)
    (List.mem_filter.mpr ⟨present, by rw [refused]; rfl⟩) (named.trans same.symm)
  rw [equal, refused] at new
  contradiction

namespace Book

/-- A run is a run of its first operations and then one of the others. -/
theorem perform_all_append (book : Book) (operations later : List Operation) :
    book.performAll (operations ++ later) =
      (((book.performAll operations).1.performAll later).1,
        (book.performAll operations).2 ++
          ((book.performAll operations).1.performAll later).2) := by
  induction operations generalizing book with
  | nil => rfl
  | cons operation operations induction =>
    simp only [List.cons_append, performAll, induction, List.append_assoc]

/-- Every new order is answered once. One that is accepted is reported of in the way of a
life, and is held by exactly one queue, and once, exactly as long as it has not come to its
end; of any other order nothing is reported. One that is rejected is in no queue at any
time. -/
theorem every_order_lives_once (first : Order) (operations : List Operation)
    (fresh : Fresh operations) :
    let sent := ((ofFirst first).performAll operations).2
    let queued := ((ofFirst first).performAll operations).1.orders.map (·.id)
    answered sent = newIds operations ∧
      ∀ id,
        (Reported id .new sent → Lifecycle ((reportsOn id sent).map (·.kind))) ∧
        (¬ Reported id .new sent → reportsOn id sent = []) ∧
        queued.count id ≤ 1 ∧
        (queued.count id = 1 ↔ Reported id .new sent ∧ ¬ Ended id sent) ∧
        (Reported id .rejected sent → ∀ done, done <+: operations →
          id ∉ ((ofFirst first).performAll done).1.orders.map (·.id)) := by
  intro sent queued
  have ledger := run_ledger first fresh
  have answers : answered sent = newIds operations := answered_all operations _
  refine ⟨answers, fun id => ⟨ledger.lifecycle, ledger.silent, ?_, ?_, ?_⟩⟩
  · exact List.nodup_iff_count_le_one.mp ledger.distinct id
  · rw [← ledger.held_iff]
    constructor
    · intro once
      have positive : 0 < queued.count id := by
        rw [once]
        exact Nat.one_pos
      exact List.count_pos_iff.mp positive
    · exact List.count_eq_one_of_mem ledger.distinct
  · rintro rejected done ⟨later, rfl⟩ held
    have freshDone : Fresh done := by
      unfold Fresh newIds at fresh
      rw [List.filterMap_append] at fresh
      exact (List.nodup_append.mp fresh).1
    obtain ⟨⟨report, member, named, new⟩, -⟩ := (run_ledger first freshDone).held_iff.mp held
    refine not_accepted_of_rejected (answers ▸ fresh) rejected ⟨report, ?_, named, new⟩
    have both := perform_all_append (ofFirst first) done later
    simp only [sent, both]
    exact List.mem_append_left _ member

/-- The third order is replaced, fills in part and is cancelled as the book closes; the
fifth is rejected. -/
theorem eventful_day_lives :
    Fresh eventfulDay ∧
      let sent := ((ofFirst default).performAll eventfulDay).2
      (reportsOn ⟨3⟩ sent).map (·.kind) = [.new, .replaced, .partialFill, .cancelled] ∧
        Lifecycle ((reportsOn ⟨3⟩ sent).map (·.kind)) ∧
        ∀ done, done <+: eventfulDay →
          ⟨5⟩ ∉ ((ofFirst default).performAll done).1.orders.map (·.id) := by
  have lives := (every_order_lives_once default eventfulDay (by decide)).2
  exact ⟨by decide, by decide, (lives ⟨3⟩).1 (by decide), (lives ⟨5⟩).2.2.2.2 (by decide)⟩

end Book

end Bourse
