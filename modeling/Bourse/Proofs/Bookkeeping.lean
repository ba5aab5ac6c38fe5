import Bourse.Proofs.Ledger

/-!
# Every run keeps its ledger

Each move of an execution, and whatever an operation does at once, sends the reports that
account for what becomes of the outstanding orders: `Move.ledger`, `Opens.ledger`. An
operation that brings a new order to the book does so provided that nothing was reported
under its identifier, so runs are considered whose new orders bear identifiers of their
own. Such a run answers every new order once, and in the order of their arrival:
`answered_all`. Its reports are a ledger of the orders in the queues: `run_ledger`.
-/

namespace Bourse

/-- The identifier of the order that an operation brings to the book, if its request is
one. -/
def Operation.newId? : Operation → Option OrderId
  | .insert id request =>
    match Order.ofNew id request with
    | .ok _ => some id
    | .error _ => none
  | _ => none

/-- The identifiers of the orders that operations bring to the book. -/
def newIds (operations : List Operation) : List OrderId := operations.filterMap Operation.newId?

/-- Every new order bears an identifier of its own. -/
def Fresh (operations : List Operation) : Prop := (newIds operations).Nodup

instance (operations : List Operation) : Decidable (Fresh operations) :=
  inferInstanceAs (Decidable (newIds operations).Nodup)

/-- A sale of four at ten. -/
def firstSale : NewOrder := ⟨"", "a", "", .sell, .limit, 4, some 10, none, .day, none⟩

/-- The order that the sale becomes. -/
def openingOrder : Order := (Order.ofNew ⟨1⟩ firstSale).toOption.getD default

/-- A day on which a market order trades and sets off a stop order, which then trades with an
order that was replaced. After that the record is published, an order is cancelled, and the
book closes with another one partly filled and refuses one more. -/
def eventfulDay : List Operation :=
  let enter id side type quantity price stopPrice : Operation :=
    .insert ⟨id⟩ ⟨"", "a", "", side, type, quantity, price, stopPrice, .day, none⟩
  [.insert ⟨1⟩ firstSale,
   enter 2 .sell .stopLimit 3 (some 9) (some 10),
   enter 3 .buy .limit 2 (some 8) none,
   enter 4 .buy .market 3 none none,
   .replace ⟨⟨3⟩, "a", "", "b", "", .buy, .limit, 5, 0, some 9, none, .day, none⟩,
   .publish,
   .cancel ⟨⟨1⟩, "b", "", "c", "", .sell, .limit, 0⟩,
   .stop,
   enter 5 .buy .limit 1 (some 9) none]

/-- A new order has the identifier that it is given. -/
theorem Order.id_of_new {id : OrderId} {request : NewOrder} {order : Order}
    (built : Order.ofNew id request = .ok order) : order.id = id :=
  (Order.new_ok built).2.2.1

namespace Book

section Ledger

variable {book next : Book} {sent : List Report}

/-- The order of a task with something left is one of the outstanding orders. -/
theorem outstanding_trade_left (book : Book) {order : Order} (left : 0 < order.unfilled)
    (tasks : List Task) :
    (book.outstanding (.trade order :: tasks)).Perm (order :: book.outstanding tasks) := by
  have held := book.outstanding_trade_perm order tasks
  rwa [Order.outstanding_of_left left] at held

/-- Of an order with nothing left only the task remains. -/
theorem outstanding_trade_spent (book : Book) {order : Order} (spent : order.unfilled ≤ 0)
    (tasks : List Task) : book.outstanding (.trade order :: tasks) = book.outstanding tasks := by
  simp only [outstanding, List.filterMap_cons, Task.outstanding?,
    Order.outstanding_of_spent spent]

/-- A trade fills the first order of the other flow, and then the order that is traded. -/
theorem Meets.ledger {taker : Order} {maker : Queue.Entry} {behind : List Queue.Entry}
    {tasks : List Task} (meets : book.Meets taker maker behind)
    (ledger : Ledger sent (book.outstanding (.trade taker :: tasks))) :
    Ledger (sent ++ fills taker maker.order) ((book.traded taker maker behind).outstanding
      (.check .buying ::
        .trade (taker.fill maker.order.price (tradedQuantity taker maker.order)) :: tasks)) := by
  obtain ⟨positive, ofTaker, ofMaker⟩ := meets.bounded
  -- what is outstanding apart from the two, and stays so
  let others := behind.map (·.order) ++
    (book.withResting taker.flow.contra .empty).outstanding tasks
  have before : (book.outstanding tasks).Perm (maker.order :: others) := by
    have split := book.outstanding_resting_perm taker.flow.contra tasks
    rwa [Queue.orders, meets.first, List.map_cons, List.cons_append] at split
  have after : ((book.traded taker maker behind).outstanding tasks).Perm
      ((maker.order.fill maker.order.price
        (tradedQuantity taker maker.order)).outstanding?.toList ++ others) := by
    have split := outstanding_resting_perm (book.withResting taker.flow.contra
      { book.resting taker.flow.contra with
        entries := Queue.filledFirst maker behind maker.order.price
          (tradedQuantity taker maker.order) }) taker.flow.contra tasks
    rwa [resting_with_resting, with_resting_twice, Queue.orders,
      Queue.orders_filled_first maker behind _ _ ofMaker, List.append_assoc] at split
  have both := ledger.perm ((book.outstanding_trade_left (by omega) tasks).trans
    ((before.cons taker).trans (.swap maker.order taker others)))
  have first := (both.filled maker.order.price positive ofMaker).perm List.perm_middle
  have second := first.filled maker.order.price positive ofTaker
  rw [List.append_assoc] at second
  rw [outstanding_check]
  refine second.perm (.trans ?_ (outstanding_trade_perm ..).symm)
  exact after.symm.append_left _

/-- What is left of an order rests or is cancelled. -/
theorem settled_ledger {order : Order} {tasks : List Task} (left : 0 < order.unfilled)
    (ledger : Ledger sent (book.outstanding (.trade order :: tasks))) :
    Ledger (sent ++ (book.restRemainder order).2)
      ((book.restRemainder order).1.outstanding tasks) := by
  have held := ledger.perm (book.outstanding_trade_left left tasks)
  have absent := (List.nodup_cons.mp held.distinct).1
  have settles := book.settles order
  generalize book.restRemainder order = settled at settles ⊢
  cases settles with
  | expired immediate => exact held.ended (.cancelled .notImmediate (by decide))
  | unpriced day market untraded => exact held.ended (.cancelled .noLastTrade (by decide))
  | restated day market priced =>
    have limited := held.changed (.restated book.record.lastPrice)
    exact limited.perm (outstanding_rest (List.nodup_cons.mp limited.distinct).1).symm
  | rested day limited =>
    rw [List.append_nil]
    exact held.perm (outstanding_rest absent).symm

/-- A parked order that is released is traded next. -/
theorem Releases.ledger {flow side : Flow} {entry : Queue.Entry} {behind : List Queue.Entry}
    {tasks : List Task} (releases : book.Releases side entry behind)
    (left : 0 < entry.order.unfilled)
    (ledger : Ledger sent (book.outstanding (.check flow :: tasks))) :
    Ledger (sent ++ [Report.of .triggered entry.order.trigger ""])
      ((book.released side behind).outstanding
        (.trade entry.order.trigger :: .check side :: tasks)) := by
  have more : (book.parked side).orders.Perm (entry.order ::
      ({ book.parked side with entries := behind } : Queue side.parkingDirection).orders) := by
    simp only [Queue.orders, releases.first, List.map_cons]
    exact .refl _
  have taken := book.outstanding_with_parked more tasks
  rw [with_parked_self] at taken
  have held := ledger.perm taken
  refine (held.changed .triggered).perm ?_
  exact ((book.released side behind).outstanding_trade_left (by simpa using left) _).symm

/-- Every move sends the reports on what it makes of the outstanding orders. -/
theorem Move.ledger {tasks later : List Task} {reports : List Report}
    (move : book.Move tasks next later reports) (sound : book.Sound)
    (ledger : Ledger sent (book.outstanding tasks)) :
    Ledger (sent ++ reports) (next.outstanding later) := by
  cases move with
  | trade traded =>
    obtain ⟨maker, behind, meets, rfl, rfl, rfl⟩ := (trade_once_iff ..).mp traded
    exact meets.ledger ledger
  | settle stuck left => exact settled_ledger left ledger
  | finish stuck spent =>
    rw [List.append_nil]
    rwa [outstanding_trade_spent book spent] at ledger
  | @release _ side _ _ _ released =>
    obtain ⟨entry, behind, releases, rfl, rfl⟩ := releases_of_release released
    have waits := (sound.parked side).lawful entry (releases.first ▸ List.mem_cons_self)
    exact releases.ledger waits.left ledger
  | pass unreached =>
    rw [List.append_nil]
    exact ledger

/-- An order that is routed is traded or parked. -/
theorem Routes.ledger {order : Order} {outset : Outset} (routes : book.Routes order outset)
    (left : 0 < order.unfilled) (ledger : Ledger sent (order :: book.outstanding [])) :
    Ledger (sent ++ outset.reports) (outset.book.outstanding outset.tasks) := by
  cases routes with
  | live live =>
    rw [List.append_nil]
    exact ledger.perm (book.outstanding_trade_left left []).symm
  | reached waits traded reached =>
    exact (ledger.changed .triggered).perm
      (book.outstanding_trade_left (by simpa using left) []).symm
  | parked waits unreached =>
    have absent := (List.nodup_cons.mp ledger.distinct).1
    simp only [Outset.settled, List.append_nil]
    exact ledger.perm (outstanding_park absent).symm

/-- A resting order that became immediate is cancelled. -/
theorem dropped_ledger {order : Order} (ordered : (book.resting order.flow).Ordered)
    (ledger : Ledger sent (book.outstanding [])) :
    Ledger (sent ++ (book.dropImmediate order).2)
      ((book.dropImmediate order).1.outstanding []) := by
  rcases book.drop_immediate_cases order with ⟨same, nothing, -⟩ | ⟨old, found, dropped, reported⟩
  · rw [same, nothing, List.append_nil]
    exact ledger
  · have more := book.outstanding_with_resting (ordered.orders_perm found) []
    rw [with_resting_self] at more
    rw [dropped, reported]
    exact (ledger.perm more).ended (.cancelled .notImmediate (by decide))

/-- An order that keeps its place is outstanding as the replacement leaves it. -/
theorem Named.ledger {flow : Flow} {old image : Order}
    (named : book.Named flow image.id old
      (fun queue => queue.amended (old.replacedBy image) .kept) next)
    (sound : book.Sound) (above : old.filled < image.quantity)
    (ledger : Ledger sent (book.outstanding [])) :
    Ledger (sent ++ [Report.of .replaced (old.replacedBy image) ""]) (next.outstanding []) := by
  have same : (old.replacedBy image).id = image.id := (named.order_sound sound).2.1
  obtain ⟨others, before, after⟩ := named.outstanding_amended sound same []
  exact ((ledger.perm before).changed (.replaced image above)).perm after.symm

/-- Every operation sends the reports on what it makes of the outstanding orders at once,
provided that nothing was reported of a new order. -/
theorem Opens.ledger {operation : Operation} {outset : Outset}
    (opens : book.Opens operation outset) (sound : book.Sound)
    (unreported : ∀ id ∈ operation.newId?, reportsOn id sent = [])
    (ledger : Ledger sent (book.outstanding [])) :
    Ledger (sent ++ outset.reports) (outset.book.outstanding outset.tasks) := by
  cases opens with
  | absent =>
    simp only [Outset.unchanged, List.append_nil]
    exact ledger
  | refused kind image reason rejects =>
    refine ledger.refused ?_
    rcases rejects with rfl | rfl | rfl <;> rfl
  | @insert id request order outset built active positive routes =>
    obtain ⟨own, untouched⟩ := Order.sound_of_new built positive
    have unknown : reportsOn order.id sent = [] := by
      rw [Order.id_of_new built]
      exact unreported id (by simp [Operation.newId?, built])
    have routed := routes.ledger (by unfold Order.unfilled; omega)
      (ledger.accepted unknown untouched)
    simpa only [Outset.after, List.append_assoc, List.singleton_append] using routed
  | requeue built active amended routes =>
    obtain ⟨old, above, rfl, lost, named⟩ := amend_ok amended
    have same := (named.order_sound sound).2.1
    have held := ledger.perm (named.outstanding_without sound same [])
    have routed := routes.ledger (Order.unfilled_replaced above)
      (held.changed (.replaced _ above))
    simpa only [Outset.after, List.append_assoc, List.singleton_append] using routed
  | keep built active amended stays =>
    obtain ⟨old, above, rfl, kept, named⟩ := amend_ok amended
    exact named.ledger sound above ledger
  | @expire _ image _ _ built active amended immediate =>
    obtain ⟨old, above, rfl, kept, named⟩ := amend_ok amended
    have replaced := named.ledger sound above ledger
    have dropped := dropped_ledger
      (named.ordered_amended sound (old.replacedBy image).flow) replaced
    simpa only [Outset.settled, List.append_assoc, List.singleton_append] using dropped
  | cancel withdrawn =>
    obtain ⟨old, rfl, named⟩ := withdraw_ok withdrawn
    exact (ledger.perm (named.outstanding_without sound rfl [])).ended (.requested _)
  | start =>
    simp only [Outset.unchanged, List.append_nil]
    exact ledger
  | stop =>
    rw [outstanding_nil] at ledger
    exact ledger.closed
  | publish =>
    simp only [Outset.unchanged, List.append_nil]
    exact ledger

end Ledger

/-- No order is answered in the middle of an execution. -/
theorem Move.answers_none {book next : Book} {tasks later : List Task} {reports : List Report}
    (move : book.Move tasks next later reports) : answered reports = [] := by
  have of_fill (order : Order) : (Report.ofFill order).kind.isAnswer = false := by
    unfold Report.ofFill
    split <;> rfl
  cases move with
  | trade traded =>
    obtain ⟨maker, behind, meets, rfl, rfl, rfl⟩ := (trade_once_iff ..).mp traded
    simp [answered, fills, of_fill]
  | @settle order _ stuck left =>
    have settles := book.settles order
    generalize book.restRemainder order = settled at settles ⊢
    cases settles <;> rfl
  | finish stuck spent => rfl
  | release released => rfl
  | pass unreached => rfl

/-- Nothing that tasks lead to answers a request. -/
theorem work_answers_none (book : Book) (tasks : List Task) :
    answered (book.work tasks).2 = [] := by
  have kept := (work_finishes book tasks).keeps (P := fun _ _ sent => answered sent = [])
    (fun move before => by rw [answered_append, before, move.answers_none]; rfl) [] rfl
  simpa only [List.nil_append] using kept

/-- An order that is routed was answered before. -/
theorem Routes.answers_none {book : Book} {order : Order} {outset : Outset}
    (routes : book.Routes order outset) : answered outset.reports = [] := by
  cases routes <;> rfl

/-- A new order is answered once, when it comes to the book, and nothing else is an
answer. -/
theorem outset_answers (book : Book) (operation : Operation) :
    answered (book.outset operation).reports = operation.newId?.toList := by
  cases operation with
  | insert id request =>
    cases built : Order.ofNew id request with
    | error error => simp [outset, Operation.newId?, built, Outset.unchanged, answered]
    | ok order =>
      have routed := (book.routes_outset order).answers_none
      have same := Order.id_of_new built
      have rejected (reason : String) : answered [Report.of .rejected order reason] = [id] :=
        congrArg (fun id => [id]) same
      have accepted (later : List Report) :
          answered (Report.of .new order "" :: later) = id :: answered later :=
        congrArg (fun id => id :: answered later) same
      simp only [outset, Operation.newId?, built, insertOutset, Option.toList_some]
      split
      · exact rejected _
      · split
        · exact rejected _
        · simp only [Outset.after, accepted, routed]
  | replace request =>
    cases built : Order.ofReplacement request with
    | error error => simp [outset, Operation.newId?, built, Outset.unchanged, answered]
    | ok image =>
      simp only [outset, Operation.newId?, built, replaceOutset, Option.toList_none]
      split
      · rfl
      · split
        · rfl
        case h_2 order rest amended =>
          have routed := (rest.routes_outset order).answers_none
          have first (later : List Report) :
              answered (Report.of .replaced order "" :: later) = answered later := rfl
          simp only [Outset.after, first, routed]
        case h_3 order next amended =>
          split
          · rcases next.drop_immediate_cases order with ⟨-, nothing, -⟩ | ⟨old, -, -, dropped⟩
            · simp only [nothing]
              rfl
            · simp only [dropped]
              rfl
          · rfl
  | cancel request =>
    simp only [outset, cancelOutset, Operation.newId?]
    split <;> rfl
  | start => rfl
  | stop =>
    simp [outset, stop, closingReports, Outset.settled, answered, Operation.newId?,
      Report.of, ReportKind.isAnswer]
  | publish => rfl

/-- An operation answers for the identifier that it brings, if it brings one. -/
theorem perform_answers (book : Book) (operation : Operation) :
    answered (book.perform operation).2 = operation.newId?.toList := by
  rw [perform_eq, Outset.finish, answered_append, outset_answers, work_answers_none,
    List.append_nil]

/-- Every new order of a run is answered once, and in the order of their arrival. -/
theorem answered_all (operations : List Operation) (book : Book) :
    answered (book.performAll operations).2 = newIds operations := by
  induction operations generalizing book with
  | nil => rfl
  | cons operation operations induction =>
    simp only [performAll, answered_append, perform_answers, induction, newIds,
      List.filterMap_cons]
    cases operation.newId? <;> rfl

/-- An operation keeps the ledger, and leaves a sound book. -/
theorem perform_ledger {book : Book} {sent : List Report} (operation : Operation)
    (sound : book.Sound) (unreported : ∀ id ∈ operation.newId?, reportsOn id sent = [])
    (ledger : Ledger sent book.orders) :
    (book.perform operation).1.Sound ∧
      Ledger (sent ++ (book.perform operation).2) (book.perform operation).1.orders := by
  have opens := book.opens_outset operation
  have opened := opens.sound sound
  have entered := opens.ledger sound unreported (by rwa [outstanding_nil])
  have worked := (work_finishes (book.outset operation).book _).keeps
    (P := fun book tasks sent => (book.Sound ∧ ∀ task ∈ tasks, task.Sound) ∧
      Ledger sent (book.outstanding tasks))
    (fun move holds => ⟨move.sound holds.1.1 holds.1.2, move.ledger holds.1.1 holds.2⟩)
    _ ⟨opened, entered⟩
  rw [perform_eq, ← outstanding_nil]
  refine ⟨worked.1.1.marked _, ?_⟩
  have entered := worked.2
  rw [List.append_assoc] at entered
  exact entered

/-- The reports of a run are a ledger of the orders in its queues, if its new orders bear
identifiers of their own. -/
theorem run_ledger (first : Order) {operations : List Operation} (fresh : Fresh operations) :
    Ledger ((ofFirst first).performAll operations).2
      ((ofFirst first).performAll operations).1.orders := by
  -- a longer run is a shorter one and one more operation
  have kept (operations : List Operation) (book : Book) (sent : List Report) (sound : book.Sound)
      (distinct : (answered sent ++ newIds operations).Nodup) (ledger : Ledger sent book.orders) :
      Ledger (sent ++ (book.performAll operations).2) (book.performAll operations).1.orders := by
    induction operations generalizing book sent with
    | nil => simpa only [performAll, List.append_nil] using ledger
    | cons operation operations induction =>
      have ids : newIds (operation :: operations) =
          operation.newId?.toList ++ newIds operations := by
        simp only [newIds, List.filterMap_cons]
        cases operation.newId? <;> rfl
      rw [ids] at distinct
      have unreported : ∀ id ∈ operation.newId?, reportsOn id sent = [] := by
        intro id new
        apply ledger.unreported
        intro old
        exact (List.nodup_append.mp distinct).2.2 id old id
          (List.mem_append_left _ (by simpa using new)) rfl
      obtain ⟨performed, entered⟩ := perform_ledger operation sound unreported ledger
      have later := induction _ _ performed
        (by rwa [answered_append, perform_answers, List.append_assoc]) entered
      simpa only [performAll, List.append_assoc] using later
  simpa only [List.nil_append] using
    kept operations (ofFirst first) [] (sound_of_first first) fresh .empty

end Book

end Bourse
