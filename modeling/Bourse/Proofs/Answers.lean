import Bourse.Proofs.Channels
import Bourse.Proofs.MarketRuns
import Bourse.Proofs.Rejections
import Bourse.Service.Http

/-!
# Answers agree with what happened

A request over HTTP that is answered by the status for accepted requests was carried to a book,
and the book has reported on the order that the answer names: first whether it took the request
or refused it, and on a cancellation nothing else. Any other answer means that nothing happened:
the market has all its books, its batch and its state as before, and nothing was reported. Only an
identifier may have been spent, on a request for an order that the market itself found wanting.

The checks of a request differ from route to route and come in different orders, but they are
chained in one way: the first that fails gives the answer. `Ends` says what a chain comes to, and
one law joins a check to whatever follows it.
-/

namespace Bourse

namespace Book

/-- The first report on an instruction is on its order, and accepts or refuses it. -/
theorem follow_reports (book : Book) (instruction : Instruction) :
    ∃ first later, (book.follow instruction).2 = first :: later ∧
      first.order = instruction.image.id ∧
      (first.kind = instruction.acceptance ∨ first.kind = instruction.refusal) := by
  by_cases refused : book.Refuses instruction
  · exact ⟨_, [], congrArg Prod.snd (follow_refused refused), rfl, .inr rfl⟩
  · obtain ⟨order, reason, later, sent, same⟩ := (follow_answers refused).first
    exact ⟨_, later, sent, same, .inl rfl⟩

/-- One report tells what became of a cancellation. -/
theorem cancel_reports_once (book : Book) (image : Order) :
    ∃ report, (book.cancel image).2 = [report] ∧ report.order = image.id ∧
      (report.kind = .cancelled ∨ report.kind = .cancelRejected) := by
  obtain ⟨report, later, sent, own, kind⟩ := book.follow_reports (.cancel image)
  have sent : (book.cancel image).2 = report :: later := sent
  have once : (book.cancel image).2.length = 1 := by
    unfold cancel
    cases book.withdraw image <;> rfl
  rw [sent, List.length_cons] at once
  obtain rfl := List.length_eq_zero_iff.mp (Nat.succ.inj once)
  exact ⟨report, sent, own, kind⟩

end Book

/-- What is reported of an operation that a request leads to, when the answer names an order. -/
inductive Tells (id : OrderId) : Route → MarketOperation → List Report → Prop where
  /-- A new order is accepted or refused, and may be executed then. -/
  | submitted {request : NewOrder} {first : Report} {later : List Report}
      (own : first.order = id) (kind : first.kind = .new ∨ first.kind = .rejected) :
      Tells id .orders (.submit request) (first :: later)
  /-- An order is replaced or its replacement is refused, and it may be executed then. -/
  | replaced {part : List Char} {image : Order} {first : Report} {later : List Report}
      (own : first.order = id) (kind : first.kind = .replaced ∨ first.kind = .replaceRejected) :
      Tells id (.replace part) (.replace image) (first :: later)
  /-- An order is cancelled or its cancellation is refused. -/
  | cancelled {part : List Char} {image : Order} {report : Report}
      (own : report.order = id) (kind : report.kind = .cancelled ∨ report.kind = .cancelRejected) :
      Tells id (.cancel part) (.cancel image) [report]

/-- There is something to tell of an operation that an answer names an order for. -/
theorem Tells.ne_nil {id : OrderId} {route : Route} {operation : MarketOperation}
    {reports : List Report} (tells : Tells id route operation reports) : reports ≠ [] := by
  cases tells <;> exact List.cons_ne_nil _ _

/-- A status that does not tell that a request was accepted. -/
def Declines (status : Nat) : Prop := status ≠ 201 ∧ status ≠ 202

instance (status : Nat) : Decidable (Declines status) := inferInstanceAs (Decidable (_ ∧ _))

namespace Service

/-- The service with another identifier for the next order. -/
def skipTo (service : Service) (id : OrderId) : Service :=
  { service with market := { service.market with nextId := id } }

/-- The service after an operation: the market has performed it, its reports went out on their
channel, and nothing went out on the other. -/
def perform (service : Service) (operation : MarketOperation) : Service where
  market := (service.market.perform operation).1
  reports := service.reports.sendAll (service.market.perform operation).2.reports
  pictures := service.pictures

/-- What the checks and the operation of a request come to. -/
inductive Ends (service : Service) (route : Route) :
    Except Answer (Answer × Service) → Prop where
  /-- A check fails. -/
  | declined {answer : Answer} (declines : Declines answer.status) :
      Ends service route (.error answer)
  /-- The market spends an identifier on a request that is no order. -/
  | skipped {answer : Answer} (declines : Declines answer.status) :
      Ends service route (.ok (answer, service.skipTo service.market.nextId.next))
  /-- The operation of the request is carried out. -/
  | carried (id : OrderId) (operation : MarketOperation) {status : Nat}
      (accepts : status = 201 ∨ status = 202)
      (tells : Tells id route operation (service.market.perform operation).2.reports) :
      Ends service route (.ok (.accepted status id, service.perform operation))

section Checks

variable {service : Service} {route : Route} {α ε : Type}

/-- A check and what follows it. -/
theorem ends_of_bind {check : Except Answer α} {rest : α → Except Answer (Answer × Service)}
    (fails : ∀ answer, check = .error answer → Declines answer.status)
    (passes : ∀ value, check = .ok value → service.Ends route (rest value)) :
    service.Ends route (check >>= rest) := by
  cases check with
  | error answer => exact .declined (fails answer rfl)
  | ok value => exact passes value rfl

/-- The answer to a request that failed declines it. -/
theorem declines_failure (failure : RequestFailure) : Declines failure.answer.status := by
  have declines : Declines failure.status := by
    unfold RequestFailure.status
    split <;> decide
  exact declines

/-- A check of a name declines the request if it fails. -/
theorem declines_or_fail {failure : ε → RequestFailure} {outcome : Except ε α} (answer : Answer)
    (failed : orFail failure outcome = .error answer) : Declines answer.status := by
  cases outcome with
  | error error =>
    obtain rfl := Except.error.inj failed
    exact declines_failure _
  | ok value => contradiction

/-- Nothing fails where there is a result. -/
theorem or_fail_ok {failure : ε → RequestFailure} {outcome : Except ε α} {value : α}
    (passed : orFail failure outcome = .ok value) : outcome = .ok value := by
  cases outcome with
  | error error => contradiction
  | ok found => exact congrArg Except.ok (Except.ok.inj passed)

/-- A body that cannot be read declines the request. -/
theorem declines_body {fields : Json.Fields α} {request : HttpRequest} (answer : Answer)
    (failed : readBody fields request = .error answer) : Declines answer.status := by
  unfold readBody at failed
  split at failed
  · obtain rfl := Except.error.inj failed
    decide
  · split at failed
    · contradiction
    · obtain rfl := Except.error.inj failed
      decide
    · obtain rfl := Except.error.inj failed
      decide

/-- So does a part of the path that cannot be decoded. -/
theorem declines_part {part : List Char} (answer : Answer)
    (failed : orderPart part = .error answer) : Declines answer.status := by
  unfold orderPart at failed
  split at failed
  · contradiction
  · obtain rfl := Except.error.inj failed
    exact ⟨by decide, by decide⟩

end Checks

/-- Where a check and what follows it succeed, the check does. -/
theorem ok_of_bind {α β ε : Type} {check : Except ε α} {rest : α → Except ε β} {value : β}
    (done : check >>= rest = .ok value) : ∃ found, check = .ok found ∧ rest found = .ok value := by
  cases check with
  | error error => contradiction
  | ok found => exact ⟨found, rfl, done⟩

/-- The request of a cancellation is for the order that it is made for. -/
theorem order_of_cancellation {body : CancellationBody} {id : OrderId} {request : Cancellation}
    (built : body.request id = .ok request) : request.order = id := by
  obtain ⟨side, -, built⟩ := ok_of_bind built
  obtain ⟨type, -, built⟩ := ok_of_bind built
  obtain rfl := Except.ok.inj built
  rfl

/-- The request of a replacement is for the order that it is made for. -/
theorem order_of_replacement {body : ReplacementBody} {id : OrderId} {request : Replacement}
    (built : body.request id = .ok request) : request.order = id := by
  obtain ⟨side, -, built⟩ := ok_of_bind built
  obtain ⟨type, -, built⟩ := ok_of_bind built
  obtain ⟨timeInForce, -, built⟩ := ok_of_bind built
  obtain rfl := Except.ok.inj built
  rfl

/-- What a request sends is what a book reports on it. -/
theorem sent_on_book {market next : Market} {sent : List Report} {security : String}
    {operation : Book → Book × List Report}
    (done : market.onBook security operation = .ok (next, sent)) :
    ∃ book, sent = (operation book).2 := by
  unfold Market.onBook at done
  cases found : market.book? security with
  | none => simp [found] at done
  | some book =>
    simp only [found, Except.ok.injEq, Prod.mk.injEq] at done
    exact ⟨book, done.2.symm⟩

/-- A request is carried out when its operation is done and the reports on it are sent. -/
theorem carries {service : Service} {route : Route} {operation : MarketOperation} {next : Market}
    {effects : Effects} {id : OrderId} {status : Nat}
    (performed : service.market.perform operation = (next, effects))
    (accepts : status = 201 ∨ status = 202) (tells : Tells id route operation effects.reports) :
    service.Ends route (.ok (.accepted status id, service.advance next effects.reports)) := by
  have told : Tells id route operation (service.market.perform operation).2.reports := by
    rwa [performed]
  have ends := Ends.carried id operation accepts told
  rwa [perform, performed] at ends

section Routes

variable (service : Service) (part : List Char) (request : HttpRequest)

/-- A new order passes the checks of its body and its names, and then those of the market. -/
theorem submit_ends : service.Ends .orders (service.submitOrder request) := by
  unfold submitOrder
  refine ends_of_bind declines_body fun body _ => ?_
  refine ends_of_bind declines_or_fail fun order _ => ?_
  cases built : Order.ofNew service.market.nextId order with
  | error error =>
    simp only [Market.submit, built]
    exact .skipped (declines_failure _)
  | ok image =>
    let market := { service.market with nextId := service.market.nextId.next }
    obtain ⟨first, later, sent, own, kind⟩ :=
      (market.ensureBook image).1.follow_reports (.insert image)
    have performed : service.market.perform (.submit order) = ((market.insert image).1,
        { created := service.market.created image, reports := first :: later }) := by
      rw [← sent]
      simp only [Market.perform, Market.submit, built]
      rfl
    have sends : (market.insert image).2 = first :: later := sent
    have ends := carries performed (.inl rfl)
      (.submitted (own.trans (Order.id_of_new built)) kind)
    simp only [Market.submit, built]
    rw [← sends] at ends
    exact ends

/-- A cancellation passes the checks of its path, its body and its names. -/
theorem cancel_ends : service.Ends (.cancel part) (service.cancelOrder part request) := by
  unfold cancelOrder
  refine ends_of_bind declines_part fun text _ => ?_
  refine ends_of_bind declines_body fun body _ => ?_
  refine ends_of_bind declines_or_fail fun id _ => ?_
  refine ends_of_bind declines_or_fail fun cancellation built => ?_
  refine ends_of_bind declines_or_fail fun (next, sent) done => ?_
  have cancelled := or_fail_ok done
  have own : cancellation.order = id := order_of_cancellation (or_fail_ok built)
  have performed : service.market.perform (.cancel (.ofCancellation cancellation)) =
      (next, { reports := sent }) := by
    simp only [Market.perform, cancelled, Market.answered]
  obtain ⟨book, sends⟩ := sent_on_book cancelled
  obtain ⟨report, once, same, kind⟩ := book.cancel_reports_once (.ofCancellation cancellation)
  obtain rfl : sent = [report] := sends.trans once
  exact carries performed (.inr rfl) (.cancelled (same.trans own) kind)

/-- A replacement passes the checks of its path, its body, its names and its amounts. -/
theorem replace_ends : service.Ends (.replace part) (service.replaceOrder part request) := by
  unfold replaceOrder
  refine ends_of_bind declines_part fun text _ => ?_
  refine ends_of_bind declines_body fun body _ => ?_
  refine ends_of_bind declines_or_fail fun id _ => ?_
  refine ends_of_bind declines_or_fail fun replacement built => ?_
  refine ends_of_bind declines_or_fail fun image formed => ?_
  refine ends_of_bind declines_or_fail fun (next, sent) done => ?_
  have replaced := or_fail_ok done
  have own : image.id = id := by
    rw [(Order.replacement_ok (or_fail_ok formed)).2.2.1, order_of_replacement (or_fail_ok built)]
  have performed : service.market.perform (.replace image) = (next, { reports := sent }) := by
    simp only [Market.perform, replaced, Market.answered]
  obtain ⟨book, sends⟩ := sent_on_book replaced
  obtain ⟨report, later, reports, same, kind⟩ := book.follow_reports (.replace image)
  obtain rfl : sent = report :: later := sends.trans reports
  exact carries performed (.inr rfl) (.replaced (same.trans own) kind)

/-- What a request for a change comes to, if its route takes one. -/
theorem change_ends {route : Route} {outcome : Except Answer (Answer × Service)}
    (asked : service.change request route = some outcome) : service.Ends route outcome := by
  cases route with
  | orders =>
    obtain rfl := Option.some.inj asked
    exact service.submit_ends request
  | cancel part =>
    obtain rfl := Option.some.inj asked
    exact service.cancel_ends part request
  | replace part =>
    obtain rfl := Option.some.inj asked
    exact service.replace_ends part request
  | _ => contradiction

/-- A document that is found is no acceptance. -/
theorem declines_found (value : Json) : Declines (Answer.found value).status :=
  (by decide : Declines 200)

/-- Neither is the picture of a security, or its absence. -/
theorem declines_picture : Declines (service.showPicture part).status := by
  unfold showPicture
  split
  · exact (by decide : Declines 400)
  · split
    · exact declines_found _
    · exact declines_failure _

/-- Neither is the refusal to open a stream without a handshake. -/
theorem declines_stream (method : String) : Declines (refuseStream method).status := by
  unfold refuseStream
  split
  · exact (by decide : Declines 400)
  · exact (by decide : Declines 405)

/-- A query is never answered as an accepted request. -/
theorem query_declines (now : Nat) (method : String) (queryText : List Char) (route : Route) :
    Declines ((service.query now method queryText route).getD methodNotAllowed).status := by
  cases route with
  | health => exact declines_found _
  | securities => exact declines_found _
  | picture security => exact service.declines_picture security
  | orders => exact (by decide : Declines 405)
  | cancel order => exact (by decide : Declines 405)
  | replace order => exact (by decide : Declines 405)
  | reportStream =>
    unfold query
    dsimp only
    split
    · exact declines_stream method
    · exact (by decide : Declines 400)
  | pictureStream => exact declines_stream method

end Routes

/-- What a request makes of the service, and how it is answered. -/
inductive Served (service : Service) (request : HttpRequest) : Answer × Service → Prop where
  /-- Nothing happens, though an identifier may be spent. -/
  | declined {answer : Answer} (declines : Declines answer.status) (id : OrderId)
      (spent : id = service.market.nextId ∨ id = service.market.nextId.next) :
      Served service request (answer, service.skipTo id)
  /-- The operation that the path and the body ask for is carried out. -/
  | carried {status : Nat} {route : Route} (id : OrderId) (operation : MarketOperation)
      (posted : request.method = "POST")
      (routed : Route.ofPath (HttpRequest.splitTarget request.target).1 = some route)
      (accepts : status = 201 ∨ status = 202)
      (tells : Tells id route operation (service.market.perform operation).2.reports) :
      Served service request (.accepted status id, service.perform operation)

/-- Whatever a request is, the service serves it in one of these ways. -/
theorem handle_served (service : Service) (now : Nat) (request : HttpRequest) :
    service.Served request (service.handle now request) := by
  have untouched (answer : Answer) (declines : Declines answer.status) :
      service.Served request (answer, service) :=
    .declined declines service.market.nextId (.inl rfl)
  unfold handle
  generalize whole : HttpRequest.splitTarget request.target = target
  obtain ⟨path, queryText⟩ := target
  dsimp only
  split
  · exact untouched _ (by decide)
  · cases routed : Route.ofPath path with
    | none => exact untouched _ (by decide)
    | some route =>
      dsimp only
      split
      · refine untouched _ ?_
        split
        · exact service.query_declines ..
        · exact service.query_declines ..
      · split
        case isTrue posted =>
          cases asked : service.change request route with
          | none => exact untouched _ (by decide)
          | some outcome =>
            have ends := service.change_ends request asked
            cases ends with
            | declined declines => exact untouched _ declines
            | skipped declines => exact .declined declines _ (.inr rfl)
            | carried id operation accepts tells =>
              exact .carried id operation (eq_of_beq posted) (by rw [whole]; exact routed) accepts
                tells
        case isFalse other => exact untouched _ (by decide)

/-- The service after requests in a row, each at its time. -/
def serve (service : Service) : List (Nat × HttpRequest) → Service
  | [] => service
  | (now, request) :: rest => (service.handle now request).2.serve rest

/-- After any requests, the next one is answered as it is served.

If the answer does not tell that the request was accepted, every book, the batch and the state of
the market are what they were, and nothing was sent on either channel; at most one identifier was
passed over. If it does, the request was a `POST` for an operation that the market has carried out,
and the reports of that operation were sent on the channel of reports: at least one, of which the
first is the outcome for the order that the answer names, and for a cancellation no other. -/
theorem answers_agree (service : Service) (earlier : List (Nat × HttpRequest)) (now : Nat)
    (request : HttpRequest) :
    let before := service.serve earlier
    let done := before.handle now request
    (Declines done.1.status →
        ∃ id, (id = before.market.nextId ∨ id = before.market.nextId.next) ∧
          done.2 = { before with market := { before.market with nextId := id } }) ∧
      (¬ Declines done.1.status →
        request.method = "POST" ∧ ∃ route id operation reports,
          Route.ofPath (HttpRequest.splitTarget request.target).1 = some route ∧
            done.1 = .accepted done.1.status id ∧
            done.2.market = (before.market.perform operation).1 ∧
            reports = (before.market.perform operation).2.reports ∧
            done.2.reports = before.reports.sendAll reports ∧
            before.reports.sent < done.2.reports.sent ∧
            done.2.pictures = before.pictures ∧
            Tells id route operation reports) := by
  intro before done
  have served := before.handle_served now request
  change before.Served request done at served
  generalize done = done at served
  cases served with
  | declined declines id spent =>
    exact ⟨fun _ => ⟨id, spent, rfl⟩, fun accepts => absurd declines accepts⟩
  | @carried status route id operation posted routed accepts tells =>
    have accepted : ¬ Declines status := by
      rcases accepts with rfl | rfl
      · decide
      · decide
    have more : before.reports.sent < (before.perform operation).reports.sent := by
      rw [perform, Channel.sent_send_all]
      exact Nat.lt_add_of_pos_right (List.length_pos_of_ne_nil tells.ne_nil)
    exact ⟨fun declines => absurd declines accepted,
      fun _ => ⟨posted, route, id, operation, _, routed, rfl, rfl, rfl, rfl, more, rfl, tells⟩⟩

/-- A service whose channels keep four items. -/
def quietService : Service := .ofMarket (.opened ⟨1⟩ 10) 4 4

/-- A request for a new order. -/
def newOrderPosted : HttpRequest where
  method := "POST"
  target := "/orders"
  contentType := some "application/json"
  body := "\x7b\"security_id\":\"A\",\"client_order_id\":\"a\",\"sender_id\":\"s\"," ++
    "\"side\":\"buy\",\"order_type\":\"limit\",\"qty\":10,\"price\":50\x7d"

/-- A request for its cancellation. -/
def cancellationPosted : HttpRequest where
  method := "POST"
  target := "/orders/1/cancel"
  contentType := some "application/json"
  body := "\x7b\"original_client_order_id\":\"a\",\"security_id\":\"A\"," ++
    "\"client_order_id\":\"b\",\"sender_id\":\"s\",\"side\":\"buy\",\"order_type\":\"limit\"\x7d"

/-- The order is reported as new and then as cancelled, and both reports are on the channel. -/
theorem cancellation_is_sent :
    let before := quietService.serve [(0, newOrderPosted)]
    let done := before.handle 0 cancellationPosted
    ¬ Declines done.1.status ∧
      done.2.reports.kept.map (fun report => (report.order.value, report.kind)) =
        [(1, .new), (1, .cancelled)] ∧
      ∃ route id operation reports,
        Route.ofPath (HttpRequest.splitTarget cancellationPosted.target).1 = some route ∧
          done.1 = .accepted done.1.status id ∧
          done.2.market = (before.market.perform operation).1 ∧
          reports = (before.market.perform operation).2.reports ∧
          done.2.reports = before.reports.sendAll reports ∧
          before.reports.sent < done.2.reports.sent ∧
          done.2.pictures = before.pictures ∧
          Tells id route operation reports := by
  have agree := answers_agree quietService [(0, newOrderPosted)] 0 cancellationPosted
  obtain ⟨accepted, sent⟩ : ¬ Declines ((quietService.serve [(0, newOrderPosted)]).handle 0
        cancellationPosted).1.status ∧
      ((quietService.serve [(0, newOrderPosted)]).handle 0
        cancellationPosted).2.reports.kept.map (fun report => (report.order.value, report.kind)) =
          [(1, .new), (1, .cancelled)] := by decide +kernel
  dsimp only at agree
  exact ⟨accepted, sent, (agree.2 accepted).2⟩

end Service

end Bourse
