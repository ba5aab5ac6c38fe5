import Bourse.Proofs.Trades

/-!
# How stop orders are released

A parked order leaves its queue in three ways only: a request names it, the book closes, or it
is released. It is released at a moment when there was a trade whose price reaches its stop
price, and one report says so.

Within one operation the orders of a flow are released in the order in which they were parked,
however deep the cascade is in which a release happens and wherever the price goes between two
of them. The reason is that an execution parks no order: all that it does to the parked orders
of a flow is to take the first one, so that those released so far and those still parked are
together what was parked when the execution began. That is an invariant of the whole
execution, and needs to know nothing of the tasks.
-/

namespace Bourse

/-- The order that a replacement or a cancellation names. -/
def Operation.named? : Operation → Option OrderId
  | .replace request => some request.order
  | .cancel request => some request.order
  | _ => none

namespace Report

/-- The reports that orders of a flow were triggered. -/
def triggers (flow : Flow) (reports : List Report) : List Report :=
  reports.filter fun report => report.kind == .triggered && report.side.flow == flow

/-- The later releases stand behind the first. -/
theorem triggers_append (flow : Flow) (reports later : List Report) :
    triggers flow (reports ++ later) = triggers flow reports ++ triggers flow later :=
  List.filter_append ..

/-- The report that a parked order was triggered shows it live. -/
def ofRelease (entry : Queue.Entry) : Report := of .triggered entry.order.trigger ""

end Report

namespace Queue

variable {direction : Direction}

/-- The identifiers of the orders in a queue. -/
def ids (queue : Queue direction) : List OrderId := queue.entries.map (·.order.id)

/-- The identifier of an order is in the queue with it. -/
theorem mem_ids {queue : Queue direction} {entry : Entry} (member : entry ∈ queue.entries) :
    entry.order.id ∈ queue.ids := List.mem_map_of_mem member

/-- An order in the place of the one with its identifier changes no identifier. -/
theorem ids_with_order (queue : Queue direction) (order : Order) :
    ({ queue with entries := withOrder order queue.entries } : Queue direction).ids =
      queue.ids := by
  have slots := congrArg (List.map (·.2.2)) (slots_with_order order queue.entries)
  rw [List.map_map, List.map_map] at slots
  exact slots

/-- Every order stays that is not taken out by its identifier. -/
theorem mem_ids_without {queue : Queue direction} {id : OrderId} {entry : Entry}
    (member : entry ∈ queue.entries) (other : entry.order.id ≠ id) :
    entry.order.id ∈
      ({ queue with entries := without id queue.entries } : Queue direction).ids := by
  have kept : entry ∈ without id queue.entries :=
    List.mem_filter.mpr ⟨member, by simpa using other⟩
  exact List.mem_map_of_mem kept

/-- An order that is queued leaves no other identifier out. -/
theorem mem_ids_insert {queue : Queue direction} (key : Int) (order : Order) {id : OrderId}
    (present : id ∈ queue.ids) : id ∈ (queue.insert key order).ids := by
  obtain ⟨entry, member, rfl⟩ := List.mem_map.mp present
  by_cases same : entry.order.id = order.id
  · rw [same]
    exact mem_ids ((mem_insert queue key order _).mpr (.inl rfl))
  · exact mem_ids ((mem_insert queue key order entry).mpr (.inr ⟨member, same⟩))

end Queue

/-- A moment at which a parked order of a flow is released: it was the first one, there was a
trade, the price of the last trade reaches its stop price, and nothing else is reported. -/
structure Moment.Release (moment : Moment) (flow : Flow) (entry : Queue.Entry) : Prop where
  first : (moment.before.parked flow).entries = entry :: (moment.after.parked flow).entries
  traded : moment.before.record.hasTraded = true
  reached : flow.reaches moment.before.record.lastPrice entry.order.stopPrice = true
  reports : moment.reports = [Report.ofRelease entry]

/-- Every parked order of a flow that is not released stays parked. -/
def Moment.LeavesParked (moment : Moment) : Prop :=
  ∀ flow, ∀ entry ∈ (moment.before.parked flow).entries,
    entry.order.id ∈ (moment.after.parked flow).ids ∨ moment.Release flow entry

namespace Book

/-- A check is still to be done only after a trade. -/
def ChecksTrades (book : Book) (tasks : List Task) : Prop :=
  ∀ flow, .check flow ∈ tasks → book.record.hasTraded = true

/-- A trade leaves the parked orders as they are. -/
theorem parked_traded (book : Book) (taker : Order) (maker : Queue.Entry)
    (behind : List Queue.Entry) (flow : Flow) :
    (book.traded taker maker behind).parked flow = book.parked flow := by
  simp only [traded, parked_with_record, parked_with_resting]

/-- Every check that is still to be done after a move comes after a trade. -/
theorem Move.checks_trades {book next : Book} {tasks later : List Task} {reports : List Report}
    (move : book.Move tasks next later reports) (counted : 0 ≤ book.record.trades)
    (checks : book.ChecksTrades tasks) : next.ChecksTrades later := by
  intro flow member
  cases move with
  | trade traded =>
    obtain ⟨maker, behind, -, -, rfl, -⟩ := (trade_once_iff ..).mp traded
    exact has_traded_trade counted ..
  | settle stuck left =>
    rw [record_rest_remainder]
    exact checks flow (List.mem_cons_of_mem _ member)
  | finish stuck spent => exact checks flow (List.mem_cons_of_mem _ member)
  | release released =>
    obtain ⟨entry, behind, -, -, rfl⟩ := releases_of_release released
    rw [Book.released, record_with_parked]
    exact checks _ List.mem_cons_self
  | pass unreached => exact checks flow (List.mem_cons_of_mem _ member)

/-- What is released is the first parked order of its flow, and the other flow keeps all of
its orders. -/
theorem Releases.leaves_parked {book : Book} {side : Flow} {entry : Queue.Entry}
    {behind : List Queue.Entry} (releases : book.Releases side entry behind)
    (traded : book.record.hasTraded = true) :
    (⟨book, book.released side behind, [Report.ofRelease entry]⟩ : Moment).LeavesParked := by
  intro flow
  refine Flow.forall_of_contra (P := fun flow => ∀ old ∈ (book.parked flow).entries,
    old.order.id ∈ ((book.released side behind).parked flow).ids ∨
      Moment.Release _ flow old) side ?_ ?_ flow
  · intro old member
    rw [releases.first] at member
    rcases List.mem_cons.mp member with rfl | member
    · right
      refine ⟨?_, traded, releases.reached, rfl⟩
      simp only [Book.released, parked_with_parked, releases.first]
    · left
      simp only [Book.released, parked_with_parked]
      exact List.mem_map_of_mem member
  · intro old member
    left
    simp only [Book.released, contra_with_parked]
    exact Queue.mem_ids member

/-- Every move leaves the parked orders where they are, or releases one. -/
theorem Move.leaves_parked {book next : Book} {tasks later : List Task} {reports : List Report}
    (move : book.Move tasks next later reports) (checks : book.ChecksTrades tasks) :
    (⟨book, next, reports⟩ : Moment).LeavesParked := by
  cases move with
  | trade traded =>
    obtain ⟨maker, behind, -, -, rfl, -⟩ := (trade_once_iff ..).mp traded
    intro flow entry member
    left
    rw [parked_traded]
    exact Queue.mem_ids member
  | settle stuck left =>
    intro flow entry member
    left
    rw [parked_rest_remainder]
    exact Queue.mem_ids member
  | finish stuck spent => exact fun flow entry member => .inl (Queue.mem_ids member)
  | release released =>
    obtain ⟨entry, behind, releases, rfl, rfl⟩ := releases_of_release released
    exact releases.leaves_parked (checks _ List.mem_cons_self)
  | pass unreached => exact fun flow entry member => .inl (Queue.mem_ids member)

/-- An order that is routed takes no parked order with it. -/
theorem Routes.ids_parked {book : Book} {order : Order} {outset : Outset}
    (routes : book.Routes order outset) (flow : Flow) {id : OrderId}
    (present : id ∈ (book.parked flow).ids) : id ∈ (outset.book.parked flow).ids := by
  cases routes with
  | live live => exact present
  | reached waits traded reached => exact present
  | parked waits unreached =>
    revert present
    refine Flow.forall_of_contra (P := fun flow => id ∈ (book.parked flow).ids →
      id ∈ ((book.withParked order.flow _).parked flow).ids) order.flow ?_ ?_ flow
    · intro present
      rw [parked_with_parked]
      exact Queue.mem_ids_insert _ _ present
    · intro present
      rw [contra_with_parked]
      exact present

/-- No order is taken out of a queue but the one with the identifier. -/
theorem Named.ids_parked_without {book next : Book} {side : Flow} {id gone : OrderId}
    {old : Order}
    (named : book.Named side id old
      (fun queue => { queue with entries := Queue.without gone queue.entries }) next)
    (flow : Flow) {entry : Queue.Entry} (member : entry ∈ (book.parked flow).entries) :
    entry.order.id ∈ (next.parked flow).ids ∨ entry.order.id = gone := by
  by_cases same : entry.order.id = gone
  · exact .inr same
  · left
    cases named with
    | resting found =>
      rw [parked_with_resting]
      exact Queue.mem_ids member
    | parked found =>
      revert member
      refine Flow.forall_of_contra (P := fun flow => entry ∈ (book.parked flow).entries →
        entry.order.id ∈ ((book.withParked side _).parked flow).ids) side ?_ ?_ flow
      · intro member
        rw [parked_with_parked]
        exact Queue.mem_ids_without member same
      · intro member
        rw [contra_with_parked]
        exact Queue.mem_ids member

/-- An order that keeps its place keeps its identifier. -/
theorem Named.ids_parked_amended {book next : Book} {side : Flow} {id : OrderId}
    {old order : Order}
    (named : book.Named side id old (fun queue => queue.amended order .kept) next) (flow : Flow) :
    (next.parked flow).ids = (book.parked flow).ids := by
  cases named with
  | resting found => rw [parked_with_resting]
  | parked found =>
    refine Flow.forall_of_contra (P := fun flow =>
      ((book.withParked side _).parked flow).ids = (book.parked flow).ids) side ?_ ?_ flow
    · rw [parked_with_parked]
      exact Queue.ids_with_order ..
    · rw [contra_with_parked]

/-- A resting order that became immediate takes no parked order with it. -/
theorem parked_drop_immediate (book : Book) (order : Order) (flow : Flow) :
    (book.dropImmediate order).1.parked flow = book.parked flow := by
  rcases book.drop_immediate_cases order with ⟨same, -⟩ | ⟨old, -, dropped, -⟩
  · rw [same]
  · rw [dropped, parked_with_resting]

/-- At once, an operation takes no order out of the parked ones but the one it names, unless
the book closes. -/
theorem Opens.leaves_parked {book : Book} {operation : Operation} {outset : Outset}
    (opens : book.Opens operation outset) (sound : book.Sound) (flow : Flow)
    {entry : Queue.Entry} (member : entry ∈ (book.parked flow).entries) :
    entry.order.id ∈ (outset.book.parked flow).ids ∨
      operation.named? = some entry.order.id ∨ operation = .stop := by
  cases opens with
  | absent => exact .inl (Queue.mem_ids member)
  | refused kind image reason rejects => exact .inl (Queue.mem_ids member)
  | insert built active positive routes =>
    exact .inl (routes.ids_parked flow (Queue.mem_ids member))
  | requeue built active amended routes =>
    obtain ⟨old, above, rfl, lost, named⟩ := amend_ok amended
    rcases named.ids_parked_without flow member with stays | gone
    · exact .inl (routes.ids_parked flow stays)
    · right
      left
      have same : entry.order.id = _ := gone.trans (named.order_sound sound).2.1
      rw [same, (Order.replacement_ok built).2.2.1]
      rfl
  | keep built active amended stays =>
    obtain ⟨old, above, rfl, kept, named⟩ := amend_ok amended
    left
    exact named.ids_parked_amended flow ▸ Queue.mem_ids member
  | expire built active amended immediate =>
    obtain ⟨old, above, rfl, kept, named⟩ := amend_ok amended
    left
    simp only [Outset.settled, parked_drop_immediate]
    exact named.ids_parked_amended flow ▸ Queue.mem_ids member
  | cancel withdrawn =>
    obtain ⟨old, rfl, named⟩ := withdraw_ok withdrawn
    rcases named.ids_parked_without flow member with stays | gone
    · exact .inl stays
    · exact .inr (.inl (congrArg some gone.symm))
  | start =>
    left
    cases flow <;> exact Queue.mem_ids member
  | stop => exact .inr (.inr rfl)
  | publish =>
    left
    cases flow <;> exact Queue.mem_ids member

/-- An order that is taken out of a queue leaves the others in their places. -/
theorem Named.parked_sublist {book next : Book} {side : Flow} {id gone : OrderId} {old : Order}
    (named : book.Named side id old
      (fun queue => { queue with entries := Queue.without gone queue.entries }) next) :
    ∀ flow, (next.parked flow).entries.Sublist (book.parked flow).entries := by
  cases named with
  | resting found =>
    intro flow
    rw [parked_with_resting]
  | parked found =>
    refine Flow.forall_of_contra
      (P := fun flow => ((book.withParked side _).parked flow).entries.Sublist
        (book.parked flow).entries) side ?_ ?_
    · rw [parked_with_parked]
      exact List.filter_sublist
    · rw [contra_with_parked]

/-- An order that is routed and left to be traded leaves the book as it is. -/
theorem Routes.parks_or_trades {book : Book} {order : Order} {outset : Outset}
    (routes : book.Routes order outset) : outset.tasks = [] ∨ outset.book = book := by
  cases routes with
  | live live => exact .inr rfl
  | reached waits traded reached => exact .inr rfl
  | parked waits unreached => exact .inl rfl

/-- An order that is left to be traded leaves the parked orders in their places, though the
replacement of a parked order takes that one out. -/
theorem Opens.parked_sublist {book : Book} {operation : Operation} {outset : Outset}
    (opens : book.Opens operation outset) :
    outset.tasks = [] ∨
      ∀ flow, (outset.book.parked flow).entries.Sublist (book.parked flow).entries := by
  cases opens with
  | insert built active positive routes =>
    rcases routes.parks_or_trades with nothing | same
    · exact .inl nothing
    · right
      intro flow
      simp only [Outset.after, same]
      exact .refl _
  | requeue built active amended routes =>
    obtain ⟨old, above, rfl, lost, named⟩ := amend_ok amended
    rcases routes.parks_or_trades with nothing | same
    · exact .inl nothing
    · right
      intro flow
      simp only [Outset.after, same]
      exact named.parked_sublist flow
  | _ => exact .inl rfl

end Book

namespace Report

/-- Where nothing is triggered there is no report of it. -/
theorem triggers_none (flow : Flow) {reports : List Report}
    (others : ∀ report ∈ reports, report.kind ≠ .triggered) : triggers flow reports = [] := by
  apply List.filter_eq_nil_iff.mpr
  intro report member
  simp [others report member]

/-- A report on a fill is none on a release. -/
theorem kind_of_fill_ne (order : Order) : (ofFill order).kind ≠ .triggered := by
  intro same
  have fill := is_fill_of_fill order
  rw [same] at fill
  contradiction

/-- The report on a release is of the flow of its order. -/
@[simp] theorem side_of_release (entry : Queue.Entry) :
    (ofRelease entry).side.flow = entry.order.flow := by
  unfold ofRelease Order.trigger
  split <;> rfl

/-- A release is reported to the flow of its order. -/
theorem triggers_release (flow : Flow) (entry : Queue.Entry) :
    triggers flow [ofRelease entry] =
      if entry.order.flow = flow then [ofRelease entry] else [] := by
  have kind : (ofRelease entry).kind = .triggered := rfl
  by_cases same : entry.order.flow = flow
  · simp [triggers, kind, same]
  · simp [triggers, kind, same]

end Report

namespace Book

/-- A move takes orders from the front of the parked ones, and reports each of them. -/
theorem Move.releases_in_order {book next : Book} {tasks later : List Task}
    {reports : List Report} (move : book.Move tasks next later reports) (sound : book.Sound)
    (flow : Flow) :
    ∃ released, (book.parked flow).entries = released ++ (next.parked flow).entries ∧
      Report.triggers flow reports = released.map Report.ofRelease := by
  cases move with
  | trade traded =>
    obtain ⟨maker, behind, -, -, rfl, rfl⟩ := (trade_once_iff ..).mp traded
    refine ⟨[], by rw [parked_traded]; rfl, Report.triggers_none flow ?_⟩
    simp [fills, Report.kind_of_fill_ne]
  | @settle order _ stuck left =>
    refine ⟨[], by rw [parked_rest_remainder]; rfl, Report.triggers_none flow ?_⟩
    have settles := book.settles order
    generalize book.restRemainder order = settled at settles ⊢
    cases settles <;> simp
  | finish stuck spent => exact ⟨[], rfl, rfl⟩
  | @release _ side _ _ _ released =>
    obtain ⟨entry, behind, releases, rfl, rfl⟩ := releases_of_release released
    have waits := (sound.parked side).lawful entry (releases.first ▸ List.mem_cons_self)
    have reported := Report.triggers_release flow entry
    rw [waits.side] at reported
    rcases Flow.eq_or_contra side flow with rfl | rfl
    · refine ⟨[entry], ?_, by rw [← Report.ofRelease, reported, if_pos rfl]; rfl⟩
      rw [Book.released, parked_with_parked, releases.first]
      rfl
    · refine ⟨[], by rw [Book.released, contra_with_parked]; rfl, ?_⟩
      rw [← Report.ofRelease, reported, if_neg (by cases side <;> decide)]
      rfl
  | pass unreached => exact ⟨[], rfl, rfl⟩

/-- Through a whole execution, the orders of a flow that are released are those in front of
the parked ones, and they are reported in that order. -/
theorem Finishes.releases_in_order {book final : Book} {tasks : List Task} {reports : List Report}
    (chain : book.Finishes tasks final reports) (sound : book.Sound)
    (ready : ∀ task ∈ tasks, task.Sound) (flow : Flow) :
    ∃ released, (book.parked flow).entries = released ++ (final.parked flow).entries ∧
      Report.triggers flow reports = released.map Report.ofRelease := by
  induction chain with
  | done => exact ⟨[], rfl, rfl⟩
  | move first rest induction =>
    obtain ⟨now, taken, reported⟩ := first.releases_in_order sound flow
    obtain ⟨kept, others⟩ := first.sound sound ready
    obtain ⟨later, left, also⟩ := induction kept others
    refine ⟨now ++ later, ?_, ?_⟩
    · rw [taken, left, List.append_assoc]
    · rw [Report.triggers_append, reported, also, List.map_append]

/-- The parked orders of a flow stand in the order of their stop prices, the first to be
reached first, and then in that of their arrival. -/
theorem Sound.parked_in_order {book : Book} (sound : book.Sound) (flow : Flow) :
    (book.parked flow).entries.Pairwise fun earlier later =>
      flow.parkingDirection.better earlier.order.stopPrice later.order.stopPrice = true ∨
        earlier.order.stopPrice = later.order.stopPrice ∧ earlier.arrival < later.arrival := by
  have keeps := sound.parked flow
  refine keeps.ordered.sorted.imp_of_mem ?_
  intro earlier later member present ahead
  rw [Queue.Entry.ahead_iff, keeps.keyed earlier member, keeps.keyed later present] at ahead
  exact ahead

/-- No move of an execution takes a parked order but by its release. -/
theorem Opens.moments_leave_parked {book : Book} {operation : Operation} {outset : Outset}
    (opens : book.Opens operation outset) (sound : book.Sound) (fuel : Nat) :
    ∀ moment ∈ runMoments fuel outset.book outset.tasks, moment.LeavesParked := by
  have begun : outset.book.ChecksTrades outset.tasks := by
    intro flow member
    have leaves := opens.leaves sound
    generalize outset.book = next at leaves
    generalize outset.tasks = tasks at leaves member
    cases leaves <;> simp at member
  have kept := run_moments_keep
    (P := fun book tasks =>
      (book.Sound ∧ ∀ task ∈ tasks, task.Sound) ∧ book.ChecksTrades tasks)
    (Q := Moment.LeavesParked)
    (fun move holds => ⟨⟨move.sound holds.1.1 holds.1.2,
      move.checks_trades holds.1.1.counted holds.2⟩, move.leaves_parked holds.2⟩)
    fuel outset.book outset.tasks ⟨opens.sound sound, begun⟩
  exact kept.1

/-- A parked order that is gone after a moment of an operation was released there, or the
operation had taken it out at once. -/
theorem Sound.leaves_parked {book : Book} (sound : book.Sound) (operation : Operation)
    {moment : Moment} (member : moment ∈ book.momentsOf operation) {flow : Flow}
    {entry : Queue.Entry} (parked : entry ∈ (moment.before.parked flow).entries)
    (gone : entry.order.id ∉ (moment.after.parked flow).ids) :
    moment.Release flow entry ∨
      moment = ⟨book, (book.outset operation).book, (book.outset operation).reports⟩ ∧
        (operation.named? = some entry.order.id ∨ operation = .stop) := by
  have opens := book.opens_outset operation
  rcases List.mem_cons.mp member with rfl | member
  · right
    refine ⟨rfl, ?_⟩
    rcases opens.leaves_parked sound flow parked with stays | named
    · exact absurd stays gone
    · exact named
  · left
    rcases List.mem_append.mp member with member | member
    · rcases opens.moments_leave_parked sound _ moment member flow entry parked with stays | freed
      · exact absurd stays gone
      · exact freed
    · obtain rfl := List.mem_singleton.mp member
      -- a mark takes nothing
      have stays := Queue.mem_ids parked
      rw [← parked_marked _ flow] at stays
      exact absurd stays gone

/-- What an operation releases from a flow stood in front of the parked orders, and is reported
in the order in which it stood there. -/
theorem Sound.releases_in_order {book : Book} (sound : book.Sound) (operation : Operation)
    (flow : Flow) :
    ∃ released : List Queue.Entry,
      released.Sublist (book.parked flow).entries ∧
        ((book.outset operation).book.parked flow).entries =
          released ++ ((book.perform operation).1.parked flow).entries ∧
        Report.triggers flow (book.perform operation).2 =
          Report.triggers flow (book.outset operation).reports ++
            released.map Report.ofRelease := by
  have opens := book.opens_outset operation
  obtain ⟨opened, ready⟩ := opens.sound sound
  have chain := work_finishes (book.outset operation).book (book.outset operation).tasks
  obtain ⟨released, taken, reported⟩ := chain.releases_in_order opened ready flow
  have left : ((book.perform operation).1.parked flow).entries =
      (((book.outset operation).book.work (book.outset operation).tasks).1.parked flow).entries := by
    rw [perform_eq]
    exact congrArg _ (parked_marked ..)
  refine ⟨released, ?_, ?_, ?_⟩
  · rcases opens.parked_sublist with nothing | kept
    · rw [nothing, work_nil] at taken
      rw [List.self_eq_append_left.mp taken]
      exact List.nil_sublist _
    · exact (taken ▸ List.sublist_append_left ..).trans (kept flow)
  · rw [left]
    exact taken
  · rw [perform_eq, ← reported, ← Report.triggers_append]
    rfl

/-- A parked order leaves its queue only when a request names it, when the book closes, or at
a moment when it is released.

Whatever operation comes next, the orders of a flow that it releases are those in front of the
parked ones, apart from one that the operation itself has taken out. They stand in the order
of their stop prices and arrivals, and that is the order of the reports on them, behind any
report that the order of the operation was itself triggered. -/
theorem stops_released_in_order (first : Order) (operations : List Operation)
    (operation : Operation) :
    let book := ((ofFirst first).performAll operations).1
    let outset := book.outset operation
    (∀ moment ∈ book.momentsOf operation, ∀ flow, ∀ entry ∈ (moment.before.parked flow).entries,
      entry.order.id ∉ (moment.after.parked flow).ids →
        moment.Release flow entry ∨
          moment = ⟨book, outset.book, outset.reports⟩ ∧
            (operation.named? = some entry.order.id ∨ operation = .stop)) ∧
      ∀ flow, ∃ released : List Queue.Entry,
        released.Sublist (book.parked flow).entries ∧
          (outset.book.parked flow).entries =
            released ++ ((book.perform operation).1.parked flow).entries ∧
          Report.triggers flow (book.perform operation).2 =
            Report.triggers flow outset.reports ++ released.map Report.ofRelease ∧
          released.Pairwise fun earlier later =>
            flow.parkingDirection.better earlier.order.stopPrice later.order.stopPrice = true ∨
              earlier.order.stopPrice = later.order.stopPrice ∧
                earlier.arrival < later.arrival := by
  intro book outset
  have sound : book.Sound := run_sound first operations
  constructor
  · intro moment member flow entry parked gone
    exact sound.leaves_parked operation member parked gone
  · intro flow
    obtain ⟨released, front, taken, reported⟩ := sound.releases_in_order operation flow
    -- the orders that were parked before stand in order, and so do those that are released
    have ordered := (sound.parked_in_order flow).sublist front
    exact ⟨released, front, taken, reported, ordered⟩

end Book

end Bourse
