import Bourse.Proofs.Lifecycle
import Bourse.Proofs.Places

/-!
# Time priority

Whatever is done to a book, orders that stay in a queue keep their order, and an order that is
queued anew stands behind all those that stay at its price. The only orders that are in a queue
before and after an operation without having stayed there are those that a replacement has
taken out and queued again.

The first half is a matter of arrivals, which never grow old again, and holds of every run:
every outset and every move leaves queues that go on from those before, `Opens.continues` and
`Move.continues`. For the second half it has to be known that no order comes back to a queue
that it has left. The ledger of the run tells that: what leaves the resting orders in an
execution is filled to its end, and an execution parks nothing.
-/

namespace Bourse

namespace Queue

variable {direction : Direction} {queue next between : Queue direction} {key : Order → Int}

/-- What an operation makes of the order in a queue. The orders that it queues again count as
new. -/
structure Stable (key : Order → Int) (requeued : OrderId → Prop) (queue next : Queue direction) :
    Prop where
  /-- Of two orders that are in the queue before and after, and were not queued again, the same
  one is ahead. -/
  kept : ∀ {first second}, queue.Precedes first second → first ∈ next.ids → second ∈ next.ids →
    ¬ requeued first → ¬ requeued second → next.Precedes first second
  /-- An order that is queued stands behind those that were there at its price. -/
  behind : ∀ old ∈ queue.entries, ∀ new ∈ next.entries, key old.order = key new.order →
    old.order.id ∈ next.ids → ¬ requeued old.order.id →
      (new.order.id ∉ queue.ids ∨ requeued new.order.id) →
        next.Precedes old.order.id new.order.id

/-- The order in a queue is stable if it is kept for orders in their places, and if the orders
that are not in their places are those that were queued again. -/
theorem KeepsOrder.stable {requeued : OrderId → Prop} (keeps : KeepsOrder key queue next)
    (stays : ∀ {id}, id ∈ queue.ids → id ∈ next.ids → ¬ requeued id → Stays queue next id)
    (moved : ∀ {id}, requeued id → ¬ Stays queue next id) : Stable key requeued queue next where
  kept := by
    intro first second precedes there also bound free
    have member : first ∈ queue.ids := precedes.subset (by simp)
    have present : second ∈ queue.ids := precedes.subset (by simp)
    exact keeps.kept precedes (stays member there bound) (stays present also free)
  behind := by
    intro old member new present same there bound queued
    refine keeps.behind old member new present same (stays (mem_ids member) there bound) ?_
    rcases queued with absent | again
    · rintro ⟨slot, before, -, named⟩
      rw [ids_eq_slots] at absent
      exact absent (named ▸ List.mem_map_of_mem before)
    · exact moved again

/-- An order that is not in a queue on the way does not stay. -/
theorem Continues.not_stays (before : Continues queue between) (after : Continues between next)
    (ordered : queue.Ordered) {id : OrderId} (absent : id ∉ between.ids) :
    ¬ Stays queue next id := by
  rintro ⟨slot, member, present, named⟩
  obtain ⟨old, there, rfl⟩ := List.mem_map.mp member
  obtain ⟨entry, here, same⟩ := List.mem_map.mp present
  have arrival : entry.arrival = old.arrival := congrArg (·.2.1) same
  have early : entry.arrival < between.nextArrival :=
    arrival ▸ Nat.lt_of_lt_of_le (ordered.arrived old there) before.later
  have slot := after.stood entry here early
  rw [ids_eq_slots] at absent
  exact absent (named ▸ same ▸ List.mem_map_of_mem slot)

/-- Entries that are taken from the front are gone, and the others keep their places. -/
theorem Ordered.keeps_places_behind {taken : List Entry} (ordered : queue.Ordered)
    (front : queue.entries = taken ++ next.entries) :
    KeepsPlaces (fun id => id ∉ next.ids) queue next := by
  intro entry member
  by_cases there : entry.order.id ∈ next.ids
  · left
    obtain ⟨other, present, same⟩ := List.mem_map.mp there
    have both := ordered.same_entry (front ▸ List.mem_append_right taken present) member same
    exact both ▸ mem_slots present
  · exact .inr there

/-- A fill leaves the first entry where it is, or takes it out. -/
theorem slots_filled_first (maker : Entry) (behind : List Entry) (price quantity : Int) :
    ((filledFirst maker behind price quantity).map Entry.slot).Sublist
      ((maker :: behind).map Entry.slot) := by
  unfold filledFirst
  split
  · exact List.sublist_cons_self _ _
  · exact .refl _

end Queue

/-- What was reported before stays reported. -/
theorem Ended.append_left {id : OrderId} {sent : List Report} (later : List Report)
    (ended : Ended id sent) : Ended id (sent ++ later) := by
  rcases ended with ⟨report, member, same⟩ | ⟨report, member, same⟩
  · exact .inl ⟨report, List.mem_append_left _ member, same⟩
  · exact .inr ⟨report, List.mem_append_left _ member, same⟩

/-- An order that has ended has ended with earlier reports before. -/
theorem Ended.append_right {id : OrderId} {sent : List Report} (before : List Report)
    (ended : Ended id sent) : Ended id (before ++ sent) := by
  rcases ended with ⟨report, member, same⟩ | ⟨report, member, same⟩
  · exact .inl ⟨report, List.mem_append_right _ member, same⟩
  · exact .inr ⟨report, List.mem_append_right _ member, same⟩

/-- An order ends with a report on its cancellation. -/
theorem ended_of_cancelled (order : Order) {reason : String} {sent : List Report}
    (member : Report.of .cancelled order reason ∈ sent) : Ended order.id sent :=
  .inr ⟨_, member, rfl, rfl⟩

namespace Book

/-- A replacement takes an order out of its queue and has it queued again. -/
def Requeues (book : Book) (operation : Operation) (id : OrderId) : Prop :=
  ∃ request image order rest, operation = .replace request ∧
    Order.ofReplacement request = .ok image ∧ book.isActive = true ∧
      book.amend image = .ok (order, .lost, rest) ∧ order.id = id

/-- Every queue of a book goes on from that of an earlier one. -/
structure Continues (book next : Book) : Prop where
  resting : ∀ flow, Queue.Continues (book.resting flow) (next.resting flow)
  parked : ∀ flow, Queue.Continues (book.parked flow) (next.parked flow)

namespace Continues

variable {book next last : Book}

/-- Only the queues matter. -/
theorem same (resting : ∀ flow, next.resting flow = book.resting flow)
    (parked : ∀ flow, next.parked flow = book.parked flow) : book.Continues next where
  resting := fun flow => resting flow ▸ .refl _
  parked := fun flow => parked flow ▸ .refl _

/-- A book goes on from itself. -/
theorem refl (book : Book) : book.Continues book := same (fun _ => rfl) (fun _ => rfl)

/-- What goes on from a book that goes on goes on from the first. -/
theorem trans (first : book.Continues next) (second : next.Continues last) :
    book.Continues last where
  resting := fun flow => (first.resting flow).trans (second.resting flow)
  parked := fun flow => (first.parked flow).trans (second.parked flow)

/-- A book goes on if its resting orders do. -/
theorem with_resting {flow : Flow} {queue : Queue flow.restingDirection}
    (continues : Queue.Continues (book.resting flow) queue) :
    book.Continues (book.withResting flow queue) where
  resting := Flow.forall_of_contra flow (by simpa only [resting_with_resting] using continues)
    (by simpa only [contra_with_resting] using Queue.Continues.refl _)
  parked := fun other => by simpa only [parked_with_resting] using Queue.Continues.refl _

/-- It goes on if its parked orders do. -/
theorem with_parked {flow : Flow} {queue : Queue flow.parkingDirection}
    (continues : Queue.Continues (book.parked flow) queue) :
    book.Continues (book.withParked flow queue) where
  resting := fun other => by simpa only [resting_with_parked] using Queue.Continues.refl _
  parked := Flow.forall_of_contra flow (by simpa only [parked_with_parked] using continues)
    (by simpa only [contra_with_parked] using Queue.Continues.refl _)

/-- A change of one queue, wherever the order that it names is. -/
theorem named {flow : Flow} {id : OrderId} {old : Order}
    {change : {direction : Direction} → Queue direction → Queue direction}
    (named : book.Named flow id old change next)
    (continues : ∀ {direction : Direction} (queue : Queue direction),
      Queue.Continues queue (change queue)) : book.Continues next := by
  cases named with
  | resting found => exact with_resting (continues _)
  | parked found => exact with_parked (continues _)

/-- An order comes to rest behind everything at its price. -/
theorem rest (book : Book) (order : Order) : book.Continues (book.rest order) :=
  with_resting (.insert _ _ _)

/-- A resting order that became immediate leaves. -/
theorem dropped (book : Book) (order : Order) : book.Continues (book.dropImmediate order).1 := by
  rcases book.drop_immediate_cases order with ⟨nothing, -⟩ | ⟨old, -, dropped, -⟩
  · rw [nothing]
    exact refl book
  · rw [dropped]
    exact with_resting (.of_sublist List.filter_sublist)

/-- A closed book has no orders, and counts its arrivals on. -/
theorem stopped (book : Book) : book.Continues book.stop.1 where
  resting := by
    intro flow
    cases flow <;> exact .of_sublist (List.nil_sublist _)
  parked := by
    intro flow
    cases flow <;> exact .of_sublist (List.nil_sublist _)

/-- It goes on when it is marked. -/
theorem marked (book : Book) (changes : Bool) : book.Continues (Outset.marked changes book) :=
  same (resting_marked book · _) (parked_marked book · _)

end Continues

section Continues

variable {book next : Book}

/-- After every move the queues go on from those before. -/
theorem Move.continues {tasks later : List Task} {reports : List Report}
    (move : book.Move tasks next later reports) : book.Continues next := by
  cases move with
  | @trade taker _ _ _ _ traded =>
    obtain ⟨maker, behind, meets, -, rfl, -⟩ := (trade_once_iff ..).mp traded
    have slots := Queue.slots_filled_first maker behind maker.order.price
      (tradedQuantity taker maker.order)
    rw [← meets.first] at slots
    have filled := Continues.with_resting (Queue.Continues.of_slots slots)
    exact filled.trans (.same (resting_with_record _ · _) (parked_with_record _ · _))
  | @settle order _ stuck left =>
    have settles := book.settles order
    generalize book.restRemainder order = settled at settles ⊢
    cases settles with
    | expired immediate => exact .refl book
    | unpriced day market untraded => exact .refl book
    | restated day market priced => exact .rest book _
    | rested day limited => exact .rest book _
  | finish stuck spent => exact .refl book
  | release released =>
    obtain ⟨entry, behind, releases, -, rfl⟩ := releases_of_release released
    refine .with_parked (.of_sublist ?_)
    rw [releases.first]
    exact List.sublist_cons_self entry behind
  | pass unreached => exact .refl book

/-- So they do when every task is done. -/
theorem work_continues (book : Book) (tasks : List Task) :
    book.Continues (book.work tasks).1 :=
  (work_finishes book tasks).keeps (P := fun next _ _ => book.Continues next)
    (fun move continues => continues.trans move.continues) [] (.refl book)

/-- What is finished goes on from what it began with. -/
theorem finish_continues (outset : Outset) : outset.book.Continues outset.finish.1 :=
  (outset.book.work_continues outset.tasks).trans (.marked _ _)

/-- A book goes on with an order on its way to the market. -/
theorem Routes.continues {order : Order} {outset : Outset} (routes : book.Routes order outset) :
    book.Continues outset.book := by
  cases routes with
  | live live => exact .refl book
  | reached waits traded reached => exact .refl book
  | parked waits unreached => exact .with_parked (.insert _ _ _)

/-- At once, every operation leaves queues that go on from those before. -/
theorem Opens.continues {operation : Operation} {outset : Outset}
    (opens : book.Opens operation outset) : book.Continues outset.book := by
  have kept {direction : Direction} (order : Order) (queue : Queue direction) :
      Queue.Continues queue (queue.amended order .kept) :=
    .of_slots (Queue.slots_with_order order queue.entries ▸ .refl _)
  cases opens with
  | absent => exact .refl book
  | refused kind image reason rejects => exact .refl book
  | insert built active positive routes => exact routes.continues
  | requeue built active amended routes =>
    obtain ⟨old, above, rfl, lost, named⟩ := amend_ok amended
    have taken := Continues.named named fun queue => .of_sublist List.filter_sublist
    exact taken.trans routes.continues
  | keep built active amended stays =>
    obtain ⟨old, above, rfl, -, named⟩ := amend_ok amended
    exact .named named (kept _)
  | expire built active amended immediate =>
    obtain ⟨old, above, rfl, -, named⟩ := amend_ok amended
    exact (Continues.named named (kept _)).trans (.dropped _ _)
  | cancel withdrawn =>
    obtain ⟨old, rfl, named⟩ := withdraw_ok withdrawn
    exact .named named fun queue => .of_sublist List.filter_sublist
  | start => exact .same (fun flow => by cases flow <;> rfl) (fun flow => by cases flow <;> rfl)
  | stop => exact .stopped book
  | publish => exact .same (fun flow => by cases flow <;> rfl) (fun flow => by cases flow <;> rfl)

/-- It goes on under every operation. -/
theorem perform_continues (book : Book) (operation : Operation) :
    book.Continues (book.perform operation).1 := by
  rw [perform_eq]
  exact (book.opens_outset operation).continues.trans (finish_continues _)

end Continues

/-- Every order of a book stands in a later one where it stood, unless it is excused. -/
structure KeepsPlaces (excused : OrderId → Prop) (book next : Book) : Prop where
  resting : ∀ flow, Queue.KeepsPlaces excused (book.resting flow) (next.resting flow)
  parked : ∀ flow, Queue.KeepsPlaces excused (book.parked flow) (next.parked flow)

namespace KeepsPlaces

variable {book next last : Book} {excused : OrderId → Prop}

/-- Only the queues matter. -/
theorem same (resting : ∀ flow, next.resting flow = book.resting flow)
    (parked : ∀ flow, next.parked flow = book.parked flow) : book.KeepsPlaces excused next where
  resting := fun flow => resting flow ▸ .refl _
  parked := fun flow => parked flow ▸ .refl _

/-- A book keeps its places. -/
theorem refl (book : Book) : book.KeepsPlaces excused book := same (fun _ => rfl) (fun _ => rfl)

/-- Places that are kept twice are kept. -/
theorem trans (first : book.KeepsPlaces excused next) (second : next.KeepsPlaces excused last) :
    book.KeepsPlaces excused last where
  resting := fun flow => (first.resting flow).trans (second.resting flow)
  parked := fun flow => (first.parked flow).trans (second.parked flow)

/-- A book keeps its places if its resting orders do. -/
theorem with_resting {flow : Flow} {queue : Queue flow.restingDirection}
    (places : Queue.KeepsPlaces excused (book.resting flow) queue) :
    book.KeepsPlaces excused (book.withResting flow queue) where
  resting := Flow.forall_of_contra flow (by simpa only [resting_with_resting] using places)
    (by simpa only [contra_with_resting] using Queue.KeepsPlaces.refl _)
  parked := fun other => by simpa only [parked_with_resting] using Queue.KeepsPlaces.refl _

/-- It keeps them if its parked orders do. -/
theorem with_parked {flow : Flow} {queue : Queue flow.parkingDirection}
    (places : Queue.KeepsPlaces excused (book.parked flow) queue) :
    book.KeepsPlaces excused (book.withParked flow queue) where
  resting := fun other => by simpa only [resting_with_parked] using Queue.KeepsPlaces.refl _
  parked := Flow.forall_of_contra flow (by simpa only [parked_with_parked] using places)
    (by simpa only [contra_with_parked] using Queue.KeepsPlaces.refl _)

/-- A change of one queue, wherever the order that it names is. -/
theorem named {flow : Flow} {id : OrderId} {old : Order}
    {change : {direction : Direction} → Queue direction → Queue direction}
    (named : book.Named flow id old change next)
    (places : ∀ {direction : Direction} (queue : Queue direction),
      Queue.KeepsPlaces excused queue (change queue)) : book.KeepsPlaces excused next := by
  cases named with
  | resting found => exact with_resting (places _)
  | parked found => exact with_parked (places _)

end KeepsPlaces

section Places

variable {book next : Book} {sent : List Report} {excused : OrderId → Prop}

/-- What is in a queue is in the book. -/
theorem mem_orders_of_resting {flow : Flow} {id : OrderId}
    (member : id ∈ (book.resting flow).ids) : id ∈ book.orders.map (·.id) := by
  have all := (book.outstanding_resting_perm flow []).map (·.id)
  rw [outstanding_nil] at all
  refine all.mem_iff.mpr ?_
  rw [List.map_append, Queue.orders, List.map_map]
  exact List.mem_append_left _ member

/-- A parked order is one of the orders of the book. -/
theorem mem_orders_of_parked {flow : Flow} {id : OrderId}
    (member : id ∈ (book.parked flow).ids) : id ∈ book.orders.map (·.id) := by
  have all := (book.outstanding_parked_perm flow []).map (·.id)
  rw [outstanding_nil] at all
  refine all.mem_iff.mpr ?_
  rw [List.map_append, Queue.orders, List.map_map]
  exact List.mem_append_left _ member

/-- An order that comes from no queue takes no place from another one. -/
theorem Routes.keeps_places {order : Order} {outset : Outset} (routes : book.Routes order outset)
    (absent : order.id ∉ book.orders.map (·.id)) : book.KeepsPlaces excused outset.book := by
  cases routes with
  | live live => exact .refl book
  | reached waits traded reached => exact .refl book
  | parked waits unreached =>
    exact .with_parked (.insert _ fun member => absent (mem_orders_of_parked member))

/-- An order that a replacement takes out is in no queue after that. -/
theorem Named.absent {flow : Flow} {id gone : OrderId} {old : Order}
    (named : book.Named flow id old
      (fun queue => { queue with entries := Queue.without gone queue.entries }) next)
    (sound : book.Sound) (same : gone = id) (distinct : (book.orders.map (·.id)).Nodup) :
    id ∉ next.orders.map (·.id) := by
  have taken := named.outstanding_without sound same []
  rw [outstanding_nil, outstanding_nil] at taken
  have nodup := (taken.map (·.id)).nodup_iff.mp distinct
  rw [List.map_cons, (named.order_sound sound).2.1] at nodup
  exact (List.nodup_cons.mp nodup).1

/-- At once, an operation takes an order out of its place only to end it, or to have it queued
again. -/
theorem Opens.keeps_places {operation : Operation} {outset : Outset}
    (opens : book.Opens operation outset) (sound : book.Sound)
    (distinct : (book.orders.map (·.id)).Nodup)
    (unqueued : ∀ id ∈ operation.newId?, id ∉ book.orders.map (·.id)) :
    book.KeepsPlaces (fun id => Ended id outset.reports ∨ book.Requeues operation id)
      outset.book := by
  cases opens with
  | absent => exact .refl book
  | refused kind image reason rejects => exact .refl book
  | @insert id request order outset built active positive routes =>
    refine routes.keeps_places ?_
    rw [Order.id_of_new built]
    exact unqueued id (by simp [Operation.newId?, built])
  | @requeue request image order rest outset built active amended routes =>
    have again : book.Requeues (.replace request) order.id :=
      ⟨request, image, order, rest, rfl, built, active, amended, rfl⟩
    obtain ⟨old, above, rfl, lost, named⟩ := amend_ok amended
    have same : old.id = image.id := (named.order_sound sound).2.1
    have absent := named.absent sound same distinct
    rw [← same] at absent
    exact (KeepsPlaces.named named fun queue => .without (.inr again)).trans
      (routes.keeps_places absent)
  | keep built active amended stays =>
    obtain ⟨old, above, rfl, -, named⟩ := amend_ok amended
    exact .named named fun queue => .of_slots (Queue.slots_with_order _ queue.entries)
  | @expire request image order between built active amended immediate =>
    have dropped : between.KeepsPlaces (fun id =>
        Ended id (Report.of .replaced order "" :: (between.dropImmediate order).2) ∨
          book.Requeues (.replace request) id) (between.dropImmediate order).1 := by
      rcases between.drop_immediate_cases order with ⟨nothing, -⟩ | ⟨old, found, dropped, reported⟩
      · rw [nothing]
        exact .refl between
      · have same : old.id = order.id := by
          have first := List.find?_some found
          exact eq_of_beq first
        rw [dropped, reported]
        refine .with_resting (.without (.inl ?_))
        rw [← same]
        exact ended_of_cancelled _ (List.mem_cons_of_mem _ (List.mem_singleton_self _))
    obtain ⟨old, above, rfl, -, named⟩ := amend_ok amended
    exact (KeepsPlaces.named named fun queue =>
      .of_slots (Queue.slots_with_order _ queue.entries)).trans dropped
  | cancel withdrawn =>
    obtain ⟨old, rfl, named⟩ := withdraw_ok withdrawn
    have same : old.id = _ := (named.order_sound sound).2.1
    refine .named named fun queue => .without (.inl ?_)
    rw [← same]
    exact ended_of_cancelled (old.renamed _) (List.mem_singleton_self _)
  | start => exact .same (fun flow => by cases flow <;> rfl) (fun flow => by cases flow <;> rfl)
  | stop =>
    have ended {id : OrderId} (member : id ∈ book.orders.map (·.id)) : Ended id book.stop.2 := by
      obtain ⟨order, present, rfl⟩ := List.mem_map.mp member
      exact ended_of_cancelled _ (List.mem_map_of_mem present)
    constructor
    · intro flow entry member
      exact .inr (.inl (ended (mem_orders_of_resting (Queue.mem_ids member))))
    · intro flow entry member
      exact .inr (.inl (ended (mem_orders_of_parked (Queue.mem_ids member))))
  | publish => exact .same (fun flow => by cases flow <;> rfl) (fun flow => by cases flow <;> rfl)

/-- A trade takes the first order out only if it is filled to its end. -/
theorem Meets.keeps_places {taker : Order} {maker : Queue.Entry} {behind : List Queue.Entry}
    (meets : book.Meets taker maker behind) :
    book.KeepsPlaces (fun id => Ended id (fills taker maker.order))
      (book.traded taker maker behind) := by
  let price := maker.order.price
  let quantity := tradedQuantity taker maker.order
  have filled : Queue.KeepsPlaces (fun id => Ended id (fills taker maker.order))
      (book.resting taker.flow.contra)
      { book.resting taker.flow.contra with
        entries := Queue.filledFirst maker behind price quantity } := by
    by_cases gone : (maker.order.fill price quantity).pending = 0
    · have fill : (Report.ofFill (maker.order.fill price quantity)).kind = .fill := by
        rw [Report.ofFill, if_pos gone]
        rfl
      intro entry member
      rw [meets.first] at member
      rcases List.mem_cons.mp member with rfl | member
      · exact .inr (.inl ⟨_, List.mem_cons_self, rfl, fill⟩)
      · left
        simp only [Queue.slots, Queue.filledFirst, if_pos gone]
        exact List.mem_map_of_mem member
    · refine .of_slots ?_
      simp only [Queue.slots, Queue.filledFirst, if_neg gone, meets.first]
      rfl
  exact (KeepsPlaces.with_resting filled).trans
    (.same (resting_with_record _ · _) (parked_with_record _ · _))

/-- An order that comes to rest takes no place from another one. -/
theorem settled_keeps_places {order : Order}
    (absent : order.id ∉ book.orders.map (·.id)) :
    book.KeepsPlaces excused (book.restRemainder order).1 := by
  have settles := book.settles order
  generalize book.restRemainder order = settled at settles ⊢
  cases settles with
  | expired immediate => exact .refl book
  | unpriced day market untraded => exact .refl book
  | restated day market priced =>
    exact .with_resting (.insert _ fun member => absent (mem_orders_of_resting member))
  | rested day limited =>
    exact .with_resting (.insert _ fun member => absent (mem_orders_of_resting member))

/-- A move takes an order out of the resting ones only to end it. -/
theorem Move.keeps_resting {tasks later : List Task} {reports : List Report}
    (move : book.Move tasks next later reports)
    (distinct : ((book.outstanding tasks).map (·.id)).Nodup) (flow : Flow) :
    Queue.KeepsPlaces (fun id => Ended id reports) (book.resting flow) (next.resting flow) := by
  cases move with
  | trade traded =>
    obtain ⟨maker, behind, meets, rfl, rfl, rfl⟩ := (trade_once_iff ..).mp traded
    exact meets.keeps_places.resting flow
  | @settle order _ stuck left =>
    have apart := ((book.outstanding_trade_left left later).map (·.id)).nodup_iff.mp distinct
    have absent : order.id ∉ book.orders.map (·.id) := by
      intro member
      refine (List.nodup_cons.mp apart).1 ?_
      rw [outstanding, List.map_append]
      exact List.mem_append_left _ member
    exact (settled_keeps_places absent).resting flow
  | finish stuck spent => exact .refl _
  | release released =>
    obtain ⟨entry, behind, -, -, rfl⟩ := releases_of_release released
    rw [Book.released, resting_with_parked]
    exact .refl _
  | pass unreached => exact .refl _

end Places

section Stable

variable {book : Book} {sent : List Report} {operation : Operation}

/-- Through an operation, a resting order leaves its place only if it ends or is queued
again. -/
theorem perform_keeps_resting (sound : book.Sound) (ledger : Ledger sent book.orders)
    (unreported : ∀ id ∈ operation.newId?, reportsOn id sent = []) (flow : Flow) :
    Queue.KeepsPlaces
      (fun id => Ended id (sent ++ (book.perform operation).2) ∨ book.Requeues operation id)
      (book.resting flow) ((book.perform operation).1.resting flow) := by
  have opens := book.opens_outset operation
  have places := (opens.keeps_places sound ledger.distinct
    fun id new => ledger.unheld (unreported id new)).resting flow
  have entered := opens.ledger sound unreported (by rwa [outstanding_nil])
  have worked := (work_finishes (book.outset operation).book _).keeps
    (P := fun next tasks sent => ((next.Sound ∧ ∀ task ∈ tasks, task.Sound) ∧
      Ledger sent (next.outstanding tasks)) ∧
        Queue.KeepsPlaces (fun id => Ended id sent ∨ book.Requeues operation id)
          (book.resting flow) (next.resting flow))
    (fun move holds => ⟨⟨move.sound holds.1.1.1 holds.1.1.2, move.ledger holds.1.1.1 holds.1.2⟩,
      (holds.2.mono fun id => Or.imp_left (Ended.append_left _)).trans
        ((move.keeps_resting holds.1.2.distinct flow).mono
          fun id ended => .inl (ended.append_right _))⟩)
    _ ⟨⟨opens.sound sound, entered⟩,
      places.mono fun id => Or.imp_left (Ended.append_right sent)⟩
  have final := worked.2
  rw [List.append_assoc] at final
  rw [perform_eq]
  simpa only [Outset.finish, Outset.marked, resting_marked] using final

/-- Through an operation, a parked order leaves its place only if it leaves its queue, if it
ends or is queued again. -/
theorem perform_keeps_parked (sound : book.Sound) (ledger : Ledger sent book.orders)
    (unreported : ∀ id ∈ operation.newId?, reportsOn id sent = []) (flow : Flow) :
    Queue.KeepsPlaces
      (fun id => (Ended id (sent ++ (book.perform operation).2) ∨ book.Requeues operation id) ∨
        id ∉ ((book.perform operation).1.parked flow).ids)
      (book.parked flow) ((book.perform operation).1.parked flow) := by
  have opens := book.opens_outset operation
  have places := (opens.keeps_places sound ledger.distinct
    fun id new => ledger.unheld (unreported id new)).parked flow
  obtain ⟨released, -, front, -⟩ := sound.releases_in_order operation flow
  have behind := ((opens.sound sound).1.parked flow).ordered.keeps_places_behind front
  refine (places.mono ?_).trans (behind.mono fun id => .inr)
  rintro id (ended | again)
  · rw [perform_eq]
    exact .inl (.inl ((ended.append_left _).append_right _))
  · exact .inl (.inr again)

/-- An order that is queued again does not stay where it was. -/
theorem Requeues.moved {id : OrderId} (again : book.Requeues operation id) (sound : book.Sound)
    (distinct : (book.orders.map (·.id)).Nodup) (flow : Flow) :
    ¬ Queue.Stays (book.resting flow) ((book.perform operation).1.resting flow) id ∧
      ¬ Queue.Stays (book.parked flow) ((book.perform operation).1.parked flow) id := by
  obtain ⟨request, image, order, rest, rfl, built, active, amended, rfl⟩ := again
  have opened : book.outset (.replace request) =
      (rest.routeOutset order).after (Report.of .replaced order "") := by
    simp only [outset, built, replaceOutset, active, amended, Bool.not_true, Bool.false_eq_true,
      if_false]
  obtain ⟨old, above, rfl, lost, named⟩ := amend_ok amended
  have same : old.id = image.id := (named.order_sound sound).2.1
  have absent := named.absent sound same distinct
  rw [← same] at absent
  have before := Continues.named named fun queue => .of_sublist List.filter_sublist
  have after : rest.Continues (book.perform (.replace request)).1 := by
    rw [perform_eq, opened]
    exact (rest.routes_outset _).continues.trans (finish_continues (Outset.after _ _))
  constructor
  · exact (before.resting flow).not_stays (after.resting flow) (sound.resting flow).ordered
      fun member => absent (mem_orders_of_resting member)
  · exact (before.parked flow).not_stays (after.parked flow) (sound.parked flow).ordered
      fun member => absent (mem_orders_of_parked member)

/-- The reports before an operation and those after it are both ledgers, and nothing was
reported before of an order that the operation brings. -/
theorem ledgers_of_fresh (first : Order) {operations : List Operation}
    (fresh : Fresh (operations ++ [operation])) :
    let book := ((ofFirst first).performAll operations).1
    let sent := ((ofFirst first).performAll operations).2
    Ledger sent book.orders ∧ (∀ id ∈ operation.newId?, reportsOn id sent = []) ∧
      Ledger (sent ++ (book.perform operation).2) (book.perform operation).1.orders := by
  intro book sent
  have apart : (newIds operations ++ newIds [operation]).Nodup := by
    rwa [Fresh, newIds, List.filterMap_append] at fresh
  obtain ⟨freshBefore, -, different⟩ := List.nodup_append.mp apart
  have ledger := run_ledger first freshBefore
  refine ⟨ledger, ?_, ?_⟩
  · intro id new
    apply ledger.unreported
    rw [answered_all]
    intro old
    have added : id ∈ newIds [operation] :=
      List.mem_filterMap.mpr ⟨_, List.mem_singleton_self _, new⟩
    exact different id old id added rfl
  · have final := run_ledger first fresh
    rw [perform_all_append] at final
    simpa only [performAll, List.append_nil] using final

/-- In every book that a run reaches, whatever is done next, orders that keep their places keep
their order, and what has a new place stands behind all that stays at its price.

If new orders bear identifiers of their own, then every order that is in a queue before and
after is in its place, unless a replacement has queued it again. So time priority is stable:
of two orders that stay the same one is ahead, and whatever is queued stands behind all that
was there at its price, or at its stop price among the parked orders. -/
theorem time_priority_is_stable (first : Order) (operations : List Operation)
    (operation : Operation) :
    let book := ((ofFirst first).performAll operations).1
    let next := (book.perform operation).1
    (∀ flow, Queue.KeepsOrder Order.price (book.resting flow) (next.resting flow) ∧
      Queue.KeepsOrder Order.stopPrice (book.parked flow) (next.parked flow)) ∧
      (Fresh (operations ++ [operation]) → ∀ flow,
        Queue.Stable Order.price (book.Requeues operation) (book.resting flow)
            (next.resting flow) ∧
          Queue.Stable Order.stopPrice (book.Requeues operation) (book.parked flow)
            (next.parked flow)) := by
  intro book next
  have sound : book.Sound := run_sound first operations
  have after : next.Sound := (moments_of_legal sound operation).2
  have continues := book.perform_continues operation
  have keeps : ∀ flow,
      Queue.KeepsOrder Order.price (book.resting flow) (next.resting flow) ∧
        Queue.KeepsOrder Order.stopPrice (book.parked flow) (next.parked flow) := by
    intro flow
    constructor
    · exact (continues.resting flow).keeps_order (sound.resting flow) (after.resting flow)
    · exact (continues.parked flow).keeps_order (sound.parked flow) (after.parked flow)
  refine ⟨keeps, fun fresh flow => ?_⟩
  obtain ⟨ledger, unreported, final⟩ := ledgers_of_fresh first fresh
  -- what is in a queue afterwards has not ended
  have going {id : OrderId} (held : id ∈ next.orders.map (·.id)) :
      ¬ Ended id (((ofFirst first).performAll operations).2 ++ (book.perform operation).2) :=
    (final.held_iff.mp held).2
  constructor
  · refine (keeps flow).1.stable (fun member there bound => ?_)
      fun again => (again.moved sound ledger.distinct flow).1
    refine (perform_keeps_resting sound ledger unreported flow).stays member ?_
    exact not_or.mpr ⟨going (mem_orders_of_resting there), bound⟩
  · refine (keeps flow).2.stable (fun member there bound => ?_)
      fun again => (again.moved sound ledger.distinct flow).2
    refine (perform_keeps_parked sound ledger unreported flow).stays member ?_
    exact not_or.mpr ⟨not_or.mpr ⟨going (mem_orders_of_parked there), bound⟩, not_not.mpr there⟩

/-- The replacement of the day queues a purchase again, which takes the first of two sales. The
other sale stays in its place. -/
theorem eventful_day_keeps_priority :
    let operations := eventfulDay.take 4
    let replacement := eventfulDay.getD 4 .start
    let book := ((ofFirst default).performAll operations).1
    let next := (book.perform replacement).1
    Fresh (operations ++ [replacement]) ∧ book.sells.ids = [⟨2⟩, ⟨1⟩] ∧ next.sells.ids = [⟨1⟩] ∧
      ∀ flow, Queue.Stable Order.price (book.Requeues replacement) (book.resting flow)
          (next.resting flow) ∧
        Queue.Stable Order.stopPrice (book.Requeues replacement) (book.parked flow)
          (next.parked flow) :=
  ⟨by decide, by decide, by decide,
    (time_priority_is_stable default (eventfulDay.take 4) (eventfulDay.getD 4 .start)).2
      (by decide)⟩

end Stable

end Book

end Bourse
