import Bourse.Proofs.Rejections
import Bourse.Proofs.StopReleases
import Mathlib.Data.List.Perm.Subperm

/-!
# Where orders and reports come from

Whatever happens to an order, it keeps its identifier and its security. So every order that a
book holds after a request was held before, or came with the request; and a report is on one of
these orders, unless it refuses the request. `Descends` says this of the orders before and after:
no identifier is held more often than before, and every security is the same one.

This needs nothing of the orders but their security. They may share identifiers, and neither
their prices nor their quantities matter.
-/

namespace Bourse

namespace Order

/-- What nothing changes of an order. -/
def identity (order : Order) : OrderId × String := (order.id, order.security)

/-- A fill leaves the identity of an order as it is. -/
@[simp] theorem identity_fill (order : Order) (price quantity : Int) :
    (order.fill price quantity).identity = order.identity := rfl

/-- So does a limit. -/
@[simp] theorem identity_limited_at (order : Order) (price : Int) :
    (order.limitedAt price).identity = order.identity := rfl

/-- So does a replacement. -/
@[simp] theorem identity_replaced (order image : Order) :
    (order.replacedBy image).identity = order.identity := rfl

/-- So does a new name. -/
@[simp] theorem identity_renamed (order image : Order) :
    (order.renamed image).identity = order.identity := rfl

/-- So does a release. -/
@[simp] theorem identity_trigger (order : Order) : order.trigger.identity = order.identity := by
  unfold trigger
  split <;> rfl

end Order

/-- What a report shows of the identity of an order. -/
def Report.identity (report : Report) : OrderId × String := (report.order, report.security)

/-- A report shows the identity of the order it is on. -/
@[simp] theorem Report.identity_of (kind : ReportKind) (order : Order) (reason : String) :
    (Report.of kind order reason).identity = order.identity := rfl

/-- So does a report on a fill. -/
@[simp] theorem Report.identity_of_fill (order : Order) :
    (Report.ofFill order).identity = order.identity := rfl

/-- All of the orders are of a security. -/
def Filed (security : String) (orders : List Order) : Prop :=
  ∀ order ∈ orders, order.security = security

/-- The orders of a security that are held, what becomes of them, and what is reported of that. -/
structure Descends (security : String) (before after : List Order) (reports : List Report) :
    Prop where
  held : (after.map (·.id)).Subperm (before.map (·.id))
  filed : Filed security after
  told : ∀ report ∈ reports, report.security = security ∧
    (report.kind.isRefusal = true ∨ report.order ∈ before.map (·.id))

namespace Descends

variable {security : String} {before between after : List Order} {reports later : List Report}

/-- Orders may leave, and their order among each other does not matter. -/
theorem of_subperm (filed : Filed security before)
    (held : after.Subperm before) : Descends security before after [] where
  held := by
    obtain ⟨same, perm, part⟩ := held
    exact ⟨same.map (·.id), perm.map _, part.map _⟩
  filed := fun order member => filed order (held.subset member)
  told := by simp

/-- Orders descend from themselves. -/
theorem refl (filed : Filed security before) :
    Descends security before before [] :=
  of_subperm filed (.refl before)

/-- What descends from descendants descends from the first. -/
theorem trans (first : Descends security before between reports)
    (second : Descends security between after later) :
    Descends security before after (reports ++ later) where
  held := second.held.trans first.held
  filed := second.filed
  told := by
    intro report member
    rcases List.mem_append.mp member with early | late
    · exact first.told report early
    · obtain ⟨same, known⟩ := second.told report late
      exact ⟨same, known.imp_right fun held => first.held.subset held⟩

/-- What descends from fewer orders descends from more. -/
theorem of_more {more : List Order} (filed : Filed security more)
    (held : before.Subperm more) (descends : Descends security before after reports) :
    Descends security more after reports := by
  simpa only [List.nil_append] using (of_subperm filed held).trans descends

/-- Some orders change and keep their identities, and reports are sent on them. -/
theorem changed (olds news rest : List Order)
    (filed : Filed security (olds ++ rest))
    (same : news.map Order.identity = olds.map Order.identity)
    (shown : ∀ report ∈ reports, report.identity ∈ news.map Order.identity) :
    Descends security (olds ++ rest) (news ++ rest) reports where
  held := by
    have ids := congrArg (List.map Prod.fst) same
    simp only [List.map_map] at ids
    have equal : (news ++ rest).map (·.id) = (olds ++ rest).map (·.id) := by
      rw [List.map_append, List.map_append]
      exact congrArg (· ++ _) ids
    rw [equal]
  filed := by
    intro order member
    rcases List.mem_append.mp member with new | kept
    · have known : order.identity ∈ olds.map Order.identity := same ▸ List.mem_map_of_mem new
      obtain ⟨old, present, equal⟩ := List.mem_map.mp known
      exact (congrArg Prod.snd equal).symm.trans (filed old (List.mem_append_left _ present))
    · exact filed order (List.mem_append_right _ kept)
  told := by
    intro report member
    obtain ⟨old, present, equal⟩ := List.mem_map.mp (same ▸ shown report member)
    obtain ⟨id, own⟩ := Prod.mk.inj equal
    have held := List.mem_append_left rest present
    exact ⟨own ▸ filed old held, .inr (id ▸ List.mem_map_of_mem held)⟩

/-- Of the orders that are there some change, and others may leave. -/
theorem of_changed (olds news rest : List Order)
    (filed : Filed security before)
    (split : (olds ++ rest).Subperm before)
    (same : news.map Order.identity = olds.map Order.identity)
    (held : after.Subperm (news ++ rest))
    (shown : ∀ report ∈ reports, report.identity ∈ news.map Order.identity) :
    Descends security before after reports := by
  have present : Filed security (olds ++ rest) :=
    fun order member => filed order (split.subset member)
  have kept := changed olds news rest present same shown
  have left := kept.trans (of_subperm kept.filed held)
  rw [List.append_nil] at left
  exact left.of_more filed split

end Descends

namespace Queue

variable {direction : Direction}

/-- A queue with another order holds no other orders than before and that one. -/
theorem orders_insert_subperm (queue : Queue direction) (key : Int) (order : Order) :
    (queue.insert key order).orders.Subperm (order :: queue.orders) := by
  have placed := (@place_perm direction ⟨key, queue.nextArrival, order⟩
    (without order.id queue.entries)).map (·.order)
  have kept : ((without order.id queue.entries).map (·.order)).Sublist queue.orders :=
    List.filter_sublist.map _
  exact placed.subperm.trans (kept.cons_cons order).subperm

/-- An order that is found by its identifier is none of those that stay. -/
theorem orders_without_subperm (queue : Queue direction) {id : OrderId} {old : Order}
    (found : queue.get? id = some old) :
    (old :: ({ queue with entries := without id queue.entries } :
      Queue direction).orders).Subperm queue.orders := by
  have stay : ({ queue with entries := without id queue.entries } : Queue direction).orders =
      queue.orders.filter fun order => !(order.id == id) := by
    rw [orders, orders, List.filter_map]
    rfl
  have gone : old ∈ queue.orders.filter (·.id == id) :=
    List.mem_filter.mpr ⟨List.mem_of_find?_eq_some found, beq_iff_eq.mpr (id_of_get found)⟩
  rw [stay]
  exact ((List.singleton_sublist.mpr gone).subperm.append (.refl _)).trans
    (List.filter_append_perm _ _).subperm

/-- Where all orders are of a security, another order of it that takes the place of one changes no
identity. -/
theorem identities_amended (queue : Queue direction) {security : String} {order : Order}
    (filed : Filed security queue.orders) (own : order.security = security) :
    (queue.amended order .kept).orders.map Order.identity = queue.orders.map Order.identity := by
  simp only [amended, withOrder, orders, List.map_map]
  apply List.map_congr_left
  intro entry member
  by_cases named : (entry.order.id == order.id) = true
  · have there : entry.order.security = security := filed _ (List.mem_map_of_mem member)
    simp only [Function.comp_apply, if_pos named]
    exact Prod.ext (eq_of_beq named).symm (own.trans there.symm)
  · simp only [Function.comp_apply, if_neg named]

/-- A replaced order that stays in its queue takes its own place, whatever other orders there
are. -/
theorem stays_descends {queue : Queue direction} {security : String} {old image : Order}
    {before after others : List Order} (filed : Filed security before)
    (found : old ∈ queue.orders) (held : before.Perm (queue.orders ++ others))
    (left : after.Perm ((queue.amended (old.replacedBy image) .kept).orders ++ others)) :
    Descends security before after [Report.of .replaced (old.replacedBy image) ""] := by
  have here : Filed security queue.orders := fun order member =>
    filed order (held.mem_iff.mpr (List.mem_append_left _ member))
  have own : (old.replacedBy image).security = security := here old found
  have same := queue.identities_amended here own
  refine .of_changed _ _ _ filed held.symm.subperm same left.subperm ?_
  simp only [List.mem_singleton, forall_eq, same, Report.identity_of, Order.identity_replaced]
  exact List.mem_map_of_mem found

end Queue

namespace Book

/-- The orders in the queues and in the tasks that are still to be done. -/
def present (book : Book) (tasks : List Task) : List Order :=
  book.orders ++ tasks.filterMap Task.order?

section Present

variable {book next : Book} {tasks later : List Task} {security : String}

/-- Without tasks, the orders of a book are all that there are. -/
@[simp] theorem present_nil (book : Book) : book.present [] = book.orders := List.append_nil _

/-- A check brings no order. -/
@[simp] theorem present_check (flow : Flow) :
    book.present (.check flow :: tasks) = book.present tasks := rfl

/-- The order of a task is one of those that are there. -/
theorem present_trade (order : Order) :
    (book.present (.trade order :: tasks)).Perm (order :: book.present tasks) :=
  List.perm_middle

/-- The orders that rest for a flow, and all others. -/
theorem present_resting_perm (book : Book) (flow : Flow) (tasks : List Task) :
    (book.present tasks).Perm
      ((book.resting flow).orders ++ (book.withResting flow .empty).present tasks) := by
  have queues := book.outstanding_resting_perm flow []
  simp only [outstanding_nil] at queues
  rw [present, present, ← List.append_assoc]
  exact queues.append_right _

/-- The orders that are parked for a flow, and all others. -/
theorem present_parked_perm (book : Book) (flow : Flow) (tasks : List Task) :
    (book.present tasks).Perm
      ((book.parked flow).orders ++ (book.withParked flow .empty).present tasks) := by
  have queues := book.outstanding_parked_perm flow []
  simp only [outstanding_nil] at queues
  rw [present, present, ← List.append_assoc]
  exact queues.append_right _

/-- What another queue of resting orders brings and lacks, the book brings and lacks. -/
theorem present_with_resting (book : Book) {flow : Flow} {queue : Queue flow.restingDirection}
    (gone more : List Order)
    (held : (gone ++ queue.orders).Subperm (more ++ (book.resting flow).orders))
    (tasks : List Task) :
    (gone ++ (book.withResting flow queue).present tasks).Subperm
      (more ++ book.present tasks) := by
  have after := ((book.withResting flow queue).present_resting_perm flow tasks).append_left gone
  have before := (book.present_resting_perm flow tasks).append_left more
  rw [resting_with_resting, with_resting_twice, ← List.append_assoc] at after
  rw [← List.append_assoc] at before
  exact after.subperm.trans ((held.append (.refl _)).trans before.symm.subperm)

/-- What another queue of parked orders brings and lacks, the book brings and lacks. -/
theorem present_with_parked (book : Book) {flow : Flow} {queue : Queue flow.parkingDirection}
    (gone more : List Order)
    (held : (gone ++ queue.orders).Subperm (more ++ (book.parked flow).orders))
    (tasks : List Task) :
    (gone ++ (book.withParked flow queue).present tasks).Subperm
      (more ++ book.present tasks) := by
  have after := ((book.withParked flow queue).present_parked_perm flow tasks).append_left gone
  have before := (book.present_parked_perm flow tasks).append_left more
  rw [parked_with_parked, with_parked_twice, ← List.append_assoc] at after
  rw [← List.append_assoc] at before
  exact after.subperm.trans ((held.append (.refl _)).trans before.symm.subperm)

end Present

section Moves

variable {book next : Book} {tasks later : List Task} {reports : List Report} {security : String}

/-- A trade changes the order that is traded and the first order of the other flow. -/
theorem Meets.descends {taker : Order} {maker : Queue.Entry} {behind : List Queue.Entry}
    (meets : book.Meets taker maker behind)
    (filed : Filed security (book.present (.trade taker :: tasks))) :
    Descends security (book.present (.trade taker :: tasks))
      ((book.traded taker maker behind).present (.check .buying ::
        .trade (taker.fill maker.order.price (tradedQuantity taker maker.order)) :: tasks))
      (fills taker maker.order) := by
  let after := Queue.filledFirst maker behind maker.order.price (tradedQuantity taker maker.order)
  let taken := taker.fill maker.order.price (tradedQuantity taker maker.order)
  let made := maker.order.fill maker.order.price (tradedQuantity taker maker.order)
  -- what is there apart from the two orders, and stays so
  let others := behind.map (·.order) ++
    (book.withResting taker.flow.contra .empty).present tasks
  have before : (book.present (.trade taker :: tasks)).Perm ([taker, maker.order] ++ others) := by
    have split := book.present_resting_perm taker.flow.contra tasks
    rw [Queue.orders, meets.first, List.map_cons] at split
    exact (present_trade taker).trans (split.cons taker)
  have left : (after.map (·.order)).Subperm (made :: behind.map (·.order)) := by
    simp only [after, Queue.filledFirst]
    split
    · exact (List.sublist_cons_self _ _).subperm
    · exact .refl _
  have held : ((book.traded taker maker behind).present
      (.check .buying :: .trade taken :: tasks)).Subperm ([taken, made] ++ others) := by
    have split := present_resting_perm (book.withResting taker.flow.contra
      { book.resting taker.flow.contra with entries := after }) taker.flow.contra tasks
    rw [resting_with_resting, with_resting_twice] at split
    refine ((present_trade taken).trans (split.cons taken)).subperm.trans ?_
    exact (List.subperm_cons taken).mpr (left.append (.refl _))
  refine .of_changed [taker, maker.order] [taken, made] others filed before.symm.subperm rfl held ?_
  simp [fills, taken, made]

/-- What is left of an order rests or is cancelled. -/
theorem settled_descends {order : Order}
    (filed : Filed security (book.present (.trade order :: tasks))) :
    Descends security (book.present (.trade order :: tasks))
      ((book.restRemainder order).1.present tasks) (book.restRemainder order).2 := by
  have split : ([order] ++ book.present tasks).Subperm (book.present (.trade order :: tasks)) :=
    (present_trade order).symm.subperm
  have rests (limited : Order) : ((book.rest limited).present tasks).Subperm
      ([limited] ++ book.present tasks) :=
    book.present_with_resting [] [limited] (Queue.orders_insert_subperm _ _ _) tasks
  have leaves : (book.present tasks).Subperm ([order] ++ book.present tasks) :=
    (List.sublist_cons_self _ _).subperm
  have settles := book.settles order
  generalize book.restRemainder order = settled at settles ⊢
  cases settles with
  | expired immediate => exact .of_changed [order] [order] _ filed split rfl leaves (by simp)
  | unpriced day market untraded =>
    exact .of_changed [order] [order] _ filed split rfl leaves (by simp)
  | restated day market priced =>
    exact .of_changed [order] [order.limitedAt book.record.lastPrice] _ filed split rfl (rests _)
      (by simp)
  | rested day limited =>
    exact .of_changed [order] [order] _ filed split rfl (rests order) (by simp)

/-- A parked order that is released becomes the order of a task. -/
theorem Releases.descends {flow side : Flow} {entry : Queue.Entry} {behind : List Queue.Entry}
    (releases : book.Releases side entry behind)
    (filed : Filed security (book.present (.check flow :: tasks))) :
    Descends security (book.present (.check flow :: tasks))
      ((book.released side behind).present (.trade entry.order.trigger :: .check side :: tasks))
      [Report.of .triggered entry.order.trigger ""] := by
  let others := behind.map (·.order) ++ (book.withParked side .empty).present tasks
  have before : (book.present tasks).Perm (entry.order :: others) := by
    have split := book.present_parked_perm side tasks
    rwa [Queue.orders, releases.first, List.map_cons] at split
  have after : ((book.released side behind).present tasks).Perm others := by
    have split := (book.released side behind).present_parked_perm side tasks
    rwa [released, parked_with_parked, with_parked_twice] at split
  refine .of_changed [entry.order] [entry.order.trigger] others filed before.symm.subperm (by simp)
    ?_ (by simp)
  exact ((present_trade _).trans (after.cons _)).subperm

/-- No move brings an order of its own. -/
theorem Move.descends (move : book.Move tasks next later reports)
    (filed : Filed security (book.present tasks)) :
    Descends security (book.present tasks) (next.present later) reports := by
  cases move with
  | trade traded =>
    obtain ⟨maker, behind, meets, rfl, rfl, rfl⟩ := (trade_once_iff ..).mp traded
    exact meets.descends filed
  | settle stuck left => exact settled_descends filed
  | @finish order _ stuck spent =>
    refine .of_subperm filed ?_
    exact (List.sublist_cons_self order _).subperm.trans (present_trade order).symm.subperm
  | release released =>
    obtain ⟨entry, behind, releases, rfl, rfl⟩ := releases_of_release released
    exact releases.descends filed
  | pass unreached => exact .refl filed

/-- An operation brings no order that was not there when its moves began. -/
theorem finish_descends {before : List Order} {outset : Outset}
    (opened : Descends security before (outset.book.present outset.tasks) outset.reports) :
    Descends security before outset.finish.1.orders outset.finish.2 := by
  have worked := (work_finishes outset.book outset.tasks).keeps
    (P := fun next later sent => Descends security before (next.present later) sent)
    (fun move descends => descends.trans (move.descends descends.filed)) _ opened
  rwa [present_nil] at worked

end Moves

section Requests

variable {book next : Book} {security : String}

/-- An order goes where its type takes it. -/
theorem Routes.descends {order : Order} {outset : Outset} (routes : book.Routes order outset)
    (filed : Filed security (order :: book.orders)) :
    Descends security (order :: book.orders) (outset.book.present outset.tasks)
      outset.reports := by
  have alone (live : Order) : (book.present [.trade live]).Subperm (live :: book.orders) := by
    rw [← present_nil book]
    exact (present_trade live).subperm
  cases routes with
  | live live => exact .of_subperm filed (alone order)
  | reached waits traded reached =>
    exact .of_changed [order] [order.trigger] book.orders filed (.refl _) (by simp) (alone _)
      (by simp)
  | parked waits unreached =>
    have held := Queue.orders_insert_subperm (book.parked order.flow) order.stopPrice order
    have parked := book.present_with_parked [] [order] held []
    rw [present_nil book] at parked
    exact .of_subperm filed parked

/-- An order that is taken out of a queue was there. -/
theorem Named.held {flow : Flow} {id gone : OrderId} {old : Order}
    (named : book.Named flow id old
      (fun queue => { queue with entries := Queue.without gone queue.entries }) next)
    (same : gone = id) : ([old] ++ next.orders).Subperm book.orders := by
  subst same
  rw [← present_nil, ← present_nil]
  cases named with
  | resting found =>
    exact book.present_with_resting [old] [] (Queue.orders_without_subperm _ found) []
  | parked found =>
    exact book.present_with_parked [old] [] (Queue.orders_without_subperm _ found) []

/-- An order that is taken out of a queue is gone, and the report on it shows what it became. -/
theorem Named.taken {flow : Flow} {id gone : OrderId} {old order : Order}
    (named : book.Named flow id old
      (fun queue => { queue with entries := Queue.without gone queue.entries }) next)
    (same : gone = id) (kept : order.identity = old.identity) (kind : ReportKind) (reason : String)
    (filed : Filed security book.orders) :
    Descends security book.orders (order :: next.orders) [Report.of kind order reason] :=
  .of_changed [old] [order] next.orders filed (named.held same) (by simpa using kept) (.refl _)
    (by simp)

/-- A replaced order that keeps its place has its identity, and every other order is as it was. -/
theorem Named.stays {flow : Flow} {id : OrderId} {old image : Order}
    (named : book.Named flow id old (fun queue => queue.amended (old.replacedBy image) .kept) next)
    (filed : Filed security book.orders) :
    Descends security book.orders next.orders [Report.of .replaced (old.replacedBy image) ""] := by
  cases named with
  | resting found =>
    have before := book.present_resting_perm flow []
    have after := (book.withResting flow ((book.resting flow).amended (old.replacedBy image)
      .kept)).present_resting_perm flow []
    rw [present_nil] at before
    rw [present_nil, resting_with_resting, with_resting_twice] at after
    exact Queue.stays_descends filed (List.mem_of_find?_eq_some found) before after
  | parked found =>
    have before := book.present_parked_perm flow []
    have after := (book.withParked flow ((book.parked flow).amended (old.replacedBy image)
      .kept)).present_parked_perm flow []
    rw [present_nil] at before
    rw [present_nil, parked_with_parked, with_parked_twice] at after
    exact Queue.stays_descends filed (List.mem_of_find?_eq_some found) before after

/-- A resting order that became immediate leaves. -/
theorem drop_immediate_descends (order : Order) (filed : Filed security book.orders) :
    Descends security book.orders (book.dropImmediate order).1.orders
      (book.dropImmediate order).2 := by
  rcases book.drop_immediate_cases order with ⟨same, nothing, -⟩ | ⟨old, found, dropped, told⟩
  · rw [same, nothing]
    exact .refl filed
  · rw [dropped, told]
    have taken := (Named.resting found).taken rfl rfl .cancelled Reason.notImmediate.text filed
    have left := taken.trans (.of_subperm taken.filed (List.sublist_cons_self _ _).subperm)
    rwa [List.append_nil] at left

/-- A refusal leaves what is there. -/
theorem refused_descends {kind : ReportKind} {image : Order} (reason : String)
    {orders : List Order} (refuses : kind.isRefusal = true) (own : image.security = security)
    (filed : Filed security orders) :
    Descends security orders orders [Report.of kind image reason] where
  held := .refl _
  filed := filed
  told := List.forall_mem_singleton.mpr ⟨own, .inl refuses⟩

/-- A new order comes to those that are there. -/
theorem insert_descends {order : Order} (filed : Filed security (order :: book.orders)) :
    Descends security (order :: book.orders) (book.insert order).1.orders
      (book.insert order).2 := by
  have own : order.security = security := filed order List.mem_cons_self
  have ignored : Descends security (order :: book.orders) book.orders [] :=
    .of_subperm filed (List.sublist_cons_self _ _).subperm
  rw [insert_eq]
  refine finish_descends ?_
  unfold insertOutset
  split
  · rw [Outset.unchanged, present_nil]
    exact ignored.trans (refused_descends _ rfl own ignored.filed)
  · split
    · rw [Outset.unchanged, present_nil]
      exact ignored.trans (refused_descends _ rfl own ignored.filed)
    · have told : Descends security (order :: book.orders) (order :: book.orders)
          [Report.of .new order ""] :=
        .changed [order] [order] book.orders filed rfl (by simp)
      exact told.trans ((book.routes_outset order).descends filed)

/-- A replacement brings no order but those that are there. -/
theorem replace_descends {image : Order} (own : image.security = security)
    (filed : Filed security book.orders) :
    Descends security book.orders (book.replace image).1.orders (book.replace image).2 := by
  rw [replace_eq]
  refine finish_descends ?_
  unfold replaceOutset
  split
  · rw [Outset.unchanged, present_nil]
    exact refused_descends _ rfl own filed
  · cases amended : book.amend image with
    | error refusal =>
      simp only [Outset.unchanged, present_nil]
      exact refused_descends _ rfl own filed
    | ok result =>
      obtain ⟨order, priority, next⟩ := result
      obtain ⟨old, above, rfl, -, named⟩ := amend_ok amended
      cases priority with
      | lost =>
        have taken := named.taken named.id (Order.identity_replaced old image) .replaced "" filed
        exact taken.trans ((next.routes_outset _).descends taken.filed)
      | kept =>
        have stays := named.stays filed
        simp only [Outset.settled, present_nil]
        split
        · exact stays.trans (drop_immediate_descends _ stays.filed)
        · exact stays

/-- A cancellation brings no order. -/
theorem cancel_descends {image : Order} (own : image.security = security)
    (filed : Filed security book.orders) :
    Descends security book.orders (book.cancel image).1.orders (book.cancel image).2 := by
  rw [cancel_eq]
  refine finish_descends ?_
  unfold cancelOutset
  cases withdrawn : book.withdraw image with
  | error refusal =>
    simp only [Outset.unchanged, present_nil]
    exact refused_descends _ rfl own filed
  | ok result =>
    obtain ⟨order, next⟩ := result
    obtain ⟨old, rfl, named⟩ := withdraw_ok withdrawn
    have taken := named.taken rfl (Order.identity_renamed old image) .cancelled
      Reason.requested.text filed
    have left := taken.trans (.of_subperm taken.filed (List.sublist_cons_self _ _).subperm)
    simpa only [Outset.settled, present_nil, List.append_nil] using left

end Requests

end Book

end Bourse
