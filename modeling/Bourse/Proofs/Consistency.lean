import Bourse.Proofs.ByteOrder
import Bourse.Proofs.Deliveries
import Bourse.Proofs.Ledger
import Mathlib.Data.String.Basic

/-!
# What holds of a market at any time

Every book is open or closed as the market is, and a closed market holds no orders. The securities
of the books are all different and are listed in the order of their bytes. A book holds orders of
its own security only.

No identifier is held twice, in whatever queues of whatever books. The identifiers that are held
are among those that the market has given out, each at most once, because no operation brings an
order that was not there unless it takes a new identifier for it. Since a market that closes
holds nothing afterwards, the same reason shows that none of its orders is reported again: what is
reported later is on later identifiers, or it is a refusal. The market may give out every
identifier once; after that they return.
-/

namespace Bourse

namespace OrderId

/-- Some identifiers and more of them are those from the first one on. -/
theorem take_add (id : OrderId) (count more : Nat) :
    id.take (count + more) = ((id.take count).1 ++ ((id.take count).2.take more).1,
      ((id.take count).2.take more).2) := by
  induction count generalizing id with
  | zero => simp [take]
  | succ count induction =>
    rw [Nat.succ_add, take, induction]
    rfl

/-- The identifiers from one on are those at each distance from it. -/
theorem take_eq (id : OrderId) (count : Nat) :
    (id.take count).1 =
      (List.range count).map fun distance => ⟨id.value + UInt64.ofNat distance⟩ := by
  induction count generalizing id with
  | zero => rfl
  | succ count induction =>
    simp only [take, induction, List.range_succ_eq_map, List.map_cons, List.map_map]
    congr 1
    · simp
    · apply List.map_congr_left
      intro distance _
      simp [next, UInt64.ofNat_add, UInt64.add_assoc, UInt64.add_comm]

/-- Identifiers return only after all of them are given out. -/
theorem nodup_take (id : OrderId) {count : Nat} (few : count ≤ Word.limit) :
    (id.take count).1.Nodup := by
  rw [take_eq]
  refine List.Nodup.map_on ?_ List.nodup_range
  intro first inside second also same
  have words := (UInt64.add_right_inj _).mp (OrderId.mk.inj same)
  have equal := congrArg UInt64.toNat words
  rw [UInt64.toNat_ofNat', UInt64.toNat_ofNat'] at equal
  rw [List.mem_range] at inside also
  rw [Word.limit] at few
  omega

end OrderId

/-- Sorted texts ascend. -/
theorem Text.merge_sort_ascends (texts : List String) :
    (texts.mergeSort fun first second => !(second < first)).Pairwise (· ≤ ·) := by
  have sorted : (texts.mergeSort fun first second => !(second < first)).Pairwise
      fun first second => (!(second < first)) = true := by
    refine List.pairwise_mergeSort ?_ ?_ _
    · intro first second third before after
      simp only [Bool.not_eq_true', decide_eq_false_iff_not, not_lt] at before after ⊢
      exact before.trans after
    · intro first second
      simp only [Bool.or_eq_true, Bool.not_eq_true', decide_eq_false_iff_not, not_lt]
      exact le_total first second
  refine sorted.imp fun ordered => ?_
  simpa only [Bool.not_eq_true', decide_eq_false_iff_not, not_lt] using ordered

namespace Market

section Securities

variable {market : Market}

/-- The securities that are listed are those that have a book. -/
theorem securities_perm (market : Market) :
    market.securities.Perm (market.books.map (·.security)) := List.mergeSort_perm ..

/-- Securities are listed in the order of their bytes. -/
theorem securities_ascend (distinct : (market.books.map (·.security)).Nodup) :
    (market.securities.map Text.utf8).Pairwise (· < ·) := by
  have sorted : market.securities.Pairwise (· ≤ ·) := Text.merge_sort_ascends _
  rw [List.pairwise_map]
  refine ((market.securities_perm.nodup_iff.mpr distinct).and sorted).imp ?_
  rintro first second ⟨apart, ordered⟩
  exact Text.utf8_lt (lt_of_le_of_ne ordered apart)

end Securities

/-- The books are open or closed as the market is, and a closed market holds nothing. -/
structure Uniform (market : Market) : Prop where
  active : ∀ book ∈ market.books, book.isActive = market.isActive
  empty : market.isActive = false → ordersOf market.books = []

/-- A closed book without orders takes none. -/
theorem closed_follow {book : Book} (closed : book.isActive = false) (empty : book.orders = [])
    (instruction : Instruction) : (book.follow instruction).1.orders = [] := by
  cases instruction with
  | insert order =>
    have refused : book.Refuses (.insert order) := Or.inl closed
    rwa [Book.follow_refused refused]
  | replace image =>
    have refused : book.Refuses (.replace image) := Or.inl closed
    rwa [Book.follow_refused refused]
  | cancel image =>
    have filed : Filed image.security book.orders := by simp [Filed, empty]
    have held := (Book.cancel_descends rfl filed).held
    rw [empty, List.map_nil, List.subperm_nil] at held
    exact List.map_eq_nil_iff.mp held

section Uniform

variable {market next : Market} {operation : MarketOperation} {effects : Effects}

/-- A closed market holds nothing after an instruction. -/
theorem closed_delivers {instruction : Instruction} {books later : List Book}
    {reports : List Report} (delivers : Delivers instruction books later reports)
    (closed : ∀ book ∈ books, book.isActive = false) (empty : ordersOf books = []) :
    ordersOf later = [] := by
  obtain ⟨front, book, back, own, rfl, rfl, -⟩ := delivers
  have nothing := List.flatMap_eq_nil_iff.mp empty
  have follows := closed_follow (closed book (by simp)) (nothing book (by simp)) instruction
  refine List.flatMap_eq_nil_iff.mpr fun other member => ?_
  rcases List.mem_append.mp member with early | late
  · exact nothing other (List.mem_append_left _ early)
  · rcases List.mem_cons.mp late with rfl | late
    · exact follows
    · exact nothing other (by simp [late])

/-- Opening a market opens every book, whatever it was before. -/
theorem uniform_start (market : Market) : market.start.Uniform :=
  ⟨List.forall_mem_map.mpr fun _ _ => rfl, fun closed => by contradiction⟩

/-- Closing a market closes and clears every book, whatever it was before. -/
theorem uniform_stop (market : Market) : market.stop.1.Uniform := by
  refine ⟨?_, fun _ => market.orders_of_stop⟩
  simp only [Market.stop, List.map_map]
  exact List.forall_mem_map.mpr fun _ _ => rfl

/-- A market whose books are open or closed with it stays so under every operation. -/
theorem Acts.uniform (acts : market.Acts operation next effects) (uniform : market.Uniform) :
    next.Uniform := by
  cases acts with
  | rests views books isActive =>
    constructor
    · rw [books, isActive]
      exact uniform.active
    · rw [books, isActive]
      exact uniform.empty
  | delivers created reports asked delivers fresh distinct isActive =>
    have active : ∀ book ∈ market.books ++ created, book.isActive = market.isActive :=
      List.forall_mem_append.mpr ⟨uniform.active, fun book member =>
        congrArg Prod.snd (fresh book member).2⟩
    constructor
    · intro book member
      have frame : book.frame ∈ (market.books ++ created).map Book.frame :=
        delivers.frames ▸ List.mem_map_of_mem member
      obtain ⟨before, present, same⟩ := List.mem_map.mp frame
      rw [isActive, ← active before present]
      exact (Book.active_of_frame same).symm
    · intro closed
      rw [isActive] at closed
      refine closed_delivers delivers (fun book member => (active book member).trans closed) ?_
      rw [orders_of_fresh fun book member => (fresh book member).1]
      exact uniform.empty closed
  | start => exact market.uniform_start
  | stop => exact market.uniform_stop
  | sweep =>
    constructor
    · refine List.forall_mem_map.mpr fun book member => ?_
      split
      · exact uniform.active book member
      · exact uniform.active book member
    · rw [orders_of_sweep]
      exact uniform.empty

end Uniform

end Market

/-- Whether an operation brings an order that has an identifier of its own. -/
def MarketOperation.bringsId : MarketOperation → Bool
  | .insert _ => true
  | .submit _ | .cancel _ | .replace _ | .start | .stop | .picture _ | .sweep => false

namespace Market

section Identifiers

variable {market : Market} {operation : MarketOperation}

/-- The identifiers that an operation takes, and the one behind them. -/
def taken (market : Market) (operation : MarketOperation) : List OrderId × OrderId :=
  market.nextId.take (if operation.takesId then 1 else 0)

/-- No change to a book spends an identifier. -/
theorem next_id_on_book (market : Market) (security : String)
    (change : Book → Book × List Report) :
    (market.answered (market.onBook security change)).1.nextId = market.nextId := by
  unfold onBook
  cases market.book? security <;> rfl

/-- Neither does an order that has one already. -/
theorem next_id_insert (market : Market) (order : Order) :
    (market.insert order).1.nextId = market.nextId := by
  simp only [insert, withBook, (market.ensure_book_eq order).1]

/-- The identifiers that an operation takes are spent. -/
theorem next_id_perform (market : Market) (operation : MarketOperation) :
    (market.perform operation).1.nextId = (market.taken operation).2 := by
  cases operation with
  | submit request =>
    cases built : Order.ofNew market.nextId request with
    | error error =>
      simp only [perform, submit, built]
      rfl
    | ok order =>
      simp only [perform, submit, built, next_id_insert]
      rfl
  | insert order => exact next_id_insert market order
  | cancel image => exact market.next_id_on_book ..
  | replace image => exact market.next_id_on_book ..
  | start => rfl
  | stop => rfl
  | picture security => rfl
  | sweep => rfl

/-- An operation brings an order only under an identifier that it takes. -/
theorem arrivals_taken (requested : operation.bringsId = false) :
    ((operation.arrivals market).map (·.id)).Sublist (market.taken operation).1 := by
  cases operation with
  | submit request =>
    cases built : Order.ofNew market.nextId request with
    | error error =>
      simp [MarketOperation.arrivals, MarketOperation.instruction?, built, Except.toOption]
    | ok order =>
      simp [MarketOperation.arrivals, MarketOperation.instruction?, built, Except.toOption,
        Instruction.arrivals, Order.id_of_new built, taken, MarketOperation.takesId, OrderId.take]
  | insert order => contradiction
  | cancel image => exact List.nil_sublist _
  | replace image => exact List.nil_sublist _
  | start => exact List.nil_sublist _
  | stop => exact List.nil_sublist _
  | picture security => exact List.nil_sublist _
  | sweep => exact List.nil_sublist _

/-- What holds after operations in a row of the identifiers that are held and reported on: they
were held before, or the operations have taken them. -/
theorem run_ids (operations : List MarketOperation)
    (requested : ∀ operation ∈ operations, operation.bringsId = false) (tidy : market.Tidy)
    (kept : List OrderId) (held : ((ordersOf market.books).map (·.id)).Subperm kept) :
    let taken := market.nextId.take (operations.countP (·.takesId))
    let run := market.performAll operations
    run.1.nextId = taken.2 ∧ ((ordersOf run.1.books).map (·.id)).Subperm (kept ++ taken.1) ∧
      ∀ report ∈ run.2.flatMap (·.reports),
        report.kind.isRefusal = true ∨ report.order ∈ kept ++ taken.1 := by
  induction operations generalizing market kept with
  | nil =>
    intro taken run
    simp only [taken, run, performAll, List.countP_nil, OrderId.take, List.append_nil,
      List.flatMap_nil, List.not_mem_nil, false_imp_iff, implies_true, and_true]
    exact ⟨trivial, held⟩
  | cons operation operations induction =>
    intro taken run
    obtain ⟨first, others⟩ := List.forall_mem_cons.mp requested
    have acts := perform_acts tidy.orderly operation
    have brought : ((operation.arrivals market ++ ordersOf market.books).map (·.id)).Subperm
        (kept ++ (market.taken operation).1) := by
      rw [List.map_append]
      exact ((arrivals_taken first).subperm.append held).trans List.perm_append_comm.subperm
    obtain ⟨next, holds, reported⟩ := induction others (tidy.perform operation) _
      ((acts.held tidy.shelved).trans brought)
    have all : taken = ((market.taken operation).1 ++
        ((market.perform operation).1.nextId.take (operations.countP (·.takesId))).1,
        ((market.perform operation).1.nextId.take (operations.countP (·.takesId))).2) := by
      rw [next_id_perform, Market.taken, ← OrderId.take_add, Nat.add_comm, ← List.countP_cons]
    rw [all, ← List.append_assoc]
    refine ⟨next, holds, ?_⟩
    simp only [run, performAll, List.flatMap_cons]
    refine List.forall_mem_append.mpr ⟨?_, reported⟩
    intro report member
    refine (acts.told tidy.shelved report member).imp_right fun known => ?_
    exact List.mem_append_left _ (brought.subset known)

end Identifiers

/-- What holds of a market at any time. -/
structure Consistent (market : Market) : Prop where
  /-- A book is open exactly if the market is. -/
  active : ∀ book ∈ market.books, book.isActive = market.isActive
  /-- A closed book has no order in any of its queues. -/
  empty : ∀ book ∈ market.books, book.isActive = false → book.orders = []
  /-- No two books bear one security. -/
  distinct : (market.books.map (·.security)).Nodup
  /-- A book holds orders of its own security. -/
  filed : ∀ book ∈ market.books, ∀ order ∈ book.orders, order.security = book.security
  /-- The securities that are listed are those of the books. -/
  listed : market.securities.Perm (market.books.map (·.security))
  /-- Securities are listed in the order of their bytes. -/
  ascending : (market.securities.map Text.utf8).Pairwise (· < ·)
  /-- No identifier is held twice in the queues of all books together. -/
  unique : ((market.books.flatMap Book.orders).map (·.id)).Nodup

section Runs

variable {market : Market}

/-- What every operation keeps, a run keeps. -/
theorem run_uniform (operations : List MarketOperation) (tidy : market.Tidy)
    (uniform : market.Uniform) :
    (market.performAll operations).1.Tidy ∧ (market.performAll operations).1.Uniform := by
  induction operations generalizing market with
  | nil => exact ⟨tidy, uniform⟩
  | cons operation operations induction =>
    exact induction (tidy.perform operation)
      ((perform_acts tidy.orderly operation).uniform uniform)

/-- A market with its books filed and its orders unique is consistent if its books are open or
closed with it. -/
theorem Uniform.consistent (uniform : market.Uniform) (tidy : market.Tidy)
    (unique : ((ordersOf market.books).map (·.id)).Nodup) : market.Consistent where
  active := uniform.active
  empty := by
    intro book member closed
    rw [uniform.active book member] at closed
    exact List.flatMap_eq_nil_iff.mp (uniform.empty closed) book member
  distinct := tidy.orderly.distinct
  filed := tidy.shelved
  listed := market.securities_perm
  ascending := securities_ascend tidy.orderly.distinct
  unique := unique

/-- An order is the only one with its identifier where no identifier is there twice. -/
theorem only_order {orders : List Order} (unique : (orders.map (·.id)).Nodup) {order : Order}
    (held : order ∈ orders) : orders.filter (·.id == order.id) = [order] := by
  obtain ⟨front, back, rfl⟩ := List.append_of_mem held
  rw [List.map_append, List.map_cons, List.nodup_middle, ← List.map_append, List.nodup_cons]
    at unique
  have apart (others : List Order) (inside : ∀ other ∈ others, other ∈ front ++ back) :
      others.filter (·.id == order.id) = [] := by
    refine List.filter_eq_nil_iff.mpr fun other member same => unique.1 ?_
    exact List.mem_map.mpr ⟨other, inside other member, eq_of_beq same⟩
  rw [List.filter_append, List.filter_cons, beq_self_eq_true, if_pos rfl,
    apart front fun _ => List.mem_append_left _, apart back fun _ => List.mem_append_right _]
  rfl

/-- A market that closes reports once on every order that it held. -/
theorem stop_reports_each (unique : ((ordersOf market.books).map (·.id)).Nodup) {order : Order}
    (held : order ∈ ordersOf market.books) :
    reportsOn order.id market.stop.2 = [Report.of .cancelled order Reason.closing.text] := by
  have concerns : (Report.concerns order.id ∘ fun other : Order =>
      Report.of .cancelled other Reason.closing.text) = fun other => other.id == order.id := by
    funext other
    exact Bool.and_true _
  rw [reports_of_stop, Book.closingReports, reportsOn, List.filter_map, concerns,
    only_order unique held]
  rfl

end Runs

/-- Whatever operations a market goes through, as long as orders come as requests and no
identifier has returned, the market is consistent. If it closes then, it reports each order that
it holds as cancelled because it closes, once and in the order of the books, and reports nothing
else. None of these orders is reported on again, whatever comes later, unless a request for it is
refused. -/
theorem run_consistent (firstId : OrderId) (capacity : Nat)
    (operations later : List MarketOperation)
    (requested : ∀ operation ∈ operations ++ later, operation.bringsId = false)
    (few : (operations ++ later).countP (·.takesId) ≤ Word.limit) :
    let market := ((opened firstId capacity).performAll operations).1
    let closed := market.perform .stop
    let run := closed.1.performAll later
    market.Consistent ∧
      closed.2.reports = Book.closingReports (market.books.flatMap Book.orders) ∧
      ∀ order ∈ market.books.flatMap Book.orders,
        reportsOn order.id closed.2.reports =
            [Report.of .cancelled order Reason.closing.text] ∧
          reportsOn order.id (run.2.flatMap (·.reports)) = [] := by
  intro market closed run
  obtain ⟨early, late⟩ := List.forall_mem_append.mp requested
  have begun := tidy_opened firstId capacity
  obtain ⟨tidy, uniform⟩ := run_uniform operations begun ⟨by simp [opened], fun _ => rfl⟩
  obtain ⟨next, held, -⟩ := run_ids operations early begun [] List.nil_subperm
  obtain ⟨-, -, reported⟩ := run_ids later late (tidy.perform .stop) []
    (by rw [perform, orders_of_stop]; exact List.nil_subperm)
  -- what is held has been given out, and what is reported later is given out later
  rw [List.countP_append] at few
  have given := firstId.nodup_take few
  rw [OrderId.take_add, List.nodup_append'] at given
  obtain ⟨distinct, -, apart⟩ := given
  have unique : ((ordersOf market.books).map (·.id)).Nodup := by
    obtain ⟨same, perm, part⟩ := held
    exact perm.nodup_iff.mp (distinct.sublist part)
  refine ⟨uniform.consistent tidy unique, market.reports_of_stop, ?_⟩
  intro order member
  refine ⟨stop_reports_each unique member, ?_⟩
  refine List.filter_eq_nil_iff.mpr fun report sent concerned => ?_
  obtain ⟨same, unrefused⟩ := Bool.and_eq_true_iff.mp concerned
  rcases reported report sent with refusal | known
  · rw [refusal] at unrefused
    contradiction
  · have old : order.id ∈ (firstId.take (operations.countP (·.takesId))).1 :=
      held.subset (List.mem_map_of_mem member)
    rw [eq_of_beq same] at known
    have spent : market.nextId = (firstId.take (operations.countP (·.takesId))).2 := next
    refine apart old ?_
    rw [← spent]
    exact known

/-- A morning on which three orders come in for two securities, one of them to wait for a stop
price, and one request is no order. -/
def twoOpenBooks : List MarketOperation :=
  [.submit ⟨"B", "a", "", .sell, .limit, 5, some 10, none, .day, none⟩,
   .submit ⟨"A", "b", "", .buy, .limit, 5, none, none, .day, none⟩,
   .submit ⟨"A", "c", "", .buy, .stop, 3, none, some 12, .day, none⟩,
   .submit ⟨"B", "d", "", .buy, .limit, 2, some 10, none, .day, none⟩]

/-- The market opens again, and one of the orders that it cancelled is named by a request. -/
def secondOpening : List MarketOperation :=
  [.start, .cancel { (default : Order) with id := ⟨1⟩, security := "B", side := .sell },
   .submit ⟨"B", "e", "", .buy, .limit, 2, some 11, none, .day, none⟩, .stop]

end Market

end Bourse
