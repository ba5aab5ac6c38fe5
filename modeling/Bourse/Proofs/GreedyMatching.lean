import Bourse.Proofs.QuantityChanges
import Mathlib.Algebra.Order.BigOperators.Group.List
import Mathlib.Algebra.Order.Group.Int
import Mathlib.Algebra.Ring.Int.Defs

/-!
# Greedy matching

Where no stop order is parked, a new order takes all it can of the orders of the other flow: of
the first ones, as long as it accepts their prices, everything that they have left, shown or
not, and of the last of them perhaps a part. Then either nothing is left of the new order, or
no order that it accepts a price of.

What is taken of one resting order is a `Taking`. It may be cut into slices by what the two
orders show, so that an execution is a row of slices, and the takings are found from its end: a
trade is one slice more in front of what the rest of the execution takes. It belongs to the
first taking there, if it left something of the resting order, and is a taking by itself if it
did not. That the takings come to the smaller of the two totals is seen only once the order
finds nothing more to trade with.
-/

namespace Bourse

/-- A trade with a resting order: the order as it was before, and the quantity. -/
structure Exchange where
  maker : Queue.Entry
  quantity : Int
  deriving DecidableEq, Repr

namespace Exchange

/-- A trade is at the price of the resting order. -/
def price (exchange : Exchange) : Int := exchange.maker.order.price

/-- Trades with one resting order in a row. -/
def inSlices : Queue.Entry → List Int → List Exchange
  | _, [] => []
  | maker, slice :: later => ⟨maker, slice⟩ :: inSlices (maker.afterFill slice) later

/-- An order after trades with resting orders, each at the price of the resting one. -/
def fillAll (taker : Order) (exchanges : List Exchange) : Order :=
  exchanges.foldl (fun taker exchange => taker.fill exchange.price exchange.quantity) taker

/-- A record after trades with resting orders. -/
def recordAll (record : Record) (exchanges : List Exchange) : Record :=
  exchanges.foldl (fun record exchange => record.trade exchange.price exchange.quantity) record

/-- The fills that an order's trades with resting orders report. -/
def fillsOfAll : Order → List Exchange → List Report
  | _, [] => []
  | taker, exchange :: later =>
    Book.fillsOf taker exchange.maker.order exchange.quantity ++
      fillsOfAll (taker.fill exchange.price exchange.quantity) later

/-- What no fill changes is the same after any number of them. -/
theorem fill_all_kept {α : Type} (part : Order → α)
    (kept : ∀ order price quantity, part (order.fill price quantity) = part order)
    (taker : Order) (exchanges : List Exchange) : part (fillAll taker exchanges) = part taker := by
  induction exchanges generalizing taker with
  | nil => rfl
  | cons exchange later induction => exact (induction _).trans (kept ..)

end Exchange

/-- What is taken of one resting order. -/
structure Taking where
  /-- The order as it was before. -/
  maker : Queue.Entry
  /-- The quantities of the trades with it. -/
  slices : List Int
  deriving DecidableEq, Repr

namespace Taking

/-- All that is taken of the order. -/
def quantity (taking : Taking) : Int := taking.slices.sum

/-- The trades with the order. -/
def exchanges (taking : Taking) : List Exchange := Exchange.inSlices taking.maker taking.slices

/-- The order afterwards, in its place. -/
def after (taking : Taking) : Queue.Entry :=
  taking.slices.foldl Queue.Entry.afterFill taking.maker

/-- All that the order had left was taken. -/
def IsWhole (taking : Taking) : Prop := taking.quantity = taking.maker.order.unfilled

instance isWholeDecidable (taking : Taking) : Decidable taking.IsWhole :=
  inferInstanceAs (Decidable (_ = _))

/-- What stays in the queue: nothing of an order that was taken as a whole. -/
def leftover (taking : Taking) : Option Queue.Entry :=
  if taking.IsWhole then none else some taking.after

/-- The quantity that takings come to. -/
def total (takings : List Taking) : Int := (takings.map quantity).sum

/-- What the first taking takes comes on top of the others. -/
theorem total_cons (taking : Taking) (later : List Taking) :
    total (taking :: later) = taking.quantity + total later := List.sum_cons

/-- The trades of takings, one taking after another. -/
def allExchanges (takings : List Taking) : List Exchange := takings.flatMap exchanges

/-- Something is taken with every trade, and no more than is left. -/
structure Fits (taking : Taking) : Prop where
  traded : taking.slices ≠ []
  positive : ∀ slice ∈ taking.slices, 0 < slice
  bounded : taking.quantity ≤ taking.maker.order.unfilled

/-- What stays of an order keeps its price. -/
theorem price_after (taking : Taking) :
    taking.after.order.price = taking.maker.order.price := by
  obtain ⟨maker, slices⟩ := taking
  induction slices generalizing maker with
  | nil => rfl
  | cons slice later induction => exact induction (maker.afterFill slice)

section More

variable {maker : Queue.Entry} {slice : Int} {next : Taking}

/-- A taking of one slice takes that slice. -/
theorem quantity_one (maker : Queue.Entry) (slice : Int) :
    (⟨maker, [slice]⟩ : Taking).quantity = slice := List.sum_singleton

/-- One slice takes an order as a whole, or does not. -/
theorem whole_one_iff (maker : Queue.Entry) (slice : Int) :
    (⟨maker, [slice]⟩ : Taking).IsWhole ↔ slice = maker.order.unfilled := by
  rw [IsWhole, quantity_one]

/-- One slice of a resting order. -/
theorem fits_one (positive : 0 < slice) (bounded : slice ≤ maker.order.unfilled) :
    (⟨maker, [slice]⟩ : Taking).Fits where
  traded := List.cons_ne_nil _ _
  positive := List.forall_mem_singleton.mpr positive
  bounded := by rwa [quantity_one]

/-- A slice more, before what is taken of an order anyway. -/
theorem quantity_more (maker : Queue.Entry) (slice : Int) (next : Taking) :
    (⟨maker, slice :: next.slices⟩ : Taking).quantity = slice + next.quantity := List.sum_cons

/-- What an order has left after a slice. -/
theorem unfilled_after_slice (bounded : slice ≤ maker.order.unfilled) :
    (maker.afterFill slice).order.unfilled = maker.order.unfilled - slice :=
  maker.order.unfilled_fill maker.order.price slice bounded

/-- After a slice more, the same is taken as a whole or not. -/
theorem whole_more_iff (bounded : slice ≤ maker.order.unfilled)
    (same : next.maker = maker.afterFill slice) :
    (⟨maker, slice :: next.slices⟩ : Taking).IsWhole ↔ next.IsWhole := by
  have left := unfilled_after_slice bounded
  simp only [IsWhole, quantity_more, same, left]
  omega

/-- A slice in front of a taking that fits what is left after it fits as well. -/
theorem Fits.more (fits : next.Fits) (positive : 0 < slice)
    (bounded : slice ≤ maker.order.unfilled) (same : next.maker = maker.afterFill slice) :
    (⟨maker, slice :: next.slices⟩ : Taking).Fits where
  traded := List.cons_ne_nil _ _
  positive := List.forall_mem_cons.mpr ⟨positive, fits.positive⟩
  bounded := by
    have left := unfilled_after_slice bounded
    have within := fits.bounded
    rw [same, left] at within
    rw [quantity_more]
    exact Int.add_le_of_le_sub_left within

/-- After a slice more, the same stays of the order. -/
theorem leftover_more (bounded : slice ≤ maker.order.unfilled)
    (same : next.maker = maker.afterFill slice) :
    (⟨maker, slice :: next.slices⟩ : Taking).leftover = next.leftover := by
  have after : (⟨maker, slice :: next.slices⟩ : Taking).after = next.after := by
    rw [Taking.after, Taking.after, same]
    rfl
  simp only [leftover, whole_more_iff bounded same, after]

/-- Its exchange comes before the others. -/
theorem exchanges_more (same : next.maker = maker.afterFill slice) :
    (⟨maker, slice :: next.slices⟩ : Taking).exchanges = ⟨maker, slice⟩ :: next.exchanges := by
  rw [exchanges, exchanges, same]
  rfl

end More

end Taking

namespace Queue

/-- What is left of the orders of entries, shown or not. -/
def unfilledOf (entries : List Entry) : Int := (entries.map (·.order.unfilled)).sum

/-- The entries whose prices an order accepts. -/
def acceptedBy (taker : Order) (entries : List Entry) : List Entry :=
  entries.filter fun entry => taker.accepts entry.order.price

/-- Of orders none of which is overfilled, no less than nothing is left together. -/
theorem unfilled_nonneg {entries : List Entry}
    (left : ∀ entry ∈ entries, 0 ≤ entry.order.unfilled) : 0 ≤ unfilledOf entries := by
  refine List.sum_nonneg fun quantity member => ?_
  obtain ⟨entry, present, rfl⟩ := List.mem_map.mp member
  exact left entry present

/-- The entries of a queue of orders stand by their keys and then by arrival. -/
theorem Keeps.by_key_and_arrival {direction : Direction} {queue : Queue direction}
    {key : Order → Int} {law : Order → Prop} (keeps : queue.Keeps key law) :
    queue.entries.Pairwise fun first second =>
      direction.better (key first.order) (key second.order) = true ∨
        key first.order = key second.order ∧ first.arrival < second.arrival := by
  refine keeps.ordered.sorted.imp_of_mem fun {first second} member present ahead => ?_
  rw [← keeps.keyed first member, ← keeps.keyed second present]
  exact (Entry.ahead_iff ..).mp ahead

end Queue

/-- What an order takes of the entries of a queue, and the entries behind. -/
structure Takes (taker : Order) (entries : List Queue.Entry) (takings : List Taking)
    (untouched : List Queue.Entry) : Prop where
  /-- It takes of the first entries. -/
  entries : entries = takings.map Taking.maker ++ untouched
  /-- It accepts their prices. -/
  accepted : ∀ taking ∈ takings, taker.accepts taking.maker.order.price = true
  /-- It takes something of each of them, and no more than is left of it. -/
  fit : ∀ taking ∈ takings, taking.Fits
  /-- It takes all that is left of each of them but the last. -/
  whole : ∀ taking ∈ takings.dropLast, taking.IsWhole
  /-- It takes no more than is left of itself. -/
  bounded : Taking.total takings ≤ taker.unfilled

/-- Takings, and the entries behind them, that have a slice in front of others: the same stays in
the queue. -/
structure Taking.Prepends (maker : Queue.Entry) (slice : Int) (takings : List Taking)
    (untouched : List Queue.Entry) (more : List Taking) (rest : List Queue.Entry) : Prop where
  exchanges : allExchanges more = ⟨maker, slice⟩ :: allExchanges takings
  total : total more = slice + total takings
  stays : more.filterMap leftover ++ rest = takings.filterMap leftover ++ untouched

namespace Takes

/-- Nothing is taken. -/
theorem nothing {taker : Order} (entries : List Queue.Entry) (left : 0 ≤ taker.unfilled) :
    Takes taker entries [] entries where
  entries := rfl
  accepted := by simp
  fit := by simp
  whole := by simp
  bounded := left

/-- All takings but the last one are the first of them, unless it is the only one, and all but the
last one of the others. -/
theorem mem_drop_last {first taking : Taking} {later : List Taking}
    (member : taking ∈ (first :: later).dropLast) :
    later ≠ [] ∧ (taking = first ∨ taking ∈ later.dropLast) := by
  cases later with
  | nil => simp at member
  | cons second others => exact ⟨List.cons_ne_nil _ _, List.mem_cons.mp member⟩

section More

variable {taker : Order} {maker : Queue.Entry} {behind untouched : List Queue.Entry}
  {takings : List Taking} {slice : Int}

/-- A slice that takes an order as a whole is a taking of its own. -/
theorem after_whole (accepted : taker.accepts maker.order.price = true) (positive : 0 < slice)
    (ofTaker : slice ≤ taker.unfilled) (whole : slice = maker.order.unfilled)
    (takes : Takes (taker.fill maker.order.price slice) behind takings untouched) :
    Takes taker (maker :: behind) (⟨maker, [slice]⟩ :: takings) untouched where
  entries := by rw [takes.entries, List.map_cons, List.cons_append]
  accepted := List.forall_mem_cons.mpr ⟨accepted, takes.accepted⟩
  fit := List.forall_mem_cons.mpr
    ⟨Taking.fits_one positive (Int.le_of_eq whole), takes.fit⟩
  whole := by
    intro taking member
    rcases (mem_drop_last member).2 with rfl | others
    · exact (Taking.whole_one_iff ..).mpr whole
    · exact takes.whole taking others
  bounded := by
    have within := takes.bounded
    rw [taker.unfilled_fill _ _ ofTaker] at within
    rw [Taking.total_cons, Taking.quantity_one]
    exact Int.add_le_of_le_sub_left within

/-- If nothing more is taken, a slice of an order is the only taking. -/
theorem only_slice (accepted : taker.accepts maker.order.price = true) (positive : 0 < slice)
    (ofTaker : slice ≤ taker.unfilled) (ofMaker : slice ≤ maker.order.unfilled) :
    Takes taker (maker :: behind) [⟨maker, [slice]⟩] behind where
  entries := rfl
  accepted := List.forall_mem_singleton.mpr accepted
  fit := List.forall_mem_singleton.mpr (Taking.fits_one positive ofMaker)
  whole := by simp
  bounded := by rwa [Taking.total, List.map_singleton, List.sum_singleton, Taking.quantity_one]

/-- A slice that leaves something of an order is of the taking that follows. -/
theorem after_slice {next : Taking} {later : List Taking} (positive : 0 < slice)
    (ofTaker : slice ≤ taker.unfilled) (ofMaker : slice ≤ maker.order.unfilled)
    (takes : Takes (taker.fill maker.order.price slice) (maker.afterFill slice :: behind)
      (next :: later) untouched) :
    next.maker = maker.afterFill slice ∧
      Takes taker (maker :: behind) (⟨maker, slice :: next.slices⟩ :: later) untouched := by
  obtain ⟨same, others⟩ := List.cons.inj takes.entries
  obtain ⟨first, accepted⟩ := List.forall_mem_cons.mp takes.accepted
  obtain ⟨fits, fit⟩ := List.forall_mem_cons.mp takes.fit
  refine ⟨same.symm, ?entries, ?accepted, ?fit, ?whole, ?bounded⟩
  case entries => exact congrArg (maker :: ·) others
  case accepted =>
    rw [← same] at first
    exact List.forall_mem_cons.mpr ⟨first, accepted⟩
  case fit => exact List.forall_mem_cons.mpr ⟨fits.more positive ofMaker same.symm, fit⟩
  case whole =>
    intro taking member
    obtain ⟨more, which⟩ := mem_drop_last member
    have wholes := takes.whole
    rw [List.dropLast_cons_of_ne_nil more] at wholes
    rcases which with rfl | others
    · exact (Taking.whole_more_iff ofMaker same.symm).mpr (wholes next List.mem_cons_self)
    · exact wholes taking (List.mem_cons_of_mem next others)
  case bounded =>
    have within := takes.bounded
    rw [taker.unfilled_fill _ _ ofTaker, Taking.total_cons] at within
    rw [Taking.total_cons, Taking.quantity_more, Int.add_assoc]
    exact Int.add_le_of_le_sub_left within

/-- A trade with the first entry is one slice in front of what is taken afterwards. -/
theorem more (accepted : taker.accepts maker.order.price = true) (positive : 0 < slice)
    (ofTaker : slice ≤ taker.unfilled) (ofMaker : slice ≤ maker.order.unfilled)
    (takes : Takes (taker.fill maker.order.price slice)
      (Queue.filledFirst maker behind maker.order.price slice) takings untouched) :
    ∃ more rest, Takes taker (maker :: behind) more rest ∧
      Taking.Prepends maker slice takings untouched more rest := by
  have left := Taking.unfilled_after_slice ofMaker
  have gone : (maker.order.fill maker.order.price slice).pending = 0 ↔
      slice = maker.order.unfilled := by
    rw [Order.pending_eq_zero_iff]
    change (maker.afterFill slice).order.unfilled = 0 ↔ _
    omega
  -- the order leaves the queue with the trade, or it is the first one of what follows
  by_cases whole : slice = maker.order.unfilled
  · rw [Queue.filledFirst, if_pos (gone.mpr whole)] at takes
    have taken : (⟨maker, [slice]⟩ : Taking).leftover = none :=
      if_pos ((Taking.whole_one_iff ..).mpr whole)
    refine ⟨_, _, takes.after_whole accepted positive ofTaker whole, rfl, ?_, ?_⟩
    · rw [Taking.total_cons, Taking.quantity_one]
    · rw [List.filterMap_cons_none taken]
  · rw [Queue.filledFirst, if_neg (mt gone.mp whole)] at takes
    cases takings with
    | nil =>
      have stays : (⟨maker, [slice]⟩ : Taking).leftover = some (maker.afterFill slice) :=
        if_neg (mt (Taking.whole_one_iff ..).mp whole)
      refine ⟨_, _, only_slice accepted positive ofTaker ofMaker, rfl, ?_, ?_⟩
      · rw [Taking.total_cons, Taking.quantity_one]
      · rw [List.filterMap_cons_some stays]
        exact takes.entries
    | cons next later =>
      obtain ⟨same, taken⟩ := takes.after_slice positive ofTaker ofMaker
      refine ⟨_, _, taken, ?_, ?_, ?_⟩
      · rw [Taking.allExchanges, List.flatMap_cons, Taking.exchanges_more same]
        rfl
      · rw [Taking.total_cons, Taking.total_cons, Taking.quantity_more, Int.add_assoc]
      · simp only [List.filterMap_cons, Taking.leftover_more ofMaker same]

end More

section Total

open Queue (unfilledOf acceptedBy)

variable {taker : Order} {entries untouched : List Queue.Entry} {takings : List Taking}

/-- The entries that an order accepts are those it takes, and some of the others. -/
theorem accepted_entries (takes : Takes taker entries takings untouched) :
    acceptedBy taker entries = takings.map Taking.maker ++ acceptedBy taker untouched := by
  have makers : acceptedBy taker (takings.map Taking.maker) = takings.map Taking.maker := by
    refine List.filter_eq_self.mpr fun entry member => ?_
    obtain ⟨taking, present, rfl⟩ := List.mem_map.mp member
    exact takes.accepted taking present
  rw [takes.entries, acceptedBy, List.filter_append]
  exact congrArg (· ++ _) makers

/-- If what stays is not accepted, everything that is taken is taken as a whole. -/
theorem all_whole (takes : Takes taker entries takings untouched)
    (refused : ∀ entry ∈ takings.filterMap Taking.leftover,
      taker.accepts entry.order.price = false) : ∀ taking ∈ takings, taking.IsWhole := by
  intro taking member
  by_contra part
  have stays : taking.leftover = some taking.after := if_neg part
  have no := refused _ (List.mem_filterMap.mpr ⟨taking, member, stays⟩)
  rw [taking.price_after, takes.accepted taking member] at no
  contradiction

/-- An order that takes all that is left of it, or leaves nothing that it accepts, takes the
smaller one of what is left of it and of what is left of the entries that it accepts. -/
theorem total_eq (takes : Takes taker entries takings untouched)
    (left : ∀ entry ∈ entries, 0 ≤ entry.order.unfilled)
    (ends : Taking.total takings < taker.unfilled →
      ∀ entry ∈ takings.filterMap Taking.leftover ++ untouched,
        taker.accepts entry.order.price = false) :
    Taking.total takings = min taker.unfilled (unfilledOf (acceptedBy taker entries)) := by
  have accepted : unfilledOf (acceptedBy taker entries) =
      unfilledOf (takings.map Taking.maker) + unfilledOf (acceptedBy taker untouched) := by
    rw [takes.accepted_entries, unfilledOf, List.map_append, List.sum_append]
    rfl
  have makers : unfilledOf (takings.map Taking.maker) =
      (takings.map (·.maker.order.unfilled)).sum := by
    rw [unfilledOf, List.map_map]
    rfl
  have within := takes.bounded
  by_cases more : Taking.total takings < taker.unfilled
  · have refused := ends more
    have whole := takes.all_whole fun entry member =>
      refused entry (List.mem_append_left _ member)
    have others : acceptedBy taker untouched = [] := by
      refine List.filter_eq_nil_iff.mpr fun entry member => ?_
      simp [refused entry (List.mem_append_right _ member)]
    have all : Taking.total takings = (takings.map (·.maker.order.unfilled)).sum :=
      congrArg List.sum (List.map_congr_left whole)
    rw [accepted, others, makers, ← all]
    simp only [unfilledOf, List.map_nil, List.sum_nil]
    omega
  · have most : Taking.total takings ≤ (takings.map (·.maker.order.unfilled)).sum :=
      List.sum_le_sum fun taking member => (takes.fit taking member).bounded
    have others : 0 ≤ unfilledOf (acceptedBy taker untouched) := by
      refine Queue.unfilled_nonneg fun entry member => left entry ?_
      rw [takes.entries]
      exact List.mem_append_right _ (List.mem_of_mem_filter member)
    omega

end Total

end Takes

namespace Book

section Sweeps

/-- The book after takings from the queue where a flow rests: what stays of them is in front of
the entries behind them. -/
def swept (book : Book) (flow : Flow) (takings : List Taking) (untouched : List Queue.Entry) :
    Book :=
  book.withEntries flow (takings.filterMap Taking.leftover ++ untouched)
    (Exchange.recordAll book.record (Taking.allExchanges takings))

/-- An execution that begins with takings from the other flow, and then finds nothing more to
trade with. -/
structure Sweeps (book : Book) (taker : Order) (takings : List Taking)
    (untouched : List Queue.Entry) : Prop where
  takes : Takes taker (book.resting taker.flow.contra).entries takings untouched
  sound : (book.swept taker.flow.contra takings untouched).Sound
  filled : (Exchange.fillAll taker (Taking.allExchanges takings)).filled =
    taker.filled + Taking.total takings
  stuck : (book.swept taker.flow.contra takings untouched).tradeOnce
    (Exchange.fillAll taker (Taking.allExchanges takings)) = none
  executed : book.execute taker =
    let result := (book.swept taker.flow.contra takings untouched).execute
      (Exchange.fillAll taker (Taking.allExchanges takings))
    (result.1, Exchange.fillsOfAll taker (Taking.allExchanges takings) ++ result.2)

variable {book : Book} {taker : Order}

/-- A book that nothing is swept from stays as it is. -/
theorem swept_nothing (book : Book) (flow : Flow) :
    book.swept flow [] (book.resting flow).entries = book := by
  cases flow <;> rfl

/-- An order that finds nothing to trade with takes nothing. -/
theorem sweeps_nothing (sound : book.Sound) (left : 0 ≤ taker.unfilled)
    (stuck : book.tradeOnce taker = none) :
    book.Sweeps taker [] (book.resting taker.flow.contra).entries where
  takes := .nothing _ left
  sound := by rwa [swept_nothing]
  filled := (Int.add_zero _).symm
  stuck := by rwa [swept_nothing]
  executed := by rw [swept_nothing]; rfl

/-- A trade is one slice in front of what the rest of the execution takes. -/
theorem Sweeps.after_trade {maker : Queue.Entry} {behind : List Queue.Entry}
    (meets : book.Meets taker maker behind)
    (unparked : ∀ flow, ((book.traded taker maker behind).parked flow).entries = [])
    {takings : List Taking} {untouched : List Queue.Entry}
    (sweeps : (book.traded taker maker behind).Sweeps
      (taker.fill maker.order.price (tradedQuantity taker maker.order)) takings untouched) :
    ∃ more rest, book.Sweeps taker more rest := by
  obtain ⟨positive, ofTaker, ofMaker⟩ := meets.bounded
  have entries : ((book.traded taker maker behind).resting taker.flow.contra).entries =
      Queue.filledFirst maker behind maker.order.price (tradedQuantity taker maker.order) := by
    rw [traded, resting_with_record, resting_with_resting]
  have takes : Takes (taker.fill maker.order.price (tradedQuantity taker maker.order))
      ((book.traded taker maker behind).resting taker.flow.contra).entries takings untouched :=
    sweeps.takes
  rw [entries] at takes
  obtain ⟨more, rest, taken, before⟩ := takes.more meets.accepted positive ofTaker ofMaker
  -- the book that the rest of the execution leaves behind does not depend on the slice
  have same : (book.traded taker maker behind).swept taker.flow.contra takings untouched =
      book.swept taker.flow.contra more rest := by
    rw [swept, swept, before.stays, before.exchanges]
    exact with_entries_twice ..
  have order : Exchange.fillAll taker (Taking.allExchanges more) =
      Exchange.fillAll (taker.fill maker.order.price (tradedQuantity taker maker.order))
        (Taking.allExchanges takings) := by
    rw [before.exchanges]
    rfl
  have traded := (trade_once_iff ..).mpr ⟨maker, behind, meets, rfl, rfl, rfl⟩
  refine ⟨more, rest, ?takes, ?sound, ?filled, ?stuck, ?executed⟩
  case takes => rwa [meets.first]
  case sound => exact same ▸ sweeps.sound
  case filled =>
    rw [order, sweeps.filled, before.total, Order.fill_eq _ _ _ ofTaker]
    exact Int.add_assoc ..
  case stuck => exact order ▸ same ▸ sweeps.stuck
  case executed =>
    rw [execute_traded unparked traded, sweeps.executed, order, ← same, before.exchanges,
      ← List.append_assoc]
    rfl

/-- Where no stop order is parked, every execution takes what it can of the other flow, and then
finds nothing more to trade with. -/
theorem Sound.sweeps (sound : book.Sound) (unparked : ∀ flow, (book.parked flow).entries = [])
    (left : 0 ≤ taker.unfilled) : ∃ takings untouched, book.Sweeps taker takings untouched := by
  generalize size : taker.unfilled.toNat = count
  induction count using Nat.strongRecOn generalizing book taker with
  | ind count induction =>
    cases trade : book.tradeOnce taker with
    | none => exact ⟨_, _, sweeps_nothing sound left trade⟩
    | some result =>
      obtain ⟨maker, behind, meets, -⟩ := (trade_once_iff ..).mp trade
      obtain ⟨positive, ofTaker, -⟩ := meets.bounded
      have remains := taker.unfilled_fill maker.order.price _ ofTaker
      have still (flow : Flow) : ((book.traded taker maker behind).parked flow).entries = [] := by
        rw [Book.traded, parked_with_record, parked_with_resting]
        exact unparked flow
      obtain ⟨takings, untouched, sweeps⟩ := induction _ (by omega) (sound.traded meets) still
        (by omega : 0 ≤ (taker.fill maker.order.price (tradedQuantity taker maker.order)).unfilled)
        rfl
      exact sweeps.after_trade meets still

end Sweeps

/-- What a sweep fills is filled of its order. -/
theorem Sweeps.unfilled {book : Book} {taker : Order} {takings : List Taking}
    {untouched : List Queue.Entry} (sweeps : book.Sweeps taker takings untouched) :
    (Exchange.fillAll taker (Taking.allExchanges takings)).unfilled =
      taker.unfilled - Taking.total takings := by
  have quantity := Exchange.fill_all_kept Order.quantity (fun _ _ _ => rfl) taker
    (Taking.allExchanges takings)
  rw [Order.unfilled, quantity, sweeps.filled, Order.unfilled, Int.sub_sub]

/-- An order that has something left after a sweep accepts nothing that the sweep leaves. -/
theorem Sweeps.refuses {book : Book} {taker : Order} {takings : List Taking}
    {untouched : List Queue.Entry} (sweeps : book.Sweeps taker takings untouched)
    (more : Taking.total takings < taker.unfilled) :
    ∀ entry ∈ takings.filterMap Taking.leftover ++ untouched,
      taker.accepts entry.order.price = false := by
  have left : 0 < (Exchange.fillAll taker (Taking.allExchanges takings)).unfilled := by
    rw [sweeps.unfilled]
    exact Int.sub_pos.mpr more
  have flow := Exchange.fill_all_kept Order.flow (fun _ _ _ => rfl) taker
    (Taking.allExchanges takings)
  have accepts := Exchange.fill_all_kept Order.accepts (fun _ _ _ => rfl) taker
    (Taking.allExchanges takings)
  have refused := stuck_refuses sweeps.sound sweeps.stuck left
  rw [flow, accepts, swept, withEntries, resting_with_record, resting_with_resting] at refused
  exact refused

/-- What becomes of what is left of a new order in the book after its trades: the book after it,
which is marked as changed, and what is reported. -/
inductive Remainder (book : Book) (left : Order) : Book × List Report → Prop where
  /-- Nothing is left. -/
  | spent (filled : left.unfilled = 0) : Remainder book left ({ book with hasChanged := true }, [])
  /-- An immediate order is cancelled. -/
  | expired (more : 0 < left.unfilled) (immediate : left.timeInForce = .immediateOrCancel) :
    Remainder book left ({ book with hasChanged := true },
      [Report.of .cancelled left Reason.notImmediate.text])
  /-- A limit order joins its side behind all that are no worse. Whatever rests there under its
  own identifier is not another order, and leaves its place. -/
  | joined (more : 0 < left.unfilled) (day : left.timeInForce = .day)
    (limit : left.type = .limit) : Remainder book left (book.withAtBack left.flow left, [])
  /-- A market order joins its side in the same way, as a limit order at the last price. -/
  | restated (more : 0 < left.unfilled) (day : left.timeInForce = .day)
    (market : left.type = .market) (traded : book.record.hasTraded = true) :
    Remainder book left (book.withAtBack left.flow (left.limitedAt book.record.lastPrice),
      [Report.of .restated (left.limitedAt book.record.lastPrice) ""])
  /-- A market order is cancelled if there has never been a trade. -/
  | unpriced (more : 0 < left.unfilled) (day : left.timeInForce = .day)
    (market : left.type = .market) (untraded : book.record.hasTraded = false) :
    Remainder book left ({ book with hasChanged := true },
      [Report.of .cancelled left Reason.noLastTrade.text])

/-- An order that finds nothing more to trade with is settled by what is left of it. -/
theorem Sound.remainder {book : Book} (sound : book.Sound) {left : Order}
    (live : left.type.isStop = false) (remains : 0 ≤ left.unfilled)
    (stuck : book.tradeOnce left = none) :
    book.Remainder left
      ({ (book.execute left).1 with hasChanged := true }, (book.execute left).2) := by
  rw [execute_stuck stuck]
  by_cases more : 0 < left.unfilled
  · rw [if_pos more]
    have settles := book.settles left
    generalize book.restRemainder left = settled at settles ⊢
    cases settles with
    | expired immediate => exact .expired more immediate
    | unpriced day market untraded =>
      refine .unpriced more day market ?_
      by_contra traded
      have positive := (sound.priced (eq_true_of_ne_false traded)).positive
      omega
    | restated day market priced =>
      let limited := left.limitedAt book.record.lastPrice
      have traded : book.record.hasTraded = true := by
        by_contra untraded
        have zero := sound.unpriced (eq_false_of_ne_true untraded)
        omega
      have back : ({ book.rest limited with hasChanged := true } : Book) =
          book.withAtBack left.flow limited := rest_at_back sound
      rw [back]
      exact .restated more day market traded
    | rested day limited =>
      have limit : left.type = .limit := by
        cases type : left.type <;> simp_all [OrderType.isStop]
      rw [rest_at_back sound]
      exact .joined more day limit
  · rw [if_neg more]
    exact .spent (by omega)

/-- What a new order does that trades greedily with the other flow, and the book and the reports
after it. -/
structure Greedy (book : Book) (order : Order) (takings : List Taking)
    (untouched : List Queue.Entry) (result : Book × List Report) : Prop
    extends Takes order (book.resting order.flow.contra).entries takings untouched where
  /-- The orders that it takes, and those behind, stand by price and then by arrival. -/
  priority : (takings.map Taking.maker ++ untouched).Pairwise fun first second =>
    order.flow.contra.restingDirection.better first.order.price second.order.price = true ∨
      first.order.price = second.order.price ∧ first.arrival < second.arrival
  /-- It takes its own quantity, or all that is left of the orders whose prices it accepts, if that
  is less. -/
  executed : Taking.total takings = min order.quantity
    (Queue.unfilledOf (Queue.acceptedBy order (book.resting order.flow.contra).entries))
  /-- What it takes is filled of it. -/
  filled : (Exchange.fillAll order (Taking.allExchanges takings)).filled = Taking.total takings
  /-- What it leaves of the other flow stays there, and the remainder of it is settled in that
  book. -/
  settled : ∃ after reports,
    (book.swept order.flow.contra takings untouched).Remainder
        (Exchange.fillAll order (Taking.allExchanges takings)) (after, reports) ∧
      result = (after, Report.of .new order "" ::
        (Exchange.fillsOfAll order (Taking.allExchanges takings) ++ reports))

/-- In every book that a run reaches, if it is active and no stop order is parked there, every new
order of no stop type trades greedily: it takes the smaller one of its quantity and of all that is
left of the orders whose prices it accepts, from the first of them on, every one but the last as a
whole. What it leaves of the last one keeps its place, everything else that rests stays as it is,
and what is left of the order is cancelled or comes to rest. -/
theorem new_order_trades_greedily (first : Order) (operations : List Operation) {book : Book}
    (reached : ((ofFirst first).performAll operations).1 = book) (active : book.isActive = true)
    (unparked : ∀ flow, (book.parked flow).entries = []) {order : Order}
    (live : order.type.isStop = false) (positive : 0 < order.quantity)
    (unfilled : order.filled = 0) :
    ∃ takings untouched, book.Greedy order takings untouched (book.insert order) := by
  have sound : book.Sound := reached ▸ run_sound first operations
  have whole : order.unfilled = order.quantity := by
    rw [Order.unfilled, unfilled, Int.sub_zero]
  obtain ⟨takings, untouched, sweeps⟩ :=
    sound.sweeps unparked (by omega : 0 ≤ order.unfilled)
  have takes := sweeps.takes
  have keeps := sound.resting order.flow.contra
  refine ⟨takings, untouched, takes, ?priority, ?executed, ?filled, ?settled⟩
  case priority => exact takes.entries ▸ keeps.by_key_and_arrival
  case executed =>
    have some : ∀ entry ∈ (book.resting order.flow.contra).entries, 0 ≤ entry.order.unfilled :=
      fun entry member => Int.le_of_lt (keeps.lawful entry member).left
    rw [takes.total_eq some sweeps.refuses, whole]
  case filled => rw [sweeps.filled, unfilled, Int.zero_add]
  case settled =>
    have type := Exchange.fill_all_kept Order.type (fun _ _ _ => rfl) order
      (Taking.allExchanges takings)
    have routed : book.route order = book.execute order := by simp [route, live]
    have remains : 0 ≤ (Exchange.fillAll order (Taking.allExchanges takings)).unfilled := by
      rw [sweeps.unfilled]
      exact Int.sub_nonneg.mpr takes.bounded
    refine ⟨_, _, sweeps.sound.remainder (by rwa [type]) remains sweeps.stuck, ?_⟩
    simp only [insert, active, routed, sweeps.executed, Bool.not_true, Bool.false_eq_true, if_false,
      if_neg (Int.not_le.mpr positive)]

/-- Sales of ten at ten, which show three at a time, of four at ten, and of five at eleven and at
twelve. -/
def offeredDay : List Operation :=
  let offer id price quantity disclosed : Operation :=
    .insert ⟨id⟩ ⟨"", "a", "", .sell, .limit, quantity, some price, none, .day, disclosed⟩
  [offer 1 10 10 (some 3), offer 2 10 4 none, offer 3 11 5 none, offer 4 12 5 none]

/-- A purchase of a quantity at eleven, which shows five at a time. -/
def purchaseOf (quantity : Int) : Order :=
  (Order.ofNew ⟨5⟩ ⟨"", "b", "", .buy, .limit, quantity, some 11, none, .day, some 5⟩).toOption.getD
    default

/-- A purchase of sixteen takes the first two sales and two of the third. One of thirty takes the
first three sales, and rests with eleven. -/
theorem offered_day_trades_greedily :
    let book := ((ofFirst default).performAll offeredDay).1
    let amounts (book : Book) (flow : Flow) := (book.resting flow).orders.map (·.unfilled)
    (∀ quantity ∈ [16, 30], book.isActive = true ∧ (∀ flow, (book.parked flow).entries = []) ∧
      (purchaseOf quantity).type.isStop = false ∧ 0 < (purchaseOf quantity).quantity ∧
      (purchaseOf quantity).filled = 0 ∧ ∃ takings untouched,
        book.Greedy (purchaseOf quantity) takings untouched (book.insert (purchaseOf quantity))) ∧
      amounts (book.insert (purchaseOf 16)).1 .selling = [3, 5] ∧
      amounts (book.insert (purchaseOf 16)).1 .buying = [] ∧
      amounts (book.insert (purchaseOf 30)).1 .selling = [5] ∧
      amounts (book.insert (purchaseOf 30)).1 .buying = [11] := by
  intro book amounts
  have active : book.isActive = true := by decide
  have unparked : ∀ flow, (book.parked flow).entries = [] := by
    intro flow
    cases flow <;> decide
  refine ⟨?_, by decide, by decide, by decide, by decide⟩
  refine List.forall_mem_cons.mpr ⟨?_, List.forall_mem_singleton.mpr ?_⟩
  · exact ⟨active, unparked, by decide, by decide, by decide,
      new_order_trades_greedily default offeredDay rfl active unparked (by decide) (by decide)
        (by decide)⟩
  · exact ⟨active, unparked, by decide, by decide, by decide,
      new_order_trades_greedily default offeredDay rfl active unparked (by decide) (by decide)
        (by decide)⟩

end Book

end Bourse
