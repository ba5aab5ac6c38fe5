import Bourse.Proofs.NestedExecution
import Bourse.Proofs.Plain
import Bourse.Proofs.Prices

/-!
# Whole trades

Where no stop order is parked, nothing comes between two trades of one order with another. The
slices that disclosure cuts the two into make up one trade of all that the smaller of them has
left: `Calm.whole_of_slice`.

So an execution of a calm book is plainly the execution of the plain book, in which no order is
cut into slices. The induction is on what is left of the order that is traded: a slice and a
whole trade both take something of it, and what is left of the whole trade after a slice is
traded at once.
-/

namespace Bourse

namespace Queue

/-- An entry after its order was filled at its own price. -/
def Entry.afterFill (maker : Entry) (quantity : Int) : Entry :=
  { maker with order := maker.order.fill maker.order.price quantity }

/-- What a fill plainly leaves of a queue hangs on what it plainly leaves of the first order. -/
theorem filled_first_plain (maker : Entry) (behind : List Entry) {price quantity : Int}
    {image : Order} (filled : (maker.order.fill price quantity).plain = image) :
    (filledFirst maker behind price quantity).map Entry.plain =
      if image.unfilled = 0 then behind.map Entry.plain
      else { maker with order := image } :: behind.map Entry.plain := by
  subst filled
  have gone := (maker.order.fill price quantity).pending_eq_zero_iff
  simp only [filledFirst, gone, Order.unfilled_plain, apply_ite (List.map Entry.plain)]
  rfl

end Queue

namespace Book

/-- A book without parked orders, whose totals are words and whose prices are not negative. -/
structure Calm (book : Book) : Prop where
  unparked : ∀ flow, (book.parked flow).entries = []
  volume : Word.least ≤ book.record.volume
  value : Word.least ≤ book.record.value
  priced : ∀ flow, ∀ entry ∈ (book.resting flow).entries, 0 ≤ entry.order.price

section Taken

variable (book : Book) (flow : Flow)

/-- The book with other entries in the queue where a flow rests, and another record. -/
def withEntries (entries : List Queue.Entry) (record : Record) : Book :=
  { book.withResting flow { book.resting flow with entries } with record }

/-- A book with other entries is plainly the plain book with those. -/
theorem plain_with_entries (entries : List Queue.Entry) (record : Record) :
    (book.withEntries flow entries record).plain =
      book.plain.withEntries flow (entries.map Queue.Entry.plain) record.plain := by
  cases flow <;> rfl

/-- Of two changes to the entries of a flow, the later one counts. -/
theorem with_entries_twice (first entries : List Queue.Entry) (before record : Record) :
    (book.withEntries flow first before).withEntries flow entries record =
      book.withEntries flow entries record := by
  cases flow <;> rfl

/-- The book after a trade of a quantity with the first entry of a flow. -/
def taken (maker : Queue.Entry) (behind : List Queue.Entry) (quantity : Int) : Book :=
  book.withEntries flow (Queue.filledFirst maker behind maker.order.price quantity)
    (book.record.trade maker.order.price quantity)

/-- A trade of a quantity is plainly the same in the plain book. -/
theorem taken_plain (maker : Queue.Entry) (behind : List Queue.Entry) (quantity : Int) :
    (book.plain.taken flow maker.plain (behind.map Queue.Entry.plain) quantity).plain =
      (book.taken flow maker behind quantity).plain := by
  have filled := maker.order.fill_plain maker.order.price quantity
  have queue := Queue.filled_first_plain maker behind
    (Eq.refl (maker.order.fill maker.order.price quantity).plain)
  have images := Queue.filled_first_plain maker.plain (behind.map Queue.Entry.plain) filled
  have record := book.record.trade_plain maker.order.price quantity
  have twice : (behind.map Queue.Entry.plain).map Queue.Entry.plain =
      behind.map Queue.Entry.plain := by
    rw [List.map_map]
    rfl
  rw [twice] at images
  rw [taken, plain_with_entries, plain_plain, taken, plain_with_entries, queue, ← record]
  exact congrArg (book.plain.withEntries flow · _) images

variable {book flow}

/-- Two trades with an order are plainly one trade of both quantities. -/
theorem Calm.taken_twice (calm : book.Calm) {maker : Queue.Entry} {behind : List Queue.Entry}
    (first : (book.resting flow).entries = maker :: behind) {slice rest : Int}
    (positive : 0 ≤ slice) (more : 0 ≤ rest) (left : slice + rest ≤ maker.order.unfilled) :
    ((book.taken flow maker behind slice).taken flow (maker.afterFill slice) behind rest).plain =
      (book.taken flow maker behind (slice + rest)).plain := by
  have priced := calm.priced flow maker (first ▸ List.mem_cons_self)
  have filled := maker.order.fill_twice maker.order.price more left
  have recorded := book.record.trade_twice calm.volume calm.value priced positive more
  have queue := Queue.filled_first_plain maker behind
    (Eq.refl (maker.order.fill maker.order.price (slice + rest)).plain)
  have twice := Queue.filled_first_plain (maker.afterFill slice) behind filled
  rw [taken, taken, with_entries_twice, plain_with_entries, taken, plain_with_entries, queue,
    ← recorded]
  exact congrArg (book.plain.withEntries flow · _) twice

end Taken

/-- Two results are plainly the same: the book, and what the reports tell. -/
structure Alike (result other : Book × List Report) : Prop where
  books : result.1.plain = other.1.plain
  reports : Report.told result.2 = Report.told other.2

namespace Alike

variable {result other third : Book × List Report}

/-- What is alike is alike the other way round. -/
theorem symm (alike : Alike result other) : Alike other result :=
  ⟨alike.books.symm, alike.reports.symm⟩

/-- What is alike to the alike is alike. -/
theorem trans (alike : Alike result other) (also : Alike other third) : Alike result third :=
  ⟨alike.books.trans also.books, alike.reports.trans also.reports⟩

/-- Reports that tell the same may be sent before. -/
theorem after (alike : Alike result other) {before others : List Report}
    (same : Report.told before = Report.told others) :
    Alike (result.1, before ++ result.2) (other.1, others ++ other.2) where
  books := alike.books
  reports := by rw [Report.told_append, Report.told_append, same, alike.reports]

end Alike

section Meets

variable {book : Book} {taker : Order} {maker : Queue.Entry} {behind : List Queue.Entry}

/-- A trade of all that both orders have left. -/
def wholeQuantity (taker maker : Order) : Int := min taker.unfilled maker.unfilled

/-- Plain orders trade all that they have left. -/
theorem traded_quantity_plain (taker maker : Order) :
    tradedQuantity taker.plain maker.plain = wholeQuantity taker maker := by
  rw [tradedQuantity, Order.pending_plain, Order.pending_plain, wholeQuantity]

/-- Both orders show something exactly if both have something left. -/
theorem shown_iff (taker maker : Order) :
    0 < min taker.pending maker.pending ↔ 0 < taker.unfilled ∧ 0 < maker.unfilled := by
  have ofTaker := taker.pending_pos_iff
  have ofMaker := maker.pending_pos_iff
  omega

/-- Orders that meet do so plainly. -/
theorem Meets.plain (meets : book.Meets taker maker behind) :
    book.plain.Meets taker.plain maker.plain (behind.map Queue.Entry.plain) where
  first := by
    change (book.plain.resting taker.flow.contra).entries = _
    rw [resting_plain, Queue.plain, meets.first, List.map_cons]
  shown := by
    have left := (shown_iff taker maker.order).mp meets.shown
    exact (shown_iff taker.plain maker.order.plain).mpr left
  accepted := meets.accepted

/-- Orders that meet plainly do so. -/
theorem Meets.of_plain {image : Queue.Entry} {images : List Queue.Entry}
    (meets : book.plain.Meets taker.plain image images) :
    ∃ maker behind, book.Meets taker maker behind := by
  have first : (book.plain.resting taker.flow.contra).entries = image :: images := meets.first
  rw [resting_plain] at first
  obtain ⟨maker, behind, entries, rfl, rfl⟩ := List.map_eq_cons_iff.mp first
  have shown := (shown_iff taker.plain maker.order.plain).mp meets.shown
  exact ⟨maker, behind, entries, (shown_iff ..).mpr shown, meets.accepted⟩

/-- An order that finds nothing to trade with finds nothing plainly. -/
theorem stuck_plain (stuck : book.tradeOnce taker = none) :
    book.plain.tradeOnce taker.plain = none := by
  cases traded : book.plain.tradeOnce taker.plain with
  | none => rfl
  | some result =>
    obtain ⟨image, images, meets, -⟩ := (trade_once_iff ..).mp traded
    obtain ⟨maker, behind, met⟩ := meets.of_plain
    have trades := (trade_once_iff ..).mpr ⟨maker, behind, met, rfl, rfl, rfl⟩
    rw [stuck] at trades
    contradiction

/-- A trade leaves a calm book. -/
theorem Calm.traded (calm : book.Calm) (meets : book.Meets taker maker behind) :
    (book.traded taker maker behind).Calm where
  unparked := fun flow => by
    rw [Book.traded, parked_with_record, parked_with_resting]
    exact calm.unparked flow
  volume := Int.le_max_left ..
  value := Int.le_max_left ..
  priced := by
    intro flow entry member
    obtain ⟨old, present, same⟩ := meets.no_new_price flow entry member
    exact same ▸ calm.priced flow old present

/-- The plain book of a calm book is calm. -/
theorem Calm.plain (calm : book.Calm) : book.plain.Calm where
  unparked := fun flow => by
    rw [parked_plain, Queue.plain, calm.unparked, List.map_nil]
  volume := calm.volume
  value := calm.value
  priced := by
    intro flow entry member
    rw [resting_plain] at member
    obtain ⟨old, present, rfl⟩ := List.mem_map.mp member
    exact calm.priced flow old present

end Meets

section Execution

variable {book next : Book} {taker after : Order} {reports : List Report}

/-- Where no stop order is parked, a trade is followed by the execution of what is left of its
order. -/
theorem execute_traded (unparked : ∀ flow, (next.parked flow).entries = [])
    (traded : book.tradeOnce taker = some (after, next, reports)) :
    book.execute taker = ((next.execute after).1, reports ++ (next.execute after).2) := by
  have unreached (flow : Flow) : next.releaseFrom flow = none := by
    simp only [releaseFrom, Queue.popFirst?, unparked]
  have checks : ChecksParked next next [] :=
    .check (.unreached (unreached .buying)) (.unreached (unreached .selling))
  have again := (execute_iff_nested next (next.execute after).1 after _).mp rfl
  have whole := InsertsLive.trade traded checks again
  rw [List.append_nil] at whole
  exact (execute_iff_nested ..).mpr whole

/-- An order that finds nothing to trade with is settled, or done. -/
theorem execute_stuck (stuck : book.tradeOnce taker = none) :
    book.execute taker =
      if 0 < taker.unfilled then book.restRemainder taker else (book, []) := by
  split
  case isTrue left => exact (execute_iff_nested ..).mpr (.settle stuck left)
  case isFalse spent => exact (execute_iff_nested ..).mpr (.finish stuck (by omega))

end Execution

section Whole

variable {book : Book} {taker : Order} {maker : Queue.Entry} {behind : List Queue.Entry}

/-- The fills of two orders that trade a quantity, the maker's before the taker's. -/
def fillsOf (taker maker : Order) (quantity : Int) : List Report :=
  [Report.ofFill (maker.fill maker.price quantity), Report.ofFill (taker.fill maker.price quantity)]

/-- A trade is told by what its two orders are plainly afterwards. -/
theorem told_fills {taker maker after image : Order} {quantity others : Int}
    (makers : (maker.fill maker.price quantity).plain = (image.fill image.price others).plain)
    (takers : (taker.fill maker.price quantity).plain = (after.fill image.price others).plain) :
    Report.told (fillsOf taker maker quantity) = Report.told (fillsOf after image others) := by
  rw [fillsOf, Report.told_cons, Report.told_fill makers, Report.told_fill takers,
    ← Report.told_cons, fillsOf]

/-- What it plainly comes to that an order trades all it can with the first entry of the other
flow: the book and the order after it, and what is told. -/
structure Whole (book : Book) (taker : Order) (maker : Queue.Entry) (behind : List Queue.Entry)
    (next : Book) (after : Order) (reports : List Report) : Prop where
  calm : next.Calm
  books : next.plain = (book.taken taker.flow.contra maker behind
    (wholeQuantity taker maker.order)).plain
  orders : after.plain =
    (taker.fill maker.order.price (wholeQuantity taker maker.order)).plain
  told : Report.told reports =
    Report.told (fillsOf taker maker.order (wholeQuantity taker maker.order))

/-- In the plain book, an order trades all it can at once. -/
theorem Meets.whole_plain (meets : book.Meets taker maker behind) (calm : book.Calm) :
    ∃ next after reports, book.Whole taker maker behind next after reports ∧
      book.plain.execute taker.plain =
        ((next.execute after).1, reports ++ (next.execute after).2) := by
  have traded := (trade_once_iff ..).mpr ⟨_, _, meets.plain, rfl, rfl, rfl⟩
  have still := calm.plain.traded meets.plain
  have quantity := traded_quantity_plain taker maker.order
  refine ⟨_, _, _, ⟨still, ?_, ?_, ?_⟩, execute_traded still.unparked traded⟩
  · have books := book.taken_plain taker.flow.contra maker behind
      (wholeQuantity taker maker.order)
    rw [← quantity] at books ⊢
    exact books
  · rw [← quantity]
    rfl
  · rw [← quantity]
    exact told_fills rfl rfl

/-- What is traded at once is no more than all that the two orders can trade. -/
theorem Meets.whole_bounds (meets : book.Meets taker maker behind) :
    0 < wholeQuantity taker maker.order ∧ wholeQuantity taker maker.order ≤ taker.unfilled ∧
      tradedQuantity taker maker.order ≤ wholeQuantity taker maker.order := by
  obtain ⟨positive, ofTaker, ofMaker⟩ := meets.bounded
  unfold wholeQuantity
  omega

/-- A trade that leaves nothing of one of the orders is one of all they can. -/
theorem Meets.whole_of_uncut (meets : book.Meets taker maker behind) (calm : book.Calm)
    (uncut : tradedQuantity taker maker.order = wholeQuantity taker maker.order) :
    book.Whole taker maker behind (book.traded taker maker behind)
      (taker.fill maker.order.price (tradedQuantity taker maker.order))
      (fills taker maker.order) := by
  refine ⟨calm.traded meets, ?_, ?_, ?_⟩
  · rw [← uncut]
    rfl
  · rw [uncut]
  · rw [← uncut]
    rfl

section Slice

variable {slice : Int}

/-- After a slice of what two orders can trade, both have something left. -/
theorem left_after_slice (cut : slice < wholeQuantity taker maker.order) :
    0 < (taker.fill maker.order.price slice).unfilled ∧
      0 < (maker.order.fill maker.order.price slice).unfilled := by
  unfold wholeQuantity at cut
  rw [Order.unfilled_fill _ _ _ (by omega), Order.unfilled_fill _ _ _ (by omega)]
  omega

/-- A slice is not told. -/
theorem told_slice (cut : slice < wholeQuantity taker maker.order) :
    Report.told (fillsOf taker maker.order slice) = [] := by
  obtain ⟨ofTaker, ofMaker⟩ := left_after_slice cut
  rw [fillsOf, Report.told_cons, Report.told_partial ofMaker, Report.told_partial ofTaker]
  rfl

/-- After a slice, the two orders meet again. -/
theorem Meets.again (meets : book.Meets taker maker behind)
    (cut : slice < wholeQuantity taker maker.order) :
    (book.taken taker.flow.contra maker behind slice).Meets (taker.fill maker.order.price slice)
      (maker.afterFill slice) behind := by
  obtain ⟨ofTaker, ofMaker⟩ := left_after_slice cut
  have shown := (Order.pending_pos_iff _).mpr ofMaker
  refine ⟨?_, (shown_iff ..).mpr ⟨ofTaker, ofMaker⟩, meets.accepted⟩
  change ((book.taken taker.flow.contra maker behind slice).resting taker.flow.contra).entries = _
  rw [taken, withEntries, resting_with_record, resting_with_resting, Queue.filledFirst,
    if_neg (Int.ne_of_gt shown), Queue.Entry.afterFill]

/-- A slice, and then all that the two orders can trade, is all that they can trade. -/
theorem Calm.whole_of_slice (calm : book.Calm) (meets : book.Meets taker maker behind)
    (positive : 0 ≤ slice) (bounded : slice ≤ wholeQuantity taker maker.order) {next : Book}
    {after : Order} {reports : List Report}
    (whole : (book.taken taker.flow.contra maker behind slice).Whole
      (taker.fill maker.order.price slice) (maker.afterFill slice) behind next after reports) :
    book.Whole taker maker behind next after reports := by
  have ofTaker : wholeQuantity taker maker.order ≤ taker.unfilled := Int.min_le_left _ _
  have ofMaker : wholeQuantity taker maker.order ≤ maker.order.unfilled := Int.min_le_right _ _
  obtain ⟨rest, sum⟩ : ∃ rest, slice + rest = wholeQuantity taker maker.order :=
    ⟨wholeQuantity taker maker.order - slice, by omega⟩
  have remaining : wholeQuantity (taker.fill maker.order.price slice)
      (maker.afterFill slice).order = rest := by
    have takerLeft := taker.unfilled_fill maker.order.price slice (by omega)
    have makerLeft := maker.order.unfilled_fill maker.order.price slice (by omega)
    unfold wholeQuantity at sum ⊢
    simp only [Queue.Entry.afterFill, takerLeft, makerLeft]
    omega
  have more : 0 ≤ rest := by omega
  have takers := taker.fill_twice maker.order.price more (by omega : slice + rest ≤ _)
  have makers := maker.order.fill_twice maker.order.price more (by omega : slice + rest ≤ _)
  have books := calm.taken_twice meets.first positive more (by omega)
  rw [sum] at takers makers books
  obtain ⟨still, book, order, told⟩ := whole
  rw [remaining] at book order told
  exact ⟨still, book.trans books, order.trans takers, told.trans (told_fills makers takers)⟩

end Slice

end Whole

/-- Whatever follows on the same whole trade is plainly the same, if it is what follows in the
plain books. -/
theorem Whole.finish {book next other : Book} {taker after also : Order} {maker : Queue.Entry}
    {behind : List Queue.Entry} {reports others : List Report}
    (whole : book.Whole taker maker behind next after reports)
    (same : book.Whole taker maker behind other also others)
    (first : Alike (next.execute after) (next.plain.execute after.plain))
    (second : Alike (other.execute also) (other.plain.execute also.plain)) :
    Alike ((next.execute after).1, reports ++ (next.execute after).2)
      ((other.execute also).1, others ++ (other.execute also).2) := by
  rw [whole.books, whole.orders, ← same.books, ← same.orders] at first
  exact (first.trans second.symm).after (whole.told.trans same.told.symm)

/-- An execution of a calm book is plainly that of the plain book. -/
theorem Calm.execute_plain {book : Book} (calm : book.Calm) (taker : Order) :
    Alike (book.execute taker) (book.plain.execute taker.plain) := by
  generalize size : taker.unfilled.toNat = left
  induction left using Nat.strongRecOn generalizing book taker with
  | ind left induction =>
    cases traded : book.tradeOnce taker with
    | none =>
      rw [execute_stuck traded, execute_stuck (stuck_plain traded), Order.unfilled_plain,
        rest_remainder_plain]
      split
      · exact ⟨(plain_plain _).symm, (Report.told_plain _).symm⟩
      · exact ⟨(plain_plain _).symm, rfl⟩
    | some result =>
      obtain ⟨rest, between, slice⟩ := result
      obtain ⟨maker, behind, meets, rfl, rfl, rfl⟩ := (trade_once_iff ..).mp traded
      have still := calm.traded meets
      obtain ⟨positive, ofTaker, -⟩ := meets.bounded
      obtain ⟨some, bounded, most⟩ := meets.whole_bounds
      -- after a trade, of a slice or of all, less is left of the order that is traded
      have shorter {next : Book} (steady : next.Calm) {after : Order} {quantity : Int}
          (some : 0 < quantity) (bounded : quantity ≤ taker.unfilled)
          (filled : after.plain = (taker.fill maker.order.price quantity).plain) :
          Alike (next.execute after) (next.plain.execute after.plain) := by
        have left := taker.unfilled_fill maker.order.price quantity bounded
        rw [← Order.unfilled_plain, ← filled, Order.unfilled_plain] at left
        exact induction _ (by omega) steady after rfl
      obtain ⟨next, after, reports, whole, plainly⟩ := meets.whole_plain calm
      have ends := shorter whole.calm some bounded whole.orders
      have slices := shorter still positive ofTaker rfl
      rw [execute_traded still.unparked traded, plainly]
      by_cases cut : tradedQuantity taker maker.order < wholeQuantity taker maker.order
      · obtain ⟨last, also, others, sliced, again⟩ := (meets.again cut).whole_plain still
        have same := calm.whole_of_slice meets (Int.le_of_lt positive) most sliced
        have later := same.finish whole (shorter same.calm some bounded same.orders) ends
        rw [← again] at later
        have both := slices.trans later
        have untold : Report.told (fills taker maker.order) = [] := told_slice cut
        refine ⟨both.books, ?_⟩
        rw [Report.told_append, untold, List.nil_append]
        exact both.reports
      · have uncut := Int.le_antisymm most (Int.not_lt.mp cut)
        exact (meets.whole_of_uncut calm uncut).finish whole slices ends

end Book

end Bourse
