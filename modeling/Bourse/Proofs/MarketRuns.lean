import Bourse.Market
import Bourse.Proofs.DayRecord
import Mathlib.Data.List.Forall2

/-!
# Runs of a market

What a market goes through is a list of operations on it. Besides the market after it, an
operation has effects: the books that it creates, the reports that it sends, what it shows of a
book, and the pictures that it publishes.

The books of a market bear different securities, and a record bears the security of its book.
While that holds, an operation other than a sweep leads every book to one that follows it: with
the same security, and marked as changed unless its picture is still the same. `Turn` says so
of every operation, and what holds of a market throughout a run is shown for each turn.
-/

namespace Bourse

/-- An operation on a market. -/
inductive MarketOperation where
  | submit (request : NewOrder)
  | insert (order : Order)
  | cancel (image : Order)
  | replace (image : Order)
  | start
  | stop
  | picture (security : String)
  | sweep
  deriving DecidableEq, Repr

/-- What comes of an operation besides the market after it. -/
structure Effects where
  /-- The books that are created, without the orders that create them. -/
  created : List Book := []
  /-- The reports that are sent. -/
  reports : List Report := []
  /-- What a query shows. -/
  views : List BookView := []
  /-- The pictures that a sweep publishes. -/
  pictures : List Picture := []
  deriving DecidableEq, Repr

namespace Market

/-- The book that an order creates, if there is none for its security. -/
def created (market : Market) (order : Order) : List Book :=
  match market.book? order.security with
  | some _ => []
  | none => [market.firstBook order]

/-- The market after a request on a book, which has no effect where there is no book. -/
def answered (market : Market) : Except Refusal (Market × List Report) → Market × Effects
  | .ok (next, reports) => (next, { reports })
  | .error _ => (market, {})

/-- The market after an operation, and its effects. -/
def perform (market : Market) : MarketOperation → Market × Effects
  | .submit request =>
    let (_, next, reports) := market.submit request
    match Order.ofNew market.nextId request with
    | .ok order => (next, { created := market.created order, reports })
    | .error _ => (next, { reports })
  | .insert order =>
    let (next, reports) := market.insert order
    (next, { created := market.created order, reports })
  | .cancel image => market.answered (market.cancel image)
  | .replace image => market.answered (market.replace image)
  | .start => (market.start, {})
  | .stop =>
    let (next, reports) := market.stop
    (next, { reports })
  | .picture security => (market, { views := (market.picture security).toOption.toList })
  | .sweep =>
    let (published, next) := market.sweep
    (next, { pictures := published.pictures })

/-- The market after operations in a row, and the effects of each of them. -/
def performAll (market : Market) : List MarketOperation → Market × List Effects
  | [] => (market, [])
  | operation :: operations =>
    let (next, effects) := market.perform operation
    let (final, later) := next.performAll operations
    (final, effects :: later)

/-- A run is a run of its first operations and then one of the others. -/
theorem perform_all_append (market : Market) (operations later : List MarketOperation) :
    market.performAll (operations ++ later) =
      (((market.performAll operations).1.performAll later).1,
        (market.performAll operations).2 ++
          ((market.performAll operations).1.performAll later).2) := by
  induction operations generalizing market with
  | nil => rfl
  | cons operation operations induction =>
    simp only [List.cons_append, performAll, induction]

end Market

namespace Book

/-- The security of a book, and that of its record. -/
def titles (book : Book) : String × String := (book.security, book.record.security)

/-- What no request changes of a book: its titles, and whether it is open. -/
def frame (book : Book) : (String × String) × Bool := (book.titles, book.isActive)

section Frame

variable {book next : Book} {flow : Flow}

/-- The frame of a book is the same with other resting orders. -/
@[simp] theorem frame_with_resting (queue : Queue flow.restingDirection) :
    (book.withResting flow queue).frame = book.frame := by
  cases flow <;> rfl

/-- It is the same with other parked orders. -/
@[simp] theorem frame_with_parked (queue : Queue flow.parkingDirection) :
    (book.withParked flow queue).frame = book.frame := by
  cases flow <;> rfl

/-- A trade changes no more than the amounts of a record. -/
theorem frame_traded (book : Book) (taker : Order) (maker : Queue.Entry)
    (behind : List Queue.Entry) : (book.traded taker maker behind).frame = book.frame := by
  unfold traded
  cases taker.flow.contra <;> rfl

/-- It is the same once the remainder of an order has found its place. -/
@[simp] theorem frame_rest_remainder (order : Order) :
    (book.restRemainder order).1.frame = book.frame := by
  have settles := book.settles order
  generalize book.restRemainder order = settled at settles ⊢
  cases settles with
  | expired immediate => rfl
  | unpriced day market untraded => rfl
  | restated day market priced => exact frame_with_resting _
  | rested day limited => exact frame_with_resting _

/-- No task changes it. -/
theorem Move.frame {tasks later : List Task} {reports : List Report}
    (move : book.Move tasks next later reports) : next.frame = book.frame := by
  cases move with
  | trade traded =>
    obtain ⟨maker, behind, -, -, rfl, -⟩ := (trade_once_iff ..).mp traded
    exact book.frame_traded _ maker behind
  | settle stuck left => exact frame_rest_remainder _
  | finish stuck spent => rfl
  | release released =>
    obtain ⟨entry, behind, -, -, rfl⟩ := releases_of_release released
    exact frame_with_parked _
  | pass unreached => rfl

/-- Neither do all that tasks lead to. -/
@[simp] theorem frame_work (tasks : List Task) : (book.work tasks).1.frame = book.frame :=
  (work_finishes book tasks).keeps (P := fun next _ _ => next.frame = book.frame)
    (fun move same => move.frame.trans same) [] rfl

/-- What is finished has the frame that it began with. -/
theorem frame_finish (outset : Outset) : outset.finish.1.frame = outset.book.frame :=
  frame_work outset.tasks

/-- An order on its way to the market leaves the frame as it is. -/
theorem Routes.frame {order : Order} {outset : Outset} (routes : book.Routes order outset) :
    outset.book.frame = book.frame := by
  cases routes with
  | live live => rfl
  | reached waits traded reached => rfl
  | parked waits unreached => exact frame_with_parked _

/-- So does a change of the order that a request names. -/
theorem Named.frame {id : OrderId} {old : Order}
    {change : {direction : Direction} → Queue direction → Queue direction}
    (named : book.Named flow id old change next) : next.frame = book.frame := by
  cases named with
  | resting found => exact frame_with_resting _
  | parked found => exact frame_with_parked _

/-- So does the removal of an order that became immediate. -/
theorem frame_drop_immediate (order : Order) :
    (book.dropImmediate order).1.frame = book.frame := by
  rcases book.drop_immediate_cases order with ⟨same, -⟩ | ⟨old, -, dropped, -⟩
  · rw [same]
  · rw [dropped, frame_with_resting]

/-- So does an order that is routed. -/
theorem frame_route (order : Order) : (book.route order).1.frame = book.frame := by
  have routed := (book.routes_outset order).frame
  have finished := finish_route book order (Report.of .new order "")
  have kept := frame_finish ((book.routeOutset order).after (Report.of .new order ""))
  rw [finished] at kept
  exact kept.trans routed

/-- So does what follows a replacement. -/
theorem frame_settle_replaced (order : Order) (priority : Order.Priority) :
    (book.settleReplaced order priority).1.frame = book.frame := by
  unfold settleReplaced
  cases priority with
  | lost => exact frame_route order
  | kept =>
    dsimp only
    split
    · exact frame_drop_immediate order
    · rfl

/-- So does a new order. -/
theorem frame_insert (order : Order) : (book.insert order).1.frame = book.frame := by
  unfold Book.insert
  split
  · rfl
  · split
    · rfl
    · exact frame_route order

/-- So does a replacement. -/
theorem frame_replace (image : Order) : (book.replace image).1.frame = book.frame := by
  unfold Book.replace
  split
  · rfl
  · cases amended : book.amend image with
    | error refusal => rfl
    | ok result =>
      obtain ⟨old, -, -, -, named⟩ := amend_ok amended
      exact (frame_settle_replaced _ _).trans named.frame

/-- So does a cancellation. -/
theorem frame_cancel (image : Order) : (book.cancel image).1.frame = book.frame := by
  unfold Book.cancel
  cases withdrawn : book.withdraw image with
  | error refusal => rfl
  | ok result =>
    obtain ⟨old, -, named⟩ := withdraw_ok withdrawn
    exact named.frame

/-- Books of one frame have the same titles. -/
theorem titles_of_frame (same : next.frame = book.frame) : next.titles = book.titles :=
  congrArg Prod.fst same

/-- They are both open or both closed. -/
theorem active_of_frame (same : next.frame = book.frame) : next.isActive = book.isActive :=
  congrArg Prod.snd same

end Frame

/-- A book after something that is not a sweep: it has its security, and it is marked as
changed unless its picture is what it was. -/
structure Follows (book next : Book) : Prop where
  titles : next.titles = book.titles
  tracked : next.hasChanged = false → book.hasChanged = false ∧ next.picture = book.picture

namespace Follows

variable {book next : Book}

/-- A book follows itself. -/
theorem refl (book : Book) : book.Follows book := ⟨rfl, fun unchanged => ⟨unchanged, rfl⟩⟩

/-- A request leaves a book as it is, or it marks it as changed. -/
theorem of_frame (frame : next.frame = book.frame)
    (changes : next = book ∨ next.hasChanged = true) : book.Follows next where
  titles := titles_of_frame frame
  tracked := by
    intro unchanged
    rcases changes with rfl | marked
    · exact ⟨unchanged, rfl⟩
    · rw [marked] at unchanged
      contradiction

/-- A book with a new order follows the book before. -/
theorem insert (book : Book) (order : Order) : book.Follows (book.insert order).1 := by
  refine of_frame (frame_insert order) ?_
  unfold Book.insert
  split
  · exact .inl rfl
  · split
    · exact .inl rfl
    · exact .inr rfl

/-- So does a book with an order replaced. -/
theorem replace (book : Book) (image : Order) : book.Follows (book.replace image).1 := by
  refine of_frame (frame_replace image) ?_
  unfold Book.replace
  split
  · exact .inl rfl
  · cases book.amend image with
    | error refusal => exact .inl rfl
    | ok result => exact .inr rfl

/-- So does a book with an order cancelled. -/
theorem cancel (book : Book) (image : Order) : book.Follows (book.cancel image).1 := by
  refine of_frame (frame_cancel image) ?_
  unfold Book.cancel
  cases book.withdraw image with
  | error refusal => exact .inl rfl
  | ok result => exact .inr rfl

/-- An open book shows what it showed when it was closed. -/
theorem start (book : Book) : book.Follows book.start :=
  ⟨rfl, fun unchanged => ⟨unchanged, rfl⟩⟩

/-- So does a book that has closed. -/
theorem stop (book : Book) : book.Follows book.stop.1 :=
  ⟨rfl, fun unchanged => by contradiction⟩

end Follows

end Book

namespace Market

/-- The books of a market bear different securities, a record bears that of its book, and no
record waits for a sweep to publish it. -/
structure Orderly (market : Market) : Prop where
  distinct : (market.books.map (·.security)).Nodup
  titled : ∀ book ∈ market.books, book.record.security = book.security
  published : market.batch.picture.records = []

section Books

variable {market : Market}

/-- A book bears the security that it is found by. -/
theorem book_found {security : String} {book : Book} (found : market.book? security = some book) :
    book ∈ market.books ∧ book.security = security := by
  have named := List.find?_some found
  exact ⟨List.mem_of_find?_eq_some found, eq_of_beq named⟩

/-- Where books bear different securities, each is found by its own. -/
theorem found_by_security {books : List Book} (distinct : (books.map (·.security)).Nodup)
    {book : Book} (member : book ∈ books) :
    books.find? (·.security == book.security) = some book := by
  cases found : books.find? (·.security == book.security) with
  | none =>
    have absent := List.find?_eq_none.mp found book member
    simp at absent
  | some other =>
    have named := List.find?_some found
    have same : other.security = book.security := eq_of_beq named
    rw [List.inj_on_of_nodup_map distinct (List.mem_of_find?_eq_some found) member same]

/-- A book of an orderly market is found by its security. -/
theorem Orderly.found (orderly : market.Orderly) {book : Book} (member : book ∈ market.books) :
    market.book? book.security = some book := found_by_security orderly.distinct member

/-- The book for the first order of a security bears that security, and so does its record. -/
theorem titles_first_book (market : Market) (order : Order) :
    (market.firstBook order).titles = (order.security, order.security) := by
  unfold firstBook
  split <;> rfl

/-- A book is created only for a security that has none. -/
theorem created_cases (market : Market) (order : Order) :
    market.created order = [] ∨ ∃ book, market.created order = [book] ∧
      book.titles = (order.security, order.security) ∧
        order.security ∉ market.books.map (·.security) := by
  unfold created
  split
  case h_1 => exact .inl rfl
  case h_2 none =>
    refine .inr ⟨_, rfl, market.titles_first_book order, ?_⟩
    intro member
    obtain ⟨book, present, same⟩ := List.mem_map.mp member
    have other := List.find?_eq_none.mp none book present
    simp [same] at other

/-- There is a book for the security of an order, which may have been created for it. -/
theorem ensure_book_eq (market : Market) (order : Order) :
    (market.ensureBook order).2 = { market with books := market.books ++ market.created order } ∧
      (market.ensureBook order).1 ∈ market.books ++ market.created order := by
  unfold ensureBook created
  cases found : market.book? order.security with
  | some book =>
    obtain ⟨member, -⟩ := book_found found
    simp only [List.append_nil]
    exact ⟨trivial, member⟩
  | none =>
    simp only [List.mem_append, List.mem_singleton, or_true]
    exact ⟨trivial, trivial⟩

/-- A book that is created bears a security of its own. -/
theorem distinct_created {books created : List Book} (distinct : (books.map (·.security)).Nodup)
    (new : created = [] ∨ ∃ book, created = [book] ∧ book.security ∉ books.map (·.security)) :
    ((books ++ created).map (·.security)).Nodup := by
  rcases new with rfl | ⟨book, rfl, absent⟩
  · rwa [List.append_nil]
  · rw [List.map_append, List.map_singleton, List.nodup_append]
    refine ⟨distinct, List.nodup_singleton _, ?_⟩
    rintro security present _ only rfl
    exact absent (List.mem_singleton.mp only ▸ present)

/-- The books bear different securities when an order has its book. -/
theorem Orderly.ensured (orderly : market.Orderly) (order : Order) :
    ((market.books ++ market.created order).map (·.security)).Nodup := by
  refine distinct_created orderly.distinct ((market.created_cases order).imp_right ?_)
  rintro ⟨book, one, titles, absent⟩
  have named : book.security = order.security := congrArg Prod.fst titles
  exact ⟨book, one, named ▸ absent⟩

/-- Where one book is exchanged for one that follows it, every book is followed. -/
theorem follows_with_book {books : List Book} (distinct : (books.map (·.security)).Nodup)
    {book next : Book} (member : book ∈ books) (follows : book.Follows next) :
    List.Forall₂ Book.Follows books
      (books.map fun other => if other.security == next.security then next else other) := by
  have same : next.security = book.security := congrArg Prod.fst follows.titles
  rw [List.forall₂_map_right_iff, List.forall₂_same]
  intro other present
  by_cases named : (other.security == next.security) = true
  · have own := List.inj_on_of_nodup_map distinct present member ((eq_of_beq named).trans same)
    rw [if_pos named, own]
    exact follows
  · rw [if_neg named]
    exact .refl other

end Books

/-- What an operation that publishes nothing makes of a market: every book is followed, and one
may be created. What a query shows is the picture of a book. -/
structure Carries (market next : Market) (effects : Effects) : Prop where
  follows : List.Forall₂ Book.Follows (market.books ++ effects.created) next.books
  created : effects.created = [] ∨ ∃ book, effects.created = [book] ∧
    book.record.security = book.security ∧ book.security ∉ market.books.map (·.security)
  shown : ∀ view ∈ effects.views, ∃ book ∈ next.books, view.record = book.picture
  unpublished : effects.pictures = []
  batch : next.batch = market.batch

/-- What an operation makes of a market. -/
inductive Turn (market : Market) : Market → Effects → Prop where
  /-- Nothing is published. -/
  | kept {next : Market} {effects : Effects} (carries : market.Carries next effects) :
      Turn market next effects
  /-- The records of all books that have changed are published. -/
  | sweep : Turn market market.sweep.2 { pictures := market.sweep.1.pictures }

section Turn

variable {market next : Market}

/-- Books follow themselves. -/
theorem follows_refl (books : List Book) : List.Forall₂ Book.Follows books books :=
  List.forall₂_same.mpr fun book _ => .refl book

/-- No book is created, and nothing is shown. -/
theorem Carries.silent (follows : List.Forall₂ Book.Follows market.books next.books)
    (reports : List Report) (batch : next.batch = market.batch) :
    market.Carries next { reports } where
  follows := by rwa [List.append_nil]
  created := .inl rfl
  shown := by simp
  unpublished := rfl
  batch := batch

/-- A new order comes to its book, which may be created for it. -/
theorem insert_carries (orderly : market.Orderly) (order : Order) :
    market.Carries (market.insert order).1
      { created := market.created order, reports := (market.insert order).2 } := by
  obtain ⟨same, member⟩ := market.ensure_book_eq order
  have follows := follows_with_book (orderly.ensured order) member
    (.insert (market.ensureBook order).1 order)
  refine ⟨?_, ?_, by simp, rfl, ?_⟩
  · simpa only [insert, withBook, same] using follows
  · refine (market.created_cases order).imp_right ?_
    rintro ⟨book, one, titles, absent⟩
    obtain ⟨named, titled⟩ := Prod.mk.inj titles
    exact ⟨book, one, titled.trans named.symm, named ▸ absent⟩
  · simp only [insert, withBook, same]

/-- A request comes to the book of its security, if there is one. -/
theorem on_book_carries (orderly : market.Orderly) (security : String)
    {operation : Book → Book × List Report}
    (follows : ∀ book : Book, book.Follows (operation book).1) :
    market.Carries (market.answered (market.onBook security operation)).1
      (market.answered (market.onBook security operation)).2 := by
  unfold onBook
  cases found : market.book? security with
  | none => exact .silent (follows_refl market.books) [] rfl
  | some book =>
    obtain ⟨member, -⟩ := book_found found
    exact .silent (follows_with_book orderly.distinct member (follows book)) _ rfl

/-- The identifier of a request is spent, and its order comes to its book. -/
theorem submit_carries (orderly : market.Orderly) (request : NewOrder) :
    market.Carries (market.perform (.submit request)).1 (market.perform (.submit request)).2 := by
  cases built : Order.ofNew market.nextId request with
  | error error =>
    simp only [perform, submit, built]
    refine .silent ?_ [] rfl
    exact follows_refl market.books
  | ok order =>
    have spent : ({ market with nextId := market.nextId.next } : Market).Orderly :=
      ⟨orderly.distinct, orderly.titled, orderly.published⟩
    have inserted := insert_carries spent order
    simp only [perform, submit, built]
    exact ⟨inserted.follows, inserted.created, inserted.shown, inserted.unpublished,
      inserted.batch⟩

/-- A query shows the picture of a book and changes nothing. -/
theorem picture_carries (market : Market) (security : String) :
    market.Carries market { views := (market.picture security).toOption.toList } where
  follows := by
    rw [List.append_nil]
    exact follows_refl market.books
  created := .inl rfl
  shown := by
    intro view member
    cases found : market.book? security with
    | none => simp [picture, found, Except.toOption] at member
    | some book =>
      obtain rfl : view = ⟨book.isActive, book.counts, book.picture⟩ := by
        simpa [picture, found, Except.toOption] using member
      exact ⟨book, (book_found found).1, rfl⟩
  unpublished := rfl
  batch := rfl

/-- Every operation on an orderly market is a turn of it. -/
theorem perform_turn (orderly : market.Orderly) (operation : MarketOperation) :
    market.Turn (market.perform operation).1 (market.perform operation).2 := by
  cases operation with
  | submit request => exact .kept (submit_carries orderly request)
  | insert order => exact .kept (insert_carries orderly order)
  | cancel image =>
    exact .kept (on_book_carries orderly image.security (Book.Follows.cancel · image))
  | replace image =>
    exact .kept (on_book_carries orderly image.security (Book.Follows.replace · image))
  | start =>
    refine .kept (.silent ?_ [] rfl)
    simp only [perform, start, List.forall₂_map_right_iff, List.forall₂_same]
    exact fun book _ => .start book
  | stop =>
    refine .kept (.silent ?_ _ rfl)
    simp only [perform, stop, List.map_map, List.forall₂_map_right_iff, List.forall₂_same]
    exact fun book _ => .stop book
  | picture security => exact .kept (market.picture_carries security)
  | sweep => exact .sweep

/-- Every book that is followed leads to one of the books after it. -/
theorem follows_onward {books later : List Book} (follows : List.Forall₂ Book.Follows books later)
    {book : Book} (member : book ∈ books) : ∃ next ∈ later, book.Follows next := by
  induction follows with
  | nil => simp at member
  | cons first rest induction =>
    rcases List.mem_cons.mp member with rfl | member
    · exact ⟨_, List.mem_cons_self, first⟩
    · obtain ⟨next, present, follows⟩ := induction member
      exact ⟨next, List.mem_cons_of_mem _ present, follows⟩

/-- Every book follows one of the books before it. -/
theorem follows_back {books later : List Book} (follows : List.Forall₂ Book.Follows books later)
    {next : Book} (member : next ∈ later) : ∃ book ∈ books, book.Follows next := by
  induction follows with
  | nil => simp at member
  | cons first rest induction =>
    rcases List.mem_cons.mp member with rfl | member
    · exact ⟨_, List.mem_cons_self, first⟩
    · obtain ⟨book, present, follows⟩ := induction member
      exact ⟨book, List.mem_cons_of_mem _ present, follows⟩

/-- Books that follow others bear the same titles. -/
theorem titles_of_follows {books later : List Book}
    (follows : List.Forall₂ Book.Follows books later) :
    later.map Book.titles = books.map Book.titles := by
  induction follows with
  | nil => rfl
  | cons first rest induction => rw [List.map_cons, List.map_cons, first.titles, induction]

/-- The securities of the books are those from before and those of the books created. -/
theorem Carries.securities {effects : Effects} (carries : market.Carries next effects) :
    next.books.map (·.security) = (market.books ++ effects.created).map (·.security) := by
  have titles := congrArg (List.map Prod.fst) (titles_of_follows carries.follows)
  rw [List.map_map, List.map_map] at titles
  exact titles

/-- A market stays orderly under an operation that publishes nothing. -/
theorem Carries.orderly {effects : Effects} (carries : market.Carries next effects)
    (orderly : market.Orderly) : next.Orderly where
  distinct := by
    rw [carries.securities]
    refine distinct_created orderly.distinct (carries.created.imp_right ?_)
    rintro ⟨book, one, -, absent⟩
    exact ⟨book, one, absent⟩
  titled := by
    intro book member
    obtain ⟨before, present, follows⟩ := follows_back carries.follows member
    obtain ⟨named, titled⟩ := Prod.mk.inj follows.titles
    rw [named, titled]
    rcases List.mem_append.mp present with old | new
    · exact orderly.titled before old
    · rcases carries.created with none | ⟨created, one, own, -⟩
      · simp [none] at new
      · rw [one] at new
        obtain rfl := List.mem_singleton.mp new
        exact own
  published := carries.batch ▸ orderly.published

/-- Pictures are filled with all records that they are given, and none is left over. -/
theorem records_of_fill (batch : Batch) (records : List Record) :
    (fillPictures batch records).1.pictures.flatMap (·.records) =
        batch.picture.records ++ records ∧
      (fillPictures batch records).2.picture.records = [] := by
  induction records generalizing batch with
  | nil =>
    by_cases empty : batch.isEmpty = true
    · have nothing : batch.picture.records = [] := List.isEmpty_iff.mp empty
      simp [fillPictures, empty, nothing]
    · simp [fillPictures, Published.flushed, empty, Batch.reset]
  | cons record rest induction =>
    simp only [fillPictures]
    by_cases full : (batch.push record).isFull = true
    · obtain ⟨filled, emptied⟩ := induction (batch.push record).reset
      rw [if_pos full]
      refine ⟨?_, emptied⟩
      rw [Published.flushed, List.flatMap_cons, filled]
      simp [Batch.push, Batch.reset]
    · obtain ⟨filled, emptied⟩ := induction (batch.push record)
      rw [if_neg full]
      refine ⟨?_, emptied⟩
      rw [filled]
      simp [Batch.push]

/-- The records of the books that have changed, in the order of the books. -/
def changes (market : Market) : List Record :=
  (market.books.filter (·.hasChanged)).map Book.picture

/-- A sweep publishes the record of every changed book, the newest book first, and leaves no
record behind. -/
theorem sweep_records (orderly : market.Orderly) :
    market.sweep.1.pictures.flatMap (·.records) = market.changes.reverse ∧
      market.sweep.2.batch.picture.records = [] := by
  have filled := records_of_fill market.batch market.changes.reverse
  rwa [orderly.published, List.nil_append] at filled

/-- A published book is the same book. -/
theorem swept_book (book : Book) :
    (if book.hasChanged then book.publish.2 else book).titles = book.titles ∧
      (if book.hasChanged then book.publish.2 else book).picture = book.picture ∧
        (if book.hasChanged then book.publish.2 else book).hasChanged = false := by
  cases changed : book.hasChanged with
  | true => exact ⟨rfl, rfl, rfl⟩
  | false => exact ⟨rfl, rfl, changed⟩

/-- A sweep leaves the books of the same securities. -/
theorem swept_securities (market : Market) :
    market.sweep.2.books.map (·.security) = market.books.map (·.security) := by
  simp only [sweep, List.map_map]
  exact List.map_congr_left fun book _ => congrArg Prod.fst (swept_book book).1

/-- It stays so under a sweep. -/
theorem sweep_orderly (orderly : market.Orderly) : market.sweep.2.Orderly where
  distinct := by
    rw [swept_securities]
    exact orderly.distinct
  titled := by
    intro book member
    obtain ⟨before, present, rfl⟩ := List.mem_map.mp member
    obtain ⟨named, titled⟩ := Prod.mk.inj (swept_book before).1
    rw [named, titled]
    exact orderly.titled before present
  published := (sweep_records orderly).2

/-- It stays so under every operation. -/
theorem Turn.orderly {effects : Effects} (turn : market.Turn next effects)
    (orderly : market.Orderly) : next.Orderly := by
  cases turn with
  | kept carries => exact carries.orderly orderly
  | sweep => exact sweep_orderly orderly

/-- A market without books is orderly. -/
theorem orderly_opened (firstId : OrderId) (capacity : Nat) :
    (opened firstId capacity).Orderly where
  distinct := List.nodup_nil
  titled := by simp [opened]
  published := rfl

/-- What every turn of an orderly market keeps is kept by a run, which leaves the market
orderly. It may speak of the effects so far. -/
theorem run_keeps {P : Market → List Effects → Prop}
    (turns : ∀ {market next : Market} {effects : Effects} {done : List Effects},
      market.Orderly → market.Turn next effects → P market done → P next (done ++ [effects]))
    (operations : List MarketOperation) (market : Market) (done : List Effects)
    (orderly : market.Orderly) (start : P market done) :
    (market.performAll operations).1.Orderly ∧
      P (market.performAll operations).1 (done ++ (market.performAll operations).2) := by
  induction operations generalizing market done with
  | nil =>
    rw [performAll, List.append_nil]
    exact ⟨orderly, start⟩
  | cons operation operations induction =>
    have turn := perform_turn orderly operation
    have later := induction (market.perform operation).1 (done ++ [(market.perform operation).2])
      (turn.orderly orderly) (turns orderly turn start)
    simpa only [performAll, List.append_assoc, List.singleton_append] using later

end Turn

end Market

end Bourse
