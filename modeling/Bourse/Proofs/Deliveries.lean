import Bourse.Proofs.Descent
import Bourse.Proofs.MarketRuns

/-!
# How instructions come to books

An instruction comes to one book of a market, the one of its security, and every other book stays
as it is. `Delivers` says this of the books before and after, and from it follows what an
instruction may do to the market as a whole: the books bear the securities that they bore, no
order is there that was neither held nor brought by the instruction, and every report is on the
security of the instruction.

`Acts` says of every operation on a market what it does to the books: nothing, or it delivers an
instruction, or it comes to all of them.
-/

namespace Bourse

namespace Instruction

/-- The orders that an instruction brings to its book. -/
def arrivals : Instruction → List Order
  | .insert order => [order]
  | .replace _ => []
  | .cancel _ => []

end Instruction

namespace Book

/-- An instruction changes neither the titles of a book nor whether it is open. -/
theorem frame_follow (book : Book) (instruction : Instruction) :
    (book.follow instruction).1.frame = book.frame := by
  cases instruction with
  | insert order => exact frame_insert order
  | replace image => exact frame_replace image
  | cancel image => exact frame_cancel image

/-- It does not change the security. -/
@[simp] theorem security_follow (book : Book) (instruction : Instruction) :
    (book.follow instruction).1.security = book.security :=
  congrArg Prod.fst (Book.titles_of_frame (book.frame_follow instruction))

/-- A book that holds orders of its security only comes to hold and to report no others. -/
theorem follow_descends {book : Book} {instruction : Instruction}
    (own : book.security = instruction.image.security) (filed : Filed book.security book.orders) :
    Descends book.security (instruction.arrivals ++ book.orders)
      (book.follow instruction).1.orders (book.follow instruction).2 := by
  cases instruction with
  | insert order => exact insert_descends (List.forall_mem_cons.mpr ⟨own.symm, filed⟩)
  | replace image => exact replace_descends own.symm filed
  | cancel image => exact cancel_descends own.symm filed

end Book

/-- The orders that books hold together. -/
def ordersOf (books : List Book) : List Order := books.flatMap Book.orders

/-- Every book holds orders of its own security only. -/
def Shelved (books : List Book) : Prop := ∀ book ∈ books, Filed book.security book.orders

/-- The orders of more books stand behind those of the first. -/
theorem orders_of_append (books others : List Book) :
    ordersOf (books ++ others) = ordersOf books ++ ordersOf others := List.flatMap_append

/-- The orders of one book, and those of all others. -/
theorem orders_of_middle (front back : List Book) (book : Book) :
    (ordersOf (front ++ book :: back)).Perm (book.orders ++ ordersOf (front ++ back)) := by
  rw [orders_of_append, orders_of_append]
  exact List.perm_append_comm_assoc _ _ _

/-- The identifiers of orders that come to one book, of those in it, and of all others. -/
theorem ids_of_middle (arrivals : List Order) (front back : List Book) (book : Book) :
    ((arrivals ++ ordersOf (front ++ book :: back)).map (·.id)).Perm
      ((arrivals ++ book.orders).map (·.id) ++ (ordersOf (front ++ back)).map (·.id)) := by
  rw [← List.map_append, List.append_assoc]
  exact ((orders_of_middle front back book).append_left arrivals).map (·.id)

/-- Books that hold nothing may come to the others. -/
theorem Shelved.append {books created : List Book} (shelved : Shelved books)
    (empty : ∀ book ∈ created, book.orders = []) : Shelved (books ++ created) := by
  refine List.forall_mem_append.mpr ⟨shelved, ?_⟩
  intro book member order held
  rw [empty book member] at held
  contradiction

/-- An instruction comes to the book of its security, which is one of the books, and the others
stay as they are. -/
def Delivers (instruction : Instruction) (books later : List Book) (reports : List Report) :
    Prop :=
  ∃ front book back, book.security = instruction.image.security ∧
    books = front ++ book :: back ∧
    later = front ++ (book.follow instruction).1 :: back ∧
    reports = (book.follow instruction).2

section Delivers

variable {instruction : Instruction} {books later : List Book} {reports : List Report}

/-- The book that an instruction is for is exchanged for the one that follows it. -/
theorem delivers_with_book (distinct : (books.map (·.security)).Nodup) {book : Book}
    (member : book ∈ books) (own : book.security = instruction.image.security) :
    let next := (book.follow instruction).1
    Delivers instruction books
      (books.map fun other => if other.security == next.security then next else other)
      (book.follow instruction).2 := by
  intro next
  obtain ⟨front, back, rfl⟩ := List.append_of_mem member
  rw [List.map_append, List.map_cons, List.nodup_middle, ← List.map_append, List.nodup_cons]
    at distinct
  have stays (others : List Book) (apart : ∀ other ∈ others, other ∈ front ++ back) :
      others.map (fun other => if other.security == next.security then next else other) =
        others := by
    conv_rhs => rw [← List.map_id others]
    apply List.map_congr_left
    intro other present
    have named : (other.security == next.security) = false := by
      rw [Book.security_follow, beq_eq_false_iff_ne]
      intro same
      exact distinct.1 (same ▸ List.mem_map_of_mem (apart other present))
    simp [named]
  refine ⟨front, book, back, own, rfl, ?_, rfl⟩
  rw [List.map_append, List.map_cons, stays front (fun _ => List.mem_append_left _),
    stays back (fun _ => List.mem_append_right _), Book.security_follow, beq_self_eq_true,
    if_pos rfl]

/-- The securities of the books stay, and whether they are open. -/
theorem Delivers.frames (delivers : Delivers instruction books later reports) :
    later.map Book.frame = books.map Book.frame := by
  obtain ⟨front, book, back, -, rfl, rfl, -⟩ := delivers
  simp only [List.map_append, List.map_cons, Book.frame_follow]

/-- A delivery leaves the securities of the books as they are. -/
theorem Delivers.securities (delivers : Delivers instruction books later reports) :
    later.map (·.security) = books.map (·.security) := by
  have same := congrArg (List.map (·.1.1)) delivers.frames
  rw [List.map_map, List.map_map] at same
  exact same

/-- The book of the security follows the instruction, and its reports are all there are. -/
theorem Delivers.own (delivers : Delivers instruction books later reports)
    (distinct : (books.map (·.security)).Nodup) :
    ∃ book, books.find? (·.security == instruction.image.security) = some book ∧
      later.find? (·.security == instruction.image.security) =
        some (book.follow instruction).1 ∧
      reports = (book.follow instruction).2 := by
  have kept := delivers.securities ▸ distinct
  obtain ⟨front, book, back, own, rfl, rfl, rfl⟩ := delivers
  have here (held : Book) : held ∈ front ++ held :: back :=
    List.mem_append_right _ List.mem_cons_self
  have before := Market.found_by_security distinct (here book)
  have after := Market.found_by_security kept (here (book.follow instruction).1)
  rw [own] at before
  rw [Book.security_follow, own] at after
  exact ⟨book, before, after, rfl⟩

/-- The book of any other security stays as it is. -/
theorem Delivers.other (delivers : Delivers instruction books later reports) {security : String}
    (other : instruction.image.security ≠ security) :
    later.find? (·.security == security) = books.find? (·.security == security) := by
  obtain ⟨front, book, back, own, rfl, rfl, -⟩ := delivers
  have passed : (book.security == security) = false := by
    rw [own]
    exact beq_eq_false_iff_ne.mpr other
  simp only [List.find?_append, List.find?_cons, Book.security_follow, passed]

/-- It leaves every order in a book of its security. -/
theorem Delivers.shelved (delivers : Delivers instruction books later reports)
    (shelved : Shelved books) : Shelved later := by
  obtain ⟨front, book, back, own, rfl, rfl, -⟩ := delivers
  intro next member
  rcases List.mem_append.mp member with early | late
  · exact shelved next (List.mem_append_left _ early)
  · rcases List.mem_cons.mp late with rfl | late
    · rw [Book.security_follow]
      exact (Book.follow_descends own (shelved book (by simp))).filed
    · exact shelved next (by simp [late])

/-- No order is held that was not held before, unless the instruction brings it. -/
theorem Delivers.held (delivers : Delivers instruction books later reports)
    (shelved : Shelved books) :
    ((ordersOf later).map (·.id)).Subperm
      ((instruction.arrivals ++ ordersOf books).map (·.id)) := by
  obtain ⟨front, book, back, own, rfl, rfl, -⟩ := delivers
  have held := (Book.follow_descends own (shelved book (by simp))).held
  have before := ids_of_middle instruction.arrivals front back book
  have after := ids_of_middle [] front back (book.follow instruction).1
  exact after.subperm.trans ((held.append (.refl _)).trans before.symm.subperm)

/-- Every report is on the security of the instruction, and refuses it unless its order was held
before or is one that the instruction brings. -/
theorem Delivers.told (delivers : Delivers instruction books later reports)
    (shelved : Shelved books) :
    ∀ report ∈ reports, report.security = instruction.image.security ∧
      (report.kind.isRefusal = true ∨
        report.order ∈ (instruction.arrivals ++ ordersOf books).map (·.id)) := by
  obtain ⟨front, book, back, own, rfl, -, rfl⟩ := delivers
  intro report member
  obtain ⟨same, known⟩ := (Book.follow_descends own (shelved book (by simp))).told report member
  refine ⟨same.trans own, known.imp_right ?_⟩
  intro held
  have before := ids_of_middle instruction.arrivals front back book
  exact before.mem_iff.mpr (List.mem_append_left _ held)

end Delivers

namespace MarketOperation

/-- Whether an operation takes an identifier of the market. -/
def takesId : MarketOperation → Bool
  | .submit _ => true
  | .insert _ | .cancel _ | .replace _ | .start | .stop | .picture _ | .sweep => false

/-- The instruction to one of its books that an operation is for a market. -/
def instruction? (market : Market) : MarketOperation → Option Instruction
  | .submit request => (Order.ofNew market.nextId request).toOption.map .insert
  | .insert order => some (.insert order)
  | .cancel image => some (.cancel image)
  | .replace image => some (.replace image)
  | .start | .stop | .picture _ | .sweep => none

/-- The orders that an operation brings to the books of a market. -/
def arrivals (market : Market) (operation : MarketOperation) : List Order :=
  (operation.instruction? market).toList.flatMap Instruction.arrivals

end MarketOperation

namespace Market

/-- What an operation does to the books of a market. -/
inductive Acts (market : Market) : MarketOperation → Market → Effects → Prop where
  /-- The books stay as they are, and nothing is reported. -/
  | rests {operation : MarketOperation} {next : Market} (views : List BookView)
      (books : next.books = market.books) (isActive : next.isActive = market.isActive) :
      Acts market operation next { views }
  /-- An instruction comes to a book, which may have been created for it. -/
  | delivers {operation : MarketOperation} {instruction : Instruction} {next : Market}
      (created : List Book) (reports : List Report)
      (asked : operation.instruction? market = some instruction)
      (delivers : Delivers instruction (market.books ++ created) next.books reports)
      (fresh : ∀ book ∈ created, book.orders = [] ∧
        book.frame = ((instruction.image.security, instruction.image.security), market.isActive))
      (distinct : ((market.books ++ created).map (·.security)).Nodup)
      (isActive : next.isActive = market.isActive) :
      Acts market operation next { created, reports }
  | start : Acts market .start market.start {}
  | stop : Acts market .stop market.stop.1 { reports := market.stop.2 }
  | sweep : Acts market .sweep market.sweep.2 { pictures := market.sweep.1.pictures }

section Acts

variable {market : Market}

/-- The book that an order creates is empty, and open if the market is. -/
theorem first_book_fresh (market : Market) (order : Order) :
    (market.firstBook order).orders = [] ∧
      (market.firstBook order).frame = ((order.security, order.security), market.isActive) := by
  unfold firstBook
  cases active : market.isActive <;> exact ⟨rfl, rfl⟩

/-- A book that is created for an order is empty, of its security, and open or closed with the
market. -/
theorem created_fresh (market : Market) (order : Order) :
    ∀ book ∈ market.created order, book.orders = [] ∧
      book.frame = ((order.security, order.security), market.isActive) := by
  unfold created
  cases market.book? order.security with
  | some book => simp
  | none => exact List.forall_mem_singleton.mpr (market.first_book_fresh order)

/-- A new order comes to the book of its security, which may be created for it. -/
theorem insert_delivers (orderly : market.Orderly) (order : Order) :
    Delivers (.insert order) (market.books ++ market.created order) (market.insert order).1.books
      (market.insert order).2 := by
  obtain ⟨same, member⟩ := market.ensure_book_eq order
  have own : (market.ensureBook order).1.security = (Instruction.insert order).image.security := by
    unfold ensureBook
    cases found : market.book? order.security with
    | some book => exact (book_found found).2
    | none => exact congrArg (·.1.1) (market.first_book_fresh order).2
  have delivers := delivers_with_book (orderly.ensured order) member own
  simp only [insert, withBook, same]
  exact delivers

/-- An order does not open or close the market. -/
theorem active_insert (market : Market) (order : Order) :
    (market.insert order).1.isActive = market.isActive := by
  simp only [insert, withBook, (market.ensure_book_eq order).1]

/-- An instruction comes to the book of its security, if there is one. -/
theorem request_delivers (orderly : market.Orderly) (instruction : Instruction) :
    let asked := market.onBook instruction.image.security (·.follow instruction)
    (market.book? instruction.image.security = none ∧
        asked = .error (.unknownSecurity instruction.image.security)) ∨
      ∃ later reports, asked = .ok ({ market with books := later }, reports) ∧
        Delivers instruction market.books later reports := by
  intro asked
  cases found : market.book? instruction.image.security with
  | none => exact .inl ⟨rfl, by simp only [asked, onBook, found]⟩
  | some book =>
    obtain ⟨member, own⟩ := book_found found
    refine .inr ⟨_, _, ?_, delivers_with_book orderly.distinct member own⟩
    simp only [asked, onBook, found, withBook]

/-- A request acts on the market as its instruction does on one book. -/
theorem request_acts (orderly : market.Orderly) {operation : MarketOperation}
    (instruction : Instruction) (asked : operation.instruction? market = some instruction) :
    let answer := market.onBook instruction.image.security (·.follow instruction)
    market.Acts operation (market.answered answer).1 (market.answered answer).2 := by
  intro answer
  rcases request_delivers orderly instruction with ⟨-, unknown⟩ | ⟨later, reports, known, delivers⟩
  · simp only [answer, unknown, answered]
    exact .rests [] rfl rfl
  · simp only [answer, known, answered]
    refine .delivers [] reports asked ?_ (by simp) ?_ rfl
    · rwa [List.append_nil]
    · rw [List.append_nil]
      exact orderly.distinct

/-- Every operation on an orderly market does one of these. -/
theorem perform_acts (orderly : market.Orderly) (operation : MarketOperation) :
    market.Acts operation (market.perform operation).1 (market.perform operation).2 := by
  cases operation with
  | submit request =>
    cases built : Order.ofNew market.nextId request with
    | error error =>
      simp only [perform, submit, built]
      exact .rests [] rfl rfl
    | ok order =>
      have spent : ({ market with nextId := market.nextId.next } : Market).Orderly :=
        ⟨orderly.distinct, orderly.titled, orderly.published⟩
      simp only [perform, submit, built]
      refine .delivers _ _ ?_ (insert_delivers spent order) (market.created_fresh order)
        (orderly.ensured order) ?_
      · simp [MarketOperation.instruction?, built, Except.toOption]
      · exact active_insert ..
  | insert order =>
    exact .delivers _ _ rfl (insert_delivers orderly order) (market.created_fresh order)
      (orderly.ensured order) (market.active_insert order)
  | cancel image => exact request_acts orderly (.cancel image) rfl
  | replace image => exact request_acts orderly (.replace image) rfl
  | start => exact .start
  | stop => exact .stop
  | picture security => exact .rests _ rfl rfl
  | sweep => exact .sweep

/-- Whatever an operation does, every book holds orders of its own security only. -/
theorem Acts.shelved {operation : MarketOperation} {next : Market} {effects : Effects}
    (acts : market.Acts operation next effects) (shelved : Shelved market.books) :
    Shelved next.books := by
  cases acts with
  | rests views books isActive => exact books ▸ shelved
  | delivers created reports asked delivers fresh distinct isActive =>
    exact delivers.shelved (shelved.append fun book member => (fresh book member).1)
  | start => exact List.forall_mem_map.mpr shelved
  | stop =>
    simp only [Market.stop, List.map_map, Shelved, List.forall_mem_map]
    intro book member order held
    contradiction
  | sweep =>
    refine List.forall_mem_map.mpr fun book member => ?_
    split
    · exact shelved book member
    · exact shelved book member

/-- Books that hold nothing add no orders. -/
theorem orders_of_fresh {books created : List Book} (empty : ∀ book ∈ created, book.orders = []) :
    ordersOf (books ++ created) = ordersOf books := by
  rw [orders_of_append, ordersOf, ordersOf, List.flatMap_eq_nil_iff.mpr empty, List.append_nil]

/-- What changes the orders of no book changes none of them all. -/
theorem orders_of_map (change : Book → Book) (same : ∀ book, (change book).orders = book.orders)
    (books : List Book) : ordersOf (books.map change) = ordersOf books := by
  rw [ordersOf, ordersOf, List.flatMap_map]
  exact congrArg (books.flatMap ·) (funext same)

/-- A closed market holds no order. -/
theorem orders_of_stop (market : Market) : ordersOf market.stop.1.books = [] := by
  simp only [stop, List.map_map, ordersOf, List.flatMap_map]
  exact List.flatMap_eq_nil_iff.mpr fun book _ => rfl

/-- A market that closes reports on all orders that it held. -/
theorem reports_of_stop (market : Market) :
    market.stop.2 = Book.closingReports (ordersOf market.books) := by
  simp only [stop, List.flatMap_map, ordersOf, Book.closingReports, List.map_flatMap]
  rfl

/-- The opening of a market leaves its orders as they are. -/
theorem orders_of_start (market : Market) :
    ordersOf market.start.books = ordersOf market.books :=
  orders_of_map Book.start (fun _ => rfl) market.books

/-- So does a sweep. -/
theorem orders_of_sweep (market : Market) :
    ordersOf market.sweep.2.books = ordersOf market.books := by
  refine orders_of_map _ (fun book => ?_) market.books
  split <;> rfl

/-- After an operation no order is held that was not held before, unless the operation brought
it. -/
theorem Acts.held {operation : MarketOperation} {next : Market} {effects : Effects}
    (acts : market.Acts operation next effects) (shelved : Shelved market.books) :
    ((ordersOf next.books).map (·.id)).Subperm
      ((operation.arrivals market ++ ordersOf market.books).map (·.id)) := by
  have kept : ((ordersOf market.books).map (·.id)).Subperm
      ((operation.arrivals market ++ ordersOf market.books).map (·.id)) := by
    rw [List.map_append]
    exact (List.sublist_append_right _ _).subperm
  cases acts with
  | rests views books isActive => rwa [books]
  | @delivers _ instruction _ created reports asked delivers fresh distinct isActive =>
    have empty : ∀ book ∈ created, book.orders = [] := fun book member => (fresh book member).1
    have held := delivers.held (shelved.append empty)
    rw [orders_of_fresh empty] at held
    simpa only [MarketOperation.arrivals, asked, Option.toList_some, List.flatMap_singleton]
      using held
  | start => rwa [orders_of_start]
  | stop =>
    rw [orders_of_stop]
    exact List.nil_subperm
  | sweep => rwa [orders_of_sweep]

/-- A report that refuses nothing is on an order that was held before or that the operation
brought. -/
theorem Acts.told {operation : MarketOperation} {next : Market} {effects : Effects}
    (acts : market.Acts operation next effects) (shelved : Shelved market.books) :
    ∀ report ∈ effects.reports, report.kind.isRefusal = true ∨
      report.order ∈ (operation.arrivals market ++ ordersOf market.books).map (·.id) := by
  cases acts with
  | rests views books isActive => simp
  | @delivers _ instruction _ created reports asked delivers fresh distinct isActive =>
    have empty : ∀ book ∈ created, book.orders = [] := fun book member => (fresh book member).1
    have told := delivers.told (shelved.append empty)
    rw [orders_of_fresh empty] at told
    simpa only [MarketOperation.arrivals, asked, Option.toList_some, List.flatMap_singleton]
      using fun report member => (told report member).2
  | start => simp
  | stop =>
    intro report member
    rw [reports_of_stop] at member
    obtain ⟨order, held, rfl⟩ := List.mem_map.mp member
    exact .inr (List.mem_map_of_mem (List.mem_append_right _ held))
  | sweep => simp

end Acts

/-- A market that is orderly, and whose books hold orders of their own security. -/
structure Tidy (market : Market) : Prop where
  orderly : market.Orderly
  shelved : Shelved market.books

/-- A tidy market stays so under every operation. -/
theorem Tidy.perform {market : Market} (tidy : market.Tidy) (operation : MarketOperation) :
    (market.perform operation).1.Tidy where
  orderly := (perform_turn tidy.orderly operation).orderly tidy.orderly
  shelved := (perform_acts tidy.orderly operation).shelved tidy.shelved

/-- A market without books is tidy. -/
theorem tidy_opened (firstId : OrderId) (capacity : Nat) : (opened firstId capacity).Tidy where
  orderly := orderly_opened firstId capacity
  shelved := by simp [Shelved, opened]

end Market

end Bourse
