import Bourse.Proofs.Deliveries

/-!
# Securities do not interfere

What happens to the orders of one security is no business of another. A run of operations on a
market and the same run without all that names other securities report the same on a security,
in the same order, answer the same, publish the same records of it, and leave it the same book.

The two runs do not have the same markets: other books may be missing in one of them, and where
a book stands among the others may differ. All that matters to a security is its book, if there
is one, and whether the market is open, since its book may still be created. `Alike` says that
two markets have that in common. An operation that concerns the security keeps it in both
markets, and one that does not keeps it in the market in which it is done.
-/

namespace Bourse

namespace MarketOperation

/-- Whether an operation names a security or comes to the books of all. -/
def concerns (security : String) : MarketOperation → Bool
  | .submit request => request.security == security
  | .insert order => order.security == security
  | .cancel image => image.security == security
  | .replace image => image.security == security
  | .picture named => named == security
  | .start | .stop | .sweep => true

end MarketOperation

/-- The record that a sweep publishes of a book, if the book has changed. -/
def Book.sweptRecord (book : Book) : List Record :=
  if book.hasChanged then [book.picture] else []

/-- What becomes known of a security in the course of an operation: how the operation is
answered, what is reported, and which records are published. -/
structure Sight where
  answer : Except Refusal (List BookView)
  reports : List Report
  records : List Record

namespace Market

/-- How a market answers an operation. -/
def answer (market : Market) : MarketOperation → Except Refusal (List BookView)
  | .cancel image => (market.cancel image).map fun _ => []
  | .replace image => (market.replace image).map fun _ => []
  | .picture security => (market.picture security).map fun view => [view]
  | .submit _ | .insert _ | .start | .stop | .sweep => .ok []

/-- What becomes known of a security in the course of an operation. -/
def sight (security : String) (market : Market) (operation : MarketOperation) : Sight where
  answer := market.answer operation
  reports := (market.perform operation).2.reports.filter (·.security == security)
  records := ((market.perform operation).2.pictures.flatMap (·.records)).filter
    (·.security == security)

/-- What becomes known of a security in a run, with each operation that concerns it. -/
def sights (security : String) (market : Market) : List MarketOperation → List Sight
  | [] => []
  | operation :: operations =>
    let later := sights security (market.perform operation).1 operations
    if operation.concerns security then market.sight security operation :: later else later

/-- What is reported on a security in the course of operations. -/
def reportsOf (security : String) (effects : List Effects) : List Report :=
  (effects.flatMap (·.reports)).filter (·.security == security)

/-- Two markets that are the same to a security. -/
structure Alike (security : String) (market other : Market) : Prop where
  found : market.book? security = other.book? security
  isActive : market.isActive = other.isActive

section Parts

variable {α : Type} {books : List Book} {security : String}

/-- Where books bear different securities, what all of them give of one security is what its
book gives. -/
theorem filter_of_books (distinct : (books.map (·.security)).Nodup) (part : Book → List α)
    (shown : α → Bool)
    (foreign : ∀ book ∈ books, book.security ≠ security → (part book).filter shown = []) :
    (books.flatMap part).filter shown =
      ((books.find? (·.security == security)).toList.flatMap part).filter shown := by
  induction books with
  | nil => rfl
  | cons book books induction =>
    obtain ⟨absent, distinct⟩ := List.nodup_cons.mp distinct
    obtain ⟨first, others⟩ := List.forall_mem_cons.mp foreign
    rw [List.flatMap_cons, List.filter_append]
    by_cases own : book.security = security
    · have none : (books.flatMap part).filter shown = [] := by
        rw [List.filter_flatMap, List.flatMap_eq_nil_iff]
        intro other member
        refine others other member fun same => absent ?_
        exact List.mem_map.mpr ⟨other, member, same.trans own.symm⟩
      simp [none, own]
    · simp only [first own, List.nil_append, List.find?_cons, beq_eq_false_iff_ne.mpr own]
      exact induction distinct others

/-- What does not change the security of a book changes the one that is found. -/
theorem find_of_map {change : Book → Book} (same : ∀ book, (change book).security = book.security) :
    (books.map change).find? (·.security == security) =
      (books.find? (·.security == security)).map change := by
  rw [List.find?_map]
  congr 2
  funext book
  exact congrArg (· == security) (same book)

end Parts

section Steps

variable {security : String} {market other : Market} {operation : MarketOperation}

/-- An operation that does not concern a security asks for nothing of it. -/
theorem foreign_instruction (given : operation.takesId = false)
    (foreign : operation.concerns security = false) {instruction : Instruction}
    (asked : operation.instruction? market = some instruction) :
    instruction.image.security ≠ security := by
  cases operation with
  | submit request => contradiction
  | insert order =>
    obtain rfl := Option.some.inj asked
    exact beq_eq_false_iff_ne.mp foreign
  | cancel image =>
    obtain rfl := Option.some.inj asked
    exact beq_eq_false_iff_ne.mp foreign
  | replace image =>
    obtain rfl := Option.some.inj asked
    exact beq_eq_false_iff_ne.mp foreign
  | start => contradiction
  | stop => contradiction
  | picture named => simp [MarketOperation.instruction?] at asked
  | sweep => contradiction

/-- An operation that does not concern a security leaves its book as it is and reports nothing on
it. -/
theorem Tidy.bystander (tidy : market.Tidy) (given : operation.takesId = false)
    (foreign : operation.concerns security = false) :
    Alike security (market.perform operation).1 market ∧
      (market.perform operation).2.reports.filter (·.security == security) = [] := by
  have acts := perform_acts tidy.orderly operation
  generalize market.perform operation = done at acts ⊢
  obtain ⟨next, effects⟩ := done
  cases acts with
  | rests views books isActive => exact ⟨⟨by rw [book?, books]; rfl, isActive⟩, rfl⟩
  | delivers created reports asked delivers fresh distinct isActive =>
    have apart := foreign_instruction given foreign asked
    have none : created.find? (·.security == security) = none := by
      apply List.find?_eq_none.mpr
      intro book member named
      have own : book.security = _ := congrArg (·.1.1) (fresh book member).2
      exact apart (own.symm.trans (eq_of_beq named))
    have shelved := tidy.shelved.append fun book member => (fresh book member).1
    refine ⟨⟨?_, isActive⟩, ?_⟩
    · rw [book?, delivers.other apart, List.find?_append, none, Option.or_none]
      rfl
    · apply List.filter_eq_nil_iff.mpr
      intro report member
      rw [(delivers.told shelved report member).1]
      simpa using apart
  | start => contradiction
  | stop => contradiction
  | sweep => contradiction

/-- An instruction that comes to the same book in two markets does the same to it. -/
theorem same_delivery {instruction : Instruction} {books others later also : List Book}
    {reports told : List Report} (first : Delivers instruction books later reports)
    (second : Delivers instruction others also told)
    (distinct : (books.map (·.security)).Nodup) (unlike : (others.map (·.security)).Nodup)
    (same : books.find? (·.security == instruction.image.security) =
      others.find? (·.security == instruction.image.security)) :
    later.find? (·.security == instruction.image.security) =
      also.find? (·.security == instruction.image.security) ∧ reports = told := by
  obtain ⟨book, found, after, rfl⟩ := first.own distinct
  obtain ⟨one, known, next, rfl⟩ := second.own unlike
  obtain rfl : book = one := Option.some.inj (found.symm.trans (same.trans known))
  exact ⟨after.trans next.symm, rfl⟩

/-- What comes to the books of all comes to the book of the security in both markets. -/
theorem Alike.of_map (alike : Alike security market other) {change : Book → Book}
    (same : ∀ book, (change book).security = book.security) :
    (market.books.map change).find? (·.security == security) =
      (other.books.map change).find? (·.security == security) := by
  rw [find_of_map same, find_of_map same]
  exact congrArg (Option.map change) alike.found

/-- A new order does the same to the book of its security in both markets. -/
theorem Alike.insert (alike : Alike security market other) (tidy : market.Tidy)
    (also : other.Tidy) {order : Order} (own : order.security = security) :
    Alike security (market.insert order).1 (other.insert order).1 ∧
      (market.insert order).2 = (other.insert order).2 := by
  subst own
  have created : market.created order = other.created order := by
    unfold created firstBook
    rw [alike.found, alike.isActive]
  have found : market.books.find? (·.security == order.security) =
      other.books.find? (·.security == order.security) := alike.found
  obtain ⟨books, reports⟩ := same_delivery (insert_delivers tidy.orderly order)
    (insert_delivers also.orderly order) (tidy.orderly.ensured order) (also.orderly.ensured order)
    (by rw [List.find?_append, List.find?_append, created]; exact congrArg (Option.or · _) found)
  refine ⟨⟨books, ?_⟩, reports⟩
  rw [active_insert, active_insert, alike.isActive]

/-- Whether there is a book for a request is the same in both markets, and so is what it does. -/
theorem Alike.request (alike : Alike security market other) (tidy : market.Tidy)
    (also : other.Tidy) (instruction : Instruction)
    (own : instruction.image.security = security) :
    let first := market.onBook instruction.image.security (·.follow instruction)
    let second := other.onBook instruction.image.security (·.follow instruction)
    Alike security (market.answered first).1 (other.answered second).1 ∧
      (market.answered first).2 = (other.answered second).2 ∧
      first.map (fun _ => ([] : List BookView)) = second.map fun _ => [] := by
  intro first second
  subst own
  rcases request_delivers tidy.orderly instruction with ⟨none, unknown⟩ |
    ⟨later, reports, known, delivers⟩
  · rcases request_delivers also.orderly instruction with ⟨-, missing⟩ | ⟨_, _, -, delivers⟩
    · simp only [first, second, unknown, missing, answered]
      exact ⟨alike, trivial, trivial⟩
    · obtain ⟨book, found, -⟩ := delivers.own also.orderly.distinct
      have absent := alike.found.symm.trans none
      rw [book?, found] at absent
      contradiction
  · rcases request_delivers also.orderly instruction with ⟨none, -⟩ | ⟨after, told, met, brings⟩
    · obtain ⟨book, found, -⟩ := delivers.own tidy.orderly.distinct
      have absent := alike.found.trans none
      rw [book?, found] at absent
      contradiction
    · obtain ⟨books, rfl⟩ := same_delivery delivers brings tidy.orderly.distinct
        also.orderly.distinct alike.found
      simp only [first, second, known, met, answered]
      exact ⟨⟨books, alike.isActive⟩, trivial, rfl⟩

/-- A closed market reports, of a security, what its book reports. -/
theorem Tidy.stop_reports (tidy : market.Tidy) (security : String) :
    market.stop.2.filter (·.security == security) =
      ((market.book? security).toList.flatMap fun book => book.stop.2).filter
        (·.security == security) := by
  simp only [stop, List.flatMap_map]
  refine filter_of_books tidy.orderly.distinct (fun book => book.stop.2) _ ?_
  intro book member foreign
  apply List.filter_eq_nil_iff.mpr
  intro report sent
  obtain ⟨order, held, rfl⟩ := List.mem_map.mp sent
  have filed : order.security = book.security := tidy.shelved book member order held
  simpa [Report.of, filed] using foreign

/-- The records that a sweep publishes of a security are those of its book, if it has changed. -/
theorem Orderly.swept_records (orderly : market.Orderly) (security : String) :
    (market.sweep.1.pictures.flatMap (·.records)).filter (·.security == security) =
      (((market.book? security).toList.flatMap Book.sweptRecord).filter
        (·.security == security)).reverse := by
  have changes : market.changes = market.books.flatMap Book.sweptRecord := by
    unfold Market.changes
    induction market.books with
    | nil => rfl
    | cons book books induction =>
      rw [List.flatMap_cons, ← induction]
      cases changed : book.hasChanged <;> simp [Book.sweptRecord, changed]
  rw [(sweep_records orderly).1, List.filter_reverse, changes]
  refine congrArg List.reverse (filter_of_books orderly.distinct _ _ ?_)
  intro book member foreign
  have titled : book.picture.security = book.security := orderly.titled book member
  cases changed : book.hasChanged <;> simp [Book.sweptRecord, changed, titled, foreign]

/-- Two markets show the same of a security if their answers, their reports on it and its records
are the same. -/
theorem sight_eq (answers : market.answer operation = other.answer operation)
    (reports : (market.perform operation).2.reports.filter (·.security == security) =
      (other.perform operation).2.reports.filter (·.security == security))
    (records : ((market.perform operation).2.pictures.flatMap (·.records)).filter
        (·.security == security) =
      ((other.perform operation).2.pictures.flatMap (·.records)).filter
        (·.security == security)) :
    market.sight security operation = other.sight security operation := by
  simp only [sight, answers, reports, records]

/-- They do if the effects of the operation are the same. -/
theorem sight_eq_of_effects (answers : market.answer operation = other.answer operation)
    (effects : (market.perform operation).2 = (other.perform operation).2) :
    market.sight security operation = other.sight security operation := by
  simp only [sight, answers, effects]

/-- An operation that concerns a security does the same to it in both markets. -/
theorem Alike.perform (alike : Alike security market other) (tidy : market.Tidy)
    (also : other.Tidy) (given : operation.takesId = false)
    (own : operation.concerns security = true) :
    Alike security (market.perform operation).1 (other.perform operation).1 ∧
      market.sight security operation = other.sight security operation := by
  cases operation with
  | submit request => contradiction
  | insert order =>
    obtain ⟨next, reports⟩ := alike.insert tidy also (eq_of_beq own)
    exact ⟨next, sight_eq rfl (congrArg _ reports) rfl⟩
  | cancel image =>
    obtain ⟨next, effects, answers⟩ := alike.request tidy also (.cancel image) (eq_of_beq own)
    exact ⟨next, sight_eq_of_effects answers effects⟩
  | replace image =>
    obtain ⟨next, effects, answers⟩ := alike.request tidy also (.replace image) (eq_of_beq own)
    exact ⟨next, sight_eq_of_effects answers effects⟩
  | start =>
    refine ⟨⟨?_, rfl⟩, sight_eq_of_effects rfl rfl⟩
    exact alike.of_map fun book => rfl
  | stop =>
    refine ⟨⟨?_, rfl⟩, sight_eq rfl ?_ rfl⟩
    · simp only [Market.perform, Market.stop, List.map_map, book?]
      exact alike.of_map fun book => rfl
    · simp only [Market.perform, tidy.stop_reports, also.stop_reports, alike.found]
  | picture named =>
    obtain rfl : named = security := eq_of_beq own
    refine ⟨alike, sight_eq ?_ rfl rfl⟩
    simp only [answer, picture, alike.found]
  | sweep =>
    refine ⟨⟨?_, alike.isActive⟩, sight_eq rfl rfl ?_⟩
    · exact alike.of_map fun book => congrArg Prod.fst (swept_book book).1
    · simp only [Market.perform, tidy.orderly.swept_records, also.orderly.swept_records,
        alike.found]

end Steps

section Runs

variable {security : String} {market other : Market}

/-- The reports of the first effects come before those of the later ones. -/
theorem reports_of_cons (security : String) (effects : Effects) (later : List Effects) :
    reportsOf security (effects :: later) =
      effects.reports.filter (·.security == security) ++ reportsOf security later := by
  rw [reportsOf, List.flatMap_cons, List.filter_append]
  rfl

/-- Of two markets that are alike, one goes through a run and the other one through what concerns
a security. -/
theorem Alike.run (operations : List MarketOperation)
    (given : ∀ operation ∈ operations, operation.takesId = false)
    (alike : Alike security market other) (tidy : market.Tidy) (also : other.Tidy) :
    let own := operations.filter (·.concerns security)
    Alike security (market.performAll operations).1 (other.performAll own).1 ∧
      reportsOf security (market.performAll operations).2 =
        reportsOf security (other.performAll own).2 ∧
      market.sights security operations = other.sights security own := by
  induction operations generalizing market other with
  | nil => exact ⟨alike, rfl, rfl⟩
  | cons operation operations induction =>
    obtain ⟨first, others⟩ := List.forall_mem_cons.mp given
    intro own
    by_cases concerned : operation.concerns security = true
    · obtain ⟨next, same⟩ := alike.perform tidy also first concerned
      obtain ⟨final, reports, sights⟩ :=
        induction others next (tidy.perform operation) (also.perform operation)
      have seen := congrArg Sight.reports same
      simp only [own, List.filter_cons, concerned, if_true, performAll, reports_of_cons,
        Market.sights]
      refine ⟨final, ?_, ?_⟩
      · rw [reports]
        exact congrArg (· ++ _) seen
      · rw [same, sights]
    · have foreign := Bool.eq_false_iff.mpr concerned
      obtain ⟨next, silent⟩ := tidy.bystander first foreign
      have still : Alike security (market.perform operation).1 other :=
        ⟨next.found.trans alike.found, next.isActive.trans alike.isActive⟩
      obtain ⟨final, reports, sights⟩ := induction others still (tidy.perform operation) also
      simp only [own, List.filter_cons, foreign, performAll, reports_of_cons, Market.sights, silent,
        List.nil_append]
      exact ⟨final, reports, sights⟩

end Runs

/-- What concerns no security but others makes no difference to a security. Leave it out of a run,
and the run still reports the same on the security, in the same order; what concerns the security
is answered the same, and every sweep publishes the same record of it; and the run leaves the
same book. -/
theorem securities_do_not_interfere (security : String) (firstId : OrderId) (capacity : Nat)
    (operations : List MarketOperation)
    (given : ∀ operation ∈ operations, operation.takesId = false) :
    let market := opened firstId capacity
    let own := operations.filter (·.concerns security)
    reportsOf security (market.performAll operations).2 =
        reportsOf security (market.performAll own).2 ∧
      market.sights security operations = market.sights security own ∧
      (market.performAll operations).1.book? security =
        (market.performAll own).1.book? security := by
  intro market own
  have tidy := tidy_opened firstId capacity
  obtain ⟨final, reports, sights⟩ := Alike.run operations given ⟨rfl, rfl⟩ tidy tidy
  exact ⟨reports, sights, final.found⟩

/-- A day on which two securities trade, one of them is cancelled, and the market closes with an
order of each. -/
def twoSecurities : List MarketOperation :=
  let order id security side quantity price : Order :=
    { (default : Order) with id := ⟨id⟩, security, side, type := .limit, quantity, price }
  [.insert (order 1 "A" .sell 5 10),
   .insert (order 2 "B" .buy 3 7),
   .insert (order 3 "A" .buy 2 10),
   .cancel (order 2 "B" .buy 3 7),
   .sweep,
   .insert (order 4 "B" .sell 1 7),
   .stop,
   .insert (order 5 "B" .buy 1 7),
   .start,
   .sweep,
   .cancel (order 1 "A" .sell 5 10)]

/-- Four operations on the other security are left out, and the sale that the market cancels as it
closes is the same one. -/
theorem two_securities_apart :
    let market := opened ⟨1⟩ 1
    let own := twoSecurities.filter (·.concerns "A")
    (∀ operation ∈ twoSecurities, operation.takesId = false) ∧
      own.length = 7 ∧
      (reportsOf "A" (market.performAll own).2).map
          (fun report => (report.kind, report.order.value)) =
        [(.new, 1), (.new, 3), (.partialFill, 1), (.fill, 3), (.cancelled, 1),
          (.cancelRejected, 1)] ∧
      reportsOf "A" (market.performAll twoSecurities).2 =
        reportsOf "A" (market.performAll own).2 ∧
      market.sights "A" twoSecurities = market.sights "A" own ∧
      (market.performAll twoSecurities).1.book? "A" = (market.performAll own).1.book? "A" :=
  ⟨by decide, by decide, by decide, securities_do_not_interfere "A" ⟨1⟩ 1 _ (by decide)⟩

end Market

end Bourse
