import Bourse.Registry
import Bourse.Proofs.Consistency
import Mathlib.Data.List.Induction

/-!
# A market behind its registry

The registry of a market comes to its books by their securities and in the order of their creation,
and enters a new book on one way after the other. `Represents` says when the two ways belong
together: the places in the order are all places of the shelf, as they were given out, and a
security leads to a place exactly if the book there bears it. Then two books never bear one
security, so a book that is changed at its place is the book that the market changes by its
security, and a walk along the order is a walk through the books of the market.

Every operation keeps this and answers as the market does, so what holds of a market throughout a
run holds of its registry.
-/

namespace Bourse

namespace Registry

/-- The books on the way of their creation. -/
def books (registry : Registry) : List Book := registry.byAge.filterMap (registry.shelf[·]?)

/-- A registry represents a market whose books are on its shelf in the order of the places, with
both ways leading to them. -/
structure Represents (registry : Registry) (market : Market) : Prop where
  shelf : registry.shelf = market.books
  aged : registry.byAge = List.range registry.shelf.length
  keyed : ∀ (security : String) (place : Nat), registry.bySecurity[security]? = some place ↔
    registry.shelf[place]?.map Book.security = some security
  batch : registry.batch = market.batch
  nextId : registry.nextId = market.nextId
  isActive : registry.isActive = market.isActive

/-- What is found at the places of a list is the list. -/
theorem filter_map_range {α : Type} (items : List α) :
    (List.range items.length).filterMap (items[·]?) = items := by
  induction items using List.reverseRecOn with
  | nil => rfl
  | append_singleton items item induction =>
    have early : (List.range items.length).filterMap ((items ++ [item])[·]?) = items := by
      refine Eq.trans (List.filterMap_congr fun place inside => ?_) induction
      exact List.getElem?_append_left (List.mem_range.mp inside)
    rw [List.length_append, List.length_singleton, List.range_succ, List.filterMap_append, early]
    simp

section Represents

variable {registry : Registry} {market : Market}

/-- A registry without books represents the market without books. -/
theorem represents_opened (firstId : OrderId) (capacity : Nat) :
    (opened firstId capacity).Represents (.opened firstId capacity) where
  shelf := rfl
  aged := rfl
  keyed := fun _ _ => ⟨nofun, nofun⟩
  batch := rfl
  nextId := rfl
  isActive := rfl

/-- The books on the way of their creation are the books of the market. -/
theorem Represents.books_eq (represents : registry.Represents market) :
    registry.books = market.books := by
  rw [books, represents.aged, filter_map_range, represents.shelf]

/-- Books at two places bear two securities, since a security leads to one place. -/
theorem Represents.distinct (represents : registry.Represents market) :
    (market.books.map (·.security)).Nodup := by
  rw [← represents.shelf, List.nodup_iff_getElem?_ne_getElem?]
  intro first second before inside same
  rw [List.length_map] at inside
  have present : registry.shelf[second]?.map Book.security =
      some registry.shelf[second].security := by
    rw [List.getElem?_eq_getElem inside, Option.map_some]
  rw [List.getElem?_map, List.getElem?_map, present] at same
  have one := (represents.keyed _ _).mpr same
  have other := (represents.keyed _ _).mpr present
  rw [one] at other
  exact Nat.ne_of_lt before (Option.some.inj other)

/-- A security that leads to a place leads to the book of the market that is found by it. -/
theorem Represents.found (represents : registry.Represents market) {security : String}
    {place : Nat} (leads : registry.bySecurity[security]? = some place) :
    ∃ book, registry.shelf[place]? = some book ∧ book.security = security ∧
      market.book? security = some book := by
  obtain ⟨book, here, rfl⟩ := Option.map_eq_some_iff.mp ((represents.keyed _ _).mp leads)
  refine ⟨book, here, rfl, ?_⟩
  refine Market.found_by_security represents.distinct ?_
  rw [← represents.shelf]
  exact List.mem_of_getElem? here

/-- A security that leads nowhere is that of no book. -/
theorem Represents.missing (represents : registry.Represents market) {security : String}
    (nowhere : registry.bySecurity[security]? = none) : market.book? security = none := by
  refine List.find?_eq_none.mpr fun book member same => ?_
  rw [← represents.shelf] at member
  obtain ⟨place, here⟩ := List.mem_iff_getElem?.mp member
  have leads := (represents.keyed book.security place).mpr (by rw [here]; rfl)
  rw [eq_of_beq same, nowhere] at leads
  contradiction

/-- Where books bear different securities, to exchange a book at its place is to exchange the one
of its security. -/
theorem set_eq_map {books : List Book} (distinct : (books.map (·.security)).Nodup) {place : Nat}
    {book next : Book} (here : books[place]? = some book) (same : next.security = book.security) :
    books.set place next =
      books.map fun other => if other.security == next.security then next else other := by
  refine List.ext_getElem? fun other => ?_
  rw [List.getElem?_map]
  by_cases it : place = other
  · subst it
    have inside : place < books.length := (List.getElem?_eq_some_iff.mp here).1
    rw [List.getElem?_set_self inside, here, Option.map_some, same, beq_self_eq_true, if_pos rfl]
  · rw [List.getElem?_set_ne it]
    cases there : books[other]? with
    | none => rfl
    | some neighbour =>
      have apart : ¬ (neighbour.security == next.security) = true := by
        intro alike
        have both : (books.map (·.security))[place]? = (books.map (·.security))[other]? := by
          rw [List.getElem?_map, List.getElem?_map, here, there, Option.map_some, Option.map_some,
            eq_of_beq alike, same]
        refine it ((List.getElem?_inj ?_ distinct).mp both)
        rw [List.length_map]
        exact (List.getElem?_eq_some_iff.mp here).1
      rw [Option.map_some, if_neg apart]

/-- What is done to the book at a place is done to the book of its security. -/
theorem Represents.visited (represents : registry.Represents market)
    (operation : Book → Book × List Report) {place : Nat} {book : Book}
    (here : registry.shelf[place]? = some book)
    (same : (operation book).1.security = book.security) :
    (registry.visit operation place).1.Represents (market.withBook (operation book).1) ∧
      (registry.visit operation place).2 = (operation book).2 := by
  have there := here
  rw [represents.shelf] at there
  have exchanged := set_eq_map represents.distinct there same
  rw [visit, here]
  refine ⟨⟨?_, ?_, ?_, represents.batch, represents.nextId, represents.isActive⟩, rfl⟩
  · exact represents.shelf ▸ exchanged
  · rw [List.length_set]
    exact represents.aged
  · intro security other
    refine (represents.keyed security other).trans (Eq.congr_left ?_)
    by_cases it : place = other
    · subst it
      have inside : place < registry.shelf.length := (List.getElem?_eq_some_iff.mp here).1
      rw [List.getElem?_set_self inside, here, Option.map_some, Option.map_some, same]
    · rw [List.getElem?_set_ne it]

/-- A security that leads nowhere may lead to a new place for its book, and to no other. -/
theorem keyed_insert {shelf : List Book} {bySecurity : Std.TreeMap String Nat}
    (keyed : ∀ security place, bySecurity[security]? = some place ↔
      shelf[place]?.map Book.security = some security)
    {book : Book} (nowhere : bySecurity[book.security]? = none) (security : String) (place : Nat) :
    (bySecurity.insert book.security shelf.length)[security]? = some place ↔
      (shelf ++ [book])[place]?.map Book.security = some security := by
  rw [Std.TreeMap.getElem?_insert]
  rcases Nat.lt_trichotomy place shelf.length with old | rfl | beyond
  · rw [List.getElem?_append_left old, ← keyed]
    split
    case isTrue own =>
      obtain rfl := Std.LawfulEqCmp.eq_of_compare own
      rw [nowhere, Option.some.injEq]
      exact ⟨fun new => absurd new (Nat.ne_of_gt old), nofun⟩
    case isFalse => rfl
  · rw [List.getElem?_concat_length, Option.map_some, Option.some.injEq]
    by_cases own : book.security = security
    · rw [own, if_pos Std.ReflCmp.compare_self]
      exact ⟨fun _ => rfl, fun _ => rfl⟩
    · rw [if_neg (mt Std.LawfulEqCmp.eq_of_compare own), keyed,
        List.getElem?_eq_none (Nat.le_refl _)]
      exact ⟨nofun, fun same => absurd same own⟩
  · rw [List.getElem?_eq_none (l := shelf ++ [book]) (by rw [List.length_append]; exact beyond)]
    split
    case isTrue own => exact ⟨fun new => absurd (Option.some.inj new) (Nat.ne_of_lt beyond), nofun⟩
    case isFalse => rw [keyed, List.getElem?_eq_none (Nat.le_of_lt beyond)]

/-- Both make the same book for the first order of a security. -/
theorem Represents.first_book (represents : registry.Represents market) (first : Order) :
    registry.firstBook first = market.firstBook first := by
  rw [firstBook, represents.isActive, Market.firstBook]

/-- An order finds the book that the market finds for it, which may be created for it and is then
entered on both ways. -/
theorem Represents.entered (represents : registry.Represents market) (first : Order) :
    let (place, next) := registry.findOrEnter first
    next.Represents (market.ensureBook first).2 ∧
      next.shelf[place]? = some (market.ensureBook first).1 := by
  cases leads : registry.bySecurity[first.security]? with
  | some place =>
    obtain ⟨book, here, -, found⟩ := represents.found leads
    have entered : registry.findOrEnter first = (place, registry) := by
      rw [findOrEnter, find, leads]
    rw [entered, Market.ensureBook, found]
    exact ⟨represents, here⟩
  | none =>
    have entered : registry.findOrEnter first = (registry.shelf.length, registry.enter first) := by
      rw [findOrEnter, find, leads]
    have made := represents.first_book first
    have named : first.security = (market.firstBook first).security :=
      (congrArg Prod.fst (market.titles_first_book first)).symm
    rw [entered, Market.ensureBook, represents.missing leads, enter, made]
    rw [named] at leads ⊢
    refine ⟨⟨?_, ?_, keyed_insert represents.keyed leads, represents.batch, represents.nextId,
      represents.isActive⟩, List.getElem?_concat_length⟩
    · exact congrArg (· ++ [market.firstBook first]) represents.shelf
    · dsimp only
      rw [represents.aged, List.length_append, List.length_singleton, List.range_succ]

end Represents

/-- To go through all places from one on is to go through the books that stand there. -/
theorem visit_all_eq (registry : Registry) (operation : Book → Book × List Report)
    (front back : List Book) (shelf : registry.shelf = front ++ back) :
    registry.visitAll operation (List.range' front.length back.length) =
      ({ registry with shelf := front ++ back.map fun book => (operation book).1 },
        back.flatMap fun book => (operation book).2) := by
  induction back generalizing registry front with
  | nil =>
    rw [List.map_nil, ← shelf]
    rfl
  | cons book back induction =>
    have here : registry.shelf[front.length]? = some book := by
      rw [shelf, List.getElem?_append_right (Nat.le_refl _), Nat.sub_self]
      rfl
    have exchanged : registry.shelf.set front.length (operation book).1 =
        front ++ [(operation book).1] ++ back := by
      rw [shelf, List.set_append_right _ _ (Nat.le_refl _), Nat.sub_self, List.append_assoc]
      rfl
    have later := induction { registry with shelf := front ++ [(operation book).1] ++ back }
      (front ++ [(operation book).1]) rfl
    rw [List.length_append, List.length_singleton] at later
    rw [List.length_cons, List.range'_succ, visitAll, visit, here]
    dsimp only
    rw [exchanged, later]
    simp

/-- A book that has changed is published, and its record goes into the batch. -/
theorem sweep_all_changed {registry : Registry} {place : Nat} (places : List Nat) {book : Book}
    (here : registry.shelf[place]? = some book) (changed : book.hasChanged = true) :
    registry.sweepAll (place :: places) =
      let batch := registry.batch.push book.picture
      let next := { registry with shelf := registry.shelf.set place book.publish.2, batch }
      if batch.isFull then
        let later := sweepAll { next with batch := batch.reset } places
        (.flushed batch later.1, later.2)
      else next.sweepAll places := by
  rw [sweepAll, here]
  dsimp only
  rw [changed]
  rfl

/-- A book that has not changed is passed over. -/
theorem sweep_all_unchanged {registry : Registry} {place : Nat} (places : List Nat) {book : Book}
    (here : registry.shelf[place]? = some book) (unchanged : book.hasChanged = false) :
    registry.sweepAll (place :: places) = registry.sweepAll places := by
  rw [sweepAll, here]
  dsimp only
  rw [unchanged]
  rfl

/-- To sweep the places up to one, the last place first, is to fill pictures with the records of
the books that stand there and have changed, the last book first.

Proof: by induction on the books from the last one on, which is the first that is looked at. -/
theorem sweep_all_eq (registry : Registry) (front back : List Book)
    (shelf : registry.shelf = front ++ back) :
    registry.sweepAll (List.range front.length).reverse =
      let (published, batch) := Market.fillPictures registry.batch
        ((front.filter (·.hasChanged)).map Book.picture).reverse
      let swept := front.map fun book => if book.hasChanged then book.publish.2 else book
      (published, { registry with shelf := swept ++ back, batch }) := by
  induction front using List.reverseRecOn generalizing registry back with
  | nil =>
    obtain rfl : registry.shelf = back := shelf
    simp only [List.length_nil, List.range_zero, List.reverse_nil, sweepAll, List.filter_nil,
      List.map_nil, Market.fillPictures, List.nil_append]
    split <;> rfl
  | append_singleton front book induction =>
    rw [List.append_assoc, List.singleton_append] at shelf
    have here : registry.shelf[front.length]? = some book := by
      rw [shelf, List.getElem?_append_right (Nat.le_refl _), Nat.sub_self]
      rfl
    rw [List.length_append, List.length_singleton, List.range_succ, List.reverse_append,
      List.reverse_singleton, List.singleton_append]
    cases changed : book.hasChanged with
    | false =>
      rw [sweep_all_unchanged _ here changed, induction _ _ shelf]
      simp [changed]
    | true =>
      have exchanged : registry.shelf.set front.length book.publish.2 =
          front ++ (book.publish.2 :: back) := by
        rw [shelf, List.set_append_right _ _ (Nat.le_refl _), Nat.sub_self]
        rfl
      have records : ((front ++ [book]).filter (·.hasChanged)).map Book.picture =
          (front.filter (·.hasChanged)).map Book.picture ++ [book.picture] := by
        simp [changed]
      rw [sweep_all_changed _ here changed, exchanged, records, List.reverse_append,
        List.reverse_singleton, List.singleton_append, Market.fillPictures]
      by_cases full : (registry.batch.push book.picture).isFull = true
      · simp only [if_pos full]
        rw [induction _ _ rfl]
        simp [changed]
      · simp only [if_neg full]
        rw [induction _ _ rfl]
        simp [changed]

/-- The book that an order creates, if its security leads nowhere. -/
def created (registry : Registry) (order : Order) : List Book :=
  match registry.find order.security with
  | .ok _ => []
  | .error _ => [registry.firstBook order]

/-- The registry after a request on a book, which has no effect where there is no book. -/
def answered (registry : Registry) : Except Refusal (Registry × List Report) → Registry × Effects
  | .ok (next, reports) => (next, { reports })
  | .error _ => (registry, {})

/-- The registry after an operation, and its effects. -/
def perform (registry : Registry) : MarketOperation → Registry × Effects
  | .submit request =>
    let (_, next, reports) := registry.submit request
    match Order.ofNew registry.nextId request with
    | .ok order => (next, { created := registry.created order, reports })
    | .error _ => (next, { reports })
  | .insert order =>
    let (next, reports) := registry.insert order
    (next, { created := registry.created order, reports })
  | .cancel image => registry.answered (registry.cancel image)
  | .replace image => registry.answered (registry.replace image)
  | .start => (registry.start, {})
  | .stop =>
    let (next, reports) := registry.stop
    (next, { reports })
  | .picture security => (registry, { views := (registry.picture security).toOption.toList })
  | .sweep =>
    let (published, next) := registry.sweep
    (next, { pictures := published.pictures })

/-- The registry after operations in a row, and the effects of each of them. -/
def performAll (registry : Registry) : List MarketOperation → Registry × List Effects
  | [] => (registry, [])
  | operation :: operations =>
    let (next, effects) := registry.perform operation
    let (final, later) := next.performAll operations
    (final, effects :: later)

/-- A request on a book of the registry and of the market is refused for one reason, or it leads
to a registry that represents the market, with the same reports. -/
def Agree : Except Refusal (Registry × List Report) → Except Refusal (Market × List Report) → Prop
  | .ok (registry, reports), .ok (market, sent) => registry.Represents market ∧ reports = sent
  | .error refusal, .error cause => refusal = cause
  | _, _ => False

section Operations

variable {registry : Registry} {market : Market}

/-- Both create the same book for an order, or none. -/
theorem Represents.created_eq (represents : registry.Represents market) (order : Order) :
    registry.created order = market.created order := by
  cases leads : registry.bySecurity[order.security]? with
  | some place =>
    obtain ⟨book, -, -, found⟩ := represents.found leads
    rw [created, find, leads, Market.created, found]
  | none =>
    rw [created, find, leads, Market.created, represents.missing leads]
    exact congrArg (fun book => [book]) (represents.first_book order)

/-- An order goes the same way in both, with the same reports. -/
theorem Represents.insert (represents : registry.Represents market) (order : Order) :
    (registry.insert order).1.Represents (market.insert order).1 ∧
      (registry.insert order).2 = (market.insert order).2 := by
  obtain ⟨entered, here⟩ := represents.entered order
  have follows := Book.Follows.insert (market.ensureBook order).1 order
  exact entered.visited (·.insert order) here (congrArg Prod.fst follows.titles)

/-- The identifier of a request is spent on both sides, and its order comes to its book. -/
theorem Represents.submit (represents : registry.Represents market) (request : NewOrder) :
    (registry.submit request).1 = (market.submit request).1 ∧
      (registry.submit request).2.1.Represents (market.submit request).2.1 ∧
      (registry.submit request).2.2 = (market.submit request).2.2 := by
  have spent : ({ registry with nextId := registry.nextId.next } : Registry).Represents
      { market with nextId := market.nextId.next } :=
    { represents with nextId := congrArg OrderId.next represents.nextId }
  unfold Registry.submit Market.submit
  rw [← represents.nextId] at spent ⊢
  dsimp only
  cases Order.ofNew registry.nextId request with
  | error error => exact ⟨rfl, spent, rfl⟩
  | ok order => exact ⟨rfl, spent.insert order⟩

/-- A request finds its book on both sides, or on neither. -/
theorem Represents.on_book (represents : registry.Represents market) (security : String)
    {operation : Book → Book × List Report}
    (follows : ∀ book : Book, book.Follows (operation book).1) :
    Agree (registry.onBook security operation) (market.onBook security operation) := by
  cases leads : registry.bySecurity[security]? with
  | some place =>
    obtain ⟨book, here, -, found⟩ := represents.found leads
    rw [onBook, find, leads, Market.onBook, found]
    exact represents.visited operation here (congrArg Prod.fst (follows book).titles)
  | none =>
    rw [onBook, find, leads, Market.onBook, represents.missing leads]
    exact rfl

/-- What is done to every book on the way of creation is done to every book of the market. -/
theorem Represents.visited_all (represents : registry.Represents market)
    (operation : Book → Book × List Report)
    (same : ∀ book, (operation book).1.security = book.security) :
    (registry.visitAll operation registry.byAge).1.Represents
        { market with books := market.books.map fun book => (operation book).1 } ∧
      (registry.visitAll operation registry.byAge).2 =
        market.books.flatMap fun book => (operation book).2 := by
  have walk := registry.visit_all_eq operation [] registry.shelf rfl
  rw [List.length_nil, ← List.range_eq_range', ← represents.aged, List.nil_append,
    represents.shelf] at walk
  rw [walk]
  refine ⟨⟨rfl, ?_, ?_, represents.batch, represents.nextId, represents.isActive⟩, rfl⟩
  · rw [List.length_map, ← represents.shelf]
    exact represents.aged
  · intro security place
    refine (represents.keyed security place).trans (Eq.congr_left ?_)
    rw [represents.shelf, List.getElem?_map, Option.map_map]
    exact congrArg (fun change => market.books[place]?.map change)
      (funext fun book => (same book).symm)

/-- Both open. -/
theorem Represents.start (represents : registry.Represents market) :
    registry.start.Represents market.start := by
  have opened : ({ registry with isActive := true } : Registry).Represents
      { market with isActive := true } := { represents with isActive := rfl }
  exact (opened.visited_all (fun book => (book.start, [])) fun _ => rfl).1

/-- Both close, with the same reports. -/
theorem Represents.stop (represents : registry.Represents market) :
    registry.stop.1.Represents market.stop.1 ∧ registry.stop.2 = market.stop.2 := by
  have closed : ({ registry with isActive := false } : Registry).Represents
      { market with isActive := false } := { represents with isActive := rfl }
  have walk := closed.visited_all Book.stop fun _ => rfl
  unfold Market.stop
  dsimp only
  rw [List.map_map, List.flatMap_map]
  exact walk

/-- A query shows the same on both sides. -/
theorem Represents.picture_eq (represents : registry.Represents market) (security : String) :
    registry.picture security = market.picture security := by
  cases leads : registry.bySecurity[security]? with
  | some place =>
    obtain ⟨book, here, -, found⟩ := represents.found leads
    rw [picture, find, leads, Market.picture, found]
    simp only [bind, Except.bind, here]
  | none =>
    rw [picture, find, leads, Market.picture, represents.missing leads]
    rfl

/-- The securities that lead to a place are those of the books. -/
theorem Represents.keys_perm (represents : registry.Represents market) :
    registry.bySecurity.keys.Perm (market.books.map (·.security)) := by
  rw [List.perm_ext_iff_of_nodup Std.TreeMap.nodup_keys represents.distinct]
  intro security
  rw [Std.TreeMap.mem_keys, Std.TreeMap.mem_iff_isSome_getElem?, Option.isSome_iff_exists,
    ← represents.shelf, List.mem_map]
  constructor
  · rintro ⟨place, leads⟩
    obtain ⟨book, here, same⟩ := Option.map_eq_some_iff.mp ((represents.keyed _ _).mp leads)
    exact ⟨book, List.mem_of_getElem? here, same⟩
  · rintro ⟨book, member, rfl⟩
    obtain ⟨place, here⟩ := List.mem_iff_getElem?.mp member
    exact ⟨place, (represents.keyed _ _).mpr (by rw [here]; rfl)⟩

/-- Both sides list the same securities, in one order. -/
theorem Represents.securities_eq (represents : registry.Represents market) :
    registry.securities = market.securities := by
  have same : registry.securities.Perm market.securities :=
    ((List.mergeSort_perm ..).trans represents.keys_perm).trans market.securities_perm.symm
  exact same.eq_of_pairwise (fun _ _ _ _ => le_antisymm) (Text.merge_sort_ascends _)
    (Text.merge_sort_ascends _)

/-- A sweep publishes the same on both sides. -/
theorem Represents.sweep (represents : registry.Represents market) :
    registry.sweep.1 = market.sweep.1 ∧ registry.sweep.2.Represents market.sweep.2 := by
  have walk := registry.sweep_all_eq registry.shelf [] (List.append_nil _).symm
  rw [← represents.aged] at walk
  simp only [List.append_nil, represents.shelf, represents.batch] at walk
  unfold Registry.sweep Market.sweep
  rw [walk]
  refine ⟨rfl, ⟨rfl, ?_, ?_, rfl, represents.nextId, represents.isActive⟩⟩
  · dsimp only
    rw [List.length_map, ← represents.shelf]
    exact represents.aged
  · intro security place
    refine (represents.keyed security place).trans (Eq.congr_left ?_)
    dsimp only
    rw [represents.shelf, List.getElem?_map, Option.map_map]
    refine congrArg (fun change => market.books[place]?.map change) (funext fun book => ?_)
    exact (congrArg Prod.fst (Market.swept_book book).1).symm

/-- Every operation leads to a registry that represents the market after it, with the same
effects. -/
theorem Represents.perform (represents : registry.Represents market)
    (operation : MarketOperation) :
    (registry.perform operation).1.Represents (market.perform operation).1 ∧
      (registry.perform operation).2 = (market.perform operation).2 := by
  have answers {own : Except Refusal (Registry × List Report)}
      {other : Except Refusal (Market × List Report)} (agree : Agree own other) :
      (registry.answered own).1.Represents (market.answered other).1 ∧
        (registry.answered own).2 = (market.answered other).2 := by
    cases own <;> cases other
    · exact ⟨represents, rfl⟩
    · exact agree.elim
    · exact agree.elim
    · exact ⟨agree.1, congrArg (fun reports => ({ reports } : Effects)) agree.2⟩
  cases operation with
  | submit request =>
    obtain ⟨-, next, reports⟩ := represents.submit request
    rw [Registry.perform, Market.perform, ← represents.nextId]
    dsimp only
    cases Order.ofNew registry.nextId request with
    | error error => exact ⟨next, congrArg (fun reports => ({ reports } : Effects)) reports⟩
    | ok order =>
      dsimp only
      rw [reports, represents.created_eq]
      exact ⟨next, rfl⟩
  | insert order =>
    obtain ⟨next, reports⟩ := represents.insert order
    rw [Registry.perform, Market.perform]
    dsimp only
    rw [reports, represents.created_eq]
    exact ⟨next, rfl⟩
  | cancel image => exact answers (represents.on_book image.security (Book.Follows.cancel · image))
  | replace image =>
    exact answers (represents.on_book image.security (Book.Follows.replace · image))
  | start => exact ⟨represents.start, rfl⟩
  | stop =>
    obtain ⟨next, reports⟩ := represents.stop
    exact ⟨next, congrArg (fun reports => ({ reports } : Effects)) reports⟩
  | picture security =>
    rw [Registry.perform, Market.perform, represents.picture_eq]
    exact ⟨represents, rfl⟩
  | sweep =>
    obtain ⟨published, next⟩ := represents.sweep
    rw [Registry.perform, Market.perform]
    dsimp only
    rw [published]
    exact ⟨next, rfl⟩

/-- A run of a registry is a run of the market that it represents. -/
theorem Represents.run (represents : registry.Represents market)
    (operations : List MarketOperation) :
    (registry.performAll operations).1.Represents (market.performAll operations).1 ∧
      (registry.performAll operations).2 = (market.performAll operations).2 := by
  induction operations generalizing registry market with
  | nil => exact ⟨represents, rfl⟩
  | cons operation operations induction =>
    obtain ⟨next, effects⟩ := represents.perform operation
    obtain ⟨final, later⟩ := induction next
    exact ⟨final, congrArg₂ List.cons effects later⟩

end Operations

/-- What holds of a registry at any time. -/
structure Consistent (registry : Registry) : Prop where
  /-- A book is open exactly if the market is. -/
  active : ∀ book ∈ registry.books, book.isActive = registry.isActive
  /-- A closed book has no order in any of its queues. -/
  empty : ∀ book ∈ registry.books, book.isActive = false → book.orders = []
  /-- The places in the order of creation are those to which the securities lead. -/
  shared : ∀ place, place ∈ registry.byAge ↔
    ∃ security : String, registry.bySecurity[security]? = some place
  /-- No place is in the order twice. -/
  once : registry.byAge.Nodup
  /-- A book stands at every place in the order, and at no other. -/
  stands : ∀ place, place ∈ registry.byAge ↔ place < registry.shelf.length
  /-- A security leads to a book that bears it. -/
  keyed : ∀ (security : String) (place : Nat), registry.bySecurity[security]? = some place →
    registry.shelf[place]?.map Book.security = some security
  /-- No two books bear one security. -/
  distinct : (registry.books.map (·.security)).Nodup
  /-- A book holds orders of its own security. -/
  filed : ∀ book ∈ registry.books, ∀ order ∈ book.orders, order.security = book.security
  /-- The securities that are listed are those of the books. -/
  listed : registry.securities.Perm (registry.books.map (·.security))
  /-- Securities are listed in the order of their bytes. -/
  ascending : (registry.securities.map Text.utf8).Pairwise (· < ·)
  /-- No identifier is held twice in the queues of all books together. -/
  unique : ((registry.books.flatMap Book.orders).map (·.id)).Nodup

/-- A registry that represents a consistent market is consistent: both ways lead to its books. -/
theorem Represents.consistent {registry : Registry} {market : Market}
    (represents : registry.Represents market) (consistent : market.Consistent) :
    registry.Consistent where
  active := by
    rw [represents.books_eq, represents.isActive]
    exact consistent.active
  empty := by
    rw [represents.books_eq]
    exact consistent.empty
  shared := by
    intro place
    rw [represents.aged, List.mem_range]
    constructor
    · intro inside
      exact ⟨registry.shelf[place].security, (represents.keyed _ _).mpr
        (by rw [List.getElem?_eq_getElem inside, Option.map_some])⟩
    · rintro ⟨security, leads⟩
      obtain ⟨book, here, -⟩ := represents.found leads
      exact (List.getElem?_eq_some_iff.mp here).1
  once := by
    rw [represents.aged]
    exact List.nodup_range
  stands := by
    intro place
    rw [represents.aged, List.mem_range]
  keyed := fun security place => (represents.keyed security place).mp
  distinct := by
    rw [represents.books_eq]
    exact represents.distinct
  filed := by
    rw [represents.books_eq]
    exact consistent.filed
  listed := by
    rw [represents.books_eq, represents.securities_eq]
    exact consistent.listed
  ascending := by
    rw [represents.securities_eq]
    exact consistent.ascending
  unique := by
    rw [represents.books_eq]
    exact consistent.unique

/-- Whatever operations a market goes through, as long as orders come as requests and no
identifier has returned, its registry is consistent: above all, the securities and the order of
creation lead to the same books. If the market closes then, it reports each order that it holds as
cancelled because it closes, once and in the order of the books, and reports nothing else. None of
these orders is reported on again, whatever comes later, unless a request for it is refused. -/
theorem market_stays_consistent (firstId : OrderId) (capacity : Nat)
    (operations later : List MarketOperation)
    (requested : ∀ operation ∈ operations ++ later, operation.bringsId = false)
    (few : (operations ++ later).countP (·.takesId) ≤ Word.limit) :
    let registry := ((opened firstId capacity).performAll operations).1
    let closed := registry.perform .stop
    let run := closed.1.performAll later
    registry.Consistent ∧
      closed.2.reports = Book.closingReports (registry.books.flatMap Book.orders) ∧
      ∀ order ∈ registry.books.flatMap Book.orders,
        reportsOn order.id closed.2.reports =
            [Report.of .cancelled order Reason.closing.text] ∧
          reportsOn order.id (run.2.flatMap (·.reports)) = [] := by
  intro registry closed run
  obtain ⟨consistent, reported, once⟩ :=
    Market.run_consistent firstId capacity operations later requested few
  obtain ⟨represents, -⟩ := (represents_opened firstId capacity).run operations
  obtain ⟨next, effects⟩ := represents.perform .stop
  obtain ⟨-, after⟩ := next.run later
  refine ⟨represents.consistent consistent, ?_, ?_⟩
  · rw [represents.books_eq]
    exact (congrArg Effects.reports effects).trans reported
  · rw [represents.books_eq]
    intro order held
    obtain ⟨cancelled, silent⟩ := once order held
    exact ⟨(congrArg (fun effects => reportsOn order.id effects.reports) effects).trans cancelled,
      (congrArg (fun run => reportsOn order.id (run.flatMap (·.reports))) after).trans silent⟩

/-- Two securities lead to two books, which stand in the order of their first requests. The partly
filled sale and the parked purchase are cancelled once each when the market closes.
The later cancellation of the sale is refused, so nothing more is reported on it. -/
theorem two_open_books_close :
    let registry := ((opened ⟨1⟩ 5).performAll Market.twoOpenBooks).1
    let closed := registry.perform .stop
    let run := closed.1.performAll Market.secondOpening
    (∀ operation ∈ Market.twoOpenBooks ++ Market.secondOpening, operation.bringsId = false) ∧
      (Market.twoOpenBooks ++ Market.secondOpening).countP (·.takesId) ≤ Word.limit ∧
      registry.bySecurity.toList = [("A", 1), ("B", 0)] ∧ registry.byAge = [0, 1] ∧
      closed.2.reports.map (fun report => (report.order.value, report.leaves)) = [(1, 3), (3, 3)] ∧
      (run.2.flatMap (·.reports)).map (fun report => (report.order.value, report.kind)) =
        [(1, .cancelRejected), (5, .new), (5, .cancelled)] ∧
      registry.Consistent ∧
      closed.2.reports = Book.closingReports (registry.books.flatMap Book.orders) ∧
      ∀ order ∈ registry.books.flatMap Book.orders,
        reportsOn order.id closed.2.reports =
            [Report.of .cancelled order Reason.closing.text] ∧
          reportsOn order.id (run.2.flatMap (·.reports)) = [] :=
  ⟨by decide, by decide, by decide, by decide, by decide, by decide,
    market_stays_consistent ⟨1⟩ 5 Market.twoOpenBooks Market.secondOpening (by decide) (by decide)⟩

end Registry

end Bourse
