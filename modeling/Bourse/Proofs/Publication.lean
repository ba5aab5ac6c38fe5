import Bourse.Proofs.MarketRuns

/-!
# What subscribers see

Whoever keeps the last record that was published of every security has, after each sweep, the
record that a query shows at that moment. Nothing is missed in between: a book whose picture
was ever another one than that of its creation has been published by the next sweep, and a book
that is not marked as changed still has the picture last taken from it.

A mark may be set without a change, and stays until the next sweep; it is never missing after
one. So two things are kept along a run. The books without a mark agree with what was taken
from them last, and with what they showed at first if nothing was: `Agrees`. A security that
has a mark or was published never comes to have neither: `Noted`.
-/

namespace Bourse

/-- The records that are published, in their order. -/
def published (done : List Effects) : List Record :=
  done.flatMap fun effects => effects.pictures.flatMap (·.records)

/-- The records that are taken from books, in queries and in sweeps. -/
def taken (done : List Effects) : List Record :=
  done.flatMap fun effects =>
    effects.views.map (·.record) ++ effects.pictures.flatMap (·.records)

/-- The pictures of the books as they were created. -/
def openings (done : List Effects) : List Record :=
  done.flatMap fun effects => effects.created.map Book.picture

/-- The first of the records that is of a security. -/
def earliest (security : String) (records : List Record) : Option Record :=
  records.find? (·.security == security)

/-- The last of the records that is of a security. -/
def latest (security : String) (records : List Record) : Option Record :=
  earliest security records.reverse

section Records

variable {security : String} {records later : List Record} {record : Record}

/-- The earliest record of a security is that of the first records, or else that of the later. -/
theorem earliest_append :
    earliest security (records ++ later) =
      (earliest security records).or (earliest security later) :=
  List.find?_append

/-- The latest is that of the later records, or else that of the first. -/
theorem latest_append :
    latest security (records ++ later) = (latest security later).or (latest security records) := by
  rw [latest, List.reverse_append, earliest_append]
  rfl

/-- What is found is one of the records, and of the security. -/
theorem earliest_some (found : earliest security records = some record) :
    record ∈ records ∧ record.security = security := by
  have named := List.find?_some found
  exact ⟨List.mem_of_find?_eq_some found, eq_of_beq named⟩

/-- The latest record of a security is one of the records, and of that security. -/
theorem latest_some (found : latest security records = some record) :
    record ∈ records ∧ record.security = security := by
  obtain ⟨member, named⟩ := earliest_some found
  exact ⟨List.mem_reverse.mp member, named⟩

/-- Nothing is found where no record is of the security. -/
theorem earliest_none (absent : security ∉ records.map (·.security)) :
    earliest security records = none := by
  apply List.find?_eq_none.mpr
  intro record member
  have other : record.security ≠ security := by
    rintro rfl
    exact absent (List.mem_map_of_mem member)
  simpa using other

/-- There is none if no record is of the security. -/
theorem latest_none (absent : security ∉ records.map (·.security)) :
    latest security records = none := by
  refine earliest_none ?_
  rwa [List.map_reverse, List.mem_reverse]

/-- Where something was published of a security, there is a last record of it. -/
theorem latest_of_mem (member : record ∈ records) :
    ∃ last, latest record.security records = some last := by
  cases found : latest record.security records with
  | none =>
    have other := List.find?_eq_none.mp found record (List.mem_reverse.mpr member)
    simp at other
  | some last => exact ⟨last, rfl⟩

end Records

namespace Market

variable {market next : Market} {first log extra : List Record}

/-- What was taken from the books of a market, and what they showed when they were created,
agrees with the books that have no mark. -/
structure Agrees (market : Market) (first log : List Record) : Prop where
  begun : first.map (·.security) = market.books.map (·.security)
  known : ∀ record ∈ log, record.security ∈ market.books.map (·.security)
  current : ∀ book ∈ market.books, book.hasChanged = false →
    (latest book.security log).or (earliest book.security first) = some book.picture

/-- A picture bears the security of its book. -/
theorem Orderly.picture_security (orderly : market.Orderly) {book : Book}
    (member : book ∈ market.books) : book.picture.security = book.security :=
  orderly.titled book member

/-- Of the pictures of the books one alone is of the security of a book. -/
theorem Orderly.only_picture (orderly : market.Orderly) {book other : Book}
    (member : book ∈ market.books) (present : other ∈ market.books)
    (same : other.picture.security = book.picture.security) : other.picture = book.picture := by
  rw [orderly.picture_security member, orderly.picture_security present] at same
  rw [List.inj_on_of_nodup_map orderly.distinct present member same]

/-- What is looked up of a book's security is the picture of the book, if it is among pictures
of books. -/
theorem Orderly.latest_picture (orderly : market.Orderly) {book : Book}
    (member : book ∈ market.books)
    (pictures : ∀ record ∈ extra, ∃ other ∈ market.books, record = other.picture) :
    latest book.security extra = none ∨ latest book.security extra = some book.picture := by
  cases found : latest book.security extra with
  | none => exact .inl rfl
  | some record =>
    obtain ⟨inside, named⟩ := latest_some found
    obtain ⟨other, present, rfl⟩ := pictures record inside
    right
    rw [orderly.only_picture member present (named.trans (orderly.picture_security member).symm)]

/-- Operations that publish nothing leave agreement, whatever pictures they show. -/
theorem Agrees.carried {effects : Effects} (agrees : market.Agrees first log)
    (orderly : market.Orderly) (carries : market.Carries next effects)
    (shown : ∀ record ∈ extra, ∃ book ∈ next.books, record = book.picture) :
    next.Agrees (first ++ effects.created.map Book.picture) (log ++ extra) where
  begun := by
    have created : (effects.created.map Book.picture).map (·.security) =
        effects.created.map (·.security) := by
      rcases carries.created with none | ⟨book, one, titled, -⟩
      · rw [none]
        rfl
      · rw [one]
        exact congrArg (fun security => [security]) titled
    rw [List.map_append, agrees.begun, created, carries.securities, List.map_append]
  known := by
    intro record member
    rcases List.mem_append.mp member with old | new
    · rw [carries.securities, List.map_append]
      exact List.mem_append_left _ (agrees.known record old)
    · obtain ⟨book, present, rfl⟩ := shown record new
      rw [(carries.orderly orderly).picture_security present]
      exact List.mem_map_of_mem present
  current := by
    intro book member unchanged
    obtain ⟨before, present, follows⟩ := follows_back carries.follows member
    have security : book.security = before.security := congrArg Prod.fst follows.titles
    obtain ⟨unmarked, picture⟩ := follows.tracked unchanged
    rw [latest_append, earliest_append]
    rcases (carries.orderly orderly).latest_picture member shown with nothing | last
    · rw [nothing, Option.none_or, security, picture, ← Option.or_assoc]
      rcases List.mem_append.mp present with old | new
      · rw [agrees.current before old unmarked, Option.some_or]
      · -- nothing was known of the security of a book that is created
        rcases carries.created with none | ⟨created, one, titled, absent⟩
        · simp [none] at new
        · rw [one] at new ⊢
          obtain rfl := List.mem_singleton.mp new
          have unlogged : latest before.security log = none := by
            refine latest_none fun known => ?_
            obtain ⟨record, inside, named⟩ := List.mem_map.mp known
            exact absent (named ▸ agrees.known record inside)
          have unopened : earliest before.security first = none :=
            earliest_none (agrees.begun ▸ absent)
          have own : before.picture.security = before.security := titled
          rw [unlogged, unopened, ← own]
          simp [earliest]
    · rw [last, Option.some_or, Option.some_or]

/-- What a sweep publishes are pictures of books. -/
theorem changes_pictures (market : Market) :
    ∀ record ∈ market.changes.reverse, ∃ book ∈ market.books, record = book.picture := by
  intro record member
  obtain ⟨book, changed, rfl⟩ := List.mem_map.mp (List.mem_reverse.mp member)
  exact ⟨book, List.mem_of_mem_filter changed, rfl⟩

/-- A book with a mark is published by a sweep. -/
theorem picture_mem_changes {book : Book} (member : book ∈ market.books)
    (marked : book.hasChanged = true) : book.picture ∈ market.changes.reverse :=
  List.mem_reverse.mpr (List.mem_map_of_mem (List.mem_filter.mpr ⟨member, marked⟩))

/-- A sweep leaves agreement. -/
theorem Agrees.swept (agrees : market.Agrees first log) (orderly : market.Orderly) :
    market.sweep.2.Agrees first (log ++ market.sweep.1.pictures.flatMap (·.records)) := by
  rw [(sweep_records orderly).1]
  refine ⟨agrees.begun.trans market.swept_securities.symm, ?_, ?_⟩
  · intro record member
    rw [swept_securities]
    rcases List.mem_append.mp member with old | new
    · exact agrees.known record old
    · obtain ⟨book, present, rfl⟩ := market.changes_pictures record new
      rw [orderly.picture_security present]
      exact List.mem_map_of_mem present
  · intro book member _
    obtain ⟨before, present, rfl⟩ := List.mem_map.mp member
    obtain ⟨titles, picture, -⟩ := swept_book before
    have security := congrArg Prod.fst titles
    simp only [Book.titles] at security
    rw [security, picture, latest_append]
    rcases orderly.latest_picture present market.changes_pictures with nothing | last
    · have unmarked : before.hasChanged = false := by
        by_contra marked
        obtain ⟨record, found⟩ :=
          latest_of_mem (picture_mem_changes present (by simpa using marked))
        rw [orderly.picture_security present, nothing] at found
        contradiction
      rw [nothing, Option.none_or]
      exact agrees.current before present unmarked
    · rw [last, Option.some_or, Option.some_or]

/-- A security that something was published of, or whose book has a mark. -/
def Noted (market : Market) (log : List Record) (security : String) : Prop :=
  security ∈ log.map (·.security) ∨
    ∃ book ∈ market.books, book.security = security ∧ book.hasChanged = true

/-- A book that shows something else than at first is noted. -/
theorem Agrees.noted (agrees : market.Agrees first log) {book : Book}
    (member : book ∈ market.books) (other : earliest book.security first ≠ some book.picture) :
    market.Noted log book.security := by
  by_cases logged : book.security ∈ log.map (·.security)
  · exact .inl logged
  · right
    refine ⟨book, member, rfl, ?_⟩
    by_contra unmarked
    have current := agrees.current book member (by simpa using unmarked)
    rw [latest_none logged, Option.none_or] at current
    exact other current

/-- A security that is noted stays so. -/
theorem Noted.turn {effects : Effects} {done : List Effects} {security : String}
    (noted : market.Noted (published done) security) (orderly : market.Orderly)
    (turn : market.Turn next effects) :
    next.Noted (published (done ++ [effects])) security := by
  have more : published (done ++ [effects]) =
      published done ++ effects.pictures.flatMap (·.records) := by
    simp [published]
  rw [more, Noted, List.map_append]
  rcases noted with logged | ⟨book, member, same, marked⟩
  · exact .inl (List.mem_append_left _ logged)
  · cases turn with
    | kept carries =>
      obtain ⟨after, present, follows⟩ :=
        follows_onward carries.follows (List.mem_append_left effects.created member)
      have security : after.security = book.security := congrArg Prod.fst follows.titles
      refine .inr ⟨after, present, security.trans same, ?_⟩
      by_contra unmarked
      rw [(follows.tracked (by simpa using unmarked)).1] at marked
      contradiction
    | sweep =>
      refine .inl (List.mem_append_right _ ?_)
      rw [(sweep_records orderly).1, ← same, ← orderly.picture_security member]
      exact List.mem_map_of_mem (picture_mem_changes member marked)

/-- Along a run, the books without a mark agree with what was published of them and with what
was taken from them. -/
theorem run_agrees (firstId : OrderId) (capacity : Nat) (operations : List MarketOperation) :
    let run := (opened firstId capacity).performAll operations
    run.1.Orderly ∧ run.1.Agrees (openings run.2) (published run.2) ∧
      run.1.Agrees (openings run.2) (taken run.2) := by
  have kept := run_keeps
    (P := fun market done => market.Agrees (openings done) (published done) ∧
      market.Agrees (openings done) (taken done))
    (fun {market next effects done} orderly turn agrees => by
      have openings_append : openings (done ++ [effects]) =
          openings done ++ effects.created.map Book.picture := by simp [openings]
      have published_append : published (done ++ [effects]) =
          published done ++ effects.pictures.flatMap (·.records) := by simp [published]
      have taken_append : taken (done ++ [effects]) = taken done ++
          (effects.views.map (·.record) ++ effects.pictures.flatMap (·.records)) := by
        simp [taken]
      rw [openings_append, published_append, taken_append]
      cases turn with
      | kept carries =>
        rw [carries.unpublished, List.flatMap_nil, List.append_nil, List.append_nil]
        constructor
        · have nothing : ∀ record ∈ [], ∃ book ∈ next.books, record = book.picture := by simp
          simpa only [List.append_nil] using agrees.1.carried orderly carries nothing
        · refine agrees.2.carried orderly carries ?_
          intro record member
          obtain ⟨view, shown, rfl⟩ := List.mem_map.mp member
          exact carries.shown view shown
      | sweep =>
        rw [List.map_nil, List.append_nil, List.map_nil, List.nil_append]
        exact ⟨agrees.1.swept orderly, agrees.2.swept orderly⟩)
    operations (opened firstId capacity) [] (orderly_opened firstId capacity)
    ⟨⟨rfl, by simp [published], by simp [opened]⟩, ⟨rfl, by simp [taken], by simp [opened]⟩⟩
  simpa only [List.nil_append] using kept

/-- After a sweep no book has a mark. -/
theorem swept_unmarked (market : Market) :
    ∀ book ∈ market.sweep.2.books, book.hasChanged = false := by
  intro book member
  obtain ⟨before, -, rfl⟩ := List.mem_map.mp member
  exact (swept_book before).2.2

/-- After a sweep, the last published record of every security that was ever published is the one
that a query shows at that moment, and every book that has shown something else than at its
creation, at any time before, was published.

At any other time, a book without a mark has the picture that was last taken from it, by a query
or by a sweep, and the picture that was last published of it; if there is none, it has the picture
that it was created with. -/
theorem subscribers_see_the_truth (firstId : OrderId) (capacity : Nat)
    (operations : List MarketOperation) :
    let run := (opened firstId capacity).performAll operations
    let swept := (opened firstId capacity).performAll (operations ++ [.sweep])
    (∀ security record, latest security (published swept.2) = some record →
        ∃ view, swept.1.picture security = .ok view ∧ view.record = record) ∧
      (∀ earlier, earlier <+: operations →
        let before := (opened firstId capacity).performAll earlier
        ∀ book ∈ before.1.books,
          earliest book.security (openings before.2) ≠ some book.picture →
            ∃ record, latest book.security (published swept.2) = some record) ∧
      ∀ book ∈ run.1.books, book.hasChanged = false →
        (latest book.security (taken run.2)).or (earliest book.security (openings run.2)) =
            some book.picture ∧
          (latest book.security (published run.2)).or
            (earliest book.security (openings run.2)) = some book.picture := by
  intro run swept
  have unmarked : ∀ book ∈ swept.1.books, book.hasChanged = false := by
    simp only [swept, perform_all_append]
    exact run.1.swept_unmarked
  refine ⟨?_, ?_, ?_⟩
  · intro security record last
    obtain ⟨orderly, agrees, -⟩ := run_agrees firstId capacity (operations ++ [.sweep])
    obtain ⟨member, rfl⟩ := latest_some last
    obtain ⟨book, present, same⟩ := List.mem_map.mp (agrees.known record member)
    have current := agrees.current book present (unmarked book present)
    have found : swept.1.book? book.security = some book := orderly.found present
    rw [same, last, Option.some_or] at current
    refine ⟨⟨book.isActive, book.counts, book.picture⟩, ?_, (Option.some.inj current).symm⟩
    simp only [picture, ← same, found]
  · rintro earlier ⟨later, rfl⟩ before book member other
    obtain ⟨orderly, agrees, -⟩ := run_agrees firstId capacity earlier
    -- the book is noted from then on, and after the sweep it has no mark
    have noted := (run_keeps (P := fun market done => market.Noted (published done) book.security)
      (fun orderly turn noted => noted.turn orderly turn) (later ++ [.sweep]) before.1 before.2
      orderly (agrees.noted member other)).2
    have reached : swept = ((before.1.performAll (later ++ [.sweep])).1,
        before.2 ++ (before.1.performAll (later ++ [.sweep])).2) := by
      simp only [swept, List.append_assoc, before]
      exact perform_all_append ..
    rw [reached] at unmarked ⊢
    rcases noted with logged | ⟨marked, present, -, mark⟩
    · obtain ⟨record, inside, same⟩ := List.mem_map.mp logged
      exact same ▸ latest_of_mem inside
    · rw [unmarked marked present] at mark
      contradiction
  · intro book member unmarked
    obtain ⟨-, agrees, agreesTaken⟩ := run_agrees firstId capacity operations
    exact ⟨agreesTaken.current book member unmarked, agrees.current book member unmarked⟩

end Market

end Bourse
