import Bourse.Book.Operations
import Bourse.Order.Request
import Bourse.Picture

/-!
# The market

A market has one book for each security, in the order in which they were created.
A book is created by the first order for its security and is closed from the start
if the market is. The market gives identifiers to the orders submitted to it, and it
publishes the records of changed books in pictures.
-/

namespace Bourse

/-- The books of all securities, the batch that is carried from sweep to sweep, and
the next identifier. -/
structure Market where
  /-- The books, the oldest first. -/
  books : List Book
  batch : Batch
  nextId : OrderId
  isActive : Bool
  deriving DecidableEq, Repr

/-- What a query shows of a book. -/
structure BookView where
  isActive : Bool
  resting : Counts
  record : Record
  deriving DecidableEq, Repr

/-- What a sweep publishes. -/
structure Published where
  pictures : List Picture := []
  /-- How many records went out, added up picture by picture. -/
  count : Nat := 0
  deriving DecidableEq, Repr

/-- A batch goes out, and what is published later behind it. -/
def Published.flushed (batch : Batch) (later : Published) : Published where
  pictures := batch.picture :: later.pictures
  count := batch.size + later.count

namespace Market

/-- The market without books. -/
def opened (firstId : OrderId) (maxRecords : Nat) : Market where
  books := []
  batch := .ofCapacity maxRecords
  nextId := firstId
  isActive := true

/-- The book of a security. -/
def book? (market : Market) (security : String) : Option Book :=
  market.books.find? (·.security == security)

/-- The market with another book for a security. -/
def withBook (market : Market) (book : Book) : Market :=
  { market with
    books := market.books.map fun other => if other.security == book.security then book else other }

/-- The book that the first order for a security creates. -/
def firstBook (market : Market) (first : Order) : Book :=
  if market.isActive then .ofFirst first else (Book.ofFirst first).stop.1

/-- The market with a book for the security of an order, and that book. -/
def ensureBook (market : Market) (order : Order) : Book × Market :=
  match market.book? order.security with
  | some book => (book, market)
  | none =>
    let book := market.firstBook order
    (book, { market with books := market.books ++ [book] })

/-- The market with an order in the book of its security. -/
def insert (market : Market) (order : Order) : Market × List Report :=
  let (book, market) := market.ensureBook order
  let (book, reports) := book.insert order
  (market.withBook book, reports)

/-- An identifier for a request, and the order that it becomes. The identifier is
spent even if the request is refused. -/
def submit (market : Market) (request : NewOrder) :
    Except RequestError OrderId × Market × List Report :=
  let id := market.nextId
  let market := { market with nextId := id.next }
  match Order.ofNew id request with
  | .error error => (.error error, market, [])
  | .ok order =>
    let (market, reports) := market.insert order
    (.ok id, market, reports)

/-- An operation on the book of a security, if there is one. -/
def onBook (market : Market) (security : String) (operation : Book → Book × List Report) :
    Except Refusal (Market × List Report) :=
  match market.book? security with
  | none => .error (.unknownSecurity security)
  | some book =>
    let (book, reports) := operation book
    .ok (market.withBook book, reports)

/-- The market after a cancellation. -/
def cancel (market : Market) (image : Order) : Except Refusal (Market × List Report) :=
  market.onBook image.security (·.cancel image)

/-- The market after a replacement. -/
def replace (market : Market) (image : Order) : Except Refusal (Market × List Report) :=
  market.onBook image.security (·.replace image)

/-- The market with every book open. -/
def start (market : Market) : Market :=
  { market with books := market.books.map Book.start, isActive := true }

/-- The market with every book closed, the oldest first. -/
def stop (market : Market) : Market × List Report :=
  let closed := market.books.map Book.stop
  ({ market with books := closed.map (·.1), isActive := false }, closed.flatMap (·.2))

/-- The securities that have a book, in the order of their characters. -/
def securities (market : Market) : List String :=
  (market.books.map (·.security)).mergeSort fun first second => !(second < first)

/-- What a query on a security shows. It leaves the book as it is. -/
def picture (market : Market) (security : String) : Except Refusal BookView :=
  match market.book? security with
  | none => .error (.unknownSecurity security)
  | some book => .ok ⟨book.isActive, book.counts, book.picture⟩

/-- The batch with records behind each other, and what is published on the way. -/
def fillPictures : Batch → List Record → Published × Batch
  | batch, [] => if batch.isEmpty then ({}, batch) else (.flushed batch {}, batch.reset)
  | batch, record :: rest =>
    let batch := batch.push record
    if batch.isFull then
      let (later, last) := fillPictures batch.reset rest
      (.flushed batch later, last)
    else fillPictures batch rest

/-- What is published of all books that have changed, the newest book first, and the
market after that. -/
def sweep (market : Market) : Published × Market :=
  let changed := (market.books.filter (·.hasChanged)).map Book.picture
  let (published, batch) := fillPictures market.batch changed.reverse
  let books := market.books.map fun book => if book.hasChanged then book.publish.2 else book
  (published, { market with books, batch })

end Market

end Bourse
