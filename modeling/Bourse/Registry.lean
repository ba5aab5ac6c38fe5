import Bourse.Market
import Std.Data.TreeMap

/-!
# The registry of a market

A market comes to its books in two ways: by their securities, which is how requests and queries
find them, and in the order in which they were created, which is how the market is opened, closed
and swept. Every book stands once, at a place of its own, and both ways lead to this place; so
what is done to a book on one way is seen on the other. A new book is entered by its security
and then in the order, and nothing but this ties the two together.
-/

namespace Bourse

/-- The books of a market with the two ways to them, the batch that is carried from sweep to
sweep, and the next identifier. -/
structure Registry where
  /-- The books, each at its place. A place is never given to another book. -/
  shelf : List Book
  /-- The places of the books by their securities. -/
  bySecurity : Std.TreeMap String Nat
  /-- The places of the books in the order of their creation. -/
  byAge : List Nat
  batch : Batch
  nextId : OrderId
  isActive : Bool

namespace Registry

/-- The registry without books. -/
def opened (firstId : OrderId) (maxRecords : Nat) : Registry where
  shelf := []
  bySecurity := ∅
  byAge := []
  batch := .ofCapacity maxRecords
  nextId := firstId
  isActive := true

/-- The place of the book of a security. -/
def find (registry : Registry) (security : String) : Except Refusal Nat :=
  match registry.bySecurity[security]? with
  | some place => .ok place
  | none => .error (.unknownSecurity security)

/-- The book that the first order for a security creates, closed from the start if the market
is. -/
def firstBook (registry : Registry) (first : Order) : Book :=
  if registry.isActive then .ofFirst first else (Book.ofFirst first).stop.1

/-- The registry with the book that an order creates, entered by its security and in the order. -/
def enter (registry : Registry) (first : Order) : Registry :=
  let book := registry.firstBook first
  let place := registry.shelf.length
  { registry with
    shelf := registry.shelf ++ [book]
    bySecurity := registry.bySecurity.insert first.security place
    byAge := registry.byAge ++ [place] }

/-- The place of the book for the security of an order, and the registry with this book. -/
def findOrEnter (registry : Registry) (first : Order) : Nat × Registry :=
  match registry.find first.security with
  | .ok place => (place, registry)
  | .error _ => (registry.shelf.length, registry.enter first)

/-- Something is done to the book at a place. -/
def visit (registry : Registry) (operation : Book → Book × List Report) (place : Nat) :
    Registry × List Report :=
  match registry.shelf[place]? with
  | none => (registry, [])
  | some book =>
    let (book, reports) := operation book
    ({ registry with shelf := registry.shelf.set place book }, reports)

/-- Something is done to the books at places, one after the other. -/
def visitAll (registry : Registry) (operation : Book → Book × List Report) :
    List Nat → Registry × List Report
  | [] => (registry, [])
  | place :: places =>
    let (registry, reports) := registry.visit operation place
    let (registry, later) := registry.visitAll operation places
    (registry, reports ++ later)

/-- The registry with an order in the book of its security. -/
def insert (registry : Registry) (order : Order) : Registry × List Report :=
  let (place, registry) := registry.findOrEnter order
  registry.visit (·.insert order) place

/-- An identifier for a request, and the order that it becomes. The identifier is
spent even if the request is refused. -/
def submit (registry : Registry) (request : NewOrder) :
    Except RequestError OrderId × Registry × List Report :=
  let id := registry.nextId
  let registry := { registry with nextId := id.next }
  match Order.ofNew id request with
  | .error error => (.error error, registry, [])
  | .ok order =>
    let (registry, reports) := registry.insert order
    (.ok id, registry, reports)

/-- An operation on the book of a security, if there is one. -/
def onBook (registry : Registry) (security : String) (operation : Book → Book × List Report) :
    Except Refusal (Registry × List Report) :=
  (registry.find security).map (registry.visit operation)

/-- The registry after a cancellation. -/
def cancel (registry : Registry) (image : Order) : Except Refusal (Registry × List Report) :=
  registry.onBook image.security (·.cancel image)

/-- The registry after a replacement. -/
def replace (registry : Registry) (image : Order) : Except Refusal (Registry × List Report) :=
  registry.onBook image.security (·.replace image)

/-- The registry with every book open, the oldest first. -/
def start (registry : Registry) : Registry :=
  let registry := { registry with isActive := true }
  (registry.visitAll (fun book => (book.start, [])) registry.byAge).1

/-- The registry with every book closed, the oldest first. -/
def stop (registry : Registry) : Registry × List Report :=
  let registry := { registry with isActive := false }
  registry.visitAll Book.stop registry.byAge

/-- The securities that have a book, in the order of their characters. -/
def securities (registry : Registry) : List String :=
  registry.bySecurity.keys.mergeSort fun first second => !(second < first)

/-- What a query on a security shows. It leaves the book as it is. -/
def picture (registry : Registry) (security : String) : Except Refusal BookView := do
  let place ← registry.find security
  match registry.shelf[place]? with
  | none => .error (.unknownSecurity security)
  | some book => .ok ⟨book.isActive, book.counts, book.picture⟩

/-- What is published of the books at places that have changed, and the registry after that. A
batch goes out when it is full, and at the end if there is anything in it. -/
def sweepAll (registry : Registry) : List Nat → Published × Registry
  | [] =>
    if registry.batch.isEmpty then ({}, registry)
    else (.flushed registry.batch {}, { registry with batch := registry.batch.reset })
  | place :: places =>
    match registry.shelf[place]? with
    | none => registry.sweepAll places
    | some book =>
      if !book.hasChanged then registry.sweepAll places
      else
        let (record, book) := book.publish
        let batch := registry.batch.push record
        let registry := { registry with shelf := registry.shelf.set place book, batch }
        if batch.isFull then
          let (later, registry) := { registry with batch := batch.reset }.sweepAll places
          (.flushed batch later, registry)
        else registry.sweepAll places

/-- What is published of all books that have changed, the newest book first, and the
registry after that. -/
def sweep (registry : Registry) : Published × Registry :=
  registry.sweepAll registry.byAge.reverse

end Registry

end Bourse
