import Bourse.Refusal

/-!
# Queues

A queue holds orders by price, best first, and by arrival within a price. Which
price is best is part of the queue's type. An entry keeps the price under which its
order was queued, which is not always the order's own, and a number that grows with
every arrival; the two together are its position, and no two entries share one.

An identifier is in a queue at most once: an order that is queued again leaves its
old position.
-/

namespace Bourse

/-- Which end of the prices is best. -/
inductive Direction where
  | lowestFirst
  | highestFirst
  deriving DecidableEq, Repr

/-- Whether the first price is strictly better than the second. -/
def Direction.better : Direction → Int → Int → Bool
  | .lowestFirst, first, second => first < second
  | .highestFirst, first, second => second < first

namespace Queue

/-- An order with its position. -/
structure Entry where
  key : Int
  arrival : Nat
  order : Order
  deriving DecidableEq, Repr

/-- Whether the position of the first entry is ahead of that of the second: by
price, then by arrival. -/
def Entry.ahead (direction : Direction) (first second : Entry) : Bool :=
  direction.better first.key second.key ||
    (first.key == second.key && first.arrival < second.arrival)

end Queue

/-- Orders by price and arrival, best first, and the number of the next arrival. -/
structure Queue (direction : Direction) where
  entries : List Queue.Entry
  nextArrival : Nat
  deriving DecidableEq, Repr

namespace Queue

variable {direction : Direction}

/-- The queue without orders. -/
def empty : Queue direction where
  entries := []
  nextArrival := 0

instance : Inhabited (Queue direction) := ⟨empty⟩

/-- The orders, best first. -/
def orders (queue : Queue direction) : List Order := queue.entries.map (·.order)

/-- How many orders are queued. -/
def size (queue : Queue direction) : Nat := queue.entries.length

/-- Whether no order is queued. -/
def isEmpty (queue : Queue direction) : Bool := queue.entries.isEmpty

/-- The order with an identifier. -/
def get? (queue : Queue direction) (id : OrderId) : Option Order :=
  queue.orders.find? (·.id == id)

/-- The best order that arrived first. -/
def first? (queue : Queue direction) : Option Order := queue.orders.head?

/-- The entries with another one in front of the first that it is ahead of. -/
def place (direction : Direction) (entry : Entry) : List Entry → List Entry
  | [] => [entry]
  | other :: rest =>
    if entry.ahead direction other then entry :: other :: rest
    else other :: place direction entry rest

/-- The entries without the order with an identifier. -/
def without (id : OrderId) (entries : List Entry) : List Entry :=
  entries.filter (·.order.id != id)

/-- The queue with an order behind everything at its price. -/
def insert (queue : Queue direction) (key : Int) (order : Order) : Queue direction where
  entries := place direction ⟨key, queue.nextArrival, order⟩ (without order.id queue.entries)
  nextArrival := queue.nextArrival + 1

/-- The order with an identifier, and the queue without it. -/
def erase (queue : Queue direction) (id : OrderId) : Except Refusal (Order × Queue direction) :=
  match queue.get? id with
  | some order => .ok (order, { queue with entries := without id queue.entries })
  | none => .error (.unknownOrder id)

/-- The order that a cancellation names, under the name it gives the order, and
the queue without it. -/
def cancel (queue : Queue direction) (image : Order) : Except Refusal (Order × Queue direction) :=
  (queue.erase image.id).map fun (order, rest) => (order.renamed image, rest)

/-- The entries with another order in the position of the one with its identifier. -/
def withOrder (order : Order) (entries : List Entry) : List Entry :=
  entries.map fun entry => if entry.order.id == order.id then { entry with order } else entry

/-- The order that a replacement names as the replacement leaves it, the queue with
that order changed in its position, and what ought to become of the position. -/
def replace (queue : Queue direction) (image : Order) :
    Except Refusal (Order × Queue direction × Order.Priority) :=
  match queue.get? image.id with
  | none => .error (.unknownOrder image.id)
  | some order =>
    match order.replace image with
    | none => .error .notAboveFilled
    | some (replaced, priority) =>
      .ok (replaced, { queue with entries := withOrder replaced queue.entries }, priority)

/-- A replacement that is carried out to the end: an order that lost its place leaves
the queue, to be queued again wherever it belongs then. -/
def amend (queue : Queue direction) (image : Order) :
    Except Refusal (Order × Queue direction × Order.Priority) :=
  (queue.replace image).map fun (order, queue, priority) =>
    match priority with
    | .kept => (order, queue, .kept)
    | .lost => (order, { queue with entries := without image.id queue.entries }, .lost)

/-- The first order and the queue without it. -/
def popFirst? (queue : Queue direction) : Option (Order × Queue direction) :=
  match queue.entries with
  | [] => none
  | entry :: rest => some (entry.order, { queue with entries := rest })

/-- The first order after a fill, and the queue, which drops the order as soon as it
has nothing left to show. -/
def fillFirst? (queue : Queue direction) (price quantity : Int) :
    Option (Order × Queue direction) :=
  match queue.entries with
  | [] => none
  | entry :: rest =>
    let filled := entry.order.fill price quantity
    let entries := if filled.pending = 0 then rest else { entry with order := filled } :: rest
    some (filled, { queue with entries })

/-- The queue with all its orders gone. -/
def cleared (queue : Queue direction) : Queue direction := { queue with entries := [] }

end Queue

end Bourse
