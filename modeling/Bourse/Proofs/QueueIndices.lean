import Bourse.Proofs.Lines

/-!
# Queues in two indices

A queue may be held in two indices. The one by price leads from the positions of the orders, in
their order, to identifiers; the one by identifier holds the orders, each with its position. Every
operation changes the two one after the other, and nothing but the positions ties them together.

Positions are compared by price and then by arrival, with the better price first, so that the
index by price lists an ordered queue as it stands: the positions of its entries are distinct and
ascend.
-/

namespace Bourse

/-- How a direction compares two prices: the better one is the lesser. -/
def Direction.compare : Direction → Int → Int → Ordering
  | .lowestFirst, first, second => Ord.compare first second
  | .highestFirst, first, second => Ord.compare second first

/-- How a direction compares two positions: by price, and then by arrival. -/
def comparePositions (direction : Direction) : Int × Nat → Int × Nat → Ordering :=
  compareLex (fun first second => direction.compare first.1 second.1)
    (fun first second => Ord.compare first.2 second.2)

section Compare

variable (direction : Direction)

instance Direction.compare_trans : Std.TransCmp direction.compare := by
  cases direction with
  | lowestFirst =>
    exact inferInstanceAs (Std.TransCmp fun first second : Int => Ord.compare first second)
  | highestFirst =>
    exact inferInstanceAs (Std.TransCmp fun first second : Int => Ord.compare second first)

instance Direction.compare_lawful : Std.LawfulEqCmp direction.compare := by
  cases direction with
  | lowestFirst =>
    exact inferInstanceAs (Std.LawfulEqCmp fun first second : Int => Ord.compare first second)
  | highestFirst =>
    exact inferInstanceAs (Std.LawfulEqCmp fun first second : Int => Ord.compare second first)

/-- A price comes before another exactly if it is better. -/
theorem Direction.compare_lt_iff (first second : Int) :
    direction.compare first second = .lt ↔ direction.better first second = true := by
  cases direction <;> simp [Direction.compare, Direction.better, Int.compare_eq_lt]

instance compare_prices_trans :
    Std.TransCmp fun first second : Int × Nat => direction.compare first.1 second.1 where
  eq_swap := Std.OrientedCmp.eq_swap
  isLE_trans := Std.TransCmp.isLE_trans

instance compare_arrivals_trans :
    Std.TransCmp fun first second : Int × Nat => compare first.2 second.2 where
  eq_swap := Std.OrientedCmp.eq_swap
  isLE_trans := Std.TransCmp.isLE_trans

instance compare_positions_trans : Std.TransCmp (comparePositions direction) :=
  inferInstanceAs (Std.TransCmp (compareLex _ _))

instance compare_positions_lawful : Std.LawfulEqCmp (comparePositions direction) where
  compare_self := Std.ReflCmp.compare_self
  eq_of_compare := by
    intro first second same
    obtain ⟨price, arrival⟩ := Ordering.then_eq_eq.mp same
    exact Prod.ext (Std.LawfulEqCmp.eq_of_compare price) (Std.LawfulEqCmp.eq_of_compare arrival)

end Compare

instance OrderId.hashable : Hashable OrderId := ⟨fun id => hash id.value⟩

/-- An order in the index by identifier, with its position in the index by price. -/
structure Slot where
  position : Int × Nat
  order : Order

/-- A queue in two indices, and the number of the next arrival. -/
structure Store (direction : Direction) where
  byPrice : Std.TreeMap (Int × Nat) OrderId (comparePositions direction)
  byId : Std.HashMap OrderId Slot
  nextArrival : Nat

namespace Store

variable {direction : Direction} (store : Store direction)

/-- The store without orders. -/
def empty : Store direction := ⟨∅, ∅, 0⟩

/-- The order with an identifier. -/
def get? (id : OrderId) : Option Order := store.byId[id]?.map (·.order)

/-- The first entry of the index by price. -/
def head? : Option ((Int × Nat) × OrderId) := store.byPrice.toList.head?

/-- The best order that arrived first. -/
def first? : Option Order := store.head?.bind fun (_, id) => store.get? id

/-- The orders, best first. -/
def orders : List Order := store.byPrice.toList.filterMap fun (_, id) => store.get? id

/-- The store without an identifier and the position that it has in a slot. -/
def dropped (id : OrderId) (slot : Slot) : Store direction :=
  { store with byPrice := store.byPrice.erase slot.position, byId := store.byId.erase id }

/-- The store with an order in a new position behind everything at a price. -/
def placed (key : Int) (order : Order) : Store direction :=
  let position := (key, store.nextArrival)
  { byPrice := store.byPrice.insert position order.id
    byId := store.byId.insert order.id ⟨position, order⟩
    nextArrival := store.nextArrival + 1 }

/-- The store with another order in a slot. -/
def rewritten (id : OrderId) (order : Order) : Store direction :=
  { store with byId := store.byId.modify id fun slot => { slot with order } }

/-- The store with an order at a price, and in no other position. -/
def insert (key : Int) (order : Order) : Store direction :=
  match store.byId[order.id]? with
  | some slot => (store.dropped order.id slot).placed key order
  | none => store.placed key order

/-- The order with an identifier, and the store without it. -/
def erase (id : OrderId) : Except Refusal (Order × Store direction) :=
  match store.byId[id]? with
  | some slot => .ok (slot.order, store.dropped id slot)
  | none => .error (.unknownOrder id)

/-- The order that a cancellation names, under its new name, and the store without it. -/
def cancel (image : Order) : Except Refusal (Order × Store direction) :=
  (store.erase image.id).map fun (order, rest) => (order.renamed image, rest)

/-- The store with the order that a replacement names replaced in its slot, and what ought to
become of its position. -/
def replace (image : Order) : Except Refusal (Store direction × Order.Priority) :=
  match store.byId[image.id]? with
  | none => .error (.unknownOrder image.id)
  | some slot =>
    match slot.order.replace image with
    | none => .error .notAboveFilled
    | some (order, priority) => .ok (store.rewritten image.id order, priority)

/-- The first order, and the store without the first entry of either index. -/
def popFirst : Option Order × Store direction :=
  match store.head? with
  | none => (none, store)
  | some (position, id) =>
    (store.get? id,
      { store with byPrice := store.byPrice.erase position, byId := store.byId.erase id })

/-- The first order after a fill, and the store, which drops the order as soon as it has nothing
left to show. -/
def fillFirst (price quantity : Int) : Option Order × Store direction :=
  match store.head? with
  | none => (none, store)
  | some (_, id) =>
    match store.byId[id]? with
    | none => (none, store)
    | some slot =>
      let filled := slot.order.fill price quantity
      let next := store.rewritten id filled
      if filled.pending = 0 then
        match next.erase id with
        | .ok (order, rest) => (some order, rest)
        | .error _ => (none, next)
      else (some filled, next)

/-- What is done to a store, and its answer. -/
def act : Queue.Action → Store direction × Queue.Answer
  | .insert key order => (store.insert key order, .queued)
  | .cancel image =>
    match store.cancel image with
    | .ok (order, rest) => (rest, .taken (.ok order))
    | .error refusal => (store, .taken (.error refusal))
  | .erase id =>
    match store.erase id with
    | .ok (order, rest) => (rest, .taken (.ok order))
    | .error refusal => (store, .taken (.error refusal))
  | .replace image =>
    match store.replace image with
    | .ok (next, priority) => (next, .replaced (.ok priority))
    | .error refusal => (store, .replaced (.error refusal))
  | .fill price quantity =>
    let (order, next) := store.fillFirst price quantity
    (next, .first order)
  | .popFirst =>
    let (order, rest) := store.popFirst
    (rest, .first order)

/-- Stores as queues. -/
def realization (direction : Direction) : Queue.Realization where
  State := Store direction
  start := empty
  act := act
  contents := fun store =>
    ⟨store.get?, store.first?, store.orders, store.byId.size, store.byId.isEmpty⟩

end Store

namespace Queue

variable {direction : Direction} {queue : Queue direction}

/-- Where an entry stands. -/
def Entry.position (entry : Entry) : Int × Nat := (entry.key, entry.arrival)

/-- An entry in the index by identifier. -/
def Entry.indexed (entry : Entry) : Slot := ⟨entry.position, entry.order⟩

/-- A position comes before another exactly if its entry is ahead. -/
theorem position_lt_iff (first second : Entry) :
    comparePositions direction first.position second.position = .lt ↔
      first.ahead direction second = true := by
  rw [Entry.ahead_iff, comparePositions, compareLex, Ordering.then_eq_lt, direction.compare_lt_iff,
    Std.LawfulEqCmp.compare_eq_iff_eq, Nat.compare_eq_lt]
  rfl

/-- No position is ahead of itself. -/
theorem position_irrefl (position : Int × Nat) :
    comparePositions direction position position ≠ .lt := by
  have self : comparePositions direction position position = .eq := Std.ReflCmp.compare_self
  rw [self]
  decide

/-- No two entries of an ordered queue have the same position. -/
theorem Ordered.same_position (ordered : queue.Ordered) {entry other : Entry}
    (member : entry ∈ queue.entries) (present : other ∈ queue.entries)
    (same : entry.position = other.position) : entry = other := by
  have distinct : (queue.entries.map Entry.position).Nodup := by
    refine List.pairwise_map.mpr (ordered.sorted.imp fun {first second} ahead equal => ?_)
    rw [← position_lt_iff, equal] at ahead
    exact position_irrefl _ ahead
  exact List.inj_on_of_nodup_map distinct member present same

/-- In an ordered queue, an order is found exactly if an entry holds it. -/
theorem Ordered.get_iff (ordered : queue.Ordered) (id : OrderId) (order : Order) :
    queue.get? id = some order ↔
      ∃ entry ∈ queue.entries, entry.order.id = id ∧ entry.order = order := by
  constructor
  · intro found
    obtain ⟨named, ⟨entry, member, rfl⟩, -⟩ := ordered.get found
    exact ⟨entry, member, named, rfl⟩
  · rintro ⟨entry, member, rfl, rfl⟩
    cases found : queue.get? entry.order.id with
    | none =>
      have absent := List.find?_eq_none.mp found entry.order (List.mem_map_of_mem member)
      simp at absent
    | some order =>
      rw [(ordered.get found).2.2 entry member rfl]

section First

variable {maker : Entry} {behind : List Entry}

/-- The first entry is the one that its identifier takes out. -/
theorem Ordered.without_first (ordered : queue.Ordered) (first : queue.entries = maker :: behind) :
    without maker.order.id queue.entries = behind := by
  have distinct := ordered.distinct
  rw [first, List.map_cons, List.nodup_cons] at distinct
  rw [first, without, List.filter_cons_of_neg (by simp)]
  refine List.filter_eq_self.mpr fun other member => bne_iff_ne.mpr ?_
  rintro same
  exact distinct.1 (same ▸ List.mem_map_of_mem member)

/-- The first entry is the one that its identifier changes. -/
theorem Ordered.with_order_first (ordered : queue.Ordered)
    (first : queue.entries = maker :: behind) {order : Order} (same : order.id = maker.order.id) :
    withOrder order queue.entries = { maker with order } :: behind := by
  have distinct := ordered.distinct
  rw [first, List.map_cons, List.nodup_cons] at distinct
  rw [first, withOrder, List.map_cons, if_pos (by simp [same])]
  refine congrArg _ ((List.map_congr_left fun other member => if_neg ?_).trans (List.map_id _))
  intro equal
  exact distinct.1 (same ▸ eq_of_beq equal ▸ List.mem_map_of_mem member)

end First

end Queue

end Bourse
